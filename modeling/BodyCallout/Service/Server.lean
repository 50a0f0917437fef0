import BodyCallout.Service.Broadcast
import BodyCallout.Service.Connection
import BodyCallout.Service.Gate
import BodyCallout.Settings.Basic
import BodyCallout.Wire.Framing

/-!
The server: a gate that lets connections in, the connections, and the store they share. Shutdown is a
signal to the gate and to every connection. The gate closes when it takes notice; a connection then
refuses new streams and lasts until its client is done with it, or until it is cut off.
-/

set_option autoImplicit false

namespace BodyCallout

structure Handler where
  connection : Connection
  receiver : Nat

structure Server where
  settings : Settings
  service : Service
  store : Store
  sweeper : Option Sweeper
  roll : Roll
  gate : Gate
  accepting : Bool
  shutdown : Broadcast
  handlers : Table Nat Handler

namespace Server

def gateReceiver : Nat := 0

def serviceOf (settings : Settings) (builder : Builder) : Service :=
  ⟨⟨builder, settings.buffering.bufferedDelivery, settings.buffering.overflow⟩,
    settings.correlation⟩

/-- There is no server if the connections it is to let in can not be counted. -/
def start? (settings : Settings) (builder : Builder) (now : Nat) : Option Server :=
  (Gate.ofSlots? settings.listener.maxConnections.toNat).map fun gate =>
    { settings := settings
      service := serviceOf settings builder
      store := { Store.empty settings.buffering.maxBodyBytes.toNat with now := now }
      sweeper := Sweeper.start? millisecond settings.buffering.idle
        settings.buffering.sweepInterval now
      roll := .start
      gate := gate
      accepting := true
      shutdown := Broadcast.start.subscribe
      handlers := .empty }

inductive Act where
  | arrive
  | letIn
  | trigger
  | closeGate
  | notice (number : Nat)
  | on (number : Nat) (act : Connection.Act)
  | dismiss (number : Nat)
  | cut (number : Nat)
  | pass (time : Nat)

def withConnection (s : Server) (number : Nat)
    (f : Connection → Store → Connection × Store) : Server :=
  match s.handlers.get? number with
  | none => s
  | some h =>
    let (c, store) := f h.connection s.store
    { s with
      store := store
      handlers := s.handlers.modify number fun h => { h with connection := c } }

def letIn (s : Server) : Server :=
  match s.accepting, s.gate.letIn with
  | true, (gate, true) =>
    let (roll, number) := s.roll.enter
    let connection := Connection.start number s.settings.listener.maxStreams.toNat
    { s with
      gate := gate
      roll := roll
      shutdown := (s.shutdown.resubscribe gateReceiver).1
      handlers := s.handlers.insert number ⟨connection, s.shutdown.receivers.length⟩ }
  | _, _ => s

def noticed (b : Broadcast) (receiver : Nat) : Option Broadcast :=
  match b.receive receiver with
  | (b, some .signal) => some b
  | (b, some (.lagged _)) => some b
  | _ => none

def closeGate (s : Server) : Server :=
  match noticed s.shutdown gateReceiver with
  | some b => { s with shutdown := b, accepting := false }
  | none => s

def notice (s : Server) (number : Nat) : Server :=
  match s.handlers.get? number with
  | none => s
  | some h =>
    if h.connection.draining then s
    else
      match noticed s.shutdown h.receiver with
      | none => s
      | some b => ({ s with shutdown := b }).withConnection number fun c store => (c.drain, store)

def remove (s : Server) (number : Nat) (h : Handler) : Server :=
  { s with
    roll := s.roll.leave
    gate := s.gate.release
    shutdown := (s.shutdown.drop h.receiver).1
    handlers := s.handlers.erase number }

def dismiss (s : Server) (number : Nat) : Server :=
  match s.handlers.get? number with
  | none => s
  | some h =>
    if h.connection.hungUp ∧ h.connection.tasks.size = 0 ∧ h.connection.queue = [] then
      s.remove number h
    else s

/-- With the gate closed, a connection may be made to go whatever it has left to do. -/
def cut (s : Server) (number : Nat) : Server :=
  match s.accepting, s.handlers.get? number with
  | false, some h => { s with store := h.connection.abandon s.store }.remove number h
  | _, _ => s

def pass (s : Server) (time : Nat) : Server :=
  match s.sweeper with
  | none => { s with store := s.store.advance time }
  | some w =>
    let (w, store) := w.sleep time s.store
    { s with sweeper := some w, store := store }

/-- A step that is not possible changes nothing. A connection drains only when it takes notice. -/
def step (s : Server) : Act → Server
  | .arrive => { s with gate := s.gate.arrive }
  | .letIn => s.letIn
  | .trigger => { s with shutdown := s.shutdown.trigger.1 }
  | .closeGate => s.closeGate
  | .notice number => s.notice number
  | .on _ .drain => s
  | .on number act => s.withConnection number fun c store => c.step s.service store act
  | .dismiss number => s.dismiss number
  | .cut number => s.cut number
  | .pass time => s.pass time

def steps (s : Server) (acts : List Act) : Server := acts.foldl step s

/-! How the steps are taken when every connection does at once all that it can. -/

def collect (s : Server) (number : Nat) : Server × List Outbound :=
  match s.handlers.get? number with
  | none => (s, [])
  | some h =>
    (s.withConnection number fun c store => ({ c with written := [] }, store),
      h.connection.written.map Parcel.frame)

def settle (s : Server) (number : Nat) (fresh : TransactionId) : Server × List Outbound :=
  let s := s.withConnection number fun c store => c.settle s.service fresh store
  s.collect number

def connect (s : Server) : Server × Option Nat :=
  let next := s.roll.next
  let s := (s.step .arrive).step .letIn
  (s, if (s.handlers.get? next).isSome then some next else none)

def hear (s : Server) (number : Nat) (fresh : TransactionId) (r : Receipt Inbound) :
    Server × List Outbound :=
  let act := match r with
    | .frame frame => .frame frame
    | .malformed fault => .fail (malformedMessage fault)
    | .tooLarge limit => .fail (tooLargeMessage limit)
  ((s.notice number).step (.on number act)).settle number fresh

def leave (s : Server) (number : Nat) (fresh : TransactionId) : Server × List Outbound :=
  let (s, frames) := (s.step (.on number .hangUp)).settle number fresh
  (s.dismiss number, frames)

def shutDown (s : Server) : Server :=
  let s := (s.step .trigger).closeGate
  s.handlers.keys.foldl notice s

end Server

end BodyCallout
