import BodyCallout.Service.StreamKey
import BodyCallout.Session.Basic
import BodyCallout.Wire.Frame

/-!
One connection. Its frames are dealt out to the streams they name, every stream has a session of its
own, and what the sessions answer comes together again in one queue, from which a writer takes it.
The parts take their steps in any order; each queue between them is first in, first out. When a
write fails the writer is gone, and each part finds out when it next has something to pass on.
-/

set_option autoImplicit false

namespace BodyCallout

inductive TaskStage where
  | running
  | ended (fault : Option SessionFault)
  | over
  deriving DecidableEq, Repr

/-- A stream that was opened: what its session has yet to take, and the answers that have yet to be
put in the connection's queue, as long as they are put there at all. -/
structure StreamTask where
  key : StreamKey
  session : Session
  inbox : List Item
  outbox : List Answer
  forwarding : Bool
  stage : TaskStage
  deriving DecidableEq, Repr

def StreamTask.start (key : StreamKey) (first : Item) : StreamTask :=
  ⟨key, .start (some key.text), [first], [], true, .running⟩

structure Parcel where
  generation : Option Nat
  frame : Outbound
  deriving DecidableEq, Repr

/-- `streams` tells the generation of each number that is open, `tasks` has the streams by their
generation; `broken` says that the writer is gone. -/
structure Connection where
  number : Nat
  maxStreams : Nat
  draining : Bool
  hungUp : Bool
  broken : Bool
  opened : Nat
  streams : Table UInt64 Nat
  tasks : Table Nat StreamTask
  queue : List Parcel
  written : List Parcel

inductive StreamRefusal where
  | draining
  | tooMany
  | closed
  deriving DecidableEq, Repr

def StreamRefusal.message : StreamRefusal → String
  | .draining => "server is shutting down"
  | .tooMany => "too many concurrent streams"
  | .closed => "stream closed"

namespace Connection

def start (number maxStreams : Nat) : Connection :=
  ⟨number, maxStreams, false, false, false, 0, .empty, .empty, [], []⟩

/-- Nobody takes what is sent after the writer is gone. -/
def send (c : Connection) (parcel : Parcel) : Connection :=
  if c.broken then c else { c with queue := c.queue ++ [parcel] }

def refuse (c : Connection) (stream : UInt64) (r : StreamRefusal) : Connection :=
  c.send ⟨none, .error stream r.message⟩

def takes (c : Connection) (generation : Nat) : Bool :=
  match c.tasks.get? generation with
  | some task => task.stage = .running
  | none => false

def deliver (c : Connection) (generation : Nat) (item : Item) : Connection :=
  { c with tasks := c.tasks.modify generation fun t =>
      if t.stage = .running then { t with inbox := t.inbox ++ [item] } else t }

def openStream (c : Connection) (stream : UInt64) (first : Item) : Connection :=
  { c with
    opened := c.opened + 1
    streams := c.streams.insert stream c.opened
    tasks := c.tasks.insert c.opened (.start ⟨c.number, stream, c.opened⟩ first) }

def giveUp (c : Connection) (stream : UInt64) (last : Item) : Connection :=
  match c.streams.get? stream with
  | none => c
  | some generation => { c with streams := c.streams.erase stream }.deliver generation last

def dispatch (c : Connection) : Inbound → Connection
  | .finish stream => c.giveUp stream .finish
  | .abort stream reason => c.giveUp stream (.abort reason)
  | .message stream event =>
    match c.streams.get? stream with
    | some generation =>
      if c.takes generation then c.deliver generation (.event event)
      else { c with streams := c.streams.erase stream }.refuse stream .closed
    | none =>
      if c.draining then c.refuse stream .draining
      else if c.maxStreams ≤ c.streams.size then c.refuse stream .tooMany
      else c.openStream stream (.event event)

def closedReason : String := "connection closed"

def hangUp (c : Connection) : Connection :=
  let c := c.streams.keys.foldl (fun c stream => c.giveUp stream (.abort closedReason)) c
  { c with hungUp := true }

/-- Tells the client, under number zero, why nothing more is read from it. -/
def fail (c : Connection) (message : String) : Connection :=
  (c.send ⟨none, .error 0 message⟩).hangUp

def drain (c : Connection) : Connection := { c with draining := true }

def setTask (c : Connection) (generation : Nat) (task : StreamTask) : Connection :=
  { c with tasks := c.tasks.modify generation fun _ => task }

end Connection

def StreamTask.finish (t : StreamTask) (fault : Option SessionFault) (s : Store) :
    StreamTask × Store :=
  let (session, s) := t.session.finish s
  ({ t with session := session, inbox := [], stage := .ended fault }, s.record .streamFinished)

/-- A stream's session takes its next item. It is over when its answer is not taken from it. -/
def StreamTask.work (service : Service) (fresh : TransactionId) (t : StreamTask) (s : Store) :
    StreamTask × Store :=
  match t.stage, t.inbox with
  | .running, .event event :: rest =>
    let t := { t with inbox := rest }
    match t.session.handle service event fresh s with
    | (session, s, .ok a) =>
      if t.forwarding then ({ t with session := session, outbox := t.outbox ++ [a] }, s)
      else { t with session := session }.finish (some .outboundClosed) s
    | (session, s, .error d) => { t with session := session }.finish (some (.duplicate d)) s
  | .running, _ :: _ => t.finish none s
  | _, _ => (t, s)

namespace Connection

inductive Act where
  | frame (frame : Inbound)
  | hangUp
  | fail (message : String)
  | drain
  | work (generation : Nat) (fresh : TransactionId)
  | forward (generation : Nat)
  | report (generation : Nat)
  | reap (generation : Nat)
  | write
  | breakOff

/-- An answer goes on to the connection's queue. If it can not, no answer of this stream does. -/
def forward (c : Connection) (generation : Nat) : Connection :=
  match c.tasks.get? generation with
  | some task =>
    match task.outbox with
    | [] => c
    | a :: rest =>
      if c.broken then c.setTask generation { task with outbox := [], forwarding := false }
      else
        (c.setTask generation { task with outbox := rest }).send
          ⟨some generation, .answer task.key.stream a⟩
  | none => c

def report (c : Connection) (generation : Nat) : Connection :=
  match c.tasks.get? generation with
  | some task =>
    match task.stage, task.outbox with
    | .ended fault, [] =>
      let c := c.setTask generation { task with stage := .over }
      match fault with
      | none => c
      | some f => c.send ⟨some generation, .error task.key.stream f.message⟩
    | _, _ => c
  | none => c

/-- A stream that is over goes, and with it the numbers whose streams take nothing more. -/
def reap (c : Connection) (generation : Nat) : Connection :=
  match c.tasks.get? generation with
  | some task =>
    if task.stage = .over then
      { c with
        tasks := c.tasks.erase generation
        streams := c.streams.filter fun _ g => c.takes g }
    else c
  | none => c

def write (c : Connection) : Connection :=
  match c.queue with
  | [] => c
  | parcel :: rest => { c with queue := rest, written := c.written ++ [parcel] }

/-- The next parcel can not be written, and it is lost with all that are queued behind it. -/
def breakOff (c : Connection) : Connection :=
  match c.queue with
  | [] => c
  | _ :: _ => { c with queue := [], broken := true }

def work (service : Service) (generation : Nat) (fresh : TransactionId) (c : Connection)
    (s : Store) : Connection × Store :=
  match c.tasks.get? generation with
  | some task =>
    let (task, s) := task.work service fresh s
    (c.setTask generation task, s)
  | none => (c, s)

def takeFrame (c : Connection) (frame : Inbound) (s : Store) : Connection × Store :=
  if c.hungUp then (c, s)
  else
    let after := c.dispatch frame
    (after, if after.opened = c.opened then s else s.record .streamStarted)

def abandon (c : Connection) (s : Store) : Store :=
  c.tasks.entries.foldl (fun s entry => (entry.2.session.finish s).2) s

/-- A step that is not possible changes nothing. -/
def step (service : Service) (c : Connection) (s : Store) : Act → Connection × Store
  | .frame frame => c.takeFrame frame s
  | .hangUp => (c.hangUp, s)
  | .fail message => (c.fail message, s)
  | .drain => (c.drain, s)
  | .work generation fresh => c.work service generation fresh s
  | .forward generation => (c.forward generation, s)
  | .report generation => (c.report generation, s)
  | .reap generation => (c.reap generation, s)
  | .write => (c.write, s)
  | .breakOff => (c.breakOff, s)

def steps (service : Service) (c : Connection) (s : Store) (acts : List Act) :
    Connection × Store :=
  acts.foldl (fun (c, s) act => c.step service s act) (c, s)

def settling (fresh : TransactionId) (generation items answers : Nat) : List Act :=
  List.replicate items (.work generation fresh) ++
    List.replicate (answers + items) (.forward generation) ++ [.report generation, .reap generation]

/-- Every stream does all it can, oldest first, and everything is written. -/
def settle (service : Service) (fresh : TransactionId) (c : Connection) (s : Store) :
    Connection × Store :=
  let acts := c.tasks.entries.reverse.flatMap fun (generation, task) =>
    settling fresh generation task.inbox.length task.outbox.length
  let (c, s) := c.steps service s acts
  c.steps service s (List.replicate c.queue.length .write)

end Connection

end BodyCallout
