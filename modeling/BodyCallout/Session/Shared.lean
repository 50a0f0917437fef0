import BodyCallout.Session.Basic

/-!
Several sessions on one store. They take turns in any order, with the clock and sweeps in between.
-/

set_option autoImplicit false

namespace BodyCallout

structure Shared (ν : Type) where
  store : Store
  sessions : Table ν Session

inductive Turn (ν : Type) where
  | start (name : ν) (identity : Option String)
  | event (name : ν) (event : Event) (fresh : TransactionId)
  | finish (name : ν)
  | advance (time : Nat)
  | sweep (idle : Nat)

namespace Shared

variable {ν : Type} [DecidableEq ν]

def withStore (w : Shared ν) (f : Store → Store) : Shared ν := { w with store := f w.store }

def finish (w : Shared ν) (name : ν) : Shared ν × Bool :=
  match w.sessions.get? name with
  | none => (w, false)
  | some session => (⟨(session.finish w.store).2, w.sessions.erase name⟩, true)

/-- An older session of the same name is finished first. -/
def start (w : Shared ν) (name : ν) (identity : Option String) : Shared ν :=
  let w := (w.finish name).1
  { w with sessions := w.sessions.insert name (.start identity) }

def handle (service : Service) (w : Shared ν) (name : ν) (event : Event) (fresh : TransactionId) :
    Shared ν × Option (Except Duplicate Answer) :=
  match w.sessions.get? name with
  | none => (w, none)
  | some session =>
    let (session, store, answer) := session.handle service event fresh w.store
    (⟨store, w.sessions.modify name fun _ => session⟩, some answer)

def take (service : Service) (w : Shared ν) :
    Turn ν → Shared ν × Option (Except Duplicate Answer)
  | .start name identity => (w.start name identity, none)
  | .event name event fresh => w.handle service name event fresh
  | .finish name => ((w.finish name).1, none)
  | .advance time => (w.withStore (·.advance time), none)
  | .sweep idle => (w.withStore fun s => (s.sweep idle).1, none)

end Shared

end BodyCallout
