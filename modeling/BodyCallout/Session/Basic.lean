import BodyCallout.Session.Engine
import BodyCallout.Store.Correlation

set_option autoImplicit false

namespace BodyCallout

structure Service where
  engine : Engine
  correlation : Correlation

structure Session where
  identity : Option String
  current : Option TransactionId
  deriving DecidableEq, Repr

inductive Item where
  | event (event : Event)
  | finish
  | abort (reason : String)
  deriving DecidableEq, Repr

inductive SessionFault where
  | duplicate (duplicate : Duplicate)
  | outboundClosed
  deriving DecidableEq, Repr

def SessionFault.message : SessionFault → String
  | .duplicate d => "transaction store invariant violated: " ++ d.message
  | .outboundClosed => "outbound channel closed"

namespace Session

def start (identity : Option String) : Session := ⟨identity, none⟩

def finish (session : Session) (s : Store) : Session × Store :=
  match session.current with
  | none => (session, s)
  | some id => ({ session with current := none }, (Engine.close id s).1)

/-- Opens a transaction in place of the one the session has. -/
def begin (service : Service) (headers : HeaderPart) (fresh : TransactionId) (session : Session)
    (s : Store) : Session × Store × Except Duplicate Unit :=
  let (session, s) := session.finish s
  match service.correlation.assign session.identity headers fresh s with
  | (s, .error d) => (session, s, .error d)
  | (s, .ok (id, source)) =>
    ({ session with current := some id }, s.record (.opened source), .ok ())

def process (service : Service) (event : Event) (session : Session) (s : Store) :
    Session × Store × Except Duplicate Answer :=
  let (s, a) := service.engine.process session.current event s
  (session, s, .ok a)

/-- Answers one event; `fresh` is the id that is generated if one has to be. -/
def handle (service : Service) (event : Event) (fresh : TransactionId) (session : Session)
    (s : Store) : Session × Store × Except Duplicate Answer :=
  match event with
  | .headers .request part =>
    match session.begin service part fresh s with
    | (session, s, .error d) => (session, s, .error d)
    | (session, s, .ok ()) => session.process service event s
  | _ => session.process service event s

/-- How a run ended: the answers that were sent, and the number of items taken. -/
structure Ending where
  result : Except SessionFault Unit
  answers : List Answer
  taken : Nat

/-- Works through the items, each with the id that is generated if one has to be. The first `sends`
answers can be sent. -/
def work (service : Service) (sends : Nat) (session : Session) (s : Store) :
    List (Item × TransactionId) → Session × Store × Ending
  | [] => (session, s, ⟨.ok (), [], 0⟩)
  | (.finish, _) :: _ => (session, s, ⟨.ok (), [], 1⟩)
  | (.abort _, _) :: _ => (session, s, ⟨.ok (), [], 1⟩)
  | (.event event, fresh) :: rest =>
    match session.handle service event fresh s with
    | (session, s, .error d) => (session, s, ⟨.error (.duplicate d), [], 1⟩)
    | (session, s, .ok a) =>
      match sends with
      | 0 => (session, s, ⟨.error .outboundClosed, [], 1⟩)
      | sends + 1 =>
        let (session, s, ending) := session.work service sends s rest
        (session, s, { ending with answers := a :: ending.answers, taken := ending.taken + 1 })

def run (service : Service) (sends : Nat) (session : Session) (s : Store)
    (items : List (Item × TransactionId)) : Store × Ending :=
  let (session, s, ending) := session.work service sends (s.record .streamStarted) items
  let (_, s) := session.finish s
  (s.record .streamFinished, ending)

end Session

end BodyCallout
