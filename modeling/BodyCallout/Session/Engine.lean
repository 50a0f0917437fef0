import BodyCallout.Session.Builder
import BodyCallout.Store.Basic
import BodyCallout.Wire.Answer

/-!
The engine answers one event after the other. It tells the event's transaction, and when the body of
that transaction is claimed the builder is asked for a mutation, which rides on the answer to the
event that made the claim possible. An event without a live transaction passes unchanged.
-/

set_option autoImplicit false

namespace BodyCallout

inductive OverflowPolicy where
  | skip
  | keepStart
  deriving DecidableEq, Repr

structure Engine where
  builder : Builder
  bufferedDelivery : Bool
  overflow : OverflowPolicy

def truncatedHeader : String := "x-body-truncated"

namespace Engine

/-- What becomes of a claimed body, and the mutation it gives. -/
def judge (e : Engine) (body : Body) : Outcome × Option Mutation :=
  if body.truncated ∧ e.overflow = .skip then (.skipped, none)
  else
    match e.builder body with
    | .error (.rejected _) => (.rejected, none)
    | .error (.failed _) => (.failed, none)
    | .ok m =>
      let m := if body.truncated then m.merge (.ofPairs [(truncatedHeader, "true")]) else m
      if m.isEmpty then (.empty, none) else (.computed, some m)

def answerWith (p : Phase) : Option Mutation → Answer
  | none => .pass p
  | some m => .change p m

def respond (e : Engine) (p : Phase) (claimed : Option Body) (s : Store) : Store × Answer :=
  match claimed with
  | none => (s, .pass p)
  | some body =>
    let (outcome, m) := e.judge body
    (s.record (.mutation outcome body.size), answerWith p m)

def miss (p : Phase) (s : Store) : Store × Answer := (s.record (.miss p), .pass p)

/-- What an event does to its transaction, and whether a chunk was refused. -/
def apply (event : Event) (t : Transaction) : Transaction × Bool :=
  match event with
  | .headers .request part => (t.requestHeaders part.last, false)
  | .body .request part =>
    match t.append part.bytes part.last with
    | (t, .overflowed _) => (t, true)
    | (t, _) => (t, false)
  | .trailers .request _ => (t.markTrailers, false)
  | .headers .response part => (t.recordResponse part, false)
  | .body .response _ => (t, false)
  | .trailers .response _ => (t, false)

def claims : Event → Bool
  | .body .response _ => false
  | .trailers .response _ => false
  | _ => true

def advance (event : Event) (t : Transaction) : Transaction × Bool × Option Body :=
  let (t, refused) := apply event t
  if claims event then
    let (t, claimed) := t.claim
    (t, refused, claimed)
  else (t, refused, none)

def withDelivery (e : Engine) (event : Event) (a : Answer) : Answer :=
  match event with
  | .headers .request _ => if e.bufferedDelivery then { a with delivery := some .buffered } else a
  | _ => a

def process (e : Engine) (id : Option TransactionId) (event : Event) (s : Store) :
    Store × Answer :=
  let s := s.record (.event event.phase)
  match id with
  | none => miss event.phase s
  | some id =>
    let (s, a) :=
      match s.update id (advance event) with
      | (s, none) => miss event.phase s
      | (s, some (refused, claimed)) =>
        e.respond event.phase claimed (if refused then s.record .overflow else s)
    (s, e.withDelivery event a)

def close (id : TransactionId) (s : Store) : Store × Bool :=
  let (s, removed) := s.delete id
  (s, removed.isSome)

end Engine

end BodyCallout
