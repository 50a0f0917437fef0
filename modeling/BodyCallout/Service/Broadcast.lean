set_option autoImplicit false

namespace BodyCallout

/-- A receiver is known by its place; it has gone past so many signals, `none` once it is dropped. -/
structure Broadcast where
  sent : Nat
  receivers : List (Option Nat)
  deriving DecidableEq, Repr

inductive Notice where
  | signal
  | lagged (missed : Nat)
  | empty
  deriving DecidableEq, Repr

namespace Broadcast

def start : Broadcast := ⟨0, []⟩

def position? (b : Broadcast) (i : Nat) : Option Nat := (b.receivers[i]?).join

def count (b : Broadcast) : Nat := b.receivers.countP Option.isSome

def subscribe (b : Broadcast) : Broadcast := { b with receivers := b.receivers ++ [some b.sent] }

/-- A receiver made from another one; if that is gone, so is the new one. -/
def resubscribe (b : Broadcast) (i : Nat) : Broadcast × Bool :=
  match b.position? i with
  | some _ => (b.subscribe, true)
  | none => ({ b with receivers := b.receivers ++ [none] }, false)

def drop (b : Broadcast) (i : Nat) : Broadcast × Bool :=
  ({ b with receivers := b.receivers.set i none }, (b.position? i).isSome)

def trigger (b : Broadcast) : Broadcast × Nat :=
  (if b.count = 0 then b else { b with sent := b.sent + 1 }, b.count)

def setPosition (b : Broadcast) (i n : Nat) : Broadcast :=
  { b with receivers := b.receivers.set i (some n) }

def receive (b : Broadcast) (i : Nat) : Broadcast × Option Notice :=
  match b.position? i with
  | none => (b, none)
  | some n =>
    match b.sent - n with
    | 0 => (b, some .empty)
    | 1 => (b.setPosition i b.sent, some .signal)
    | missed + 2 => (b.setPosition i (b.sent - 1), some (.lagged (missed + 1)))

end Broadcast

end BodyCallout
