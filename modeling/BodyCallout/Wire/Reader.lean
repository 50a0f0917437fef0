import BodyCallout.Wire.Framing

/-!
Frames off an input that comes in pieces. A call for the next frame takes bytes onto the line in
progress, up to a newline and never more than make the line too long; when the pieces at hand are
used up before that, the call waits. A call that waits may be given up: what it has taken is kept,
and the next call goes on with the same line.
-/

set_option autoImplicit false

namespace BodyCallout

/-- What a call takes onto a line, newest byte first, and what it leaves of the pieces and of its
budget; `ended` says that a newline was taken or that the budget is spent. -/
structure Taken where
  line : List UInt8
  pieces : List (List UInt8)
  budget : Nat
  ended : Bool
  deriving DecidableEq, Repr

def takeLine (budget : Nat) (line : List UInt8) : List (List UInt8) → Taken
  | [] => ⟨line, [], budget, budget = 0⟩
  | piece :: rest =>
    match (piece.take budget).idxOf? newline with
    | some i =>
      ⟨(piece.take (i + 1)).reverse ++ line, piece.drop (i + 1) :: rest, budget - (i + 1), true⟩
    | none =>
      if budget < piece.length then
        ⟨(piece.take budget).reverse ++ line, piece.drop budget :: rest, 0, true⟩
      else takeLine (budget - piece.length) (piece.reverse ++ line) rest

/-- The ways in which bytes are taken off what lies ahead: all of it, up to a newline, or as many as
the budget allows. -/
inductive Takes (budget : Nat) (line ahead : List UInt8) : Taken → Prop where
  | short (hn : newline ∉ ahead) (hb : ahead.length < budget) :
      Takes budget line ahead ⟨ahead.reverse ++ line, [], budget - ahead.length, false⟩
  | whole (before : List UInt8) (pieces : List (List UInt8))
      (ha : ahead = before ++ newline :: pieces.flatten) (hn : newline ∉ before)
      (hb : before.length < budget) :
      Takes budget line ahead
        ⟨newline :: (before.reverse ++ line), pieces, budget - (before.length + 1), true⟩
  | long (before : List UInt8) (pieces : List (List UInt8)) (ha : ahead = before ++ pieces.flatten)
      (hn : newline ∉ before) (hb : before.length = budget) :
      Takes budget line ahead ⟨before.reverse ++ line, pieces, 0, true⟩

theorem Takes.after {budget : Nat} {line ahead piece : List UInt8} {t : Taken}
    (hn : newline ∉ piece) (hb : piece.length ≤ budget)
    (h : Takes (budget - piece.length) (piece.reverse ++ line) ahead t) :
    Takes budget line (piece ++ ahead) t := by
  cases h with
  | short hn' hb' =>
    have hs : Takes budget line (piece ++ ahead) _ := .short (by simp [hn, hn']) (by simp; omega)
    simpa [Nat.sub_sub] using hs
  | whole before pieces ha hn' hb' =>
    have hs : Takes budget line (piece ++ ahead) _ :=
      .whole (piece ++ before) pieces (by simp [ha]) (by simp [hn, hn']) (by simp; omega)
    simpa [Nat.sub_sub, Nat.add_assoc] using hs
  | long before pieces ha hn' hb' =>
    have hs : Takes budget line (piece ++ ahead) _ :=
      .long (piece ++ before) pieces (by simp [ha]) (by simp [hn, hn']) (by simp; omega)
    simpa using hs

theorem takes_takeLine (budget : Nat) (line : List UInt8) (pieces : List (List UInt8)) :
    Takes budget line pieces.flatten (takeLine budget line pieces) := by
  induction pieces generalizing budget line with
  | nil =>
    cases budget with
    | zero => exact .long [] [] rfl (by simp) rfl
    | succ budget => exact .short (by simp) (by simp)
  | cons piece rest ih =>
    rw [takeLine, List.flatten_cons]
    split
    · next i hi =>
      obtain ⟨hl, hi, hj⟩ := List.idxOf?_eq_some_iff.mp hi
      simp only [List.length_take, List.getElem_take] at hl hi hj
      -- The first newline is within the budget: it cuts the piece in two.
      have hp : piece = piece.take i ++ newline :: piece.drop (i + 1) := by
        rw [← hi, List.getElem_cons_drop, List.take_append_drop]
      have hn : newline ∉ piece.take i := by
        intro hm
        obtain ⟨j, hji, hj'⟩ := List.getElem_of_mem hm
        rw [List.getElem_take] at hj'
        exact hj j (by simp at hji; omega) hj'
      have hs : Takes budget line (piece ++ rest.flatten) _ :=
        .whole (piece.take i) (piece.drop (i + 1) :: rest)
          (by rw [List.flatten_cons, ← List.cons_append, ← List.append_assoc, ← hp]) hn
          (by simp; omega)
      have ht : (piece.take (i + 1)).reverse = newline :: (piece.take i).reverse := by
        rw [List.take_succ_eq_append_getElem (by omega), hi]
        simp
      have hi' : min i piece.length = i := by omega
      simpa [ht, hi'] using hs
    · next hi =>
      have hn := List.idxOf?_eq_none_iff.mp hi
      split
      · next hb =>
        have hs : Takes budget line (piece ++ rest.flatten) _ :=
          .long (piece.take budget) (piece.drop budget :: rest) (by simp [← List.append_assoc]) hn
            (by simp; omega)
        simpa using hs
      · next hb =>
        have hb : piece.length ≤ budget := Nat.le_of_not_lt hb
        rw [List.take_of_length_le hb] at hn
        exact (ih _ _).after hn hb

/-- No byte is lost or taken twice. -/
theorem Takes.flatten {budget : Nat} {line ahead : List UInt8} {t : Taken}
    (h : Takes budget line ahead t) :
    t.line.reverse ++ t.pieces.flatten = line.reverse ++ ahead := by
  cases h with
  | short => simp
  | whole before pieces ha => simp [ha]
  | long before pieces ha => simp [ha]

def lineTaken (limit : Nat) : List UInt8 → Option Line
  | [] => none
  | b :: before =>
    if b = newline then some (.whole before.reverse)
    else if limit < (b :: before).length then some .tooLong
    else some (.whole (b :: before).reverse)

/-- What a call comes to; without a receipt the input is at its end. -/
inductive Poll (α : Type) where
  | pending
  | ready (receipt : Option (Receipt α))

/-- `budget` is how many bytes the call that waits may still take, if there is one. -/
structure Reader (limit : Nat) where
  line : List UInt8
  pieces : List (List UInt8)
  closed : Bool
  budget : Option Nat
  deriving DecidableEq, Repr

namespace Reader

variable {limit : Nat}

def start : Reader limit := ⟨[], [], false, none⟩

/-- Nothing comes after the end of the input. -/
def arrive (r : Reader limit) (piece : List UInt8) : Reader limit :=
  if r.closed then r else { r with pieces := r.pieces ++ [piece] }

def close (r : Reader limit) : Reader limit := { r with closed := true }

def giveUp (r : Reader limit) : Reader limit := { r with budget := none }

def unread (r : Reader limit) : List UInt8 := r.line.reverse ++ r.pieces.flatten

def take (r : Reader limit) : Taken :=
  takeLine (r.budget.getD (limit + 1 - r.line.length)) r.line r.pieces

def pollLine (r : Reader limit) : Reader limit × Option (Option Line) :=
  if r.take.ended || r.closed then
    (⟨[], r.take.pieces, r.closed, none⟩, some (lineTaken limit r.take.line))
  else (⟨r.take.line, r.take.pieces, r.closed, some r.take.budget⟩, none)

theorem unread_take (r : Reader limit) :
    r.take.line.reverse ++ r.take.pieces.flatten = r.unread :=
  (takes_takeLine _ _ _).flatten

theorem length_unread_pollLine {r after : Reader limit} {line : Line}
    (h : r.pollLine = (after, some (some line))) : after.unread.length < r.unread.length := by
  have hu := congrArg List.length r.unread_take
  unfold pollLine at h
  split at h
  · obtain ⟨rfl, hl⟩ := Prod.mk.inj h
    cases ht : r.take.line with
    | nil => simp [ht, lineTaken] at hl
    | cons b before =>
      have hr : (⟨[], r.take.pieces, r.closed, none⟩ : Reader limit).unread =
          r.take.pieces.flatten := by
        simp [unread]
      rw [hr, ← hu, ht]
      simp only [List.length_append, List.length_reverse, List.length_cons]
      omega
  · simp at h

/-- Goes on until there is a receipt; blank lines amount to nothing. -/
def poll (α : Type) [Framed α] (r : Reader limit) : Reader limit × Poll α :=
  match _h : r.pollLine with
  | (after, none) => (after, .pending)
  | (after, some none) => (after, .ready none)
  | (after, some (some line)) =>
    match receive α limit line with
    | none => after.poll α
    | some receipt => (after, .ready (some receipt))
termination_by r.unread.length
decreasing_by exact length_unread_pollLine ‹_›

end Reader

end BodyCallout
