import BodyCallout.Text.Decimal

/-!
A body under assembly. Chunks are taken in order until one does not fit under the limit; that chunk
and all later ones are refused, so what is held is always a gapless start of the body.
-/

set_option autoImplicit false

namespace BodyCallout

structure Overflow where
  buffered : Nat
  attempted : Nat
  limit : Nat
  deriving DecidableEq, Repr

def Overflow.message (o : Overflow) : String :=
  "body overflow: " ++ Decimal.text o.buffered ++ " bytes buffered, chunk of " ++
    Decimal.text o.attempted ++ " bytes exceeds limit of " ++ Decimal.text o.limit

structure Buffer where
  limit : Nat
  bytes : List UInt8
  ended : Bool
  truncated : Bool
  deriving DecidableEq, Repr

namespace Buffer

def empty (limit : Nat) : Buffer := ⟨limit, [], false, false⟩

def size (b : Buffer) : Nat := b.bytes.length

def fits (b : Buffer) (chunk : List UInt8) : Prop :=
  b.truncated = false ∧ b.size + chunk.length ≤ b.limit

instance (b : Buffer) (chunk : List UInt8) : Decidable (b.fits chunk) :=
  inferInstanceAs (Decidable (_ ∧ _))

/-- A chunk is held whole or not at all. -/
def append (b : Buffer) (chunk : List UInt8) : Buffer × Option Overflow :=
  if b.fits chunk then ({ b with bytes := b.bytes ++ chunk }, none)
  else ({ b with truncated := true }, some ⟨b.size, chunk.length, b.limit⟩)

def close (b : Buffer) : Buffer := { b with ended := true }

theorem append_of_fits {b : Buffer} {chunk : List UInt8} (h : b.fits chunk) :
    b.append chunk = ({ b with bytes := b.bytes ++ chunk }, none) := if_pos h

theorem append_of_not_fits {b : Buffer} {chunk : List UInt8} (h : ¬ b.fits chunk) :
    b.append chunk = ({ b with truncated := true }, some ⟨b.size, chunk.length, b.limit⟩) :=
  if_neg h

theorem limit_append (b : Buffer) (chunk : List UInt8) : (b.append chunk).1.limit = b.limit := by
  unfold append; split <;> rfl

theorem ended_append (b : Buffer) (chunk : List UInt8) : (b.append chunk).1.ended = b.ended := by
  unfold append; split <;> rfl

theorem size_append_le {b : Buffer} (chunk : List UInt8) (h : b.size ≤ b.limit) :
    (b.append chunk).1.size ≤ (b.append chunk).1.limit := by
  unfold append; split
  · next hf => simpa [size] using hf.2
  · exact h

end Buffer

/-- The chunks of the longest start of the list whose total length is within the limit. -/
def longestFit (limit : Nat) : List (List UInt8) → List (List UInt8)
  | [] => []
  | chunk :: rest =>
    if chunk.length ≤ limit then chunk :: longestFit (limit - chunk.length) rest else []

end BodyCallout
