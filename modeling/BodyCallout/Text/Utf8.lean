/-!
UTF-8 as one scan over bytes. The scan answers each well-formed character and each ill-formed
stretch in order; the strict reading refuses a text with an ill-formed stretch, the repairing one
puts U+FFFD in its place. An ill-formed stretch is the longest beginning of a character that the
next byte does not continue, or a single byte that begins none.
-/

set_option autoImplicit false

namespace BodyCallout.Utf8

/-- A character begun and not finished: the bytes owed after the next one, the least and the
greatest value of the next one, and the bits read so far. -/
structure Owed where
  later : Nat
  low : Nat
  high : Nat
  bits : Nat

/-- What has been read, newest first, with `none` for an ill-formed stretch. -/
structure Scan where
  read : List (Option Char)
  owed : Option Owed

def Scan.start : Scan := ⟨[], none⟩

def lead (read : List (Option Char)) (b : Nat) : Scan :=
  if b < 0x80 then ⟨some (Char.ofNat b) :: read, none⟩
  else if b < 0xC2 then ⟨none :: read, none⟩
  else if b < 0xE0 then ⟨read, some ⟨0, 0x80, 0xBF, b - 0xC0⟩⟩
  else if b < 0xF0 then
    ⟨read, some ⟨1, if b = 0xE0 then 0xA0 else 0x80, if b = 0xED then 0x9F else 0xBF, b - 0xE0⟩⟩
  else if b < 0xF5 then
    ⟨read, some ⟨2, if b = 0xF0 then 0x90 else 0x80, if b = 0xF4 then 0x8F else 0xBF, b - 0xF0⟩⟩
  else ⟨none :: read, none⟩

def Scan.step (s : Scan) (byte : UInt8) : Scan :=
  let b := byte.toNat
  match s.owed with
  | none => lead s.read b
  | some o =>
    if o.low ≤ b ∧ b ≤ o.high then
      let bits := o.bits * 64 + (b - 0x80)
      match o.later with
      | 0 => ⟨some (Char.ofNat bits) :: s.read, none⟩
      | later + 1 => ⟨s.read, some ⟨later, 0x80, 0xBF, bits⟩⟩
    else lead (none :: s.read) b

/-- A character that the text leaves unfinished is one more ill-formed stretch. -/
def Scan.finish (s : Scan) : List (Option Char) :=
  (match s.owed with
   | none => s.read
   | some _ => none :: s.read).reverse

def pieces (bytes : List UInt8) : List (Option Char) :=
  (bytes.foldl Scan.step Scan.start).finish

def decode? (bytes : List UInt8) : Option (List Char) :=
  let ps := pieces bytes
  if ps.all Option.isSome then some (ps.filterMap id) else none

def replacement : Char := '\uFFFD'

def repair (bytes : List UInt8) : List Char :=
  (pieces bytes).map fun p => p.getD replacement

def encode (text : List Char) : List UInt8 :=
  text.flatMap String.utf8EncodeChar

theorem encode_append (a b : List Char) : encode (a ++ b) = encode a ++ encode b := by
  simp [encode]

end BodyCallout.Utf8
