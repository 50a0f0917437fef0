import BodyCallout.Data.Fault
import BodyCallout.Text.Scan

set_option autoImplicit false

namespace BodyCallout.Json

open Data

/-- A numeral: its digits most significant first, `none` where it has no point or no exponent. -/
structure Numeral where
  negative : Bool
  whole : List Nat
  fraction : Option (List Nat)
  exponent : Option (Bool × List Nat)

def wordLimit : Nat := UInt64.size

structure Scaled where
  significand : Nat
  power : Int

/-- Takes digits until one does not fit; each that fits moves the power by `shift`. -/
def takeDigits (shift : Int) : List Nat → Scaled → Scaled × List Nat
  | [], s => (s, [])
  | d :: ds, s =>
    if s.significand * 10 + d < wordLimit then
      takeDigits shift ds ⟨s.significand * 10 + d, s.power + shift⟩
    else (s, d :: ds)

def powerLimit : Nat := 0x80000000

def tenTo (n : Nat) : Float := Float.ofScientific 1 false n

/-- Division by powers of ten that fit a binary64 number, the largest first. -/
def scaleDown (x : Float) (n : Nat) : Float :=
  if n ≤ 308 then x / tenTo n
  else if x == 0 then x
  else scaleDown (x / tenTo 308) (n - 308)
termination_by n

def Scaled.toBinary? (s : Scaled) : Option Float :=
  let x := s.significand.toUInt64.toFloat
  if s.power < 0 then some (scaleDown x s.power.natAbs)
  else if 308 < s.power then
    if s.significand = 0 then some x else none
  else
    let y := x * tenTo s.power.toNat
    if y.isInf then none else some y

def signed (negative : Bool) (x : Float) : Float := if negative then -x else x

def binaryOf? (n : Numeral) : Option Float :=
  let (whole, left) := takeDigits 0 n.whole ⟨0, 0⟩
  let whole := { whole with power := left.length }
  let (s, _) := takeDigits (-1) (n.fraction.getD []) whole
  match n.exponent with
  | none => s.toBinary?.map (signed n.negative)
  | some (down, ds) =>
    let e := Scan.ofDigits 10 ds
    if powerLimit ≤ e then
      if s.significand = 0 || down then some (signed n.negative 0) else none
    else
      let power := if down then s.power - e else s.power + e
      ({ s with power } : Scaled).toBinary?.map (signed n.negative)

def Numeral.value? (n : Numeral) : Option Number :=
  match n.fraction, n.exponent with
  | none, none =>
    let v := Scan.ofDigits 10 n.whole
    if wordLimit ≤ v then (binaryOf? n).map .binary
    else if !n.negative then some (.natural v)
    else if v = 0 || wordLimit / 2 < v then some (.binary (-v.toUInt64.toFloat))
    else some (.negative v)
  | _, _ => (binaryOf? n).map .binary

end BodyCallout.Json
