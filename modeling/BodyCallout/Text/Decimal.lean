/-!
Decimal text. A natural number is its digits with no leading zero; a binary64 number is the
shortest digits that read back as it, written by a style. Nothing is claimed here of the
arithmetic of binary64 itself.
-/

set_option autoImplicit false

namespace BodyCallout.Decimal

def digits (n : Nat) : List Char := Nat.toDigits 10 n

def text (n : Nat) : String := String.ofList (digits n)

def intText (n : Int) : String :=
  if n < 0 then String.ofList ('-' :: digits n.natAbs) else text n.natAbs

/-- The binary64 number nearest to `n · 10 ^ e`. Beyond four hundred places before or after the
point nothing but infinity or zero is near. -/
def nearest (n : Nat) (e : Int) : Float :=
  let places := (digits n).length + e
  if n = 0 || places < -400 then 0.0
  else if 400 < places then 1.0 / 0.0
  else if e < 0 then Float.ofScientific n true e.natAbs
  else Float.ofScientific n false e.natAbs

/-- A positive binary64 number, `mantissa · 2 ^ exponent`; `narrow` says that its lower neighbour is
half as far as its upper one. -/
structure Binary where
  mantissa : Nat
  exponent : Int
  narrow : Bool

def hiddenBit : Nat := 0x10000000000000

def magnitude? (x : Float) : Option Binary :=
  let bits := x.toBits.toNat
  let scale : Nat := bits / hiddenBit % 2048
  let fraction : Nat := bits % hiddenBit
  if scale = 2047 then none
  else if scale = 0 then some ⟨fraction, -1074, false⟩
  else some ⟨hiddenBit + fraction, (scale : Int) - 1075, fraction = 0 && 1 < scale⟩

def isNegative (x : Float) : Bool := 0x8000000000000000 ≤ x.toBits.toNat

/-- The power of ten just above `num / den`: the least `k` with `num < den · 10 ^ k`. -/
def decade (num den : Nat) : Int :=
  if den ≤ num then (digits (num / den)).length
  else 1 - ((digits ((den - 1) / num)).length : Int)

/-- Where a number goes that is halfway between two points of a grid. -/
inductive Tie where
  | toEven
  | up
  deriving DecidableEq, Repr

/-- The point of the grid of `count` digits nearest to the number, if it reads back as it. -/
def onGrid (tie : Tie) (b : Binary) (count : Nat) : Option (Nat × Int) :=
  let up := Nat.pow 2 (b.exponent - 2).toNat
  let den := Nat.pow 2 (2 - b.exponent).toNat
  let num := 4 * b.mantissa * up
  let step := decade num den - count
  let zoom := Nat.pow 10 (-step).toNat
  let unit := den * Nat.pow 10 step.toNat
  let mid := num * zoom
  let low := (4 * b.mantissa - (if b.narrow then 1 else 2)) * up * zoom
  let high := (4 * b.mantissa + 2) * up * zoom
  let hits := fun point =>
    if b.mantissa % 2 = 0 then low ≤ point * unit && point * unit ≤ high
    else low < point * unit && point * unit < high
  let below := mid / unit
  let nearBelow := mid - below * unit
  let nearAbove := (below + 1) * unit - mid
  match hits below, hits (below + 1) with
  | true, true =>
    let tiesBelow := tie = .toEven && below % 2 = 0
    if nearBelow < nearAbove || (nearBelow = nearAbove && tiesBelow) then some (below, step)
    else some (below + 1, step)
  | true, false => some (below, step)
  | false, true => some (below + 1, step)
  | false, false => none

/-- The shortest digits of a positive number and the power of ten of the last one; seventeen digits
always read back. -/
def shortest (tie : Tie) (b : Binary) : List Char × Int :=
  let (point, step) := ((List.range 17).findSome? fun i => onGrid tie b (i + 1)).getD (0, 0)
  let ds := digits point
  let zeros := (ds.reverse.takeWhile (· = '0')).length
  (ds.take (ds.length - zeros), step + zeros)

/-- How a number is written: which scientific exponents are written positionally, where a tie between
two shortest forms goes, and the name of what is not a number. -/
structure Style where
  positional : Int → Bool
  tie : Tie
  notNumber : String

def Style.compact : Style := ⟨fun e => -5 ≤ e && e ≤ 15, .toEven, "NaN"⟩

def Style.plain : Style := ⟨fun _ => true, .up, "NaN"⟩

def exponentText (e : Int) : List Char :=
  'e' :: (if e < 0 then '-' else '+') :: digits e.natAbs

def writeDigits (style : Style) (ds : List Char) (last : Int) : List Char :=
  let first := last + ds.length - 1
  if style.positional first then
    if 0 ≤ last then ds ++ List.replicate last.toNat '0' ++ ['.', '0']
    else if 0 ≤ first then ds.take (first.toNat + 1) ++ '.' :: ds.drop (first.toNat + 1)
    else '0' :: '.' :: List.replicate (-first - 1).toNat '0' ++ ds
  else
    match ds with
    | [] => []
    | [d] => d :: exponentText first
    | d :: rest => d :: '.' :: rest ++ exponentText first

def floatText (style : Style) (x : Float) : String :=
  match magnitude? x with
  | none =>
    if x.isNaN then style.notNumber else if isNegative x then "-inf" else "inf"
  | some b =>
    let body := if b.mantissa = 0 then ['0', '.', '0'] else
      let (ds, last) := shortest style.tie b
      writeDigits style ds last
    String.ofList (if isNegative x then '-' :: body else body)

end BodyCallout.Decimal
