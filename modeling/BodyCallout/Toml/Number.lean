import BodyCallout.Text.Decimal
import BodyCallout.Toml.Node
import BodyCallout.Text.Scan

set_option autoImplicit false

namespace BodyCallout.Toml

open Scan

def digitRun (base : Nat) : Scan (List Nat) := fun text => do
  let (d, rest) ← digit base text
  let spaced : Scan Nat := fun text =>
    match text with
    | '_' :: rest => digit base rest
    | _ => digit base text
  let (ds, rest) := many spaced rest
  some (d :: ds, rest)

def sign : List Char → Bool × List Char
  | '-' :: rest => (true, rest)
  | '+' :: rest => (false, rest)
  | text => (false, text)

/-- A zero stands alone. -/
def wholeDigits : Scan (List Nat)
  | '0' :: rest => some ([0], rest)
  | text => digitRun 10 text

def integerLimit : Nat := 0x8000000000000000

def radix (base : Nat) : Scan Node := fun text => do
  let (ds, rest) ← digitRun base text
  let n := ofDigits base ds
  if n < integerLimit then some (.integer n, rest) else none

def exponent : Scan (Option Int) := fun text =>
  match text with
  | [] => some (none, [])
  | c :: rest =>
    if c = 'e' ∨ c = 'E' then do
      let (negative, rest) := sign rest
      let (ds, rest) ← digitRun 10 rest
      let n : Nat := ofDigits 10 ds
      some (some (if negative then -(n : Int) else n), rest)
    else some (none, text)

def fraction : Scan (Option (List Nat)) := fun text =>
  match text with
  | '.' :: rest => (digitRun 10 rest).map fun (ds, rest) => (some ds, rest)
  | _ => some (none, text)

def decimal : Scan Node := fun text => do
  let (negative, text) := sign text
  let (whole, text) ← wholeDigits text
  let (places, text) ← fraction text
  let (power, text) ← exponent text
  if places.isNone ∧ power.isNone then
    let n := ofDigits 10 whole
    if negative then if n ≤ integerLimit then some (.integer (-(n : Int)), text) else none
    else if n < integerLimit then some (.integer n, text) else none
  else
    let ds := places.getD []
    let x := Decimal.nearest (ofDigits 10 (whole ++ ds)) (power.getD 0 - ds.length)
    if negative then some (.binary (-x), text)
    else if x.isInf then none else some (.binary x, text)

def special : Scan Node := fun text => do
  let (negative, text) := sign text
  let infinite := (marks ['i', 'n', 'f'] text).map fun (_, rest) => ((1.0 / 0.0 : Float), rest)
  let (x, rest) ← infinite.or ((marks ['n', 'a', 'n'] text).map fun (_, rest) => (0.0 / 0.0, rest))
  some (.binary (if negative then -x else x), rest)

def field (count low high : Nat) : Scan Nat := fun text =>
  let ds := (text.take count).filterMap (digit? 10)
  let n := ofDigits 10 ds
  if ds.length = count ∧ low ≤ n ∧ n ≤ high then some (n, text.drop count) else none

def daysIn (year month : Nat) : Nat :=
  if month = 2 then
    if year % 4 = 0 ∧ (year % 100 ≠ 0 ∨ year % 400 = 0) then 29 else 28
  else if month = 4 ∨ month = 6 ∨ month = 9 ∨ month = 11 then 30
  else 31

def date : Scan Unit := fun text => do
  let (year, text) ← field 4 0 9999 text
  let (_, text) ← mark '-' text
  let (month, text) ← field 2 1 12 text
  let (_, text) ← mark '-' text
  let (_, text) ← field 2 1 (daysIn year month) text
  some ((), text)

def maybe (scan : Scan Unit) (text : List Char) : List Char :=
  match scan text with
  | some (_, rest) => rest
  | none => text

def hourMinute : Scan Unit := fun text => do
  let (_, text) ← field 2 0 23 text
  let (_, text) ← mark ':' text
  let (_, text) ← field 2 0 59 text
  some ((), text)

def time : Scan Unit := fun text => do
  let (_, text) ← hourMinute text
  let (_, text) ← mark ':' text
  let (_, text) ← field 2 0 60 text
  let places : Scan Unit := fun text => do
    let (_, text) ← mark '.' text
    let (_, text) ← digit 10 text
    some ((), (many (digit 10) text).2)
  some ((), maybe places text)

def zoneOffset : Scan Unit
  | 'Z' :: rest => some ((), rest)
  | 'z' :: rest => some ((), rest)
  | '+' :: rest => hourMinute rest
  | '-' :: rest => hourMinute rest
  | _ => none

def timeOfDay : Scan Unit
  | [] => none
  | c :: rest =>
    if c = 'T' ∨ c = 't' ∨ c = ' ' then (time rest).map fun (_, rest) => ((), maybe zoneOffset rest)
    else none

def moment : Scan Node := fun text =>
  let day := (date text).map fun (_, rest) => ((), maybe timeOfDay rest)
  (day.or (time text)).map fun (_, rest) => (.moment, rest)

def number : Scan Node := fun text =>
  (moment text).or <|
    match text with
    | '0' :: 'x' :: rest => radix 16 rest
    | '0' :: 'o' :: rest => radix 8 rest
    | '0' :: 'b' :: rest => radix 2 rest
    | _ => (decimal text).or (special text)

end BodyCallout.Toml
