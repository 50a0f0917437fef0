set_option autoImplicit false

namespace BodyCallout

abbrev Scan (α : Type) := List Char → Option (α × List Char)

namespace Scan

variable {α : Type}

def mark (c : Char) : Scan Unit
  | [] => none
  | d :: rest => if d = c then some ((), rest) else none

def marks : List Char → Scan Unit
  | [], text => some ((), text)
  | c :: cs, text => (mark c text).bind fun (_, rest) => marks cs rest

def manyUpTo (scan : Scan α) : Nat → List Char → List α × List Char
  | 0, text => ([], text)
  | fuel + 1, text =>
    match scan text with
    | none => ([], text)
    | some (a, rest) =>
      let (as, rest) := manyUpTo scan fuel rest
      (a :: as, rest)

/-- As many as there are. Each takes a character at least, so there are no more than characters. -/
def many (scan : Scan α) (text : List Char) : List α × List Char :=
  manyUpTo scan text.length text

def separated (c : Char) (scan : Scan α) : Scan (List α) := fun text => do
  let (a, rest) ← scan text
  let (as, rest) := many (fun text => (mark c text).bind fun (_, rest) => scan rest) rest
  some (a :: as, rest)

def digit? (base : Nat) (c : Char) : Option Nat :=
  let n := c.toNat
  let d :=
    if 48 ≤ n ∧ n ≤ 57 then n - 48
    else if 97 ≤ n ∧ n ≤ 122 then n - 87
    else if 65 ≤ n ∧ n ≤ 90 then n - 55
    else base
  if d < base then some d else none

def digit (base : Nat) : Scan Nat
  | [] => none
  | c :: rest => (digit? base c).map (·, rest)

def ofDigits (base : Nat) (ds : List Nat) : Nat := ds.foldl (fun n d => n * base + d) 0

end Scan

end BodyCallout
