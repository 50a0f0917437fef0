import BodyCallout.Json.Writer

set_option autoImplicit false

namespace BodyCallout.Json

/-- Where the text has come to: inside a string, perhaps after a backslash, or outside; `fresh` says
that a bracket has just been opened. -/
structure Layout where
  depth : Nat
  inText : Bool
  escaped : Bool
  fresh : Bool

def indent (depth : Nat) : List Char := '\n' :: List.replicate (2 * depth) ' '

def Layout.step (l : Layout) (c : Char) : Layout × List Char :=
  if l.inText then
    ({ l with inText := l.escaped || c ≠ '"', escaped := !l.escaped && c = '\\' }, [c])
  else
    let lead := if l.fresh then indent l.depth else []
    let l' := { l with fresh := false }
    if c = ']' ∨ c = closeBrace then
      ({ l' with depth := l.depth - 1 }, (if l.fresh then [] else indent (l.depth - 1)) ++ [c])
    else if c = '[' ∨ c = openBrace then
      ({ l' with depth := l.depth + 1, fresh := true }, lead ++ [c])
    else if c = ',' then (l', c :: indent l.depth)
    else if c = ':' then (l', [c, ' '])
    else ({ l' with inText := c = '"' }, lead ++ [c])

def layOutFrom (l : Layout) : List Char → List Char
  | [] => []
  | c :: rest =>
    let (l, out) := l.step c
    out ++ layOutFrom l rest

def layOut (text : List Char) : List Char := layOutFrom ⟨0, false, false, false⟩ text

end BodyCallout.Json
