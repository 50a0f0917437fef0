import BodyCallout.Json.Direct

set_option autoImplicit false

namespace BodyCallout.Json

open Data

def hexDigit (n : Nat) : Char := (Nat.digitChar (n % 16))

def escapeChar (c : Char) : List Char :=
  if c = '"' then ['\\', '"']
  else if c = '\\' then ['\\', '\\']
  else if 0x20 ≤ c.toNat then [c]
  else if c.toNat = 0x08 then ['\\', 'b']
  else if c.toNat = 0x09 then ['\\', 't']
  else if c.toNat = 0x0A then ['\\', 'n']
  else if c.toNat = 0x0C then ['\\', 'f']
  else if c.toNat = 0x0D then ['\\', 'r']
  else ['\\', 'u', '0', '0', hexDigit (c.toNat / 16), hexDigit c.toNat]

def writeText (s : String) : List Char :=
  '"' :: s.toList.flatMap escapeChar ++ ['"']

def bracket (first last : Char) (entries : List (List Char)) : List Char :=
  first :: [','].intercalate entries ++ [last]

def openBrace : Char := '\x7b'

def closeBrace : Char := '\x7d'

def member (key : String) (value : List Char) : List Char :=
  writeText key ++ ':' :: value

def null : List Char := ['n', 'u', 'l', 'l']

def writeBoolean (b : Bool) : List Char :=
  if b then ['t', 'r', 'u', 'e'] else ['f', 'a', 'l', 's', 'e']

end BodyCallout.Json

namespace BodyCallout.Data

open Json

mutual
def Shape.write : (s : Shape) → s.Value → List Char
  | .boolean, b => writeBoolean b
  | .natural _ _, n => Decimal.digits n.val
  | .text, s => writeText s
  | .list item, vs => bracket '[' ']' (vs.map item.write)
  | .optional _, none => null
  | .optional inner, some v => inner.write v
  | .choice names, i => writeText names[i]
  | .record _ fields, vs => bracket openBrace closeBrace (fields.write vs)
  | .tagged _ tag content cases, v => bracket openBrace closeBrace (cases.write tag content v)
/-- The members of a record; a field without a value has none. -/
def Fields.write : (f : Fields) → f.Values → List (List Char)
  | .done, () => []
  | .must key shape rest, (v, vs) => member key (shape.write v) :: rest.write vs
  | .may key shape rest, (some v, vs) => member key (shape.write v) :: rest.write vs
  | .may _ _ rest, (none, vs) => rest.write vs
def Cases.write : (c : Cases) → (tag content : String) → c.Values → List (List Char)
  | .case name shape _, tag, content, .inl v =>
    [member tag (writeText name), member content (shape.write v)]
  | .case _ _ rest, tag, content, .inr v => rest.write tag content v
end

def Shape.members : (s : Shape) → s.Value → List (List Char)
  | .record _ fields, vs => fields.write vs
  | _, _ => []

def Cases.members : (c : Cases) → (tag : String) → c.Values → List (List Char)
  | .case name shape _, tag, .inl v => member tag (writeText name) :: shape.members v
  | .case _ _ rest, tag, .inr v => rest.members tag v

end BodyCallout.Data

namespace BodyCallout.Json

open Data

def Union.write (u : Union) (v : u.cases.Values) : List Char :=
  bracket openBrace closeBrace (u.cases.members u.tag v)

end BodyCallout.Json
