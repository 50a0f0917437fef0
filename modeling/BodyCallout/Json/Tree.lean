import BodyCallout.Json.Outline

set_option autoImplicit false

namespace BodyCallout.Json

open Data

inductive Tree where
  | null
  | boolean (b : Bool)
  | number (n : Number)
  | text (s : String)
  | array (items : List Tree)
  | object (members : List (String × Tree))

def maxDepth : Nat := 127

def readNumber (n : Numeral) : Reading Number :=
  match n.value? with
  | some v => .ok v
  | none => stopped .illFormed

def readText (content : Option String) : Reading String :=
  match content with
  | some s => .ok s
  | none => stopped .illFormed

mutual
/-- The tree of an outline in which `depth` more arrays and objects may open. -/
def Outline.tree : Nat → Outline → Reading Tree
  | _, .missing stop => stopped stop
  | _, .cutText read _ => stopped read
  | _, .cutScalar read _ => stopped read
  | _, .null => .ok .null
  | _, .boolean b => .ok (.boolean b)
  | _, .number n => (readNumber n).map .number
  | _, .text content => (readText content).map .text
  | 0, .array _ => stopped .illFormed
  | 0, .object _ => stopped .illFormed
  | depth + 1, .array items => (items.trees depth []).map .array
  | depth + 1, .object members => (members.trees depth []).map .object
def Items.trees : Nat → List Tree → Items → Reading (List Tree)
  | _, newest, .closed => .ok newest.reverse
  | _, _, .cut stop => stopped stop
  | depth, newest, .item value rest => do
    let t ← value.tree depth
    rest.trees depth (t :: newest)
def Members.trees : Nat → List (String × Tree) → Members → Reading (List (String × Tree))
  | _, newest, .closed => .ok newest.reverse
  | _, _, .cut _ read _ => stopped read
  | depth, newest, .member key value rest => do
    let k ← readText key
    let t ← value.tree depth
    rest.trees depth ((k, t) :: newest)
end

def readTree (text : List UInt8) : Reading Tree := do
  let doc := outline text
  let t ← doc.value.tree maxDepth
  if doc.trailing then stopped .illFormed else .ok t

end BodyCallout.Json
