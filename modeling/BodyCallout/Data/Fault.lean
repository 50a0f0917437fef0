import BodyCallout.Text.Decimal
import BodyCallout.Text.Quoted

set_option autoImplicit false

namespace BodyCallout.Data

/-- A text that holds no value: it ends before the value does, or it is ill-formed. -/
inductive Stop where
  | ended
  | illFormed
  deriving DecidableEq, Repr

/-- A number that was read: below `2 ^ 64`, negative and not below `-2 ^ 63`, or binary64. -/
inductive Number where
  | natural (n : Nat)
  | negative (n : Nat)
  | binary (x : Float)

inductive Found where
  | null
  | boolean (b : Bool)
  | integer (n : Int)
  | binary (x : Float)
  | text (s : String)
  | sequence
  | map

def Number.found : Number → Found
  | .natural n => .integer n
  | .negative n => .integer (-(n : Int))
  | .binary x => .binary x

structure Spelling where
  null : String
  floats : Decimal.Style

def Spelling.json : Spelling := ⟨"null", .compact⟩

def Spelling.config : Spelling := ⟨"unit value", .plain⟩

def tick : String := "`"

def ticked (s : String) : String := tick ++ s ++ tick

def Found.message (spelling : Spelling) : Found → String
  | .null => spelling.null
  | .boolean b => "boolean " ++ ticked (if b then "true" else "false")
  | .integer n => "integer " ++ ticked (Decimal.intText n)
  | .binary x => "floating point " ++ ticked (Decimal.floatText spelling.floats x)
  | .text s => "string " ++ Text.quote s
  | .sequence => "sequence"
  | .map => "map"

inductive Mismatch where
  | wrongType (found : Found) (expected : String)
  | wrongValue (found : Found) (expected : String)
  | wrongLength (length : Nat) (expected : String)
  | missing (key : String)
  | repeated (key : String)
  | unknown (name : String) (known : List String)
  | noChoice
  | emptyChoice
  | crowdedChoice
  | fullChoice (expected : String)

def alternatives : List String → String
  | [] => "there are no variants"
  | [a] => "expected " ++ ticked a
  | [a, b] => "expected " ++ ticked a ++ " or " ++ ticked b
  | names => "expected one of " ++ ", ".intercalate (names.map ticked)

def Mismatch.message (spelling : Spelling) : Mismatch → String
  | .wrongType found expected =>
    "invalid type: " ++ found.message spelling ++ ", expected " ++ expected
  | .wrongValue found expected =>
    "invalid value: " ++ found.message spelling ++ ", expected " ++ expected
  | .wrongLength length expected =>
    "invalid length " ++ Decimal.text length ++ ", expected " ++ expected
  | .missing key => "missing field " ++ ticked key
  | .repeated key => "duplicate field " ++ ticked key
  | .unknown name known => "unknown variant " ++ ticked name ++ ", " ++ alternatives known
  | .noChoice => "wanted string or table"
  | .emptyChoice => "wanted exactly 1 element, found 0 elements"
  | .crowdedChoice => "wanted exactly 1 element, more than 1 element"
  | .fullChoice expected => "expected " ++ expected

inductive Fault where
  | stop (s : Stop)
  | mismatch (m : Mismatch)

abbrev Reading (α : Type) : Type := Except Fault α

def stopped {α : Type} (s : Stop) : Reading α := .error (.stop s)

def mismatched {α : Type} (m : Mismatch) : Reading α := .error (.mismatch m)

theorem eq_ok_of_toOption {ε α : Type} {r : Except ε α} {a : α} (h : r.toOption = some a) :
    r = .ok a := by
  cases r with
  | error fault => cases h
  | ok b => exact congrArg Except.ok (Option.some.inj h)

def wrongType {α : Type} (found : Found) (expected : String) : Reading α :=
  mismatched (.wrongType found expected)

end BodyCallout.Data
