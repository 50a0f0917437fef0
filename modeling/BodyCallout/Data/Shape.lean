import BodyCallout.Data.Fault

/-!
Shapes of structured data. A shape says which values a reader accepts and a writer produces; the
type of those values is computed from it. A field that may be left out has an optional value, so
that what stands in its place is decided by whoever asks for the record.
-/

set_option autoImplicit false

namespace BodyCallout.Data

mutual
/-- `title` is how a message names what was expected. A tagged value is one of several, the name of
its case under the key `tag` and the value under the key `content`. -/
inductive Shape where
  | boolean
  | natural (title : String) (bound : Nat)
  | text
  | list (item : Shape)
  | optional (inner : Shape)
  | choice (names : List String)
  | record (title : String) (fields : Fields)
  | tagged (title tag content : String) (cases : Cases)
inductive Fields where
  | done
  | must (key : String) (shape : Shape) (rest : Fields)
  | may (key : String) (shape : Shape) (rest : Fields)
inductive Cases where
  | done
  | case (name : String) (shape : Shape) (rest : Cases)
end

mutual
@[reducible] def Shape.Value : Shape → Type
  | .boolean => Bool
  | .natural _ bound => Fin bound
  | .text => String
  | .list item => List item.Value
  | .optional inner => Option inner.Value
  | .choice names => Fin names.length
  | .record _ fields => fields.Values
  | .tagged _ _ _ cases => cases.Values
@[reducible] def Fields.Values : Fields → Type
  | .done => Unit
  | .must _ shape rest => shape.Value × rest.Values
  | .may _ shape rest => Option shape.Value × rest.Values
@[reducible] def Cases.Values : Cases → Type
  | .done => Empty
  | .case _ shape rest => shape.Value ⊕ rest.Values
end

/-- The fields of a record as far as they have been met. -/
@[reducible] def Fields.Slots : Fields → Type
  | .done => Unit
  | .must _ shape rest => Option shape.Value × rest.Slots
  | .may _ shape rest => Option shape.Value × rest.Slots

def Fields.vacant : (f : Fields) → f.Slots
  | .done => ()
  | .must _ _ rest => (none, rest.vacant)
  | .may _ _ rest => (none, rest.vacant)

/-- The record of what has been met; the first field that must be given and was not is missing. -/
def Fields.fill : (f : Fields) → f.Slots → Reading f.Values
  | .done, () => .ok ()
  | .must key _ rest, (slot, slots) =>
    match slot with
    | none => mismatched (.missing key)
    | some v => (rest.fill slots).map (v, ·)
  | .may _ _ rest, (slot, slots) => (rest.fill slots).map (slot, ·)

def Fields.count : Fields → Nat
  | .done => 0
  | .must _ _ rest => rest.count + 1
  | .may _ _ rest => rest.count + 1

def Fields.keys : Fields → List String
  | .done => []
  | .must key _ rest => key :: rest.keys
  | .may key _ rest => key :: rest.keys

def Cases.names : Cases → List String
  | .done => []
  | .case name _ rest => name :: rest.names

def elements (n : Nat) : String :=
  Decimal.text n ++ if n = 1 then " element" else " elements"

def recordLength (title : String) (fields : Fields) : String :=
  title ++ " with " ++ elements fields.count

end BodyCallout.Data
