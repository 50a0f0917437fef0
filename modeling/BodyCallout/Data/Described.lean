import BodyCallout.Data.Shape

set_option autoImplicit false

namespace BodyCallout.Data

class Described (α : Type) where
  shape : Shape
  toValue : α → shape.Value
  ofValue : shape.Value → α
  ofValue_toValue (a : α) : ofValue (toValue a) = a

attribute [simp] Described.ofValue_toValue

abbrev valueOf (α : Type) [Described α] : (Described.shape α).Value → α := Described.ofValue

instance : Described Bool where
  shape := .boolean
  toValue b := b
  ofValue b := b
  ofValue_toValue _ := rfl

instance : Described String where
  shape := .text
  toValue s := s
  ofValue s := s
  ofValue_toValue _ := rfl

instance : Described UInt8 where
  shape := .natural "u8" UInt8.size
  toValue b := b.toFin
  ofValue b := UInt8.ofFin b
  ofValue_toValue _ := rfl

instance : Described UInt64 where
  shape := .natural "u64" UInt64.size
  toValue n := n.toFin
  ofValue n := UInt64.ofFin n
  ofValue_toValue _ := rfl

instance {α : Type} [Described α] : Described (List α) where
  shape := .list (Described.shape α)
  toValue as := as.map Described.toValue
  ofValue vs := vs.map Described.ofValue
  ofValue_toValue as := by induction as <;> simp_all

instance {α : Type} [Described α] : Described (Option α) where
  shape := .optional (Described.shape α)
  toValue a := a.map Described.toValue
  ofValue v := v.map Described.ofValue
  ofValue_toValue a := by cases a <;> simp

end BodyCallout.Data
