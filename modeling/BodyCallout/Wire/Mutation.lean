import BodyCallout.Wire.Http

set_option autoImplicit false

namespace BodyCallout

open Data

inductive SetAction where
  | appendOrAdd
  | addIfAbsent
  | overwriteOrAdd
  | overwriteIfExists
  deriving DecidableEq, Repr

structure Setting where
  header : Header
  action : SetAction
  deriving DecidableEq, Repr

structure Mutation where
  set : List Setting
  remove : List String
  deriving DecidableEq, Repr

namespace Mutation

def empty : Mutation := ⟨[], []⟩

def isEmpty (m : Mutation) : Bool := m.set.isEmpty && m.remove.isEmpty

def merge (a b : Mutation) : Mutation := ⟨a.set ++ b.set, a.remove ++ b.remove⟩

theorem merge_empty (m : Mutation) : m.merge empty = m := by simp [merge, empty]

theorem empty_merge (m : Mutation) : empty.merge m = m := by simp [merge, empty]

theorem merge_assoc (a b c : Mutation) : (a.merge b).merge c = a.merge (b.merge c) := by
  simp [merge]

def get? (m : Mutation) (name : String) : Option String :=
  (m.set.find? fun s => Text.sameName s.header.key name).map fun s => s.header.value

theorem get?_merge (a b : Mutation) (name : String) :
    (a.merge b).get? name = (a.get? name).or (b.get? name) := by
  simp only [get?, merge, List.find?_append]
  cases a.set.find? fun s => Text.sameName s.header.key name <;> rfl

def ofPairs (pairs : List (String × String)) : Mutation :=
  ⟨pairs.map fun (key, value) => ⟨⟨key, value⟩, .overwriteOrAdd⟩, []⟩

end Mutation

instance : Described SetAction where
  shape := .choice ["append_if_exists_or_add", "add_if_absent", "overwrite_if_exists_or_add",
    "overwrite_if_exists"]
  toValue
    | .appendOrAdd => 0
    | .addIfAbsent => 1
    | .overwriteOrAdd => 2
    | .overwriteIfExists => 3
  ofValue
    | 0 => .appendOrAdd
    | 1 => .addIfAbsent
    | 2 => .overwriteOrAdd
    | 3 => .overwriteIfExists
  ofValue_toValue a := by cases a <;> rfl

abbrev Setting.shape : Shape :=
  .record "struct HeaderValueOption" <|
    .must "header" Header.shape <| .may "append_action" (Described.shape SetAction) .done

instance : Described Setting where
  shape := Setting.shape
  toValue s := (Described.toValue s.header, some (Described.toValue s.action), ())
  ofValue := fun (header, action, ()) =>
    ⟨valueOf Header header, (action.map (valueOf SetAction)).getD .overwriteOrAdd⟩
  ofValue_toValue s := by simp

abbrev Mutation.shape : Shape :=
  .record "struct HeaderMutation" <|
    .may "set_headers" (Described.shape (List Setting)) <|
      .may "remove_headers" (Described.shape (List String)) .done

instance : Described Mutation where
  shape := Mutation.shape
  toValue m := (some (Described.toValue m.set), some (Described.toValue m.remove), ())
  ofValue := fun (set, remove, ()) =>
    ⟨(set.map (valueOf (List Setting))).getD [], (remove.map (valueOf (List String))).getD []⟩
  ofValue_toValue m := by simp

end BodyCallout
