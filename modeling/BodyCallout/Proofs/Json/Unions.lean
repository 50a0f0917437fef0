import BodyCallout.Json.Writer
import BodyCallout.Proofs.Json.Outlining

set_option autoImplicit false

namespace BodyCallout.Data

open Json

def Shape.membersOutline : (s : Shape) → s.Value → Members
  | .record _ fields, vs => fields.outline vs
  | _, _ => .closed

def Cases.membersOutline : (c : Cases) → c.Values → Members
  | .case _ shape _, .inl v => shape.membersOutline v
  | .case _ _ rest, .inr v => rest.membersOutline v

theorem Shape.spells_members (s : Shape) (v : s.Value) :
    SpellsMembers (s.members v) (s.membersOutline v) := by
  cases s with
  | record _ fields => exact fields.spells_write v
  | _ => exact .closed

theorem Cases.spells_members : (c : Cases) → (tag : String) → (v : c.Values) →
    SpellsMembers (c.members tag v)
      (.member (some tag) (.text (some (c.name v))) (c.membersOutline v))
  | .case _ shape _, tag, .inl v => .member tag (spells_text _) (shape.spells_members v)
  | .case _ _ rest, tag, .inr v => rest.spells_members tag v

def Shape.isRecordBeside (tag : String) : Shape → Bool
  | .record _ fields => tag ∉ fields.keys
  | _ => false

def Cases.areRecordsBeside (tag : String) : Cases → Bool
  | .done => true
  | .case _ shape rest => shape.isRecordBeside tag && rest.areRecordsBeside tag

theorem Shape.trees_members {tag : String} {s : Shape} (hp : s.proper = true)
    (hr : s.isRecordBeside tag = true) (v : s.Value) {depth : Nat} (hd : s.height ≤ depth + 1) :
    ∃ trees, (s.membersOutline v).trees depth [] = .ok trees ∧ s.tree v = .object trees ∧
      ∀ m ∈ trees, m.1 ≠ tag := by
  cases s with
  | record _ fields =>
    simp only [proper, Bool.and_eq_true] at hp
    have hk : tag ∉ fields.keys := of_decide_eq_true hr
    exact ⟨fields.tree v, fields.trees_outline hp.1 v depth (Nat.le_of_succ_le_succ hd) [], rfl,
      Fields.ne_of_mem_tree hk v⟩
  | _ => exact absurd hr Bool.false_ne_true

theorem Cases.trees_members : (c : Cases) → (tag : String) → c.proper = true →
    c.areRecordsBeside tag = true → (v : c.Values) → (depth : Nat) → c.height ≤ depth + 1 →
    ∃ trees, (c.membersOutline v).trees depth [] = .ok trees ∧ c.tree v = .object trees ∧
      ∀ m ∈ trees, m.1 ≠ tag
  | .case _ shape _, tag, hp, hr, .inl v, depth, hd => by
    simp only [proper, areRecordsBeside, Bool.and_eq_true] at hp hr
    simp only [height, Nat.max_le] at hd
    exact Shape.trees_members hp.1 hr.1 v hd.1
  | .case _ _ rest, tag, hp, hr, .inr v, depth, hd => by
    simp only [proper, areRecordsBeside, Bool.and_eq_true] at hp hr
    simp only [height, Nat.max_le] at hd
    exact rest.trees_members tag hp.2 hr.2 v depth hd.2

end BodyCallout.Data

namespace BodyCallout.Json

open Data

theorem Members.trees_eq_ok {key : Option String} {value : Outline} {rest : Members} {depth : Nat}
    {newest trees : List (String × Tree)}
    (h : (Members.member key value rest).trees depth newest = .ok trees) :
    ∃ k t, key = some k ∧ value.tree depth = .ok t ∧
      rest.trees depth ((k, t) :: newest) = .ok trees := by
  rw [Members.trees] at h
  cases key with
  | none => cases h
  | some k =>
    change (value.tree depth >>= fun t => rest.trees depth ((k, t) :: newest)) = .ok trees at h
    cases ht : value.tree depth with
    | error fault =>
      rw [ht] at h
      cases h
    | ok t =>
      rw [ht] at h
      exact ⟨k, t, rfl, rfl, h⟩

theorem Members.mem_trees {m : String × Tree} : (ms : Members) → {depth : Nat} →
    {newest trees : List (String × Tree)} → ms.trees depth newest = .ok trees → m ∈ newest →
    m ∈ trees
  | .closed, _, newest, trees, h, hm => by
    cases h
    exact List.mem_reverse.mpr hm
  | .cut _ _ _, _, _, _, h, _ => by cases h
  | .member key value rest, depth, newest, trees, h, hm => by
    obtain ⟨k, t, -, -, h⟩ := trees_eq_ok h
    exact rest.mem_trees h (.tail (k, t) hm)

namespace Union

def proper (u : Union) : Bool :=
  u.cases.proper && u.cases.names.Nodup && u.cases.areRecordsBeside u.tag

theorem readAll_beside (u : Union) {depth : Nat} {name : Option (Fin u.cases.names.length)} :
    (ms : Members) → {newest trees : List (String × Tree)} →
    ms.trees depth newest = .ok trees → (∀ m ∈ trees, m.1 ≠ u.tag) →
    ms.readAll (u.readMember depth) ⟨name, newest⟩ = .ok ⟨name, trees.reverse⟩
  | .closed, newest, trees, h, _ => by
    cases h
    rw [List.reverse_reverse]
    rfl
  | .cut _ _ _, _, _, h, _ => by cases h
  | .member key value rest, newest, trees, h, hk => by
    obtain ⟨k, t, rfl, ht, h⟩ := Members.trees_eq_ok h
    have hne : k ≠ u.tag := hk (k, t) (rest.mem_trees h (.head newest))
    have hm : u.readMember depth k value ⟨name, newest⟩ = .ok ⟨name, (k, t) :: newest⟩ := by
      rw [readMember, if_neg hne, ht]
      rfl
    rw [Members.readAll]
    change (u.readMember depth k value ⟨name, newest⟩ >>=
      fun met => rest.readAll (u.readMember depth) met) = _
    rw [hm]
    exact u.readAll_beside rest h hk

def outline (u : Union) (v : u.cases.Values) : Outline :=
  .object <| .member (some u.tag) (.text (some (u.cases.name v))) <|
    u.cases.membersOutline v

theorem spells_write (u : Union) (v : u.cases.Values) : Spells (u.write v) (u.outline v) :=
  spells_object (u.cases.spells_members u.tag v)

theorem read_outline {u : Union} (hp : u.proper = true) (v : u.cases.Values) {depth : Nat}
    (hd : u.cases.height ≤ depth + 1) : u.read (depth + 1) (u.outline v) = .ok v := by
  simp only [proper, Bool.and_eq_true, decide_eq_true_eq] at hp
  obtain ⟨⟨hc, hn⟩, hr⟩ := hp
  obtain ⟨trees, ht, he, hk⟩ := u.cases.trees_members u.tag hc hr v depth hd
  have htag : u.readMember depth u.tag (.text (some (u.cases.name v))) ⟨none, []⟩ =
      .ok ⟨some (u.cases.place v), []⟩ := by
    rw [readMember, if_pos rfl]
    change (chosen u.cases.names (u.cases.name v)).map _ = _
    rw [Cases.name, chosen_name hn]
    rfl
  have hall : (Members.member (some u.tag) (.text (some (u.cases.name v)))
      (u.cases.membersOutline v)).readAll (u.readMember depth) ⟨none, []⟩ =
        .ok ⟨some (u.cases.place v), trees.reverse⟩ := by
    rw [Members.readAll]
    change (u.readMember depth u.tag _ ⟨none, []⟩ >>= fun met =>
      (u.cases.membersOutline v).readAll (u.readMember depth) met) = _
    rw [htag]
    exact u.readAll_beside _ ht hk
  have hheld := u.cases.heldAs_tree (D := heldDialect) rfl hc v
  rw [he] at hheld
  rw [outline, read, hall]
  change u.cases.heldAs heldDialect (u.cases.place v) (.object trees.reverse.reverse) = _
  rw [List.reverse_reverse]
  exact hheld

/-- What was written for a value is read as that value. -/
theorem decode_write {u : Union} (hp : u.proper = true) (hd : u.cases.height ≤ maxDepth)
    (v : u.cases.Values) : u.decode (Utf8.encode (u.write v)) = .ok v := by
  have hr : u.read maxDepth (u.outline v) = .ok v := read_outline hp v hd
  rw [decode, readWhole, (u.spells_write v).outline_eq]
  change (u.read maxDepth (u.outline v) >>= _) = _
  rw [hr]
  rfl

end Union

end BodyCallout.Json
