import BodyCallout.Proofs.Json.Holding
import BodyCallout.Proofs.Json.Spelling

set_option autoImplicit false

namespace BodyCallout.Json

def Items.ofList : List Outline → Items
  | [] => .closed
  | o :: rest => .item o (ofList rest)

end BodyCallout.Json

namespace BodyCallout.Data

open Json

mutual
def Shape.outline : (s : Shape) → s.Value → Outline
  | .boolean, b => .boolean b
  | .natural _ _, n => .number ⟨false, places n.val, none, none⟩
  | .text, s => .text (some s)
  | .list item, vs => .array (.ofList (vs.map item.outline))
  | .optional _, none => .null
  | .optional inner, some v => inner.outline v
  | .choice names, i => .text (some (names.get i))
  | .record _ fields, vs => .object (fields.outline vs)
  | .tagged _ tag content cases, v =>
    .object <| .member (some tag) (.text (some (cases.name v))) <|
      .member (some content) (cases.outline v) .closed
def Fields.outline : (f : Fields) → f.Values → Members
  | .done, () => .closed
  | .must key shape rest, (v, vs) => .member (some key) (shape.outline v) (rest.outline vs)
  | .may key shape rest, (some v, vs) => .member (some key) (shape.outline v) (rest.outline vs)
  | .may _ _ rest, (none, vs) => rest.outline vs
def Cases.outline : (c : Cases) → c.Values → Outline
  | .case _ shape _, .inl v => shape.outline v
  | .case _ _ rest, .inr v => rest.outline v
end

def Cases.writeCase : (c : Cases) → c.Values → List Char
  | .case _ shape _, .inl v => shape.write v
  | .case _ _ rest, .inr v => rest.writeCase v

theorem Cases.write_eq : (c : Cases) → (tag content : String) → (v : c.Values) →
    c.write tag content v =
      [member tag (writeText (c.name v)), member content (c.writeCase v)]
  | .case _ _ _, _, _, .inl _ => rfl
  | .case _ _ rest, tag, content, .inr v => rest.write_eq tag content v

theorem spellsItems_map {item : Shape} (h : ∀ v, Spells (item.write v) (item.outline v))
    (vs : List item.Value) :
    SpellsItems (vs.map item.write) (.ofList (vs.map item.outline)) := by
  induction vs with
  | nil => exact .closed
  | cons v vs ih => exact .item (h v) ih

mutual
/-- What is written spells the outline. -/
theorem Shape.spells_write : (s : Shape) → (v : s.Value) → Spells (s.write v) (s.outline v)
  | .boolean, b => spells_boolean b
  | .natural _ _, n => spells_digits n.val
  | .text, s => spells_text s
  | .list item, vs => spells_array (spellsItems_map item.spells_write vs)
  | .optional _, none => spells_null
  | .optional inner, some v => inner.spells_write v
  | .choice names, i => spells_text (names.get i)
  | .record _ fields, vs => spells_object (fields.spells_write vs)
  | .tagged _ tag content cases, v => by
    rw [Shape.write, cases.write_eq, Shape.outline]
    exact spells_object <| .member tag (spells_text _) <|
      .member content (cases.spells_write v) .closed
theorem Fields.spells_write : (f : Fields) → (vs : f.Values) →
    SpellsMembers (f.write vs) (f.outline vs)
  | .done, () => .closed
  | .must key shape rest, (v, vs) => .member key (shape.spells_write v) (rest.spells_write vs)
  | .may key shape rest, (some v, vs) => .member key (shape.spells_write v) (rest.spells_write vs)
  | .may _ _ rest, (none, vs) => rest.spells_write vs
theorem Cases.spells_write : (c : Cases) → (v : c.Values) → Spells (c.writeCase v) (c.outline v)
  | .case _ shape _, .inl v => shape.spells_write v
  | .case _ _ rest, .inr v => rest.spells_write v
end

mutual
/-- How many arrays and objects of a value may be open at once. -/
def Shape.height : Shape → Nat
  | .boolean => 0
  | .natural _ _ => 0
  | .text => 0
  | .list item => item.height + 1
  | .optional inner => inner.height
  | .choice _ => 0
  | .record _ fields => fields.height + 1
  | .tagged _ _ _ cases => cases.height + 1
def Fields.height : Fields → Nat
  | .done => 0
  | .must _ shape rest => max shape.height rest.height
  | .may _ shape rest => max shape.height rest.height
def Cases.height : Cases → Nat
  | .done => 0
  | .case _ shape rest => max shape.height rest.height
end

theorem value?_places {n : Nat} (h : n < wordLimit) :
    Numeral.value? ⟨false, places n, none, none⟩ = some (.natural n) := by
  rw [Numeral.value?]
  simp [ofDigits_places, Nat.not_le.mpr h]

theorem trees_ofList {item : Shape} {depth : Nat}
    (h : ∀ v, (item.outline v).tree depth = .ok (item.tree v)) (vs : List item.Value)
    (newest : List Tree) :
    (Items.ofList (vs.map item.outline)).trees depth newest =
      .ok (newest.reverse ++ vs.map item.tree) := by
  induction vs generalizing newest with
  | nil => simp [Items.ofList, Items.trees]
  | cons v vs ih =>
    simp only [List.map_cons, Items.ofList, Items.trees, h]
    exact (ih (item.tree v :: newest)).trans (by simp)

theorem trees_member {depth : Nat} {key : String} {o : Outline} {t : Tree} {members : Members}
    {newest trees : List (String × Tree)} (ho : o.tree depth = .ok t)
    (hm : members.trees depth ((key, t) :: newest) =
      .ok (((key, t) :: newest).reverse ++ trees)) :
    (Members.member (some key) o members).trees depth newest =
      .ok (newest.reverse ++ (key, t) :: trees) := by
  simp only [Members.trees, readText]
  change (o.tree depth >>= fun t => members.trees depth ((key, t) :: newest)) = _
  rw [ho]
  exact hm.trans (by simp)

mutual
/-- The outline of a value holds its tree. -/
theorem Shape.tree_outline : (s : Shape) → s.proper = true → (v : s.Value) → (depth : Nat) →
    s.height ≤ depth → (s.outline v).tree depth = .ok (s.tree v)
  | .boolean, _, b, depth, _ => by simp only [Shape.outline, Outline.tree, Shape.tree]
  | .natural _ bound, h, n, depth, _ => by
    have hn : n.val < wordLimit := Nat.lt_of_lt_of_le n.isLt (of_decide_eq_true h)
    simp only [Shape.outline, Outline.tree, readNumber, value?_places hn, Shape.tree]
    rfl
  | .text, _, s, depth, _ => by simp only [Shape.outline, Outline.tree, Shape.tree]; rfl
  | .list item, h, vs, depth + 1, hd => by
    have hi (v : item.Value) := item.tree_outline h v depth (Nat.le_of_succ_le_succ hd)
    simp only [Shape.outline, Outline.tree, Shape.tree, trees_ofList hi]
    rfl
  | .optional _, _, none, depth, _ => by simp only [Shape.outline, Outline.tree, Shape.tree]
  | .optional inner, h, some v, depth, hd => by
    simp only [Shape.proper, Bool.and_eq_true] at h
    exact inner.tree_outline h.1 v depth hd
  | .choice names, _, i, depth, _ => by simp only [Shape.outline, Outline.tree, Shape.tree]; rfl
  | .record _ fields, h, vs, depth + 1, hd => by
    simp only [Shape.proper, Bool.and_eq_true] at h
    have hf := fields.trees_outline h.1 vs depth (Nat.le_of_succ_le_succ hd) []
    simp only [Shape.outline, Outline.tree, Shape.tree, hf]
    rfl
  | .tagged _ tag content cases, h, v, depth + 1, hd => by
    simp only [Shape.proper, Bool.and_eq_true] at h
    have hc := cases.tree_outline h.1.1 v depth (Nat.le_of_succ_le_succ hd)
    simp only [Shape.outline, Outline.tree, Members.trees, readText, Shape.tree]
    change ((cases.outline v).tree depth >>= _).map Tree.object = _
    rw [hc]
    rfl
theorem Fields.trees_outline : (f : Fields) → f.proper = true → (vs : f.Values) → (depth : Nat) →
    f.height ≤ depth → (newest : List (String × Tree)) →
    (f.outline vs).trees depth newest = .ok (newest.reverse ++ f.tree vs)
  | .done, _, (), depth, _, newest => by
    simp [Fields.outline, Members.trees, Fields.tree]
  | .must key shape rest, h, (v, vs), depth, hd, newest => by
    simp only [Fields.proper, Bool.and_eq_true] at h
    simp only [Fields.height, Nat.max_le] at hd
    exact trees_member (shape.tree_outline h.1 v depth hd.1)
      (rest.trees_outline h.2 vs depth hd.2 ((key, shape.tree v) :: newest))
  | .may key shape rest, h, (some v, vs), depth, hd, newest => by
    simp only [Fields.proper, Bool.and_eq_true] at h
    simp only [Fields.height, Nat.max_le] at hd
    exact trees_member (shape.tree_outline h.1 v depth hd.1)
      (rest.trees_outline h.2 vs depth hd.2 ((key, shape.tree v) :: newest))
  | .may _ _ rest, h, (none, vs), depth, hd, newest => by
    simp only [Fields.proper, Bool.and_eq_true] at h
    simp only [Fields.height, Nat.max_le] at hd
    exact rest.trees_outline h.2 vs depth hd.2 newest
theorem Cases.tree_outline : (c : Cases) → c.proper = true → (v : c.Values) → (depth : Nat) →
    c.height ≤ depth → (c.outline v).tree depth = .ok (c.tree v)
  | .case _ shape _, h, .inl v, depth, hd => by
    simp only [Cases.proper, Bool.and_eq_true] at h
    simp only [Cases.height, Nat.max_le] at hd
    exact shape.tree_outline h.1 v depth hd.1
  | .case _ _ rest, h, .inr v, depth, hd => by
    simp only [Cases.proper, Bool.and_eq_true] at h
    simp only [Cases.height, Nat.max_le] at hd
    exact rest.tree_outline h.2 v depth hd.2
end

end BodyCallout.Data
