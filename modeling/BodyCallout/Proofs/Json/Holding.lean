import BodyCallout.Json.Direct
import BodyCallout.Proofs.Data.Taking

set_option autoImplicit false

namespace BodyCallout.Data

open Json

def Cases.place : (c : Cases) → c.Values → Fin c.names.length
  | .case _ _ _, .inl _ => ⟨0, Nat.zero_lt_succ _⟩
  | .case _ _ rest, .inr v => (rest.place v).succ

def Cases.name (c : Cases) (v : c.Values) : String := c.names.get (c.place v)

mutual
def Shape.tree : (s : Shape) → s.Value → Tree
  | .boolean, b => .boolean b
  | .natural _ _, n => .number (.natural n.val)
  | .text, s => .text s
  | .list item, vs => .array (vs.map item.tree)
  | .optional _, none => .null
  | .optional inner, some v => inner.tree v
  | .choice names, i => .text (names.get i)
  | .record _ fields, vs => .object (fields.tree vs)
  | .tagged _ tag content cases, v =>
    .object [(tag, .text (cases.name v)), (content, cases.tree v)]
def Fields.tree : (f : Fields) → f.Values → List (String × Tree)
  | .done, () => []
  | .must key shape rest, (v, vs) => (key, shape.tree v) :: rest.tree vs
  | .may key shape rest, (some v, vs) => (key, shape.tree v) :: rest.tree vs
  | .may _ _ rest, (none, vs) => rest.tree vs
def Cases.tree : (c : Cases) → c.Values → Tree
  | .case _ shape _, .inl v => shape.tree v
  | .case _ _ rest, .inr v => rest.tree v
end

def Shape.isOptional : Shape → Bool
  | .optional _ => true
  | _ => false

mutual
/-- A shape whose values are told apart by how they are written. -/
def Shape.proper : Shape → Bool
  | .boolean => true
  | .natural _ bound => bound ≤ wordLimit
  | .text => true
  | .list item => item.proper
  | .optional inner => inner.proper && !inner.isOptional
  | .choice names => names.Nodup
  | .record _ fields => fields.proper && fields.keys.Nodup
  | .tagged _ tag content cases => cases.proper && cases.names.Nodup && tag ≠ content
def Fields.proper : Fields → Bool
  | .done => true
  | .must _ shape rest => shape.proper && rest.proper
  | .may _ shape rest => shape.proper && rest.proper
def Cases.proper : Cases → Bool
  | .done => true
  | .case _ shape rest => shape.proper && rest.proper
end

theorem Fields.mem_keys_of_mem_tree : (f : Fields) → (vs : f.Values) →
    ∀ m ∈ f.tree vs, m.1 ∈ f.keys
  | .done, () => by simp [tree]
  | .must key shape rest, (v, vs) => by
    have ih := rest.mem_keys_of_mem_tree vs
    simp only [tree, keys, List.mem_cons]
    rintro m (rfl | hm)
    · exact .inl rfl
    · exact .inr (ih m hm)
  | .may key shape rest, (some v, vs) => by
    have ih := rest.mem_keys_of_mem_tree vs
    simp only [tree, keys, List.mem_cons]
    rintro m (rfl | hm)
    · exact .inl rfl
    · exact .inr (ih m hm)
  | .may key shape rest, (none, vs) => by
    intro m hm
    exact .tail key (rest.mem_keys_of_mem_tree vs m hm)

theorem Fields.ne_of_mem_tree {key : String} {rest : Fields} (hk : key ∉ rest.keys)
    (vs : rest.Values) : ∀ m ∈ rest.tree vs, m.1 ≠ key := fun m hm e =>
  hk (e ▸ rest.mem_keys_of_mem_tree vs m hm)

section

variable {D : Dialect Tree}

theorem chosen_name {names : List String} (hn : names.Nodup) (i : Fin names.length) :
    chosen names (names.get i) = .ok i := by
  have hi : names.finIdxOf? (names.get i) = some i := by
    refine List.finIdxOf?_eq_some_iff.mpr ⟨rfl, fun j hj he => ?_⟩
    have h : j.val = i.val := (List.getElem_inj hn).mp he
    exact absurd h (Nat.ne_of_lt hj)
  rw [chosen, hi]

theorem heldChoice_name {names : List String} (hD : D.view = Tree.view) (hn : names.Nodup)
    (i : Fin names.length) : heldChoice D names (.text (names.get i)) = .ok i := by
  simp only [heldChoice, hD, Tree.view]
  exact chosen_name hn i

theorem held_tagged {title tag content : String} {cases : Cases} (hD : D.view = Tree.view)
    (hn : cases.names.Nodup) (ht : tag ≠ content) {v : cases.Values}
    (hv : cases.heldAs D (cases.place v) (cases.tree v) = .ok v) :
    (Shape.tagged title tag content cases).held D
      ((Shape.tagged title tag content cases).tree v) = .ok v := by
  have hc : heldChoice D cases.names (.text (cases.name v)) = .ok (cases.place v) :=
    heldChoice_name hD hn (cases.place v)
  simp only [Shape.tree, Shape.held, hD, Tree.view, heldRelevant, if_true, hc, if_neg ht.symm]
  change (cases.heldAs D (cases.place v) (cases.tree v) >>= fun v => do
    heldNoMore tag content []
    .ok v) = .ok v
  rw [hv]
  rfl

theorem mapM_tree {item : Shape} (h : ∀ v, item.held D (item.tree v) = .ok v)
    (vs : List item.Value) : (vs.map item.tree).mapM (item.held D) = .ok vs := by
  induction vs with
  | nil => rfl
  | cons v vs ih =>
    rw [List.map_cons, List.mapM_cons, h, ih]
    rfl

theorem Cases.heldAs_succ {name : String} {shape : Shape} {rest : Cases}
    (i : Fin rest.names.length) (t : Tree) :
    (Cases.case name shape rest).heldAs D i.succ t = (rest.heldAs D i t).map .inr := by
  cases i
  rfl

theorem Shape.tree_ne_null {s : Shape} (h : s.isOptional = false) (v : s.Value) :
    s.tree v ≠ .null := by
  cases s with
  | optional => simp [isOptional] at h
  | _ => simp [tree]

theorem held_optional {inner : Shape} (hD : D.view = Tree.view) (hn : inner.isOptional = false)
    (h : ∀ v, inner.held D (inner.tree v) = .ok v) (v : Option inner.Value) :
    (Shape.optional inner).held D ((Shape.optional inner).tree v) = .ok v := by
  cases v with
  | none => simp only [Shape.tree, Shape.held, hD, Tree.view]
  | some v =>
    have hv := inner.tree_ne_null hn v
    simp only [Shape.tree, Shape.held, hD, h]
    cases ht : inner.tree v with
    | null => exact absurd ht hv
    | _ => rfl

mutual
/-- What is held is the value it came from. -/
theorem Shape.held_tree (hD : D.view = Tree.view) : (s : Shape) → s.proper = true →
    (v : s.Value) → s.held D (s.tree v) = .ok v
  | .boolean, _, b => by simp only [Shape.tree, Shape.held, hD, Tree.view]
  | .natural _ bound, _, n => by
    simp only [Shape.tree, Shape.held, hD, Tree.view]
    exact dif_pos n.isLt
  | .text, _, s => by simp only [Shape.tree, Shape.held, hD, Tree.view]
  | .list item, h, vs => by
    simp only [Shape.tree, Shape.held, hD, Tree.view]
    exact mapM_tree (item.held_tree hD h) vs
  | .optional inner, h, v => by
    simp only [Shape.proper, Bool.and_eq_true, Bool.not_eq_true'] at h
    exact held_optional hD h.2 (inner.held_tree hD h.1) v
  | .choice names, h, i => heldChoice_name hD (of_decide_eq_true h) i
  | .record _ fields, h, vs => by
    simp only [Shape.proper, Bool.and_eq_true, decide_eq_true_eq] at h
    exact held_record_of_taken (by rw [hD]; rfl) (fields.takeHeld_tree hD h.1 h.2 vs) _
  | .tagged _ tag content cases, h, v => by
    simp only [Shape.proper, Bool.and_eq_true, decide_eq_true_eq] at h
    exact held_tagged hD h.1.2 h.2 (cases.heldAs_tree hD h.1.1 v)
theorem Fields.takeHeld_tree (hD : D.view = Tree.view) : (f : Fields) → f.proper = true →
    f.keys.Nodup → (vs : f.Values) → f.takeHeld D f.vacant (f.tree vs) = .ok (f.slots vs)
  | .done, _, _, () => rfl
  | .must key shape rest, h, hk, (v, vs) => by
    simp only [Fields.proper, Bool.and_eq_true] at h
    simp only [Fields.keys, List.nodup_cons] at hk
    refine (Fields.takeAll_must_cons (Fields.ne_of_mem_tree hk.1 vs)).mpr ⟨?_, ?_⟩
    · rw [shape.held_tree hD h.1 v]
      rfl
    · exact rest.takeHeld_tree hD h.2 hk.2 vs
  | .may key shape rest, h, hk, (some v, vs) => by
    simp only [Fields.proper, Bool.and_eq_true] at h
    simp only [Fields.keys, List.nodup_cons] at hk
    refine (Fields.takeAll_may_cons (Fields.ne_of_mem_tree hk.1 vs)).mpr ⟨?_, ?_⟩
    · rw [shape.held_tree hD h.1 v]
      rfl
    · exact rest.takeHeld_tree hD h.2 hk.2 vs
  | .may key shape rest, h, hk, (none, vs) => by
    simp only [Fields.proper, Bool.and_eq_true] at h
    simp only [Fields.keys, List.nodup_cons] at hk
    exact Fields.takeAll_may_absent (Fields.ne_of_mem_tree hk.1 vs)
      (rest.takeHeld_tree hD h.2 hk.2 vs)
theorem Cases.heldAs_tree (hD : D.view = Tree.view) : (c : Cases) → c.proper = true →
    (v : c.Values) → c.heldAs D (c.place v) (c.tree v) = .ok v
  | .case _ shape rest, h, .inl v => by
    simp only [Cases.proper, Bool.and_eq_true] at h
    simp only [Cases.place, Cases.tree, Cases.heldAs, shape.held_tree hD h.1 v]
    rfl
  | .case _ shape rest, h, .inr v => by
    simp only [Cases.proper, Bool.and_eq_true] at h
    rw [Cases.place, Cases.heldAs_succ, Cases.tree, rest.heldAs_tree hD h.2 v]
    rfl
end

end

end BodyCallout.Data
