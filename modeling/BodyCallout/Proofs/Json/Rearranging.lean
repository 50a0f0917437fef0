import Mathlib.Data.List.Perm.Basic
import Mathlib.Data.List.Permutation
import BodyCallout.Proofs.Json.Gathering
import BodyCallout.Proofs.Json.Outlining

/-!
Values whose objects are written in any order and with more in them than their fields. A rendering of
a value is what is written for it, but for the order of the members of every object and for further
members among them; it is read as the value. What is held until its tag is known is read to its end,
and so an integer that no number can hold is an obstacle there, and nowhere else.
-/

set_option autoImplicit false

namespace BodyCallout.Json

open Data

def integerText (n : Int) : List Char :=
  if n < 0 then '-' :: Decimal.digits n.natAbs else Decimal.digits n.natAbs

def integerNumeral (n : Int) : Numeral := ⟨n < 0, places n.natAbs, none, none⟩

/-- A text that is neither an array nor an object. An integer that is held must be in the range of
numbers. -/
inductive Scalar (held : Bool) : List Char → Prop where
  | null : Scalar held null
  | boolean (b : Bool) : Scalar held (writeBoolean b)
  | text (s : String) : Scalar held (writeText s)
  | integer (n : Int) (inRange : held = true → (integerNumeral n).value?.isSome) :
      Scalar held (integerText n)

theorem spells_integer (n : Int) : Spells (integerText n) (.number (integerNumeral n)) := by
  unfold integerText integerNumeral
  split
  · next h =>
    rw [decide_eq_true h]
    exact spells_negative n.natAbs
  · next h =>
    rw [decide_eq_false h]
    exact spells_digits n.natAbs

theorem Scalar.of_lt {n : Int} (h : n.natAbs < wordLimit) (held : Bool) :
    Scalar held (integerText n) := by
  refine .integer n fun _ => ?_
  simp only [integerNumeral, Numeral.value?, ofDigits_places, if_neg (Nat.not_le.mpr h)]
  split
  · rfl
  · split <;> rfl

/-- The members of an object are the given ones and further ones, in any order; no key of a further
one is among `keys`. -/
def Among (held : Bool) (keys : List String) (given entries : List (String × List Char)) : Prop :=
  ∃ others, entries.Perm (given ++ others) ∧ ∀ e ∈ others, e.1 ∉ keys ∧ Scalar held e.2

def contentFirst (tag content : String) (keys : List String) : Bool :=
  keys.find? (fun key => key = tag || key = content) = some content

end BodyCallout.Json

namespace BodyCallout.Data

open Json

mutual
/-- The text is a rendering of the value; `held` says that it is held before it is read, as content
is that comes before its tag. -/
def Shape.Renders : (s : Shape) → (held : Bool) → s.Value → List Char → Prop
  | .boolean, _, b, text => text = writeBoolean b
  | .natural _ _, _, n, text => text = Decimal.digits n.val
  | .text, _, s, text => text = writeText s
  | .list item, held, vs, text =>
    ∃ texts, text = bracket '[' ']' texts ∧ List.Forall₂ (item.Renders held) vs texts
  | .optional _, _, none, text => text = null
  | .optional inner, held, some v, text => inner.Renders held v text
  | .choice names, _, i, text => text = writeText (names.get i)
  | .record _ fields, held, vs, text =>
    ∃ given entries, text = objectText entries ∧ fields.Renders held vs given ∧
      Among held fields.keys given entries
  | .tagged _ tag content cases, held, v, text =>
    ∃ payload entries, text = objectText entries ∧
      cases.Renders (held || contentFirst tag content (entries.map Prod.fst)) v payload ∧
      Among held [tag, content] [(tag, writeText (cases.name v)), (content, payload)] entries
/-- The members are renderings of the fields that have values. -/
def Fields.Renders : (f : Fields) → (held : Bool) → f.Values → List (String × List Char) → Prop
  | .done, _, (), given => given = []
  | .must key shape rest, held, (v, vs), given =>
    ∃ text more, given = (key, text) :: more ∧ shape.Renders held v text ∧
      rest.Renders held vs more
  | .may key shape rest, held, (some v, vs), given =>
    ∃ text more, given = (key, text) :: more ∧ shape.Renders held v text ∧
      rest.Renders held vs more
  | .may _ _ rest, held, (none, vs), given => rest.Renders held vs given
def Cases.Renders : (c : Cases) → (held : Bool) → c.Values → List Char → Prop
  | .case _ shape _, held, .inl v, text => shape.Renders held v text
  | .case _ _ rest, held, .inr v, text => rest.Renders held v text
end

def Shape.RendersMembers : (s : Shape) → s.Value → List (String × List Char) → Prop
  | .record _ fields, vs, given => fields.Renders true vs given
  | _, _, _ => False

def Cases.RendersMembers : (c : Cases) → c.Values → List (String × List Char) → Prop
  | .case _ shape _, .inl v, given => shape.RendersMembers v given
  | .case _ _ rest, .inr v, given => rest.RendersMembers v given

def Shape.keys : Shape → List String
  | .record _ fields => fields.keys
  | _ => []

def Cases.keys : (c : Cases) → c.Values → List String
  | .case _ shape _, .inl _ => shape.keys
  | .case _ _ rest, .inr v => rest.keys v

end BodyCallout.Data

namespace BodyCallout.Json

open Data

/-- The tag of a union may stand anywhere among the fields of its case, all of which are held. -/
def Union.Renders (u : Union) (v : u.cases.Values) (text : List Char) : Prop :=
  ∃ given entries, text = objectText entries ∧ u.cases.RendersMembers v given ∧
    Among true (u.tag :: u.cases.keys v) ((u.tag, writeText (u.cases.name v)) :: given) entries

/-! What is written is a rendering. -/

theorem Among.given (held : Bool) (keys : List String) (given : List (String × List Char)) :
    Among held keys given given :=
  ⟨[], by simp, nofun⟩

end BodyCallout.Json

namespace BodyCallout.Data

open Json

mutual
theorem Shape.renders_write : (s : Shape) → (held : Bool) → (v : s.Value) →
    s.Renders held v (s.write v)
  | .boolean, _, _ => rfl
  | .natural _ _, _, _ => rfl
  | .text, _, _ => rfl
  | .list item, held, vs =>
    ⟨vs.map item.write, rfl, List.forall₂_map_right_iff.mpr
      (List.forall₂_same.mpr fun v _ => item.renders_write held v)⟩
  | .optional _, _, none => rfl
  | .optional inner, held, some v => inner.renders_write held v
  | .choice _, _, _ => rfl
  | .record _ fields, held, vs => by
    obtain ⟨given, hg, hw⟩ := fields.renders_write held vs
    exact ⟨given, given, congrArg (bracket openBrace closeBrace) hw.symm, hg, .given held _ given⟩
  | .tagged _ tag content cases, held, v =>
    ⟨cases.writeCase v, [(tag, writeText (cases.name v)), (content, cases.writeCase v)],
      congrArg (bracket openBrace closeBrace) (cases.write_eq tag content v),
      cases.renders_write _ v, .given held _ _⟩
theorem Fields.renders_write : (f : Fields) → (held : Bool) → (vs : f.Values) →
    ∃ given, f.Renders held vs given ∧ given.map (fun e => member e.1 e.2) = f.write vs
  | .done, _, () => ⟨[], rfl, rfl⟩
  | .must key shape rest, held, (v, vs) => by
    obtain ⟨more, hm, hw⟩ := rest.renders_write held vs
    exact ⟨_, ⟨shape.write v, more, rfl, shape.renders_write held v, hm⟩, congrArg (_ :: ·) hw⟩
  | .may key shape rest, held, (some v, vs) => by
    obtain ⟨more, hm, hw⟩ := rest.renders_write held vs
    exact ⟨_, ⟨shape.write v, more, rfl, shape.renders_write held v, hm⟩, congrArg (_ :: ·) hw⟩
  | .may _ _ rest, held, (none, vs) => rest.renders_write held vs
theorem Cases.renders_write : (c : Cases) → (held : Bool) → (v : c.Values) →
    c.Renders held v (c.writeCase v)
  | .case _ shape _, held, .inl v => shape.renders_write held v
  | .case _ _ rest, held, .inr v => rest.renders_write held v
end

theorem Cases.rendersMembers_write : (c : Cases) → (tag : String) →
    c.areRecordsBeside tag = true → (v : c.Values) →
    ∃ given, c.RendersMembers v given ∧
      ((tag, writeText (c.name v)) :: given).map (fun e => member e.1 e.2) = c.members tag v
  | .case _ shape _, tag, h, .inl v => by
    have h := (Bool.and_eq_true_iff.mp h).1
    cases shape with
    | record _ fields =>
      obtain ⟨given, hg, hw⟩ := fields.renders_write true v
      exact ⟨given, hg, congrArg (_ :: ·) hw⟩
    | _ => exact absurd h Bool.false_ne_true
  | .case _ _ rest, tag, h, .inr v =>
    rest.rendersMembers_write tag (Bool.and_eq_true_iff.mp h).2 v

end BodyCallout.Data

namespace BodyCallout.Json

open Data

theorem Union.renders_write {u : Union} (h : u.proper = true) (v : u.cases.Values) :
    u.Renders v (u.write v) := by
  obtain ⟨given, hg, hw⟩ := u.cases.rendersMembers_write u.tag (Bool.and_eq_true_iff.mp h).2 v
  exact ⟨given, _, congrArg (bracket openBrace closeBrace) hw.symm, hg, .given true _ _⟩

/-- A text that is scanned as one value, which the tree holds. -/
def Carries (depth : Nat) (text : List Char) (t : Tree) : Prop :=
  ∃ o, Spells text o ∧ o.tree depth = .ok t

def Under {X : Type} (r : List Char → X → Prop) (e : String × List Char) (m : String × X) : Prop :=
  e.1 = m.1 ∧ r e.2 m.2

theorem map_fst_of_under {X : Type} {r : List Char → X → Prop}
    {entries : List (String × List Char)} {members : List (String × X)}
    (h : List.Forall₂ (Under r) entries members) : entries.map Prod.fst = members.map Prod.fst := by
  induction h with
  | nil => rfl
  | cons h _ ih => exact List.cons_eq_cons.mpr ⟨h.1, ih⟩

theorem Among.exists_members {X : Type} {r : List Char → X → Prop} {held : Bool} {p : X → Prop}
    (hs : ∀ {text}, Scalar held text → ∃ x, r text x ∧ p x) {keys : List String}
    {given entries : List (String × List Char)} (h : Among held keys given entries)
    {members : List (String × X)} (hg : List.Forall₂ (Under r) given members) :
    ∃ all others, List.Forall₂ (Under r) entries all ∧ all.Perm (members ++ others) ∧
      ∀ m ∈ others, m.1 ∉ keys ∧ p m.2 := by
  obtain ⟨others, hp, ho⟩ := h
  -- The order is that of the texts: what is under them is found first, and then put in it.
  have ho : ∃ ms, List.Forall₂ (Under r) others ms ∧ ∀ m ∈ ms, m.1 ∉ keys ∧ p m.2 := by
    clear hp
    induction others with
    | nil => exact ⟨[], .nil, nofun⟩
    | cons e others ih =>
      obtain ⟨hk, he⟩ := ho e (.head _)
      obtain ⟨ms, hm, hn⟩ := ih fun e he => ho e (.tail _ he)
      obtain ⟨x, hx, hp⟩ := hs he
      exact ⟨(e.1, x) :: ms, .cons ⟨rfl, hx⟩ hm, List.forall_mem_cons.mpr ⟨⟨hk, hp⟩, hn⟩⟩
  obtain ⟨ms, hm, hn⟩ := ho
  obtain ⟨all, ha, hp⟩ := List.perm_comp_forall₂ hp (List.rel_append hg hm)
  exact ⟨all, ms, ha, hp, hn⟩

theorem Scalar.passes {held : Bool} {text : List Char} (h : Scalar held text) :
    ∃ o, Spells text o ∧ o.pass = .ok () := by
  cases h with
  | null => exact ⟨_, spells_null, rfl⟩
  | boolean b => exact ⟨_, spells_boolean b, rfl⟩
  | text s => exact ⟨_, spells_text s, rfl⟩
  | integer n _ => exact ⟨_, spells_integer n, rfl⟩

section

variable {depth : Nat}

theorem carries_text (s : String) : Carries depth (writeText s) (.text s) :=
  ⟨_, spells_text s, by rw [Outline.tree]; rfl⟩

theorem Scalar.carries {text : List Char} (h : Scalar true text) : ∃ t, Carries depth text t := by
  cases h with
  | null => exact ⟨.null, _, spells_null, by rw [Outline.tree]⟩
  | boolean b => exact ⟨.boolean b, _, spells_boolean b, by rw [Outline.tree]⟩
  | text s => exact ⟨.text s, carries_text s⟩
  | integer n inRange =>
    obtain ⟨x, hx⟩ := Option.isSome_iff_exists.mp (inRange rfl)
    refine ⟨.number x, _, spells_integer n, ?_⟩
    rw [Outline.tree, readNumber, hx]
    rfl

theorem Among.exists_trees {keys : List String} {given entries : List (String × List Char)}
    (h : Among true keys given entries) {ts : List (String × Tree)}
    (hg : List.Forall₂ (Under (Carries depth)) given ts) :
    ∃ all others, List.Forall₂ (Under (Carries depth)) entries all ∧ all.Perm (ts ++ others) ∧
      ∀ m ∈ others, m.1 ∉ keys := by
  obtain ⟨all, others, ha, hp, ho⟩ := h.exists_members (p := fun _ => True)
    (fun hs => hs.carries.imp fun _ h => ⟨h, trivial⟩) hg
  exact ⟨all, others, ha, hp, fun m hm => (ho m hm).1⟩

theorem carries_array {texts : List (List Char)} {ts : List Tree}
    (h : List.Forall₂ (Carries depth) texts ts) :
    Carries (depth + 1) (bracket '[' ']' texts) (.array ts) := by
  have hi : ∃ items, SpellsItems texts items ∧ items.Holds depth ts := by
    induction h with
    | nil => exact ⟨.closed, .closed, .closed⟩
    | cons h _ ih =>
      obtain ⟨o, hs, ht⟩ := h
      obtain ⟨items, hss, hts⟩ := ih
      exact ⟨_, .item hs hss, .item ht hts⟩
  obtain ⟨items, hs, ht⟩ := hi
  exact ⟨_, spells_array hs, Outline.tree_array ht⟩

theorem carries_object {entries : List (String × List Char)} {ts : List (String × Tree)}
    (h : List.Forall₂ (Under (Carries depth)) entries ts) :
    ∃ members, Spells (objectText entries) (.object members) ∧ members.Holds depth ts := by
  have hm : ∃ members, SpellsMembers (entries.map fun e => member e.1 e.2) members ∧
      members.Holds depth ts := by
    induction h with
    | nil => exact ⟨.closed, .closed, .closed⟩
    | @cons e m _ _ h _ ih =>
      obtain ⟨key, t⟩ := m
      obtain ⟨rfl, o, hs, ht⟩ := h
      obtain ⟨members, hss, hts⟩ := ih
      exact ⟨_, .member e.1 hs hss, .member ht hts⟩
  obtain ⟨members, hs, ht⟩ := hm
  exact ⟨members, spells_object hs, ht⟩

theorem spells_members {entries : List (String × List Char)} {os : List (String × Outline)}
    (h : List.Forall₂ (Under Spells) entries os) :
    Spells (objectText entries) (.object (.ofList os)) := by
  refine spells_object ?_
  induction h with
  | nil => exact .closed
  | @cons e m _ _ h _ ih =>
    obtain ⟨key, o⟩ := m
    obtain ⟨rfl, hs⟩ := h
    exact .member e.1 hs ih

end

end BodyCallout.Json

namespace BodyCallout.Data

open Json

section

variable {X : Type} {tag content : String}

def isRelevant {X : Type} (tag content : String) (m : String × X) : Bool :=
  m.1 = tag || m.1 = content

theorem isRelevant_eq_false {m : String × X} :
    isRelevant tag content m = false ↔ m.1 ≠ tag ∧ m.1 ≠ content := by
  simp [isRelevant]

theorem filter_of_perm {x y : X} {others all : List (String × X)}
    (ho : ∀ m ∈ others, m.1 ∉ [tag, content])
    (hp : all.Perm ((tag, x) :: (content, y) :: others)) :
    all.filter (isRelevant tag content) = [(tag, x), (content, y)] ∨
      all.filter (isRelevant tag content) = [(content, y), (tag, x)] := by
  have hn : others.filter (isRelevant tag content) = [] := by
    refine List.filter_eq_nil_iff.mpr fun m hm => Bool.not_eq_true _ ▸ ?_
    have hm := ho m hm
    simp only [List.mem_cons, List.not_mem_nil, or_false, not_or] at hm
    exact isRelevant_eq_false.mpr hm
  have hf := hp.filter (isRelevant tag content)
  rw [List.filter_cons, if_pos (by simp [isRelevant]), List.filter_cons,
    if_pos (by simp [isRelevant]), hn] at hf
  exact List.perm_pair.mp hf

theorem contentFirst_eq {m : String × X} {all left : List (String × X)}
    (h : all.filter (isRelevant tag content) = m :: left) :
    contentFirst tag content (all.map Prod.fst) = (m.1 = content : Bool) := by
  have hf : (all.map Prod.fst).find? (fun key => key = tag || key = content) = some m.1 := by
    rw [List.find?_map]
    change (all.find? (isRelevant tag content)).map Prod.fst = _
    rw [← List.head?_filter, h]
    rfl
  rw [contentFirst, hf]
  simp

theorem heldRelevant_of_filter_nil {members : List (String × Tree)}
    (h : members.filter (isRelevant tag content) = []) :
    heldRelevant tag content members = .neither := by
  induction members with
  | nil => rfl
  | cons m members ih =>
    obtain ⟨key, t⟩ := m
    rw [List.filter_cons] at h
    split at h
    · cases h
    · next hm =>
      obtain ⟨ht, hc⟩ := isRelevant_eq_false.mp (Bool.not_eq_true _ ▸ hm)
      rw [heldRelevant, if_neg ht, if_neg hc]
      exact ih h

theorem heldRelevant_of_filter_cons {members left : List (String × Tree)} {m : String × Tree}
    (h : members.filter (isRelevant tag content) = m :: left) :
    ∃ rest, rest.filter (isRelevant tag content) = left ∧
      heldRelevant tag content members = if m.1 = tag then .tag m.2 rest else .content m.2 rest := by
  induction members with
  | nil => cases h
  | cons n members ih =>
    obtain ⟨key, t⟩ := n
    rw [List.filter_cons] at h
    split at h
    · next hn =>
      obtain ⟨rfl, rfl⟩ := List.cons_eq_cons.mp h
      refine ⟨members, rfl, ?_⟩
      simp only [isRelevant, Bool.or_eq_true, decide_eq_true_eq] at hn
      rw [heldRelevant]
      split
      · rfl
      · next ht => rw [if_pos (hn.resolve_left ht)]
    · next hn =>
      obtain ⟨ht, hc⟩ := isRelevant_eq_false.mp (Bool.not_eq_true _ ▸ hn)
      rw [heldRelevant, if_neg ht, if_neg hc]
      exact ih h

theorem next_of_filter_nil {members : List (String × Outline)}
    (hp : ∀ m ∈ members, isRelevant tag content m = false → m.2.pass = .ok ())
    (h : members.filter (isRelevant tag content) = []) :
    (Members.ofList members).next tag content = .ok .neither := by
  induction members with
  | nil => rfl
  | cons m members ih =>
    obtain ⟨key, o⟩ := m
    rw [List.filter_cons] at h
    split at h
    · cases h
    · next hm =>
      have hm : isRelevant tag content (key, o) = false := Bool.not_eq_true _ ▸ hm
      obtain ⟨ht, hc⟩ := isRelevant_eq_false.mp hm
      change (if key = tag then _ else if key = content then _ else
        o.pass >>= fun _ => (Members.ofList members).next tag content) = _
      rw [if_neg ht, if_neg hc, hp _ (.head _) hm]
      exact ih (fun n hn => hp n (.tail _ hn)) h

theorem next_of_filter_cons {members left : List (String × Outline)} {m : String × Outline}
    (hp : ∀ m ∈ members, isRelevant tag content m = false → m.2.pass = .ok ())
    (h : members.filter (isRelevant tag content) = m :: left) :
    ∃ rest, rest.filter (isRelevant tag content) = left ∧
      (∀ n ∈ rest, isRelevant tag content n = false → n.2.pass = .ok ()) ∧
      (Members.ofList members).next tag content =
        .ok (if m.1 = tag then .tag m.2 (.ofList rest) else .content m.2 (.ofList rest)) := by
  induction members with
  | nil => cases h
  | cons n members ih =>
    obtain ⟨key, o⟩ := n
    have hp' := fun n hn => hp n (.tail _ hn)
    rw [List.filter_cons] at h
    split at h
    · next hn =>
      obtain ⟨rfl, rfl⟩ := List.cons_eq_cons.mp h
      refine ⟨members, rfl, hp', ?_⟩
      simp only [isRelevant, Bool.or_eq_true, decide_eq_true_eq] at hn
      change (if key = tag then _ else if key = content then _ else _) = _
      split
      · rfl
      · next ht =>
        rw [if_pos (hn.resolve_left ht)]
    · next hn =>
      have hn : isRelevant tag content (key, o) = false := Bool.not_eq_true _ ▸ hn
      obtain ⟨ht, hc⟩ := isRelevant_eq_false.mp hn
      change ∃ rest, _ ∧ _ ∧ (if key = tag then _ else if key = content then _ else
        o.pass >>= fun _ => (Members.ofList members).next tag content) = _
      rw [if_neg ht, if_neg hc, hp _ (.head _) hn]
      exact ih hp' h

end

end BodyCallout.Data

namespace BodyCallout.Data

open Json

section

variable {title tag content : String} {cases : Cases} {v : cases.Values}

theorem held_tagged_of_perm (hne : tag ≠ content) (hn : cases.names.Nodup) {t : Tree}
    (hv : cases.heldAs heldDialect (cases.place v) t = .ok v) {others all : List (String × Tree)}
    (ho : ∀ m ∈ others, m.1 ∉ [tag, content])
    (hp : all.Perm ((tag, .text (cases.name v)) :: (content, t) :: others)) :
    (Shape.tagged title tag content cases).held heldDialect (.object all) = .ok v := by
  have hc : heldChoice heldDialect cases.names (.text (cases.name v)) = .ok (cases.place v) :=
    heldChoice_name rfl hn (cases.place v)
  have hm {left : List (String × Tree)} (hl : left.filter (isRelevant tag content) = []) :
      (do let v ← cases.heldAs heldDialect (cases.place v) t
          heldNoMore tag content left
          .ok v) = .ok v :=
    checked_eq_ok_iff.mpr ⟨hv, by rw [heldNoMore, heldRelevant_of_filter_nil hl]⟩
  -- Only the tag and the content count, and so there are two orders.
  rcases filter_of_perm ho hp with hf | hf
  · obtain ⟨rest, hr, ha⟩ := heldRelevant_of_filter_cons hf
    obtain ⟨left, hl, hb⟩ := heldRelevant_of_filter_cons hr
    rw [if_pos rfl] at ha
    rw [if_neg hne.symm] at hb
    simp only [Shape.held, view_heldDialect, Tree.view, ha, hb, hc]
    exact hm hl
  · obtain ⟨rest, hr, ha⟩ := heldRelevant_of_filter_cons hf
    obtain ⟨left, hl, hb⟩ := heldRelevant_of_filter_cons hr
    rw [if_neg hne.symm] at ha
    rw [if_pos rfl] at hb
    simp only [Shape.held, view_heldDialect, Tree.view, ha, hb, hc]
    exact hm hl

/-- The content is held if it comes first, and else is read directly. -/
theorem read_tagged_of_perm (hne : tag ≠ content) (hn : cases.names.Nodup) {depth : Nat}
    {o : Outline} {others all : List (String × Outline)}
    (hd : contentFirst tag content (all.map Prod.fst) = false →
      cases.readAs (cases.place v) depth o = .ok v)
    (hh : contentFirst tag content (all.map Prod.fst) = true →
      ∃ t, o.tree depth = .ok t ∧ cases.heldAs heldDialect (cases.place v) t = .ok v)
    (ho : ∀ m ∈ others, m.1 ∉ [tag, content] ∧ m.2.pass = .ok ())
    (hp : all.Perm ((tag, .text (some (cases.name v))) :: (content, o) :: others)) :
    (Shape.tagged title tag content cases).read (depth + 1) (.object (.ofList all)) = .ok v := by
  have hc : readChoice cases.names depth (.text (some (cases.name v))) = .ok (cases.place v) :=
    chosen_name hn (cases.place v)
  have hpass : ∀ m ∈ all, isRelevant tag content m = false → m.2.pass = .ok () := by
    intro m hm hr
    obtain ⟨ht, hc⟩ := isRelevant_eq_false.mp hr
    rcases List.mem_cons.mp (hp.subset hm) with rfl | hm
    · exact absurd rfl ht
    · rcases List.mem_cons.mp hm with rfl | hm
      · exact absurd rfl hc
      · exact (ho m hm).2
  have hm {left : List (String × Outline)}
      (hl : left.filter (isRelevant tag content) = [])
      (hp : ∀ m ∈ left, isRelevant tag content m = false → m.2.pass = .ok ()) :
      (Members.ofList left).noMore tag content = .ok () := by
    rw [Members.noMore, next_of_filter_nil hp hl]
    rfl
  rcases filter_of_perm (fun m hm => (ho m hm).1) hp with hf | hf
  · obtain ⟨rest, hr, hq, ha⟩ := next_of_filter_cons hpass hf
    obtain ⟨left, hl, hq, hb⟩ := next_of_filter_cons hq hr
    rw [if_pos rfl] at ha
    rw [if_neg hne.symm] at hb
    have hv := hd (by rw [contentFirst_eq hf]; exact decide_eq_false hne)
    simp only [Shape.read, ha]
    change (readChoice cases.names depth (.text (some (cases.name v))) >>= _) = _
    simp only [hc]
    change ((Members.ofList rest).next tag content >>= _) = _
    simp only [hb]
    exact checked_eq_ok_iff.mpr ⟨hv, hm hl hq⟩
  · obtain ⟨rest, hr, hq, ha⟩ := next_of_filter_cons hpass hf
    obtain ⟨left, hl, hq, hb⟩ := next_of_filter_cons hq hr
    rw [if_neg hne.symm] at ha
    rw [if_pos rfl] at hb
    obtain ⟨t, ht, hv⟩ := hh (by rw [contentFirst_eq hf]; exact decide_eq_true rfl)
    simp only [Shape.read, ha]
    change (o.tree depth >>= _) = _
    simp only [ht]
    change ((Members.ofList rest).next tag content >>= _) = _
    simp only [hb]
    change (readChoice cases.names depth (.text (some (cases.name v))) >>= _) = _
    simp only [hc]
    exact checked_eq_ok_iff.mpr ⟨hv, hm hl hq⟩

end

/-- The fields are read from what is under the keys of these members, wherever they stand among members
that are no fields. -/
def Fields.GathersFrom {X : Type} (r : List Char → X → Prop)
    (one : (s : Shape) → X → Reading s.Value) (other : X → Reading Unit) (f : Fields) (vs : f.Values)
    (given : List (String × List Char)) : Prop :=
  ∃ members, List.Forall₂ (Under r) given members ∧ (∀ m ∈ members, m.1 ∈ f.keys) ∧
    f.Gathers one other vs members

section

variable {X : Type} {r : List Char → X → Prop} {one : (s : Shape) → X → Reading s.Value}
  {other : X → Reading Unit} {key : String} {shape : Shape} {rest : Fields} {vs : rest.Values}
  {more : List (String × List Char)}

theorem Fields.gathersFrom_done : Fields.done.GathersFrom r one other () [] :=
  ⟨[], .nil, nofun, gathers_done⟩

theorem Fields.GathersFrom.must (h : rest.GathersFrom r one other vs more) (hk : key ∉ rest.keys)
    {text : List Char} {x : X} {v : shape.Value} (hx : r text x) (hv : one shape x = .ok v) :
    (Fields.must key shape rest).GathersFrom r one other (v, vs) ((key, text) :: more) := by
  obtain ⟨members, hu, hm, hg⟩ := h
  exact ⟨(key, x) :: members, .cons ⟨rfl, hx⟩ hu,
    List.forall_mem_cons.mpr ⟨.head _, fun m hm' => .tail _ (hm m hm')⟩, hg.must hk hm hv⟩

theorem Fields.GathersFrom.may (h : rest.GathersFrom r one other vs more) (hk : key ∉ rest.keys)
    {text : List Char} {x : X} {v : shape.Value} (hx : r text x) (hv : one shape x = .ok v) :
    (Fields.may key shape rest).GathersFrom r one other (some v, vs) ((key, text) :: more) := by
  obtain ⟨members, hu, hm, hg⟩ := h
  exact ⟨(key, x) :: members, .cons ⟨rfl, hx⟩ hu,
    List.forall_mem_cons.mpr ⟨.head _, fun m hm' => .tail _ (hm m hm')⟩, hg.may hk hm hv⟩

theorem Fields.GathersFrom.absent (h : rest.GathersFrom r one other vs more)
    (hk : key ∉ rest.keys) :
    (Fields.may key shape rest).GathersFrom r one other (none, vs) more := by
  obtain ⟨members, hu, hm, hg⟩ := h
  exact ⟨members, hu, fun m hm' => .tail _ (hm m hm'), hg.absent hk hm⟩

end

/-! Renderings that are held. -/

theorem Shape.ne_null_of_held {s : Shape} (h : s.isOptional = false) {t : Tree} {v : s.Value}
    (hv : s.held heldDialect t = .ok v) : t ≠ .null := by
  rintro rfl
  cases s with
  | optional => exact Bool.noConfusion h
  | _ => exact absurd hv ((fails_mismatched _).ne_ok v)

theorem held_some {inner : Shape} (h : inner.isOptional = false) {t : Tree} {v : inner.Value}
    (hv : inner.held heldDialect t = .ok v) :
    (Shape.optional inner).held heldDialect t = .ok (some v) := by
  have ht := Shape.ne_null_of_held h hv
  simp only [Shape.held, view_heldDialect, hv]
  cases t with
  | null => exact absurd rfl ht
  | _ => rfl

mutual
/-- A rendering that may be held carries a tree that is read as the value. -/
theorem Shape.carries_of_renders : (s : Shape) → s.proper = true → (depth : Nat) →
    s.height ≤ depth → {v : s.Value} → {text : List Char} → s.Renders true v text →
    ∃ t, Carries depth text t ∧ s.held heldDialect t = .ok v
  | .boolean, _, _, _, b, _, rfl => ⟨.boolean b, ⟨_, spells_boolean b, by rw [Outline.tree]⟩, rfl⟩
  | .natural _ bound, h, _, _, n, _, rfl => by
    have hn : n.val < wordLimit := Nat.lt_of_lt_of_le n.isLt (of_decide_eq_true h)
    refine ⟨.number (.natural n.val), ⟨_, spells_digits n.val, ?_⟩, dif_pos n.isLt⟩
    rw [Outline.tree, readNumber, value?_places hn]
    rfl
  | .text, _, _, _, s, _, rfl => ⟨.text s, carries_text s, rfl⟩
  | .list item, h, depth + 1, hd, vs, _, ⟨texts, he, hr⟩ => by
    have hi : ∃ ts, List.Forall₂ (Carries depth) texts ts ∧
        ts.mapM (item.held heldDialect) = .ok vs := by
      clear he
      induction hr with
      | nil => exact ⟨[], .nil, rfl⟩
      | cons hv _ ih =>
        obtain ⟨t, ht, hh⟩ := item.carries_of_renders h depth (Nat.le_of_succ_le_succ hd) hv
        obtain ⟨ts, hts, hhs⟩ := ih
        refine ⟨t :: ts, .cons ht hts, ?_⟩
        rw [List.mapM_cons, hh, hhs]
        rfl
    obtain ⟨ts, ht, hh⟩ := hi
    exact ⟨.array ts, he ▸ carries_array ht, hh⟩
  | .optional inner, _, _, _, none, _, rfl =>
    ⟨.null, ⟨_, spells_null, by rw [Outline.tree]⟩, rfl⟩
  | .optional inner, h, depth, hd, some v, _, hr => by
    simp only [Shape.proper, Bool.and_eq_true, Bool.not_eq_true'] at h
    obtain ⟨t, ht, hv⟩ := inner.carries_of_renders h.1 depth hd hr
    exact ⟨t, ht, held_some h.2 hv⟩
  | .choice names, h, _, _, i, _, rfl =>
    ⟨.text (names.get i), carries_text _, heldChoice_name rfl (of_decide_eq_true h) i⟩
  | .record title fields, h, depth + 1, hd, vs, _, ⟨given, entries, he, hr, ha⟩ => by
    simp only [Shape.proper, Bool.and_eq_true, decide_eq_true_eq] at h
    obtain ⟨ts, ht, -, hg⟩ :=
      fields.held_of_renders h.1 h.2 depth (Nat.le_of_succ_le_succ hd) hr
    obtain ⟨all, others, hc, hp, ho⟩ := ha.exists_trees ht
    obtain ⟨members, hs, hm⟩ := carries_object hc
    exact ⟨.object all, ⟨_, he ▸ hs, Outline.tree_object hm⟩,
      hg.held_record rfl title ho hp⟩
  | .tagged _ tag content cases, h, depth + 1, hd, v, _, ⟨payload, entries, he, hr, ha⟩ => by
    simp only [Shape.proper, Bool.and_eq_true, decide_eq_true_eq] at h
    obtain ⟨t, ht, hv⟩ := cases.carries_of_renders h.1.1 depth (Nat.le_of_succ_le_succ hd) hr
    have hg : List.Forall₂ (Under (Carries depth))
        [(tag, writeText (cases.name v)), (content, payload)]
        [(tag, .text (cases.name v)), (content, t)] :=
      .cons ⟨rfl, carries_text _⟩ (.cons ⟨rfl, ht⟩ .nil)
    obtain ⟨all, others, hc, hp, ho⟩ := ha.exists_trees hg
    obtain ⟨members, hs, hm⟩ := carries_object hc
    exact ⟨.object all, ⟨_, he ▸ hs, Outline.tree_object hm⟩,
      held_tagged_of_perm h.2 h.1.2 hv ho hp⟩
theorem Fields.held_of_renders : (f : Fields) → f.proper = true → f.keys.Nodup →
    (depth : Nat) → f.height ≤ depth → {vs : f.Values} → {given : List (String × List Char)} →
    f.Renders true vs given →
    f.GathersFrom (Carries depth) (Shape.held heldDialect) (fun _ => .ok ()) vs given
  | .done, _, _, _, _, (), _, rfl => Fields.gathersFrom_done
  | .must key shape rest, h, hk, depth, hd, (v, vs), _, ⟨text, more, he, hv, hr⟩ => by
    simp only [Fields.proper, Bool.and_eq_true] at h
    simp only [Fields.keys, List.nodup_cons] at hk
    simp only [Fields.height, Nat.max_le] at hd
    obtain ⟨t, ht, hh⟩ := shape.carries_of_renders h.1 depth hd.1 hv
    exact he ▸ (rest.held_of_renders h.2 hk.2 depth hd.2 hr).must hk.1 ht hh
  | .may key shape rest, h, hk, depth, hd, (some v, vs), _, ⟨text, more, he, hv, hr⟩ => by
    simp only [Fields.proper, Bool.and_eq_true] at h
    simp only [Fields.keys, List.nodup_cons] at hk
    simp only [Fields.height, Nat.max_le] at hd
    obtain ⟨t, ht, hh⟩ := shape.carries_of_renders h.1 depth hd.1 hv
    exact he ▸ (rest.held_of_renders h.2 hk.2 depth hd.2 hr).may hk.1 ht hh
  | .may key shape rest, h, hk, depth, hd, (none, vs), _, hr => by
    simp only [Fields.proper, Bool.and_eq_true] at h
    simp only [Fields.keys, List.nodup_cons] at hk
    simp only [Fields.height, Nat.max_le] at hd
    exact (rest.held_of_renders h.2 hk.2 depth hd.2 hr).absent hk.1
theorem Cases.carries_of_renders : (c : Cases) → c.proper = true → (depth : Nat) →
    c.height ≤ depth → {v : c.Values} → {text : List Char} → c.Renders true v text →
    ∃ t, Carries depth text t ∧ c.heldAs heldDialect (c.place v) t = .ok v
  | .case _ shape _, h, depth, hd, .inl v, _, hr => by
    simp only [Cases.proper, Bool.and_eq_true] at h
    simp only [Cases.height, Nat.max_le] at hd
    obtain ⟨t, ht, hv⟩ := shape.carries_of_renders h.1 depth hd.1 hr
    refine ⟨t, ht, ?_⟩
    simp only [Cases.place, Cases.heldAs, hv]
    rfl
  | .case _ _ rest, h, depth, hd, .inr v, _, hr => by
    simp only [Cases.proper, Bool.and_eq_true] at h
    simp only [Cases.height, Nat.max_le] at hd
    obtain ⟨t, ht, hv⟩ := rest.carries_of_renders h.2 depth hd.2 hr
    refine ⟨t, ht, ?_⟩
    rw [Cases.place, Cases.heldAs_succ, hv]
    rfl
end

/-! Renderings that are read directly. -/

theorem Shape.ne_null_of_read {s : Shape} (h : s.isOptional = false) {depth : Nat} {o : Outline}
    {v : s.Value} (hv : s.read depth o = .ok v) : o ≠ .null := by
  rintro rfl
  cases s with
  | optional => exact Bool.noConfusion h
  | choice => exact absurd hv ((fails_stopped _).ne_ok v)
  | _ => exact absurd hv ((fails_mismatched _).ne_ok v)

theorem read_some {inner : Shape} (h : inner.isOptional = false) {depth : Nat} {o : Outline}
    {v : inner.Value} (hv : inner.read depth o = .ok v) :
    (Shape.optional inner).read depth o = .ok (some v) := by
  have ho := Shape.ne_null_of_read h hv
  simp only [Shape.read, hv]
  rfl

theorem Cases.readAs_succ {name : String} {shape : Shape} {rest : Cases}
    (i : Fin rest.names.length) (depth : Nat) (o : Outline) :
    (Cases.case name shape rest).readAs i.succ depth o = (rest.readAs i depth o).map .inr := by
  cases i
  rfl

mutual
/-- A rendering spells an outline that is read as the value. -/
theorem Shape.read_of_renders : (s : Shape) → s.proper = true → (depth : Nat) →
    s.height ≤ depth → {v : s.Value} → {text : List Char} → s.Renders false v text →
    ∃ o, Spells text o ∧ s.read depth o = .ok v
  | .boolean, _, _, _, b, _, rfl => ⟨_, spells_boolean b, rfl⟩
  | .natural _ bound, h, _, _, n, _, rfl => by
    have hn : n.val < wordLimit := Nat.lt_of_lt_of_le n.isLt (of_decide_eq_true h)
    refine ⟨_, spells_digits n.val, ?_⟩
    simp only [Shape.read, readNumber, value?_places hn]
    exact dif_pos n.isLt
  | .text, _, _, _, s, _, rfl => ⟨_, spells_text s, rfl⟩
  | .list item, h, depth + 1, hd, vs, _, ⟨texts, he, hr⟩ => by
    have hi : ∃ items, SpellsItems texts items ∧
        ∀ newest, items.readAll (item.read depth) newest = .ok (newest.reverse ++ vs) := by
      clear he
      induction hr with
      | nil => exact ⟨.closed, .closed, fun newest => by simp [Items.readAll]⟩
      | @cons v text vs texts hv _ ih =>
        obtain ⟨o, ho, hh⟩ := item.read_of_renders h depth (Nat.le_of_succ_le_succ hd) hv
        obtain ⟨items, hi, hhs⟩ := ih
        refine ⟨.item o items, .item ho hi, fun newest => ?_⟩
        rw [Items.readAll, hh]
        exact (hhs (v :: newest)).trans (by simp)
    obtain ⟨items, hi, hh⟩ := hi
    exact ⟨.array items, he ▸ spells_array hi, hh []⟩
  | .optional inner, _, _, _, none, _, rfl => ⟨_, spells_null, rfl⟩
  | .optional inner, h, depth, hd, some v, _, hr => by
    simp only [Shape.proper, Bool.and_eq_true, Bool.not_eq_true'] at h
    obtain ⟨o, ho, hv⟩ := inner.read_of_renders h.1 depth hd hr
    exact ⟨o, ho, read_some h.2 hv⟩
  | .choice names, h, _, _, i, _, rfl =>
    ⟨_, spells_text (names.get i), chosen_name (of_decide_eq_true h) i⟩
  | .record title fields, h, depth + 1, hd, vs, _, ⟨given, entries, he, hr, ha⟩ => by
    simp only [Shape.proper, Bool.and_eq_true, decide_eq_true_eq] at h
    obtain ⟨os, ho, -, hg⟩ :=
      fields.read_of_renders h.1 h.2 depth (Nat.le_of_succ_le_succ hd) hr
    obtain ⟨all, others, hs, hp, hn⟩ := ha.exists_members Scalar.passes ho
    exact ⟨_, he ▸ spells_members hs, hg.read_record title hn hp⟩
  | .tagged _ tag content cases, h, depth + 1, hd, v, _, ⟨payload, entries, he, hr, ha⟩ => by
    simp only [Shape.proper, Bool.and_eq_true, decide_eq_true_eq] at h
    have hd := Nat.le_of_succ_le_succ hd
    -- Where the payload stands decides whether it is held, and so what may be in it.
    obtain ⟨o, ho, hf, ht⟩ : ∃ o, Spells payload o ∧
        (contentFirst tag content (entries.map Prod.fst) = false →
          cases.readAs (cases.place v) depth o = .ok v) ∧
        (contentFirst tag content (entries.map Prod.fst) = true →
          ∃ t, o.tree depth = .ok t ∧ cases.heldAs heldDialect (cases.place v) t = .ok v) := by
      cases hc : contentFirst tag content (entries.map Prod.fst) with
      | false =>
        rw [hc] at hr
        obtain ⟨o, ho, hv⟩ := cases.read_of_renders h.1.1 depth hd hr
        exact ⟨o, ho, fun _ => hv, nofun⟩
      | true =>
        rw [hc] at hr
        obtain ⟨t, ⟨o, ho, ht⟩, hv⟩ := cases.carries_of_renders h.1.1 depth hd hr
        exact ⟨o, ho, nofun, fun _ => ⟨t, ht, hv⟩⟩
    have hg : List.Forall₂ (Under Spells) [(tag, writeText (cases.name v)), (content, payload)]
        [(tag, .text (some (cases.name v))), (content, o)] :=
      .cons ⟨rfl, spells_text _⟩ (.cons ⟨rfl, ho⟩ .nil)
    obtain ⟨all, others, hs, hp, hn⟩ := ha.exists_members Scalar.passes hg
    rw [map_fst_of_under hs] at hf ht
    exact ⟨_, he ▸ spells_members hs, read_tagged_of_perm h.2 h.1.2 hf ht hn hp⟩
theorem Fields.read_of_renders : (f : Fields) → f.proper = true → f.keys.Nodup →
    (depth : Nat) → f.height ≤ depth → {vs : f.Values} → {given : List (String × List Char)} →
    f.Renders false vs given → f.GathersFrom Spells (·.read depth) Outline.pass vs given
  | .done, _, _, _, _, (), _, rfl => Fields.gathersFrom_done
  | .must key shape rest, h, hk, depth, hd, (v, vs), _, ⟨text, more, he, hv, hr⟩ => by
    simp only [Fields.proper, Bool.and_eq_true] at h
    simp only [Fields.keys, List.nodup_cons] at hk
    simp only [Fields.height, Nat.max_le] at hd
    obtain ⟨o, ho, hh⟩ := shape.read_of_renders h.1 depth hd.1 hv
    exact he ▸ (rest.read_of_renders h.2 hk.2 depth hd.2 hr).must hk.1 ho hh
  | .may key shape rest, h, hk, depth, hd, (some v, vs), _, ⟨text, more, he, hv, hr⟩ => by
    simp only [Fields.proper, Bool.and_eq_true] at h
    simp only [Fields.keys, List.nodup_cons] at hk
    simp only [Fields.height, Nat.max_le] at hd
    obtain ⟨o, ho, hh⟩ := shape.read_of_renders h.1 depth hd.1 hv
    exact he ▸ (rest.read_of_renders h.2 hk.2 depth hd.2 hr).may hk.1 ho hh
  | .may key shape rest, h, hk, depth, hd, (none, vs), _, hr => by
    simp only [Fields.proper, Bool.and_eq_true] at h
    simp only [Fields.keys, List.nodup_cons] at hk
    simp only [Fields.height, Nat.max_le] at hd
    exact (rest.read_of_renders h.2 hk.2 depth hd.2 hr).absent hk.1
theorem Cases.read_of_renders : (c : Cases) → c.proper = true → (depth : Nat) →
    c.height ≤ depth → {v : c.Values} → {text : List Char} → c.Renders false v text →
    ∃ o, Spells text o ∧ c.readAs (c.place v) depth o = .ok v
  | .case _ shape _, h, depth, hd, .inl v, _, hr => by
    simp only [Cases.proper, Bool.and_eq_true] at h
    simp only [Cases.height, Nat.max_le] at hd
    obtain ⟨o, ho, hv⟩ := shape.read_of_renders h.1 depth hd.1 hr
    refine ⟨o, ho, ?_⟩
    change (shape.read depth o).map Sum.inl = _
    rw [hv]
    rfl
  | .case _ _ rest, h, depth, hd, .inr v, _, hr => by
    simp only [Cases.proper, Bool.and_eq_true] at h
    simp only [Cases.height, Nat.max_le] at hd
    obtain ⟨o, ho, hv⟩ := rest.read_of_renders h.2 depth hd.2 hr
    refine ⟨o, ho, ?_⟩
    rw [Cases.place, Cases.readAs_succ, hv]
    rfl
end

theorem Cases.keys_of_areRecordsBeside {tag : String} : {c : Cases} →
    c.areRecordsBeside tag = true → (v : c.Values) → tag ∉ c.keys v
  | .case _ shape _, h, .inl _ => by
    have h := (Bool.and_eq_true_iff.mp h).1
    cases shape with
    | record _ fields => exact of_decide_eq_true h
    | _ => exact absurd h Bool.false_ne_true
  | .case _ _ _, h, .inr v => keys_of_areRecordsBeside (Bool.and_eq_true_iff.mp h).2 v

theorem Cases.held_of_renders : (c : Cases) → c.proper = true → (depth : Nat) →
    c.height ≤ depth + 1 → {v : c.Values} → {given : List (String × List Char)} →
    c.RendersMembers v given → ∃ ts, List.Forall₂ (Under (Carries depth)) given ts ∧
      (∀ m ∈ ts, m.1 ∈ c.keys v) ∧ ∀ others all, (∀ m ∈ others, m.1 ∉ c.keys v) →
        all.Perm (ts ++ others) → c.heldAs heldDialect (c.place v) (.object all) = .ok v
  | .case _ shape _, h, depth, hd, .inl v, given, hr => by
    simp only [Cases.proper, Bool.and_eq_true] at h
    simp only [Cases.height, Nat.max_le] at hd
    cases shape with
    | record title fields =>
      simp only [Shape.proper, Bool.and_eq_true, decide_eq_true_eq] at h
      obtain ⟨ts, ht, hm, hg⟩ :=
        fields.held_of_renders h.1.1 h.1.2 depth (Nat.le_of_succ_le_succ hd.1) hr
      refine ⟨ts, ht, hm, fun others all ho hp => ?_⟩
      simp only [Cases.place, Cases.heldAs, hg.held_record rfl title ho hp]
      rfl
    | _ => exact absurd hr not_false
  | .case _ _ rest, h, depth, hd, .inr v, given, hr => by
    simp only [Cases.proper, Bool.and_eq_true] at h
    simp only [Cases.height, Nat.max_le] at hd
    obtain ⟨ts, ht, hm, hg⟩ := rest.held_of_renders h.2 depth hd.2 hr
    refine ⟨ts, ht, hm, fun others all ho hp => ?_⟩
    rw [Cases.place, Cases.heldAs_succ, hg others all ho hp]
    rfl

end BodyCallout.Data

namespace BodyCallout.Json

open Data

theorem readWhole_of_spells {α : Type} {read : Outline → Reading α} {text : List Char} {o : Outline}
    (h : Spells text o) : readWhole read (Utf8.encode text) = read o := by
  rw [readWhole, h.outline_eq]
  cases read o <;> rfl

theorem decode_of_renders {s : Shape} (hp : s.proper = true) (hd : s.height ≤ maxDepth)
    {v : s.Value} {text : List Char} (h : s.Renders false v text) :
    decode s (Utf8.encode text) = .ok v := by
  obtain ⟨o, ho, hv⟩ := s.read_of_renders hp maxDepth hd h
  rw [decode, readWhole_of_spells ho, hv]

/-- A rendering of a value of a union is read as the value, wherever its tag stands. -/
theorem Union.decode_of_renders {u : Union} (hp : u.proper = true) (hd : u.cases.height ≤ maxDepth)
    {v : u.cases.Values} {text : List Char} (h : u.Renders v text) :
    u.decode (Utf8.encode text) = .ok v := by
  simp only [proper, Bool.and_eq_true, decide_eq_true_eq] at hp
  obtain ⟨⟨hc, hn⟩, hr⟩ := hp
  obtain ⟨given, entries, rfl, hg, ha⟩ := h
  obtain ⟨ts, ht, hm, hh⟩ := u.cases.held_of_renders hc (maxDepth - 1) hd hg
  have htag : Under (Carries (maxDepth - 1)) (u.tag, writeText (u.cases.name v))
      (u.tag, .text (u.cases.name v)) := ⟨rfl, carries_text _⟩
  obtain ⟨all, others, ho, hp, hk⟩ := ha.exists_trees (.cons htag ht)
  obtain ⟨before, after, rfl, hb, hne⟩ := exists_between_of_gathered
    (Cases.keys_of_areRecordsBeside hr v) hm hk hp
  obtain ⟨members, hs, hm⟩ := carries_object ho
  have hv := hh others _ (fun m hm hm' => hk m hm (.tail u.tag hm')) hb
  rw [decode, readWhole_of_spells hs]
  exact (read_object_iff u hm hne v).mpr ⟨_, chosen_name hn _, hv⟩

end BodyCallout.Json
