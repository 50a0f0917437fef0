import Mathlib.Data.List.Forall2
import BodyCallout.Proofs.Json.Agreeing
import BodyCallout.Proofs.Json.Placing

set_option autoImplicit false

namespace BodyCallout.Json

open Data

theorem exists_between_of_perm {α : Type} {a : α} {l all : List α} (h : all.Perm (a :: l)) :
    ∃ before after, all = before ++ a :: after ∧ (before ++ after).Perm l := by
  obtain ⟨before, after, rfl⟩ := List.append_of_mem (h.symm.subset List.mem_cons_self)
  exact ⟨before, after, rfl, (List.perm_middle.symm.trans h).cons_inv⟩

def objectText (entries : List (String × List Char)) : List Char :=
  bracket openBrace closeBrace (entries.map fun e => member e.1 e.2)

def Members.ofList : List (String × Outline) → Members
  | [] => .closed
  | (key, o) :: rest => .member (some key) o (ofList rest)

theorem spells_objectText {entries : List (String × List Char)} {value : List Char → Outline}
    (h : ∀ e ∈ entries, Follows e.2 (value e.2)) :
    Spells (objectText entries) (.object (.ofList (entries.map fun e => (e.1, value e.2)))) := by
  refine FollowsMembers.spells ?_
  induction entries with
  | nil => exact .closed
  | cons e entries ih => exact .member e.1 (h e (.head _)) (ih fun e he => h e (.tail _ he))

def outlineOf (text : List Char) : Outline := (outline (Utf8.encode text)).value

theorem outlineOf_text (s : String) : outlineOf (writeText s) = .text (some s) := by
  rw [outlineOf, (spells_text s).outline_eq]

theorem outlineOf_digits (n : Nat) :
    outlineOf (Decimal.digits n) = .number ⟨false, places n, none, none⟩ := by
  rw [outlineOf, (spells_digits n).outline_eq]

theorem WellFormed.outline_eq {text : List Char} (h : WellFormed text) :
    outline (Utf8.encode text) = ⟨outlineOf text, false⟩ := by
  rw [outlineOf, ← h.alone]

theorem outlineOf_objectText {entries : List (String × List Char)}
    (h : ∀ e ∈ entries, Follows e.2 (outlineOf e.2)) :
    outline (Utf8.encode (objectText entries)) =
      ⟨.object (.ofList (entries.map fun e => (e.1, outlineOf e.2))), false⟩ :=
  (spells_objectText h).outline_eq

theorem follows_text (s : String) : Follows (writeText s) (outlineOf (writeText s)) := by
  rw [outlineOf_text]
  exact (spells_text s).follows

theorem follows_digits (n : Nat) : Follows (Decimal.digits n) (outlineOf (Decimal.digits n)) := by
  rw [outlineOf_digits]
  exact (spells_digits n).follows

theorem Members.holds_ofList {depth : Nat} {os : List (String × Outline)}
    {ts : List (String × Tree)} :
    (Members.ofList os).Holds depth ts ↔
      List.Forall₂ (fun o t => o.1 = t.1 ∧ o.2.tree depth = .ok t.2) os ts := by
  induction os generalizing ts with
  | nil => exact ⟨fun | .closed => .nil, fun | .nil => .closed⟩
  | cons o os ih =>
    constructor
    · intro h
      cases h with
      | member value rest => exact .cons ⟨rfl, value⟩ (ih.mp rest)
    · intro h
      cases h with
      | @cons _ t _ ts h rest =>
        obtain ⟨k, t⟩ := t
        obtain ⟨rfl, ht⟩ := h
        exact .member ht (ih.mpr rest)

theorem Members.readAll_ofList {σ : Type} (read : String → Outline → σ → Reading σ)
    (os : List (String × Outline)) (s : σ) :
    (Members.ofList os).readAll read s = os.foldlM (fun s m => read m.1 m.2 s) s := by
  induction os generalizing s with
  | nil => rfl
  | cons m os ih =>
    rw [List.foldlM_cons]
    change (read m.1 m.2 s >>= fun s => (ofList os).readAll read s) = _
    simp only [ih]

theorem Members.Holds.exists_trees {β : Type} {f : β → String × Outline} {depth : Nat}
    {es : List β} {ts : List (String × Tree)} (h : (Members.ofList (es.map f)).Holds depth ts) :
    ∃ g : β → Tree, (∀ e ∈ es, (f e).2.tree depth = .ok (g e)) ∧
      ts = es.map fun e => ((f e).1, g e) := by
  have hg {e : β} {t : Tree} (he : (f e).2.tree depth = .ok t) :
      ((f e).2.tree depth).toOption.getD .null = t := by
    rw [he]
    rfl
  refine ⟨fun e => ((f e).2.tree depth).toOption.getD .null, ?_⟩
  have hf := List.forall₂_map_left_iff.mp (holds_ofList.mp h)
  induction hf with
  | nil => exact ⟨nofun, rfl⟩
  | cons _ _ ih =>
    cases h with
    | member value rest =>
      obtain ⟨hm, hs⟩ := ih rest
      exact ⟨List.forall_mem_cons.mpr ⟨value.trans (congrArg Except.ok (hg value).symm), hm⟩,
        List.cons_eq_cons.mpr ⟨Prod.ext rfl (hg value).symm, hs⟩⟩

mutual
theorem Outline.tree_mono : (o : Outline) → {depth more : Nat} → depth ≤ more → {t : Tree} →
    o.tree depth = .ok t → o.tree more = .ok t
  | .missing _, _, _, _, _, h => by cases h
  | .cutText _ _, _, _, _, _, h => by cases h
  | .cutScalar _ _, _, _, _, _, h => by cases h
  | .null, _, _, _, _, h => by simpa only [Outline.tree] using h
  | .boolean _, _, _, _, _, h => by simpa only [Outline.tree] using h
  | .number _, _, _, _, _, h => by simpa only [Outline.tree] using h
  | .text _, _, _, _, _, h => by simpa only [Outline.tree] using h
  | .array _, 0, _, _, _, h => by cases h
  | .array items, depth + 1, more + 1, hd, t, h => by
    obtain ⟨ts, ht, rfl⟩ := map_eq_ok_iff.mp h
    exact map_eq_ok_iff.mpr ⟨ts, items.trees_mono (Nat.le_of_succ_le_succ hd) ht, rfl⟩
  | .object _, 0, _, _, _, h => by cases h
  | .object members, depth + 1, more + 1, hd, t, h => by
    obtain ⟨ts, ht, rfl⟩ := map_eq_ok_iff.mp h
    exact map_eq_ok_iff.mpr ⟨ts, members.trees_mono (Nat.le_of_succ_le_succ hd) ht, rfl⟩
theorem Items.trees_mono : (items : Items) → {depth more : Nat} → depth ≤ more →
    {newest trees : List Tree} → items.trees depth newest = .ok trees →
    items.trees more newest = .ok trees
  | .closed, _, _, _, _, _, h => h
  | .cut _, _, _, _, _, _, h => h
  | .item value rest, depth, more, hd, newest, trees, h => by
    obtain ⟨t, ht, h⟩ := bind_eq_ok_iff.mp h
    exact bind_eq_ok_iff.mpr ⟨t, value.tree_mono hd ht, rest.trees_mono hd h⟩
theorem Members.trees_mono : (members : Members) → {depth more : Nat} → depth ≤ more →
    {newest trees : List (String × Tree)} → members.trees depth newest = .ok trees →
    members.trees more newest = .ok trees
  | .closed, _, _, _, _, _, h => h
  | .cut _ _ _, _, _, _, _, _, h => h
  | .member key value rest, depth, more, hd, newest, trees, h => by
    obtain ⟨k, hk, h⟩ := bind_eq_ok_iff.mp h
    obtain ⟨t, ht, h⟩ := bind_eq_ok_iff.mp h
    exact bind_eq_ok_iff.mpr ⟨k, hk, bind_eq_ok_iff.mpr
      ⟨t, value.tree_mono hd ht, rest.trees_mono hd h⟩⟩
end

end BodyCallout.Json

namespace BodyCallout.Data

open Json

theorem Fields.readMember_eq (depth : Nat) : (f : Fields) → (name : String) → (o : Outline) →
    (slots : f.Slots) →
    f.readMember depth name o slots = f.takeMember (·.read depth) Outline.pass name o slots
  | .done, _, _, () => rfl
  | .must _ _ rest, name, o, (slot, slots) => by
    cases slot <;> simp only [readMember, takeMember, rest.readMember_eq depth name o slots]
  | .may _ _ rest, name, o, (slot, slots) => by
    cases slot <;> simp only [readMember, takeMember, rest.readMember_eq depth name o slots]

/-- Wherever these members stand among members that are no fields, the fields are read from them. -/
def Fields.Gathers {X : Type} (one : (s : Shape) → X → Reading s.Value) (other : X → Reading Unit)
    (f : Fields) (vs : f.Values) (members : List (String × X)) : Prop :=
  ∀ others all, (∀ m ∈ others, m.1 ∉ f.keys ∧ other m.2 = .ok ()) → all.Perm (members ++ others) →
    f.takeAll one other f.vacant all = .ok (f.slots vs)

theorem exists_between_of_gathered {X : Type} {key : String} {x : X} {keys : List String}
    {members others all : List (String × X)} (hk : key ∉ keys) (hm : ∀ m ∈ members, m.1 ∈ keys)
    (ho : ∀ m ∈ others, m.1 ∉ key :: keys) (hp : all.Perm ((key, x) :: members ++ others)) :
    ∃ before after, all = before ++ (key, x) :: after ∧
      (before ++ after).Perm (members ++ others) ∧ ∀ m ∈ before ++ after, m.1 ≠ key := by
  obtain ⟨before, after, rfl, hr⟩ := exists_between_of_perm hp
  refine ⟨before, after, rfl, hr, fun m hm' he => ?_⟩
  rcases List.mem_append.mp (hr.subset hm') with h | h
  · exact hk (he ▸ hm m h)
  · exact ho m h (he ▸ .head _)

section

variable {X : Type} {one : (s : Shape) → X → Reading s.Value} {other : X → Reading Unit}
  {key : String} {shape : Shape} {rest : Fields} {members : List (String × X)} {vs : rest.Values}

theorem Fields.gathers_done : Fields.done.Gathers one other () ([] : List (String × X)) :=
  fun _ _ ho hp => takeAll_done fun m hm => (ho m (hp.subset hm)).2

theorem Fields.Gathers.must (h : rest.Gathers one other vs members) (hk : key ∉ rest.keys)
    (hm : ∀ m ∈ members, m.1 ∈ rest.keys) {x : X} {v : shape.Value} (hv : one shape x = .ok v) :
    (Fields.must key shape rest).Gathers one other (v, vs) ((key, x) :: members) := by
  intro others all ho hp
  obtain ⟨before, after, rfl, hr, hn⟩ :=
    exists_between_of_gathered hk hm (fun m hm => (ho m hm).1) hp
  have hs := h others _ (fun m hm => ⟨fun hm' => (ho m hm).1 (.tail key hm'), (ho m hm).2⟩) hr
  exact (Fields.takeAll_must_between hn).mpr ⟨by rw [hv]; rfl, hs⟩

theorem Fields.Gathers.may (h : rest.Gathers one other vs members) (hk : key ∉ rest.keys)
    (hm : ∀ m ∈ members, m.1 ∈ rest.keys) {x : X} {v : shape.Value} (hv : one shape x = .ok v) :
    (Fields.may key shape rest).Gathers one other (some v, vs) ((key, x) :: members) := by
  intro others all ho hp
  obtain ⟨before, after, rfl, hr, hn⟩ :=
    exists_between_of_gathered hk hm (fun m hm => (ho m hm).1) hp
  have hs := h others _ (fun m hm => ⟨fun hm' => (ho m hm).1 (.tail key hm'), (ho m hm).2⟩) hr
  exact (Fields.takeAll_may_between hn).mpr ⟨by rw [hv]; rfl, hs⟩

theorem Fields.Gathers.absent (h : rest.Gathers one other vs members) (hk : key ∉ rest.keys)
    (hm : ∀ m ∈ members, m.1 ∈ rest.keys) :
    (Fields.may key shape rest).Gathers one other (none, vs) members := by
  intro others all ho hp
  have hn : ∀ m ∈ all, m.1 ≠ key := by
    intro m hm' he
    rcases List.mem_append.mp (hp.subset hm') with h | h
    · exact hk (he ▸ hm m h)
    · exact (ho m h).1 (he ▸ .head _)
  exact Fields.takeAll_may_absent hn <|
    h others all (fun m hm => ⟨fun hm' => (ho m hm).1 (.tail key hm'), (ho m hm).2⟩) hp

end

theorem Fields.Gathers.held_record {D : Dialect Tree} (hD : D.view = Tree.view) {fields : Fields}
    {vs : fields.Values} {members : List (String × Tree)}
    (h : fields.Gathers (Shape.held D) (fun _ => .ok ()) vs members) (title : String)
    {others all : List (String × Tree)} (ho : ∀ m ∈ others, m.1 ∉ fields.keys)
    (hp : all.Perm (members ++ others)) :
    (Shape.record title fields).held D (.object all) = .ok vs :=
  held_record_of_taken (by rw [hD]; rfl) (h others all (fun m hm => ⟨ho m hm, rfl⟩) hp) title

theorem Fields.Gathers.read_record {depth : Nat} {fields : Fields} {vs : fields.Values}
    {members : List (String × Outline)} (h : fields.Gathers (·.read depth) Outline.pass vs members)
    (title : String) {others all : List (String × Outline)}
    (ho : ∀ m ∈ others, m.1 ∉ fields.keys ∧ m.2.pass = .ok ())
    (hp : all.Perm (members ++ others)) :
    (Shape.record title fields).read (depth + 1) (.object (.ofList all)) = .ok vs := by
  have ha := h others all ho hp
  simp only [takeAll, ← readMember_eq] at ha
  simp only [Shape.read, Members.readAll_ofList, ha]
  exact fields.fill_slots vs

end BodyCallout.Data

namespace BodyCallout.Json

open Data

namespace Union

variable {u : Union} {depth : Nat}

def heldMember (u : Union) (key : String) (t : Tree) (met : u.Met) : Reading u.Met :=
  if key = u.tag then
    match met.name, t with
    | some _, _ => mismatched (.repeated u.tag)
    | none, .text s => (chosen u.cases.names s).map fun i => { met with name := some i }
    | none, t => wrongType t.view.found nameTitle
  else .ok { met with others := (key, t) :: met.others }

theorem readMember_iff (u : Union) (key : String) (met : u.Met) :
    Agrees depth (fun _ => true) (u.readMember depth key · met) (u.heldMember key · met) := by
  intro o t h met'
  simp only [readMember, heldMember, true_and]
  split
  · cases met.name with
    | some _ => rfl
    | none =>
      simp only [map_eq_ok_iff, readName_iff h]
      cases t with
      | text s =>
        rw [map_eq_ok_iff]
        constructor
        · rintro ⟨i, ⟨_, ⟨⟩, hi⟩, he⟩
          exact ⟨i, hi, he⟩
        · rintro ⟨i, hi, he⟩
          exact ⟨i, ⟨s, rfl, hi⟩, he⟩
      | _ =>
        constructor
        · rintro ⟨_, ⟨_, ⟨⟩, _⟩, _⟩
        · exact fun h => absurd h ((fails_mismatched _).ne_ok met')
  · rw [h]
    rfl

theorem holds_of_readAll (u : Union) : (members : Members) → {met all : u.Met} →
    members.readAll (u.readMember depth) met = .ok all → ∃ ts, members.Holds depth ts
  | .closed, _, _, _ => ⟨[], .closed⟩
  | .cut _ stop _, _, all, h => absurd h ((fails_stopped stop).ne_ok all)
  | .member key value rest, met, all, h => by
    obtain ⟨k, hk, h⟩ := bind_eq_ok_iff.mp h
    obtain ⟨met', hm, h⟩ := bind_eq_ok_iff.mp h
    obtain ⟨ts, hr⟩ := u.holds_of_readAll rest h
    cases key with
    | none => exact absurd hk ((fails_stopped .illFormed).ne_ok k)
    | some key =>
      have ht : ∃ t, value.tree depth = .ok t := by
        unfold readMember at hm
        split at hm
        · split at hm
          · exact absurd hm ((fails_mismatched _).ne_ok met')
          · obtain ⟨i, hi, -⟩ := map_eq_ok_iff.mp hm
            cases value with
            | text content =>
              obtain ⟨s, hs, -⟩ := bind_eq_ok_iff.mp hi
              exact ⟨.text s, by rw [Outline.tree, hs]; rfl⟩
            | _ => exact absurd hi ((Outline.fails_unexpected _ _).ne_ok i)
        · obtain ⟨t, ht, -⟩ := map_eq_ok_iff.mp hm
          exact ⟨t, ht⟩
      obtain ⟨t, ht⟩ := ht
      exact ⟨(key, t) :: ts, .member ht hr⟩

theorem foldlM_heldMember (u : Union) (name : Option (Fin u.cases.names.length))
    {ts : List (String × Tree)} (h : ∀ m ∈ ts, m.1 ≠ u.tag) (newest : List (String × Tree)) :
    ts.foldlM (fun met m => u.heldMember m.1 m.2 met) ⟨name, newest⟩ =
      .ok ⟨name, ts.reverse ++ newest⟩ := by
  induction ts generalizing newest with
  | nil => rfl
  | cons m ts ih =>
    have hm : u.heldMember m.1 m.2 ⟨name, newest⟩ = .ok ⟨name, m :: newest⟩ := by
      unfold heldMember
      rw [if_neg (h m (.head _))]
    rw [List.foldlM_cons, hm]
    exact (ih (fun n hn => h n (.tail m hn)) (m :: newest)).trans (by simp)

theorem foldlM_heldMember_between (u : Union) {before after : List (String × Tree)} {s : String}
    (h : ∀ m ∈ before ++ after, m.1 ≠ u.tag) :
    (before ++ (u.tag, .text s) :: after).foldlM (fun met m => u.heldMember m.1 m.2 met)
        ⟨none, []⟩ =
      (chosen u.cases.names s).map fun i => ⟨some i, (before ++ after).reverse⟩ := by
  have hb := u.foldlM_heldMember none (fun m hm => h m (List.mem_append_left _ hm)) []
  have ha (i) := u.foldlM_heldMember (some i)
    (fun m hm => h m (List.mem_append_right before hm)) (before.reverse ++ [])
  have ht : u.heldMember u.tag (.text s) ⟨none, before.reverse ++ []⟩ =
      (chosen u.cases.names s).map fun i => ⟨some i, before.reverse ++ []⟩ := by
    unfold heldMember
    rw [if_pos rfl]
  rw [List.foldlM_append, hb]
  change (u.heldMember u.tag (.text s) ⟨none, before.reverse ++ []⟩ >>= fun met =>
    after.foldlM (fun met m => u.heldMember m.1 m.2 met) met) = _
  rw [ht]
  cases chosen u.cases.names s with
  | error fault => rfl
  | ok i => exact (ha i).trans (by simp [Except.map])

/-- A union takes its tag from wherever it stands, and the record from the members around it. -/
theorem read_object_iff (u : Union) {members : Members} {before after : List (String × Tree)}
    {s : String} (hm : members.Holds depth (before ++ (u.tag, .text s) :: after))
    (hk : ∀ m ∈ before ++ after, m.1 ≠ u.tag) (v : u.cases.Values) :
    u.read (depth + 1) (.object members) = .ok v ↔
      ∃ i, chosen u.cases.names s = .ok i ∧
        u.cases.heldAs heldDialect i (.object (before ++ after)) = .ok v := by
  have hr (met : u.Met) : members.readAll (u.readMember depth) ⟨none, []⟩ = .ok met ↔
      (chosen u.cases.names s).map (fun i => ⟨some i, (before ++ after).reverse⟩) = .ok met := by
    rw [hm.readAll_iff u.readMember_iff,
      u.foldlM_heldMember_between hk]
    simp
  simp only [read, bind_eq_ok_iff, hr, map_eq_ok_iff]
  constructor
  · rintro ⟨_, ⟨i, hi, rfl⟩, hv⟩
    rw [List.reverse_reverse] at hv
    exact ⟨i, hi, hv⟩
  · rintro ⟨i, hi, hv⟩
    refine ⟨_, ⟨i, hi, rfl⟩, ?_⟩
    rwa [List.reverse_reverse]

end Union

end BodyCallout.Json
