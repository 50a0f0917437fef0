import BodyCallout.Proofs.Json.Unfinished

/-!
Reading straight off the text agrees with reading from a tree. Where a value can be held as a tree at
all, what is read of the text is what is read of the tree, but for two spellings that only a held
tree may have: a choice may be an object with an empty object under the name, and the tag that heads
a list may be a number. The content that stands before its tag is held on either way.
-/

set_option autoImplicit false

namespace BodyCallout.Data

open Json

section

variable {α β : Type}

theorem bind_eq_ok_iff {r : Reading α} {f : α → Reading β} {b : β} :
    (r >>= f) = .ok b ↔ ∃ a, r = .ok a ∧ f a = .ok b := by
  cases r with
  | error fault => exact ⟨nofun, nofun⟩
  | ok a => exact ⟨fun h => ⟨a, rfl, h⟩, fun ⟨_, ha, h⟩ => Except.ok.inj ha ▸ h⟩

theorem map_eq_ok_iff {r : Reading α} {f : α → β} {b : β} :
    r.map f = .ok b ↔ ∃ a, r = .ok a ∧ f a = b := by
  cases r with
  | error fault => exact ⟨nofun, nofun⟩
  | ok a =>
    exact ⟨fun h => ⟨a, rfl, Except.ok.inj h⟩, fun ⟨_, ha, h⟩ => Except.ok.inj ha ▸ h ▸ rfl⟩

theorem Fails.ne_ok {r : Reading α} (h : Fails r) (a : α) : r ≠ .ok a := by
  obtain ⟨fault, rfl⟩ := h
  exact nofun

theorem Fails.iff {r r' : Reading α} {p : Prop} (h : Fails r) (h' : Fails r') (a : α) :
    r = .ok a ↔ p ∧ r' = .ok a :=
  ⟨fun ha => absurd ha (h.ne_ok a), fun ha => absurd ha.2 (h'.ne_ok a)⟩

end

/-! Trees that may be read directly. -/

/-- The name of a choice is not given as an object with an empty object under it. -/
def namedPlainly : Tree → Bool
  | .object [(_, .object [])] => false
  | _ => true

mutual
/-- The tree of a value that is spelled as direct reading wants it: every choice is named plainly, and
the tag that heads a list is a name. It does not matter how content before its tag is spelled. -/
def Shape.strict : Shape → Tree → Bool
  | .list item, .array items => items.all item.strict
  | .optional inner, t => inner.strict t
  | .choice _, t => namedPlainly t
  | .record _ fields, .array items => fields.strictItems items
  | .record _ fields, .object members => members.all fun m => fields.strictMember m.1 m.2
  | .tagged _ _ _ cases, .array (name :: value :: _) =>
    match name with
    | .text s =>
      match chosen cases.names s with
      | .ok i => cases.strictAs i value
      | .error _ => true
    | _ => false
  | .tagged _ tag content cases, .object members =>
    match heldRelevant tag content members with
    | .tag name rest =>
      namedPlainly name &&
        match heldChoice heldDialect cases.names name, heldRelevant tag content rest with
        | .ok i, .content value _ => cases.strictAs i value
        | _, _ => true
    | .content _ rest =>
      match heldRelevant tag content rest with
      | .tag name _ => namedPlainly name
      | _ => true
    | .neither => true
  | _, _ => true
def Fields.strictItems : Fields → List Tree → Bool
  | .must _ shape rest, t :: more => shape.strict t && rest.strictItems more
  | .may _ shape rest, t :: more => shape.strict t && rest.strictItems more
  | _, _ => true
def Fields.strictMember : Fields → String → Tree → Bool
  | .done, _, _ => true
  | .must key shape rest, name, t =>
    if name = key then shape.strict t else rest.strictMember name t
  | .may key shape rest, name, t =>
    if name = key then shape.strict t else rest.strictMember name t
def Cases.strictAs : (c : Cases) → Fin c.names.length → Tree → Bool
  | .case _ shape _, ⟨0, _⟩, t => shape.strict t
  | .case _ _ rest, ⟨i + 1, h⟩, t => rest.strictAs ⟨i, Nat.lt_of_succ_lt_succ h⟩ t
end

end BodyCallout.Data

namespace BodyCallout.Json

open Data

inductive Items.Holds (depth : Nat) : Items → List Tree → Prop where
  | closed : Holds depth .closed []
  | item {o : Outline} {t : Tree} {items : Items} {ts : List Tree} (value : o.tree depth = .ok t)
      (rest : Holds depth items ts) : Holds depth (.item o items) (t :: ts)

inductive Members.Holds (depth : Nat) : Members → List (String × Tree) → Prop where
  | closed : Holds depth .closed []
  | member {key : String} {o : Outline} {t : Tree} {members : Members} {ts : List (String × Tree)}
      (value : o.tree depth = .ok t) (rest : Holds depth members ts) :
      Holds depth (.member (some key) o members) ((key, t) :: ts)

inductive Outline.Holds : Nat → Outline → Tree → Prop where
  | null {depth : Nat} : Holds depth .null .null
  | boolean {depth : Nat} (b : Bool) : Holds depth (.boolean b) (.boolean b)
  | number {depth : Nat} {n : Numeral} {x : Number} (value : n.value? = some x) :
      Holds depth (.number n) (.number x)
  | text {depth : Nat} (s : String) : Holds depth (.text (some s)) (.text s)
  | array {depth : Nat} {items : Items} {ts : List Tree} (items_hold : items.Holds depth ts) :
      Holds (depth + 1) (.array items) (.array ts)
  | object {depth : Nat} {members : Members} {ts : List (String × Tree)}
      (members_hold : members.Holds depth ts) : Holds (depth + 1) (.object members) (.object ts)

theorem Items.holds_of_trees : (items : Items) → {depth : Nat} → {newest trees : List Tree} →
    items.trees depth newest = .ok trees →
    ∃ ts, items.Holds depth ts ∧ trees = newest.reverse ++ ts
  | .closed, _, newest, trees, h => ⟨[], .closed, by simpa using (Except.ok.inj h).symm⟩
  | .cut _, _, _, _, h => nomatch h
  | .item value rest, depth, newest, trees, h => by
    obtain ⟨t, ht, h⟩ := bind_eq_ok_iff.mp h
    obtain ⟨ts, hs, he⟩ := rest.holds_of_trees h
    exact ⟨t :: ts, .item ht hs, by simpa using he⟩

theorem Members.holds_of_trees : (members : Members) → {depth : Nat} →
    {newest trees : List (String × Tree)} → members.trees depth newest = .ok trees →
    ∃ ts, members.Holds depth ts ∧ trees = newest.reverse ++ ts
  | .closed, _, newest, trees, h => ⟨[], .closed, by simpa using (Except.ok.inj h).symm⟩
  | .cut _ _ _, _, _, _, h => nomatch h
  | .member key value rest, depth, newest, trees, h => by
    obtain ⟨k, t, rfl, ht, h⟩ := trees_eq_ok h
    obtain ⟨ts, hs, he⟩ := rest.holds_of_trees h
    exact ⟨(k, t) :: ts, .member ht hs, by simpa using he⟩

theorem Outline.holds_of_tree {depth : Nat} {o : Outline} {t : Tree} (h : o.tree depth = .ok t) :
    o.Holds depth t := by
  cases o with
  | missing | cutText | cutScalar => cases h
  | null => cases h; exact .null
  | boolean b => cases h; exact .boolean b
  | number n =>
    obtain ⟨x, hx, rfl⟩ := map_eq_ok_iff.mp h
    unfold readNumber at hx
    split at hx
    · next hv => cases hx; exact .number hv
    · cases hx
  | text content =>
    obtain ⟨s, hs, rfl⟩ := map_eq_ok_iff.mp h
    cases content with
    | none => cases hs
    | some s => cases hs; exact .text s
  | array items =>
    cases depth with
    | zero => cases h
    | succ depth =>
      obtain ⟨trees, ht, rfl⟩ := map_eq_ok_iff.mp h
      obtain ⟨ts, hs, rfl⟩ := items.holds_of_trees ht
      exact .array hs
  | object members =>
    cases depth with
    | zero => cases h
    | succ depth =>
      obtain ⟨trees, ht, rfl⟩ := map_eq_ok_iff.mp h
      obtain ⟨ts, hs, rfl⟩ := members.holds_of_trees ht
      exact .object hs

theorem Items.Holds.trees_eq {depth : Nat} {items : Items} {ts : List Tree}
    (h : items.Holds depth ts) (newest : List Tree) :
    items.trees depth newest = .ok (newest.reverse ++ ts) := by
  induction h generalizing newest with
  | closed => simp [trees]
  | @item o t items ts value rest ih =>
    rw [trees, value]
    exact (ih (t :: newest)).trans (by simp)

theorem Members.Holds.trees_eq {depth : Nat} {members : Members} {ts : List (String × Tree)}
    (h : members.Holds depth ts) (newest : List (String × Tree)) :
    members.trees depth newest = .ok (newest.reverse ++ ts) := by
  induction h generalizing newest with
  | closed => simp [trees]
  | @member key o t members ts value rest ih =>
    rw [trees, value]
    exact (ih ((key, t) :: newest)).trans (by simp)

theorem Outline.tree_array {depth : Nat} {items : Items} {ts : List Tree}
    (h : items.Holds depth ts) : (Outline.array items).tree (depth + 1) = .ok (.array ts) :=
  map_eq_ok_iff.mpr ⟨ts, h.trees_eq [], rfl⟩

theorem Outline.tree_object {depth : Nat} {members : Members} {ts : List (String × Tree)}
    (h : members.Holds depth ts) : (Outline.object members).tree (depth + 1) = .ok (.object ts) :=
  map_eq_ok_iff.mpr ⟨ts, h.trees_eq [], rfl⟩

theorem Items.Holds.stop?_eq {depth : Nat} {items : Items} {ts : List Tree}
    (h : items.Holds depth ts) : items.stop? = none := by
  induction h with
  | closed => rfl
  | item value rest ih => exact ih

theorem Members.Holds.stop?_eq {depth : Nat} {members : Members} {ts : List (String × Tree)}
    (h : members.Holds depth ts) : members.stop? = none := by
  induction h with
  | closed => rfl
  | member value rest ih => exact ih

theorem Outline.pass_of_tree {depth : Nat} {o : Outline} {t : Tree} (h : o.tree depth = .ok t) :
    o.pass = .ok () := by
  have hs : o.stop? = none := by
    cases holds_of_tree h with
    | array hi => exact hi.stop?_eq
    | object hm => exact hm.stop?_eq
    | _ => rfl
  rw [pass, hs]

section

variable {depth : Nat}

/-- What is read of a text is what is read of its tree, if that is strict. -/
def Agrees {α : Type} (depth : Nat) (strict : Tree → Bool) (read : Outline → Reading α)
    (held : Tree → Reading α) : Prop :=
  ∀ ⦃o : Outline⦄ ⦃t : Tree⦄, o.tree depth = .ok t →
    ∀ v, read o = .ok v ↔ strict t = true ∧ held t = .ok v

theorem Agrees.map {α β : Type} {strict : Tree → Bool} {read : Outline → Reading α}
    {held : Tree → Reading α} (h : Agrees depth strict read held) (f : α → β) :
    Agrees depth strict (fun o => (read o).map f) (fun t => (held t).map f) := by
  intro o t ht w
  simp only [map_eq_ok_iff, h ht]
  exact ⟨fun ⟨v, ⟨hs, hv⟩, he⟩ => ⟨hs, v, hv, he⟩, fun ⟨hs, v, hv, he⟩ => ⟨v, ⟨hs, hv⟩, he⟩⟩

theorem Items.Holds.readAll_iff {α : Type} {strict : Tree → Bool} {read : Outline → Reading α}
    {held : Tree → Reading α} (ha : Agrees depth strict read held) {items : Items}
    {ts : List Tree} (h : items.Holds depth ts) (newest all : List α) :
    items.readAll read newest = .ok all ↔
      ts.all strict = true ∧ ∃ vs, ts.mapM held = .ok vs ∧ newest.reverse ++ vs = all := by
  induction h generalizing newest with
  | closed =>
    simp only [readAll, List.all_nil, List.mapM_nil, true_and]
    constructor
    · intro h
      exact ⟨[], rfl, by simpa using h⟩
    · rintro ⟨vs, hv, rfl⟩
      cases hv
      simp
  | @item o t items ts value rest ih =>
    rw [readAll, bind_eq_ok_iff, List.all_cons, Bool.and_eq_true, List.mapM_cons]
    constructor
    · rintro ⟨v, hv, hr⟩
      obtain ⟨hs, hh⟩ := (ha value v).mp hv
      obtain ⟨hl, vs, hm, rfl⟩ := (ih _).mp hr
      refine ⟨⟨hs, hl⟩, v :: vs, ?_, by simp⟩
      rw [hh, hm]
      rfl
    · rintro ⟨⟨hs, hl⟩, vs, hm, rfl⟩
      obtain ⟨v, hh, hb⟩ := bind_eq_ok_iff.mp hm
      obtain ⟨vs, ht, ⟨⟩⟩ := bind_eq_ok_iff.mp hb
      exact ⟨v, (ha value v).mpr ⟨hs, hh⟩, (ih _).mpr ⟨hl, vs, ht, by simp⟩⟩

theorem Members.Holds.readAll_iff {σ : Type} {strict : String → Tree → Bool}
    {read : String → Outline → σ → Reading σ} {held : String → Tree → σ → Reading σ}
    (ha : ∀ key s, Agrees depth (strict key) (read key · s) (held key · s)) {members : Members}
    {ts : List (String × Tree)} (h : members.Holds depth ts) (s s' : σ) :
    members.readAll read s = .ok s' ↔ (ts.all fun m => strict m.1 m.2) = true ∧
      ts.foldlM (fun s m => held m.1 m.2 s) s = .ok s' := by
  induction h generalizing s with
  | closed =>
    simp only [readAll, List.all_nil, List.foldlM_nil, true_and]
    rfl
  | @member key o t members ts value rest ih =>
    rw [List.all_cons, Bool.and_eq_true, List.foldlM_cons, bind_eq_ok_iff]
    change (read key o s >>= fun s => members.readAll read s) = .ok s' ↔ _
    rw [bind_eq_ok_iff]
    constructor
    · rintro ⟨s₁, hr, hm⟩
      obtain ⟨hs, hh⟩ := (ha key s value s₁).mp hr
      obtain ⟨hl, hf⟩ := (ih s₁).mp hm
      exact ⟨⟨hs, hl⟩, s₁, hh, hf⟩
    · rintro ⟨⟨hs, hl⟩, s₁, hh, hf⟩
      exact ⟨s₁, (ha key s value s₁).mpr ⟨hs, hh⟩, (ih s₁).mpr ⟨hl, hf⟩⟩

theorem Items.Holds.finish_iff {items : Items} {ts : List Tree} (h : items.Holds depth ts) :
    items.finish = .ok () ↔ ts = [] := by
  cases h with
  | closed => exact ⟨fun _ => rfl, fun _ => rfl⟩
  | item value rest => exact ⟨nofun, nofun⟩

inductive Next.Holds (depth : Nat) : Next → Relevant Tree → Prop where
  | tag {o : Outline} {t : Tree} {rest : Members} {ts : List (String × Tree)}
      (value : o.tree depth = .ok t) (rest_holds : rest.Holds depth ts) :
      Holds depth (.tag o rest) (.tag t ts)
  | content {o : Outline} {t : Tree} {rest : Members} {ts : List (String × Tree)}
      (value : o.tree depth = .ok t) (rest_holds : rest.Holds depth ts) :
      Holds depth (.content o rest) (.content t ts)
  | neither : Holds depth .neither .neither

theorem Members.Holds.next {members : Members} {ts : List (String × Tree)}
    (h : members.Holds depth ts) (tag content : String) :
    ∃ n, members.next tag content = .ok n ∧ n.Holds depth (heldRelevant tag content ts) := by
  induction h with
  | closed => exact ⟨.neither, rfl, .neither⟩
  | @member key o t members ts value rest ih =>
    obtain ⟨n, hn, hh⟩ := ih
    by_cases ht : key = tag
    · refine ⟨.tag o members, ?_, ?_⟩
      · change (if key = tag then _ else _) = _
        rw [if_pos ht]
      · rw [heldRelevant, if_pos ht]
        exact .tag value rest
    · by_cases hc : key = content
      · refine ⟨.content o members, ?_, ?_⟩
        · change (if key = tag then _ else if key = content then _ else _) = _
          rw [if_neg ht, if_pos hc]
        · rw [heldRelevant, if_neg ht, if_pos hc]
          exact .content value rest
      · refine ⟨n, ?_, ?_⟩
        · change (if key = tag then _ else if key = content then _ else
            o.pass >>= fun _ => members.next tag content) = _
          rw [if_neg ht, if_neg hc, Outline.pass_of_tree value]
          exact hn
        · rwa [heldRelevant, if_neg ht, if_neg hc]

theorem Members.Holds.noMore_iff {members : Members} {ts : List (String × Tree)}
    (h : members.Holds depth ts) (tag content : String) :
    members.noMore tag content = .ok () ↔ heldNoMore tag content ts = .ok () := by
  obtain ⟨n, hn, hh⟩ := h.next tag content
  rw [noMore, hn, heldNoMore]
  generalize heldRelevant tag content ts = r at hh
  cases hh with
  | tag | content => exact ⟨nofun, nofun⟩
  | neither => exact Iff.rfl

theorem readName_iff {names : List String} {o : Outline} {t : Tree} (h : o.tree depth = .ok t)
    (i : Fin names.length) :
    readName names o = .ok i ↔ ∃ s, t = .text s ∧ chosen names s = .ok i := by
  cases Outline.holds_of_tree h with
  | text s => exact ⟨fun h => ⟨s, rfl, h⟩, fun ⟨_, hs, h⟩ => Tree.text.inj hs ▸ h⟩
  | _ => exact ⟨fun h => absurd h ((Outline.fails_unexpected _ _).ne_ok i), nofun⟩

theorem readUnit_iff {o : Outline} {t : Tree} (h : o.tree depth = .ok t) :
    readUnit o = .ok () ↔ t = .null := by
  cases Outline.holds_of_tree h with
  | null => exact ⟨fun _ => rfl, fun _ => rfl⟩
  | _ => exact ⟨fun h => absurd h ((Outline.fails_unexpected _ _).ne_ok ()), nofun⟩

theorem readUnit_iff_objection {key : String} {o : Outline} {t : Tree} (h : o.tree depth = .ok t) :
    readUnit o = .ok () ↔
      namedPlainly (.object [(key, t)]) = true ∧ objection (heldDialect.unit t) = .ok () := by
  rw [readUnit_iff h]
  cases t with
  | null => exact ⟨fun _ => ⟨rfl, rfl⟩, fun _ => rfl⟩
  | object members =>
    cases members with
    | nil => exact ⟨nofun, fun h => nomatch h.1⟩
    | cons m members => exact ⟨nofun, fun h => nomatch h.2⟩
  | _ => exact ⟨nofun, fun h => nomatch h.2⟩

theorem readChoice_iff (names : List String) :
    Agrees depth namedPlainly (readChoice names depth) (heldChoice heldDialect names) := by
  intro o t h i
  cases Outline.holds_of_tree h with
  | text s => exact ⟨fun h => ⟨rfl, h⟩, fun h => h.2⟩
  | object hm =>
    cases hm with
    | closed => exact ⟨nofun, fun h => nomatch h.2⟩
    | @member key o t members ts value rest =>
      cases rest with
      | member value' rest =>
        refine ⟨fun h => absurd h (Fails.ne_ok ?_ i), fun h => nomatch h.2⟩
        exact fails_bind _ fun k => fails_bind _ fun i => fails_bind _ fun u =>
          (fails_stopped .illFormed).bind _
      | closed =>
        change (chosen names key >>= fun i => readUnit o >>= fun _ => .ok i) = .ok i ↔
          _ ∧ (chosen names key >>= fun i => objection (heldDialect.unit t) >>= fun _ => .ok i) =
            .ok i
        simp only [bind_eq_ok_iff]
        constructor
        · rintro ⟨j, hj, ⟨⟩, hu, he⟩
          obtain ⟨hp, hu⟩ := (readUnit_iff_objection value).mp hu
          exact ⟨hp, j, hj, (), hu, he⟩
        · rintro ⟨hp, j, hj, ⟨⟩, hu, he⟩
          exact ⟨j, hj, (), (readUnit_iff_objection value).mpr ⟨hp, hu⟩, he⟩
  | _ => exact ⟨nofun, fun h => nomatch h.2⟩

end

end BodyCallout.Json

namespace BodyCallout.Data

open Json

theorem objection_surplus_iff {total used : Nat} :
    objection (if used < total then heldDialect.surplus total used else none) = .ok () ↔
      total ≤ used := by
  split
  · next h => exact ⟨nofun, fun hl => absurd h (Nat.not_lt.mpr hl)⟩
  · next h => exact ⟨fun _ => Nat.not_lt.mp h, fun _ => rfl⟩

theorem checked_eq_ok_iff {α : Type} {r : Reading α} {check : α → Reading Unit} {v : α} :
    (do let a ← r; check a; .ok a) = .ok v ↔ r = .ok v ∧ check v = .ok () := by
  simp only [bind_eq_ok_iff]
  constructor
  · rintro ⟨a, ha, ⟨⟩, hc, ⟨⟩⟩
    exact ⟨ha, hc⟩
  · rintro ⟨hv, hc⟩
    exact ⟨v, hv, (), hc, rfl⟩

theorem view_heldDialect (t : Tree) : heldDialect.view t = t.view := rfl

theorem readItem_iff {α β γ : Type} {depth : Nat} {strict : Tree → Bool}
    {read : Outline → Reading α} {held : Tree → Reading α} (ha : Agrees depth strict read held)
    {o : Outline} {t : Tree} (ht : o.tree depth = .ok t) {rs : Reading (γ × Items)}
    {hs : Reading γ} {b : Bool} {p : Prop} {c : γ}
    (hr : (∃ left, rs = .ok (c, left) ∧ left.finish = .ok ()) ↔ b = true ∧ hs = .ok c ∧ p)
    (f : α → β) (v : β) :
    (∃ left, (do let a ← read o; let (c, left) ← rs; .ok ((f a, c), left)) = .ok ((v, c), left) ∧
        left.finish = .ok ()) ↔
      (strict t && b) = true ∧ (do let a ← held t; let c ← hs; .ok (f a, c)) = .ok (v, c) ∧ p := by
  simp only [bind_eq_ok_iff, ha ht, Bool.and_eq_true]
  constructor
  · rintro ⟨_, ⟨a, ⟨hs, ha⟩, ⟨c, left⟩, hc, ⟨⟩⟩, hf⟩
    obtain ⟨hb, hc, hp⟩ := hr.mp ⟨left, hc, hf⟩
    exact ⟨⟨hs, hb⟩, ⟨a, ha, c, hc, rfl⟩, hp⟩
  · rintro ⟨⟨hs, hb⟩, ⟨a, ha, c, hc, ⟨⟩⟩, hp⟩
    obtain ⟨left, hc, hf⟩ := hr.mpr ⟨hb, hc, hp⟩
    exact ⟨left, ⟨a, ⟨hs, ha⟩, (c, left), hc, rfl⟩, hf⟩

theorem Shape.strict_null : (s : Shape) → s.strict .null = true
  | .optional inner => by
    rw [strict]
    exact inner.strict_null
  | .boolean | .natural _ _ | .text | .list _ | .choice _ | .record _ _ | .tagged _ _ _ _ => rfl

theorem bind_name_iff {α : Type} {n : Nat} {read held : Reading (Fin n)} {p b : Bool}
    (strict : Fin n → Bool) (hn : ∀ i, read = .ok i ↔ p = true ∧ held = .ok i)
    (hb : ∀ i, held = .ok i → b = strict i) {f g : Fin n → Reading α} {v : α}
    (hv : ∀ i, f i = .ok v ↔ strict i = true ∧ g i = .ok v) :
    (read >>= f) = .ok v ↔ (p && b) = true ∧ (held >>= g) = .ok v := by
  simp only [bind_eq_ok_iff, hn, hv, Bool.and_eq_true]
  constructor
  · rintro ⟨i, ⟨hp, hi⟩, hs, hg⟩
    exact ⟨⟨hp, hb i hi ▸ hs⟩, i, hi, hg⟩
  · rintro ⟨⟨hp, hs⟩, i, hi, hg⟩
    exact ⟨i, ⟨hp, hi⟩, hb i hi ▸ hs, hg⟩

theorem objection_more_iff {more : List Tree} :
    objection (if more.isEmpty then none else heldDialect.surplus (more.length + 2) 2) = .ok () ↔
      more = [] := by
  cases more with
  | nil => exact ⟨fun _ => rfl, fun _ => rfl⟩
  | cons t more => exact ⟨nofun, nofun⟩

theorem Fields.strictItems_nil (f : Fields) : f.strictItems [] = true := by
  cases f <;> rfl

theorem noMore_iff_heldNoMore {α : Type} {depth : Nat} {rest : Members}
    {ts : List (String × Tree)} (hr : rest.Holds depth ts) {tag content : String}
    (r : Reading α) (v : α) :
    (do let v ← r; rest.noMore tag content; .ok v) = .ok v ↔
      (do let v ← r; heldNoMore tag content ts; .ok v) = .ok v := by
  rw [checked_eq_ok_iff, checked_eq_ok_iff, hr.noMore_iff]

theorem read_record_items {title : String} {fields : Fields} {depth : Nat} {items : Items}
    {ts : List Tree} {vs : fields.Values}
    (h : (∃ left, fields.readItems (recordLength title fields) depth 0 items = .ok (vs, left) ∧
        left.finish = .ok ()) ↔
      fields.strictItems ts = true ∧
        fields.heldItems heldDialect (recordLength title fields) 0 ts = .ok vs ∧
        ts.length ≤ fields.count) :
    (Shape.record title fields).read (depth + 1) (.array items) = .ok vs ↔
      (Shape.record title fields).strict (.array ts) = true ∧
        (Shape.record title fields).held heldDialect (.array ts) = .ok vs := by
  simp only [Shape.read, Shape.strict, Shape.held, view_heldDialect, Tree.view]
  refine (bind_eq_ok_iff.trans ?_).trans (h.trans (and_congr_right fun _ => ?_))
  · constructor
    · rintro ⟨⟨vs, left⟩, hr, hf⟩
      obtain ⟨⟨⟩, hl, ⟨⟩⟩ := bind_eq_ok_iff.mp hf
      exact ⟨left, hr, hl⟩
    · rintro ⟨left, hr, hf⟩
      refine ⟨(vs, left), hr, ?_⟩
      simp only [hf]
      rfl
  · rw [← objection_surplus_iff]
    exact (@checked_eq_ok_iff _ _ (fun _ => _) vs).symm

theorem read_record_members {title : String} {fields : Fields} {depth : Nat}
    (ha : ∀ key slots, Agrees depth (fields.strictMember key)
      (fields.readMember depth key · slots) (fields.heldMember heldDialect key · slots))
    {members : Members} {ts : List (String × Tree)} (hm : members.Holds depth ts)
    (vs : fields.Values) :
    (Shape.record title fields).read (depth + 1) (.object members) = .ok vs ↔
      (Shape.record title fields).strict (.object ts) = true ∧
        (Shape.record title fields).held heldDialect (.object ts) = .ok vs := by
  have hr := hm.readAll_iff ha fields.vacant
  simp only [Shape.read, Shape.strict, Shape.held, view_heldDialect, Tree.view, bind_eq_ok_iff, hr]
  exact ⟨fun ⟨slots, ⟨hs, hm⟩, hf⟩ => ⟨hs, slots, hm, hf⟩,
    fun ⟨hs, slots, hm, hf⟩ => ⟨slots, ⟨hs, hm⟩, hf⟩⟩

section Tagged

variable {title tag content : String} {cases : Cases} {depth : Nat}
  (ha : ∀ i, Agrees depth (cases.strictAs i) (cases.readAs i depth) (cases.heldAs heldDialect i))
include ha

theorem read_tagged_items {items : Items} {ts : List Tree} (hi : items.Holds depth ts)
    (v : cases.Values) :
    (Shape.tagged title tag content cases).read (depth + 1) (.array items) = .ok v ↔
      (Shape.tagged title tag content cases).strict (.array ts) = true ∧
        (Shape.tagged title tag content cases).held heldDialect (.array ts) = .ok v := by
  cases hi with
  | closed => exact (fails_mismatched _).iff (fails_mismatched _) v
  | item hn hi =>
    cases hi with
    | closed =>
      exact (fails_bind _ fun _ => fails_mismatched _).iff
        (fails_bind _ fun _ => fails_mismatched _) v
    | item value more =>
      cases Outline.holds_of_tree hn with
      | text s =>
        change (chosen cases.names s >>= _) = _ ↔ _ ∧ (chosen cases.names s >>= _) = _
        refine bind_name_iff (p := true) (fun i => cases.strictAs i _)
          (fun i => by simp) (fun i hi => by rw [hi]) fun i => ?_
        rw [checked_eq_ok_iff, ha i value v, more.finish_iff, and_assoc, ← objection_more_iff]
        exact and_congr_right fun _ => (@checked_eq_ok_iff _ _ (fun _ => _) v).symm
      | _ => exact ⟨fun h => absurd h (((Outline.fails_unexpected _ _).bind _).ne_ok v),
          fun h => absurd h.1 Bool.false_ne_true⟩

theorem read_tagged_members {members : Members} {ts : List (String × Tree)}
    (hm : members.Holds depth ts) (v : cases.Values) :
    (Shape.tagged title tag content cases).read (depth + 1) (.object members) = .ok v ↔
      (Shape.tagged title tag content cases).strict (.object ts) = true ∧
        (Shape.tagged title tag content cases).held heldDialect (.object ts) = .ok v := by
  obtain ⟨n, hn, hh⟩ := hm.next tag content
  simp only [Shape.read, Shape.strict, Shape.held, view_heldDialect, Tree.view, hn]
  generalize heldRelevant tag content ts = r at hh
  cases hh with
  | neither => exact (fails_mismatched _).iff (fails_mismatched _) v
  | @tag name t rest ts ht hr =>
    obtain ⟨n, hn, hh⟩ := hr.next tag content
    change (readChoice cases.names depth name >>= _) = _ ↔ _
    simp only [hn]
    generalize heldRelevant tag content ts = r at hh
    cases hh with
    | neither | tag =>
      exact (fails_bind _ fun _ => fails_mismatched _).iff
        (fails_bind _ fun _ => fails_mismatched _) v
    | content hc hr =>
      refine bind_name_iff (fun i => cases.strictAs i _)
        (fun i => readChoice_iff cases.names ht i) (fun i hi => by rw [hi]) fun i => ?_
      refine (noMore_iff_heldNoMore hr _ v).trans ?_
      rw [checked_eq_ok_iff, checked_eq_ok_iff, ha i hc v, and_assoc]
  | @content value t rest ts ht hr =>
    obtain ⟨n, hn, hh⟩ := hr.next tag content
    change (value.tree depth >>= _) = _ ↔ _
    simp only [ht, hn]
    generalize heldRelevant tag content ts = r at hh
    cases hh with
    | neither | content => exact (fails_mismatched _).iff (fails_mismatched _) v
    | tag ho hm =>
      -- The content is held already: only the name is read off the text.
      refine (bind_name_iff (b := true) (fun _ => true)
        (fun i => readChoice_iff cases.names ho i) (fun _ _ => rfl) fun i =>
          (noMore_iff_heldNoMore hm _ v).trans (and_iff_right rfl).symm).trans ?_
      rw [Bool.and_true]

end Tagged

mutual
/-- Reading off the text agrees with reading from the tree. -/
theorem Shape.read_iff : (s : Shape) → (depth : Nat) →
    Agrees depth s.strict (s.read depth) (s.held heldDialect)
  | .boolean, depth => by
    intro o t h v
    cases Outline.holds_of_tree h with
    | boolean b => exact ⟨fun h => ⟨rfl, h⟩, fun h => h.2⟩
    | _ => exact (Outline.fails_unexpected _ _).iff (fails_mismatched _) v
  | .natural title bound, depth => by
    intro o t h v
    cases Outline.holds_of_tree h with
    | @number _ n x hn =>
      simp only [Shape.read, readNumber, hn, Shape.held, view_heldDialect, Tree.view, Shape.strict]
      cases x with
      | natural | negative | binary => exact ⟨fun h => ⟨trivial, h⟩, fun h => h.2⟩
    | _ => exact (Outline.fails_unexpected _ _).iff (fails_mismatched _) v
  | .text, depth => by
    intro o t h v
    cases Outline.holds_of_tree h with
    | text s => exact ⟨fun h => ⟨rfl, h⟩, fun h => h.2⟩
    | _ => exact (Outline.fails_unexpected _ _).iff (fails_mismatched _) v
  | .list item, depth => by
    intro o t h v
    cases Outline.holds_of_tree h with
    | @array depth items ts hi =>
      refine (hi.readAll_iff (item.read_iff depth) [] v).trans (and_congr_right fun _ => ?_)
      exact ⟨fun ⟨vs, hm, he⟩ => he ▸ hm, fun hm => ⟨v, hm, rfl⟩⟩
    | _ => exact (Outline.fails_unexpected _ _).iff (fails_mismatched _) v
  | .optional inner, depth => by
    intro o t h v
    have hi := (inner.read_iff depth).map some h v
    cases Outline.holds_of_tree h with
    | null =>
      simp only [Shape.strict, inner.strict_null, true_and]
      exact Iff.rfl
    | _ => exact hi
  | .choice names, depth => readChoice_iff names
  | .record title fields, depth => by
    intro o t h v
    cases Outline.holds_of_tree h with
    | @array depth items ts hi => exact read_record_items (fields.readItems_iff _ depth 0 hi v)
    | @object depth members ts hm => exact read_record_members (fields.readMember_iff depth) hm v
    | _ => exact (Outline.fails_unexpected _ _).iff (fails_mismatched _) v
  | .tagged title tag content cases, depth => by
    intro o t h v
    cases Outline.holds_of_tree h with
    | @array depth items ts hi => exact read_tagged_items (cases.readAs_iff · depth) hi v
    | @object depth members ts hm => exact read_tagged_members (cases.readAs_iff · depth) hm v
    | _ => exact (Outline.fails_unexpected _ _).iff (fails_mismatched _) v
theorem Fields.readItems_iff : (f : Fields) → (expected : String) → (depth index : Nat) →
    {items : Items} → {ts : List Tree} → items.Holds depth ts → (vs : f.Values) →
    ((∃ left, f.readItems expected depth index items = .ok (vs, left) ∧ left.finish = .ok ()) ↔
      f.strictItems ts = true ∧ f.heldItems heldDialect expected index ts = .ok vs ∧
        ts.length ≤ f.count)
  | .done, expected, depth, index, items, ts, h, () => by
    have hf := h.finish_iff
    simp only [Fields.readItems, Fields.strictItems, Fields.heldItems, Fields.count,
      Nat.le_zero, List.length_eq_zero_iff, true_and, ← hf]
    constructor
    · rintro ⟨left, ⟨⟩, hl⟩
      exact hl
    · exact fun hl => ⟨items, rfl, hl⟩
  | .must key shape rest, expected, depth, index, items, ts, h, (v, vs) => by
    cases h with
    | closed => exact ⟨nofun, fun h => nomatch h.2.1⟩
    | item value more =>
      have hr := rest.readItems_iff expected depth (index + 1) more vs
      simp only [List.length_cons, Fields.count, Nat.add_le_add_iff_right]
      exact readItem_iff (shape.read_iff depth) value hr (fun v => v) v
  | .may key shape rest, expected, depth, index, items, ts, h, (v, vs) => by
    cases h with
    | closed =>
      have hr := rest.readItems_iff expected depth (index + 1) .closed vs
      constructor
      · rintro ⟨_, hb, hf⟩
        obtain ⟨_, hc, ⟨⟩⟩ := bind_eq_ok_iff.mp hb
        obtain ⟨-, hh, -⟩ := hr.mp ⟨_, hc, hf⟩
        exact ⟨rfl, by simp only [Fields.heldItems, hh]; rfl, Nat.zero_le _⟩
      · rintro ⟨-, hh, -⟩
        obtain ⟨c, hc, ⟨⟩⟩ := map_eq_ok_iff.mp hh
        obtain ⟨left, hl, hf⟩ := hr.mpr ⟨rest.strictItems_nil, hc, Nat.zero_le _⟩
        exact ⟨left, by simp only [Fields.readItems, hl]; rfl, hf⟩
    | item value more =>
      have hr := rest.readItems_iff expected depth (index + 1) more vs
      simp only [List.length_cons, Fields.count, Nat.add_le_add_iff_right]
      exact readItem_iff (shape.read_iff depth) value hr some v
theorem Fields.readMember_iff : (f : Fields) → (depth : Nat) → (key : String) → (slots : f.Slots) →
    Agrees depth (f.strictMember key) (f.readMember depth key · slots)
      (f.heldMember heldDialect key · slots)
  | .done, depth, key, () => by
    intro o t h v
    simp only [Fields.readMember, Outline.pass_of_tree h, Fields.heldMember, Fields.strictMember,
      true_and]
  | .must name shape rest, depth, key, (slot, slots) => by
    intro o t h v
    have hs := (shape.read_iff depth).map (fun v => (some v, slots)) h v
    have hr := (rest.readMember_iff depth key slots).map (slot, ·) h v
    simp only [Fields.readMember, Fields.heldMember, Fields.strictMember]
    split
    · cases slot with
      | none => exact hs
      | some _ => exact ⟨nofun, nofun⟩
    · exact hr
  | .may name shape rest, depth, key, (slot, slots) => by
    intro o t h v
    have hs := (shape.read_iff depth).map (fun v => (some v, slots)) h v
    have hr := (rest.readMember_iff depth key slots).map (slot, ·) h v
    simp only [Fields.readMember, Fields.heldMember, Fields.strictMember]
    split
    · cases slot with
      | none => exact hs
      | some _ => exact ⟨nofun, nofun⟩
    · exact hr
theorem Cases.readAs_iff : (c : Cases) → (i : Fin c.names.length) → (depth : Nat) →
    Agrees depth (c.strictAs i) (c.readAs i depth) (c.heldAs heldDialect i)
  | .case _ shape _, ⟨0, _⟩, depth => by
    intro o t h v
    exact (shape.read_iff depth).map .inl h v
  | .case _ _ rest, ⟨i + 1, hi⟩, depth => by
    intro o t h v
    exact (rest.readAs_iff ⟨i, Nat.lt_of_succ_lt_succ hi⟩ depth).map .inr h v
end

mutual
def Shape.isPlain : Shape → Bool
  | .boolean => true
  | .natural _ _ => true
  | .text => true
  | .list item => item.isPlain
  | .optional inner => inner.isPlain
  | .choice _ => false
  | .record _ fields => fields.arePlain
  | .tagged _ _ _ _ => false
def Fields.arePlain : Fields → Bool
  | .done => true
  | .must _ shape rest => shape.isPlain && rest.arePlain
  | .may _ shape rest => shape.isPlain && rest.arePlain
end

mutual
theorem Shape.strict_of_isPlain : (s : Shape) → s.isPlain = true → (t : Tree) → s.strict t = true
  | .boolean, _, _ => rfl
  | .natural _ _, _, _ => rfl
  | .text, _, _ => rfl
  | .list item, h, t => by
    cases t with
    | array items => exact List.all_eq_true.mpr fun t _ => item.strict_of_isPlain h t
    | _ => rfl
  | .optional inner, h, t => inner.strict_of_isPlain h t
  | .record _ fields, h, t => by
    cases t with
    | array items => exact fields.strictItems_of_arePlain h items
    | object members =>
      exact List.all_eq_true.mpr fun m _ => fields.strictMember_of_arePlain h m.1 m.2
    | _ => rfl
theorem Fields.strictItems_of_arePlain : (f : Fields) → f.arePlain = true → (ts : List Tree) →
    f.strictItems ts = true
  | .done, _, _ => rfl
  | .must _ _ _, _, [] => rfl
  | .may _ _ _, _, [] => rfl
  | .must _ shape rest, h, t :: ts => by
    obtain ⟨hs, hr⟩ := Bool.and_eq_true_iff.mp h
    exact Bool.and_eq_true_iff.mpr
      ⟨shape.strict_of_isPlain hs t, rest.strictItems_of_arePlain hr ts⟩
  | .may _ shape rest, h, t :: ts => by
    obtain ⟨hs, hr⟩ := Bool.and_eq_true_iff.mp h
    exact Bool.and_eq_true_iff.mpr
      ⟨shape.strict_of_isPlain hs t, rest.strictItems_of_arePlain hr ts⟩
theorem Fields.strictMember_of_arePlain : (f : Fields) → f.arePlain = true → (key : String) →
    (t : Tree) → f.strictMember key t = true
  | .done, _, _, _ => rfl
  | .must name shape rest, h, key, t => by
    obtain ⟨hs, hr⟩ := Bool.and_eq_true_iff.mp h
    simp only [Fields.strictMember]
    split
    · exact shape.strict_of_isPlain hs t
    · exact rest.strictMember_of_arePlain hr key t
  | .may name shape rest, h, key, t => by
    obtain ⟨hs, hr⟩ := Bool.and_eq_true_iff.mp h
    simp only [Fields.strictMember]
    split
    · exact shape.strict_of_isPlain hs t
    · exact rest.strictMember_of_arePlain hr key t
end

def Cases.arePlain : Cases → Bool
  | .done => true
  | .case _ shape rest => shape.isPlain && rest.arePlain

theorem Cases.strictAs_of_arePlain : (c : Cases) → c.arePlain = true → (i : Fin c.names.length) →
    (t : Tree) → c.strictAs i t = true
  | .case _ shape _, h, ⟨0, _⟩, t =>
    shape.strict_of_isPlain (Bool.and_eq_true_iff.mp h).1 t
  | .case _ _ rest, h, ⟨i + 1, hi⟩, t =>
    rest.strictAs_of_arePlain (Bool.and_eq_true_iff.mp h).2 ⟨i, Nat.lt_of_succ_lt_succ hi⟩ t

end BodyCallout.Data
