import BodyCallout.Toml.Document

set_option autoImplicit false

namespace BodyCallout

namespace Scan

variable {α β : Type} {P : α → Prop} {Q : β → Prop} {scan scan' : Scan α}

/-- Whatever is taken off a text has the property. -/
def Yields (P : α → Prop) (scan : Scan α) : Prop :=
  ∀ text a rest, scan text = some (a, rest) → P a

theorem Yields.or (h : Yields P scan) (h' : Yields P scan') :
    Yields P fun text => (scan text).or (scan' text) := by
  intro text a rest ha
  rcases Option.or_eq_some_iff.mp ha with ha | ⟨-, ha⟩
  · exact h text a rest ha
  · exact h' text a rest ha

theorem Yields.map {f : α × List Char → β × List Char} (h : Yields P scan)
    (hf : ∀ a rest, P a → Q (f (a, rest)).1) : Yields Q fun text => (scan text).map f := by
  intro text b rest hb
  obtain ⟨⟨a, left⟩, ha, hr⟩ := Option.map_eq_some_iff.mp hb
  have hq := hf a left (h text a left ha)
  rwa [hr] at hq

theorem Yields.trivial (scan : Scan α) : Yields (fun _ => True) scan := fun _ _ _ _ => .intro

theorem Yields.bind {next : α × List Char → Option (β × List Char)} (h : Yields P scan)
    (hn : ∀ a, P a → Yields Q fun text => next (a, text)) :
    Yields Q fun text => (scan text).bind next := by
  intro text b rest hb
  obtain ⟨⟨a, left⟩, ha, hr⟩ := Option.bind_eq_some_iff.mp hb
  exact hn a (h text a left ha) left b rest hr

theorem Yields.manyUpTo (h : Yields P scan) (fuel : Nat) (text : List Char) :
    ∀ a ∈ (manyUpTo scan fuel text).1, P a := by
  induction fuel generalizing text with
  | zero => exact nofun
  | succ fuel ih =>
    rw [Scan.manyUpTo]
    cases hs : scan text with
    | none => exact nofun
    | some r => exact List.forall_mem_cons.mpr ⟨h text r.1 r.2 hs, ih r.2⟩

theorem Yields.many (h : Yields P scan) (text : List Char) : ∀ a ∈ (many scan text).1, P a :=
  h.manyUpTo _ text

theorem Yields.separated {c : Char} (h : Yields P scan) :
    Yields (fun as => ∀ a ∈ as, P a) (separated c scan) := by
  refine h.bind fun a ha text as rest hs => ?_
  have hm : Yields P fun text => (mark c text).bind fun r => scan r.2 :=
    (Yields.trivial (mark c)).bind fun _ _ => h
  obtain ⟨rfl, -⟩ := Prod.mk.inj (Option.some.inj hs)
  exact List.forall_mem_cons.mpr ⟨ha, hm.many text⟩

end Scan

namespace Toml

open Scan

inductive Node.Distinct : Node → Prop where
  | text (s : String) : Distinct (.text s)
  | integer (n : Int) : Distinct (.integer n)
  | binary (x : Float) : Distinct (.binary x)
  | boolean (b : Bool) : Distinct (.boolean b)
  | moment : Distinct .moment
  | array {items : List Node} (each : ∀ n ∈ items, Distinct n) : Distinct (.array items)
  | table {origin : Origin} {ms : Members} (keys : (ms.map Prod.fst).Nodup)
      (each : ∀ m ∈ ms, Distinct m.2) : Distinct (.table origin ms)
  | rows {tables : List Members} (each : ∀ ms ∈ tables, Distinct (.table .opened ms)) :
      Distinct (.rows tables)

namespace Members

structure Distinct (ms : Members) : Prop where
  keys : (ms.map Prod.fst).Nodup
  each : ∀ m ∈ ms, m.2.Distinct

theorem distinct_nil : Distinct [] := ⟨List.nodup_nil, nofun⟩

end Members

theorem Node.Distinct.members {origin : Origin} {ms : Members}
    (h : (Node.table origin ms).Distinct) : ms.Distinct := by
  cases h with
  | table keys each => exact ⟨keys, each⟩

theorem Members.Distinct.node {ms : Members} (h : ms.Distinct) (origin : Origin) :
    (Node.table origin ms).Distinct := .table h.keys h.each

theorem Node.Distinct.table_of_mem {tables : List Members} (h : (Node.rows tables).Distinct) :
    ∀ ms ∈ tables, ms.Distinct := by
  cases h with
  | rows each => exact fun ms hm => (each ms hm).members

namespace Members

variable {key : String} {ms ms' : Members}

theorem find?_eq_none_iff : ms.find? key = none ↔ key ∉ ms.map Prod.fst := by
  simp only [find?, Option.map_eq_none_iff, List.find?_eq_none, decide_eq_true_eq, List.mem_map,
    not_exists, not_and]

theorem mem_of_find? {n : Node} (h : ms.find? key = some n) : (key, n) ∈ ms := by
  obtain ⟨⟨k, n⟩, hf, rfl⟩ := Option.map_eq_some_iff.mp h
  obtain rfl : k = key := by simpa using List.find?_some hf
  exact List.mem_of_find?_eq_some hf

theorem find?_of_mem (hd : (ms.map Prod.fst).Nodup) {n : Node} (hm : (key, n) ∈ ms) :
    ms.find? key = some n := by
  induction ms with
  | nil => cases hm
  | cons m ms ih =>
    obtain ⟨hnew, hrest⟩ := List.nodup_cons.mp hd
    rcases List.mem_cons.mp hm with rfl | hm
    · simp [find?]
    · have hne : m.1 ≠ key := fun he => hnew (List.mem_map.mpr ⟨_, hm, he.symm⟩)
      rw [← ih hrest hm]
      simp [find?, hne]

theorem find?_perm (hd : (ms.map Prod.fst).Nodup) (hp : ms.Perm ms') (key : String) :
    ms.find? key = ms'.find? key := by
  have hd' : (ms'.map Prod.fst).Nodup := (hp.map Prod.fst).nodup hd
  refine Option.ext fun n => ⟨fun h => ?_, fun h => ?_⟩
  · exact find?_of_mem hd' (hp.mem_iff.mp (mem_of_find? h))
  · exact find?_of_mem hd (hp.mem_iff.mpr (mem_of_find? h))

theorem alter_eq_some {f : Option Node → Option Node} (h : alter key f ms = some ms') :
    (key ∉ ms.map Prod.fst ∧ ∃ n, f none = some n ∧ ms' = ms ++ [(key, n)]) ∨
      ∃ before n after n', ms = before ++ (key, n) :: after ∧ f (some n) = some n' ∧
        ms' = before ++ (key, n') :: after := by
  induction ms generalizing ms' with
  | nil =>
    obtain ⟨n, hn, rfl⟩ := Option.map_eq_some_iff.mp h
    exact .inl ⟨nofun, n, hn, rfl⟩
  | cons m ms ih =>
    obtain ⟨k, n⟩ := m
    rw [alter] at h
    split at h
    · next hk =>
      subst hk
      obtain ⟨n', hn, rfl⟩ := Option.map_eq_some_iff.mp h
      exact .inr ⟨[], n, ms, n', rfl, hn, rfl⟩
    · next hk =>
      obtain ⟨ms'', hs, rfl⟩ := Option.map_eq_some_iff.mp h
      rcases ih hs with ⟨hnew, n', hn, rfl⟩ | ⟨before, m, after, n', rfl, hn, rfl⟩
      · refine .inl ⟨?_, n', hn, rfl⟩
        rw [List.map_cons, List.mem_cons, not_or]
        exact ⟨Ne.symm hk, hnew⟩
      · exact .inr ⟨(k, n) :: before, m, after, n', rfl, hn, rfl⟩

theorem Distinct.concat (h : ms.Distinct) (hk : key ∉ ms.map Prod.fst) {n : Node}
    (hn : n.Distinct) : Distinct (ms ++ [(key, n)]) := by
  refine ⟨?_, fun m hm => ?_⟩
  · rw [List.map_append, List.nodup_append]
    refine ⟨h.keys, List.nodup_cons.mpr ⟨nofun, List.nodup_nil⟩, fun a ha b hb he => hk ?_⟩
    obtain rfl := List.mem_singleton.mp hb
    exact he ▸ ha
  · rcases List.mem_append.mp hm with hm | hm
    · exact h.each m hm
    · obtain rfl := List.mem_singleton.mp hm
      exact hn

/-! Changes to a table. -/

/-- The change leaves no key twice. -/
def Keeps (f : Members → Option Members) : Prop :=
  ∀ ms ms', ms.Distinct → f ms = some ms' → ms'.Distinct

theorem keeps_alter {f : Option Node → Option Node} (hnew : ∀ n, f none = some n → n.Distinct)
    (hold : ∀ n n', n.Distinct → f (some n) = some n' → n'.Distinct) : Keeps (alter key f) := by
  intro ms ms' hd h
  rcases alter_eq_some h with ⟨hk, n, hn, rfl⟩ | ⟨before, n, after, n', rfl, hn, rfl⟩
  · exact hd.concat hk (hnew n hn)
  · refine ⟨by simpa using hd.keys, fun m hm => ?_⟩
    rcases List.mem_append.mp hm with hm | hm
    · exact hd.each m (List.mem_append_left _ hm)
    · rcases List.mem_cons.mp hm with rfl | hm
      · exact hold n n' (hd.each (key, n) (List.mem_append_right _ (.head _))) hn
      · exact hd.each m (List.mem_append_right _ (.tail _ hm))

theorem distinct_onLast {f : Members → Option Members} (hf : Keeps f) :
    (tables : List Members) → {tables' : List Members} → (∀ ms ∈ tables, ms.Distinct) →
      onLast f tables = some tables' → ∀ ms ∈ tables', ms.Distinct
  | [ms], tables', hd, h => by
    obtain ⟨ms', hm, rfl⟩ := Option.map_eq_some_iff.mp h
    intro t ht
    obtain rfl := List.mem_singleton.mp ht
    exact hf ms _ (hd ms (.head _)) hm
  | ms :: next :: more, tables', hd, h => by
    obtain ⟨rest, hr, rfl⟩ := Option.map_eq_some_iff.mp h
    exact List.forall_mem_cons.mpr
      ⟨hd ms (.head _), distinct_onLast hf (next :: more) (fun t ht => hd t (.tail ms ht)) hr⟩

theorem Keeps.table {f : Members → Option Members} (hf : Keeps f) {origin : Origin} {n : Node}
    (hd : ms.Distinct) (h : (f ms).map (.table origin) = some n) : n.Distinct := by
  obtain ⟨ms', hm, rfl⟩ := Option.map_eq_some_iff.mp h
  exact (hf ms ms' hd hm).node origin

theorem Keeps.rows {f : Members → Option Members} (hf : Keeps f) {tables : List Members} {n : Node}
    (hd : (Node.rows tables).Distinct) (h : (onLast f tables).map .rows = some n) : n.Distinct := by
  obtain ⟨tables', ht, rfl⟩ := Option.map_eq_some_iff.mp h
  exact .rows fun ms hm => (distinct_onLast hf tables hd.table_of_mem ht ms hm).node .opened

theorem keeps_insertAt {value : Node} (hv : value.Distinct) (path : List String) (key : String) :
    Keeps (insertAt path key value) := by
  induction path with
  | nil => exact keeps_alter (fun n h => Option.some.inj h ▸ hv) nofun
  | cons k path ih =>
    refine keeps_alter (fun n h => ih.table distinct_nil h) fun n n' hd h => ?_
    split at h
    · next he => cases he
    · next he =>
      cases he
      exact ih.table hd.members h
    · next he =>
      cases he
      split at h
      · cases h
      · exact ih.table hd.members h
    · next he =>
      cases he
      split at h
      · cases h
      · exact ih.rows hd h
    · cases h

theorem keeps_descend {f : Members → Option Members} (hf : Keeps f) (path : List String) :
    Keeps (descend path f) := by
  induction path with
  | nil => exact hf
  | cons k path ih =>
    refine keeps_alter (fun n h => ih.table distinct_nil h) fun n n' hd h => ?_
    split at h
    · next he => cases he
    · cases h
    · next he =>
      cases he
      exact ih.table hd.members h
    · next he =>
      cases he
      exact ih.rows hd h
    · cases h

theorem keeps_foldlM {β : Type} {step : Members → β → Option Members} {bs : List β}
    (h : ∀ b ∈ bs, Keeps (step · b)) : Keeps fun ms => bs.foldlM step ms := by
  induction bs with
  | nil => exact fun ms ms' hd hs => Option.some.inj hs ▸ hd
  | cons b bs ih =>
    intro ms ms' hd hs
    simp only [List.foldlM_cons] at hs
    obtain ⟨mid, hm, hs⟩ := Option.bind_eq_some_iff.mp hs
    exact ih (fun b hb => h b (.tail _ hb)) mid ms' (h b (.head _) ms mid hd hm) hs

section

variable {entries : List Entry} (he : ∀ e ∈ entries, e.value.Distinct)
include he

theorem keeps_fill : Keeps (fill entries) :=
  keeps_foldlM fun e hm => keeps_insertAt (he e hm) e.path e.key

theorem keeps_openTable (key : String) : Keeps (openTable key entries) := by
  intro ms ms' hd h
  unfold openTable at h
  split at h
  · next hf =>
    obtain ⟨t, ht, rfl⟩ := Option.map_eq_some_iff.mp h
    exact hd.concat (find?_eq_none_iff.mp hf) ((keeps_fill he [] t distinct_nil ht).node .opened)
  · next t₀ hf =>
    -- The implied table is taken out before it is added to, so its key is free again.
    obtain ⟨t, ht, rfl⟩ := Option.map_eq_some_iff.mp h
    have hold := (hd.each _ (mem_of_find? hf)).members
    have hrest : Distinct (ms.erase key) :=
      ⟨hd.keys.sublist (List.filter_sublist.map Prod.fst),
        fun m hm => hd.each m (List.mem_filter.mp hm |>.1)⟩
    exact hrest.concat (by simp [erase]) ((keeps_fill he t₀ t hold ht).node .opened)
  · cases h

theorem keeps_openRow (key : String) : Keeps (openRow key entries) := by
  have hrow {t : Members} (ht : fill entries [] = some t) : (Node.table .opened t).Distinct :=
    (keeps_fill he [] t distinct_nil ht).node .opened
  refine keeps_alter (fun n h => ?_) fun n n' hd h => ?_
  · obtain ⟨t, ht, rfl⟩ := Option.map_eq_some_iff.mp h
    exact .rows fun ms hm => List.mem_singleton.mp hm ▸ hrow ht
  · split at h
    · next hn => cases hn
    · next hn =>
      cases hn
      obtain ⟨t, ht, rfl⟩ := Option.map_eq_some_iff.mp h
      refine .rows fun ms hm => ?_
      rcases List.mem_append.mp hm with hm | hm
      · exact (hd.table_of_mem ms hm).node .opened
      · exact List.mem_singleton.mp hm ▸ hrow ht
    · cases h

end

theorem keeps_place {s : Section} (hs : ∀ e ∈ s.entries, e.value.Distinct) :
    Keeps (place · s) := by
  refine keeps_descend ?_ s.path
  split
  · exact keeps_openRow hs s.key
  · exact keeps_openTable hs s.key

theorem distinct_ofSections {entries : List Entry} {sections : List Section}
    (he : ∀ e ∈ entries, e.value.Distinct) (hs : ∀ s ∈ sections, ∀ e ∈ s.entries, e.value.Distinct)
    (h : ofSections entries sections = some ms) : ms.Distinct := by
  obtain ⟨top, ht, h⟩ := Option.bind_eq_some_iff.mp h
  exact keeps_foldlM (fun s hm => keeps_place (hs s hm)) top ms
    (keeps_fill he [] top distinct_nil ht) h

end Members

theorem yields_radix (base : Nat) : Yields Node.Distinct (radix base) := by
  refine (Yields.trivial (digitRun base)).bind fun ds _ text n rest h => ?_
  dsimp only at h
  split at h
  · cases h
    exact .integer _
  · cases h

theorem yields_decimal : Yields Node.Distinct decimal := by
  intro text n rest h
  simp only [decimal, Option.bind_eq_bind, Option.bind_eq_some_iff] at h
  obtain ⟨_, -, _, -, _, -, h⟩ := h
  split at h
  · split at h <;> split at h <;> cases h <;> exact .integer _
  · split at h
    · cases h
      exact .binary _
    · split at h <;> cases h
      exact .binary _

theorem yields_special : Yields Node.Distinct special := by
  intro text n rest h
  simp only [special, Option.bind_eq_bind, Option.bind_eq_some_iff] at h
  obtain ⟨_, -, h⟩ := h
  cases h
  exact .binary _

theorem yields_number : Yields Node.Distinct number := by
  have hm : Yields Node.Distinct moment := by
    intro text n rest h
    obtain ⟨_, -, h⟩ := Option.map_eq_some_iff.mp h
    cases h
    exact .moment
  refine hm.or fun text n rest h => ?_
  split at h
  · exact yields_radix 16 _ n rest h
  · exact yields_radix 8 _ n rest h
  · exact yields_radix 2 _ n rest h
  · exact yields_decimal.or yields_special _ n rest h

theorem yields_scalar : Yields Node.Distinct scalar := by
  have hw (cs : List Char) (b : Bool) :
      Yields Node.Distinct fun text => (marks cs text).map fun r => (.boolean b, r.2) :=
    (Yields.trivial (marks cs)).map fun _ _ _ => .boolean b
  exact ((Yields.trivial string).map fun cs _ _ => .text _).or
    (yields_number.or ((hw _ true).or (hw _ false)))

section

variable {scan : Scan Node} (h : Yields Node.Distinct scan)
include h

theorem yields_entry : Yields (fun e => e.value.Distinct) (entry scan) := by
  refine (Yields.trivial dottedKey).bind fun path _ => ?_
  refine (Yields.trivial (mark '=')).bind fun _ _ text e rest he => ?_
  obtain ⟨⟨n, left⟩, hn, he⟩ := Option.bind_eq_some_iff.mp he
  cases he
  exact h _ n left hn

theorem yields_array : Yields Node.Distinct (array scan) := by
  have hi : Yields Node.Distinct fun text =>
      (scan (skipGaps text)).bind fun r => some (r.1, skipGaps r.2) := by
    intro text n rest hn
    obtain ⟨⟨n, left⟩, hv, hr⟩ := Option.bind_eq_some_iff.mp hn
    cases hr
    exact h _ n left hv
  refine (Yields.trivial (mark '[')).bind fun _ _ text n rest hn => ?_
  dsimp only at hn
  obtain ⟨_, -, hn⟩ := Option.bind_eq_some_iff.mp hn
  cases hn
  refine .array ?_
  split
  · next hs => exact hi.separated _ _ _ hs
  · next hs => exact hi.separated _ _ _ hs
  · exact nofun

theorem yields_braced : Yields Node.Distinct (braced scan) := by
  refine (Yields.trivial (mark '\x7b')).bind fun _ _ text n rest hn => ?_
  have he : ∀ e ∈ ((separated ',' (entry scan) text).getD ([], text)).1, e.value.Distinct := by
    cases hs : separated ',' (entry scan) text with
    | none => exact nofun
    | some r => exact (yields_entry h).separated text r.1 r.2 hs
  obtain ⟨_, -, hn⟩ := Option.bind_eq_some_iff.mp hn
  obtain ⟨ms, hm, hn⟩ := Option.bind_eq_some_iff.mp hn
  cases hn
  exact (Members.keeps_fill he [] ms Members.distinct_nil hm).node .braced

end

theorem yields_value (depth : Nat) : Yields Node.Distinct (value depth) := by
  induction depth with
  | zero => exact yields_scalar
  | succ depth ih => exact (yields_array ih).or ((yields_braced ih).or yields_scalar)

theorem yields_line : Yields (fun l => ∀ e, l = .entry e → e.value.Distinct) line := by
  have hheader (repeated : Bool) (close : List Char) :
      Yields (fun l => ∀ e, l = Line.entry e → e.value.Distinct) (headerLine repeated close) := by
    refine (Yields.trivial dottedKey).bind fun _ _ => (Yields.trivial (marks close)).bind fun _ _ =>
      (Yields.trivial lineEnd).bind fun _ _ text l rest hl => ?_
    cases hl
    exact nofun
  have hentry : Yields (fun l => ∀ e, l = Line.entry e → e.value.Distinct) entryLine := by
    refine (yields_entry (yields_value maxDepth)).bind fun e he =>
      (Yields.trivial lineEnd).bind fun _ _ text l rest hl => ?_
    cases hl
    exact fun e' h => Line.entry.inj h ▸ he
  intro text l rest h
  unfold line at h
  split at h
  · cases h
  · exact hheader true _ _ l rest h
  · exact hheader false _ _ l rest h
  · split at h
    · obtain ⟨_, -, h⟩ := Option.map_eq_some_iff.mp h
      cases h
      exact nofun
    · exact hentry _ l rest h

theorem distinct_sections {ls : List Line} (h : ∀ l ∈ ls, ∀ e, l = .entry e → e.value.Distinct) :
    (∀ e ∈ (sections ls).1, e.value.Distinct) ∧
      ∀ s ∈ (sections ls).2, ∀ e ∈ s.entries, e.value.Distinct := by
  induction ls with
  | nil => exact ⟨nofun, nofun⟩
  | cons l ls ih =>
    obtain ⟨he, hs⟩ := ih fun l hl => h l (.tail _ hl)
    cases l with
    | blank => exact ⟨he, hs⟩
    | header repeated path key => exact ⟨nofun, List.forall_mem_cons.mpr ⟨he, hs⟩⟩
    | entry e => exact ⟨List.forall_mem_cons.mpr ⟨h _ (.head _) e rfl, he⟩, hs⟩

/-- No table of a document has a key twice. -/
theorem distinct_read? {text : List Char} {n : Node} (h : read? text = some n) : n.Distinct := by
  unfold read? at h
  generalize (if text.head? = some byteOrderMark then text.tail else text) = body at h
  dsimp only at h
  split at h
  · obtain ⟨ms, hm, rfl⟩ := Option.map_eq_some_iff.mp h
    obtain ⟨he, hs⟩ := distinct_sections (yields_line.many _)
    exact (Members.distinct_ofSections he hs hm).node .opened
  · cases h

end Toml

end BodyCallout
