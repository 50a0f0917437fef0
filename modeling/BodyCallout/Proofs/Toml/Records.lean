import BodyCallout.Proofs.Data.Taking
import BodyCallout.Proofs.Toml.Documents

set_option autoImplicit false

namespace BodyCallout.Toml

open Data

inductive Finds (ms : Members) : (f : Fields) → f.Values → Prop where
  | done : Finds ms .done ()
  | may {key : String} {shape : Shape} {rest : Fields} {v : Option shape.Value} {vs : rest.Values}
      (here : (ms.find? key).mapM (shape.held dialect) = .ok v) (more : Finds ms rest vs) :
      Finds ms (.may key shape rest) (v, vs)

theorem Finds.takeHeld {ms : Members} {f : Fields} {vs : f.Values} (h : Finds ms f vs)
    (hd : (ms.map Prod.fst).Nodup) (hk : f.keys.Nodup) :
    f.takeHeld dialect f.vacant ms = .ok (f.slots vs) := by
  induction h with
  | done => exact Fields.takeAll_done fun _ _ => rfl
  | @may key shape rest v vs here more ih =>
    obtain ⟨hnew, hrest⟩ := List.nodup_cons.mp hk
    cases hf : ms.find? key with
    | none =>
      rw [hf] at here
      cases here
      have hn : ∀ m ∈ ms, m.1 ≠ key := fun m hm he =>
        Members.find?_eq_none_iff.mp hf (he ▸ List.mem_map_of_mem hm)
      exact Fields.takeAll_may_absent hn (ih hrest)
    | some n =>
      rw [hf] at here
      obtain ⟨before, after, rfl⟩ := List.append_of_mem (Members.mem_of_find? hf)
      have hp : (before ++ (key, n) :: after).Perm ((key, n) :: (before ++ after)) :=
        List.perm_middle
      have hn : ∀ m ∈ before ++ after, m.1 ≠ key := fun m hm he =>
        (List.nodup_cons.mp ((hp.map Prod.fst).nodup hd)).1 (List.mem_map.mpr ⟨m, hm, he⟩)
      refine (Fields.takeAll_may_between hn).mpr ⟨here, ?_⟩
      -- The fields after this one do not notice that its member is gone.
      refine Eq.trans ?_ (ih hrest)
      exact Eq.symm (Fields.takeAll_other hnew (by rfl) before after rest.vacant)

/-- A record is read from a table whatever the order of its members and whatever others it has. -/
theorem Finds.held {origin : Origin} {ms : Members} {f : Fields} {vs : f.Values} (h : Finds ms f vs)
    (hd : (ms.map Prod.fst).Nodup) (hk : f.keys.Nodup) (title : String) :
    (Shape.record title f).held dialect (.table origin ms) = .ok vs :=
  held_record_of_taken rfl (h.takeHeld hd hk) title

/-- Under each key stands its value, and nothing if it has none; other keys do not matter. A table
that is not there gives nothing. -/
def Gives (fields : List (String × Option Node)) : Option Node → Prop
  | none => ∀ f ∈ fields, f.2 = none
  | some (.table _ ms) => ∀ f ∈ fields, Members.find? ms f.1 = f.2
  | some _ => False

theorem Document.Rearranges.mem_keys {d d' : Document} (hr : d.Rearranges d') {key : String}
    (h : key ∈ d'.members.map Prod.fst) : key ∈ d.members.map Prod.fst := by
  rw [keys_members, List.mem_append] at h ⊢
  rcases h with h | h
  · exact .inl ((hr.top.map Item.key).mem_iff.mpr h)
  · obtain ⟨b', hb', rfl⟩ := List.mem_map.mp h
    obtain ⟨b, hb, hn, -⟩ := hr.nothingNew b' hb'
    exact .inr (List.mem_map.mpr ⟨b, hb, hn⟩)

/-- What a document gives does not depend on its order. -/
theorem Gives.rearranged {fields : List (String × Option Node)} {key : String} {d d' : Document}
    (h : Gives fields (d.members.find? key)) (hr : d.Rearranges d') :
    Gives fields (d'.members.find? key) := by
  have hd' : (d'.members.map Prod.fst).Nodup := d'.keys_members ▸ d'.distinct
  cases hf : d.members.find? key with
  | none =>
    have hn : d'.members.find? key = none :=
      Members.find?_eq_none_iff.mpr fun hm => Members.find?_eq_none_iff.mp hf (hr.mem_keys hm)
    rwa [hn, ← hf]
  | some n =>
    rw [hf] at h
    rcases List.mem_append.mp (Members.mem_of_find? hf) with hm | hm
    · have hm' := List.mem_append_left (d'.blocks.map Block.member)
        ((hr.top.map Item.member).mem_iff.mp hm)
      rwa [Members.find?_of_mem hd' hm']
    · obtain ⟨b, hb, he⟩ := List.mem_map.mp hm
      obtain ⟨rfl, rfl⟩ := Prod.mk.inj he
      obtain ⟨b', hb', hn, hp⟩ := hr.kept b hb
      have hm' : b'.member ∈ d'.members :=
        List.mem_append_right _ (List.mem_map.mpr ⟨b', hb', rfl⟩)
      rw [hn, Members.find?_of_mem hd' hm']
      intro f hf
      have hk : (b.members.map Prod.fst).Nodup := by
        rw [Block.members, Members.keys_items]
        exact b.distinct
      exact (Members.find?_perm hk (hp.map Item.member) f.1).symm.trans (h f hf)

theorem exists_items {fields : List (String × Option Node)} (hk : (fields.map Prod.fst).Nodup)
    (hw : ∀ f ∈ fields, ∀ n ∈ f.2, ∃ text, Stands text n) :
    ∃ is : List Item, (is.map Item.key).Nodup ∧ (∀ i ∈ is, i.key ∈ fields.map Prod.fst) ∧
      ∀ f ∈ fields, Members.find? (is.map Item.member) f.1 = f.2 := by
  induction fields with
  | nil => exact ⟨[], List.nodup_nil, nofun, nofun⟩
  | cons f fields ih =>
    obtain ⟨hnew, hrest⟩ := List.nodup_cons.mp hk
    obtain ⟨is, hd, hi, hf⟩ := ih hrest fun f hm => hw f (.tail _ hm)
    obtain ⟨key, n⟩ := f
    have hkey : key ∉ is.map Item.key := by
      intro hm
      obtain ⟨i, him, rfl⟩ := List.mem_map.mp hm
      exact hnew (hi i him)
    cases n with
    | none =>
      refine ⟨is, hd, fun i hm => .tail _ (hi i hm), List.forall_mem_cons.mpr ⟨?_, hf⟩⟩
      rw [Members.find?_eq_none_iff, Members.keys_items]
      exact hkey
    | some n =>
      obtain ⟨text, ht⟩ := hw _ (.head _) n rfl
      refine ⟨⟨key, text, n, ht⟩ :: is, List.nodup_cons.mpr ⟨hkey, hd⟩,
        List.forall_mem_cons.mpr ⟨.head _, fun i hm => .tail _ (hi i hm)⟩,
        List.forall_mem_cons.mpr ⟨by simp [Members.find?, Item.member], fun f hm => ?_⟩⟩
      have hne : key ≠ f.1 := fun he => hnew (List.mem_map.mpr ⟨f, hm, he.symm⟩)
      rw [← hf f hm]
      simp [Members.find?, Item.member, hne]

section

variable {sections : List (String × List (String × Option Node))}
  (hk : ∀ s ∈ sections, (s.2.map Prod.fst).Nodup)
  (hw : ∀ s ∈ sections, ∀ f ∈ s.2, ∀ n ∈ f.2, ∃ text, Stands text n)
include hk hw

theorem exists_blocks :
    ∃ bs : List Block, bs.map Block.name = sections.map Prod.fst ∧
      ∀ s ∈ sections, ∃ b ∈ bs, b.name = s.1 ∧ Gives s.2 (some b.member.2) := by
  induction sections with
  | nil => exact ⟨[], rfl, nofun⟩
  | cons s sections ih =>
    obtain ⟨bs, hbs, hs⟩ := ih (fun s hm => hk s (.tail _ hm)) fun s hm => hw s (.tail _ hm)
    obtain ⟨is, hd, -, hf⟩ := exists_items (hk s (.head _)) (hw s (.head _))
    refine ⟨⟨s.1, is, hd⟩ :: bs, List.cons_eq_cons.mpr ⟨rfl, hbs⟩,
      List.forall_mem_cons.mpr ⟨⟨_, .head _, rfl, hf⟩, fun s hm => ?_⟩⟩
    obtain ⟨b, hm, hg⟩ := hs s hm
    exact ⟨b, .tail _ hm, hg⟩

theorem exists_document (hn : (sections.map Prod.fst).Nodup) :
    ∃ d : Document, ∀ s ∈ sections, Gives s.2 (d.members.find? s.1) := by
  obtain ⟨bs, hbs, hs⟩ := exists_blocks hk hw
  let d : Document := ⟨[], bs, by rwa [hbs]⟩
  have hd : (d.members.map Prod.fst).Nodup := d.keys_members ▸ d.distinct
  refine ⟨d, fun s hm => ?_⟩
  obtain ⟨b, hb, hn, hg⟩ := hs s hm
  have hm' : b.member ∈ d.members := List.mem_map.mpr ⟨b, hb, rfl⟩
  rw [← hn, Members.find?_of_mem hd hm']
  exact hg

end

theorem mapM_held {α : Type} {s : Shape} {node : α → Node} {value : α → s.Value}
    (h : ∀ a, s.held dialect (node a) = .ok (value a)) (a : Option α) :
    (a.map node).mapM (s.held dialect) = .ok (a.map value) := by
  cases a with
  | none => rfl
  | some a =>
    change some <$> s.held dialect (node a) = _
    rw [h]
    rfl

def Node.natural (n : UInt64) : Node := .integer n.toNat

theorem view_natural (n : UInt64) : dialect.view (.natural n) = .number (.natural n.toNat) := by
  simp [dialect, Node.view, Node.natural]

theorem held_natural (title : String) (n : UInt64) :
    (Shape.natural title UInt64.size).held dialect (.natural n) = .ok n.toFin := by
  simp only [Shape.held, view_natural]
  exact dif_pos n.toFin.isLt

theorem held_optional (title : String) (n : UInt64) :
    (Shape.optional (.natural title UInt64.size)).held dialect (.natural n) =
      .ok (some n.toFin) := by
  rw [Shape.held, view_natural, held_natural]
  rfl

end BodyCallout.Toml
