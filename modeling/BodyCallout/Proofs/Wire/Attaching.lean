import BodyCallout.Proofs.Text.Casing
import BodyCallout.Wire.Frame

set_option autoImplicit false

namespace BodyCallout

namespace Mutation

def joined (ms : List Mutation) : Mutation := ⟨ms.flatMap set, ms.flatMap remove⟩

theorem joined_cons (m : Mutation) (ms : List Mutation) : joined (m :: ms) = m.merge (joined ms) := rfl

theorem joined_append (ms more : List Mutation) :
    joined (ms ++ more) = (joined ms).merge (joined more) := by
  simp [joined, merge]

theorem joined_singleton (m : Mutation) : joined [m] = m := merge_empty m

/-- A field is set to the value, under the name but for the case of its letters, and none before
it is set under the name. -/
inductive First (name : String) : List Setting → String → Prop where
  | here {s : Setting} {rest : List Setting} (named : Text.SameName s.header.key name) :
      First name (s :: rest) s.header.value
  | later {s : Setting} {rest : List Setting} {value : String}
      (other : ¬ Text.SameName s.header.key name) (first : First name rest value) :
      First name (s :: rest) value

def Silent (name : String) (settings : List Setting) : Prop :=
  ∀ s ∈ settings, ¬ Text.SameName s.header.key name

/-- The earliest mutation that sets a field under the name sets the first of these to the value. -/
inductive Earliest (name : String) : List Mutation → String → Prop where
  | here {m : Mutation} {rest : List Mutation} {value : String} (first : First name m.set value) :
      Earliest name (m :: rest) value
  | later {m : Mutation} {rest : List Mutation} {value : String} (silent : Silent name m.set)
      (earliest : Earliest name rest value) : Earliest name (m :: rest) value

section

variable {name : String}

theorem map_find?_iff {settings : List Setting} {value : String} :
    (settings.find? fun s => Text.sameName s.header.key name).map (·.header.value) = some value ↔
      First name settings value := by
  induction settings with
  | nil => exact ⟨nofun, nofun⟩
  | cons s rest ih =>
    by_cases hs : Text.SameName s.header.key name
    · simp only [List.find?_cons, Text.sameName_iff.mpr hs, Option.map_some, Option.some.injEq]
      constructor
      · rintro rfl
        exact .here hs
      · intro h
        cases h with
        | here => rfl
        | later other => exact absurd hs other
    · have hf : Text.sameName s.header.key name = false :=
        Bool.eq_false_iff.mpr fun h => hs (Text.sameName_iff.mp h)
      simp only [List.find?_cons, hf, ih]
      constructor
      · exact .later hs
      · intro h
        cases h with
        | here named => exact absurd named hs
        | later _ first => exact first

theorem get?_eq_some_iff {m : Mutation} {value : String} :
    m.get? name = some value ↔ First name m.set value := map_find?_iff

theorem get?_eq_none_iff {m : Mutation} : m.get? name = none ↔ Silent name m.set := by
  simp [get?, Silent, Text.sameName_iff]

theorem get?_joined_iff {ms : List Mutation} {value : String} :
    (joined ms).get? name = some value ↔ Earliest name ms value := by
  induction ms with
  | nil => exact ⟨nofun, nofun⟩
  | cons m ms ih =>
    rw [joined_cons, get?_merge, Option.or_eq_some_iff, ih, get?_eq_some_iff, get?_eq_none_iff]
    constructor
    · rintro (first | ⟨silent, earliest⟩)
      · exact .here first
      · exact .later silent earliest
    · intro h
      cases h with
      | here first => exact .inl first
      | later silent earliest => exact .inr ⟨silent, earliest⟩

theorem get?_joined_eq_none_iff {ms : List Mutation} :
    (joined ms).get? name = none ↔ ∀ m ∈ ms, Silent name m.set := by
  rw [get?_eq_none_iff, joined]
  simp only [Silent, List.mem_flatMap]
  exact ⟨fun h m hm s hs => h s ⟨m, hm, hs⟩, fun h s ⟨m, hm, hs⟩ => h m hm s hs⟩

end

end Mutation

/-- Mutations that are merged, in their order and two at a time. -/
inductive Merging where
  | one (m : Mutation)
  | both (a b : Merging)

namespace Merging

def parts : Merging → List Mutation
  | one m => [m]
  | both a b => a.parts ++ b.parts

def result : Merging → Mutation
  | one m => m
  | both a b => a.result.merge b.result

theorem result_eq (g : Merging) : g.result = .joined g.parts := by
  induction g with
  | one m => exact (Mutation.joined_singleton m).symm
  | both a b iha ihb => rw [result, parts, Mutation.joined_append, iha, ihb]

theorem parts_ne_nil (g : Merging) : g.parts ≠ [] := by
  induction g with
  | one m => exact List.cons_ne_nil m []
  | both a b iha _ => exact List.append_ne_nil_of_left_ne_nil iha b.parts

theorem joined_results (gs : List Merging) :
    Mutation.joined (gs.map result) = .joined (gs.flatMap parts) := by
  induction gs with
  | nil => rfl
  | cons g gs ih =>
    rw [List.map_cons, List.flatMap_cons, Mutation.joined_cons, Mutation.joined_append, ih, result_eq]

theorem flatMap_parts_eq_nil_iff {gs : List Merging} : gs.flatMap parts = [] ↔ gs = [] := by
  cases gs with
  | nil => simp
  | cons g gs => simp [g.parts_ne_nil]

end Merging

namespace Reply

def attachAll (ms : List Mutation) (r : Reply) : Reply := ms.foldl (fun r m => r.attach m) r

@[simp] theorem setMutation_setMutation (a b : Option Mutation) (r : Reply) :
    (r.setMutation a).setMutation b = r.setMutation b := by
  cases r <;> rfl

theorem attach_attach (a b : Mutation) (r : Reply) : (r.attach a).attach b = r.attach (a.merge b) := by
  rw [attach, mutation_attach, attach, attach, setMutation_setMutation, Option.getD_some,
    Mutation.merge_assoc]

theorem attachAll_cons (m : Mutation) (ms : List Mutation) (r : Reply) :
    r.attachAll (m :: ms) = r.attach (.joined (m :: ms)) := by
  induction ms generalizing m r with
  | nil => rw [Mutation.joined_singleton]; rfl
  | cons n ms ih =>
    change (r.attach m).attachAll (n :: ms) = _
    rw [ih, attach_attach, Mutation.joined_cons m]

theorem attachAll_of_ne_nil {ms : List Mutation} (h : ms ≠ []) (r : Reply) :
    r.attachAll ms = r.attach (.joined ms) := by
  obtain ⟨m, ms, rfl⟩ := List.exists_cons_of_ne_nil h
  exact attachAll_cons m ms r

theorem attachAll_results (gs : List Merging) (r : Reply) :
    r.attachAll (gs.map Merging.result) = r.attachAll (gs.flatMap Merging.parts) := by
  rcases eq_or_ne gs [] with rfl | h
  · rfl
  · rw [attachAll_of_ne_nil (List.map_eq_nil_iff.not.mpr h),
      attachAll_of_ne_nil (Merging.flatMap_parts_eq_nil_iff.not.mpr h), Merging.joined_results]

theorem phase_attachAll (ms : List Mutation) (r : Reply) : (r.attachAll ms).phase = r.phase := by
  cases ms with
  | nil => rfl
  | cons m ms => rw [attachAll_cons, phase_attach]

theorem mutation_attachAll_empty (p : Phase) (ms : List Mutation) :
    ((empty p).attachAll ms).mutation = if ms = [] then none else some (.joined ms) := by
  cases ms with
  | nil => exact mutation_empty p
  | cons m ms =>
    rw [attachAll_cons, mutation_attach, mutation_empty, Option.getD_none, Mutation.empty_merge,
      if_neg (List.cons_ne_nil m ms)]

/-- The reply of a phase to which mutations were attached in turn has the phase and, unless there
were none, one mutation. That lists what they set and what they remove in their order, and has
under a name what the earliest of them that has something under it has first. It is the reply with
their merge, and however they are grouped and merged before they are attached, it is the same reply
and is written the same. -/
theorem attached_in_turn (p : Phase) (ms : List Mutation) :
    ((empty p).attachAll ms).phase = p ∧
      (((empty p).attachAll ms).mutation.isSome = true ↔ ms ≠ []) ∧
      (∀ m ∈ ((empty p).attachAll ms).mutation,
        m.set = ms.flatMap Mutation.set ∧ m.remove = ms.flatMap Mutation.remove ∧
          ∀ name, (∀ value, m.get? name = some value ↔ Mutation.Earliest name ms value) ∧
            (m.get? name = none ↔ ∀ n ∈ ms, Mutation.Silent name n.set)) ∧
      (∀ g : Merging, g.parts = ms → Answer.change p g.result = ⟨(empty p).attachAll ms, none⟩) ∧
      ∀ gs : List Merging, gs.flatMap Merging.parts = ms →
        (empty p).attachAll (gs.map Merging.result) = (empty p).attachAll ms ∧
          ∀ delivery, encode (Answer.mk ((empty p).attachAll (gs.map Merging.result)) delivery) =
            encode (Answer.mk ((empty p).attachAll ms) delivery) := by
  refine ⟨(phase_attachAll ms (empty p)).trans (phase_empty p), ?_, ?_, ?_, ?_⟩
  · rw [mutation_attachAll_empty]
    by_cases h : ms = [] <;> simp [h]
  · intro m hm
    rw [mutation_attachAll_empty, Option.mem_def] at hm
    split at hm
    · cases hm
    · obtain rfl := Option.some.inj hm
      exact ⟨rfl, rfl, fun name =>
        ⟨fun value => Mutation.get?_joined_iff, Mutation.get?_joined_eq_none_iff⟩⟩
  · rintro g rfl
    rw [Answer.change, g.result_eq, attachAll_of_ne_nil g.parts_ne_nil]
  · rintro gs rfl
    have h := attachAll_results gs (empty p)
    exact ⟨h, fun delivery => by rw [h]⟩

/-- An empty mutation attached first leaves the name to the next one, grouped as they may be. -/
theorem attached_after_empty :
    let p : Phase := ⟨.response, .trailers⟩
    let first : Mutation := .ofPairs [("X-A", "1")]
    let second : Mutation := .ofPairs [("x-a", "2")]
    let g : Merging := .both (.both (.one .empty) (.one first)) (.one second)
    let r := (empty p).attachAll [.empty, first, second]
    r.mutation.isSome = true ∧ (∀ m ∈ r.mutation, m.get? "x-A" = some "1") ∧
      Answer.change p g.result = ⟨r, none⟩ ∧ (empty p).attachAll ([g].map Merging.result) = r := by
  intro p first second g r
  obtain ⟨-, hs, hm, hg, hgs⟩ := attached_in_turn p [.empty, first, second]
  refine ⟨hs.mpr (List.cons_ne_nil _ _), fun m hr => ?_, hg g rfl, (hgs [g] rfl).1⟩
  have hn : Text.SameName "X-A" "x-A" := Text.sameName_iff.mp (by decide)
  exact (((hm m hr).2.2 "x-A").1 "1").mpr (.later (by simp [Mutation.Silent, Mutation.empty])
    (.here (.here hn)))

end Reply

end BodyCallout
