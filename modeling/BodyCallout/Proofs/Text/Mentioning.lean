import BodyCallout.Proofs.Text.Casing
import BodyCallout.Proofs.Text.Decoding

/-!
Words in bytes. Whether a word is found after the bytes were repaired and put into lower case can be
told from the bytes themselves: neither step makes a match or hides one.
-/

set_option autoImplicit false

namespace BodyCallout.Text

open Utf8 (Pieced)

theorem mentions_iff {word text : List Char} : mentions word text = true ↔ word <:+: text := by
  induction text with
  | nil => simp [mentions]
  | cons c text ih =>
    rw [mentions, Bool.or_eq_true, ih, List.isPrefixOf_iff_prefix, List.infix_cons_iff]

/-- The word is never found across `x`. -/
def Barrier (word x : List Char) : Prop :=
  ∀ a b, word <:+: a ++ (x ++ b) ↔ word <:+: a ∨ word <:+: b

section Barrier

variable {word : List Char} (hw : word ≠ [])
include hw

theorem not_infix_nil : ¬ word <:+: [] := by simpa using hw

theorem barrier_singleton {c : Char} (hc : c ∉ word) : Barrier word [c] := by
  have hp {l b : List Char} (hl : ∀ d ∈ l, d ∈ word) (h : l <+: c :: b) : l = [] := by
    rw [List.prefix_cons_iff] at h
    rcases h with h | ⟨t, rfl, -⟩
    · exact h
    · exact absurd (hl c (List.mem_cons_self ..)) hc
  intro a b
  rw [List.singleton_append, List.infix_append_iff, List.infix_cons_iff]
  constructor
  · rintro (h | (h | h) | ⟨l, m, rfl, ha, hb⟩)
    · exact .inl h
    · exact absurd (hp (fun d hd => hd) h) hw
    · exact .inr h
    · have hm : m = [] := hp (fun d hd => List.mem_append_right l hd) hb
      subst hm
      exact .inl (by simpa using ha.isInfix)
  · rintro (h | h)
    · exact .inl h
    · exact .inr (.inl (.inr h))

theorem Barrier.append {x y : List Char} (hx : Barrier word x) (hy : Barrier word y) :
    Barrier word (x ++ y) := by
  intro a b
  have hb := hy [] b
  rw [List.nil_append, or_iff_right (not_infix_nil hw)] at hb
  rw [List.append_assoc, hx, hb]

theorem barrier_of_foreign {x : List Char} (hn : x ≠ []) (hx : ∀ c ∈ x, c ∉ word) :
    Barrier word x := by
  induction x with
  | nil => exact absurd rfl hn
  | cons c x ih =>
    rw [List.forall_mem_cons] at hx
    have hc := barrier_singleton hw hx.1
    cases x with
    | nil => exact hc
    | cons d x => exact hc.append hw (ih (List.cons_ne_nil d x) hx.2)

/-- A word is not found across what it has no part in. -/
theorem infix_between {before after : List Char} (hb : ∀ c ∈ before, c ∉ word)
    (ha : ∀ c ∈ after, c ∉ word) (text : List Char) :
    word <:+: before ++ text ++ after ↔ word <:+: text := by
  have hn := not_infix_nil hw
  have hleft : word <:+: before ++ text ↔ word <:+: text := by
    by_cases he : before = []
    · rw [he, List.nil_append]
    · have hf := barrier_of_foreign hw he hb [] text
      rwa [List.nil_append, or_iff_right hn] at hf
  by_cases he : after = []
  · rw [he, List.append_nil, hleft]
  · have hf := barrier_of_foreign hw he ha (before ++ text) []
    rwa [List.append_nil, or_iff_left hn, hleft] at hf

end Barrier

/-- Two texts with the same characters between barriers. -/
inductive Aligned (word : List Char) : List Char → List Char → Prop where
  | nil : Aligned word [] []
  | same {a b : List Char} (c : Char) (h : Aligned word a b) : Aligned word (c :: a) (c :: b)
  | barred {a b x y : List Char} (hx : Barrier word x) (hy : Barrier word y)
      (h : Aligned word a b) : Aligned word (x ++ a) (y ++ b)

theorem Aligned.infix_iff {word a b : List Char} (h : Aligned word a b) :
    word <:+: a ↔ word <:+: b := by
  -- The characters since the last barrier belong to the statement, since a match may begin there.
  suffices hs : ∀ since, word <:+: since ++ a ↔ word <:+: since ++ b from hs []
  induction h with
  | nil => exact fun since => Iff.rfl
  | @same a b c h ih =>
    intro since
    have hi := ih (since ++ [c])
    rwa [List.append_assoc, List.append_assoc] at hi
  | barred hx hy h ih =>
    intro since
    rw [hx, hy]
    exact or_congr_right (ih [])

/-- A text in lower case, where a capital sigma may have become the form that ends a word. -/
inductive Lowered : List Char → List Char → Prop where
  | nil : Lowered [] []
  | letter {text lowered : List Char} (c : Char) (h : Lowered text lowered) :
      Lowered (c :: text) (lower c ++ lowered)
  | finalSigma {text lowered : List Char} (h : Lowered text lowered) :
      Lowered ('Σ' :: text) ('ς' :: lowered)

theorem lowered_lowerAll (text : List Char) : Lowered text (lowerAll text) := by
  induction text with
  | nil => exact .nil
  | cons c text ih => exact .letter c ih

/-- Small ASCII letters that only their own two cases become: there is no k, which the Kelvin sign
becomes, and no i at the end, since the dotted capital I becomes an i and a dot. -/
structure Plain (word : List Char) : Prop where
  nonempty : word ≠ []
  letters : ∀ c ∈ word, 0x61 ≤ c.toNat ∧ c.toNat ≤ 0x7A ∧ c ≠ 'k'
  last : word.getLast? ≠ some 'i'

theorem plain_iff {word : List Char} :
    Plain word ↔ word ≠ [] ∧
      (word.all fun c => 0x61 ≤ c.toNat && c.toNat ≤ 0x7A && c != 'k') = true ∧
      word.getLast? ≠ some 'i' := by
  simp only [List.all_eq_true, Bool.and_eq_true, decide_eq_true_eq, bne_iff_ne, and_assoc]
  exact ⟨fun h => ⟨h.nonempty, h.letters, h.last⟩, fun ⟨hn, hl, hi⟩ => ⟨hn, hl, hi⟩⟩

instance (word : List Char) : Decidable (Plain word) := decidable_of_iff _ plain_iff.symm

namespace Plain

variable {word : List Char} (h : Plain word)
include h

theorem not_mem {c : Char} (hc : c.toNat < 0x61 ∨ 0x7A < c.toNat) : c ∉ word := by
  intro hm
  have hl := h.letters c hm
  omega

theorem map_toLower : word.map Char.toLower = word := by
  have hc : ∀ c ∈ word, c.toLower = c := by
    intro c hm
    have hl := h.letters c hm
    rw [← Char.toNat_inj, toNat_toLower, if_neg (by omega)]
  rw [List.map_congr_left hc, List.map_id']

theorem barrier_beyond {c : Char} (hc : 0x80 ≤ c.toNat) : Barrier word [c] :=
  barrier_singleton h.nonempty (h.not_mem (by omega))

theorem barrier_toLower {c : Char} (hc : 0x80 ≤ c.toNat) : Barrier word [c.toLower] := by
  apply h.barrier_beyond
  rw [toNat_toLower, if_neg (by omega)]
  exact hc

/-- A match that took in the i would have to go on with the dot. -/
theorem barrier_dotted : Barrier word ['i', Char.ofNat 0x307] := by
  intro a b
  have hb := h.barrier_beyond (c := Char.ofNat 0x307) (by decide) (a ++ ['i']) b
  have hi : ¬ word <:+ a ++ ['i'] := by
    rintro ⟨l, hl⟩
    apply h.last
    have hg := congrArg List.getLast? hl
    rwa [List.getLast?_append_of_ne_nil _ h.nonempty, List.getLast?_concat] at hg
  rw [List.infix_concat_iff, or_iff_right hi, List.append_assoc] at hb
  exact hb

theorem aligned_of_lowered {text lowered : List Char} (ht : Lowered text lowered) :
    Aligned word lowered (text.map Char.toLower) := by
  induction ht with
  | nil => exact .nil
  | @letter text lowered c _ ih =>
    rw [List.map_cons]
    by_cases hc : c.toNat < 0x80
    · rw [lower_of_ascii hc]
      exact .same c.toLower ih
    · have hy := h.barrier_toLower (c := c) (by omega)
      have hk : 'k' ∉ word := fun hm => (h.letters _ hm).2.2 rfl
      refine .barred (y := [c.toLower]) ?_ hy ih
      rcases lower_cases (c := c) (by omega) with ⟨d, hd, hl⟩ | ⟨-, hl⟩ | ⟨-, hl⟩ <;> rw [hl]
      · exact h.barrier_beyond hd
      · exact barrier_singleton h.nonempty hk
      · exact h.barrier_dotted
  | @finalSigma text lowered _ ih =>
    exact .barred (x := ['ς']) (y := ['Σ'.toLower]) (h.barrier_beyond (by decide))
      (h.barrier_toLower (by decide)) ih

/-- Where a word is looked for it makes no difference which sigmas are final. -/
theorem mentions_of_lowered {text lowered : List Char} (ht : Lowered text lowered) :
    mentions word lowered = mentions word (lowerAll text) := by
  rw [Bool.eq_iff_iff, mentions_iff, mentions_iff, (h.aligned_of_lowered ht).infix_iff,
    (h.aligned_of_lowered (lowered_lowerAll text)).infix_iff]

end Plain

def latin (bytes : List UInt8) : List Char := bytes.map fun b => Char.ofNat b.toNat

theorem toNat_latin (b : UInt8) : (Char.ofNat b.toNat).toNat = b.toNat := by
  have hb := b.toNat_lt
  have hv : b.toNat.isValidChar := .inl (by omega)
  rw [Char.ofNat, dif_pos hv]
  rfl

theorem Plain.aligned_repaired {word : List Char} (h : Plain word) {bytes : List UInt8}
    {read : List (Option Char)} (hr : Pieced bytes read) :
    Aligned word ((read.map fun p => p.getD Utf8.replacement).map Char.toLower)
      ((latin bytes).map Char.toLower) := by
  induction hr with
  | nil => exact .nil
  | plain b hb hr ih => exact .same _ ih
  | beyond stretch piece hn hs hp hr ih =>
    have hx : 0x80 ≤ (piece.getD Utf8.replacement).toNat := by
      cases piece with
      | none => decide
      | some c => exact hp c rfl
    have hy : Barrier word ((latin stretch).map Char.toLower) := by
      refine barrier_of_foreign h.nonempty (by simpa [latin] using hn) ?_
      simp only [latin, List.map_map, List.mem_map, Function.comp_apply]
      rintro c ⟨b, hb, rfl⟩
      have hb := hs b hb
      apply h.not_mem
      rw [toNat_toLower, toNat_latin, if_neg (by omega)]
      omega
    rw [latin, List.map_append, List.map_append]
    exact .barred (h.barrier_toLower hx) hy ih

theorem Plain.mentions_repair_iff {word : List Char} (h : Plain word) (bytes : List UInt8) :
    mentions word (lowerAll (Utf8.repair bytes)) = true ↔
      word <:+: (latin bytes).map Char.toLower := by
  have hr := h.aligned_repaired (Utf8.pieced_pieces bytes)
  rw [mentions_iff, (h.aligned_of_lowered (lowered_lowerAll _)).infix_iff]
  exact hr.infix_iff

/-- The word stands in the bytes as one run, up to the case of ASCII letters. -/
def Bears (bytes : List UInt8) (word : String) : Prop :=
  ∃ before run after, bytes = before ++ run ++ after ∧
    List.Forall₂ (fun b c => SameLetter (Char.ofNat b.toNat) c) run word.toList

theorem Plain.bears_iff {word : String} (h : Plain word.toList) (bytes : List UInt8) :
    Bears bytes word ↔ word.toList <:+: (latin bytes).map Char.toLower := by
  have hrun (run : List UInt8) :
      List.Forall₂ (fun b c => SameLetter (Char.ofNat b.toNat) c) run word.toList ↔
        word.toList = (latin run).map Char.toLower := by
    rw [← List.forall₂_map_left_iff, forall₂_sameLetter_iff, h.map_toLower, eq_comm]
    rfl
  simp only [Bears, hrun]
  constructor
  · rintro ⟨before, run, after, rfl, hw⟩
    refine ⟨(latin before).map Char.toLower, (latin after).map Char.toLower, ?_⟩
    rw [hw]
    simp [latin]
  · intro hi
    rw [latin, List.map_map, List.infix_map_iff] at hi
    obtain ⟨run, ⟨before, after, hb⟩, hw⟩ := hi
    refine ⟨before, run, after, hb.symm, ?_⟩
    rw [hw, latin, List.map_map]

end BodyCallout.Text
