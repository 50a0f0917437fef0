import Mathlib.Data.List.Forall2
import BodyCallout.Proofs.Text.Encoding
import BodyCallout.Text.LetterCase

set_option autoImplicit false

namespace BodyCallout.Text

theorem toNat_toLower (c : Char) :
    c.toLower.toNat = if 0x41 ≤ c.toNat ∧ c.toNat ≤ 0x5A then c.toNat + 0x20 else c.toNat := by
  have hl : 'A'.val ≤ c.val ↔ 0x41 ≤ c.toNat := UInt32.le_iff_toNat_le
  have hh : c.val ≤ 'Z'.val ↔ c.toNat ≤ 0x5A := UInt32.le_iff_toNat_le
  delta Char.toLower
  simp only [ge_iff_le, hl, hh]
  split
  · have hs : c.toNat + 0x20 < 2 ^ 32 := by omega
    exact Nat.mod_eq_of_lt hs
  · rfl

/-- The same character, or the two cases of one ASCII letter. -/
def SameLetter (a b : Char) : Prop :=
  a = b ∨ 0x41 ≤ a.toNat ∧ a.toNat ≤ 0x5A ∧ b.toNat = a.toNat + 0x20 ∨
    0x41 ≤ b.toNat ∧ b.toNat ≤ 0x5A ∧ a.toNat = b.toNat + 0x20

def SameName (a b : String) : Prop := List.Forall₂ SameLetter a.toList b.toList

theorem toLower_eq_iff {a b : Char} : a.toLower = b.toLower ↔ SameLetter a b := by
  rw [← Char.toNat_inj, toNat_toLower, toNat_toLower, SameLetter, ← Char.toNat_inj]
  split <;> split <;> omega

theorem forall₂_sameLetter_iff {a b : List Char} :
    List.Forall₂ SameLetter a b ↔ a.map Char.toLower = b.map Char.toLower := by
  have hf : SameLetter = fun c d : Char => c.toLower = d.toLower := by
    funext c d
    exact propext toLower_eq_iff.symm
  rw [hf, ← List.forall₂_eq_eq_eq, List.forall₂_map_left_iff, List.forall₂_map_right_iff]

theorem sameName_iff {a b : String} : sameName a b = true ↔ SameName a b := by
  rw [SameName, forall₂_sameLetter_iff, sameName, decide_eq_true_iff]
  rfl

theorem lower_of_ascii {c : Char} (h : c.toNat < 0x80) : lower c = [c.toLower] := by
  rw [lower, if_pos h]

/-- Every run leads to characters beyond ASCII, but for the one that is the Kelvin sign. -/
theorem lowerRuns_beyond : ∀ r ∈ lowerRuns,
    Utf8.Beyond (r.1 + r.2.2.2).toNat (r.2.1 + r.2.2.2).toNat ∨ r = (0x212A, 0x212A, 1, -8383) := by
  decide +kernel

/-- The lower case of a character beyond ASCII is one character beyond ASCII, but for two of them:
the Kelvin sign becomes a k, and the dotted capital I an i with a dot after it. -/
theorem lower_cases {c : Char} (h : 0x80 ≤ c.toNat) :
    (∃ d, 0x80 ≤ d.toNat ∧ lower c = [d]) ∨ c.toNat = 0x212A ∧ lower c = ['k'] ∨
      c.toNat = 0x130 ∧ lower c = ['i', Char.ofNat 0x307] := by
  rw [lower, if_neg (by omega)]
  split
  · next hi => exact .inr (.inr ⟨hi, rfl⟩)
  split
  · next first last step distance hf =>
    have hp := List.find?_some hf
    simp only [Bool.and_eq_true, decide_eq_true_eq] at hp
    rcases lowerRuns_beyond _ (List.mem_of_find?_eq_some hf) with hb | hk
    · refine .inl ⟨_, Utf8.toNat_ofNat_of_beyond hb ?_ ?_, rfl⟩ <;> dsimp only <;> omega
    · obtain ⟨rfl, rfl, rfl, rfl⟩ := hk
      have hc : c.toNat = 0x212A := by omega
      refine .inr (.inl ⟨hc, ?_⟩)
      rw [hc]
      rfl
  · exact .inl ⟨c, h, rfl⟩

end BodyCallout.Text
