import BodyCallout.Text.Utf8

set_option autoImplicit false

namespace BodyCallout.Utf8

theorem scalar_cases (c : Char) : c.toNat < 0xD800 ∨ 0xDFFF < c.toNat ∧ c.toNat < 0x110000 := by
  rcases c.valid with h | ⟨h, h'⟩
  · exact .inl h
  · exact .inr ⟨h, h'⟩

def Beyond (least greatest : Nat) : Prop :=
  0x80 ≤ least ∧ (greatest < 0xD800 ∨ 0xDFFF < least ∧ greatest < 0x110000)

instance (least greatest : Nat) : Decidable (Beyond least greatest) :=
  inferInstanceAs (Decidable (_ ∧ _))

theorem toNat_ofNat_of_beyond {least greatest n : Nat} (h : Beyond least greatest)
    (hl : least ≤ n) (hg : n ≤ greatest) : 0x80 ≤ (Char.ofNat n).toNat := by
  have hv : n.isValidChar := by
    rcases h.2 with h | h
    · exact .inl (by omega)
    · exact .inr (by omega)
  have hb := h.1
  have hn : (Char.ofNat n).toNat = n := by rw [Char.ofNat, dif_pos hv]; rfl
  omega

theorem toNat_ofNat_of_lt {n : Nat} (h : n < 0x100) : (UInt8.ofNat n).toNat = n := by
  rw [UInt8.toNat_ofNat']
  omega

/-- The bytes of a character by how many there are. -/
theorem utf8EncodeChar_cases (c : Char) :
    c.toNat ≤ 0x7F ∧ String.utf8EncodeChar c = [UInt8.ofNat c.toNat] ∨
    (0x7F < c.toNat ∧ c.toNat ≤ 0x7FF) ∧ String.utf8EncodeChar c =
      [UInt8.ofNat (c.toNat / 64 + 192), UInt8.ofNat (c.toNat % 64 + 128)] ∨
    (0x7FF < c.toNat ∧ c.toNat ≤ 0xFFFF) ∧ String.utf8EncodeChar c =
      [UInt8.ofNat (c.toNat / 4096 + 224), UInt8.ofNat (c.toNat / 64 % 64 + 128),
        UInt8.ofNat (c.toNat % 64 + 128)] ∨
    0xFFFF < c.toNat ∧ String.utf8EncodeChar c =
      [UInt8.ofNat (c.toNat / 262144 + 240), UInt8.ofNat (c.toNat / 4096 % 64 + 128),
        UInt8.ofNat (c.toNat / 64 % 64 + 128), UInt8.ofNat (c.toNat % 64 + 128)] := by
  have hc := scalar_cases c
  have hv : c.val.toNat = c.toNat := rfl
  simp only [String.utf8EncodeChar, hv]
  split
  · exact .inl ⟨‹_›, rfl⟩
  · split
    · refine .inr (.inl ⟨by omega, ?_⟩)
      rw [Nat.mod_eq_of_lt (by omega : c.toNat / 64 < 32)]
    · split
      · refine .inr (.inr (.inl ⟨by omega, ?_⟩))
        rw [Nat.mod_eq_of_lt (by omega : c.toNat / 4096 < 16)]
      · refine .inr (.inr (.inr ⟨by omega, ?_⟩))
        rw [Nat.mod_eq_of_lt (by omega : c.toNat / 262144 < 8)]

theorem mem_utf8EncodeChar {c : Char} {b : UInt8} (h : b ∈ String.utf8EncodeChar c) :
    b.toNat = c.toNat ∨ 0x80 ≤ b.toNat := by
  have hc := scalar_cases c
  rcases utf8EncodeChar_cases c with ⟨hl, he⟩ | ⟨hl, he⟩ | ⟨hl, he⟩ | ⟨hl, he⟩
  all_goals
    rw [he] at h
    simp only [List.mem_cons, List.not_mem_nil, or_false] at h
  · exact .inl (h ▸ toNat_ofNat_of_lt (by omega))
  · rcases h with rfl | rfl <;> exact .inr (by rw [toNat_ofNat_of_lt (by omega)]; omega)
  · rcases h with rfl | rfl | rfl <;> exact .inr (by rw [toNat_ofNat_of_lt (by omega)]; omega)
  · rcases h with rfl | rfl | rfl | rfl <;>
      exact .inr (by rw [toNat_ofNat_of_lt (by omega)]; omega)

theorem step_more (read : List (Option Char)) {later low high bits n : Nat}
    (hl : low ≤ n % 64 + 128) (hh : n % 64 + 128 ≤ high) :
    Scan.step ⟨read, some ⟨later + 1, low, high, bits⟩⟩ (UInt8.ofNat (n % 64 + 128)) =
      ⟨read, some ⟨later, 0x80, 0xBF, bits * 64 + n % 64⟩⟩ := by
  have hn : (UInt8.ofNat (n % 64 + 128)).toNat = n % 64 + 128 := toNat_ofNat_of_lt (by omega)
  simp only [Scan.step, hn, hl, hh, and_self, if_true, Nat.add_sub_cancel]

theorem step_last (read : List (Option Char)) {low high bits n : Nat}
    (hl : low ≤ n % 64 + 128) (hh : n % 64 + 128 ≤ high) :
    Scan.step ⟨read, some ⟨0, low, high, bits⟩⟩ (UInt8.ofNat (n % 64 + 128)) =
      ⟨some (Char.ofNat (bits * 64 + n % 64)) :: read, none⟩ := by
  have hn : (UInt8.ofNat (n % 64 + 128)).toNat = n % 64 + 128 := toNat_ofNat_of_lt (by omega)
  simp only [Scan.step, hn, hl, hh, and_self, if_true, Nat.add_sub_cancel]

theorem step_lead (read : List (Option Char)) {n : Nat} (h : n < 0x100) :
    Scan.step ⟨read, none⟩ (UInt8.ofNat n) = lead read n := by
  rw [Scan.step, toNat_ofNat_of_lt h]

theorem lead_two (read : List (Option Char)) {n : Nat} (hl : 2 ≤ n) (hh : n < 32) :
    lead read (n + 192) = ⟨read, some ⟨0, 0x80, 0xBF, n⟩⟩ := by
  rw [lead, if_neg (by omega), if_neg (by omega), if_pos (by omega), Nat.add_sub_cancel]

theorem lead_three (read : List (Option Char)) {n : Nat} (hh : n < 16) :
    lead read (n + 224) =
      ⟨read, some ⟨1, if n = 0 then 0xA0 else 0x80, if n = 13 then 0x9F else 0xBF, n⟩⟩ := by
  rw [lead, if_neg (by omega), if_neg (by omega), if_neg (by omega), if_pos (by omega),
    Nat.add_sub_cancel]
  simp only [Nat.reduceEqDiff]

theorem lead_four (read : List (Option Char)) {n : Nat} (hh : n < 5) :
    lead read (n + 240) =
      ⟨read, some ⟨2, if n = 0 then 0x90 else 0x80, if n = 4 then 0x8F else 0xBF, n⟩⟩ := by
  rw [lead, if_neg (by omega), if_neg (by omega), if_neg (by omega), if_neg (by omega),
    if_pos (by omega), Nat.add_sub_cancel]
  simp only [Nat.reduceEqDiff]

theorem scan_utf8EncodeChar (read : List (Option Char)) (c : Char) :
    (String.utf8EncodeChar c).foldl Scan.step ⟨read, none⟩ = ⟨some c :: read, none⟩ := by
  have hc := scalar_cases c
  have hbits (n : Nat) (hn : n = c.toNat) : Char.ofNat n = c := by rw [hn, Char.ofNat_toNat]
  rcases utf8EncodeChar_cases c with ⟨h, he⟩ | ⟨h, he⟩ | ⟨h, he⟩ | ⟨h, he⟩
  · rw [he, List.foldl_cons, step_lead read (by omega), lead, if_pos (by omega), hbits _ rfl]
    rfl
  · rw [he, List.foldl_cons, step_lead read (by omega), lead_two read (by omega) (by omega),
      List.foldl_cons, step_last read (by omega) (by omega), hbits _ (by omega)]
    rfl
  · rw [he, List.foldl_cons, step_lead read (by omega), lead_three read (by omega),
      List.foldl_cons, step_more read (by split <;> omega) (by split <;> omega),
      List.foldl_cons, step_last read (by omega) (by omega), hbits _ (by omega)]
    rfl
  · rw [he, List.foldl_cons, step_lead read (by omega), lead_four read (by omega),
      List.foldl_cons, step_more read (by split <;> omega) (by split <;> omega),
      List.foldl_cons, step_more read (by omega) (by omega),
      List.foldl_cons, step_last read (by omega) (by omega), hbits _ (by omega)]
    rfl

@[simp] theorem encode_singleton (c : Char) : encode [c] = String.utf8EncodeChar c := by
  simp [encode]

theorem scan_encode (read : List (Option Char)) (text : List Char) :
    (encode text).foldl Scan.step ⟨read, none⟩ = ⟨(text.map some).reverse ++ read, none⟩ := by
  induction text generalizing read with
  | nil => rfl
  | cons c text ih =>
    rw [encode, List.flatMap_cons, List.foldl_append, scan_utf8EncodeChar]
    exact (ih _).trans (by simp)

theorem pieces_encode (text : List Char) : pieces (encode text) = text.map some := by
  rw [pieces, Scan.start, scan_encode]
  simp [Scan.finish]

/-- What was written is read, whatever its characters. -/
@[simp] theorem decode?_encode (text : List Char) : decode? (encode text) = some text := by
  have hp := pieces_encode text
  simp [decode?, hp, List.filterMap_map]

end BodyCallout.Utf8
