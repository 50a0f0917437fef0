import BodyCallout.Store.Buffer

set_option autoImplicit false

namespace BodyCallout

section LongestFit

theorem longestFit_prefix_self (limit : Nat) (chunks : List (List UInt8)) :
    longestFit limit chunks <+: chunks := by
  induction chunks generalizing limit with
  | nil => exact List.prefix_refl _
  | cons chunk rest ih =>
    rw [longestFit]
    split
    · exact (List.prefix_cons_inj chunk).mpr (ih (limit - chunk.length))
    · exact List.nil_prefix

theorem length_longestFit_le (limit : Nat) (chunks : List (List UInt8)) :
    (longestFit limit chunks).flatten.length ≤ limit := by
  induction chunks generalizing limit with
  | nil => exact Nat.zero_le limit
  | cons chunk rest ih =>
    rw [longestFit]
    split
    · have hr := ih (limit - chunk.length)
      rw [List.flatten_cons, List.length_append]
      omega
    · exact Nat.zero_le limit

/-- No longer start of the chunks fits. -/
theorem prefix_longestFit {limit : Nat} {p chunks : List (List UInt8)} (hp : p <+: chunks)
    (hl : p.flatten.length ≤ limit) : p <+: longestFit limit chunks := by
  induction chunks generalizing limit p with
  | nil => exact hp
  | cons chunk rest ih =>
    cases p with
    | nil => exact List.nil_prefix
    | cons c p =>
      obtain ⟨rfl, ht⟩ := List.cons_prefix_cons.mp hp
      rw [List.flatten_cons, List.length_append] at hl
      have hc : c.length ≤ limit := by omega
      have hr : p.flatten.length ≤ limit - c.length := by omega
      rw [longestFit, if_pos hc]
      exact (List.prefix_cons_inj c).mpr (ih ht hr)

theorem longestFit_of_le {limit : Nat} {chunks : List (List UInt8)}
    (h : chunks.flatten.length ≤ limit) : longestFit limit chunks = chunks := by
  have hl := (prefix_longestFit (List.prefix_refl chunks) h).length_le
  exact (longestFit_prefix_self limit chunks).eq_of_length_le hl

theorem longestFit_append {limit : Nat} {chunks : List (List UInt8)}
    (h : limit < chunks.flatten.length) (more : List (List UInt8)) :
    longestFit limit (chunks ++ more) = longestFit limit chunks := by
  induction chunks generalizing limit with
  | nil => exact absurd h (Nat.not_lt_zero limit)
  | cons chunk rest ih =>
    rw [List.flatten_cons, List.length_append] at h
    rw [List.cons_append, longestFit, longestFit]
    by_cases hc : chunk.length ≤ limit
    · have hr : limit - chunk.length < rest.flatten.length := by omega
      rw [if_pos hc, if_pos hc, ih hr]
    · rw [if_neg hc, if_neg hc]

theorem longestFit_concat_of_lt {limit : Nat} {chunks : List (List UInt8)} {chunk : List UInt8}
    (hf : chunks.flatten.length ≤ limit) (hl : limit < chunks.flatten.length + chunk.length) :
    longestFit limit (chunks ++ [chunk]) = chunks := by
  induction chunks generalizing limit with
  | nil =>
    have hc : ¬ chunk.length ≤ limit := by simp at hl; omega
    simp [longestFit, hc]
  | cons c rest ih =>
    rw [List.flatten_cons, List.length_append] at hf hl
    have hc : c.length ≤ limit := by omega
    rw [List.cons_append, longestFit, if_pos hc, ih (by omega) (by omega)]

end LongestFit

namespace Buffer

structure Holds (limit : Nat) (chunks : List (List UInt8)) (b : Buffer) : Prop where
  limit_eq : b.limit = limit
  bytes : b.bytes = (longestFit limit chunks).flatten
  truncated : b.truncated = decide (limit < chunks.flatten.length)

theorem holds_empty (limit : Nat) : (empty limit).Holds limit [] := ⟨rfl, rfl, rfl⟩

variable {limit : Nat} {chunks : List (List UInt8)} {b : Buffer}

theorem Holds.close (h : b.Holds limit chunks) : b.close.Holds limit chunks :=
  ⟨h.limit_eq, h.bytes, h.truncated⟩

theorem Holds.bytes_prefix_flatten (h : b.Holds limit chunks) : b.bytes <+: chunks.flatten := by
  obtain ⟨rest, hr⟩ := longestFit_prefix_self limit chunks
  rw [h.bytes]
  conv => rhs; rw [← hr, List.flatten_append]
  exact List.prefix_append _ _

theorem Holds.fits_iff (h : b.Holds limit chunks) (chunk : List UInt8) :
    b.fits chunk ↔ (chunks ++ [chunk]).flatten.length ≤ limit := by
  simp only [fits, size, h.limit_eq, h.bytes, h.truncated, decide_eq_false_iff_not,
    List.flatten_append, List.flatten_singleton, List.length_append]
  constructor
  · intro hb
    have hc := hb.2
    have hl := hb.1
    rwa [longestFit_of_le (Nat.le_of_not_lt hl)] at hc
  · intro hl
    have hc : chunks.flatten.length ≤ limit := by omega
    rw [longestFit_of_le hc]
    exact ⟨by omega, hl⟩

theorem Holds.append (h : b.Holds limit chunks) (chunk : List UInt8) :
    (b.append chunk).1.Holds limit (chunks ++ [chunk]) := by
  have hi := h.fits_iff chunk
  by_cases hf : b.fits chunk
  · have hl := hi.mp hf
    have hc : chunks.flatten.length ≤ limit := by
      simp only [List.flatten_append, List.length_append] at hl
      omega
    rw [append_of_fits hf]
    constructor
    · exact h.limit_eq
    · rw [h.bytes, longestFit_of_le hl, longestFit_of_le hc, List.flatten_append,
        List.flatten_singleton]
    · rw [hf.1]
      exact (decide_eq_false (Nat.not_lt.mpr hl)).symm
  · have hl : limit < (chunks ++ [chunk]).flatten.length := by
      have hn := mt hi.mpr hf
      omega
    rw [append_of_not_fits hf]
    constructor
    · exact h.limit_eq
    · rw [h.bytes]
      by_cases hc : limit < chunks.flatten.length
      · rw [longestFit_append hc]
      · have hm := Nat.le_of_not_lt hc
        simp only [List.flatten_append, List.flatten_singleton, List.length_append] at hl
        rw [longestFit_concat_of_lt hm hl, longestFit_of_le hm]
    · exact (decide_eq_true hl).symm

end Buffer

end BodyCallout
