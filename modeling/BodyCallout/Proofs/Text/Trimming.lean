import Mathlib.Data.List.TakeWhile
import BodyCallout.Text.Blank

set_option autoImplicit false

namespace BodyCallout.Text

def Blank (text : List Char) : Prop := ∀ c ∈ text, isBlank c = true

/-- What is left of `value` without the white space at its ends. -/
structure Trims (value text : List Char) : Prop where
  around : ∃ before after, Blank before ∧ Blank after ∧ value = before ++ text ++ after
  first : ∀ c, text.head? = some c → isBlank c = false
  last : ∀ c, text.getLast? = some c → isBlank c = false

theorem dropWhile_blank_append {before : List Char} (h : Blank before) (text : List Char) :
    (before ++ text).dropWhile isBlank = text.dropWhile isBlank :=
  List.dropWhile_append_of_pos h

theorem head?_dropWhile_blank (text : List Char) {c : Char}
    (h : (text.dropWhile isBlank).head? = some c) : isBlank c = false := by
  have hn := List.head?_dropWhile_not isBlank text
  rw [h] at hn
  exact hn

theorem dropWhile_of_first {text : List Char} (h : ∀ c, text.head? = some c → isBlank c = false) :
    text.dropWhile isBlank = text := by
  cases text with
  | nil => rfl
  | cons c rest => rw [List.dropWhile_cons, h c rfl, if_neg Bool.false_ne_true]

theorem trim_append_of_blank {before after : List Char} (hb : Blank before) (ha : Blank after)
    (text : List Char) : trim (before ++ text ++ after) = trim text := by
  have hr : Blank after.reverse := fun c hc => ha c (List.mem_reverse.mp hc)
  rw [trim, trim, List.append_assoc, dropWhile_blank_append hb, List.dropWhile_append]
  split
  · next he =>
    -- Nothing but white space: then there is none of it left at either end.
    rw [List.isEmpty_iff.mp he, List.dropWhile_eq_nil_iff.mpr ha]
  · rw [List.reverse_append, dropWhile_blank_append hr]

theorem trim_of_bare {text : List Char} (hf : ∀ c, text.head? = some c → isBlank c = false)
    (hl : ∀ c, text.getLast? = some c → isBlank c = false) : trim text = text := by
  have hr : text.reverse.dropWhile isBlank = text.reverse :=
    dropWhile_of_first fun c hc => hl c (by rwa [List.head?_reverse] at hc)
  rw [trim, dropWhile_of_first hf, hr, List.reverse_reverse]

theorem trims_trim (value : List Char) : Trims value (trim value) := by
  have hv := List.takeWhile_append_dropWhile (p := isBlank) (l := value)
  have hr := List.takeWhile_append_dropWhile (p := isBlank)
    (l := (value.dropWhile isBlank).reverse)
  have ht : trim value ++ ((value.dropWhile isBlank).reverse.takeWhile isBlank).reverse =
      value.dropWhile isBlank := by
    rw [trim, ← List.reverse_append, hr, List.reverse_reverse]
  constructor
  · refine ⟨value.takeWhile isBlank, ((value.dropWhile isBlank).reverse.takeWhile isBlank).reverse,
      ?_, ?_, ?_⟩
    · intro c hc
      exact List.mem_takeWhile_imp hc
    · intro c hc
      exact List.mem_takeWhile_imp (List.mem_reverse.mp hc)
    · rw [List.append_assoc, ht, hv]
  · intro c hc
    apply head?_dropWhile_blank value
    rw [← ht, List.head?_append, hc]
    rfl
  · intro c hc
    rw [trim, List.getLast?_reverse] at hc
    exact head?_dropWhile_blank _ hc

theorem trims_iff {value text : List Char} : Trims value text ↔ trim value = text := by
  constructor
  · intro h
    obtain ⟨before, after, hb, ha, rfl⟩ := h.around
    rw [trim_append_of_blank hb ha, trim_of_bare h.first h.last]
  · rintro rfl
    exact trims_trim value

end BodyCallout.Text
