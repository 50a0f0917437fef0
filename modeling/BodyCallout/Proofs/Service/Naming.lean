import Mathlib.Data.List.Basic
import BodyCallout.Service.StreamKey

set_option autoImplicit false

namespace BodyCallout

namespace Decimal

theorem digits_injective : Function.Injective digits := by
  intro m n h
  have hm : Nat.ofDigitChars 10 (digits m) 0 = m :=
    Nat.ofDigitChars_toDigits (by decide) (by decide)
  have hn : Nat.ofDigitChars 10 (digits n) 0 = n :=
    Nat.ofDigitChars_toDigits (by decide) (by decide)
  rw [← hm, ← hn, h]

theorem not_mem_digits {c : Char} (h : c.isDigit = false) (n : Nat) : c ∉ digits n := by
  intro hc
  have hd : c.isDigit = true := Nat.isDigit_of_mem_toDigits (by decide) (by decide) hc
  rw [h] at hd
  cases hd

end Decimal

namespace StreamKey

open Decimal

def chars (k : StreamKey) : List Char :=
  "conn-".toList ++ (digits k.connection ++ '/' :: (digits k.stream.toNat ++ '.' ::
    digits k.generation))

theorem toList_text (k : StreamKey) : k.text.toList = k.chars := by
  simp [text, connectionName, Decimal.text, chars]

theorem text_injective : Function.Injective text := by
  intro j k h
  have hc := congrArg String.toList h
  rw [toList_text, toList_text, chars, chars, List.append_cancel_left_eq] at hc
  have hs (n m : Nat) : '/' ∉ digits n ++ '.' :: digits m := by
    simp [not_mem_digits (show '/'.isDigit = false from rfl)]
  have hd := not_mem_digits (show '.'.isDigit = false from rfl)
  obtain ⟨hn, -, hc⟩ := (List.append_cons_inj_of_notMem
    (not_mem_digits (show '/'.isDigit = false from rfl) _) (hs _ _)).mp hc
  obtain ⟨hm, -, hg⟩ := (List.append_cons_inj_of_notMem (hd _) (hd _)).mp hc
  cases j
  cases k
  simp_all only [mk.injEq]
  exact ⟨digits_injective hn, UInt64.toNat_inj.mp (digits_injective hm), digits_injective hg⟩

end StreamKey

end BodyCallout
