import BodyCallout.Json.Writer
import BodyCallout.Proofs.Json.Spelling
import BodyCallout.Toml.Document

/-!
Lines of TOML as they are written: a header or an entry to a line, a key bare where it can be and
quoted where not. What is written is read, whatever comes after it.
-/

set_option autoImplicit false

namespace BodyCallout

namespace Scan

variable {α : Type} {scan : Scan α}

/-- Things are taken off the text one after the other, each with a character at least, until no more
can be taken. -/
inductive Runs (scan : Scan α) : List Char → List α → List Char → Prop where
  | stop {text : List Char} (none : scan text = none) : Runs scan text [] text
  | step {text middle rest : List Char} {a : α} {as : List α} (one : scan text = some (a, middle))
      (shorter : middle.length < text.length) (more : Runs scan middle as rest) :
      Runs scan text (a :: as) rest

theorem Runs.manyUpTo {text rest : List Char} {as : List α} (h : Runs scan text as rest)
    {fuel : Nat} (hf : text.length ≤ fuel) : manyUpTo scan fuel text = (as, rest) := by
  induction h generalizing fuel with
  | stop none =>
    cases fuel with
    | zero => rfl
    | succ fuel => rw [Scan.manyUpTo, none]
  | step one shorter _ ih =>
    cases fuel with
    | zero => omega
    | succ fuel =>
      have hs := ih (Nat.le_of_lt_succ (Nat.lt_of_lt_of_le shorter hf))
      rw [Scan.manyUpTo, one]
      simp only [hs]

theorem Runs.many {text rest : List Char} {as : List α} (h : Runs scan text as rest) :
    many scan text = (as, rest) := h.manyUpTo (Nat.le_refl _)

theorem Runs.piece {part text rest : List Char} {a : α} {as : List α} (hp : part ≠ [])
    (one : scan (part ++ text) = some (a, text)) (more : Runs scan text as rest) :
    Runs scan (part ++ text) (a :: as) rest := by
  refine .step one ?_ more
  have hl := List.length_pos_iff.mpr hp
  rw [List.length_append]
  omega

theorem mark_cons_self (c : Char) (rest : List Char) : mark c (c :: rest) = some ((), rest) :=
  if_pos rfl

theorem mark_cons_of_ne {c d : Char} (h : d ≠ c) (rest : List Char) : mark c (d :: rest) = none :=
  if_neg h

theorem separated_one {c : Char} {text rest : List Char} {a : α} (h : scan text = some (a, rest))
    (hn : mark c rest = none) : separated c scan text = some ([a], rest) := by
  have hm (next : Unit × List Char → Option (α × List Char)) :
      many (fun text => (mark c text).bind next) rest = ([], rest) :=
    (Runs.stop (by simp only [hn, Option.bind_none])).many
  simp only [separated, h, Option.bind_eq_bind, Option.bind_some, hm]

end Scan

namespace Toml

open Scan

def escape (c : Char) : List Char :=
  if isPlain c && c ≠ '"' && c ≠ '\\' then [c]
  else ['\\', 'u', '0', '0', Json.hexDigit (c.toNat / 16), Json.hexDigit c.toNat]

def quoteText (s : String) : List Char := '"' :: s.toList.flatMap escape ++ ['"']

theorem digit?_hexDigit (n : Nat) : digit? 16 (Json.hexDigit n) = some (n % 16) := by
  have hall : ∀ m < 16, digit? 16 (Nat.digitChar m) = some m := by decide
  exact hall _ (Nat.mod_lt n (by decide))

theorem toNat_lt_of_not_plain {c : Char} (h : (isPlain c && c ≠ '"' && c ≠ '\\') = false) :
    c.toNat < 256 := by
  rcases Nat.lt_or_ge c.toNat 256 with hc | hc
  · exact hc
  · have hp : isPlain c = true := by
      simp only [isPlain, Bool.or_eq_true, Bool.and_eq_true, decide_eq_true_eq]
      omega
    have hq : c ≠ '"' := by rintro rfl; exact absurd hc (by decide)
    have hb : c ≠ '\\' := by rintro rfl; exact absurd hc (by decide)
    simp [hp, hq, hb] at h

theorem hexChar_of_lt {c : Char} (h : c.toNat < 256) (rest : List Char) :
    hexChar 4 ('0' :: '0' :: Json.hexDigit (c.toNat / 16) :: Json.hexDigit c.toNat :: rest) =
      some (c, rest) := by
  have hz : digit? 16 '0' = some 0 := by decide
  have hn : ((0 * 16 + 0) * 16 + c.toNat / 16 % 16) * 16 + c.toNat % 16 = c.toNat := by omega
  simp only [hexChar, List.take_succ_cons, List.take_zero, List.filterMap_cons,
    List.filterMap_nil, hz, digit?_hexDigit, ofDigits, List.foldl_cons, List.foldl_nil,
    Nat.zero_mul, Nat.zero_add, List.length_cons, List.length_nil, List.drop_succ_cons,
    List.drop_zero] at hn ⊢
  rw [hn, if_pos ⟨trivial, c.valid⟩, Char.ofNat_toNat]

theorem basicPiece_escape (c : Char) (rest : List Char) :
    basicPiece (escape c ++ rest) = some ([c], rest) := by
  unfold escape
  split
  · next h =>
    simp only [Bool.and_eq_true, decide_eq_true_eq] at h
    have hp : plainPiece '"' (c :: rest) = some ([c], rest) := by simp [plainPiece, h]
    rw [List.singleton_append, ← hp]
    unfold basicPiece
    split
    · next he => exact absurd (List.cons_eq_cons.mp he).1 h.2
    · rfl
  · next h =>
    have hc := toNat_lt_of_not_plain (Bool.not_eq_true _ ▸ h)
    change Option.map _ (hexChar 4 ('0' :: '0' :: _ :: _ :: rest)) = _
    rw [hexChar_of_lt hc]
    rfl

theorem escape_ne_nil (c : Char) : escape c ≠ [] := by
  unfold escape
  split <;> exact List.cons_ne_nil _ _

theorem runs_basicPiece (cs rest : List Char) :
    Runs basicPiece (cs.flatMap escape ++ '"' :: rest) (cs.map ([·])) ('"' :: rest) := by
  induction cs with
  | nil => exact .stop rfl
  | cons c cs ih =>
    have hs : (c :: cs).flatMap escape ++ '"' :: rest =
        escape c ++ (cs.flatMap escape ++ '"' :: rest) := by simp
    rw [hs]
    exact .piece (escape_ne_nil c) (basicPiece_escape c _) ih

theorem quoted_of_ne {quote c : Char} (h : c ≠ quote) (piece : Scan (List Char))
    (rest : List Char) : quoted quote piece (c :: rest) = none := by
  rw [quoted, mark_cons_of_ne h]
  rfl

theorem quoteText_append (s : String) (rest : List Char) :
    quoteText s ++ rest = '"' :: (s.toList.flatMap escape ++ '"' :: rest) := by
  simp [quoteText]

theorem basic_quoteText (s : String) (rest : List Char) :
    basic (quoteText s ++ rest) = some (s.toList, rest) := by
  rw [quoteText_append, basic, quoted]
  simp only [mark_cons_self, Option.bind_eq_bind, Option.bind_some, (runs_basicPiece _ _).many]
  rw [← List.flatMap_def, List.flatMap_singleton']

def keyText (key : String) : List Char :=
  if !key.toList.isEmpty && key.toList.all isBare then key.toList else quoteText key

theorem skipSpace_of_not {c : Char} (h : isSpace c = false) (rest : List Char) :
    skipSpace (c :: rest) = c :: rest := by
  simp [skipSpace, h]

def opensKey (c : Char) : Bool := c = '"' || isBare c

theorem isSpace_of_opensKey {c : Char} (h : opensKey c = true) : isSpace c = false := by
  refine Bool.eq_false_iff.mpr fun hs => ?_
  simp only [isSpace, Bool.or_eq_true, decide_eq_true_eq] at hs
  rcases hs with rfl | rfl <;> exact absurd h (by decide)

theorem keyText_eq_cons (key : String) :
    ∃ c rest, keyText key = c :: rest ∧ opensKey c = true := by
  unfold keyText
  split
  · next h =>
    rw [Bool.and_eq_true, Bool.not_eq_true'] at h
    obtain ⟨he, hb⟩ := h
    cases hk : key.toList with
    | nil => rw [hk] at he; cases he
    | cons c rest =>
      rw [hk, List.all_cons, Bool.and_eq_true] at hb
      exact ⟨c, rest, rfl, by simp [opensKey, hb.1]⟩
  · exact ⟨'"', _, rfl, rfl⟩

theorem skipSpace_keyText (key : String) (rest : List Char) :
    skipSpace (keyText key ++ rest) = keyText key ++ rest := by
  obtain ⟨c, more, hk, hc⟩ := keyText_eq_cons key
  rw [hk, List.cons_append]
  exact skipSpace_of_not (isSpace_of_opensKey hc) _

section

variable {rest : List Char}

theorem bareKey_append {key : List Char} (hk : key ≠ []) (hb : ∀ c ∈ key, isBare c = true)
    (hr : ∀ c ∈ rest.head?, isBare c = false) : bareKey (key ++ rest) = some (key, rest) := by
  have ht : rest.takeWhile isBare = [] ∧ rest.dropWhile isBare = rest := by
    cases rest with
    | nil => exact ⟨rfl, rfl⟩
    | cons c rest => simp [hr c rfl]
  rw [bareKey, List.takeWhile_append_of_pos hb, List.dropWhile_append_of_pos hb, ht.1, ht.2,
    List.append_nil]
  simp [hk]

theorem simpleKey_keyText (key : String) (hr : ∀ c ∈ rest.head?, isBare c = false) :
    simpleKey (keyText key ++ rest) = some (key, skipSpace rest) := by
  rw [simpleKey, skipSpace_keyText]
  unfold keyText
  split
  · next h =>
    simp only [Bool.and_eq_true, Bool.not_eq_true', List.isEmpty_eq_false_iff,
      List.all_eq_true] at h
    obtain ⟨c, more, hk⟩ := List.exists_cons_of_ne_nil h.1
    have hc : isBare c = true := h.2 c (by rw [hk]; exact .head _)
    have hne {quote : Char} (hq : isBare quote = false) : c ≠ quote := by
      rintro rfl
      exact Bool.noConfusion (hc.symm.trans hq)
    have hb : basic (key.toList ++ rest) = none := by
      rw [hk]
      exact quoted_of_ne (hne rfl) basicPiece _
    have hl : literal (key.toList ++ rest) = none := by
      rw [hk]
      exact quoted_of_ne (hne rfl) (plainPiece _) _
    rw [hb, hl, Option.none_or, Option.none_or, bareKey_append h.1 h.2 hr]
    simp
  · rw [basic_quoteText]
    simp

theorem dottedKey_keyText (key : String) (hr : ∀ c ∈ rest.head?, isBare c = false)
    (hd : mark '.' (skipSpace rest) = none) :
    dottedKey (keyText key ++ rest) = some (([], key), skipSpace rest) := by
  rw [dottedKey, separated_one (simpleKey_keyText key hr) hd]
  rfl

end

/-- The text stands for the value in a line, whatever is on the lines after it. -/
def Stands (text : List Char) (n : Node) : Prop :=
  ∀ rest, value maxDepth (skipSpace (text ++ '\n' :: rest)) = some (n, '\n' :: rest)

def headerText (name : String) : List Char := '[' :: keyText name ++ [']', '\n']

def entryText (key : String) (text : List Char) : List Char :=
  keyText key ++ [' ', '=', ' '] ++ text ++ ['\n']

theorem line_headerText (name : String) (rest : List Char) :
    line (headerText name ++ rest) = some (.header false [] name, rest) := by
  have hs : headerText name ++ rest = '[' :: (keyText name ++ ']' :: '\n' :: rest) := by
    simp [headerText]
  have hd : dottedKey (keyText name ++ ']' :: '\n' :: rest) =
      some (([], name), ']' :: '\n' :: rest) :=
    dottedKey_keyText name (by simp; decide) rfl
  have hl : headerLine false [']'] (keyText name ++ ']' :: '\n' :: rest) =
      some (.header false [] name, rest) := by
    simp only [headerLine, hd, Option.bind_eq_bind, Option.bind_some]
    rfl
  rw [hs, line, skipSpace_of_not rfl, ← hl]
  obtain ⟨c, more, hk, hc⟩ := keyText_eq_cons name
  rw [hk, List.cons_append]
  split
  · next he => cases he
  · next he =>
    obtain ⟨rfl, -⟩ := List.cons_eq_cons.mp (List.cons_eq_cons.mp he).2
    exact absurd hc (by decide)
  · next he => rw [(List.cons_eq_cons.mp he).2]
  · next hn he => exact absurd (List.cons_eq_cons.mp he).1.symm hn

theorem line_entryText (key : String) {text : List Char} {n : Node} (h : Stands text n)
    (rest : List Char) :
    line (entryText key text ++ rest) = some (.entry ⟨[], key, n⟩, rest) := by
  have hs : entryText key text ++ rest =
      keyText key ++ ' ' :: '=' :: ' ' :: (text ++ '\n' :: rest) := by simp [entryText]
  have hd : dottedKey (keyText key ++ ' ' :: '=' :: ' ' :: (text ++ '\n' :: rest)) =
      some (([], key), '=' :: ' ' :: (text ++ '\n' :: rest)) :=
    dottedKey_keyText key (by simp; decide) rfl
  have hv : value maxDepth (skipSpace (' ' :: (text ++ '\n' :: rest))) = some (n, '\n' :: rest) :=
    h rest
  have he : entryLine (entryText key text ++ rest) = some (.entry ⟨[], key, n⟩, rest) := by
    rw [hs]
    simp only [entryLine, entry, hd, hv, mark_cons_self, Option.bind_eq_bind, Option.bind_some]
    rfl
  rw [← he, hs, line, skipSpace_keyText]
  obtain ⟨c, more, hk, hc⟩ := keyText_eq_cons key
  rw [hk, List.cons_append]
  split
  · next he => cases he
  · next he =>
    obtain ⟨rfl, -⟩ := List.cons_eq_cons.mp he
    exact absurd hc (by decide)
  · next he =>
    obtain ⟨rfl, -⟩ := List.cons_eq_cons.mp he
    exact absurd hc (by decide)
  · next he =>
    obtain ⟨rfl, rfl⟩ := List.cons_eq_cons.mp he
    rw [if_neg]
    rintro (rfl | rfl | rfl) <;> exact absurd hc (by decide)

theorem value_of_first {c : Char} {rest : List Char}
    (hc : c ∉ ['[', '\x7b', '"', '\'']) (depth : Nat) :
    value (depth + 1) (c :: rest) = (number (c :: rest)).or (word (c :: rest)) := by
  simp only [List.mem_cons, List.not_mem_nil, or_false, not_or] at hc
  obtain ⟨ha, hb, hq, hl⟩ := hc
  have hs : string (c :: rest) = none := by
    simp [string, multilineBasic, multilineLiteral, multiline, basic, literal, quoted_of_ne hq,
      quoted_of_ne hl, marks, List.replicate, mark_cons_of_ne hq, mark_cons_of_ne hl]
  simp [value, array, braced, scalar, mark_cons_of_ne ha, mark_cons_of_ne hb, hs]

/-- A text at the end of its line never begins with three quotes, not even an empty one. -/
theorem marks_quoteText (s : String) (rest : List Char) :
    marks (List.replicate 3 '"') (quoteText s ++ '\n' :: rest) = none := by
  rw [quoteText_append]
  change marks ['"', '"'] _ = none
  cases s.toList with
  | nil => exact (rfl : marks ['"', '"'] ('"' :: '\n' :: rest) = none)
  | cons c cs =>
    rw [List.flatMap_cons, List.append_assoc]
    unfold escape
    split
    · next h =>
      simp only [Bool.and_eq_true, decide_eq_true_eq] at h
      rw [List.singleton_append, marks, mark_cons_of_ne h.1.2]
      rfl
    · rfl

theorem stands_text (s : String) : Stands (quoteText s) (.text s) := by
  intro rest
  have hs : string (quoteText s ++ '\n' :: rest) = some (s.toList, '\n' :: rest) := by
    have hb : multilineBasic (quoteText s ++ '\n' :: rest) = none := by
      simp only [multilineBasic, multiline, marks_quoteText]
      rfl
    rw [string, hb, basic_quoteText]
    rfl
  have hq : skipSpace (quoteText s ++ '\n' :: rest) = quoteText s ++ '\n' :: rest :=
    skipSpace_of_not rfl _
  have hv : value maxDepth (quoteText s ++ '\n' :: rest) =
      scalar (quoteText s ++ '\n' :: rest) := by
    rw [quoteText_append]
    rfl
  rw [hq, hv, scalar, hs]
  simp

theorem stands_boolean (b : Bool) : Stands (Json.writeBoolean b) (.boolean b) := by
  intro rest
  cases b <;> rfl

/-! Numbers are read to the end of their digits, and are no moment. -/

section

variable {ds rest : List Char}

theorem digit?_of_isDigit {c : Char} (h : c.isDigit = true) :
    digit? 10 c = some (c.toNat - 0x30) := by
  simp only [Char.isDigit, Bool.and_eq_true, decide_eq_true_eq, UInt32.le_iff_toNat_le] at h
  change 48 ≤ c.toNat ∧ c.toNat ≤ 57 at h
  simp only [digit?, h, and_self, if_true]
  rw [if_pos (by omega)]

theorem digit?_newline : digit? 10 '\n' = none := rfl

theorem field_digits {count low high n : Nat} {left : List Char}
    (h : field count low high (ds ++ '\n' :: rest) = some (n, left)) :
    left = ds.drop count ++ '\n' :: rest := by
  simp only [field] at h
  split at h
  · next hc =>
    have hl : ((ds ++ '\n' :: rest).take count).length ≤ count := List.length_take_le _ _
    have hs := List.length_filterMap_le (digit? 10) ((ds ++ '\n' :: rest).take count)
    have he : (((ds ++ '\n' :: rest).take count).filterMap (digit? 10)).length =
        ((ds ++ '\n' :: rest).take count).length := Nat.le_antisymm hs (by rw [hc.1]; exact hl)
    have ha := List.filterMap_length_eq_length.mp he
    -- It takes digits only, and so it stops before the line does.
    have hd : count ≤ ds.length := by
      refine Nat.le_of_not_lt fun hlt => ?_
      have hm : '\n' ∈ (ds ++ '\n' :: rest).take count := by
        rw [List.take_append, List.take_of_length_le (Nat.le_of_lt hlt)]
        obtain ⟨k, hk⟩ := Nat.exists_eq_succ_of_ne_zero (Nat.sub_ne_zero_of_lt hlt)
        rw [hk]
        simp
      have hn := ha _ hm
      rw [digit?_newline] at hn
      cases hn
    obtain ⟨-, rfl⟩ := Prod.mk.inj (Option.some.inj h)
    exact List.drop_append_of_le_length hd
  · cases h

theorem mark_digits {c : Char} (hd : ∀ d ∈ ds, d.isDigit = true) (hc : c.isDigit = false)
    (hn : '\n' ≠ c) : mark c (ds ++ '\n' :: rest) = none := by
  cases ds with
  | nil => exact mark_cons_of_ne hn rest
  | cons d ds =>
    refine mark_cons_of_ne ?_ _
    rintro rfl
    exact Bool.noConfusion ((hd _ (.head _)).symm.trans hc)

theorem mark_of_field {count low high n : Nat} {left : List Char} {c : Char}
    (hd : ∀ d ∈ ds, d.isDigit = true) (hc : c.isDigit = false) (hn : '\n' ≠ c)
    (h : field count low high (ds ++ '\n' :: rest) = some (n, left)) : mark c left = none := by
  rw [field_digits h]
  exact mark_digits (fun d hm => hd d (List.mem_of_mem_drop hm)) hc hn

theorem moment_digits (hd : ∀ d ∈ ds, d.isDigit = true) : moment (ds ++ '\n' :: rest) = none := by
  have hdate : date (ds ++ '\n' :: rest) = none := by
    unfold date
    cases hf : field 4 0 9999 (ds ++ '\n' :: rest) with
    | none => rfl
    | some r =>
      simp only [Option.bind_eq_bind, Option.bind_some,
        mark_of_field (c := '-') hd rfl (by decide) hf, Option.bind_none]
  have hclock : hourMinute (ds ++ '\n' :: rest) = none := by
    unfold hourMinute
    cases hf : field 2 0 23 (ds ++ '\n' :: rest) with
    | none => rfl
    | some r =>
      simp only [Option.bind_eq_bind, Option.bind_some,
        mark_of_field (c := ':') hd rfl (by decide) hf, Option.bind_none]
  have htime : time (ds ++ '\n' :: rest) = none := by
    simp only [time, hclock, Option.bind_eq_bind, Option.bind_none]
  simp only [moment, hdate, htime, Option.map_none, Option.none_or]

def spaced (base : Nat) : Scan Nat := fun text =>
  match text with
  | '_' :: rest => digit base rest
  | _ => digit base text

theorem spaced_of_isDigit {c : Char} (h : c.isDigit = true) (rest : List Char) :
    spaced 10 (c :: rest) = some (c.toNat - 0x30, rest) := by
  unfold spaced
  split
  · next he =>
    obtain ⟨rfl, -⟩ := List.cons_eq_cons.mp he
    exact absurd h (by decide)
  · rw [digit, digit?_of_isDigit h]
    rfl

theorem runs_spaced (hd : ∀ d ∈ ds, d.isDigit = true) :
    Runs (spaced 10) (ds ++ '\n' :: rest) (ds.map fun c => c.toNat - 0x30) ('\n' :: rest) := by
  induction ds with
  | nil => exact .stop rfl
  | cons c ds ih =>
    exact .step (spaced_of_isDigit (hd c (.head _)) _) (Nat.lt_succ_self _)
      (ih fun d hm => hd d (.tail c hm))

theorem digitRun_digits {c : Char} (hc : c.isDigit = true) (hd : ∀ d ∈ ds, d.isDigit = true) :
    digitRun 10 (c :: ds ++ '\n' :: rest) =
      some ((c :: ds).map fun c => c.toNat - 0x30, '\n' :: rest) := by
  have hf : digit 10 (c :: (ds ++ '\n' :: rest)) =
      some (c.toNat - 0x30, ds ++ '\n' :: rest) := by
    rw [digit, digit?_of_isDigit hc]
    rfl
  have hm : many (spaced 10) (ds ++ '\n' :: rest) = _ := (runs_spaced hd).many
  rw [List.cons_append, digitRun, hf]
  exact congrArg (fun r => some ((c.toNat - 0x30) :: r.1, r.2)) hm

end

theorem digits_eq_cons (n : Nat) :
    ∃ c ds, Decimal.digits n = c :: ds ∧ (∀ d ∈ c :: ds, d.isDigit = true) ∧
      (c = '0' → ds = []) := by
  have hd : ∀ d ∈ Decimal.digits n, d.isDigit = true :=
    fun _ hm => Nat.isDigit_of_mem_toDigits (by decide) (by decide) hm
  suffices hs : ∃ c ds, Decimal.digits n = c :: ds ∧ (c = '0' → n = 0 ∧ ds = []) by
    obtain ⟨c, ds, hc, hz⟩ := hs
    exact ⟨c, ds, hc, hc ▸ hd, fun h => (hz h).2⟩
  clear hd
  induction n using Nat.strongRecOn with
  | _ n ih =>
    by_cases h : n < 10
    · have hall : ∀ m < 10, Nat.digitChar m = '0' → m = 0 := by decide
      exact ⟨_, [], Json.digits_of_lt h, fun hz => ⟨hall n h hz, rfl⟩⟩
    · obtain ⟨c, ds, hc, hz⟩ := ih (n / 10) (by omega)
      refine ⟨c, ds ++ [Nat.digitChar (n % 10)], ?_, fun h0 => ?_⟩
      · rw [Json.digits_of_le (Nat.le_of_not_lt h), hc, List.cons_append]
      · have hn := (hz h0).1
        omega

theorem wholeDigits_digits (n : Nat) (rest : List Char) :
    wholeDigits (Decimal.digits n ++ '\n' :: rest) = some (Json.places n, '\n' :: rest) := by
  obtain ⟨c, ds, hc, hd, hz⟩ := digits_eq_cons n
  rw [Json.places, hc]
  by_cases h0 : c = '0'
  · obtain rfl := hz h0
    rw [h0]
    rfl
  · rw [← digitRun_digits (hd c (.head _)) fun d hm => hd d (.tail c hm)]
    unfold wholeDigits
    split
    · next he => exact absurd (List.cons_eq_cons.mp he).1 h0
    · rfl

theorem decimal_digits {n : Nat} (h : n < integerLimit) (rest : List Char) :
    decimal (Decimal.digits n ++ '\n' :: rest) = some (.integer n, '\n' :: rest) := by
  have hs : sign (Decimal.digits n ++ '\n' :: rest) =
      (false, Decimal.digits n ++ '\n' :: rest) := by
    obtain ⟨c, ds, hc, hd, -⟩ := digits_eq_cons n
    have hc' := hd c (.head _)
    rw [hc]
    unfold sign
    split
    · next he => exact absurd ((List.cons_eq_cons.mp he).1 ▸ hc') (by decide)
    · next he => exact absurd ((List.cons_eq_cons.mp he).1 ▸ hc') (by decide)
    · rfl
  have hf : fraction ('\n' :: rest) = some (none, '\n' :: rest) := rfl
  have he : exponent ('\n' :: rest) = some (none, '\n' :: rest) := rfl
  simp only [decimal, hs, wholeDigits_digits, hf, he, Option.bind_eq_bind, Option.bind_some,
    Json.ofDigits_places, Option.isNone_none, and_self, if_true, Bool.false_eq_true, if_false, h]

theorem number_digits {n : Nat} (h : n < integerLimit) (rest : List Char) :
    number (Decimal.digits n ++ '\n' :: rest) = some (.integer n, '\n' :: rest) := by
  obtain ⟨c, ds, hc, hd, hz⟩ := digits_eq_cons n
  have hp {m : Char} {text : List Char} (he : Decimal.digits n ++ '\n' :: rest = '0' :: m :: text) :
      m = '\n' := by
    rw [hc, List.cons_append, List.cons_eq_cons] at he
    rw [hz he.1, List.nil_append, List.cons_eq_cons] at he
    exact he.2.1.symm
  unfold number
  rw [moment_digits (hc ▸ hd), Option.none_or]
  split
  · next he => exact absurd (hp he) (by decide)
  · next he => exact absurd (hp he) (by decide)
  · next he => exact absurd (hp he) (by decide)
  · rw [decimal_digits h, Option.some_or]

theorem stands_natural {n : Nat} (h : n < integerLimit) :
    Stands (Decimal.digits n) (.integer n) := by
  intro rest
  obtain ⟨c, ds, hc, hd, -⟩ := digits_eq_cons n
  have hc' := hd c (.head _)
  have hs : isSpace c = false :=
    isSpace_of_opensKey (by simp [opensKey, isBare, Char.isAlphanum, hc'])
  have hf : c ∉ ['[', '\x7b', '"', '\''] := by
    simp only [List.mem_cons, List.not_mem_nil, or_false, not_or]
    refine ⟨?_, ?_, ?_, ?_⟩ <;> rintro rfl <;> exact absurd hc' (by decide)
  have hn := number_digits h rest
  rw [hc, List.cons_append] at hn
  rw [hc, List.cons_append, skipSpace_of_not hs, maxDepth, value_of_first hf, hn, Option.some_or]

end Toml

end BodyCallout
