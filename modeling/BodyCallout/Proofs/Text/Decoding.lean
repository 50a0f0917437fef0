import BodyCallout.Proofs.Text.Encoding

set_option autoImplicit false

namespace BodyCallout.Utf8

structure Owed.Sound (o : Owed) : Prop where
  low : 0x80 ≤ o.low
  high : o.high ≤ 0xBF
  beyond : match o.later with
    | 0 => Beyond (o.bits * 64 + (o.low - 0x80)) (o.bits * 64 + (o.high - 0x80))
    | 1 => Beyond ((o.bits * 64 + (o.low - 0x80)) * 64) ((o.bits * 64 + (o.high - 0x80)) * 64 + 63)
    | 2 => Beyond ((o.bits * 64 + (o.low - 0x80)) * 4096)
        ((o.bits * 64 + (o.high - 0x80)) * 4096 + 4095)
    | _ => False

theorem sound_two {n : Nat} (hl : 2 ≤ n) (hh : n < 32) : Owed.Sound ⟨0, 0x80, 0xBF, n⟩ where
  low := Nat.le_refl _
  high := Nat.le_refl _
  beyond := by simp only [Beyond]; omega

theorem sound_three {n : Nat} (hh : n < 16) :
    Owed.Sound ⟨1, if n = 0 then 0xA0 else 0x80, if n = 13 then 0x9F else 0xBF, n⟩ where
  low := by dsimp only; split <;> omega
  high := by dsimp only; split <;> omega
  beyond := by simp only [Beyond]; split <;> split <;> omega

theorem sound_four {n : Nat} (hh : n < 5) :
    Owed.Sound ⟨2, if n = 0 then 0x90 else 0x80, if n = 4 then 0x8F else 0xBF, n⟩ where
  low := by dsimp only; split <;> omega
  high := by dsimp only; split <;> omega
  beyond := by simp only [Beyond]; split <;> split <;> omega

inductive Leads (b : UInt8) : Prop where
  | plain (hb : b.toNat < 0x80)
      (h : ∀ read, Scan.step ⟨read, none⟩ b = ⟨some (Char.ofNat b.toNat) :: read, none⟩)
  | stray (hb : 0x80 ≤ b.toNat) (h : ∀ read, Scan.step ⟨read, none⟩ b = ⟨none :: read, none⟩)
  | opens (o : Owed) (hb : 0x80 ≤ b.toNat) (ho : o.Sound)
      (h : ∀ read, Scan.step ⟨read, none⟩ b = ⟨read, some o⟩)

theorem leads (b : UInt8) : Leads b := by
  have hs (read : List (Option Char)) : Scan.step ⟨read, none⟩ b = lead read b.toNat := rfl
  by_cases h1 : b.toNat < 0x80
  · exact .plain h1 fun read => by rw [hs, lead, if_pos h1]
  by_cases h2 : b.toNat < 0xC2
  · exact .stray (by omega) fun read => by rw [hs, lead, if_neg h1, if_pos h2]
  by_cases h3 : b.toNat < 0xE0
  · obtain ⟨n, hn⟩ : ∃ n, b.toNat = n + 192 := ⟨b.toNat - 192, by omega⟩
    have ho := sound_two (n := n) (by omega) (by omega)
    exact .opens _ (by omega) ho fun read => by
      rw [hs, hn, lead_two read (by omega) (by omega)]
  by_cases h4 : b.toNat < 0xF0
  · obtain ⟨n, hn⟩ : ∃ n, b.toNat = n + 224 := ⟨b.toNat - 224, by omega⟩
    have ho := sound_three (n := n) (by omega)
    exact .opens _ (by omega) ho fun read => by rw [hs, hn, lead_three read (by omega)]
  by_cases h5 : b.toNat < 0xF5
  · obtain ⟨n, hn⟩ : ∃ n, b.toNat = n + 240 := ⟨b.toNat - 240, by omega⟩
    have ho := sound_four (n := n) (by omega)
    exact .opens _ (by omega) ho fun read => by rw [hs, hn, lead_four read (by omega)]
  · refine .stray (by omega) fun read => ?_
    rw [hs, lead, if_neg h1, if_neg h2, if_neg h3, if_neg h4, if_neg h5]

inductive Follows (o : Owed) (b : UInt8) : Prop where
  | ends (c : Char) (hb : 0x80 ≤ b.toNat) (hc : 0x80 ≤ c.toNat)
      (h : ∀ read, Scan.step ⟨read, some o⟩ b = ⟨some c :: read, none⟩)
  | goes (next : Owed) (hb : 0x80 ≤ b.toNat) (ho : next.Sound)
      (h : ∀ read, Scan.step ⟨read, some o⟩ b = ⟨read, some next⟩)
  | breaks (h : ∀ read, Scan.step ⟨read, some o⟩ b = Scan.step ⟨none :: read, none⟩ b)

theorem step_within {o : Owed} {b : UInt8} (hb : o.low ≤ b.toNat ∧ b.toNat ≤ o.high)
    (read : List (Option Char)) :
    Scan.step ⟨read, some o⟩ b =
      match o.later with
      | 0 => ⟨some (Char.ofNat (o.bits * 64 + (b.toNat - 0x80))) :: read, none⟩
      | later + 1 => ⟨read, some ⟨later, 0x80, 0xBF, o.bits * 64 + (b.toNat - 0x80)⟩⟩ := by
  refine (if_pos hb).trans ?_
  cases o.later <;> rfl

theorem Owed.Sound.follows {o : Owed} (ho : o.Sound) (b : UInt8) : Follows o b := by
  have hl := ho.low
  have hh := ho.high
  have hn := ho.beyond
  by_cases hb : o.low ≤ b.toNat ∧ b.toNat ≤ o.high
  · have hs := step_within hb
    obtain ⟨later, low, high, bits⟩ := o
    dsimp only at hl hh hb
    rcases later with _ | _ | _ | later
    · refine .ends _ (by omega) (toNat_ofNat_of_beyond hn ?_ ?_) hs <;> dsimp only <;> omega
    · refine .goes _ (by omega) ⟨Nat.le_refl _, Nat.le_refl _, ?_⟩ hs
      simp only [Beyond] at hn ⊢
      omega
    · refine .goes _ (by omega) ⟨Nat.le_refl _, Nat.le_refl _, ?_⟩ hs
      simp only [Beyond] at hn ⊢
      omega
    · exact hn.elim
  · exact .breaks fun read => by simp only [Scan.step, hb, if_false]

def readFrom (owed : Option Owed) (bytes : List UInt8) : List (Option Char) :=
  (bytes.foldl Scan.step ⟨[], owed⟩).finish

def Owing (owed : Option Owed) : Prop := ∀ o, owed = some o → o.Sound

theorem owing_none : Owing none := nofun

theorem Owed.Sound.owing {o : Owed} (ho : o.Sound) : Owing (some o) := by
  rintro _ ⟨⟩
  exact ho

theorem step_eq_of_none (b : UInt8) :
    ∃ more next, Owing next ∧ ∀ read, Scan.step ⟨read, none⟩ b = ⟨more ++ read, next⟩ := by
  cases leads b with
  | plain _ h => exact ⟨[_], none, owing_none, h⟩
  | stray _ h => exact ⟨[_], none, owing_none, h⟩
  | opens o _ ho h => exact ⟨[], some o, ho.owing, h⟩

/-- What was read before stays, and makes no difference to what is read next. -/
theorem step_eq {owed : Option Owed} (ho : Owing owed) (b : UInt8) :
    ∃ more next, Owing next ∧ ∀ read, Scan.step ⟨read, owed⟩ b = ⟨more ++ read, next⟩ := by
  cases owed with
  | none => exact step_eq_of_none b
  | some o =>
    cases (ho o rfl).follows b with
    | ends c _ _ h => exact ⟨[_], none, owing_none, h⟩
    | goes next _ ho h => exact ⟨[], some next, ho.owing, h⟩
    | breaks h =>
      obtain ⟨more, next, ho, hs⟩ := step_eq_of_none b
      refine ⟨more ++ [none], next, ho, fun read => ?_⟩
      rw [h, hs, List.append_assoc, List.singleton_append]

theorem scan_eq {owed : Option Owed} (ho : Owing owed) (bytes : List UInt8) :
    ∃ more next, Owing next ∧
      ∀ read, bytes.foldl Scan.step ⟨read, owed⟩ = ⟨more ++ read, next⟩ := by
  induction bytes generalizing owed with
  | nil => exact ⟨[], owed, ho, fun read => rfl⟩
  | cons b bytes ih =>
    obtain ⟨one, mid, hm, hs⟩ := step_eq ho b
    obtain ⟨more, next, hn, hb⟩ := ih hm
    refine ⟨more ++ one, next, hn, fun read => ?_⟩
    rw [List.foldl_cons, hs, hb, List.append_assoc]

theorem finish_append (more read : List (Option Char)) (owed : Option Owed) :
    Scan.finish ⟨more ++ read, owed⟩ = read.reverse ++ Scan.finish ⟨more, owed⟩ := by
  cases owed <;> simp [Scan.finish]

theorem readFrom_cons {owed next : Option Owed} {b : UInt8} (more : List (Option Char))
    (h : ∀ read, Scan.step ⟨read, owed⟩ b = ⟨more ++ read, next⟩) (hn : Owing next)
    (bytes : List UInt8) :
    readFrom owed (b :: bytes) = more.reverse ++ readFrom next bytes := by
  obtain ⟨rest, last, -, hb⟩ := scan_eq hn bytes
  rw [readFrom, readFrom, List.foldl_cons, h, hb, hb, List.append_nil, finish_append,
    List.append_nil]

/-- A byte that does not go on with a character leaves it ill-formed, and is read as if there had
been none. -/
theorem readFrom_of_breaks {o : Owed} {b : UInt8}
    (h : ∀ read, Scan.step ⟨read, some o⟩ b = Scan.step ⟨none :: read, none⟩ b)
    (bytes : List UInt8) : readFrom (some o) (b :: bytes) = none :: readFrom none (b :: bytes) := by
  obtain ⟨more, next, hn, hb⟩ := step_eq_of_none b
  have hs (read : List (Option Char)) :
      Scan.step ⟨read, some o⟩ b = ⟨(more ++ [none]) ++ read, next⟩ := by
    rw [h, hb, List.append_assoc, List.singleton_append]
  rw [readFrom_cons more hb hn, readFrom_cons _ hs hn, List.reverse_append]
  rfl

/-- The bytes cut into what was read of them. An ASCII byte is a piece of its own; every other piece
is some bytes beyond ASCII, read as one character beyond ASCII or as none. -/
inductive Pieced : List UInt8 → List (Option Char) → Prop where
  | nil : Pieced [] []
  | plain {bytes : List UInt8} {read : List (Option Char)} (b : UInt8) (hb : b.toNat < 0x80)
      (h : Pieced bytes read) : Pieced (b :: bytes) (some (Char.ofNat b.toNat) :: read)
  | beyond {bytes : List UInt8} {read : List (Option Char)} (stretch : List UInt8)
      (piece : Option Char) (hn : stretch ≠ []) (hs : ∀ b ∈ stretch, 0x80 ≤ b.toNat)
      (hp : ∀ c, piece = some c → 0x80 ≤ c.toNat) (h : Pieced bytes read) :
      Pieced (stretch ++ bytes) (piece :: read)

theorem pieced_readFrom (bytes : List UInt8) :
    Pieced bytes (readFrom none bytes) ∧
      ∀ (o : Owed) (begun : List UInt8), o.Sound → begun ≠ [] → (∀ b ∈ begun, 0x80 ≤ b.toNat) →
        Pieced (begun ++ bytes) (readFrom (some o) bytes) := by
  induction bytes with
  | nil => exact ⟨.nil, fun o begun _ hn hs => .beyond begun none hn hs nofun .nil⟩
  | cons b bytes ih =>
    have hone (hb : 0x80 ≤ b.toNat) : ∀ x ∈ [b], 0x80 ≤ x.toNat := by simpa using hb
    have hfresh : Pieced (b :: bytes) (readFrom none (b :: bytes)) := by
      cases leads b with
      | plain hb h =>
        rw [readFrom_cons [_] h owing_none]
        exact .plain b hb ih.1
      | stray hb h =>
        rw [readFrom_cons [_] h owing_none]
        exact .beyond [b] none (List.cons_ne_nil _ _) (hone hb) nofun ih.1
      | opens o hb ho h =>
        rw [readFrom_cons [] h ho.owing]
        exact ih.2 o [b] ho (List.cons_ne_nil _ _) (hone hb)
    refine ⟨hfresh, fun o begun ho hn hs => ?_⟩
    -- The byte joins the ones begun if it goes on with their character.
    have hjoin : begun ++ b :: bytes = (begun ++ [b]) ++ bytes := by simp
    have hmore (hb : 0x80 ≤ b.toNat) : ∀ x ∈ begun ++ [b], 0x80 ≤ x.toNat := by
      simpa [or_imp, forall_and, hb] using hs
    cases ho.follows b with
    | ends c hb hc h =>
      rw [readFrom_cons [_] h owing_none, hjoin]
      refine .beyond (begun ++ [b]) (some c) (by simp) (hmore hb) ?_ ih.1
      rintro _ ⟨⟩
      exact hc
    | goes next hb hg h =>
      rw [readFrom_cons [] h hg.owing, hjoin]
      exact ih.2 next (begun ++ [b]) hg (by simp) (hmore hb)
    | breaks h =>
      rw [readFrom_of_breaks h]
      exact .beyond begun none hn hs nofun hfresh

theorem pieced_pieces (bytes : List UInt8) : Pieced bytes (pieces bytes) :=
  (pieced_readFrom bytes).1

theorem pieces_encode_append (text : List Char) (bytes : List UInt8) :
    pieces (encode text ++ bytes) = text.map some ++ pieces bytes := by
  obtain ⟨more, next, -, hb⟩ := scan_eq owing_none bytes
  rw [pieces, pieces, Scan.start, List.foldl_append, scan_encode, hb, hb, List.append_nil,
    List.append_nil, finish_append, List.reverse_reverse]

/-- A character does not begin with a byte that could go on with another one. -/
theorem scan_utf8EncodeChar_of_owed {o : Owed} (ho : o.Sound) (read : List (Option Char))
    (c : Char) :
    (String.utf8EncodeChar c).foldl Scan.step ⟨read, some o⟩ = ⟨some c :: none :: read, none⟩ := by
  have hc := scalar_cases c
  have hl := ho.low
  have hh := ho.high
  have hb : ∃ b rest, String.utf8EncodeChar c = b :: rest ∧ (b.toNat < 0x80 ∨ 0xC0 ≤ b.toNat) := by
    rcases utf8EncodeChar_cases c with ⟨h, he⟩ | ⟨h, he⟩ | ⟨h, he⟩ | ⟨h, he⟩
    all_goals
      refine ⟨_, _, he, ?_⟩
      rw [toNat_ofNat_of_lt (by omega)]
      omega
  obtain ⟨b, rest, he, hb⟩ := hb
  have hs : Scan.step ⟨read, some o⟩ b = Scan.step ⟨none :: read, none⟩ b := by
    have hn : ¬ (o.low ≤ b.toNat ∧ b.toNat ≤ o.high) := by omega
    simp only [Scan.step, hn, if_false]
  rw [← scan_utf8EncodeChar (none :: read) c, he, List.foldl_cons, List.foldl_cons, hs]

/-- A text after the bytes is read as it was written, even if they end in an unfinished
character. -/
theorem pieces_append_encode (bytes : List UInt8) (text : List Char) :
    pieces (bytes ++ encode text) = pieces bytes ++ text.map some := by
  obtain ⟨more, next, hn, hb⟩ := scan_eq owing_none bytes
  rw [pieces, pieces, Scan.start, List.foldl_append, hb, List.append_nil]
  cases next with
  | none =>
    rw [scan_encode, ← List.nil_append ((text.map some).reverse ++ more)]
    simp [Scan.finish]
  | some o =>
    cases text with
    | nil => simp [encode]
    | cons c text =>
      have hs := scan_encode (some c :: none :: more) text
      rw [encode, List.flatMap_cons, List.foldl_append, scan_utf8EncodeChar_of_owed (hn o rfl)]
      rw [encode] at hs
      rw [hs]
      simp [Scan.finish]

theorem repair_between (before after : List Char) (bytes : List UInt8) :
    repair (encode before ++ bytes ++ encode after) = before ++ repair bytes ++ after := by
  have hm (text : List Char) : (text.map some).map (fun p => p.getD replacement) = text := by
    simp [Function.comp_def]
  rw [repair, repair, pieces_append_encode, pieces_encode_append, List.map_append, List.map_append,
    hm, hm]

end BodyCallout.Utf8
