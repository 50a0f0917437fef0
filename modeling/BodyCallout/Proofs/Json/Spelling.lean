import BodyCallout.Json.Writer
import BodyCallout.Proofs.Text.Encoding

set_option autoImplicit false

namespace BodyCallout.Json

open Data

def Scanner.past (sc : Scanner) (text : List Char) : Scanner :=
  (Utf8.encode text).foldl Scanner.step sc

namespace Scanner

@[simp] theorem past_nil (sc : Scanner) : sc.past [] = sc := rfl

theorem past_append (sc : Scanner) (a b : List Char) : sc.past (a ++ b) = (sc.past a).past b := by
  rw [past, Utf8.encode_append, List.foldl_append]
  rfl

theorem past_cons (sc : Scanner) (c : Char) (text : List Char) :
    sc.past (c :: text) = (sc.past [c]).past text :=
  past_append sc [c] text

theorem past_of_encode {c : Char} {bytes : List UInt8} (h : String.utf8EncodeChar c = bytes)
    (sc : Scanner) : sc.past [c] = bytes.foldl Scanner.step sc := by
  rw [past, Utf8.encode, List.flatMap_singleton, h]

end Scanner

def TextScan.of (text : List Char) : TextScan := ⟨(Utf8.encode text).reverse, false, none, .none⟩

theorem TextScan.of_concat (text : List Char) (c : Char) :
    TextScan.of (text ++ [c]) = (TextScan.of text).pushChar c := by
  simp [of, pushChar, Utf8.encode]

theorem TextScan.content_of (s : String) : (TextScan.of s.toList).content = some s := by
  simp [content, of]

theorem hexDigit_encode (n : Nat) :
    String.utf8EncodeChar (hexDigit n) = [UInt8.ofNat (hexDigit n).toNat] ∧
      hexValue? (UInt8.ofNat (hexDigit n).toNat) = some (n % 16) := by
  have h : ∀ i : Fin 16, String.utf8EncodeChar (Nat.digitChar i) =
      [UInt8.ofNat (Nat.digitChar i).toNat] ∧
        hexValue? (UInt8.ofNat (Nat.digitChar i).toNat) = some i.val := by decide
  exact h ⟨n % 16, Nat.mod_lt n (by decide)⟩

section

variable (stack : List Frame) (isKey : Bool)

theorem step_text {t u : TextScan} {b : UInt8} (h : t.step b = .goes u) :
    (Scanner.scanning stack (.text isKey t)).step b = .scanning stack (.text isKey u) := by
  simp only [Scanner.step, h]

theorem scan_plain {bytes : List UInt8} (h : ∀ b ∈ bytes, b ≠ 0x22 ∧ b ≠ 0x5C ∧ 0x20 ≤ b)
    (before : List UInt8) :
    bytes.foldl Scanner.step (.scanning stack (.text isKey ⟨before, false, none, .none⟩)) =
      .scanning stack (.text isKey ⟨bytes.reverse ++ before, false, none, .none⟩) := by
  induction bytes generalizing before with
  | nil => rfl
  | cons b bytes ih =>
    obtain ⟨hq, hs, hc⟩ := h b (.head _)
    have hstep : TextScan.step ⟨before, false, none, .none⟩ b =
        .goes ⟨b :: before, false, none, .none⟩ := by
      rw [TextScan.step]
      simp [hq, hs, UInt8.not_lt.mpr hc, TextScan.pushByte]
    rw [List.foldl_cons, step_text stack isKey hstep, ih fun x hx => h x (.tail b hx)]
    simp

theorem past_plain (text : List Char) {c : Char} (hq : c ≠ '"') (hs : c ≠ '\\')
    (hc : 0x20 ≤ c.toNat) :
    (Scanner.scanning stack (.text isKey (.of text))).past [c] =
      .scanning stack (.text isKey (.of (text ++ [c]))) := by
  have hne (b : UInt8) (hb : b ∈ String.utf8EncodeChar c) (d : UInt8) (hd : d.toNat < 0x80)
      (hcd : c ≠ Char.ofNat d.toNat) : b ≠ d := by
    rintro rfl
    rcases Utf8.mem_utf8EncodeChar hb with h | h
    · exact hcd (by rw [h, Char.ofNat_toNat])
    · omega
  rw [Scanner.past_of_encode rfl, TextScan.of, scan_plain, TextScan.of_concat]
  · rfl
  · intro b hb
    refine ⟨hne b hb 0x22 (by decide) hq, hne b hb 0x5C (by decide) hs, ?_⟩
    rw [UInt8.le_iff_toNat_le]
    rcases Utf8.mem_utf8EncodeChar hb with h | h
    · exact h ▸ hc
    · exact Nat.le_trans (by decide) h

theorem past_text {c : Char} {b : UInt8} (hc : String.utf8EncodeChar c = [b]) {t u : TextScan}
    (h : t.step b = .goes u) :
    (Scanner.scanning stack (.text isKey t)).past [c] = .scanning stack (.text isKey u) := by
  rw [Scanner.past_of_encode hc]
  exact step_text stack isKey h

theorem past_escape (text : List Char) {e c : Char} {b : UInt8}
    (he : String.utf8EncodeChar e = [b]) (hb : b ≠ 0x75) {d : UInt8}
    (hc : String.utf8EncodeChar c = [d]) (hd : simpleEscape? b = some d) :
    (Scanner.scanning stack (.text isKey (.of text))).past ['\\', e] =
      .scanning stack (.text isKey (.of (text ++ [c]))) := by
  have hstep : (⟨(Utf8.encode text).reverse, false, none, .backslash⟩ : TextScan).step b =
      .goes (TextScan.of (text ++ [c])) := by
    rw [TextScan.of_concat, TextScan.step]
    simp [hb, hd, TextScan.of, TextScan.pushChar, TextScan.pushByte, hc]
  rw [Scanner.past_cons, past_text stack isKey rfl rfl]
  exact past_text stack isKey he hstep

theorem past_zeros (text : List Char) :
    (Scanner.scanning stack (.text isKey (.of text))).past ['\\', 'u', '0', '0'] =
      .scanning stack (.text isKey ⟨(Utf8.encode text).reverse, false, none, .code 2 0 false⟩) :=
  rfl

theorem pushCode_of_lt {t : TextScan} (ht : t.high = none) {c : Char} (hc : c.toNat < 0x20) :
    t.pushCode c.toNat = t.pushChar c := by
  have hl : ¬ (0xDC00 ≤ c.toNat) := by omega
  have hh : ¬ (0xD800 ≤ c.toNat) := by omega
  simp [TextScan.pushCode, ht, hl, hh]

theorem past_code (text : List Char) {c : Char} (hc : c.toNat < 0x20) :
    (Scanner.scanning stack (.text isKey (.of text))).past
        ['\\', 'u', '0', '0', hexDigit (c.toNat / 16), hexDigit c.toNat] =
      .scanning stack (.text isKey (.of (text ++ [c]))) := by
  obtain ⟨he, hv⟩ := hexDigit_encode (c.toNat / 16)
  obtain ⟨he', hv'⟩ := hexDigit_encode c.toNat
  have hthird : (⟨(Utf8.encode text).reverse, false, none, .code 2 0 false⟩ : TextScan).step
      (UInt8.ofNat (hexDigit (c.toNat / 16)).toNat) =
        .goes ⟨(Utf8.encode text).reverse, false, none, .code 3 (c.toNat / 16 % 16) false⟩ := by
    simp [TextScan.step, hv]
  have hfourth : (⟨(Utf8.encode text).reverse, false, none,
      .code 3 (c.toNat / 16 % 16) false⟩ : TextScan).step (UInt8.ofNat (hexDigit c.toNat).toNat) =
        .goes (TextScan.of (text ++ [c])) := by
    have hvalue : c.toNat / 16 % 16 * 16 + c.toNat % 16 = c.toNat := by omega
    simp [TextScan.step, hv', hvalue, pushCode_of_lt _ hc, TextScan.of, TextScan.pushChar,
      Utf8.encode_append]
  have hsplit : ['\\', 'u', '0', '0', hexDigit (c.toNat / 16), hexDigit c.toNat] =
      ['\\', 'u', '0', '0'] ++ ([hexDigit (c.toNat / 16)] ++ [hexDigit c.toNat]) := rfl
  rw [hsplit, Scanner.past_append, past_zeros, Scanner.past_append,
    past_text stack isKey he hthird]
  exact past_text stack isKey he' hfourth

theorem past_escapeChar (text : List Char) (c : Char) :
    (Scanner.scanning stack (.text isKey (.of text))).past (escapeChar c) =
      .scanning stack (.text isKey (.of (text ++ [c]))) := by
  have hof (n : Nat) (h : c.toNat = n) : c = Char.ofNat n := by rw [← h, Char.ofNat_toNat]
  unfold escapeChar
  split
  · next h =>
    subst h
    exact past_escape stack isKey text rfl (by decide) rfl rfl
  split
  · next h =>
    subst h
    exact past_escape stack isKey text rfl (by decide) rfl rfl
  split
  · next hq hs hc => exact past_plain stack isKey text hq hs hc
  split
  · next h => exact hof _ h ▸ past_escape stack isKey text rfl (by decide) rfl rfl
  split
  · next h => exact hof _ h ▸ past_escape stack isKey text rfl (by decide) rfl rfl
  split
  · next h => exact hof _ h ▸ past_escape stack isKey text rfl (by decide) rfl rfl
  split
  · next h => exact hof _ h ▸ past_escape stack isKey text rfl (by decide) rfl rfl
  split
  · next h => exact hof _ h ▸ past_escape stack isKey text rfl (by decide) rfl rfl
  · next hc _ _ _ _ _ => exact past_code stack isKey text (Nat.lt_of_not_le hc)

/-- The content of a written string, up to the quote that ends it. -/
theorem past_escaped (before text : List Char) :
    (Scanner.scanning stack (.text isKey (.of before))).past (text.flatMap escapeChar) =
      .scanning stack (.text isKey (.of (before ++ text))) := by
  induction text generalizing before with
  | nil => simp
  | cons c text ih =>
    rw [List.flatMap_cons, Scanner.past_append, past_escapeChar, ih, List.append_assoc]
    rfl

end

theorem past_key (members : List (Option String × Outline)) (outer : List Frame) (key : String) :
    (Scanner.scanning (.object members :: outer) (.text true .start)).past
        (key.toList.flatMap escapeChar ++ ['"']) =
      .scanning (.keyed members (some key) :: outer) (.between .colon) := by
  have h := past_escaped (.object members :: outer) true [] key.toList
  rw [Scanner.past_append]
  rw [show TextScan.start = .of [] from rfl, h, List.nil_append, ← TextScan.content_of key]
  rfl

theorem past_quoted (stack : List Frame) (s : String) :
    (Scanner.scanning stack (.text false .start)).past (s.toList.flatMap escapeChar ++ ['"']) =
      deliver stack (.text (some s)) := by
  have h := past_escaped stack false [] s.toList
  rw [Scanner.past_append]
  rw [show TextScan.start = .of [] from rfl, h, List.nil_append, ← TextScan.content_of s]
  rfl

/-- A value may begin here. The bracket that ends an array is none. -/
def Opens (sc : Scanner) (stack : List Frame) : Prop :=
  ∀ b, isSpace b = false → b ≠ 0x5D → sc.step b = beginValue stack b

def OpensKey (sc : Scanner) (newest : List (Option String × Outline)) (outer : List Frame) : Prop :=
  sc.step 0x22 = .scanning (.object newest :: outer) (.text true .start)

/-- The scan goes on, or ends, as it does once the value is where it belongs. A numeral is over only
with what comes after it. -/
structure Settles (sc : Scanner) (stack : List Frame) (o : Outline) : Prop where
  step : ∀ b, b = 0x2C ∨ b = 0x5D ∨ b = 0x7D → sc.step b = (deliver stack o).step b
  finish : sc.finish = (deliver stack o).finish

/-- A text is scanned as one value, wherever one may begin. -/
def Spells (text : List Char) (o : Outline) : Prop :=
  ∀ sc stack, Opens sc stack → Settles (sc.past text) stack o

/-- A text is scanned as one value after a colon, where white space may come first. -/
def Follows (text : List Char) (o : Outline) : Prop :=
  ∀ stack, Settles ((Scanner.scanning stack (.between .value)).past text) stack o

inductive SpellsItems : List (List Char) → Items → Prop where
  | closed : SpellsItems [] .closed
  | item {text : List Char} {o : Outline} {texts : List (List Char)} {items : Items}
      (value : Spells text o) (rest : SpellsItems texts items) :
      SpellsItems (text :: texts) (.item o items)

inductive SpellsMembers : List (List Char) → Members → Prop where
  | closed : SpellsMembers [] .closed
  | member (key : String) {text : List Char} {o : Outline} {texts : List (List Char)}
      {members : Members} (value : Spells text o) (rest : SpellsMembers texts members) :
      SpellsMembers (member key text :: texts) (.member (some key) o members)

inductive FollowsMembers : List (List Char) → Members → Prop where
  | closed : FollowsMembers [] .closed
  | member (key : String) {text : List Char} {o : Outline} {texts : List (List Char)}
      {members : Members} (value : Follows text o) (rest : FollowsMembers texts members) :
      FollowsMembers (member key text :: texts) (.member (some key) o members)

theorem opens_value (stack : List Frame) : Opens (.scanning stack (.between .value)) stack := by
  intro b hs _
  simp [Scanner.step, stepBetween, hs]

theorem Spells.follows {text : List Char} {o : Outline} (h : Spells text o) : Follows text o :=
  fun stack => h _ stack (opens_value stack)

theorem SpellsMembers.follows {texts : List (List Char)} {members : Members}
    (h : SpellsMembers texts members) : FollowsMembers texts members := by
  induction h with
  | closed => exact .closed
  | member key value _ ih => exact .member key value.follows ih

theorem opens_firstItem (items : List Outline) (outer : List Frame) :
    Opens (.scanning (.array items :: outer) (.between .firstItem)) (.array items :: outer) := by
  intro b hs hb
  simp [Scanner.step, stepBetween, hs, hb]

theorem opensKey_firstKey (newest : List (Option String × Outline)) (outer : List Frame) :
    OpensKey (.scanning (.object newest :: outer) (.between .firstKey)) newest outer := rfl

theorem opensKey_nextKey (newest : List (Option String × Outline)) (outer : List Frame) :
    OpensKey (.scanning (.object newest :: outer) (.between .nextKey)) newest outer := rfl

theorem Settles.of_eq {sc : Scanner} {stack : List Frame} {o : Outline} (h : sc = deliver stack o) :
    Settles sc stack o :=
  h ▸ ⟨fun _ _ => rfl, rfl⟩

/-- A text that spells a value, and nothing else, outlines it. -/
theorem Spells.outline_eq {text : List Char} {o : Outline} (h : Spells text o) :
    outline (Utf8.encode text) = ⟨o, false⟩ :=
  (h _ _ (opens_value [])).finish

theorem Scanner.past_cons_of {c : Char} {b : UInt8} (h : String.utf8EncodeChar c = [b])
    (sc : Scanner) (text : List Char) : sc.past (c :: text) = (sc.step b).past text := by
  rw [past_cons, past_of_encode h]
  rfl

theorem Opens.past_cons {sc : Scanner} {stack : List Frame} (h : Opens sc stack) {c : Char}
    {b : UInt8} (hc : String.utf8EncodeChar c = [b]) (hs : isSpace b = false) (hb : b ≠ 0x5D)
    (text : List Char) : sc.past (c :: text) = (beginValue stack b).past text := by
  rw [Scanner.past_cons_of hc, h b hs hb]

theorem spells_null : Spells null .null := fun _ _ h =>
  .of_eq ((h.past_cons rfl rfl (by decide) ['u', 'l', 'l']).trans rfl)

theorem spells_boolean (b : Bool) : Spells (writeBoolean b) (.boolean b) := fun _ _ h => by
  cases b
  · exact .of_eq ((h.past_cons rfl rfl (by decide) ['a', 'l', 's', 'e']).trans rfl)
  · exact .of_eq ((h.past_cons rfl rfl (by decide) ['r', 'u', 'e']).trans rfl)

theorem spells_text (s : String) : Spells (writeText s) (.text (some s)) := fun _ stack h => by
  refine .of_eq ((h.past_cons rfl rfl (by decide) _).trans ?_)
  exact past_quoted stack s

theorem intercalate_cons (text next : List Char) (texts : List (List Char)) :
    [','].intercalate (text :: next :: texts) =
      text ++ ',' :: [','].intercalate (next :: texts) := by
  simp [List.intercalate]

theorem past_items {texts : List (List Char)} {items : Items} (h : SpellsItems texts items)
    (hne : texts ≠ []) {sc : Scanner} {newest : List Outline} {outer : List Frame}
    (ho : Opens sc (.array newest :: outer)) :
    sc.past ([','].intercalate texts ++ [']']) =
      deliver outer (.array (.ofReversed newest items)) := by
  induction h generalizing sc newest with
  | closed => exact absurd rfl hne
  | @item text o texts items value rest ih =>
    have hs := value sc _ ho
    cases rest with
    | closed =>
      rw [show [','].intercalate [text] = text by simp [List.intercalate], Scanner.past_append,
        Scanner.past_cons_of rfl, hs.step _ (by decide)]
      rfl
    | @item next _ texts _ _ _ =>
      rw [intercalate_cons, List.append_assoc, Scanner.past_append, List.cons_append,
        Scanner.past_cons_of rfl, hs.step _ (by decide)]
      exact ih (by simp) (opens_value _)

theorem spells_array {texts : List (List Char)} {items : Items} (h : SpellsItems texts items) :
    Spells (bracket '[' ']' texts) (.array items) := fun sc stack ho => by
  refine .of_eq ((ho.past_cons rfl rfl (by decide) _).trans ?_)
  cases h with
  | closed => rfl
  | item value rest => exact past_items (.item value rest) (by simp) (opens_firstItem [] stack)

theorem past_member {sc : Scanner} {newest : List (Option String × Outline)} {outer : List Frame}
    (ho : OpensKey sc newest outer) (key : String)
    {text : List Char} {o : Outline} (value : Follows text o) :
    Settles (sc.past (member key text)) (.keyed newest (some key) :: outer) o := by
  have hk : sc.past (writeText key) =
      .scanning (.keyed newest (some key) :: outer) (.between .colon) := by
    rw [writeText, List.cons_append, Scanner.past_cons_of rfl]
    exact (congrArg (Scanner.past · _) ho).trans (past_key newest outer key)
  rw [member, Scanner.past_append, hk, Scanner.past_cons_of rfl]
  exact value _

theorem past_members {texts : List (List Char)} {members : Members}
    (h : FollowsMembers texts members) (hne : texts ≠ []) {sc : Scanner}
    {newest : List (Option String × Outline)} {outer : List Frame}
    (ho : OpensKey sc newest outer) :
    sc.past ([','].intercalate texts ++ [closeBrace]) =
      deliver outer (.object (.ofReversed newest members)) := by
  induction h generalizing sc newest with
  | closed => exact absurd rfl hne
  | @member key text o texts members value rest ih =>
    have hs := past_member ho key value
    cases rest with
    | closed =>
      rw [show [','].intercalate [member key text] = member key text by simp [List.intercalate],
        Scanner.past_append, Scanner.past_cons_of rfl, hs.step _ (by decide)]
      rfl
    | @member next _ _ _ _ _ =>
      rw [intercalate_cons, List.append_assoc, Scanner.past_append, List.cons_append,
        Scanner.past_cons_of rfl, hs.step _ (by decide)]
      exact ih (by simp) (opensKey_nextKey _ outer)

theorem FollowsMembers.spells {texts : List (List Char)} {members : Members}
    (h : FollowsMembers texts members) :
    Spells (bracket openBrace closeBrace texts) (.object members) := fun sc stack ho => by
  refine .of_eq ((ho.past_cons rfl rfl (by decide) _).trans ?_)
  cases h with
  | closed => rfl
  | member key value rest =>
    exact past_members (.member key value rest) (by simp) (opensKey_firstKey [] stack)

theorem spells_object {texts : List (List Char)} {members : Members}
    (h : SpellsMembers texts members) :
    Spells (bracket openBrace closeBrace texts) (.object members) :=
  h.follows.spells

/-! Whole numbers. -/

def places (n : Nat) : List Nat := (Decimal.digits n).map fun c => c.toNat - 0x30

theorem digits_of_lt {n : Nat} (h : n < 10) : Decimal.digits n = [Nat.digitChar n] :=
  Nat.toDigits_of_lt_base h

theorem digits_of_le {n : Nat} (h : 10 ≤ n) :
    Decimal.digits n = Decimal.digits (n / 10) ++ [Nat.digitChar (n % 10)] :=
  Nat.toDigits_of_base_le (by decide) h

theorem digitChar_encode {d : Nat} (h : d < 10) :
    ∃ b, String.utf8EncodeChar (Nat.digitChar d) = [b] ∧ isDigit b = true ∧ digitOf b = d := by
  have hall : ∀ d : Fin 10, String.utf8EncodeChar (Nat.digitChar d) = [UInt8.ofNat (d + 0x30)] ∧
      isDigit (UInt8.ofNat (d + 0x30)) = true ∧ digitOf (UInt8.ofNat (d + 0x30)) = d := by decide
  exact ⟨_, hall ⟨d, h⟩⟩

theorem places_of_lt {n : Nat} (h : n < 10) : places n = [n] := by
  simp [places, digits_of_lt h, Nat.toNat_digitChar_of_lt_ten h]

theorem places_of_le {n : Nat} (h : 10 ≤ n) : places n = places (n / 10) ++ [n % 10] := by
  simp [places, digits_of_le h, Nat.toNat_digitChar_of_lt_ten (Nat.mod_lt n (by decide : 0 < 10))]

theorem ofDigits_concat (base : Nat) (ds : List Nat) (d : Nat) :
    Scan.ofDigits base (ds ++ [d]) = Scan.ofDigits base ds * base + d := by
  simp [Scan.ofDigits]

theorem ofDigits_places (n : Nat) : Scan.ofDigits 10 (places n) = n := by
  induction n using Nat.strongRecOn with
  | _ n ih =>
    by_cases h : n < 10
    · simp [places_of_lt h, Scan.ofDigits]
    · rw [places_of_le (Nat.le_of_not_lt h), ofDigits_concat, ih (n / 10) (by omega)]
      omega

theorem places_ne_nil (n : Nat) : places n ≠ [] := by
  by_cases h : n < 10
  · simp [places_of_lt h]
  · simp [places_of_le (Nat.le_of_not_lt h)]

def NumeralScan.of (ds : List Nat) : NumeralScan :=
  ⟨if ds = [0] then .zero else .whole, false, ds.reverse, [], false, [], false, false⟩

theorem isDigit_iff {b : UInt8} : isDigit b = true ↔ 0x30 ≤ b.toNat ∧ b.toNat ≤ 0x39 := by
  simp [isDigit, UInt8.le_iff_toNat_le]

theorem ne_of_isDigit {b d : UInt8} (h : isDigit b = true) (hd : isDigit d = false) : b ≠ d := by
  rintro rfl
  exact Bool.noConfusion (h.symm.trans hd)

theorem isSpace_of_isDigit {b : UInt8} (h : isDigit b = true) : isSpace b = false := by
  simp only [isSpace, Bool.or_eq_false_iff, decide_eq_false_iff_not]
  exact ⟨⟨⟨ne_of_isDigit h rfl, ne_of_isDigit h rfl⟩, ne_of_isDigit h rfl⟩, ne_of_isDigit h rfl⟩

theorem digitOf_eq_zero {b : UInt8} (h : isDigit b = true) : b = 0x30 ↔ digitOf b = 0 := by
  rw [isDigit_iff] at h
  rw [← UInt8.toNat_inj, digitOf]
  simp only [UInt8.toNat_ofNat]
  omega

theorem beginValue_digit (stack : List Frame) {b : UInt8} (h : isDigit b = true) :
    beginValue stack b = .scanning stack (.numeral (.of [digitOf b])) := by
  have hne (d : UInt8) (hd : isDigit d = false) : b ≠ d := ne_of_isDigit h hd
  have hz := digitOf_eq_zero h
  rw [beginValue, if_neg (hne _ rfl), if_neg (hne _ rfl), if_neg (hne _ rfl), if_pos (by simp [h]),
    NumeralScan.start, if_neg (hne _ rfl), NumeralScan.of]
  simp only [hz, List.cons.injEq, and_true, List.reverse_singleton]

def NumeralScan.signed (negative : Bool) (ds : List Nat) : NumeralScan :=
  { NumeralScan.of ds with negative }

theorem NumeralScan.step_digit {negative : Bool} {ds : List Nat} (hne : ds ≠ []) (hz : ds ≠ [0])
    {b : UInt8} (h : isDigit b = true) :
    (NumeralScan.signed negative ds).step b = .goes (.signed negative (ds ++ [digitOf b])) := by
  have hl : ds ++ [digitOf b] ≠ [0] := by
    intro he
    exact hne (List.append_eq_singleton_iff.mp he |>.elim (·.1) (fun h => absurd h.2 (by simp)))
  simp [step, signed, of, hz, hl, h]

/-- A number without leading zeros is scanned to its end, which is not seen. -/
theorem past_digits (stack : List Frame) (negative : Bool) {sc : Scanner}
    (ho : ∀ b, isDigit b = true →
      sc.step b = .scanning stack (.numeral (.signed negative [digitOf b]))) (n : Nat) :
    sc.past (Decimal.digits n) = .scanning stack (.numeral (.signed negative (places n))) := by
  induction n using Nat.strongRecOn with
  | _ n ih =>
    by_cases h : n < 10
    · obtain ⟨b, he, hd, hv⟩ := digitChar_encode h
      rw [digits_of_lt h, Scanner.past_of_encode he, places_of_lt h, ← hv]
      exact ho b hd
    · have hn : 10 ≤ n := Nat.le_of_not_lt h
      obtain ⟨b, he, hd, hv⟩ := digitChar_encode (Nat.mod_lt n (by decide : 0 < 10))
      have hz : places (n / 10) ≠ [0] := by
        intro hz
        have hp := ofDigits_places (n / 10)
        rw [hz] at hp
        simp [Scan.ofDigits] at hp
        omega
      rw [digits_of_le hn, Scanner.past_append, ih (n / 10) (by omega), places_of_le hn,
        Scanner.past_of_encode he]
      simp only [List.foldl_cons, List.foldl_nil, Scanner.step,
        NumeralScan.step_digit (places_ne_nil _) hz hd, hv]

theorem settles_numeral {n : NumeralScan} (hc : n.stage.complete = true) (stack : List Frame) :
    Settles (.scanning stack (.numeral n)) stack (.number n.numeral) := by
  constructor
  · intro b hb
    have hover : n.step b = .over := by
      obtain ⟨stage, _, _, _, _, _, _, _⟩ := n
      cases stage with
      | sign | point | mark | markSign => exact absurd hc Bool.false_ne_true
      | zero | whole | fraction | exponent => rcases hb with rfl | rfl | rfl <;> rfl
    simp only [Scanner.step, hover]
    rcases stack with - | ⟨⟨⟩, outer⟩ <;> rfl
  · simp only [Scanner.finish, hc, if_true]
    rcases stack with - | ⟨⟨⟩, outer⟩ <;> rfl

theorem settles_signed (negative : Bool) (n : Nat) (stack : List Frame) :
    Settles (.scanning stack (.numeral (.signed negative (places n)))) stack
      (.number ⟨negative, places n, none, none⟩) := by
  have hn : (NumeralScan.signed negative (places n)).numeral = ⟨negative, places n, none, none⟩ := by
    simp [NumeralScan.signed, NumeralScan.of, NumeralScan.numeral]
  have hc : (NumeralScan.signed negative (places n)).stage.complete = true := by
    simp only [NumeralScan.signed, NumeralScan.of]
    split <;> rfl
  exact hn ▸ settles_numeral hc stack

theorem spells_digits (n : Nat) :
    Spells (Decimal.digits n) (.number ⟨false, places n, none, none⟩) := fun sc stack ho => by
  have hd (b : UInt8) (hd : isDigit b = true) :
      sc.step b = .scanning stack (.numeral (.signed false [digitOf b])) :=
    (ho b (isSpace_of_isDigit hd) (ne_of_isDigit hd rfl)).trans (beginValue_digit stack hd)
  rw [past_digits stack false hd]
  exact settles_signed false n stack

theorem spells_negative (n : Nat) :
    Spells ('-' :: Decimal.digits n) (.number ⟨true, places n, none, none⟩) :=
  fun sc stack ho => by
  have hd (b : UInt8) (hd : isDigit b = true) :
      (Scanner.scanning stack (.numeral (.start 0x2D))).step b =
        .scanning stack (.numeral (.signed true [digitOf b])) := by
    simp [Scanner.step, NumeralScan.start, NumeralScan.step, NumeralScan.signed, NumeralScan.of,
      hd, digitOf_eq_zero hd]
  rw [ho.past_cons rfl rfl (by decide)]
  change Settles ((Scanner.scanning stack (.numeral (.start 0x2D))).past _) stack _
  rw [past_digits stack true hd]
  exact settles_signed true n stack

end BodyCallout.Json
