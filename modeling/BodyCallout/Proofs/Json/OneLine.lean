import BodyCallout.Proofs.Json.Spelling

set_option autoImplicit false

namespace BodyCallout.Json

open Data

def OneLine (text : List Char) : Prop := ∀ c ∈ text, 0x20 ≤ c.toNat

theorem oneLine_nil : OneLine [] := fun _ h => absurd h List.not_mem_nil

theorem OneLine.cons {c : Char} {text : List Char} (hc : 0x20 ≤ c.toNat) (h : OneLine text) :
    OneLine (c :: text) :=
  List.forall_mem_cons.mpr ⟨hc, h⟩

theorem OneLine.append {a b : List Char} (ha : OneLine a) (hb : OneLine b) : OneLine (a ++ b) :=
  List.forall_mem_append.mpr ⟨ha, hb⟩

theorem oneLine_flatMap {α : Type} {f : α → List Char} {as : List α} (h : ∀ a ∈ as, OneLine (f a)) :
    OneLine (as.flatMap f) := fun c hc => by
  obtain ⟨a, ha, hc⟩ := List.mem_flatMap.mp hc
  exact h a ha c hc

theorem oneLine_hexDigit (n : Nat) : 0x20 ≤ (hexDigit n).toNat := by
  have hall : ∀ i : Fin 16, 0x20 ≤ (Nat.digitChar i).toNat := by decide
  exact hall ⟨n % 16, Nat.mod_lt n (by decide)⟩

theorem oneLine_escapeChar (c : Char) : OneLine (escapeChar c) := by
  have hletter (e : Char) (he : 0x20 ≤ e.toNat) : OneLine ['\\', e] :=
    .cons (by decide) (.cons he oneLine_nil)
  unfold escapeChar
  split
  · exact hletter _ (by decide)
  split
  · exact hletter _ (by decide)
  split
  · next h => exact .cons h oneLine_nil
  repeat (split; · exact hletter _ (by decide))
  exact .cons (by decide) <| .cons (by decide) <| .cons (by decide) <| .cons (by decide) <|
    .cons (oneLine_hexDigit _) <| .cons (oneLine_hexDigit _) oneLine_nil

theorem oneLine_null : OneLine null := by simp [OneLine, null]

theorem oneLine_boolean (b : Bool) : OneLine (writeBoolean b) := by
  cases b <;> simp [OneLine, writeBoolean]

theorem oneLine_text (s : String) : OneLine (writeText s) :=
  .cons (by decide) <| .append (oneLine_flatMap fun c _ => oneLine_escapeChar c) <|
    .cons (by decide) oneLine_nil

theorem oneLine_digits (n : Nat) : OneLine (Decimal.digits n) := fun c hc => by
  have hd := Nat.isDigit_of_mem_toDigits (by decide) (by decide) hc
  simp only [Char.isDigit, Bool.and_eq_true, decide_eq_true_eq] at hd
  exact Nat.le_trans (by decide) (UInt32.le_iff_toNat_le.mp hd.1)

theorem oneLine_member (key : String) {value : List Char} (h : OneLine value) :
    OneLine (member key value) :=
  (oneLine_text key).append (.cons (by decide) h)

theorem oneLine_intercalate {entries : List (List Char)} (h : ∀ e ∈ entries, OneLine e) :
    OneLine ([','].intercalate entries) := by
  induction entries with
  | nil => exact oneLine_nil
  | cons e entries ih =>
    have he := h e (.head _)
    have hr := ih fun x hx => h x (.tail e hx)
    cases entries with
    | nil => simpa [List.intercalate] using he
    | cons next entries => exact intercalate_cons e next entries ▸ he.append (.cons (by decide) hr)

theorem oneLine_bracket {first last : Char} (hf : 0x20 ≤ first.toNat) (hl : 0x20 ≤ last.toNat)
    {entries : List (List Char)} (h : ∀ e ∈ entries, OneLine e) :
    OneLine (bracket first last entries) :=
  .cons hf ((oneLine_intercalate h).append (.cons hl oneLine_nil))

theorem OneLine.newline_not_mem {text : List Char} (h : OneLine text) :
    (0x0A : UInt8) ∉ Utf8.encode text := fun hm => by
  obtain ⟨c, hc, hb⟩ := List.mem_flatMap.mp hm
  have hs := h c hc
  rcases Utf8.mem_utf8EncodeChar hb with he | he
  · rw [← he] at hs
    exact absurd hs (by decide)
  · exact absurd he (by decide)

end BodyCallout.Json

namespace BodyCallout.Data

open Json

mutual
theorem Shape.oneLine_write : (s : Shape) → (v : s.Value) → OneLine (s.write v)
  | .boolean, b => oneLine_boolean b
  | .natural _ _, n => oneLine_digits n.val
  | .text, s => oneLine_text s
  | .list item, vs => by
    refine oneLine_bracket (by decide) (by decide) fun e he => ?_
    obtain ⟨v, -, rfl⟩ := List.mem_map.mp he
    exact item.oneLine_write v
  | .optional _, none => oneLine_null
  | .optional inner, some v => inner.oneLine_write v
  | .choice names, i => oneLine_text names[i]
  | .record _ fields, vs =>
    oneLine_bracket (by decide) (by decide) (fields.oneLine_write vs)
  | .tagged _ tag content cases, v =>
    oneLine_bracket (by decide) (by decide) (cases.oneLine_write tag content v)
theorem Fields.oneLine_write : (f : Fields) → (vs : f.Values) → ∀ e ∈ f.write vs, OneLine e
  | .done, () => by simp [Fields.write]
  | .must key shape rest, (v, vs) =>
    List.forall_mem_cons.mpr ⟨oneLine_member key (shape.oneLine_write v), rest.oneLine_write vs⟩
  | .may key shape rest, (some v, vs) =>
    List.forall_mem_cons.mpr ⟨oneLine_member key (shape.oneLine_write v), rest.oneLine_write vs⟩
  | .may _ _ rest, (none, vs) => rest.oneLine_write vs
theorem Cases.oneLine_write : (c : Cases) → (tag content : String) → (v : c.Values) →
    ∀ e ∈ c.write tag content v, OneLine e
  | .case name shape _, tag, content, .inl v =>
    List.forall_mem_cons.mpr ⟨oneLine_member tag (oneLine_text name),
      List.forall_mem_cons.mpr ⟨oneLine_member content (shape.oneLine_write v), by simp⟩⟩
  | .case _ _ rest, tag, content, .inr v => rest.oneLine_write tag content v
end

theorem Shape.oneLine_members (s : Shape) (v : s.Value) : ∀ e ∈ s.members v, OneLine e := by
  cases s with
  | record _ fields => exact fields.oneLine_write v
  | _ => simp [members]

theorem Cases.oneLine_members : (c : Cases) → (tag : String) → (v : c.Values) →
    ∀ e ∈ c.members tag v, OneLine e
  | .case name shape _, tag, .inl v =>
    List.forall_mem_cons.mpr ⟨oneLine_member tag (oneLine_text name), shape.oneLine_members v⟩
  | .case _ _ rest, tag, .inr v => rest.oneLine_members tag v

end BodyCallout.Data

namespace BodyCallout.Json

theorem Union.oneLine_write (u : Union) (v : u.cases.Values) : OneLine (u.write v) :=
  oneLine_bracket (by decide) (by decide) (u.cases.oneLine_members u.tag v)

end BodyCallout.Json
