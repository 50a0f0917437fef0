import Mathlib.Data.List.Nodup
import BodyCallout.Proofs.Session.Answering
import BodyCallout.Proofs.Text.Mentioning
import BodyCallout.Proofs.Text.Trimming

/-!
What the classifier says of a body. The words it reports are those in the raw bytes, up to the case
of ASCII letters; white space around the body changes nothing but the size; and the headers come in
order of their keys, also when the note on a truncated body is added to them.
-/

set_option autoImplicit false

namespace BodyCallout

open Text (Bears Blank Plain)

namespace Mutation

theorem get?_ofPairs (pairs : List (String × String)) (name : String) :
    (ofPairs pairs).get? name = (pairs.find? fun p => Text.sameName p.1 name).map Prod.snd := by
  rw [get?, ofPairs, List.find?_map, Option.map_map]
  rfl

/-- The header is set to "true" if the word stands in the bytes, and is not set otherwise. -/
def Reports (m : Mutation) (bytes : List UInt8) (header word : String) : Prop :=
  ∀ value, m.get? header = some value ↔ value = "true" ∧ Bears bytes word

def keys (m : Mutation) : List (List UInt8) := m.set.map fun s => Utf8.encode s.header.key.toList

def Ordered (m : Mutation) : Prop := m.keys.Pairwise (· < ·)

def resized (size : Nat) (m : Mutation) : Mutation :=
  { m with set := m.set.map fun s =>
      if s.header.key = "x-body-size" then ⟨⟨s.header.key, Decimal.text size⟩, s.action⟩ else s }

theorem keys_ofPairs (pairs : List (String × String)) :
    (ofPairs pairs).keys = (pairs.map Prod.fst).map fun key => Utf8.encode key.toList := by
  simp [keys, ofPairs]

theorem resized_ofPairs (size : Nat) (pairs : List (String × String)) :
    (ofPairs pairs).resized size = ofPairs (pairs.map fun e =>
      (e.1, if e.1 = "x-body-size" then Decimal.text size else e.2)) := by
  simp only [ofPairs, resized, List.map_map, mk.injEq, and_true]
  refine List.map_congr_left fun e _ => ?_
  simp only [Function.comp_apply]
  split <;> rfl

/-- What is set from a table is set in order. -/
theorem ordered_ofPairs (t : Text.Sorted) : (ofPairs t.entries).Ordered := by
  rw [Ordered, keys_ofPairs, List.map_map]
  exact List.pairwise_map.mpr t.ascending

theorem isEmpty_of_get? {m : Mutation} {name value : String} (h : m.get? name = some value) :
    m.isEmpty = false := by
  rw [Bool.eq_false_iff]
  intro he
  have hs : m.set = [] := List.isEmpty_iff.mp (Bool.and_eq_true_iff.mp he).1
  rw [get?, hs] at h
  cases h

theorem keys_merge (a b : Mutation) : (a.merge b).keys = a.keys ++ b.keys := by
  simp [keys, merge]

end Mutation

namespace Classifier

def headers : List String :=
  ["x-body-size", "x-body-format", "x-body-has-error", "x-body-has-warning"]

theorem headers_apart :
    headers.Pairwise fun a b => Text.Before a b ∨ Text.Before b a := by decide +kernel

theorem eq_of_sameName :
    ∀ a ∈ headers, ∀ b ∈ headers, Text.sameName a b = true → a = b := by decide

def finds (bytes : List UInt8) (word : String) : Bool :=
  Text.mentions word.toList (Text.lowerAll (Utf8.repair bytes))

def flag (bytes : List UInt8) (header word : String) : List (String × String) :=
  if finds bytes word then [(header, "true")] else []

theorem pairs_eq (bytes : List UInt8) :
    pairs bytes = ("x-body-size", Decimal.text bytes.length) ::
      ("x-body-format", (Format.ofText (Utf8.repair bytes)).name) ::
        (flag bytes "x-body-has-error" "error" ++ flag bytes "x-body-has-warning" "warning") := by
  cases he : Text.mentions "error".toList (Text.lowerAll (Utf8.repair bytes)) <;>
    cases hw : Text.mentions "warning".toList (Text.lowerAll (Utf8.repair bytes)) <;>
    simp only [pairs, keywords, List.filterMap_cons, List.filterMap_nil, flag, finds, he, hw] <;>
    rfl

theorem mem_flag {bytes : List UInt8} {header word key value : String} :
    (key, value) ∈ flag bytes header word ↔
      key = header ∧ value = "true" ∧ finds bytes word = true := by
  rw [flag]
  cases finds bytes word <;> simp

theorem keys_flag (bytes : List UInt8) (header word : String) :
    ((flag bytes header word).map Prod.fst).Sublist [header] := by
  rw [flag]
  split
  · exact List.Sublist.refl _
  · exact List.nil_sublist _

theorem keys_sublist (bytes : List UInt8) : ((pairs bytes).map Prod.fst).Sublist headers := by
  rw [pairs_eq, List.map_cons, List.map_cons, List.map_append]
  have he := keys_flag bytes "x-body-has-error" "error"
  have hw := keys_flag bytes "x-body-has-warning" "warning"
  exact ((he.append hw).cons_cons "x-body-format").cons_cons "x-body-size"

theorem mem_entries_iff {e : String × String} (bytes : List UInt8) :
    e ∈ (Text.Sorted.ofPairs (pairs bytes)).entries ↔ e ∈ pairs bytes :=
  Text.Sorted.mem_ofPairs_iff <| List.pairwise_map.mp <| headers_apart.sublist (keys_sublist bytes)

theorem get?_eq_some_iff {key value : String} (hk : key ∈ headers) (bytes : List UInt8) :
    (mutation bytes).get? key = some value ↔ (key, value) ∈ pairs bytes := by
  let entries := (Text.Sorted.ofPairs (pairs bytes)).entries
  have hn : ((pairs bytes).map Prod.fst).Nodup := (keys_sublist bytes).nodup (by decide)
  have hs {p : String × String} (hf : (entries.find? fun p => Text.sameName p.1 key) = some p) :
      p ∈ pairs bytes ∧ p.1 = key := by
    have hm := (mem_entries_iff bytes).mp (List.mem_of_find?_eq_some hf)
    have hn : Text.sameName p.1 key = true := by simpa using List.find?_some hf
    have hh := (keys_sublist bytes).subset (List.mem_map_of_mem hm)
    exact ⟨hm, eq_of_sameName p.1 hh key hk hn⟩
  rw [mutation, Mutation.get?_ofPairs, Option.map_eq_some_iff]
  constructor
  · rintro ⟨p, hf, rfl⟩
    obtain ⟨hm, rfl⟩ := hs hf
    exact hm
  · intro hm
    have hf : (entries.find? fun p => Text.sameName p.1 key).isSome := by
      rw [List.find?_isSome]
      exact ⟨_, (mem_entries_iff bytes).mpr hm, by simp [Text.sameName]⟩
    obtain ⟨p, hp⟩ := Option.isSome_iff_exists.mp hf
    obtain ⟨hp', hk⟩ := hs hp
    have he := List.inj_on_of_nodup_map hn hp' hm hk
    exact ⟨p, hp, by rw [he]⟩

theorem get?_format (bytes : List UInt8) :
    (mutation bytes).get? "x-body-format" = some (Format.ofText (Utf8.repair bytes)).name := by
  rw [get?_eq_some_iff (by decide), pairs_eq]
  exact List.mem_cons_of_mem _ (List.mem_cons_self ..)

theorem get?_size (bytes : List UInt8) :
    (mutation bytes).get? "x-body-size" = some (Decimal.text bytes.length) := by
  rw [get?_eq_some_iff (by decide), pairs_eq]
  exact List.mem_cons_self ..

theorem isEmpty_mutation (bytes : List UInt8) : (mutation bytes).isEmpty = false :=
  Mutation.isEmpty_of_get? (get?_size bytes)

theorem plain_error : Plain "error".toList := by decide

theorem plain_warning : Plain "warning".toList := by decide

theorem plain_of_mem_keywords : ∀ k ∈ keywords, Plain k.2.toList := by decide

/-- The classifier looks for no word that would be missed, or found, in another form of sigma. -/
theorem mentions_of_lowered {k : String × String} (hk : k ∈ keywords) {bytes : List UInt8}
    {lowered : List Char} (hl : Text.Lowered (Utf8.repair bytes) lowered) :
    Text.mentions k.2.toList lowered = finds bytes k.2 :=
  (plain_of_mem_keywords k hk).mentions_of_lowered hl

theorem finds_iff {word : String} (h : Plain word.toList) (bytes : List UInt8) :
    finds bytes word = true ↔ Bears bytes word := by
  rw [finds, h.mentions_repair_iff, h.bears_iff]

theorem mem_pairs_iff {header word value : String} (h : (header, word) ∈ keywords)
    (bytes : List UInt8) :
    (header, value) ∈ pairs bytes ↔ value = "true" ∧ finds bytes word = true := by
  simp only [keywords, List.mem_cons, Prod.mk.injEq, List.not_mem_nil, or_false] at h
  rcases h with ⟨rfl, rfl⟩ | ⟨rfl, rfl⟩
  · simp [pairs_eq, mem_flag]
  · simp [pairs_eq, mem_flag]

theorem mem_headers_of_mem_keywords : ∀ k ∈ keywords, k.1 ∈ headers := by decide

theorem reports_mutation {header word : String} (h : (header, word) ∈ keywords)
    (bytes : List UInt8) : (mutation bytes).Reports bytes header word := by
  intro value
  rw [get?_eq_some_iff (mem_headers_of_mem_keywords _ h), mem_pairs_iff h,
    finds_iff (plain_of_mem_keywords _ h)]

/-- The words are found exactly where the bytes have them: neither the repair of ill-formed bytes
nor the lower case of what is beyond ASCII makes a match or hides one. -/
theorem builder_reports (body : Body) :
    ∃ m, builder body = .ok m ∧
      m.Reports body.bytes "x-body-has-error" "error" ∧
      m.Reports body.bytes "x-body-has-warning" "warning" ∧
      (finds body.bytes "error" = true ↔ Bears body.bytes "error") ∧
      (finds body.bytes "warning" = true ↔ Bears body.bytes "warning") :=
  ⟨mutation body.bytes, rfl, reports_mutation (by decide) body.bytes,
    reports_mutation (by decide) body.bytes, finds_iff plain_error body.bytes,
    finds_iff plain_warning body.bytes⟩

section Blank

variable {before after : List Char} (hb : Blank before) (ha : Blank after)

theorem foreign_of_blank {word : List Char} (hw : Plain word) {text : List Char}
    (ht : Blank text) : ∀ c ∈ (Text.latin (Utf8.encode text)).map Char.toLower, c ∉ word := by
  intro c hc
  simp only [Text.latin, Utf8.encode, List.mem_map, List.mem_flatMap] at hc
  obtain ⟨_, ⟨b, ⟨d, hd, hm⟩, rfl⟩, rfl⟩ := hc
  have hs := ht d hd
  apply hw.not_mem
  rw [Text.toNat_toLower, Text.toNat_latin]
  rcases Utf8.mem_utf8EncodeChar hm with he | he
  · simp only [Text.isBlank, Bool.or_eq_true, Bool.and_eq_true, decide_eq_true_eq] at hs
    split <;> omega
  · rw [if_neg (by omega)]
    omega

include hb ha

theorem finds_between {word : String} (hw : Plain word.toList) (bytes : List UInt8) :
    finds (Utf8.encode before ++ bytes ++ Utf8.encode after) word = finds bytes word := by
  rw [Bool.eq_iff_iff, finds, finds, hw.mentions_repair_iff, hw.mentions_repair_iff]
  simp only [Text.latin, List.map_append]
  exact Text.infix_between hw.nonempty (foreign_of_blank hw hb) (foreign_of_blank hw ha) _

theorem format_between (bytes : List UInt8) :
    Format.ofText (Utf8.repair (Utf8.encode before ++ bytes ++ Utf8.encode after)) =
      Format.ofText (Utf8.repair bytes) := by
  rw [Utf8.repair_between, Format.ofText, Format.ofText, Text.trim_append_of_blank hb ha]

theorem mutation_between (bytes : List UInt8) :
    let whole := Utf8.encode before ++ bytes ++ Utf8.encode after
    mutation whole = (mutation bytes).resized whole.length := by
  intro whole
  have hf := format_between hb ha bytes
  have he := finds_between hb ha plain_error bytes
  have hw := finds_between hb ha plain_warning bytes
  have hp : pairs whole = (pairs bytes).map fun e =>
      (e.1, if e.1 = "x-body-size" then Decimal.text whole.length else e.2) := by
    rw [pairs_eq, pairs_eq, hf, flag, flag, he, hw, flag, flag]
    cases finds bytes "error" <;> cases finds bytes "warning" <;> rfl
  rw [mutation, mutation, Mutation.resized_ofPairs, hp]
  exact congrArg Mutation.ofPairs <| Text.Sorted.entries_ofPairs_map
    (fun key value => if key = "x-body-size" then Decimal.text whole.length else value) _

end Blank

theorem ordered_mutation (bytes : List UInt8) : (mutation bytes).Ordered :=
  Mutation.ordered_ofPairs _

theorem truncatedHeader_last : ∀ a ∈ headers, Text.Before a truncatedHeader := by decide +kernel

/-- The note on a truncated body comes after every header of the classifier. -/
theorem ordered_merge_note (bytes : List UInt8) :
    ((mutation bytes).merge (.ofPairs [(truncatedHeader, "true")])).Ordered := by
  rw [Mutation.Ordered, Mutation.keys_merge, List.pairwise_append]
  refine ⟨ordered_mutation bytes, List.pairwise_singleton .., ?_⟩
  intro a ha b hb
  rw [mutation, Mutation.keys_ofPairs, List.map_map] at ha
  obtain ⟨e, he, rfl⟩ := List.mem_map.mp ha
  obtain rfl := List.mem_singleton.mp hb
  have hm : e.1 ∈ (pairs bytes).map Prod.fst :=
    List.mem_map_of_mem ((mem_entries_iff bytes).mp he)
  exact truncatedHeader_last e.1 ((keys_sublist bytes).subset hm)

theorem format_name (bytes : List UInt8) :
    (Format.ofText (Utf8.repair bytes)).name ∈ ["json", "xml", "text"] := by
  cases Format.ofText (Utf8.repair bytes) <;> decide

/-- What is made of a body by an engine that keeps the start of a truncated one. -/
def noted (body : Body) : Mutation :=
  if body.truncated then (mutation body.bytes).merge (.ofPairs [(truncatedHeader, "true")])
  else mutation body.bytes

theorem ordered_noted (body : Body) : (noted body).Ordered := by
  rw [noted]
  split
  · exact ordered_merge_note body.bytes
  · exact ordered_mutation body.bytes

theorem set_noted (body : Body) :
    (noted body).set = (mutation body.bytes).set ++
      if body.truncated then [⟨⟨"x-body-truncated", "true"⟩, .overwriteOrAdd⟩] else [] := by
  rw [noted]
  split
  · rfl
  · rw [List.append_nil]

theorem judge_keepStart (delivery : Bool) (body : Body) :
    Engine.judge ⟨builder, delivery, .keepStart⟩ body = (.computed, some (noted body)) := by
  have he : (noted body).isEmpty = false := by
    rw [noted]
    split
    · simp [Mutation.isEmpty, Mutation.merge, Mutation.ofPairs]
    · exact isEmpty_mutation body.bytes
  rw [noted] at he ⊢
  simp [Engine.judge, builder, he]

/-- White space around a body, in any of its spellings and even next to ill-formed bytes, changes
nothing but the size. The keys ascend, before and after the note on a truncated body is added. -/
theorem steady_and_ordered :
    (∀ (before after : List Char) (bytes : List UInt8) (truncated : Bool), Blank before →
      Blank after →
      let whole := Utf8.encode before ++ bytes ++ Utf8.encode after
      ∃ m, builder ⟨bytes, truncated⟩ = .ok m ∧
        builder ⟨whole, truncated⟩ = .ok (m.resized whole.length)) ∧
    (∀ body : Body, ∃ m, builder body = .ok m ∧ m.Ordered ∧
      (∃ format ∈ ["json", "xml", "text"], m.get? "x-body-format" = some format) ∧
      m.get? "x-body-size" = some (Decimal.text body.bytes.length)) ∧
    ∀ (delivery : Bool) (body : Body) (p : Phase) (s : Store),
      let e : Engine := ⟨builder, delivery, .keepStart⟩
      ∃ m added, builder body = .ok m ∧ e.judge body = (.computed, some added) ∧
        (e.respond p (some body) s).2.reply.mutation = some added ∧ added.Ordered ∧
        added.set = m.set ++
          if body.truncated then [⟨⟨"x-body-truncated", "true"⟩, .overwriteOrAdd⟩] else [] := by
  refine ⟨?_, ?_, ?_⟩
  · intro before after bytes truncated hb ha whole
    exact ⟨mutation bytes, rfl, congrArg Except.ok (mutation_between hb ha bytes)⟩
  · intro body
    exact ⟨mutation body.bytes, rfl, ordered_mutation body.bytes,
      ⟨_, format_name body.bytes, get?_format body.bytes⟩, get?_size body.bytes⟩
  · intro delivery body p s e
    have hj : e.judge body = (.computed, some (noted body)) := judge_keepStart delivery body
    refine ⟨mutation body.bytes, noted body, rfl, hj, ?_, ordered_noted body, set_noted body⟩
    rw [Engine.snd_respond, Option.bind_some, ← Engine.snd_judge, hj]
    simp [Engine.answerWith, Answer.change, Mutation.empty_merge]

/-- A stray byte comes first and an unfinished character last, with an em space right after it. -/
theorem steady_next_to_ill_formed :
    let bytes : List UInt8 := [0x80, 0x65, 0x52, 0x52, 0x4F, 0x72, 0xE2]
    let whole := Utf8.encode [' '] ++ bytes ++ Utf8.encode ['\u2003']
    Blank [' '] ∧ Blank ['\u2003'] ∧
      builder ⟨bytes, true⟩ = .ok (.ofPairs [("x-body-format", "text"),
        ("x-body-has-error", "true"), ("x-body-size", "7")]) ∧
      builder ⟨whole, true⟩ = .ok (.ofPairs [("x-body-format", "text"),
        ("x-body-has-error", "true"), ("x-body-size", "11")]) := by
  intro bytes whole
  have hb : Blank [' '] := by simp only [Blank, List.forall_mem_singleton]; rfl
  have ha : Blank ['\u2003'] := by simp only [Blank, List.forall_mem_singleton]; rfl
  have hm : builder ⟨bytes, true⟩ = .ok (.ofPairs [("x-body-format", "text"),
      ("x-body-has-error", "true"), ("x-body-size", "7")]) :=
    congrArg Except.ok (by decide +kernel)
  obtain ⟨m, hs, hw⟩ := steady_and_ordered.1 [' '] ['\u2003'] bytes true hb ha
  obtain rfl : Mutation.ofPairs _ = m := Except.ok.inj (hm.symm.trans hs)
  exact ⟨hb, ha, hm, hw.trans (congrArg Except.ok (by decide +kernel))⟩

end Classifier

end BodyCallout
