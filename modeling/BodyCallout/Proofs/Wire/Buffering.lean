import BodyCallout.Proofs.Json.Gathering
import BodyCallout.Wire.Frame

set_option autoImplicit false

namespace BodyCallout.Data

open Json

/-- A tagged value whose content is held until its tag is met is the value that is read with the tag
before the content, if that spelling of the content may be read. -/
theorem Shape.read_swapped {title tag content : String} {cases : Cases} (hne : tag ≠ content)
    {name : String} {o : Outline} {depth : Nat} {v : cases.Values}
    (h : (Shape.tagged title tag content cases).read (depth + 1)
      (.object (.ofList [(content, o), (tag, .text (some name))])) = .ok v) :
    ∃ t, o.tree depth = .ok t ∧ ∀ w, (Shape.tagged title tag content cases).read (depth + 1)
        (.object (.ofList [(tag, .text (some name)), (content, o)])) = .ok w ↔
      w = v ∧ (Shape.tagged title tag content cases).strict
        (.object [(tag, .text name), (content, t)]) = true := by
  have hn : (Members.ofList [(content, o), (tag, .text (some name))]).next tag content =
      .ok (.content o (.ofList [(tag, .text (some name))])) := by
    change (if content = tag then _ else if content = content then _ else _) = _
    rw [if_neg hne.symm, if_pos rfl]
  have hr := h
  simp only [Shape.read, hn] at hr
  obtain ⟨_, ⟨⟩, hr⟩ := bind_eq_ok_iff.mp hr
  obtain ⟨t, ht, -⟩ := bind_eq_ok_iff.mp hr
  -- Both spellings hold their members, in the one order and the other.
  have hb : (Outline.object (.ofList [(content, o), (tag, .text (some name))])).tree (depth + 1) =
      .ok (.object [(content, t), (tag, .text name)]) :=
    Outline.tree_object (.member ht (.member rfl .closed))
  have hd : (Outline.object (.ofList [(tag, .text (some name)), (content, o)])).tree (depth + 1) =
      .ok (.object [(tag, .text name), (content, t)]) :=
    Outline.tree_object (.member rfl (.member ht .closed))
  have hh : (Shape.tagged title tag content cases).held heldDialect
        (.object [(content, t), (tag, .text name)]) =
      (Shape.tagged title tag content cases).held heldDialect
        (.object [(tag, .text name), (content, t)]) := by
    simp only [Shape.held, view_heldDialect, Tree.view, heldRelevant, if_neg hne, if_neg hne.symm,
      if_true]
  obtain ⟨-, hv⟩ := ((Shape.tagged title tag content cases).read_iff _ hb v).mp h
  refine ⟨t, ht, fun w => ?_⟩
  rw [Shape.read_iff _ _ hd w, ← hh, hv, Except.ok.injEq, and_comm, eq_comm (a := v)]

theorem Shape.held_pair {D : Dialect Tree} (hD : D.view = Tree.view) {title first second : String}
    {a b : Shape} (hne : first ≠ second) {s t : Tree} {members : List (String × Tree)}
    (hp : members.Perm [(first, s), (second, t)]) {v : a.Value × b.Value × Unit} :
    (Shape.record title (.must first a (.must second b .done))).held D (.object members) = .ok v ↔
      a.held D s = .ok v.1 ∧ b.held D t = .ok v.2.1 := by
  obtain ⟨before, after, rfl, hr⟩ := exists_between_of_perm hp
  have hl : before ++ after = [(second, t)] := List.perm_singleton.mp hr
  have hm : ∀ m ∈ before ++ after, m.1 ≠ first := by simp [hl, hne.symm]
  have ha (slots) : (Fields.must first a (.must second b .done)).takeHeld D (none, none, ())
      (before ++ (first, s) :: after) = .ok slots ↔
        (a.held D s).map some = .ok slots.1 ∧ (b.held D t).map some = .ok slots.2.1 := by
    obtain ⟨slot, slot', ⟨⟩⟩ := slots
    refine (Fields.takeAll_must_between hm).trans (and_congr_right fun _ => ?_)
    rw [hl]
    exact (Fields.takeAll_must_cons (List.forall_mem_nil _)).trans (and_iff_left rfl)
  have hv : D.view (.object (before ++ (first, s) :: after)) =
      .map (before ++ (first, s) :: after) := by
    rw [hD]
    rfl
  simp only [held_record_map hv, bind_eq_ok_iff, Fields.vacant, ha]
  constructor
  · rintro ⟨⟨slot, slot', ⟨⟩⟩, ⟨hs, ht⟩, hf⟩
    obtain ⟨x, hx, rfl⟩ := map_eq_ok_iff.mp hs
    obtain ⟨y, hy, rfl⟩ := map_eq_ok_iff.mp ht
    cases hf
    exact ⟨hx, hy⟩
  · rintro ⟨hs, ht⟩
    exact ⟨(some v.1, some v.2.1, ()), ⟨by rw [hs]; rfl, by rw [ht]; rfl⟩, rfl⟩

end BodyCallout.Data

namespace BodyCallout.Json

open Data

def treeOf (text : List Char) : Reading Tree := (outlineOf text).tree (maxDepth - 1)

namespace Union

/-- A union whose first case is the number of a stream and one thing more. -/
abbrev ofStream (title tag name recordTitle key : String) (s : Shape) (others : Cases) : Union where
  title := title
  tag := tag
  cases := .case name (.record recordTitle <|
    .must "stream" (Described.shape UInt64) <| .must key s .done) others

/-- Whatever the order of its members, the thing beside a stream's number is held as a tree and read
from that. -/
theorem decode_ofStream {title tag name recordTitle key : String} {s : Shape} {others : Cases}
    (hn : (name :: others.names).Nodup) (hk : [tag, "stream", key].Nodup) {n : UInt64}
    {text : List Char} (ht : WellFormed text) {entries : List (String × List Char)}
    (hp : entries.Perm [(tag, writeText name), ("stream", Decimal.digits n.toNat), (key, text)])
    {v : (ofStream title tag name recordTitle key s others).cases.Values}
    (h : (ofStream title tag name recordTitle key s others).decode
      (Utf8.encode (objectText entries)) = .ok v) :
    ∃ t w, treeOf text = .ok t ∧ s.held heldDialect t = .ok w ∧ v = .inl (n.toFin, w, ()) := by
  have hf : ∀ e ∈ entries, Follows e.2 (outlineOf e.2) := by
    intro e he
    have hm := hp.subset he
    simp only [List.mem_cons, List.not_mem_nil, or_false] at hm
    rcases hm with rfl | rfl | rfl
    · exact follows_text name
    · exact follows_digits n.toNat
    · exact ht.follows
  rw [decode, readWhole, outlineOf_objectText hf] at h
  obtain ⟨_, hr, ⟨⟩⟩ := bind_eq_ok_iff.mp h
  change read _ (maxDepth - 1 + 1) _ = _ at hr
  have ha := hr
  rw [read] at ha
  obtain ⟨met, ha, -⟩ := bind_eq_ok_iff.mp ha
  obtain ⟨ts, hm⟩ := holds_of_readAll _ _ ha
  obtain ⟨g, hg, rfl⟩ := hm.exists_trees
  have htag : g (tag, writeText name) = .text name := by
    have h := hg _ (hp.symm.subset (.head _))
    rw [outlineOf_text] at h
    exact (Except.ok.inj h).symm
  have hstream : g ("stream", Decimal.digits n.toNat) = .number (.natural n.toNat) := by
    have h := hg _ (hp.symm.subset (.tail _ (.head _)))
    rw [outlineOf_digits] at h
    simp only [Outline.tree, readNumber, value?_places n.toNat_lt] at h
    exact (Except.ok.inj h).symm
  have htext := hg _ (hp.symm.subset (.tail _ (.tail _ (.head _))))
  obtain ⟨before, after, rfl, hb⟩ := exists_between_of_perm hp
  have hb := hb.map fun e => (e.1, g e)
  simp only [List.map_append, List.map_cons, List.map_nil, htag, hstream] at hm hb hr
  have hne : ∀ m ∈ before.map (fun e => (e.1, g e)) ++ after.map (fun e => (e.1, g e)),
      m.1 ≠ tag := by
    intro m hm
    have hm := hb.subset hm
    simp only [List.mem_cons, List.not_mem_nil, or_false] at hm
    simp only [List.nodup_cons, List.mem_cons, List.not_mem_nil, or_false, not_or] at hk
    rcases hm with rfl | rfl
    · exact Ne.symm hk.1.1
    · exact Ne.symm hk.1.2
  obtain ⟨i, hi, hv⟩ := (read_object_iff _ hm hne v).mp hr
  have h0 : chosen (name :: others.names) name = .ok ⟨0, Nat.zero_lt_succ _⟩ :=
    chosen_name hn ⟨0, Nat.zero_lt_succ _⟩
  cases Except.ok.inj (hi.symm.trans h0)
  obtain ⟨⟨k, w, ⟨⟩⟩, hl, rfl⟩ := map_eq_ok_iff.mp hv
  have hne : "stream" ≠ key := by simp_all
  obtain ⟨hs, hw⟩ := (Shape.held_pair (D := heldDialect) rfl hne hb).mp hl
  change (if h : n.toNat < UInt64.size then .ok ⟨n.toNat, h⟩ else _) = Except.ok k at hs
  rw [dif_pos n.toNat_lt] at hs
  exact ⟨_, w, htext, hw, by rw [← Except.ok.inj hs]; rfl⟩

end Union

end BodyCallout.Json

namespace BodyCallout

open Data Json

/-- A text that is spelled as direct reading wants it. -/
def Strict (α : Type) [Described α] (text : List Char) : Prop :=
  ∃ t, readTree (Utf8.encode text) = .ok t ∧ (Described.shape α).strict t = true

section

variable {α : Type} [Described α]

theorem decode_eq_ok_iff {text : List Char} {o : Outline}
    (h : outline (Utf8.encode text) = ⟨o, false⟩) {a : α} :
    decode α (Utf8.encode text) = .ok a ↔
      ∃ v, (Described.shape α).read maxDepth o = .ok v ∧ Described.ofValue v = a := by
  have hd : Json.decode (Described.shape α) (Utf8.encode text) =
      (Described.shape α).read maxDepth o := by
    rw [Json.decode, readWhole, h]
    cases (Described.shape α).read maxDepth o <;> rfl
  rw [decode, hd, map_eq_ok_iff]

theorem readTree_eq {text : List Char} {o : Outline}
    (h : outline (Utf8.encode text) = ⟨o, false⟩) {t : Tree} (ht : o.tree maxDepth = .ok t) :
    readTree (Utf8.encode text) = .ok t := by
  rw [readTree, h]
  change (o.tree maxDepth >>= _) = _
  rw [ht]
  rfl

theorem strict_iff {text : List Char} {t : Tree} (h : readTree (Utf8.encode text) = .ok t) :
    Strict α text ↔ (Described.shape α).strict t = true := by
  simp only [Strict, h, Except.ok.injEq, exists_eq_left']

/-- What is read of the tree of a text is read of the text, if that is strict, and nothing else. -/
theorem decode_iff_of_held {text : List Char} (hw : WellFormed text) {t : Tree}
    (ht : (outlineOf text).tree maxDepth = .ok t) {v : (Described.shape α).Value}
    (hv : (Described.shape α).held heldDialect t = .ok v) (a : α) :
    decode α (Utf8.encode text) = .ok a ↔ a = Described.ofValue v ∧ Strict α text := by
  rw [decode_eq_ok_iff hw.outline_eq, strict_iff (readTree_eq hw.outline_eq ht)]
  simp only [(Described.shape α).read_iff _ ht, hv, Except.ok.injEq]
  constructor
  · rintro ⟨_, ⟨hs, rfl⟩, rfl⟩
    exact ⟨rfl, hs⟩
  · rintro ⟨rfl, hs⟩
    exact ⟨v, ⟨hs, rfl⟩, rfl⟩

end

def payloadFirst (phase : String) (payload : List Char) : List Char :=
  objectText [("payload", payload), ("phase", writeText phase)]

def phaseFirst (phase : String) (payload : List Char) : List Char :=
  objectText [("phase", writeText phase), ("payload", payload)]

theorem outline_payloadFirst (phase : String) {payload : List Char} (h : WellFormed payload) :
    outline (Utf8.encode (payloadFirst phase payload)) =
      ⟨.object (.ofList [("payload", outlineOf payload), ("phase", .text (some phase))]), false⟩ := by
  rw [payloadFirst, outlineOf_objectText]
  · simp [outlineOf_text]
  · simpa using ⟨h.follows, follows_text phase⟩

theorem outline_phaseFirst (phase : String) {payload : List Char} (h : WellFormed payload) :
    outline (Utf8.encode (phaseFirst phase payload)) =
      ⟨.object (.ofList [("phase", .text (some phase)), ("payload", outlineOf payload)]), false⟩ := by
  rw [phaseFirst, outlineOf_objectText]
  · simp [outlineOf_text]
  · simpa using ⟨follows_text phase, h.follows⟩

theorem decode_phaseFirst_iff {α : Type} [Described α] {phase : String} {payload : List Char}
    (hw : WellFormed payload)
    (hs : ∀ {v}, (Described.shape α).read maxDepth (.object (.ofList
        [("payload", outlineOf payload), ("phase", .text (some phase))])) = .ok v →
      ∃ t, (outlineOf payload).tree (maxDepth - 1) = .ok t ∧
        ∀ w, (Described.shape α).read maxDepth (.object (.ofList
            [("phase", .text (some phase)), ("payload", outlineOf payload)])) = .ok w ↔
          w = v ∧ (Described.shape α).strict
            (.object [("phase", .text phase), ("payload", t)]) = true) {a : α}
    (h : decode α (Utf8.encode (payloadFirst phase payload)) = .ok a) :
    ∃ t, readTree (Utf8.encode (phaseFirst phase payload)) =
        .ok (.object [("phase", .text phase), ("payload", t)]) ∧
      ∀ b, decode α (Utf8.encode (phaseFirst phase payload)) = .ok b ↔
        b = a ∧ Strict α (phaseFirst phase payload) := by
  obtain ⟨v, hv, rfl⟩ := (decode_eq_ok_iff (outline_payloadFirst phase hw)).mp h
  obtain ⟨t, ht, hd⟩ := hs hv
  have hr := readTree_eq (outline_phaseFirst phase hw)
    (Outline.tree_object (.member rfl (.member ht .closed)))
  refine ⟨t, hr, fun b => ?_⟩
  rw [decode_eq_ok_iff (outline_phaseFirst phase hw), strict_iff hr]
  simp only [hd]
  constructor
  · rintro ⟨_, ⟨rfl, hs⟩, rfl⟩
    exact ⟨rfl, hs⟩
  · rintro ⟨rfl, hs⟩
    exact ⟨v, ⟨rfl, hs⟩, rfl⟩

/-- An event has no choice but its phase: whatever its payload, it may be read directly. -/
theorem strict_event_of_phaseFirst (phase : String) (t : Tree) :
    Event.shape.strict (.object [("phase", .text phase), ("payload", t)]) = true := by
  have hc (i) : (phaseCases HeaderPart.shape BodyPart.shape TrailerPart.shape).strictAs i t = true :=
    Cases.strictAs_of_arePlain _ (by decide) i t
  simp only [Shape.strict, heldRelevant, namedPlainly, if_true, Bool.true_and]
  split
  · next hi hr =>
    cases hr
    exact hc _
  · rfl

theorem decode_event_of_payloadFirst {phase : String} {payload : List Char}
    (hw : WellFormed payload) {x : Event}
    (h : decode Event (Utf8.encode (payloadFirst phase payload)) = .ok x) :
    decode Event (Utf8.encode (phaseFirst phase payload)) = .ok x := by
  obtain ⟨t, hr, hd⟩ := decode_phaseFirst_iff hw (Shape.read_swapped (by decide)) h
  exact (hd x).mpr ⟨rfl, (strict_iff hr).mpr (strict_event_of_phaseFirst phase t)⟩

theorem decodeFrame_inbound {n : UInt64} {text : List Char} (hw : WellFormed text)
    {entries : List (String × List Char)}
    (hp : entries.Perm [("type", writeText "message"), ("stream", Decimal.digits n.toNat),
      ("message", text)]) {f : Inbound}
    (h : decodeFrame Inbound (Utf8.encode (objectText entries)) = .ok f) :
    ∃ x, f = .message n x ∧
      ∀ y, decode Event (Utf8.encode text) = .ok y ↔ y = x ∧ Strict Event text := by
  obtain ⟨v, hv, rfl⟩ := map_eq_ok_iff.mp h
  obtain ⟨t, w, ht, hw', rfl⟩ := Union.decode_ofStream (by decide) (by decide) hw hp hv
  exact ⟨valueOf Event w, rfl, decode_iff_of_held hw (Outline.tree_mono _ (by decide) ht) hw'⟩

theorem decodeFrame_outbound {n : UInt64} {text : List Char} (hw : WellFormed text)
    {entries : List (String × List Char)}
    (hp : entries.Perm [("type", writeText "response"), ("stream", Decimal.digits n.toNat),
      ("response", text)]) {f : Outbound}
    (h : decodeFrame Outbound (Utf8.encode (objectText entries)) = .ok f) :
    ∃ x, f = .answer n x ∧
      ∀ y, decode Answer (Utf8.encode text) = .ok y ↔ y = x ∧ Strict Answer text := by
  obtain ⟨v, hv, rfl⟩ := map_eq_ok_iff.mp h
  obtain ⟨t, w, ht, hw', rfl⟩ := Union.decode_ofStream (by decide) (by decide) hw hp hv
  exact ⟨valueOf Answer w, rfl, decode_iff_of_held hw (Outline.tree_mono _ (by decide) ht) hw'⟩

/-- What is decoded from a buffer is decoded directly, from every text of a payload, an event or an
answer that is spelled strictly, and from no other text is anything else decoded. An event is decoded
with its phase before its payload whatever its payload. -/
theorem buffered_decoding_agrees_with_direct :
    (∀ phase payload x, WellFormed payload →
      decode Event (Utf8.encode (payloadFirst phase payload)) = .ok x →
      decode Event (Utf8.encode (phaseFirst phase payload)) = .ok x) ∧
    (∀ phase payload x, WellFormed payload →
      decode Reply (Utf8.encode (payloadFirst phase payload)) = .ok x →
      ∀ y, decode Reply (Utf8.encode (phaseFirst phase payload)) = .ok y ↔
        y = x ∧ Strict Reply (phaseFirst phase payload)) ∧
    (∀ (n : UInt64) text entries f, WellFormed text →
      entries.Perm [("type", writeText "message"), ("stream", Decimal.digits n.toNat),
        ("message", text)] →
      decodeFrame Inbound (Utf8.encode (objectText entries)) = .ok f →
      ∃ x, f = .message n x ∧
        ∀ y, decode Event (Utf8.encode text) = .ok y ↔ y = x ∧ Strict Event text) ∧
    ∀ (n : UInt64) text entries f, WellFormed text →
      entries.Perm [("type", writeText "response"), ("stream", Decimal.digits n.toNat),
        ("response", text)] →
      decodeFrame Outbound (Utf8.encode (objectText entries)) = .ok f →
      ∃ x, f = .answer n x ∧
        ∀ y, decode Answer (Utf8.encode text) = .ok y ↔ y = x ∧ Strict Answer text := by
  refine ⟨fun phase payload x hw h => decode_event_of_payloadFirst hw h,
    fun phase payload x hw h => ?_, fun n text entries f hw hp h => decodeFrame_inbound hw hp h,
    fun n text entries f hw hp h => decodeFrame_outbound hw hp h⟩
  obtain ⟨-, -, hd⟩ := decode_phaseFirst_iff hw (Shape.read_swapped (by decide)) h
  exact hd

theorem ne_ok_of_toOption {α : Type} {r : Reading α} (h : r.toOption = none) (a : α) :
    r ≠ .ok a := by
  rintro rfl
  cases h

/-- A payload with what an event has, one header, and what a reply has, a mutation with an action of
its own. Each knows nothing of the other. -/
def payloadWithAction : List Char :=
  objectText [("headers", bracket '[' ']' [objectText
      [("value", writeText "x\ny"), ("key", writeText "host")]]),
    ("header_mutation", objectText [("remove_headers", bracket '[' ']' [writeText "via"]),
      ("set_headers", bracket '[' ']' [objectText
        [("append_action", writeText "add_if_absent"),
          ("header", objectText [("key", writeText "a"), ("value", writeText "b")])]])]),
    ("end_of_stream", writeBoolean true)]

/-- The payload is decoded alike before and after its phase, and so are an event and an answer with
it in a frame and alone. -/
theorem payload_with_action_decodes_alike :
    let text := phaseFirst "request_headers" payloadWithAction
    let answer := objectText [("mode_override", objectText
      [("response_body_mode", writeText "streamed")]), ("response", text)]
    let e : Event := .headers .request ⟨[⟨"host", "x\ny"⟩], true⟩
    let r : Reply := .headers .request ⟨some ⟨[⟨⟨"a", "b"⟩, .addIfAbsent⟩], ["via"]⟩, false⟩
    WellFormed payloadWithAction ∧
    (decode Event (Utf8.encode text) = .ok e ∧ Strict Event text) ∧
    (decode Reply (Utf8.encode text) = .ok r ∧ Strict Reply text) ∧
    (decode Answer (Utf8.encode answer) = .ok ⟨r, some ⟨.skipped, .streamed⟩⟩ ∧
      Strict Answer answer) := by
  intro text answer e r
  obtain ⟨he, hr, hi, ho⟩ := buffered_decoding_agrees_with_direct
  have hw : WellFormed payloadWithAction := ⟨by decide +kernel, by decide +kernel⟩
  have hm : WellFormed text := ⟨by decide +kernel, by decide +kernel⟩
  have ha : WellFormed answer := ⟨by decide +kernel, by decide +kernel⟩
  have hd := he "request_headers" _ e hw (eq_ok_of_toOption (by decide +kernel))
  have hy : decode Reply (Utf8.encode text) = .ok r := eq_ok_of_toOption (by decide +kernel)
  have hz : decode Answer (Utf8.encode answer) = .ok ⟨r, some ⟨.skipped, .streamed⟩⟩ :=
    eq_ok_of_toOption (by decide +kernel)
  have hs := hr "request_headers" _ r hw (eq_ok_of_toOption (by decide +kernel)) r
  obtain ⟨x, -, hx⟩ := hi 7 _ _ (.message 7 e) hm (.refl _) (eq_ok_of_toOption (by decide +kernel))
  obtain ⟨a, -, hb⟩ := ho 7 _ _ (.answer 7 ⟨r, some ⟨.skipped, .streamed⟩⟩) ha (.refl _)
    (eq_ok_of_toOption (by decide +kernel))
  exact ⟨hw, ⟨hd, ((hx e).mp hd).2⟩, ⟨hy, (hs.mp hy).2⟩, ⟨hz, ((hb _).mp hz).2⟩⟩

/-- A payload whose action has an empty object under its name. -/
def actionOverEmpty : List Char :=
  objectText [("header_mutation", objectText [("set_headers", bracket '[' ']' [objectText
    [("header", objectText [("key", writeText "a"), ("value", writeText "b")]),
      ("append_action", objectText [("add_if_absent", objectText [])])]])])]

/-- An event whose phase is given by its place. -/
def phaseByPlace : List Char := bracket '[' ']' [Decimal.digits 0, objectText []]

/-- Both are decoded from a buffer, and neither is decoded directly. -/
theorem lax_spellings_are_refused_directly :
    (WellFormed actionOverEmpty ∧
      decode Reply (Utf8.encode (payloadFirst "request_headers" actionOverEmpty)) =
        .ok (.headers .request ⟨some ⟨[⟨⟨"a", "b"⟩, .addIfAbsent⟩], []⟩, false⟩) ∧
      ∀ y, decode Reply (Utf8.encode (phaseFirst "request_headers" actionOverEmpty)) ≠ .ok y) ∧
    WellFormed phaseByPlace ∧
      decodeFrame Inbound (Utf8.encode (objectText [("type", writeText "message"),
          ("stream", Decimal.digits 0), ("message", phaseByPlace)])) =
        .ok (.message 0 (.headers .request ⟨[], false⟩)) ∧
      ∀ y, decode Event (Utf8.encode phaseByPlace) ≠ .ok y :=
  ⟨⟨⟨by decide +kernel, by decide +kernel⟩, eq_ok_of_toOption (by decide +kernel),
      ne_ok_of_toOption (by decide +kernel)⟩,
    ⟨by decide +kernel, by decide +kernel⟩, eq_ok_of_toOption (by decide +kernel),
    ne_ok_of_toOption (by decide +kernel)⟩

end BodyCallout
