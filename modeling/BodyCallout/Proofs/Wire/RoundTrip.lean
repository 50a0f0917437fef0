import BodyCallout.Proofs.Json.OneLine
import BodyCallout.Proofs.Json.Unions
import BodyCallout.Proofs.Wire.Reading

set_option autoImplicit false

namespace BodyCallout

open Data Json

/-- Frames that are told apart by how they are written, and nest no deeper than they are read. -/
structure Faithful (α : Type) [Framed α] : Prop where
  proper : (Framed.union α).proper = true
  height : (Framed.union α).cases.height ≤ maxDepth

theorem faithful_inbound : Faithful Inbound := ⟨by decide, by decide⟩

theorem faithful_outbound : Faithful Outbound := ⟨by decide, by decide⟩

section

variable {α : Type} [Framed α]

theorem Faithful.decodeFrame_text (h : Faithful α) (a : α) :
    decodeFrame α (Utf8.encode (writeFrame a)) = .ok a := by
  rw [decodeFrame, writeFrame, Union.decode_write h.proper h.height]
  exact congrArg Except.ok (Framed.ofValues_toValues a)

theorem newline_not_mem_text (a : α) : newline ∉ Utf8.encode (writeFrame a) :=
  ((Framed.union α).oneLine_write (Framed.toValues a)).newline_not_mem

theorem isBlankLine_text (a : α) : Text.isBlankLine (Utf8.encode (writeFrame a)) = false := rfl

theorem Faithful.receive_text (h : Faithful α) (limit : Nat) (a : α) :
    receive α limit (.whole (Utf8.encode (writeFrame a))) = some (.frame a) := by
  rw [receive, isBlankLine_text, h.decodeFrame_text]
  rfl

/-- Frames within the limit are told, whatever comes after them. -/
theorem Faithful.told_frames_append (h : Faithful α) {limit : Nat} {frames : List α}
    (hf : ∀ a ∈ frames, (Utf8.encode (writeFrame a)).length ≤ limit) (rest : List UInt8) :
    told α limit (frames.flatMap encodeFrame ++ rest) =
      frames.map (some ∘ .frame) ++ told α limit rest := by
  induction frames with
  | nil => rfl
  | cons a frames ih =>
    have hs : (a :: frames).flatMap encodeFrame ++ rest =
        Utf8.encode (writeFrame a) ++ newline :: (frames.flatMap encodeFrame ++ rest) := by
      simp [encodeFrame]
    rw [hs, told_whole (newline_not_mem_text a) (hf a (.head _)), ahead, h.receive_text]
    change some (.frame a) :: untilOver (told α limit _) = _
    rw [untilOver_told, ih fun b hb => hf b (.tail a hb)]
    rfl

theorem Faithful.told_frames (h : Faithful α) {limit : Nat} {frames : List α}
    (hf : ∀ a ∈ frames, (Utf8.encode (writeFrame a)).length ≤ limit) :
    told α limit (frames.flatMap encodeFrame) = frames.map (some ∘ .frame) ++ [none] := by
  have ht := h.told_frames_append hf []
  rwa [List.append_nil, told_nil] at ht

end

/-- A direction in which frames are read back. A frame's text is read as the frame, and the newline
that ends it is its only one; frames within the limit, whatever the pieces that their bytes come in
and whatever calls are given up, are told in order and then the end. -/
structure RoundTrips (α : Type) [Framed α] : Prop where
  decode : ∀ a : α, decodeFrame α (Utf8.encode (writeFrame a)) = .ok a
  encode : ∀ a : α, encodeFrame a = Utf8.encode (writeFrame a) ++ [newline] ∧
    newline ∉ Utf8.encode (writeFrame a)
  read : ∀ (limit : Nat) (frames : List α),
    (∀ a ∈ frames, (Utf8.encode (writeFrame a)).length ≤ limit) →
    ∀ before after : List Move, Move.input before = frames.flatMap encodeFrame →
      frames.length < after.count .call →
      untilOver ((Reader.start : Reader limit).results α (before ++ .close :: after)) =
        frames.map (some ∘ .frame) ++ [none]

theorem Faithful.roundTrips {α : Type} [Framed α] (h : Faithful α) : RoundTrips α where
  decode := h.decodeFrame_text
  encode a := ⟨rfl, newline_not_mem_text a⟩
  read limit frames hf before after hi hk := by
    have ht := h.told_frames hf
    have hl : (told α limit (Move.input before)).length ≤ after.count .call := by
      rw [hi, ht, List.length_append, List.length_map]
      exact hk
    rw [Reader.results_of_closed before after hl, hi, ht]

/-- A value is read back from the tree of its text, if that nests no deeper than texts are read. -/
theorem ofTree_of_encode {α : Type} [Described α] (hp : (Described.shape α).proper = true)
    (hd : (Described.shape α).height ≤ maxDepth) (a : α) :
    ∃ t, readTree (encode a) = .ok t ∧ ofTree α t = .ok a := by
  let s := Described.shape α
  let v : s.Value := Described.toValue a
  refine ⟨s.tree v, ?_, ?_⟩
  · rw [encode, write, readTree, (s.spells_write v).outline_eq]
    change ((s.outline v).tree maxDepth >>= _) = _
    rw [s.tree_outline hp v maxDepth hd]
    rfl
  · rw [ofTree, s.held_tree rfl hp v]
    exact congrArg Except.ok (Described.ofValue_toValue a)

theorem events_and_answers_held_as_trees :
    (∀ e : Event, ∃ t, readTree (encode e) = .ok t ∧ ofTree Event t = .ok e) ∧
      ∀ a : Answer, ∃ t, readTree (encode a) = .ok t ∧ ofTree Answer t = .ok a :=
  ⟨ofTree_of_encode (by decide) (by decide), ofTree_of_encode (by decide) (by decide)⟩

/-- Both directions: every frame there is, with any number, text, header list, body, mutation and
mode. -/
theorem frames_round_trip : RoundTrips Inbound ∧ RoundTrips Outbound :=
  ⟨faithful_inbound.roundTrips, faithful_outbound.roundTrips⟩

end BodyCallout
