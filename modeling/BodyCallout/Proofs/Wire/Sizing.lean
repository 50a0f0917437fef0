import Mathlib.Data.Nat.Digits.Defs
import BodyCallout.Proofs.Wire.RoundTrip
import BodyCallout.Settings.Basic

set_option autoImplicit false

namespace BodyCallout

open Data

namespace Json

def extent (text : List Char) : Nat := (Utf8.encode text).length

theorem extent_append (a b : List Char) : extent (a ++ b) = extent a + extent b := by
  rw [extent, Utf8.encode_append, List.length_append]
  rfl

theorem extent_cons {c : Char} (h : c.toNat < 0x80) (text : List Char) :
    extent (c :: text) = extent text + 1 := by
  have hc : extent [c] = 1 := by
    rw [extent, Utf8.encode_singleton, String.length_utf8EncodeChar]
    exact Char.utf8Size_eq_one_iff.mpr (UInt32.le_iff_toNat_le.mpr (Nat.le_of_lt_succ h))
  rw [← List.singleton_append, extent_append, hc, Nat.add_comm]

theorem extent_of_ascii {text : List Char} (h : ∀ c ∈ text, c.toNat < 0x80) :
    extent text = text.length := by
  induction text with
  | nil => rfl
  | cons c text ih =>
    rw [extent_cons (h c (.head _)), ih fun d hd => h d (.tail c hd), List.length_cons]

theorem extent_digits_le {n k : Nat} (hk : 0 < k) (h : n < 10 ^ k) :
    extent (Decimal.digits n) ≤ k := by
  rw [extent_of_ascii fun c hc => ?_]
  · exact Nat.toDigits_length 10 n k hk h
  · have hd := Nat.isDigit_of_mem_toDigits (by decide) (by decide) hc
    simp only [Char.isDigit, Bool.and_eq_true, decide_eq_true_eq, UInt32.le_iff_toNat_le] at hd
    exact Nat.lt_of_le_of_lt hd.2 (by decide)

theorem extent_boolean_le (b : Bool) : extent (writeBoolean b) ≤ 5 := by cases b <;> decide

theorem extent_member (key : String) (value : List Char) :
    extent (member key value) = extent (writeText key) + 1 + extent value := by
  rw [member, extent_append, extent_cons (by decide)]
  omega

theorem extent_intercalate_le (entries : List (List Char)) :
    extent ([','].intercalate entries) ≤ (entries.map fun e => extent e + 1).sum := by
  induction entries with
  | nil => exact Nat.zero_le _
  | cons e entries ih =>
    cases entries with
    | nil => simp
    | cons f rest =>
      rw [intercalate_cons, extent_append, extent_cons (by decide),
        List.map_cons, List.sum_cons]
      omega

theorem extent_bracket_le {first last : Char} (hf : first.toNat < 0x80) (hl : last.toNat < 0x80)
    (entries : List (List Char)) :
    extent (bracket first last entries) ≤ (entries.map fun e => extent e + 1).sum + 2 := by
  have hi := extent_intercalate_le entries
  have hn : extent [] = 0 := rfl
  rw [bracket, List.cons_append, extent_cons hf, extent_append, extent_cons hl, hn]
  omega

theorem extent_braces_le (entries : List (List Char)) :
    extent (bracket openBrace closeBrace entries) ≤ (entries.map fun e => extent e + 1).sum + 2 :=
  extent_bracket_le (by decide) (by decide) entries

end Json

open Json

/-! The text of a frame that brings a body, piece by piece. -/

def bytesText (bytes : List UInt8) : List Char :=
  bracket '[' ']' (bytes.map fun b => Decimal.digits b.toNat)

def bodyText (part : BodyPart) : List Char :=
  bracket openBrace closeBrace
    [member "body" (bytesText part.bytes), member "end_of_stream" (writeBoolean part.last)]

def bodyEventText (side : Side) (part : BodyPart) : List Char :=
  bracket openBrace closeBrace
    [member "phase" (writeText (Phase.name ⟨side, .body⟩)), member "payload" (bodyText part)]

theorem writeFrame_body (stream : UInt64) (side : Side) (part : BodyPart) :
    writeFrame (Inbound.message stream (.body side part)) =
      bracket openBrace closeBrace
        [member "type" (writeText "message"), member "stream" (Decimal.digits stream.toNat),
          member "message" (bodyEventText side part)] := by
  have hm : (part.bytes.map fun b => Decimal.digits b.toNat) =
      (part.bytes.map UInt8.toFin).map fun n => Decimal.digits n.val := by
    rw [List.map_map]
    rfl
  rw [bodyEventText, bodyText, bytesText, hm]
  cases side <;> rfl

theorem extent_bytesText_le (bytes : List UInt8) : extent (bytesText bytes) ≤ 4 * bytes.length + 2 := by
  refine Nat.le_trans (extent_bracket_le (by decide) (by decide) _) (Nat.add_le_add_right ?_ 2)
  induction bytes with
  | nil => exact Nat.le_refl 0
  | cons b bytes ih =>
    have hb : extent (Decimal.digits b.toNat) ≤ 3 :=
      extent_digits_le (by decide) (Nat.lt_of_lt_of_le b.toNat_lt (by decide))
    simp only [List.map_cons, List.sum_cons, List.length_cons] at ih ⊢
    omega

theorem extent_bodyText_le (part : BodyPart) :
    extent (bodyText part) ≤ 4 * part.bytes.length + 34 := by
  refine Nat.le_trans (extent_braces_le _) ?_
  have hb := extent_bytesText_le part.bytes
  have hl := extent_boolean_le part.last
  have hk : extent (writeText "body") = 6 ∧ extent (writeText "end_of_stream") = 15 := by decide
  simp only [List.map_cons, List.map_nil, List.sum_cons, List.sum_nil, extent_member]
  omega

theorem extent_bodyEventText_le (side : Side) (part : BodyPart) :
    extent (bodyEventText side part) ≤ 4 * part.bytes.length + 71 := by
  refine Nat.le_trans (extent_braces_le _) ?_
  have hb := extent_bodyText_le part
  have hp : extent (writeText (Phase.name ⟨side, .body⟩)) ≤ 15 := by cases side <;> decide
  have hk : extent (writeText "phase") = 7 ∧ extent (writeText "payload") = 9 := by decide
  simp only [List.map_cons, List.map_nil, List.sum_cons, List.sum_nil, extent_member]
  omega

theorem extent_frame_le (stream : UInt64) (side : Side) (part : BodyPart) :
    extent (writeFrame (Inbound.message stream (.body side part))) ≤
      4 * part.bytes.length + 200 := by
  rw [writeFrame_body]
  refine Nat.le_trans (extent_braces_le _) ?_
  have he := extent_bodyEventText_le side part
  have hs : extent (Decimal.digits stream.toNat) ≤ 20 :=
    extent_digits_le (by decide) (Nat.lt_of_lt_of_le stream.toNat_lt (by decide))
  have hk : extent (writeText "type") = 6 ∧ extent (writeText "message") = 9 ∧
      extent (writeText "stream") = 8 := by decide
  simp only [List.map_cons, List.map_nil, List.sum_cons, List.sum_nil, extent_member]
  omega

/-- A frame that the settings let in: it is within the limit of a line, or it brings a body, all at
once, that is within the limit of a body. -/
inductive Settings.LetsIn (s : Settings) : Inbound → Prop where
  | short {a : Inbound} (within : extent (writeFrame a) ≤ s.listener.maxFrameBytes.toNat) :
      s.LetsIn a
  | body {stream : UInt64} {side : Side} {part : BodyPart}
      (within : part.bytes.length ≤ s.buffering.maxBodyBytes.toNat) :
      s.LetsIn (.message stream (.body side part))

/-- A frame that brings a body of `n` bytes takes at most `4 n + 200` bytes, whatever its stream, its
side and its end. So if the longest line is as long as that for the longest body, as it is by
default, then frames are read, however their bytes come in and whatever comes after them, as long as
each is a short one or brings a body that may be held. -/
theorem body_frames_are_read :
    (∀ (stream : UInt64) (side : Side) (part : BodyPart),
      (Utf8.encode (writeFrame (Inbound.message stream (.body side part)))).length ≤
        4 * part.bytes.length + 200) ∧
      (∀ s : Settings, 4 * s.buffering.maxBodyBytes.toNat + 200 ≤ s.listener.maxFrameBytes.toNat →
        ∀ frames : List Inbound, (∀ a ∈ frames, s.LetsIn a) →
          ∀ (rest : List UInt8) (before after : List Move),
            Move.input before = frames.flatMap encodeFrame ++ rest →
            frames.length + rest.length < after.count .call →
            untilOver ((Reader.start : Reader s.listener.maxFrameBytes.toNat).results Inbound
                (before ++ .close :: after)) =
              frames.map (some ∘ .frame) ++ told Inbound s.listener.maxFrameBytes.toNat rest) ∧
      4 * ({} : Settings).buffering.maxBodyBytes.toNat + 200 ≤
        ({} : Settings).listener.maxFrameBytes.toNat := by
  refine ⟨extent_frame_le, fun s hs frames hf rest before after hi hk => ?_, by decide⟩
  have hl : ∀ a ∈ frames, extent (writeFrame a) ≤ s.listener.maxFrameBytes.toNat := by
    intro a ha
    cases hf a ha with
    | short within => exact within
    | body within =>
      exact Nat.le_trans (extent_frame_le _ _ _)
        (Nat.le_trans (Nat.add_le_add_right (Nat.mul_le_mul_left 4 within) 200) hs)
  have ht := faithful_inbound.told_frames_append hl rest
  have hc : (told Inbound s.listener.maxFrameBytes.toNat rest).length ≤ rest.length + 1 :=
    length_told_le rest
  rw [← hi] at ht
  rw [Reader.results_of_closed before after ?_, ht]
  rw [ht, List.length_append, List.length_map]
  omega

/-- A frame with a body that comes in two pieces, the second after a call. -/
theorem body_frame_in_two_pieces :
    let s : Settings := {}
    let a : Inbound := .message 7 (.body .response ⟨[0, 255], true⟩)
    let moves : List Move := [.arrive ((encodeFrame a).take 9), .call, .arrive ((encodeFrame a).drop 9)]
    s.LetsIn a ∧ Move.input moves = [a].flatMap encodeFrame ++ [] ∧
      untilOver ((Reader.start : Reader s.listener.maxFrameBytes.toNat).results Inbound
        (moves ++ .close :: [.call, .call])) = [some (.frame a), none] := by
  intro s a moves
  obtain ⟨-, hr, hd⟩ := body_frames_are_read
  have ha : s.LetsIn a := .body (by decide)
  have hi : Move.input moves = [a].flatMap encodeFrame ++ [] := by
    simp only [moves, Move.input, List.take_append_drop, List.append_nil, List.flatMap_singleton]
  exact ⟨ha, hi, hr s hd [a] (by simpa using ha) [] moves [.call, .call] hi (by decide)⟩

end BodyCallout
