import BodyCallout.Proofs.Json.Unfinished
import BodyCallout.Proofs.Wire.RoundTrip

/-!
Frames of which the last bytes are missing. A frame that is cut is never taken for one: the frames
before it are told, and then that it is malformed.
-/

set_option autoImplicit false

namespace BodyCallout

open Data Json

section

variable {α : Type} [Framed α]

def frameText (a : α) : List UInt8 := Utf8.encode (writeFrame a)

def frameStart (frames : List α) (i : Nat) : Nat := ((frames.take i).flatMap encodeFrame).length

def frameEnd (frames : List α) (i : Nat) : Option Nat :=
  frames[i]?.map fun a => frameStart frames i + (frameText a).length

theorem fails_decodeFrame_of_cut (a : α) {p : List UInt8} (hp : p <+: frameText a) (hne : p ≠ [])
    (hn : p ≠ frameText a) (β : Type) [Framed β] : Fails (decodeFrame β p) :=
  ((Framed.union α).fails_decode_of_cut (Framed.toValues a) hp hne hn (Framed.union β)).map _

theorem encodeFrame_eq (a : α) : encodeFrame a = frameText a ++ [newline] := rfl

theorem newline_not_mem_frameText (a : α) : newline ∉ frameText a := newline_not_mem_text a

theorem Faithful.receive_frameText (h : Faithful α) (limit : Nat) (a : α) :
    receive α limit (.whole (frameText a)) = some (.frame a) := h.receive_text limit a

theorem frameText_ne_nil (a : α) : frameText a ≠ [] := List.cons_ne_nil _ _

theorem isBlankLine_of_cut (a : α) {p : List UInt8} (hp : p <+: frameText a) (hne : p ≠ []) :
    Text.isBlankLine p = false := by
  obtain ⟨body, hb⟩ := (Framed.union α).encode_write (Framed.toValues a)
  cases p with
  | nil => exact absurd rfl hne
  | cons b p =>
    have hf : frameText a = 0x7B :: (body ++ [0x7D]) := hb
    rw [hf] at hp
    obtain ⟨rfl, -⟩ := List.cons_prefix_cons.mp hp
    rfl

theorem receive_of_cut (a : α) {p : List UInt8} (hp : p <+: frameText a) (hne : p ≠ [])
    (hn : p ≠ frameText a) (limit : Nat) :
    ∃ fault, receive α limit (.whole p) = some (.malformed fault) := by
  obtain ⟨fault, hf⟩ := fails_decodeFrame_of_cut a hp hne hn α
  refine ⟨fault, ?_⟩
  rw [receive, isBlankLine_of_cut a hp hne, hf]
  rfl

theorem frameStart_succ (a : α) (frames : List α) (i : Nat) :
    frameStart (a :: frames) (i + 1) = (frameText a).length + 1 + frameStart frames i := by
  simp only [frameStart, List.take_succ_cons, List.flatMap_cons, List.length_append,
    encodeFrame_eq, List.length_singleton]

theorem frameEnd_zero (a : α) (frames : List α) :
    frameEnd (a :: frames) 0 = some (frameText a).length := by
  simp [frameEnd, frameStart]

theorem frameEnd_succ (a : α) (frames : List α) (i : Nat) :
    frameEnd (a :: frames) (i + 1) =
      (frameEnd frames i).map ((frameText a).length + 1 + ·) := by
  simp only [frameEnd, List.getElem?_cons_succ, frameStart_succ, Option.map_map]
  congr 1
  funext b
  simp only [Function.comp_apply]
  omega

theorem flatMap_encodeFrame_cons (a : α) (frames : List α) :
    (a :: frames).flatMap encodeFrame = frameText a ++ newline :: frames.flatMap encodeFrame := by
  simp [encodeFrame_eq]

/-- What is told of frames that are cut after `n` bytes: the first `k`, whose texts lie wholly
before the cut, and then the end if nothing but white space remains, or else that it is
malformed. -/
structure ToldCut (frames : List α) (n k : Nat) (results : List (Option (Receipt α))) : Prop where
  le : k ≤ frames.length
  whole : ∀ i e, frameEnd frames i = some e → (i < k ↔ e ≤ n)
  told : ∃ last, results = (frames.take k).map (some ∘ .frame) ++ [last] ∧
    if Text.isBlankLine (((frames.flatMap encodeFrame).take n).drop (frameStart frames k)) then
      last = none
    else ∃ fault, last = some (.malformed fault)

theorem toldCut_zero {a : α} {frames : List α} {n : Nat} (h : n < (frameText a).length)
    {last : Option (Receipt α)}
    (hl : if Text.isBlankLine ((frameText a).take n) then last = none
      else ∃ fault, last = some (.malformed fault)) :
    ToldCut (a :: frames) n 0 [last] where
  le := Nat.zero_le _
  whole i e he := by
    refine iff_of_false (Nat.not_lt_zero i) fun hn => ?_
    cases i with
    | zero =>
      rw [frameEnd_zero, Option.some.injEq] at he
      omega
    | succ i =>
      rw [frameEnd_succ, Option.map_eq_some_iff] at he
      obtain ⟨e, -, rfl⟩ := he
      omega
  told := by
    refine ⟨last, rfl, ?_⟩
    rw [flatMap_encodeFrame_cons, List.take_append_of_le_length (Nat.le_of_lt h)]
    exact hl

/-- A cut beyond the first frame is one in those that follow. -/
theorem ToldCut.cons {frames : List α} {m k : Nat} {results : List (Option (Receipt α))}
    (h : ToldCut frames m k results) (a : α) :
    ToldCut (a :: frames) ((frameText a).length + 1 + m) (k + 1)
      (some (.frame a) :: results) where
  le := Nat.succ_le_succ h.le
  whole i e he := by
    cases i with
    | zero =>
      rw [frameEnd_zero, Option.some.injEq] at he
      exact iff_of_true (Nat.succ_pos k) (by omega)
    | succ i =>
      rw [frameEnd_succ, Option.map_eq_some_iff] at he
      obtain ⟨e, he, rfl⟩ := he
      have hw := h.whole i e he
      omega
  told := by
    obtain ⟨last, rfl, hl⟩ := h.told
    refine ⟨last, rfl, ?_⟩
    have hb : (a :: frames).flatMap encodeFrame = encodeFrame a ++ frames.flatMap encodeFrame := rfl
    have hn : (encodeFrame a).length = (frameText a).length + 1 := by simp [encodeFrame_eq]
    rw [frameStart_succ, hb, ← hn, List.take_length_add_append, List.drop_length_add_append]
    exact hl

theorem toldCut_one (a : α) (frames : List α) :
    ToldCut (a :: frames) (frameText a).length 1 [some (.frame a), none] where
  le := Nat.succ_le_succ (Nat.zero_le _)
  whole i e he := by
    cases i with
    | zero =>
      rw [frameEnd_zero, Option.some.injEq] at he
      exact iff_of_true Nat.one_pos (by omega)
    | succ i =>
      rw [frameEnd_succ, Option.map_eq_some_iff] at he
      obtain ⟨e, -, rfl⟩ := he
      exact iff_of_false (by omega) (by omega)
  told := by
    refine ⟨none, rfl, ?_⟩
    have hd : (frameText a).length ≤ frameStart (a :: frames) 1 := by
      rw [frameStart_succ]
      omega
    rw [flatMap_encodeFrame_cons, List.take_left, List.drop_eq_nil_of_le hd]
    rfl

end

section

variable {α : Type} [Framed α] {limit : Nat}

theorem untilOver_frame (a : α) (input : List UInt8) :
    untilOver (some (.frame a) :: told α limit input) = some (.frame a) :: told α limit input :=
  congrArg _ (untilOver_told input)

theorem told_of_cut {a : α} (hl : (frameText a).length ≤ limit) {n : Nat}
    (h : n < (frameText a).length) :
    ∃ last, told α limit ((frameText a).take n) = [last] ∧
      if Text.isBlankLine ((frameText a).take n) then last = none
      else ∃ fault, last = some (.malformed fault) := by
  have hp : (frameText a).take n <+: frameText a := List.take_prefix n _
  by_cases he : (frameText a).take n = []
  · rw [he]
    exact ⟨none, told_nil, rfl⟩
  · have hn : (frameText a).take n ≠ frameText a := fun hn => by
      have hc := congrArg List.length hn
      rw [List.length_take] at hc
      omega
    obtain ⟨fault, hr⟩ := receive_of_cut a hp he hn limit
    refine ⟨some (.malformed fault), ?_, ?_⟩
    · have hm : newline ∉ (frameText a).take n := fun hm =>
        newline_not_mem_frameText a (List.mem_of_mem_take hm)
      rw [told_last hm (by rw [List.length_take]; omega) he, ahead, hr]
      rfl
    · rw [if_neg (by rw [isBlankLine_of_cut a hp he]; exact Bool.false_ne_true)]
      exact ⟨fault, rfl⟩

theorem Faithful.toldCut (h : Faithful α) {frames : List α}
    (hf : ∀ a ∈ frames, (frameText a).length ≤ limit) (n : Nat) :
    ∃ k, ToldCut frames n k (told α limit ((frames.flatMap encodeFrame).take n)) := by
  induction frames generalizing n with
  | nil =>
    refine ⟨0, Nat.le_refl 0, nofun, none, ?_, ?_⟩
    · simp [told_nil]
    · simp [Text.isBlankLine]
  | cons a frames ih =>
    have hl := hf a (.head _)
    have hm := newline_not_mem_frameText a
    -- The cut is inside the text of the first frame, or at its end, or behind its newline.
    rcases Nat.lt_trichotomy n (frameText a).length with hn | rfl | hn
    · obtain ⟨last, ht, hl⟩ := told_of_cut hl hn
      refine ⟨0, ?_⟩
      rw [flatMap_encodeFrame_cons, List.take_append_of_le_length (Nat.le_of_lt hn), ht]
      exact toldCut_zero hn hl
    · refine ⟨1, ?_⟩
      have ht : told α limit (frameText a) = [some (.frame a), none] := by
        rw [told_last hm hl (frameText_ne_nil a), ahead, h.receive_frameText]
        rfl
      rw [flatMap_encodeFrame_cons, List.take_left, ht]
      exact toldCut_one a frames
    · obtain ⟨m, rfl⟩ := Nat.exists_eq_add_of_le (Nat.succ_le_of_lt hn)
      obtain ⟨k, hk⟩ := ih (fun b hb => hf b (.tail a hb)) m
      refine ⟨k + 1, ?_⟩
      have ht : ((a :: frames).flatMap encodeFrame).take ((frameText a).length + 1 + m) =
          frameText a ++ newline :: (frames.flatMap encodeFrame).take m := by
        rw [flatMap_encodeFrame_cons, Nat.add_assoc, List.take_length_add_append, Nat.add_comm 1 m,
          List.take_succ_cons]
      rw [Nat.succ_eq_add_one, ht, told_whole hm hl, ahead, h.receive_frameText]
      change ToldCut _ _ _ (untilOver (some (.frame a) :: told α limit _))
      rw [untilOver_frame]
      exact hk.cons a

end

/-- A direction in which a frame that is cut is never taken for a frame. No start of a frame's text
but the whole is read as a frame, of this direction or any other; and of frames within the limit
that are cut anywhere those that lie wholly before the cut are told, and then the end, or that what
remains is malformed, whatever the pieces that the bytes come in. -/
structure CutSafe (α : Type) [Framed α] : Prop where
  decode : ∀ (a : α) (p : List UInt8), p <+: frameText a → p ≠ [] → p ≠ frameText a →
    ∀ (β : Type) [Framed β], Fails (decodeFrame β p)
  read : ∀ (limit : Nat) (frames : List α), (∀ a ∈ frames, (frameText a).length ≤ limit) →
    ∀ (n : Nat) (before after : List Move),
      Move.input before = (frames.flatMap encodeFrame).take n →
      frames.length < after.count .call →
      ∃ k, ToldCut frames n k
        (untilOver ((Reader.start : Reader limit).results α (before ++ .close :: after)))

theorem Faithful.cutSafe {α : Type} [Framed α] (h : Faithful α) : CutSafe α where
  decode a _ hp hne hn β _ := fails_decodeFrame_of_cut a hp hne hn β
  read limit frames hf n before after hi hk := by
    obtain ⟨k, ht⟩ := h.toldCut hf n
    have hl : (told α limit (Move.input before)).length ≤ after.count .call := by
      obtain ⟨last, hr, -⟩ := ht.told
      rw [hi, hr, List.length_append, List.length_map, List.length_take, List.length_singleton]
      omega
    rw [Reader.results_of_closed before after hl, hi]
    exact ⟨k, ht⟩

theorem cut_frames_are_no_frames : CutSafe Inbound ∧ CutSafe Outbound :=
  ⟨faithful_inbound.cutSafe, faithful_outbound.cutSafe⟩

end BodyCallout
