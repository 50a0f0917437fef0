import BodyCallout.Proofs.Json.Unfinished

/-!
Where a value may stand. A text that holds one value by itself, perhaps with white space around it,
is scanned as that value after any colon. What is open around it lies below the stack of its own
scan, and the scan takes the same steps with it as without, until the value is delivered there.
-/

set_option autoImplicit false

namespace BodyCallout.Json

open Data

/-- A text that holds one whole value, with nothing but white space around it. -/
structure WellFormed (text : List Char) : Prop where
  whole : (outline (Utf8.encode text)).value.stop? = none
  alone : (outline (Utf8.encode text)).trailing = false

namespace Scanner

def under (base : List Frame) : Scanner → Scanner
  | .scanning stack lexing => .scanning (stack ++ base) lexing
  | .whole value => deliver base value
  | .trailing value => .trailing value
  | .cut value => .cut value

/-- A byte leads to the same with what is open around as without, or it spoils the scan. -/
def Blind (base : List Frame) (next around : Scanner) : Prop :=
  next.Spoiled ∨ around = next.under base

end Scanner

open Scanner

variable {base : List Frame}

theorem deliver_append (stack : List Frame) (value : Outline) :
    deliver (stack ++ base) value = (deliver stack value).under base := by
  rcases stack with - | ⟨⟨⟩, outer⟩ <;> rfl

theorem step_deliver_space (stack : List Frame) (value : Outline) {b : UInt8}
    (h : isSpace b = true) : (deliver stack value).step b = deliver stack value := by
  rcases stack with - | ⟨⟨⟩, outer⟩ <;> simp [deliver, Scanner.step, stepBetween, h]

theorem spoiled_cutFrame (stack : List Frame) (comma : Bool) (stop : Stop) :
    (cutFrame stack comma stop).Spoiled := by
  obtain ⟨value, hv, -⟩ := exists_cutFrame stack comma stop
  exact hv ▸ .cut value

theorem spoiled_cutText (stack : List Frame) (isKey : Bool) (read skipped : Stop) :
    (cutText stack isKey read skipped).Spoiled := by
  obtain ⟨value, hv, -⟩ := exists_cutText stack isKey read skipped
  exact hv ▸ .cut value

theorem blind_beginValue (stack : List Frame) (b : UInt8) :
    Blind base (beginValue stack b) (beginValue (stack ++ base) b) := by
  unfold beginValue
  repeat' split
  all_goals first
    | exact .inr rfl
    | exact .inl (.cut _)

theorem blind_stepBetween (stack : List Frame) (place : Place) (b : UInt8) :
    Blind base (stepBetween stack place b) (stepBetween (stack ++ base) place b) := by
  by_cases hs : isSpace b = true
  · simp only [stepBetween, hs, if_true]
    exact .inr rfl
  · have hb (c : UInt8) {s t u v : Scanner} (hy : Blind base s t) (hn : Blind base u v) :
        Blind base (if b = c then s else u) (if b = c then t else v) := by
      split
      · exact hy
      · exact hn
    simp only [stepBetween, hs, Bool.false_eq_true, if_false]
    cases place with
    | value => exact blind_beginValue stack b
    | colon => exact hb _ (.inr rfl) (.inl (.cut _))
    | nextKey => exact hb _ (.inr rfl) (.inl (spoiled_cutFrame _ _ _))
    | firstItem =>
      rcases stack with - | ⟨⟨⟩, outer⟩
      case cons.array => exact hb _ (.inr (deliver_append _ _)) (blind_beginValue _ b)
      all_goals exact .inl (spoiled_cutFrame _ _ _)
    | firstKey =>
      rcases stack with - | ⟨⟨⟩, outer⟩
      case cons.object =>
        exact hb _ (.inr rfl)
          (hb _ (.inr (deliver_append _ _)) (.inl (spoiled_cutFrame _ _ _)))
      all_goals exact .inl (spoiled_cutFrame _ _ _)
    | after =>
      rcases stack with - | ⟨⟨⟩, outer⟩
      case cons.array | cons.object =>
        exact hb _ (.inr rfl)
          (hb _ (.inr (deliver_append _ _)) (.inl (spoiled_cutFrame _ _ _)))
      all_goals exact .inl (spoiled_cutFrame _ _ _)

theorem step_numeral_over {n : NumeralScan} {b : UInt8} (h : n.step b = .over)
    (stack : List Frame) : (Scanner.scanning stack (.numeral n)).step b =
      (deliver stack (.number n.numeral)).step b := by
  simp only [Scanner.step, h]
  rcases stack with - | ⟨⟨⟩, outer⟩ <;> rfl

theorem blind_step_whole (value : Outline) (b : UInt8) :
    Blind base ((Scanner.whole value).step b) ((deliver base value).step b) := by
  by_cases hs : isSpace b = true
  · rw [step_deliver_space base value hs, Scanner.step, if_pos hs]
    exact .inr rfl
  · rw [Scanner.step, if_neg hs]
    exact .inl (.trailing value)

theorem blind_step_deliver (stack : List Frame) (value : Outline) (b : UInt8) :
    Blind base ((deliver stack value).step b) ((deliver (stack ++ base) value).step b) := by
  rcases stack with - | ⟨⟨⟩, outer⟩
  · exact blind_step_whole value b
  all_goals exact blind_stepBetween _ .after b

theorem blind_step (base : List Frame) (sc : Scanner) (b : UInt8) :
    Blind base (sc.step b) ((sc.under base).step b) := by
  cases sc with
  | whole value => exact blind_step_whole value b
  | trailing value => exact .inl (.trailing value)
  | cut value => exact .inl (.cut value)
  | scanning stack lexing =>
    cases lexing with
    | between place => exact blind_stepBetween stack place b
    | word owed value =>
      rcases owed with - | ⟨c, - | ⟨d, rest⟩⟩
      · exact .inl (.cut _)
      · simp only [under, Scanner.step]
        split
        · exact .inr (deliver_append stack value)
        · exact .inl (.cut _)
      · simp only [under, Scanner.step]
        split
        · exact .inr rfl
        · exact .inl (.cut _)
    | numeral n =>
      cases hn : n.step b with
      | goes n => exact .inr (by simp only [under, Scanner.step, hn])
      | bad => exact .inl (by simp only [Scanner.step, hn]; exact .cut _)
      | _ =>
        rw [under, step_numeral_over hn, step_numeral_over hn]
        exact blind_step_deliver stack _ b
    | text isKey t =>
      cases ht : t.step b with
      | goes t => exact .inr (by simp only [under, Scanner.step, ht])
      | bad => exact .inl (by simp only [Scanner.step, ht]; exact spoiled_cutText _ _ _ _)
      | _ =>
        simp only [under, Scanner.step, ht]
        cases isKey with
        | false => exact .inr (deliver_append stack _)
        | true =>
          simp only [if_true]
          -- A key is in place only where an object waits for one.
          rcases stack with - | ⟨⟨⟩, outer⟩
          case cons.object => exact .inr rfl
          all_goals exact .inl (spoiled_cutFrame _ _ _)

/-- A text that does not spoil a scan takes it the same way with more open around it. -/
theorem foldl_under (base : List Frame) {sc : Scanner} {bytes : List UInt8}
    (h : ¬ (bytes.foldl Scanner.step sc).Spoiled) :
    bytes.foldl Scanner.step (sc.under base) = (bytes.foldl Scanner.step sc).under base := by
  induction bytes generalizing sc with
  | nil => rfl
  | cons b bytes ih =>
    rw [List.foldl_cons] at h
    rw [List.foldl_cons, List.foldl_cons, ← ih h]
    rcases blind_step base sc b with hs | he
    · exact absurd (hs.foldl bytes) h
    · rw [he]

def Scanner.Stopped : Scanner → Prop
  | .cut value => value.stop?.isSome
  | _ => True

theorem stopped_deliver (stack : List Frame) (value : Outline) : (deliver stack value).Stopped := by
  rcases stack with - | ⟨⟨⟩, outer⟩ <;> trivial

theorem stopped_cutValue (stack : List Frame) {value : Outline} {stop : Stop}
    (h : value.stop? = some stop) : (cutValue stack value stop).Stopped :=
  Option.isSome_of_eq_some (stop?_cutOutline stack h)

theorem stopped_cutFrame (stack : List Frame) (comma : Bool) (stop : Stop) :
    (cutFrame stack comma stop).Stopped := by
  obtain ⟨value, hv, hs⟩ := exists_cutFrame stack comma stop
  exact hv ▸ Option.isSome_of_eq_some hs

theorem stopped_cutText (stack : List Frame) (isKey : Bool) (read skipped : Stop) :
    (cutText stack isKey read skipped).Stopped := by
  obtain ⟨value, hv, hs⟩ := exists_cutText stack isKey read skipped
  exact hv ▸ Option.isSome_of_eq_some hs

theorem stopped_beginValue (stack : List Frame) (b : UInt8) : (beginValue stack b).Stopped := by
  unfold beginValue
  repeat' split
  all_goals first
    | trivial
    | exact stopped_cutValue _ rfl

theorem stopped_stepBetween (stack : List Frame) (place : Place) (b : UInt8) :
    (stepBetween stack place b).Stopped := by
  unfold stepBetween
  repeat' split
  all_goals first
    | trivial
    | exact stopped_deliver _ _
    | exact stopped_beginValue _ _
    | exact stopped_cutFrame _ _ _
    | exact stopped_cutValue _ rfl

theorem stopped_step_deliver (stack : List Frame) (value : Outline) (b : UInt8) :
    ((deliver stack value).step b).Stopped := by
  rcases stack with - | ⟨⟨⟩, outer⟩
  · rw [deliver, Scanner.step]
    split <;> trivial
  all_goals exact stopped_stepBetween _ .after b

theorem Scanner.Stopped.step {sc : Scanner} (h : sc.Stopped) (b : UInt8) : (sc.step b).Stopped := by
  cases sc with
  | whole value => exact stopped_step_deliver [] value b
  | trailing value => trivial
  | cut value => exact h
  | scanning stack lexing =>
    cases lexing with
    | between place => exact stopped_stepBetween stack place b
    | word owed value =>
      unfold Scanner.step
      dsimp only
      repeat' split
      all_goals first
        | trivial
        | exact stopped_deliver _ _
        | exact stopped_cutValue _ rfl
    | numeral n =>
      cases hn : n.step b with
      | goes n => simp only [Scanner.step, hn, Stopped]
      | bad => simp only [Scanner.step, hn]; exact stopped_cutValue _ rfl
      | _ => exact step_numeral_over hn stack ▸ stopped_step_deliver stack _ b
    | text isKey t =>
      unfold Scanner.step
      dsimp only
      repeat' split
      all_goals first
        | trivial
        | exact stopped_cutText _ _ _ _
        | exact stopped_cutFrame _ _ _
        | exact stopped_deliver _ _

theorem Scanner.Stopped.foldl {sc : Scanner} (h : sc.Stopped) (bytes : List UInt8) :
    (bytes.foldl Scanner.step sc).Stopped := by
  induction bytes generalizing sc with
  | nil => exact h
  | cons b bytes ih => exact ih (h.step b)

theorem stopped_scan (text : List UInt8) : (scan text).Stopped :=
  have h : Scanner.start.Stopped := trivial
  h.foldl text

/-! Well-formed texts. -/

namespace WellFormed

variable {text : List Char}

theorem scan_cases (h : WellFormed text) :
    scan (Utf8.encode text) = .whole (outline (Utf8.encode text)).value ∨
      ∃ n : NumeralScan, n.stage.complete = true ∧
        scan (Utf8.encode text) = .scanning [] (.numeral n) ∧
        (outline (Utf8.encode text)).value = .number n.numeral := by
  obtain ⟨hw, ha⟩ := h
  have hc := stopped_scan (Utf8.encode text)
  rw [outline] at hw ha ⊢
  cases hs : scan (Utf8.encode text) with
  | whole value => exact .inl rfl
  | trailing value =>
    rw [hs] at ha
    exact absurd ha Bool.noConfusion
  | cut value =>
    rw [hs] at hw hc
    have hn : value.stop? = none := hw
    exact absurd hc (by simp [Stopped, hn])
  | scanning stack lexing =>
    rw [hs] at hw
    -- An array or object that is open is cut, and so is a word or a string.
    cases stack with
    | cons frame stack =>
      have hi := isSome_stop?_of_inside frame stack lexing
      rw [hw] at hi
      exact absurd hi Bool.noConfusion
    | nil =>
      cases lexing with
      | between place =>
        exact absurd ((stop?_endBetween [] place).symm.trans hw) (Option.some_ne_none _)
      | word owed value => exact absurd hw (Option.some_ne_none _)
      | numeral n =>
        cases hn : n.stage.complete with
        -- A numeral at the top is finished by the end of the text alone.
        | true => exact .inr ⟨n, hn, rfl, by simp only [Scanner.finish, hn, if_true, deliver]⟩
        | false =>
          simp only [Scanner.finish, hn, Bool.false_eq_true, if_false] at hw
          exact absurd hw (Option.some_ne_none _)
      | text isKey t =>
        obtain ⟨value, hv, hn⟩ :=
          exists_cutText [] isKey (if t.flawed then .illFormed else .ended) .ended
        simp only [Scanner.finish, hv] at hw
        exact absurd (hn.symm.trans hw) (Option.some_ne_none _)

/-- A well-formed text is scanned after any colon as the value that it outlines. -/
theorem follows (h : WellFormed text) :
    Follows text (outline (Utf8.encode text)).value := fun stack => by
  have hu (hn : ¬ (scan (Utf8.encode text)).Spoiled) :
      (Scanner.scanning stack (.between .value)).past text =
        (scan (Utf8.encode text)).under stack :=
    foldl_under stack hn
  rcases h.scan_cases with hs | ⟨n, hc, hs, hv⟩
  · rw [hu (hs ▸ nofun), hs]
    exact .of_eq rfl
  · rw [hu (hs ▸ nofun), hs, hv]
    exact settles_numeral hc stack

end WellFormed

end BodyCallout.Json
