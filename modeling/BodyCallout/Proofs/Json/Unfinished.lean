import BodyCallout.Proofs.Json.Unions

/-!
Texts that end before their value does. Once an array or object is open the scan leaves it only
through its last byte, so the end of the text meets a scan that is still inside; whatever is
outlined then carries a stop, and a union is not read from an outline with a stop.
-/

set_option autoImplicit false

namespace BodyCallout.Json

open Data

namespace Scanner

/-- The scan has an array or object open, or is through with its first value. -/
def Entered : Scanner → Prop
  | .scanning [] _ => False
  | _ => True

inductive Over : Scanner → Prop where
  | whole (value : Outline) : Over (.whole value)
  | trailing (value : Outline) : Over (.trailing value)
  | cut (value : Outline) : Over (.cut value)

theorem Entered.over {sc : Scanner} (h : sc.Entered) :
    sc.Over ∨ ∃ frame stack lexing, sc = .scanning (frame :: stack) lexing := by
  match sc, h with
  | .scanning (frame :: stack) lexing, _ => exact .inr ⟨frame, stack, lexing, rfl⟩
  | .whole value, _ => exact .inl (.whole value)
  | .trailing value, _ => exact .inl (.trailing value)
  | .cut value, _ => exact .inl (.cut value)

end Scanner

theorem entered_deliver (stack : List Frame) (value : Outline) : (deliver stack value).Entered := by
  rcases stack with - | ⟨⟨⟩, outer⟩ <;> trivial

theorem entered_cutFrame (stack : List Frame) (comma : Bool) (stop : Stop) :
    (cutFrame stack comma stop).Entered := by
  rcases stack with - | ⟨⟨⟩, outer⟩ <;> trivial

theorem entered_cutText (stack : List Frame) (isKey : Bool) (read skipped : Stop) :
    (cutText stack isKey read skipped).Entered := by
  cases isKey <;> rcases stack with - | ⟨⟨⟩, outer⟩ <;> trivial

section Step

variable (frame : Frame) (stack : List Frame) (b : UInt8)

theorem entered_beginValue : (beginValue (frame :: stack) b).Entered := by
  unfold beginValue
  repeat' split
  all_goals trivial

theorem entered_stepBetween (place : Place) : (stepBetween (frame :: stack) place b).Entered := by
  unfold stepBetween
  repeat' split
  all_goals first
    | trivial
    | exact entered_deliver _ _
    | exact entered_beginValue _ _ _
    | exact entered_cutFrame _ _ _

theorem Scanner.Entered.step {sc : Scanner} (h : sc.Entered) (b : UInt8) :
    (sc.step b).Entered := by
  obtain hv | ⟨frame, stack, lexing, rfl⟩ := h.over
  · cases hv with
    | whole value =>
      rw [Scanner.step]
      split <;> trivial
    | trailing value => trivial
    | cut value => trivial
  · cases lexing with
    | between place => exact entered_stepBetween frame stack b place
    | word owed value =>
      unfold Scanner.step
      dsimp only
      repeat' split
      all_goals first
        | trivial
        | exact entered_deliver _ _
    | numeral n =>
      unfold Scanner.step
      dsimp only
      split
      · trivial
      · trivial
      · rcases frame with items | members | ⟨members, key⟩ <;> exact entered_stepBetween _ _ b _
    | text isKey t =>
      unfold Scanner.step
      dsimp only
      repeat' split
      all_goals first
        | trivial
        | exact entered_cutText _ _ _ _
        | exact entered_cutFrame _ _ _
        | exact entered_deliver _ _

end Step

theorem Scanner.Entered.foldl {sc : Scanner} (h : sc.Entered) (bytes : List UInt8) :
    (bytes.foldl Scanner.step sc).Entered := by
  induction bytes generalizing sc with
  | nil => exact h
  | cons b bytes ih => exact ih (h.step b)

/-! The scan after its first value. -/

namespace Scanner

/-- More than one value was met, or none. -/
inductive Spoiled : Scanner → Prop where
  | trailing (value : Outline) : Spoiled (.trailing value)
  | cut (value : Outline) : Spoiled (.cut value)

variable {sc : Scanner}

theorem Spoiled.foldl (h : sc.Spoiled) (bytes : List UInt8) :
    (bytes.foldl Scanner.step sc).Spoiled := by
  induction bytes generalizing sc with
  | nil => exact h
  | cons b bytes ih =>
    apply ih
    cases h with
    | trailing value => exact .trailing value
    | cut value => exact .cut value

/-- Past its first value a scan is spoiled by anything but white space. -/
theorem Over.foldl (h : sc.Over) {bytes : List UInt8} (hb : ∃ b ∈ bytes, isSpace b = false) :
    (bytes.foldl Scanner.step sc).Spoiled := by
  induction bytes generalizing sc with
  | nil =>
    obtain ⟨b, hm, -⟩ := hb
    exact absurd hm List.not_mem_nil
  | cons b bytes ih =>
    rw [List.foldl_cons]
    cases h with
    | trailing value => exact (Spoiled.trailing value).foldl _
    | cut value => exact (Spoiled.cut value).foldl _
    | whole value =>
      rw [Scanner.step]
      split
      · next hs =>
        obtain ⟨c, hm, hc⟩ := hb
        rcases List.mem_cons.mp hm with rfl | hm
        · exact absurd hs (by simp [hc])
        · exact ih (.whole value) ⟨c, hm, hc⟩
      · exact (Spoiled.trailing value).foldl _

end Scanner

theorem Settles.not_spoiled {sc : Scanner} {o : Outline} (h : Settles sc [] o) : ¬ sc.Spoiled := by
  intro hs
  cases hs with
  | trailing value =>
    have hf := congrArg Document.trailing h.finish
    contradiction
  | cut value =>
    have hc := h.step 0x2C (.inl rfl)
    contradiction

/-- A start of an array or object, short of its last byte, leaves the scan inside. -/
theorem inside_of_prefix {first last : UInt8} {body p : List UInt8} {o : Outline}
    (he : (Scanner.start.step first).Entered) (hl : isSpace last = false)
    (hs : Settles (scan (first :: (body ++ [last]))) [] o) (hp : p <+: first :: (body ++ [last]))
    (hne : p ≠ []) (hn : p ≠ first :: (body ++ [last])) :
    ∃ frame stack lexing, scan p = .scanning (frame :: stack) lexing := by
  obtain ⟨rest, hr⟩ := hp
  have hi : (scan p).Entered := by
    cases p with
    | nil => exact absurd rfl hne
    | cons b p =>
      obtain ⟨rfl, -⟩ := List.cons_eq_cons.mp hr
      exact he.foldl p
  refine hi.over.resolve_left fun ho => hs.not_spoiled ?_
  have hm : last ∈ rest := by
    obtain rfl | ⟨init, c, rfl⟩ := rest.eq_nil_or_concat
    · exact absurd (by rw [← hr, List.append_nil]) hn
    · rw [List.concat_eq_append] at hr ⊢
      rw [← List.append_assoc, ← List.cons_append] at hr
      obtain ⟨-, hc⟩ := List.append_inj' hr rfl
      rw [List.singleton_inj.mp hc]
      simp
  rw [← hr, scan_append]
  exact ho.foldl ⟨last, hm, hl⟩

theorem Items.stop?_ofReversed (newest : List Outline) (tail : Items) :
    (Items.ofReversed newest tail).stop? = tail.stop? := by
  induction newest generalizing tail with
  | nil => rfl
  | cons value newest ih => exact ih (.item value tail)

theorem Members.stop?_ofReversed (newest : List (Option String × Outline)) (tail : Members) :
    (Members.ofReversed newest tail).stop? = tail.stop? := by
  induction newest generalizing tail with
  | nil => rfl
  | cons entry newest ih => exact ih (.member entry.1 entry.2 tail)

theorem stop?_cutItems (items : List Outline) (stop : Stop) :
    (Outline.array (.ofReversed items (.cut stop))).stop? = some stop :=
  Items.stop?_ofReversed items (.cut stop)

theorem stop?_cutMembers (members : List (Option String × Outline)) (comma : Bool)
    (read skipped : Stop) :
    (Outline.object (.ofReversed members (.cut comma read skipped))).stop? = some skipped :=
  Members.stop?_ofReversed members (.cut comma read skipped)

theorem stop?_cutOutline (stack : List Frame) {value : Outline} {stop : Stop}
    (h : value.stop? = some stop) : (cutOutline stack value stop).stop? = some stop := by
  induction stack generalizing value with
  | nil => exact h
  | cons frame outer ih =>
    cases frame with
    | array items => exact ih (stop?_cutItems _ stop)
    | object members => exact ih (stop?_cutMembers _ _ _ stop)
    | keyed members key => exact ih (stop?_cutMembers _ _ _ stop)

theorem exists_cutFrame (stack : List Frame) (comma : Bool) (stop : Stop) :
    ∃ value, cutFrame stack comma stop = .cut value ∧ value.stop? = some stop := by
  rcases stack with - | ⟨items | members | ⟨members, key⟩, outer⟩
  · exact ⟨_, rfl, rfl⟩
  · exact ⟨_, rfl, stop?_cutOutline _ (stop?_cutItems _ stop)⟩
  · exact ⟨_, rfl, stop?_cutOutline _ (stop?_cutMembers _ _ _ stop)⟩
  · exact ⟨_, rfl, stop?_cutOutline _ rfl⟩

theorem exists_cutText (stack : List Frame) (isKey : Bool) (read skipped : Stop) :
    ∃ value, cutText stack isKey read skipped = .cut value ∧ value.stop? = some skipped := by
  cases isKey with
  | false => exact ⟨_, rfl, stop?_cutOutline _ rfl⟩
  | true =>
    rcases stack with - | ⟨items | members | ⟨members, key⟩, outer⟩
    · exact exists_cutFrame [] false skipped
    · exact exists_cutFrame (.array items :: outer) false skipped
    · exact ⟨_, rfl, stop?_cutOutline _ (stop?_cutMembers _ _ _ skipped)⟩
    · exact exists_cutFrame (.keyed members key :: outer) false skipped

theorem stop?_endBetween (stack : List Frame) (place : Place) :
    (endBetween stack place).stop? = some .ended := by
  obtain ⟨value, hv, hs⟩ := exists_cutFrame stack false .ended
  obtain ⟨next, hn, ht⟩ := exists_cutFrame stack true .ended
  cases place with
  | value => exact stop?_cutOutline stack rfl
  | colon => exact stop?_cutOutline stack rfl
  | nextKey => rw [endBetween, hn]; exact ht
  | firstItem => rw [endBetween, hv] <;> first | exact hs | exact nofun
  | firstKey => rw [endBetween, hv] <;> first | exact hs | exact nofun
  | after => rw [endBetween, hv] <;> first | exact hs | exact nofun

/-- A text that ends inside an array or object outlines one with a stop. -/
theorem isSome_stop?_of_inside (frame : Frame) (stack : List Frame) (lexing : Lexing) :
    (Scanner.scanning (frame :: stack) lexing).finish.value.stop?.isSome := by
  cases lexing with
  | between place => simp [Scanner.finish, stop?_endBetween]
  | word owed value =>
    rw [Scanner.finish, stop?_cutOutline _ rfl]
    rfl
  | numeral n =>
    rw [Scanner.finish]
    split
    · rcases frame with items | members | ⟨members, key⟩ <;> simp [deliver, stop?_endBetween]
    · rw [stop?_cutOutline _ rfl]
      rfl
  | text isKey t =>
    obtain ⟨value, hv, hs⟩ := exists_cutText (frame :: stack) isKey
      (if t.flawed then .illFormed else .ended) .ended
    rw [Scanner.finish, hv]
    exact Option.isSome_of_eq_some hs

end BodyCallout.Json

namespace BodyCallout.Data

def Fails {α : Type} (r : Reading α) : Prop := ∃ fault, r = .error fault

section Fails

variable {α β : Type}

theorem fails_stopped (stop : Stop) : Fails (stopped stop : Reading α) := ⟨_, rfl⟩

theorem fails_mismatched (m : Mismatch) : Fails (mismatched m : Reading α) := ⟨_, rfl⟩

theorem Fails.bind {r : Reading α} (h : Fails r) (f : α → Reading β) : Fails (r >>= f) := by
  obtain ⟨fault, rfl⟩ := h
  exact ⟨fault, rfl⟩

theorem fails_bind (r : Reading α) {f : α → Reading β} (h : ∀ a, Fails (f a)) :
    Fails (r >>= f) := by
  cases r with
  | error fault => exact ⟨fault, rfl⟩
  | ok a => exact h a

theorem Fails.map {r : Reading α} (h : Fails r) (f : α → β) : Fails (r.map f) := by
  obtain ⟨fault, rfl⟩ := h
  exact ⟨fault, rfl⟩

end Fails

end BodyCallout.Data

namespace BodyCallout.Json

open Data

/-! An outline with a stop is not read. -/

theorem Items.fails_trees (depth : Nat) : (items : Items) → (newest : List Tree) →
    items.stop?.isSome → Fails (items.trees depth newest)
  | .closed, _, h => absurd h Bool.false_ne_true
  | .cut stop, _, _ => fails_stopped stop
  | .item value rest, newest, h =>
    fails_bind (value.tree depth) fun t => fails_trees depth rest (t :: newest) h

theorem Members.fails_readAll {σ : Type} (read : String → Outline → σ → Reading σ) :
    (members : Members) → (s : σ) → members.stop?.isSome → Fails (members.readAll read s)
  | .closed, _, h => absurd h Bool.false_ne_true
  | .cut _ stop _, _, _ => fails_stopped stop
  | .member key value rest, s, h =>
    fails_bind (readText key) fun k =>
      fails_bind (read k value s) fun s => fails_readAll read rest s h

theorem Outline.fails_unexpected {α : Type} (o : Outline) (expected : String) :
    Fails (o.unexpected expected : Reading α) :=
  fails_bind o.found fun found => fails_mismatched (.wrongType found expected)

namespace Union

theorem fails_read (u : Union) (depth : Nat) {o : Outline} (h : o.stop?.isSome) :
    Fails (u.read depth o) := by
  cases o with
  | array items =>
    cases items with
    | closed => exact absurd h Bool.false_ne_true
    | cut stop => cases depth <;> exact fails_stopped _
    | item name rest =>
      cases depth with
      | zero => exact fails_stopped _
      | succ depth =>
        exact fails_bind _ fun i => (Items.fails_trees depth rest [] h).bind _
  | object members =>
    cases depth with
    | zero => exact fails_stopped _
    | succ depth => exact (Members.fails_readAll _ members _ h).bind _
  | _ => cases depth <;> exact Outline.fails_unexpected _ _

theorem encode_write (u : Union) (v : u.cases.Values) :
    ∃ body, Utf8.encode (u.write v) = 0x7B :: (body ++ [0x7D]) :=
  ⟨Utf8.encode ([','].intercalate (u.cases.members u.tag v)), by
    rw [write, bracket, List.cons_append, ← List.singleton_append, Utf8.encode_append,
      Utf8.encode_append]
    rfl⟩

/-- What was written for a value, short of its end, is no value of this union or any other. -/
theorem fails_decode_of_cut (u : Union) (v : u.cases.Values) {p : List UInt8}
    (hp : p <+: Utf8.encode (u.write v)) (hne : p ≠ []) (hn : p ≠ Utf8.encode (u.write v))
    (w : Union) : Fails (w.decode p) := by
  have hs : Settles (scan (Utf8.encode (u.write v))) [] (u.outline v) :=
    u.spells_write v Scanner.start [] (opens_value [])
  obtain ⟨body, hb⟩ := u.encode_write v
  rw [hb] at hp hn hs
  have he : (Scanner.start.step 0x7B).Entered := trivial
  obtain ⟨frame, stack, lexing, hi⟩ := inside_of_prefix he rfl hs hp hne hn
  have hd : (scan p).finish.value.stop?.isSome := by
    rw [hi]
    exact isSome_stop?_of_inside frame stack lexing
  exact (w.fails_read maxDepth hd).bind _

end Union

end BodyCallout.Json
