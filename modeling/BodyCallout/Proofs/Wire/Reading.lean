import BodyCallout.Wire.Reader

/-!
Reading refines cutting into lines. Whatever the pieces an input comes in, and wherever calls wait,
are given up and made again, what the calls tell up to the first result that is no frame is told by
the lines of the input, each by itself.
-/

set_option autoImplicit false

namespace BodyCallout

/-- What a line amounts to, by its length and its bytes. -/
def judge (α : Type) [Framed α] (limit : Nat) (line : List UInt8) : Option (Receipt α) :=
  if limit < line.length then some (.tooLarge limit)
  else if Text.isBlankLine line then none
  else
    match decodeFrame α line with
    | .ok a => some (.frame a)
    | .error fault => some (.malformed fault)

/-- The results up to the first that is no frame, that one included. -/
def untilOver {α : Type} : List (Option (Receipt α)) → List (Option (Receipt α))
  | [] => []
  | some (.frame a) :: rest => some (.frame a) :: untilOver rest
  | result :: _ => [result]

def told (α : Type) [Framed α] (limit : Nat) (input : List UInt8) : List (Option (Receipt α)) :=
  untilOver (((cutLines input).filterMap (judge α limit)).map some ++ [none])

section Results

variable {α : Type}

theorem untilOver_append_untilOver (xs ys : List (Option (Receipt α))) :
    untilOver (xs ++ untilOver ys) = untilOver (xs ++ ys) := by
  induction xs with
  | nil =>
    induction ys with
    | nil => rfl
    | cons y ys ih => rcases y with - | ⟨a | f | n⟩ <;> simp_all [untilOver]
  | cons x xs ih => rcases x with - | ⟨a | f | n⟩ <;> simp [untilOver, ih]

theorem untilOver_prefix (xs ys : List (Option (Receipt α))) :
    untilOver xs <+: untilOver (xs ++ ys) := by
  induction xs with
  | nil => exact List.nil_prefix
  | cons x xs ih => rcases x with - | ⟨a | f | n⟩ <;> simp [untilOver, ih]

theorem untilOver_of_mem {xs : List (Option (Receipt α))}
    (h : ∃ x ∈ xs, ∀ a, x ≠ some (.frame a)) (ys : List (Option (Receipt α))) :
    untilOver (xs ++ ys) = untilOver xs := by
  obtain ⟨last, hm, hl⟩ := h
  induction xs with
  | nil => exact absurd hm List.not_mem_nil
  | cons x xs ih =>
    rcases x with - | ⟨a | f | n⟩
    · rfl
    · have hx : last ∈ xs := (List.mem_cons.mp hm).resolve_left (hl a)
      simp [untilOver, ih hx]
    · rfl
    · rfl

theorem untilOver_of_length_le {xs ys : List (Option (Receipt α))}
    (h : (untilOver (xs ++ ys)).length ≤ xs.length) : untilOver xs = untilOver (xs ++ ys) := by
  induction xs with
  | nil => exact (List.eq_nil_of_length_eq_zero (Nat.le_zero.mp h)).symm
  | cons x xs ih =>
    rcases x with - | ⟨a | f | n⟩ <;> simp_all [untilOver]

theorem length_untilOver_le (xs : List (Option (Receipt α))) :
    (untilOver xs).length ≤ xs.length := by
  induction xs with
  | nil => exact Nat.le_refl 0
  | cons x xs ih => rcases x with - | ⟨a | f | n⟩ <;> simp [untilOver, ih]

end Results

theorem cutLines_append_newline {line : List UInt8} (hn : newline ∉ line) (rest : List UInt8) :
    cutLines (line ++ newline :: rest) = line :: cutLines rest := by
  induction line with
  | nil => simp [cutLines]
  | cons b line ih =>
    have hb : b ≠ newline := fun h => hn (by simp [h])
    have hl : newline ∉ line := fun h => hn (by simp [h])
    simp [cutLines, hb, ih hl]

theorem cutLines_append {line : List UInt8} (hn : newline ∉ line) (hl : line ≠ [])
    (rest : List UInt8) : ∃ more lines, cutLines (line ++ rest) = (line ++ more) :: lines := by
  induction line with
  | nil => exact absurd rfl hl
  | cons b line ih =>
    have hb : b ≠ newline := fun h => hn (by simp [h])
    have hn : newline ∉ line := fun h => hn (by simp [h])
    by_cases hl : line = []
    · subst hl
      cases hc : cutLines rest <;> simp [cutLines, hb, hc]
    · obtain ⟨more, lines, hm⟩ := ih hn hl
      exact ⟨more, lines, by simp [cutLines, hb, hm]⟩

theorem cutLines_of_absent {line : List UInt8} (hn : newline ∉ line) (hl : line ≠ []) :
    cutLines line = [line] := by
  induction line with
  | nil => exact absurd rfl hl
  | cons b line ih =>
    have hb : b ≠ newline := fun h => hn (by simp [h])
    have hn : newline ∉ line := fun h => hn (by simp [h])
    by_cases hl : line = []
    · subst hl
      simp [cutLines, hb]
    · simp [cutLines, hb, ih hn hl]

theorem length_cutLines_le (input : List UInt8) : (cutLines input).length ≤ input.length := by
  induction input with
  | nil => exact Nat.le_refl 0
  | cons b input ih =>
    rw [cutLines]
    split
    · simpa using ih
    · split
      · simp
      · next line lines hc =>
        rw [hc] at ih
        exact Nat.le_succ_of_le ih

section Told

variable {α : Type} [Framed α] {limit : Nat}

theorem judge_of_le {line : List UInt8} (hl : line.length ≤ limit) :
    judge α limit line = receive α limit (.whole line) := by
  rw [judge, if_neg (Nat.not_lt.mpr hl)]
  rfl

def ahead (α : Type) [Framed α] (limit : Nat) : Option Line → List (Option (Receipt α))
  | none => [none]
  | some line => (receive α limit line).toList.map some

theorem told_whole {line : List UInt8} (hn : newline ∉ line) (hl : line.length ≤ limit)
    (rest : List UInt8) :
    told α limit (line ++ newline :: rest) =
      untilOver (ahead α limit (some (.whole line)) ++ told α limit rest) := by
  rw [told, told, cutLines_append_newline hn, untilOver_append_untilOver, List.filterMap_cons,
    judge_of_le hl, ahead]
  cases receive α limit (.whole line) <;> rfl

theorem told_long {line : List UInt8} (hn : newline ∉ line) (hl : line.length = limit + 1)
    (rest : List UInt8) : told α limit (line ++ rest) = [some (.tooLarge limit)] := by
  obtain ⟨more, lines, hc⟩ := cutLines_append hn (List.ne_nil_of_length_eq_add_one hl) rest
  have hj : judge α limit (line ++ more) = some (.tooLarge limit) := by
    rw [judge, if_pos (by simp; omega)]
  simp [told, hc, hj, untilOver]

theorem told_last {line : List UInt8} (hn : newline ∉ line) (hl : line.length ≤ limit)
    (hne : line ≠ []) :
    told α limit line = untilOver (ahead α limit (some (.whole line)) ++ [none]) := by
  rw [told, cutLines_of_absent hn hne, List.filterMap_cons, judge_of_le hl, ahead]
  cases receive α limit (.whole line) <;> rfl

theorem told_nil : told α limit [] = [none] := rfl

theorem untilOver_told (input : List UInt8) :
    untilOver (told α limit input) = told α limit input :=
  untilOver_append_untilOver [] _

theorem length_told_le (input : List UInt8) : (told α limit input).length ≤ input.length + 1 := by
  have hc := length_cutLines_le input
  have hf := List.length_filterMap_le (judge α limit) (cutLines input)
  have hu := length_untilOver_le
    (((cutLines input).filterMap (judge α limit)).map some ++ [none])
  simp only [List.length_append, List.length_map, List.length_singleton] at hu
  exact Nat.le_trans hu (by omega)

end Told

/-! One call. -/

namespace Reader

variable {α : Type} [Framed α] {limit : Nat}

structure Sound (r : Reader limit) : Prop where
  whole : newline ∉ r.line
  short : r.line.length ≤ limit
  budget : r.budget.getD (limit + 1 - r.line.length) = limit + 1 - r.line.length

theorem sound_fresh (pieces : List (List UInt8)) (closed : Bool) :
    (⟨[], pieces, closed, none⟩ : Reader limit).Sound :=
  ⟨List.not_mem_nil, Nat.zero_le limit, rfl⟩

def Admits (r : Reader limit) (more : List UInt8) : Prop := r.closed = true → more = []

/-- What a call that gives back a line, or nothing, tells of the bytes that are unread; a call that
waits has changed nothing about them. -/
def Tells (α : Type) [Framed α] (r after : Reader limit) : Option (Option Line) → Prop
  | none => r.closed = false ∧ after.unread = r.unread
  | some line => ∀ more, r.Admits more →
      told α limit (r.unread ++ more) =
        untilOver (ahead α limit line ++ told α limit (after.unread ++ more))

theorem lineTaken_of_absent {line : List UInt8} (hn : newline ∉ line) :
    lineTaken limit line.reverse =
      if line = [] then none
      else if limit < line.length then some .tooLong
      else some (.whole line) := by
  cases h : line.reverse with
  | nil => simp_all [lineTaken]
  | cons b before =>
    have hr : line = (b :: before).reverse := by rw [← h, List.reverse_reverse]
    have hb : b ≠ newline := fun e => hn (by simp [hr, e])
    simp [lineTaken, hb, hr]

theorem Sound.takes_take {r : Reader limit} (hr : r.Sound) :
    Takes (limit + 1) [] r.unread r.take := by
  have ht := takes_takeLine (limit + 1 - r.line.length) r.line r.pieces
  have hl : r.line.reverse.length ≤ limit + 1 := by
    rw [List.length_reverse]
    exact Nat.le_succ_of_le hr.short
  refine Takes.after (by simpa using hr.whole) hl ?_
  rw [take, hr.budget]
  simpa using ht

/-- The three ways in which bytes are taken are a wait or the end, a line, and a line too long. -/
theorem tells_pollLine (α : Type) [Framed α] {r after : Reader limit}
    {line : Option (Option Line)} (hr : r.Sound) (h : r.pollLine = (after, line)) :
    after.Sound ∧ after.closed = r.closed ∧ r.Tells α after line := by
  have ht := hr.takes_take
  unfold pollLine at h
  generalize r.take = t at ht h
  cases ht with
  | short hn hb =>
    have hl : r.unread.length ≤ limit := Nat.le_of_lt_succ hb
    rw [List.append_nil] at h
    -- Short of a newline the call waits, unless nothing more can come.
    cases hc : r.closed with
    | false =>
      simp only [hc, Bool.or_self, Bool.false_eq_true, if_false] at h
      obtain ⟨rfl, rfl⟩ := Prod.mk.inj h
      exact ⟨⟨by simpa using hn, by simpa using hl, by simp⟩, rfl, hc, by simp [unread]⟩
    | true =>
      simp only [hc, Bool.or_true, if_true] at h
      obtain ⟨rfl, rfl⟩ := Prod.mk.inj h
      refine ⟨sound_fresh _ _, rfl, fun more hm => ?_⟩
      obtain rfl := hm hc
      rw [lineTaken_of_absent hn, List.append_nil, if_neg (Nat.not_lt.mpr hl)]
      by_cases he : r.unread = []
      · rw [if_pos he, he]
        rfl
      · rw [if_neg he, told_last hn hl he]
        rfl
  | whole before pieces ha hn hb =>
    simp only [Bool.true_or, if_true] at h
    obtain ⟨rfl, rfl⟩ := Prod.mk.inj h
    refine ⟨sound_fresh _ _, rfl, fun more _ => ?_⟩
    rw [ha, List.append_assoc, List.cons_append, told_whole hn (Nat.le_of_lt_succ hb)]
    simp [lineTaken, unread]
  | long before pieces ha hn hb =>
    simp only [Bool.true_or, if_true] at h
    obtain ⟨rfl, rfl⟩ := Prod.mk.inj h
    refine ⟨sound_fresh _ _, rfl, fun more _ => ?_⟩
    rw [ha, List.append_assoc, told_long hn hb, List.append_nil, lineTaken_of_absent hn,
      if_neg (List.ne_nil_of_length_eq_add_one hb), if_pos (hb ▸ Nat.lt_succ_self limit)]
    rfl

/-- What a call tells of the bytes that are unread. -/
def Hears (r after : Reader limit) : Poll α → Prop
  | .pending => r.closed = false ∧
      ∀ more, told α limit (r.unread ++ more) = told α limit (after.unread ++ more)
  | .ready result => ∀ more, r.Admits more →
      told α limit (r.unread ++ more) =
        untilOver (result :: told α limit (after.unread ++ more))

theorem hears_poll {r after : Reader limit} {result : Poll α} (hr : r.Sound)
    (h : r.poll α = (after, result)) :
    after.Sound ∧ after.closed = r.closed ∧ r.Hears after result := by
  fun_induction poll α r with
  | case1 r next hp =>
    obtain ⟨rfl, rfl⟩ := Prod.mk.inj h
    obtain ⟨ha, hc, ho, hu⟩ := tells_pollLine α hr hp
    exact ⟨ha, hc, ho, fun more => by rw [hu]⟩
  | case2 r next hp =>
    obtain ⟨rfl, rfl⟩ := Prod.mk.inj h
    exact tells_pollLine α hr hp
  -- A blank line amounts to nothing, and the call goes on from where it left off.
  | case3 r next line hp hv ih =>
    obtain ⟨hn, hc, ht⟩ := tells_pollLine α hr hp
    obtain ⟨ha, hc', hh⟩ := ih hn h
    have hu : ∀ more, r.Admits more →
        told α limit (r.unread ++ more) = told α limit (next.unread ++ more) := by
      intro more hm
      rw [ht more hm, ahead, hv]
      exact untilOver_told _
    refine ⟨ha, hc'.trans hc, ?_⟩
    cases result with
    | pending =>
      refine ⟨hc ▸ hh.1, fun more => ?_⟩
      rw [hu more fun hr => absurd (hc ▸ hr) (Bool.eq_false_iff.mp hh.1), hh.2]
    | ready result =>
      intro more hm
      rw [hu more hm, hh more fun hr => hm (hc ▸ hr)]
  | case4 r next line hp receipt hv =>
    obtain ⟨rfl, rfl⟩ := Prod.mk.inj h
    obtain ⟨hn, hc, ht⟩ := tells_pollLine α hr hp
    refine ⟨hn, hc, fun more hm => ?_⟩
    rw [ht more hm, ahead, hv]
    rfl

theorem ready_of_closed (α : Type) [Framed α] {r : Reader limit} (hr : r.Sound)
    (hc : r.closed = true) : ∃ after result, r.poll α = (after, .ready result) := by
  rcases h : r.poll α with ⟨after, - | result⟩
  · exact absurd hc (Bool.eq_false_iff.mp (hears_poll hr h).2.2.1)
  · exact ⟨after, result, rfl⟩

end Reader

/-! A whole conversation. -/

/-- What may happen around a reader. A call that finds another waiting goes on with it. -/
inductive Move where
  | arrive (piece : List UInt8)
  | close
  | call
  | giveUp
  deriving DecidableEq, Repr

def Move.input : List Move → List UInt8
  | [] => []
  | .close :: _ => []
  | .arrive piece :: moves => piece ++ input moves
  | .call :: moves => input moves
  | .giveUp :: moves => input moves

theorem Move.input_append_close (before after : List Move) :
    input (before ++ .close :: after) = input before := by
  induction before with
  | nil => rfl
  | cons m before ih => cases m <;> simp [input, ih]

namespace Reader

variable {limit : Nat}

def move (α : Type) [Framed α] (r : Reader limit) : Move → Reader limit × List (Option (Receipt α))
  | .arrive piece => (r.arrive piece, [])
  | .close => (r.close, [])
  | .giveUp => (r.giveUp, [])
  | .call =>
    match r.poll α with
    | (after, .pending) => (after, [])
    | (after, .ready result) => (after, [result])

def run (α : Type) [Framed α] (r : Reader limit) : List Move → Reader limit
  | [] => r
  | m :: moves => (r.move α m).1.run α moves

/-- What the calls come to, those that wait apart. -/
def results (α : Type) [Framed α] (r : Reader limit) : List Move → List (Option (Receipt α))
  | [] => []
  | m :: moves => (r.move α m).2 ++ (r.move α m).1.results α moves

section

variable {α : Type} [Framed α]

theorem sound_start : (start : Reader limit).Sound := sound_fresh [] false

def coming (r : Reader limit) (moves : List Move) : List UInt8 :=
  if r.closed then [] else Move.input moves

theorem Sound.arrive {r : Reader limit} (hr : r.Sound) (piece : List UInt8) :
    (r.arrive piece).Sound := by
  rw [Reader.arrive]
  split
  · exact hr
  · exact ⟨hr.whole, hr.short, hr.budget⟩

theorem Sound.close {r : Reader limit} (hr : r.Sound) : r.close.Sound :=
  ⟨hr.whole, hr.short, hr.budget⟩

theorem sound_move (α : Type) [Framed α] {r : Reader limit} (hr : r.Sound) (m : Move) :
    (r.move α m).1.Sound := by
  cases m with
  | arrive piece => exact hr.arrive piece
  | close => exact hr.close
  | giveUp => exact ⟨hr.whole, hr.short, rfl⟩
  | call =>
    rcases h : r.poll α with ⟨after, - | result⟩ <;>
      simpa only [move, h] using (hears_poll hr h).1

theorem closed_run {r : Reader limit} (hr : r.Sound) (hc : r.closed = true) (moves : List Move) :
    (r.run α moves).closed = true := by
  induction moves generalizing r with
  | nil => exact hc
  | cons m moves ih =>
    refine ih (sound_move α hr m) ?_
    cases m with
    | arrive piece => simp [move, arrive, hc]
    | close => rfl
    | giveUp => exact hc
    | call =>
      rcases h : r.poll α with ⟨after, - | result⟩ <;>
        simpa only [move, h, (hears_poll hr h).2.1] using hc

theorem told_move {r : Reader limit} (hr : r.Sound) (m : Move) (moves : List Move)
    {more : List UInt8} (hm : (r.run α (m :: moves)).Admits more) :
    told α limit (r.unread ++ (r.coming (m :: moves) ++ more)) =
      untilOver ((r.move α m).2 ++
        told α limit ((r.move α m).1.unread ++ ((r.move α m).1.coming moves ++ more))) := by
  cases m with
  | arrive piece =>
    rw [move, List.nil_append, untilOver_told]
    by_cases hc : r.closed = true <;> simp [arrive, coming, hc, unread, Move.input]
  | close =>
    rw [move, List.nil_append, untilOver_told]
    simp [close, coming, unread, Move.input]
  | giveUp =>
    rw [move, List.nil_append, untilOver_told]
    rfl
  | call =>
    have ha : r.Admits (r.coming moves ++ more) := by
      intro hc
      rw [hm (closed_run hr hc _), coming, if_pos hc, List.append_nil]
    rcases h : r.poll α with ⟨after, - | result⟩
    all_goals
      obtain ⟨-, hc, hh⟩ := hears_poll hr h
      have hi : after.coming moves = r.coming moves := by rw [coming, hc, coming]
    · rw [move, h, List.nil_append, untilOver_told, hi]
      exact hh.2 _
    · rw [move, h, List.singleton_append, hi]
      exact hh _ ha

/-- What the calls of a run come to, and what the bytes left over still call for, is what all the
bytes call for. -/
theorem told_run {r : Reader limit} (hr : r.Sound) (moves : List Move) {more : List UInt8}
    (hm : (r.run α moves).Admits more) :
    told α limit (r.unread ++ (r.coming moves ++ more)) =
      untilOver (r.results α moves ++ told α limit ((r.run α moves).unread ++ more)) := by
  induction moves generalizing r with
  | nil =>
    have hi : r.coming [] = [] := by simp [coming, Move.input]
    rw [hi, results, List.nil_append, List.nil_append, untilOver_told]
    rfl
  | cons m moves ih =>
    rw [told_move hr m moves hm, ih (sound_move α hr m) hm, untilOver_append_untilOver,
      ← List.append_assoc]
    rfl

theorem results_append (r : Reader limit) (a b : List Move) :
    r.results α (a ++ b) = r.results α a ++ (r.run α a).results α b := by
  induction a generalizing r with
  | nil => rfl
  | cons m a ih => simp [results, run, ih]

theorem length_results_of_closed {r : Reader limit} (hr : r.Sound) (hc : r.closed = true)
    (moves : List Move) : (r.results α moves).length = moves.count .call := by
  induction moves generalizing r with
  | nil => rfl
  | cons m moves ih =>
    have hl := ih (sound_move α hr m) (closed_run hr hc [m])
    rw [results, List.length_append, hl]
    cases m with
    | call =>
      obtain ⟨after, result, h⟩ := ready_of_closed α hr hc
      simp [move, h]
      omega
    | arrive piece => simp [move]
    | close => simp [move]
    | giveUp => simp [move]

theorem sound_run (α : Type) [Framed α] {r : Reader limit} (hr : r.Sound) (moves : List Move) :
    (r.run α moves).Sound := by
  induction moves generalizing r with
  | nil => exact hr
  | cons m moves ih => exact ih (sound_move α hr m)

theorem closed_move {r : Reader limit} (hr : r.Sound) {m : Move}
    (h : (r.move α m).1.closed = true) : r.closed = true ∨ m = .close := by
  cases m with
  | arrive piece =>
    rw [move, arrive] at h
    split at h <;> exact .inl h
  | close => exact .inr rfl
  | giveUp => exact .inl h
  | call =>
    rcases hp : r.poll α with ⟨after, - | result⟩ <;>
      exact .inl (by simpa only [move, hp, (hears_poll hr hp).2.1] using h)

theorem mem_of_closed_run {r : Reader limit} (hr : r.Sound) {moves : List Move}
    (h : (r.run α moves).closed = true) : r.closed = true ∨ .close ∈ moves := by
  induction moves generalizing r with
  | nil => exact .inl h
  | cons m moves ih =>
    rcases ih (sound_move α hr m) h with hc | hc
    · exact (closed_move hr hc).imp_right fun hm => by simp [hm]
    · exact .inr (.tail m hc)

theorem mem_of_closed_run_start {moves : List Move}
    (h : ((start : Reader limit).run α moves).closed = true) : .close ∈ moves :=
  (mem_of_closed_run sound_start h).resolve_left Bool.false_ne_true

theorem told_run_start {moves : List Move} {more : List UInt8}
    (hm : ((start : Reader limit).run α moves).Admits more) :
    told α limit (Move.input moves ++ more) =
      untilOver ((start : Reader limit).results α moves ++
        told α limit (((start : Reader limit).run α moves).unread ++ more)) :=
  told_run sound_start moves hm

theorem prefix_told {moves : List Move} {more : List UInt8}
    (hm : ((start : Reader limit).run α moves).Admits more) :
    untilOver ((start : Reader limit).results α moves) <+:
      told α limit (Move.input moves ++ more) :=
  told_run_start hm ▸ untilOver_prefix _ _

theorem results_of_mem {moves : List Move} {more : List UInt8}
    (hm : ((start : Reader limit).run α moves).Admits more)
    (h : ∃ x ∈ (start : Reader limit).results α moves, ∀ a, x ≠ some (.frame a)) :
    untilOver ((start : Reader limit).results α moves) =
      told α limit (Move.input moves ++ more) :=
  (untilOver_of_mem h _).symm.trans (told_run_start hm).symm

/-- Once the input is at its end, as many calls as there are results come to all of them. -/
theorem results_of_closed (before after : List Move)
    (hk : (told α limit (Move.input before)).length ≤ after.count .call) :
    untilOver ((start : Reader limit).results α (before ++ .close :: after)) =
      told α limit (Move.input before) := by
  have hs : ((start : Reader limit).run α before).close.Sound := (sound_run α sound_start _).close
  have hc : (((start : Reader limit).run α before).close.results α after).length =
      after.count .call := length_results_of_closed hs rfl after
  have hl : after.count .call ≤
      ((start : Reader limit).results α (before ++ .close :: after)).length := by
    rw [results_append, List.length_append, results, List.length_append, ← hc]
    exact Nat.le_trans (Nat.le_add_left _ _) (Nat.le_add_left _ _)
  have h : told α limit (Move.input (before ++ .close :: after) ++ []) = _ :=
    told_run_start fun _ => rfl
  rw [List.append_nil, Move.input_append_close] at h
  rw [h] at hk ⊢
  exact untilOver_of_length_le (Nat.le_trans hk hl)

/-! Giving a call up. -/

theorem Sound.pollLine_giveUp {r : Reader limit} (hr : r.Sound) :
    r.giveUp.pollLine = r.pollLine := by
  have ht : r.giveUp.take = r.take := by
    rw [take, take, hr.budget]
    rfl
  rw [pollLine, pollLine, ht]
  rfl

theorem Sound.poll_giveUp {r : Reader limit} (hr : r.Sound) : r.giveUp.poll α = r.poll α := by
  rw [poll, poll, hr.pollLine_giveUp]

theorem arrive_giveUp (r : Reader limit) (piece : List UInt8) :
    r.giveUp.arrive piece = (r.arrive piece).giveUp := by
  by_cases hc : r.closed = true <;> simp [arrive, giveUp, hc]

theorem Sound.results_giveUp {r : Reader limit} (hr : r.Sound) (moves : List Move) :
    r.giveUp.results α moves = r.results α moves := by
  induction moves generalizing r with
  | nil => rfl
  | cons m moves ih =>
    cases m with
    | arrive piece => simp only [results, move, arrive_giveUp, ih (hr.arrive piece)]
    | close => exact congrArg ([] ++ ·) (ih hr.close)
    | giveUp => rfl
    | call => simp only [results, move, hr.poll_giveUp]

/-- No byte is lost or taken twice where calls are given up: all goes on as if they had not been. -/
theorem results_filter {r : Reader limit} (hr : r.Sound) (moves : List Move) :
    r.results α (moves.filter (· ≠ .giveUp)) = r.results α moves := by
  induction moves generalizing r with
  | nil => rfl
  | cons m moves ih =>
    by_cases hm : m = .giveUp
    · subst hm
      rw [List.filter_cons_of_neg (by simp), ih hr, ← hr.results_giveUp]
      rfl
    · rw [List.filter_cons_of_pos (by simp [hm]), results, results, ih (sound_move α hr m)]

end

end Reader

section

variable {α : Type} [Framed α] {limit : Nat}

theorem told_newline {line : List UInt8} (hn : newline ∉ line) (hl : line.length ≤ limit) :
    told α limit (line ++ [newline]) = told α limit line := by
  rw [told_whole hn hl, told_nil]
  by_cases he : line = []
  · subst he
    rfl
  · rw [told_last hn hl he]

theorem judge_ne_tooLarge {line : List UInt8} (hl : line.length ≤ limit) (n : Nat) :
    judge α limit line ≠ some (.tooLarge n) := by
  rw [judge, if_neg (Nat.not_lt.mpr hl)]
  split
  · simp
  · split <;> simp

theorem told_eq_frames (input : List UInt8) :
    ∃ (frames : List α) (last : Option (Receipt α)), (∀ a, last ≠ some (.frame a)) ∧
      told α limit input = frames.map (some ∘ .frame) ++ [last] := by
  rw [told]
  induction (cutLines input).filterMap (judge α limit) with
  | nil => exact ⟨[], none, by simp, rfl⟩
  | cons receipt receipts ih =>
    obtain ⟨frames, last, hl, ht⟩ := ih
    cases receipt with
    | frame a =>
      refine ⟨a :: frames, last, hl, ?_⟩
      simp only [List.map_cons, List.cons_append, untilOver, ht, Function.comp_apply]
    | malformed fault => exact ⟨[], some (.malformed fault), by simp, rfl⟩
    | tooLarge n => exact ⟨[], some (.tooLarge n), by simp, rfl⟩

end

/-! All of an input at once. -/

namespace Splitter

variable {limit : Nat}

theorem push_of_ne {s : Splitter limit} {b : UInt8} (hb : b ≠ newline) (hr : 1 < s.room) :
    ∃ t : Splitter limit, s.push b = (t, none) ∧ t.held = b :: s.held := by
  rw [push, if_neg hb]
  split
  · exact ⟨_, rfl, rfl⟩
  · next h => exact absurd (by omega) (h (s.room - 2))

theorem pushAll_of_none {s t : Splitter limit} {b : UInt8} (h : s.push b = (t, none))
    (newest : List Line) (rest : List UInt8) :
    s.pushAll newest (b :: rest) = t.pushAll newest rest := by
  simp [pushAll, h]

theorem pushAll_of_some {s t : Splitter limit} {b : UInt8} {line : Line}
    (h : s.push b = (t, some line)) (newest : List Line) (rest : List UInt8) :
    s.pushAll newest (b :: rest) = t.pushAll (line :: newest) rest := by
  simp [pushAll, h]

theorem pushAll_append_short {s : Splitter limit} {line : List UInt8} (hn : newline ∉ line)
    (hl : line.length < s.room) :
    ∃ t : Splitter limit, t.held = line.reverse ++ s.held ∧
      ∀ newest rest, s.pushAll newest (line ++ rest) = t.pushAll newest rest := by
  induction line generalizing s with
  | nil => exact ⟨s, rfl, fun _ _ => rfl⟩
  | cons b line ih =>
    have hb : b ≠ newline := fun h => hn (by simp [h])
    rw [List.length_cons] at hl
    obtain ⟨t, hp, ht⟩ := push_of_ne hb (by omega : 1 < s.room)
    have hr : line.length < t.room := by
      have h := congrArg List.length ht
      have hs := s.held_add_room
      have ht := t.held_add_room
      rw [List.length_cons] at h
      omega
    obtain ⟨u, hu, ha⟩ := ih (fun h => hn (by simp [h])) hr
    refine ⟨u, by simp [hu, ht], fun newest rest => ?_⟩
    rw [List.cons_append, pushAll_of_none hp, ha]

theorem pushAll_newest (s : Splitter limit) (newest : List Line) (input : List UInt8) :
    s.pushAll newest input = ((s.pushAll [] input).1, (s.pushAll [] input).2 ++ newest) := by
  induction input generalizing s newest with
  | nil => rfl
  | cons b input ih =>
    rcases h : s.push b with ⟨t, - | line⟩
    · rw [pushAll_of_none h, pushAll_of_none h, ih]
    · rw [pushAll_of_some h, pushAll_of_some h, ih, ih t [line]]
      simp

end Splitter

section

variable {limit : Nat}

theorem linesOf_of_pushAll {input rest : List UInt8} {line : Line}
    (h : (Splitter.start : Splitter limit).pushAll [] input =
      (Splitter.start : Splitter limit).pushAll [line] rest) :
    linesOf limit input = line :: linesOf limit rest := by
  rw [linesOf, linesOf, h, Splitter.pushAll_newest]
  simp

theorem linesOf_whole {line : List UInt8} (hn : newline ∉ line) (hl : line.length ≤ limit)
    (rest : List UInt8) :
    linesOf limit (line ++ newline :: rest) = .whole line :: linesOf limit rest := by
  have hr : line.length < (Splitter.start : Splitter limit).room := Nat.lt_succ_of_le hl
  obtain ⟨t, ht, ha⟩ := Splitter.pushAll_append_short hn hr
  have hp : t.push newline = (.start, some (.whole line)) := by
    rw [Splitter.push, if_pos rfl, ht]
    simp [Splitter.start]
  exact linesOf_of_pushAll (by rw [ha, Splitter.pushAll_of_some hp])

theorem linesOf_long {line : List UInt8} (hn : newline ∉ line) (hl : line.length = limit + 1)
    (rest : List UInt8) : linesOf limit (line ++ rest) = .tooLong :: linesOf limit rest := by
  have hd := List.dropLast_concat_getLast (List.ne_nil_of_length_eq_add_one hl)
  generalize line.dropLast = before, line.getLast _ = b at hd
  subst hd
  have hb : b ≠ newline := fun h => hn (by simp [h])
  simp only [List.length_append, List.length_singleton] at hl
  have hr : before.length < (Splitter.start : Splitter limit).room := by
    simp only [Splitter.start]
    omega
  obtain ⟨t, ht, ha⟩ := Splitter.pushAll_append_short (fun h => hn (by simp [h])) hr
  have hroom : t.room = 1 := by
    have h := t.held_add_room
    simp only [ht, Splitter.start, List.append_nil, List.length_reverse] at h
    omega
  have hp : t.push b = (.start, some .tooLong) := by
    rw [Splitter.push, if_neg hb]
    split
    · omega
    · rfl
  rw [List.append_assoc]
  exact linesOf_of_pushAll (by rw [ha, List.singleton_append, Splitter.pushAll_of_some hp])

theorem linesOf_last {line : List UInt8} (hn : newline ∉ line) (hl : line.length ≤ limit) :
    linesOf limit line = if line = [] then [] else [.whole line] := by
  have hr : line.length < (Splitter.start : Splitter limit).room := Nat.lt_succ_of_le hl
  obtain ⟨t, ht, ha⟩ := Splitter.pushAll_append_short hn hr
  have hp : (Splitter.start : Splitter limit).pushAll [] line = (t, []) := by
    have h := ha [] []
    rwa [List.append_nil] at h
  rw [linesOf, hp]
  by_cases he : line = [] <;> simp [Splitter.finish, ht, he, Splitter.start]

/-- The lines of an input all at once tell what the lines by themselves do. -/
theorem untilOver_receiveAll {α : Type} [Framed α] (input : List UInt8) :
    untilOver ((receiveAll α limit input).map some ++ [none]) = told α limit input := by
  have ht := takes_takeLine (limit + 1) [] [input]
  rw [List.flatten_singleton] at ht
  generalize takeLine (limit + 1) [] [input] = t at ht
  cases ht with
  | short hn hb =>
    have hl : input.length ≤ limit := Nat.le_of_lt_succ hb
    rw [receiveAll, linesOf_last hn hl]
    by_cases he : input = []
    · rw [if_pos he, he]
      rfl
    · rw [if_neg he, told_last hn hl he, ahead]
      cases h : receive α limit (.whole input) <;> simp [h]
  | whole before pieces ha hn hb =>
    have ih : _ = told α limit pieces.flatten := untilOver_receiveAll pieces.flatten
    rw [ha, told_whole hn (Nat.le_of_lt_succ hb), ← ih, untilOver_append_untilOver, receiveAll,
      linesOf_whole hn (Nat.le_of_lt_succ hb), ahead]
    cases h : receive α limit (.whole before) <;> simp [h, receiveAll]
  | long before pieces ha hn hb =>
    rw [ha, told_long hn hb, receiveAll, linesOf_long hn hb]
    rfl
termination_by input.length
decreasing_by simp [ha]; omega

end

/-- Reading refines cutting into lines. At any point of any run the results up to the first that is
no frame begin those that the lines call for, whatever else may still come, and are all of them if
there is such a result. When as many calls as there are results have been made on an input that is
at its end, they are all of them: a number of frames and one result that is none. Calls given up on
the way change nothing. At the limit a line is read, with or without its newline, and one byte
beyond it is refused. -/
theorem Reader.refines_lines (α : Type) [Framed α] (limit : Nat) :
    (∀ moves more, (.close ∈ moves → more = []) →
      let results := (start : Reader limit).results α moves
      untilOver results <+: told α limit (Move.input moves ++ more) ∧
        ((∃ x ∈ results, ∀ a, x ≠ some (.frame a)) →
          untilOver results = told α limit (Move.input moves ++ more))) ∧
    (∀ before after, (told α limit (Move.input before)).length ≤ after.count .call →
      untilOver ((start : Reader limit).results α (before ++ .close :: after)) =
        told α limit (Move.input before)) ∧
    (∀ input, (told α limit input).length ≤ input.length + 1 ∧
      ∃ (frames : List α) (last : Option (Receipt α)), (∀ a, last ≠ some (.frame a)) ∧
        told α limit input = frames.map (some ∘ .frame) ++ [last]) ∧
    (∀ moves : List Move, (start : Reader limit).results α (moves.filter (· ≠ .giveUp)) =
      (start : Reader limit).results α moves) ∧
    ∀ line, newline ∉ line →
      (line.length ≤ limit → told α limit (line ++ [newline]) = told α limit line ∧
        ∀ n, judge α limit line ≠ some (.tooLarge n)) ∧
      (line.length = limit + 1 → ∀ rest,
        told α limit (line ++ rest) = [some (.tooLarge limit)]) := by
  refine ⟨fun moves more hm => ?_, results_of_closed, fun input => ?_,
    results_filter sound_start, fun line hn => ⟨fun hl => ?_, fun hl rest => told_long hn hl rest⟩⟩
  · have ha : ((start : Reader limit).run α moves).Admits more := fun hc =>
      hm (mem_of_closed_run_start hc)
    exact ⟨prefix_told ha, results_of_mem ha⟩
  · exact ⟨length_told_le input, told_eq_frames input⟩
  · exact ⟨told_newline hn hl, judge_ne_tooLarge hl⟩

end BodyCallout
