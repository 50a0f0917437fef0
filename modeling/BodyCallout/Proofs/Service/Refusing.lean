import BodyCallout.Proofs.Service.Occupancy

/-!
Frames that are refused. Every frame makes one change at most: it opens a stream, tells one something,
gives up a number, or is answered by one error. So there are never more numbers open than allowed, no
generation comes twice, and a connection that drains opens nothing more.
-/

set_option autoImplicit false

namespace BodyCallout

namespace Table

variable {κ α : Type} [DecidableEq κ]

theorem modify_congr {t : Table κ α} {k : κ} {f g : α → α}
    (h : ∀ a, t.get? k = some a → f a = g a) : t.modify k f = t.modify k g := by
  refine ext (List.map_congr_left fun e he => ?_)
  by_cases hk : e.1 = k
  · subst hk
    rw [h e.2 (get?_eq_some_iff.mpr he)]
  · simp only [if_neg hk]

end Table

namespace Connection

def sendErrors (c : Connection) (errors : List Outbound) : Connection :=
  { c with queue := c.queue ++ if c.broken then [] else errors.map (Parcel.mk none) }

variable {c : Connection} {n : UInt64} {event : Event}

theorem send_error (c : Connection) (f : Outbound) : c.send ⟨none, f⟩ = c.sendErrors [f] := by
  unfold send sendErrors
  split
  · rw [List.append_nil]
  · rfl

def refusal? (c : Connection) : Option StreamRefusal :=
  if c.draining then some .draining
  else if c.maxStreams ≤ c.streams.size then some .tooMany
  else none

theorem dispatch_of_refusal {r : StreamRefusal} (hs : c.streams.get? n = none)
    (hr : c.refusal? = some r) :
    c.dispatch (.message n event) = c.sendErrors [.error n r.message] := by
  rw [← send_error]
  simp only [dispatch, hs]
  unfold refusal? at hr
  split at hr
  · next hd => rw [if_pos hd, refuse, Option.some.inj hr]
  · next hd =>
    rw [if_neg hd]
    split at hr
    · next hm => rw [if_pos hm, refuse, Option.some.inj hr]
    · cases hr

theorem giveUp_of_absent (hs : c.streams.get? n = none) (item : Item) : c.giveUp n item = c := by
  rw [giveUp, hs]

theorem dispatch_of_running {g : Nat} {t : StreamTask} (hs : c.streams.get? n = some g)
    (ht : c.tasks.get? g = some t) (hr : t.stage = .running) :
    c.dispatch (.message n event) =
      c.setTask g { t with inbox := t.inbox ++ [.event event] } := by
  have htakes : c.takes g = true := by simp [takes, ht, hr]
  have hm : c.tasks.modify g (fun u =>
      if u.stage = .running then { u with inbox := u.inbox ++ [.event event] } else u) =
        c.tasks.modify g fun _ => { t with inbox := t.inbox ++ [.event event] } :=
    Table.modify_congr fun u hu => by
      obtain rfl : t = u := Option.some.inj (ht.symm.trans hu)
      rw [if_pos hr]
  simp only [dispatch, hs, htakes, if_true, deliver, setTask, hm]

theorem dispatch_of_closed {g : Nat} (hs : c.streams.get? n = some g) (ht : c.takes g = false) :
    c.dispatch (.message n event) =
      { c with streams := c.streams.erase n }.sendErrors
        [.error n StreamRefusal.closed.message] := by
  rw [← send_error]
  simp only [dispatch, hs, ht, Bool.false_eq_true, if_false, refuse]

theorem refusal?_of_opens {service : Service} {s : Store} (hs : c.streams.get? n = none)
    (he : (c.step service s (.frame (.message n event))).1 =
      c.openStream n (.event event)) : c.refusal? = none := by
  have ho : (c.step service s (.frame (.message n event))).1.opened = c.opened + 1 :=
    congrArg Connection.opened he
  rw [Option.eq_none_iff_forall_ne_some]
  intro r hr
  refine Nat.succ_ne_self c.opened (ho.symm.trans ?_)
  rw [step, takeFrame]
  split
  · rfl
  · rw [dispatch_of_refusal hs hr]
    rfl

namespace Move

variable {service : Service} {w : Connection × Store}

def opening? (service : Service) (w : Connection × Store) : Move → Option (UInt64 × Nat)
  | act (.frame (.message n event)) =>
    if w.1.streams.get? n = none then
      (((act (.frame (.message n event))).take service w).1.streams.get? n).map (n, ·)
    else none
  | _ => none

def openings (service : Service) : Connection × Store → List Move → List (UInt64 × Nat)
  | _, [] => []
  | w, m :: rest => (m.opening? service w).toList ++ openings service (m.take service w) rest

theorem openings_append (before after : List Move) :
    openings service w (before ++ after) =
      openings service w before ++ openings service (run service w before) after := by
  induction before generalizing w with
  | nil => rfl
  | cons m rest ih => rw [List.cons_append, openings, openings, ih, run_cons, List.append_assoc]

/-- A move opens a number that was not open, if nothing speaks against it, under the next generation;
or it opens none and puts none among those that are open. -/
theorem opening?_cases (service : Service) (m : Move) :
    (∃ n, m.opening? service w = some (n, w.1.opened) ∧ w.1.refusal? = none ∧
      (m.take service w).1.opened = w.1.opened + 1) ∨
    m.opening? service w = none ∧ (m.take service w).1.opened = w.1.opened ∧
      ∀ n g, (m.take service w).1.streams.get? n = some g → w.1.streams.get? n = some g := by
  -- A move that puts no number among those that are open has none to show.
  have kept (ho : (m.take service w).1.opened = w.1.opened)
      (hs : ∀ n g, (m.take service w).1.streams.get? n = some g →
        w.1.streams.get? n = some g) : m.opening? service w = none := by
    unfold opening?
    split
    · next n event =>
      split
      · next hn =>
        rw [Option.map_eq_none_iff, Option.eq_none_iff_forall_ne_some]
        intro g hg
        exact absurd ((hs n g hg).symm.trans hn) (Option.some_ne_none g)
      · rfl
    · rfl
  cases m with
  | around f => exact .inr ⟨rfl, rfl, fun _ _ h => h⟩
  | act a =>
    rcases w.1.step_cases service w.2 a with ⟨n, event, rfl, hn, he⟩ | ⟨g, fresh, rfl⟩ | hw
    · refine .inl ⟨n, ?_, ?_, congrArg Connection.opened he⟩
      · simp only [opening?, hn, if_true, Move.take, he, openStream, Table.get?_insert_self hn,
          Option.map_some]
      · exact refusal?_of_opens hn he
    · obtain ⟨tasks, he⟩ := work_eq service g fresh w.1 w.2
      have hc : ((act (.work g fresh)).take service w).1 = { w.1 with tasks := tasks } := he
      exact .inr ⟨rfl, by rw [hc], fun _ _ h => by rwa [hc] at h⟩
    · exact .inr ⟨kept hw.opened hw.streams, hw.opened, hw.streams⟩

theorem maxStreams_take (m : Move) : (m.take service w).1.maxStreams = w.1.maxStreams := by
  cases m with
  | around f => rfl
  | act a => exact maxStreams_step a

theorem size_run (h : w.1.streams.size ≤ w.1.maxStreams) (moves : List Move) :
    (run service w moves).1.streams.size ≤ w.1.maxStreams := by
  induction moves generalizing w with
  | nil => exact h
  | cons m rest ih =>
    have hm : (m.take service w).1.maxStreams = w.1.maxStreams := maxStreams_take m
    rw [run_cons, ← hm]
    refine ih ?_
    rw [hm]
    cases m with
    | around f => exact h
    | act a => exact size_step h a

/-- The generations come one after the other. -/
theorem generations_run (service : Service) (moves : List Move) :
    (openings service w moves).map Prod.snd =
        List.range' w.1.opened (openings service w moves).length ∧
      (run service w moves).1.opened = w.1.opened + (openings service w moves).length := by
  induction moves generalizing w with
  | nil => exact ⟨rfl, rfl⟩
  | cons m rest ih =>
    obtain ⟨hg, ho⟩ := ih (w := m.take service w)
    rcases opening?_cases (w := w) service m with ⟨n, hm, -, hc⟩ | ⟨hm, hc, -⟩
    · rw [openings, hm, run_cons, ho, hc]
      rw [hc] at hg
      simp only [Option.toList_some, List.singleton_append, List.map_cons, List.length_cons, hg,
        List.range'_succ]
      exact ⟨trivial, by omega⟩
    · rw [openings, hm, run_cons, ho, hc]
      rw [hc] at hg
      exact ⟨hg, rfl⟩

theorem length_openings_le (service : Service) (moves : List Move) :
    (openings service w moves).length ≤ moves.length := by
  induction moves generalizing w with
  | nil => exact Nat.le_refl 0
  | cons m rest ih =>
    have hr := ih (w := m.take service w)
    rw [openings, List.length_append, List.length_cons]
    cases m.opening? service w with
    | none => exact Nat.le_succ_of_le (by simpa using hr)
    | some k =>
      rw [Option.toList_some, List.length_singleton]
      omega

/-- Generations are counted in words of 64 bits, which a run of fewer moves does not use up. -/
theorem opened_run_lt {moves : List Move} (h : w.1.opened + moves.length < UInt64.size) :
    (run service w moves).1.opened < UInt64.size := by
  have hl := length_openings_le (w := w) service moves
  rw [(generations_run service moves).2]
  omega

theorem draining_take (service : Service) (h : w.1.draining = true) (m : Move) :
    (m.take service w).1.draining = true := by
  cases m with
  | around f => exact h
  | act a =>
    by_cases ha : a = .drain
    · subst ha
      rfl
    · exact (draining_step ha service w.2).trans h

/-- While it drains a connection opens nothing, and numbers are only given up. -/
theorem openings_of_draining (service : Service) (h : w.1.draining = true) (moves : List Move) :
    openings service w moves = [] ∧
      ∀ n g, (run service w moves).1.streams.get? n = some g → w.1.streams.get? n = some g := by
  induction moves generalizing w with
  | nil => exact ⟨rfl, fun _ _ h => h⟩
  | cons m rest ih =>
    obtain ⟨ho, hs⟩ := ih (draining_take service h m)
    rcases opening?_cases (w := w) service m with ⟨n, -, hr, -⟩ | ⟨hm, -, hk⟩
    · simp [refusal?, h] at hr
    · refine ⟨by rw [openings, hm, ho]; rfl, fun n g hn => hk n g (hs n g ?_)⟩
      rwa [run_cons] at hn

end Move

open Move

/-- Whatever the state of a connection: a message for a number that is not open, while it drains or is
full, and one for a number whose session has failed are answered by one error each, and of the rest
only the number of the latter goes; an end or abort for a number that is not open does nothing; a
message for a session at work is put in its inbox, and a new number is one entry and one generation
more. So however the connection goes on, no more numbers are open than allowed, the generations count
up, and once it drains nothing is opened and numbers are only given up. -/
theorem refused_frames_change_nothing (c : Connection) :
    (∀ n event, c.streams.get? n = none → c.draining = true ∨ c.maxStreams ≤ c.streams.size →
      c.dispatch (.message n event) = c.sendErrors [.error n
        (if c.draining then StreamRefusal.draining else .tooMany).message]) ∧
    (∀ n reason, c.streams.get? n = none →
      c.dispatch (.finish n) = c ∧ c.dispatch (.abort n reason) = c) ∧
    (∀ n event g t, c.streams.get? n = some g → c.tasks.get? g = some t → t.stage = .running →
      c.dispatch (.message n event) =
        c.setTask g { t with inbox := t.inbox ++ [.event event] }) ∧
    (∀ n event g, c.streams.get? n = some g → c.takes g = false →
      c.dispatch (.message n event) = { c with streams := c.streams.erase n }.sendErrors
        [.error n StreamRefusal.closed.message] ∧
      ∀ m, (c.streams.erase n).get? m = if m = n then none else c.streams.get? m) ∧
    (∀ n event, c.streams.get? n = none → c.draining = false →
      c.streams.size < c.maxStreams →
      c.dispatch (.message n event) = { c with
        opened := c.opened + 1
        streams := c.streams.insert n c.opened
        tasks := c.tasks.insert c.opened (.start ⟨c.number, n, c.opened⟩ (.event event)) } ∧
      (c.streams.insert n c.opened).size = c.streams.size + 1 ∧
      ∀ m, (c.streams.insert n c.opened).get? m =
        if m = n then some c.opened else c.streams.get? m) ∧
    ∀ service s moves,
      (c.streams.size ≤ c.maxStreams →
        (run service (c, s) moves).1.streams.size ≤ c.maxStreams) ∧
      ((openings service (c, s) moves).map Prod.snd).Pairwise (· < ·) ∧
      (run service (c, s) moves).1.opened =
        c.opened + (openings service (c, s) moves).length ∧
      ∀ after, openings service (c, s) (moves ++ act .drain :: after) =
          openings service (c, s) moves ∧
        ∀ n g, (run service (c, s) (moves ++ act .drain :: after)).1.streams.get? n = some g →
          (run service (c, s) moves).1.streams.get? n = some g := by
  refine ⟨fun n event hn hr => ?_, fun n reason hn => ⟨giveUp_of_absent hn _, giveUp_of_absent hn _⟩,
    fun n event g t hn ht hr => dispatch_of_running hn ht hr, fun n event g hn ht => ?_,
    fun n event hn hd hm => ?_, fun service s moves => ?_⟩
  · refine dispatch_of_refusal hn ?_
    unfold refusal?
    cases hd : c.draining with
    | true => rfl
    | false => simp [hr.resolve_left (by simp [hd])]
  · refine ⟨dispatch_of_closed hn ht, fun m => ?_⟩
    split
    · next hm => exact hm ▸ Table.get?_erase_self _ _
    · next hm => exact Table.get?_erase_of_ne _ hm
  · refine ⟨dispatch_of_room hd hn hm event, Table.size_insert hn _, fun m => ?_⟩
    split
    · next he => exact he ▸ Table.get?_insert_self hn _
    · next he => exact Table.get?_insert_of_ne he _
  · obtain ⟨hg, ho⟩ := generations_run (w := (c, s)) service moves
    refine ⟨fun hc => size_run (w := (c, s)) hc moves, ?_, ho, fun after => ?_⟩
    · rw [hg]
      exact List.pairwise_lt_range'
    · let w := (act .drain).take service (run service (c, s) moves)
      have hd : w.1.draining = true := rfl
      obtain ⟨hn, hs⟩ := openings_of_draining service hd after
      refine ⟨?_, fun n g h => ?_⟩
      · rw [openings_append, openings, hn]
        exact List.append_nil _
      · rw [run_append, run_cons] at h
        exact hs n g h

/-- One number is allowed and is open. Another is refused, for its own reason while the connection
drains; the stream that is open goes on all the while, until its session fails. -/
theorem refusals_of_full_connection :
    let headers : Event := .headers .request ⟨[], false⟩
    let task : StreamTask := .start ⟨3, 1, 0⟩ (.event headers)
    let c := (start 3 1).openStream 1 (.event headers)
    let failed := c.setTask 0 { task with stage := .ended (some .outboundClosed) }
    c.dispatch (.message 2 headers) = c.sendErrors [.error 2 "too many concurrent streams"] ∧
      c.drain.dispatch (.message 2 headers) =
        c.drain.sendErrors [.error 2 "server is shutting down"] ∧
      c.drain.dispatch (.message 1 headers) =
        c.drain.setTask 0 { task with inbox := [.event headers, .event headers] } ∧
      failed.dispatch (.message 1 headers) =
        { failed with streams := .empty }.sendErrors [.error 1 "stream closed"] := by
  intro headers task c failed
  obtain ⟨hfull, -⟩ := refused_frames_change_nothing c
  obtain ⟨hdrain, -, htold, -⟩ := refused_frames_change_nothing c.drain
  obtain ⟨-, -, -, hclosed, -⟩ := refused_frames_change_nothing failed
  refine ⟨hfull 2 headers rfl (.inr (by decide)), hdrain 2 headers rfl (.inl rfl),
    htold 1 headers 0 task rfl rfl rfl, ?_⟩
  obtain ⟨he, -⟩ := hclosed 1 headers 0 rfl rfl
  exact he

end Connection

end BodyCallout
