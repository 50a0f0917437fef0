import BodyCallout.Proofs.Session.History
import BodyCallout.Proofs.Session.Turns

set_option autoImplicit false

namespace BodyCallout

variable {ν : Type}

namespace View

theorem Step.limit_eq [DecidableEq ν] {v u : View ν} {t : Turn ν} (h : v.Step t u) :
    u.limit = v.limit := by
  cases h <;> rfl

/-- What a session holds is live, and no other session holds it. -/
structure Sole (v : View ν) : Prop where
  live : ∀ n k, v.holds n = some k → v.entry k ≠ none
  sole : ∀ n m k, v.holds n = some k → v.holds m = some k → n = m

variable [DecidableEq ν] {v u : View ν}

theorem Sole.release (h : v.Sole) (name : ν) : (v.release name).Sole := by
  constructor
  · intro n k hk
    obtain ⟨hn, hv⟩ := holds_release.mp hk
    have hm : v.holds name ≠ some k := fun hm => hn (h.sole n name k hv hm)
    rw [entry_release_of_ne hm]
    exact h.live n k hv
  · intro n m k hn hm
    exact h.sole n m k (holds_release.mp hn).2 (holds_release.mp hm).2

theorem Sole.acquire (h : v.Sole) (name : ν) (event : Event) {id : TransactionId}
    (ha : v.entry id = none) : (v.acquire name event id).Sole := by
  -- Nobody held the id before, for it was not live.
  have old {n : ν} {k : TransactionId} (hk : (v.acquire name event id).holds n = some k) :
      n = name ∧ k = id ∨ k ≠ id ∧ v.holds n = some k := by
    by_cases hn : n = name
    · subst hn
      rw [holds_acquire_self] at hk
      exact .inl ⟨rfl, (Option.some.inj hk).symm⟩
    · rw [holds_acquire_of_ne hn] at hk
      refine .inr ⟨?_, hk⟩
      rintro rfl
      exact h.live n k hk ha
  constructor
  · intro n k hk
    rcases old hk with ⟨-, rfl⟩ | ⟨hi, hv⟩
    · simp
    · rw [entry_acquire_of_ne hi]
      exact h.live n k hv
  · intro n m k hn hm
    rcases old hn with ⟨hn, hi⟩ | ⟨hi, hv⟩ <;> rcases old hm with ⟨hm, hj⟩ | ⟨hj, hw⟩
    · rw [hn, hm]
    · exact absurd hi hj
    · exact absurd hj hi
    · exact h.sole n m k hv hw

theorem Sole.step (h : v.Sole) {t : Turn ν} (hs : v.Step t u)
    (hq : ∀ idle, t = .sweep idle → (v.sweep idle).entry = v.entry) : u.Sole := by
  cases hs with
  | start name identity => exact h.release name
  | finish name => exact h.release name
  | refuse name event fresh ho => exact h.release name
  | acquire name event fresh id ho ha => exact (h.release name).acquire name event ha
  | pass time => exact ⟨h.live, h.sole⟩
  | sweep idle =>
    refine ⟨fun n k hk => ?_, h.sole⟩
    rw [hq idle rfl]
    exact h.live n k hk
  | work name event fresh ho =>
    exact ⟨fun n k hk hn => h.live n k hk (entry_work_eq_none.mp hn), h.sole⟩

theorem Sole.frame (h : v.Sole) {t : Turn ν} (hs : v.Step t u)
    (hq : ∀ idle, t = .sweep idle → (v.sweep idle).entry = v.entry) {name : ν}
    (hn : t.name? ≠ some name) {id : TransactionId} (hh : v.holds name = some id) :
    u.holds name = some id ∧ u.entry id = v.entry id := by
  have other {m : ν} (hm : m ≠ name) : v.holds m ≠ some id :=
    fun hk => hm (h.sole m name id hk hh)
  have released {m : ν} (hm : m ≠ name) :
      (v.release m).holds name = some id ∧ (v.release m).entry id = v.entry id :=
    ⟨holds_release.mpr ⟨Ne.symm hm, hh⟩, entry_release_of_ne (other hm)⟩
  cases hs with
  | start m identity => exact released (fun hm => hn (congrArg some hm))
  | finish m => exact released (fun hm => hn (congrArg some hm))
  | refuse m event fresh ho => exact released (fun hm => hn (congrArg some hm))
  | acquire m event fresh k ho ha =>
    have hm : m ≠ name := fun hm => hn (congrArg some hm)
    obtain ⟨hr, he⟩ := released hm
    have hk : id ≠ k := by
      rintro rfl
      exact h.live name id hh (he.symm.trans ha)
    exact ⟨(holds_acquire_of_ne (Ne.symm hm)).trans hr, (entry_acquire_of_ne hk).trans he⟩
  | work m event fresh ho =>
    have hm : m ≠ name := fun hm => hn (congrArg some hm)
    exact ⟨hh, entry_work_of_ne (other hm)⟩
  | pass time => exact ⟨hh, rfl⟩
  | sweep idle => exact ⟨hh, congrFun (hq idle rfl) id⟩

end View

variable [DecidableEq ν]

def Turn.event? (name : ν) : Turn ν → Option Event
  | .event n e _ => if n = name then some e else none
  | _ => none

/-- A turn in which a session, if it is its turn, goes on with the transaction that it has. -/
def Turn.Continues (name : ν) : Turn ν → Prop
  | .event n e _ => n = name → e.opens = false
  | .start n _ => n ≠ name
  | .finish n => n ≠ name
  | .advance _ => True
  | .sweep _ => True

namespace Shared

section Turns

variable {service : Service} {w : Shared ν} {t : Turn ν}

theorem entry_of_quiet (h : w.evicted t = 0) (idle : Nat) (ht : t = .sweep idle) :
    (w.view.sweep idle).entry = w.view.entry := by
  subst ht
  exact w.entry_of_evicted_zero h

theorem limit_take (service : Service) (w : Shared ν) (t : Turn ν) :
    (w.take service t).1.store.limit = w.store.limit :=
  (w.step_take service t).limit_eq

theorem session_of_holds {name : ν} {id : TransactionId} (h : w.view.holds name = some id) :
    ∃ session, w.sessions.get? name = some session := by
  obtain ⟨session, hs, _⟩ := Option.bind_eq_some_iff.mp h
  exact ⟨session, hs⟩

end Turns

section Runs

variable (service : Service) {w : Shared ν}

theorem sole_after (turns : List (Turn ν)) (hq : w.Quiet service turns) (h : w.view.Sole) :
    (w.after service turns).view.Sole := by
  induction turns generalizing w with
  | nil => exact h
  | cons t rest ih =>
    obtain ⟨ht, hr⟩ := hq
    exact ih hr (h.step (w.step_take service t) (entry_of_quiet ht))

theorem limit_after (turns : List (Turn ν)) :
    (w.after service turns).store.limit = w.store.limit := by
  induction turns generalizing w with
  | nil => rfl
  | cons t rest ih => rw [after_cons, ih, limit_take]

variable {β : Type} (f : Shared ν → Turn ν → β) (g : Event → Option Body → β)

/-- Whatever is read off what a session's events claim, can be read off the list of its events. -/
theorem along_of_tells
    (hf : ∀ w name session event fresh, w.sessions.get? name = some session →
      event.opens = false → f w (.event name event fresh) = g event (w.view.claimed name event))
    {name : ν} {id : TransactionId} (rest : List (Turn ν)) (hr : ∀ t ∈ rest, t.Continues name)
    (hq : w.Quiet service rest) (hs : w.view.Sole) (hh : w.view.holds name = some id)
    {t : Transaction} {events : List Event} (ht : w.view.entry id = some t)
    (hk : t.Tells w.store.limit events) :
    along service f name w rest =
      (rest.filterMap (Turn.event? name)).mapIdx fun i event =>
        g event <| Event.claim w.store.limit (events ++ rest.filterMap (Turn.event? name))
          (events.length + i) := by
  -- The events told so far grow along the run, and with them the place that is counted from.
  induction rest generalizing w t events with
  | nil => rfl
  | cons turn rest ih =>
    obtain ⟨hq, hqr⟩ := hq
    have hc := hr turn (List.mem_cons_self ..)
    have hr' : ∀ t ∈ rest, t.Continues name := fun t hm => hr t (List.mem_cons_of_mem _ hm)
    have hs' := hs.step (w.step_take service turn) (entry_of_quiet hq)
    have hl := w.limit_take service turn
    by_cases hn : turn.name? = some name
    · cases turn with
      | event n event fresh =>
        obtain rfl : n = name := Option.some.inj hn
        have ho : event.opens = false := hc rfl
        obtain ⟨session, hsn⟩ := session_of_holds hh
        have hv : (w.take service (.event n event fresh)).1.view = w.view.work n event :=
          view_handle_of_not_opens service fresh ho
        have ha := ((hk.touch w.view.now).advance event).1
        have hg : w.view.claimed n event = (Engine.advance event (t.touch w.view.now)).2.2 := by
          simp [View.claimed, hh, ht]
        have hw : (w.take service (.event n event fresh)).1.view.holds n = some id := by
          rw [hv]; exact hh
        have he : (w.take service (.event n event fresh)).1.view.entry id =
            some (Engine.advance event (t.touch w.view.now)).1 := by
          rw [hv]; simp [View.work, hh, ht]
        have hi := ih hr' hqr hs' hw he (by rw [hl]; exact ha)
        have hm : (Turn.event n event fresh :: rest).filterMap (Turn.event? n) =
            event :: rest.filterMap (Turn.event? n) :=
          List.filterMap_cons_some (by simp [Turn.event?])
        rw [along, if_pos hn, hf w n session event fresh hsn ho, hg,
          (hk.touch _).claimed event (rest.filterMap (Turn.event? n)), hm, List.mapIdx_cons, hi, hl]
        simp [Nat.add_assoc, Nat.add_comm 1]
      | start n identity => exact absurd (Option.some.inj hn) hc
      | finish n => exact absurd (Option.some.inj hn) hc
      | advance time => contradiction
      | sweep idle => contradiction
    · have he : turn.event? name = none := by
        cases turn with
        | event n event fresh => exact if_neg fun hm => hn (congrArg some hm)
        | _ => rfl
      obtain ⟨hh', ht'⟩ := hs.frame (w.step_take service turn) (entry_of_quiet hq) hn hh
      have hi := ih hr' hqr hs' hh' (ht'.trans ht) (by rw [hl]; exact hk)
      rw [hl] at hi
      rw [along, if_neg hn, List.filterMap_cons_none he]
      exact hi

theorem sole_idle (s : Store) : (idle s : Shared ν).view.Sole := by
  constructor
  · intro n k hk
    simp at hk
  · intro n m k hk
    simp at hk

theorem opened_of_reply {name : ν} {event : Event} {fresh : TransactionId} (ho : event.opens = true)
    {a : Answer} (ha : (w.take service (.event name event fresh)).2 = some (.ok a)) :
    a = service.engine.answer event none ∧
      ∃ id t, (w.take service (.event name event fresh)).1.view.holds name = some id ∧
        (w.take service (.event name event fresh)).1.view.entry id = some t ∧
        t.Tells w.store.limit [event] := by
  cases hs : w.sessions.get? name with
  | none => simp [take_of_absent service fresh hs] at ha
  | some session =>
    rcases handle_cases_of_opens service fresh hs ho with ⟨d, hd, _⟩ | ⟨id, _, hr, hv⟩
    · simp [take, hd] at ha
    · have hk := ((Transaction.tells_start id w.store.limit w.store.now).advance event).1
      refine ⟨?_, id, .opened event id w.store.limit w.store.now, ?_, ?_, hk⟩
      · rw [take, hr] at ha
        exact (Except.ok.inj (Option.some.inj ha)).symm
      · rw [take, hv]
        simp [View.acquire]
      · rw [take, hv]
        simp [View.acquire, View.release, view]

theorem along_of_opened
    (hf : ∀ w name session event fresh, w.sessions.get? name = some session →
      event.opens = false → f w (.event name event fresh) = g event (w.view.claimed name event))
    {name : ν} {event : Event} {fresh : TransactionId} {a : Answer} (rest : List (Turn ν))
    (hr : ∀ t ∈ rest, t.Continues name) (hq : w.Quiet service (.event name event fresh :: rest))
    (hs : w.view.Sole) (ho : event.opens = true)
    (ha : (w.take service (.event name event fresh)).2 = some (.ok a))
    (hg : f w (.event name event fresh) = g event none) :
    let events := (.event name event fresh :: rest).filterMap (Turn.event? name)
    along service f name w (.event name event fresh :: rest) =
      events.mapIdx fun i event => g event (Event.claim w.store.limit events i) := by
  intro events
  obtain ⟨hqo, hqr⟩ := hq
  obtain ⟨_, id, t, hh, ht, hk⟩ := opened_of_reply service ho ha
  have hs' := hs.step (w.step_take service _) (entry_of_quiet hqo)
  have hl := w.limit_take service (.event name event fresh)
  have he : events = event :: rest.filterMap (Turn.event? name) :=
    List.filterMap_cons_some (by simp [Turn.event?])
  have hc : Event.claim w.store.limit events 0 = none := by
    have hb := (Transaction.tells_start id w.store.limit 0).claimed event
      (rest.filterMap (Turn.event? name))
    rw [he]
    exact hb.symm.trans (Engine.claimed_of_opens ho id w.store.limit 0)
  have hrun := along_of_tells service f g hf rest hr hqr hs' hh ht (by rw [hl]; exact hk)
  rw [hl, List.singleton_append, ← he] at hrun
  have hn : (Turn.event name event fresh).name? = some name := rfl
  rw [along, if_pos hn, hg, hrun]
  conv => rhs; rw [he, List.mapIdx_cons, ← he, hc]
  simp [Nat.add_comm 1]

/-- In a run without evictions, take the events of a session from request headers that opened a
transaction up to the next ones. Every one of them gets an answer. The one by which the body is
frozen and the response has begun claims the body, which decides what its answer carries; the
builder is asked about that body at most, and then only once. -/
theorem outcome_of_transaction (s : Store) (before rest : List (Turn ν)) (name : ν) (event : Event)
    (fresh : TransactionId) (a : Answer)
    (hq : (idle s : Shared ν).Quiet service (before ++ .event name event fresh :: rest))
    (ho : event.opens = true)
    (ha : (((idle s : Shared ν).after service before).take service
      (.event name event fresh)).2 = some (.ok a))
    (hr : ∀ t ∈ rest, t.Continues name) :
    let turns := .event name event fresh :: rest
    let events := turns.filterMap (Turn.event? name)
    ((idle s : Shared ν).after service before).replies service name turns =
        events.mapIdx (fun i event =>
          some (.ok (service.engine.answer event (Event.claim s.limit events i)))) ∧
      ((idle s : Shared ν).after service before).asked service name turns =
        events.mapIdx fun i _ =>
          (Event.claim s.limit events i).filter fun body =>
            decide (service.engine.consults body) := by
  intro turns events
  obtain ⟨hqb, hqr⟩ := (quiet_append service _ _ _).mp hq
  have hs := sole_after service before hqb (sole_idle s)
  have hl : ((idle s : Shared ν).after service before).store.limit = s.limit :=
    limit_after service before
  rw [← hl]
  constructor
  · apply along_of_opened service (fun w t => (w.take service t).2)
      (fun event claimed => some (.ok (service.engine.answer event claimed)))
      (fun w _ _ _ fresh hsn hn => reply_of_not_opens service fresh hsn hn) rest hr hqr hs ho ha
    rw [ha, (opened_of_reply service ho ha).1]
  · exact along_of_opened service (fun w t => w.asks service t)
      (fun _ claimed => claimed.filter fun body => decide (service.engine.consults body))
      (fun w _ _ _ fresh _ hn => asks_of_not_opens service fresh hn) rest hr hqr hs ho ha
      (asks_of_opens service fresh ho)

/-- The response begins before the request ends, and the last chunk does not fit. -/
theorem outcome_of_late_end :
    let service : Service :=
      ⟨⟨fun _ => .ok (.ofPairs [("x-seen", "yes")]), false, .keepStart⟩, ⟨false, "x-request-id"⟩⟩
    let headers : Event := .headers .request ⟨[], false⟩
    let before : List (Turn Bool) :=
      [.start true none, .start false none, .event false headers ⟨"f"⟩]
    let rest : List (Turn Bool) :=
      [.event true (.body .request ⟨[1, 2, 3], false⟩) ⟨"h"⟩, .advance 5,
        .event true (.headers .response ⟨[], false⟩) ⟨"h"⟩, .finish false, .sweep 5,
        .event true (.body .request ⟨[4, 5], true⟩) ⟨"h"⟩,
        .event true (.trailers .request ⟨[]⟩) ⟨"h"⟩]
    let w : Shared Bool := idle (.empty 4)
    w.Quiet service (before ++ .event true headers ⟨"g"⟩ :: rest) ∧ headers.opens = true ∧
      ((w.after service before).take service (.event true headers ⟨"g"⟩)).2 =
        some (.ok (.pass ⟨.request, .headers⟩)) ∧
      (∀ t ∈ rest, t.Continues true) ∧
      (w.after service before).replies service true (.event true headers ⟨"g"⟩ :: rest) =
        [some (.ok (.pass ⟨.request, .headers⟩)), some (.ok (.pass ⟨.request, .body⟩)),
          some (.ok (.pass ⟨.response, .headers⟩)),
          some (.ok (.change ⟨.request, .body⟩
            (.ofPairs [("x-seen", "yes"), ("x-body-truncated", "true")]))),
          some (.ok (.pass ⟨.request, .trailers⟩))] ∧
      (w.after service before).asked service true (.event true headers ⟨"g"⟩ :: rest) =
        [none, none, none, some ⟨[1, 2, 3], true⟩, none] := by
  intro service headers before rest w
  have hq : w.Quiet service (before ++ .event true headers ⟨"g"⟩ :: rest) := by decide +kernel
  have ha : ((w.after service before).take service (.event true headers ⟨"g"⟩)).2 =
      some (.ok (.pass ⟨.request, .headers⟩)) := by rfl
  have hr : ∀ t ∈ rest, t.Continues true := by
    simp [rest, Turn.Continues, Event.opens]
  have ht := outcome_of_transaction service w.store before rest true headers ⟨"g"⟩ _ hq rfl ha hr
  exact ⟨hq, rfl, ha, hr, ht.1.trans (by rfl), ht.2.trans (by decide +kernel)⟩

end Runs

end Shared

end BodyCallout
