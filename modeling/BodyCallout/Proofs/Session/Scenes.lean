import BodyCallout.Proofs.Session.History
import BodyCallout.Proofs.Session.Stopping
import BodyCallout.Proofs.Session.Turns
import BodyCallout.Proofs.Store.Samples

/-!
What can be seen of one turn, and what is noted of it. A scene is a turn with what was before it and
after it; its course says which samples it leaves.
-/

set_option autoImplicit false

namespace BodyCallout

namespace Engine

theorem delivered_advance (event : Event) (t : Transaction) :
    (advance event t).1.delivered = (t.delivered || (advance event t).2.2.isSome) ∧
      ((advance event t).2.2.isSome = true → t.delivered = false) := by
  have hd := Transaction.delivered_apply event t
  cases h : claims event with
  | false => simp [advance_of_not_claims h]
  | true =>
    rw [advance_of_claims h]
    cases hr : (apply event t).1.ready with
    | false => simp [Transaction.claim_of_not_ready hr, hd]
    | true =>
      have hn : (apply event t).1.delivered = false := by simp_all [Transaction.ready]
      simp [Transaction.claim_of_ready hr, ← hd, hn]

theorem delivered_opened {event : Event} (h : event.opens = true) (id : TransactionId)
    (limit now : Nat) : (Transaction.opened event id limit now).delivered = false := by
  rw [Transaction.opened, (delivered_advance event _).1, claimed_of_opens h]
  rfl

end Engine

namespace View

variable {ν : Type} (v : View ν)

def live? (name : ν) : Option Transaction := (v.holds name).bind v.entry

/-- The live transaction of a session as an event meets it. -/
def met (name : ν) : Option Transaction := (v.live? name).map (·.touch v.now)

theorem claimed_eq (name : ν) (event : Event) :
    v.claimed name event = (v.met name).bind fun t => (Engine.advance event t).2.2 := by
  simp only [claimed, met, live?]
  cases v.holds name with
  | none => rfl
  | some id => cases h : v.entry id <;> simp [h]

theorem of_claimed {name : ν} {event : Event} {body : Body}
    (h : v.claimed name event = some body) :
    ∃ id t, v.holds name = some id ∧ v.entry id = some t ∧
      (Engine.advance event (t.touch v.now)).2.2 = some body := by
  obtain ⟨id, hi, h⟩ := Option.bind_eq_some_iff.mp h
  obtain ⟨t, ht, h⟩ := Option.bind_eq_some_iff.mp h
  exact ⟨id, t, hi, ht, h⟩

theorem mutations_met (e : Engine) (name : ν) (event : Event) :
    Journal.hits (e.samples event (v.met name)) (Outcome.all.map .mutations) =
      (v.claimed name event).isSome.toNat := by
  rw [e.hits_samples, v.claimed_eq]
  cases v.met name with
  | none => simp
  | some t => cases hc : (Engine.advance event t).2.2 <;> simp [hc]

def delivered (k : TransactionId) : Bool := (v.entry k).any Transaction.delivered

theorem delivered_work (name : ν) (event : Event) (k : TransactionId) :
    (v.work name event).delivered k =
        (v.delivered k || (decide (v.holds name = some k) && (v.claimed name event).isSome)) ∧
      (v.holds name = some k → (v.claimed name event).isSome = true → v.delivered k = false) := by
  by_cases hk : v.holds name = some k
  · cases he : v.entry k with
    | none => simp [delivered, work, claimed, hk, he]
    | some t =>
      have hd := Engine.delivered_advance event (t.touch v.now)
      have ht : (t.touch v.now).delivered = t.delivered := rfl
      rw [ht] at hd
      simpa [delivered, work, claimed, hk, he, hd.1] using hd.2
  · simp [delivered, work, hk]

structure Shrinks (w : View ν) : Prop where
  holds : ∀ n k, w.holds n = some k → v.holds n = some k
  entry : ∀ k t, w.entry k = some t → v.entry k = some t

variable {v} in
theorem Shrinks.delivered {w : View ν} (h : v.Shrinks w) {k : TransactionId}
    (hk : w.delivered k = true) : v.delivered k = true := by
  cases he : w.entry k with
  | none => simp [View.delivered, he] at hk
  | some t => simpa [View.delivered, h.entry k t he, he] using hk

/-- The transactions that a session can reach and that were not delivered yet are among these. -/
def Covers (ids : List TransactionId) : Prop :=
  ∀ n k, v.holds n = some k → v.entry k ≠ none → v.delivered k = false → k ∈ ids

variable {v} in
theorem Shrinks.covers {w : View ν} (h : v.Shrinks w) {ids : List TransactionId}
    (hc : v.Covers ids) : w.Covers ids := by
  intro n k hk he hd
  obtain ⟨t, ht⟩ := Option.ne_none_iff_exists'.mp he
  have hv := h.entry k t ht
  refine hc n k (h.holds n k hk) (by simp [hv]) ?_
  simpa [View.delivered, hv, ht] using hd

variable {v} in
theorem shrinks_release [DecidableEq ν] (name : ν) : v.Shrinks (v.release name) where
  holds _ _ h := (holds_release.mp h).2
  entry _ _ h := (entry_release.mp h).2

end View

structure Scene (ν : Type) where
  before : View ν
  turn : Turn ν
  after : View ν
  reply : Option (Except Duplicate Answer)

namespace Scene

variable {ν : Type} (c : Scene ν)

def answer? : Option Answer := c.reply.bind Except.toOption

def answered : Bool := c.answer?.isSome

def mutates : Bool := c.answer?.any fun a => a.reply.mutation.isSome

def opens : Bool :=
  match c.turn with
  | .event name event _ => event.opens && (c.after.holds name).isSome
  | _ => false

/-- An event was answered without a live transaction. Request headers have opened theirs by then. -/
def misses : Bool :=
  match c.turn with
  | .event name event _ =>
    c.answered && ((if event.opens then c.after else c.before).live? name).isNone
  | _ => false

def overflows : Bool :=
  match c.turn with
  | .event name event _ => (c.before.live? name).any (Engine.refuses event)
  | _ => false

def delivers (k : TransactionId) : Bool := c.after.delivered k && !c.before.delivered k

variable {c} in
theorem delivers_of_shrinks (h : c.before.Shrinks c.after) (keys : List TransactionId) :
    keys.countP c.delivers = 0 := by
  rw [List.countP_eq_zero]
  intro k _ hk
  simp only [delivers, Bool.and_eq_true, Bool.not_eq_true'] at hk
  rw [h.delivered hk.1] at hk
  exact absurd hk.2 Bool.noConfusion

variable [DecidableEq ν] (e : Engine)

inductive Course : Scene ν → List Sample → Prop where
  | silent (v w : View ν) (t : Turn ν) (ht : ∀ name event fresh, t ≠ .event name event fresh)
      (hs : v.Shrinks w) : Course ⟨v, t, w, none⟩ []
  | absent (v : View ν) (name : ν) (event : Event) (fresh : TransactionId)
      (h : v.holds name = none) : Course ⟨v, .event name event fresh, v, none⟩ []
  | refused (v : View ν) (name : ν) (event : Event) (fresh : TransactionId) (d : Duplicate)
      (h : event.opens = true) :
      Course ⟨v, .event name event fresh, v.release name, some (.error d)⟩ []
  | opened (v : View ν) (name : ν) (event : Event) (fresh id : TransactionId) (source : Source)
      (h : event.opens = true) :
      Course ⟨v, .event name event fresh, (v.release name).acquire name event id,
        some (.ok (e.answer event none))⟩ [.event event.phase, .opened source]
  | worked (v : View ν) (name : ν) (event : Event) (fresh : TransactionId)
      (h : event.opens = false) :
      Course ⟨v, .event name event fresh, v.work name event,
        some (.ok (e.answer event (v.claimed name event)))⟩ (e.samples event (v.met name))

variable {c} {e} {samples : List Sample}

theorem Course.counts (h : c.Course e samples) : ∀ x ∈ samples, x.move.1.counts = true := by
  cases h with
  | opened => simp [Sample.move, Metric.counts]
  | worked => exact fun x hx => e.move_samples hx
  | _ => simp

theorem Course.events (h : c.Course e samples) :
    Journal.hits samples (Phase.all.map .events) = c.answered.toNat := by
  cases h with
  | opened => simp [Journal.hits_opening, answered, answer?, Except.toOption]
  | worked v name event =>
    rw [e.hits_samples]
    cases v.met name <;> simp [answered, answer?, Except.toOption]
  | _ => rfl

theorem Course.opens (h : c.Course e samples) :
    Journal.hits samples (Source.all.map .opened) = c.opens.toNat := by
  cases h with
  | silent v w t ht =>
    cases t with
    | event name event fresh => exact absurd rfl (ht name event fresh)
    | _ => rfl
  | absent v name event fresh h => simp [Scene.opens, h]
  | refused v name event fresh d h => simp [Scene.opens, View.release]
  | opened v name event fresh id source h => simp [Journal.hits_opening, Scene.opens, h]
  | worked v name event fresh h =>
    rw [e.hits_samples]
    cases v.met name <;> simp [Scene.opens, h]

theorem Course.misses (h : c.Course e samples) :
    Journal.hits samples (Phase.all.map .misses) = c.misses.toNat := by
  cases h with
  | silent v w t => cases t <;> rfl
  | absent => rfl
  | refused => rfl
  | opened v name event fresh id source h =>
    simp [Journal.hits_opening, Scene.misses, h, View.live?]
  | worked v name event fresh h =>
    rw [e.hits_samples]
    cases hl : v.live? name <;>
      simp [Scene.misses, h, View.met, hl, answered, answer?, Except.toOption]

theorem Course.overflows (h : c.Course e samples) :
    Journal.hits samples [.overflows] = c.overflows.toNat := by
  cases h with
  | silent v w t ht =>
    cases t with
    | event name event fresh => exact absurd rfl (ht name event fresh)
    | _ => rfl
  | absent v name event fresh h => simp [Scene.overflows, View.live?, h]
  | refused v name event fresh d h =>
    cases hl : v.live? name <;> simp [Scene.overflows, hl, Engine.refuses_of_opens h]
  | opened v name event fresh id source h =>
    cases hl : v.live? name <;>
      simp [Journal.hits_opening, Scene.overflows, hl, Engine.refuses_of_opens h]
  | worked v name event fresh h =>
    have ht (t : Transaction) : Engine.refuses event (t.touch v.now) = Engine.refuses event t := by
      rcases event with ⟨⟨⟩, p⟩ | ⟨⟨⟩, p⟩ | ⟨⟨⟩, p⟩ <;> rfl
    rw [e.hits_samples]
    cases hl : v.live? name <;> simp [Scene.overflows, View.met, hl, ht]

theorem Course.mutates (h : c.Course e samples) :
    Journal.hits samples [.mutations .computed] = c.mutates.toNat := by
  cases h with
  | opened v name event fresh id source h =>
    simp [Journal.hits_opening, Scene.mutates, answer?, Except.toOption, e.mutation_answer]
  | worked v name event fresh h =>
    rw [e.hits_samples, v.claimed_eq]
    cases hm : v.met name with
    | none => simp [Scene.mutates, answer?, Except.toOption, e.mutation_answer]
    | some t =>
      cases hc : (Engine.advance event t).2.2 with
      | none => simp [Scene.mutates, answer?, Except.toOption, e.mutation_answer, hc]
      | some body =>
        simp [Scene.mutates, answer?, Except.toOption, e.mutation_answer, hc, e.computed_eq]
  | _ => rfl

/-- What is noted of a delivery is what is seen of it among the live entries. -/
theorem Course.delivers (h : c.Course e samples) {keys : List TransactionId} (hn : keys.Nodup)
    (hk : ∀ k, c.after.entry k ≠ none → k ∈ keys) :
    keys.countP c.delivers = Journal.hits samples (Outcome.all.map .mutations) := by
  cases h with
  | silent v w t ht hs => exact delivers_of_shrinks hs keys
  | absent v => exact delivers_of_shrinks ⟨fun _ _ h => h, fun _ _ h => h⟩ keys
  | refused v name => exact delivers_of_shrinks (View.shrinks_release name) keys
  | opened v name event fresh id source h =>
    have hd : ∀ k ∈ keys, ¬ Scene.delivers ⟨v, .event name event fresh,
        (v.release name).acquire name event id, some (.ok (e.answer event none))⟩ k = true := by
      intro k _ hd
      rw [Scene.delivers, Bool.and_eq_true, Bool.not_eq_true'] at hd
      -- The new entry has nothing delivered, and the others are as they were before the turn.
      by_cases hi : k = id
      · subst hi
        simp [View.delivered, Engine.delivered_opened h] at hd
      · have he : ((v.release name).acquire name event id).entry k = (v.release name).entry k :=
          View.entry_acquire_of_ne hi
        have hr : (v.release name).delivered k = true := by
          rw [View.delivered, ← he]
          exact hd.1
        rw [(View.shrinks_release name).delivered hr] at hd
        exact absurd hd.2 Bool.noConfusion
    rw [List.countP_eq_zero.mpr hd]
    rfl
  | worked v name event fresh h =>
    have hd : ∀ k, Scene.delivers ⟨v, .event name event fresh, v.work name event,
        some (.ok (e.answer event (v.claimed name event)))⟩ k =
          (decide (v.holds name = some k) && (v.claimed name event).isSome) := by
      intro k
      obtain ⟨hw, hb⟩ := v.delivered_work name event k
      by_cases hh : v.holds name = some k
      · cases hc : (v.claimed name event).isSome with
        | false => simp [Scene.delivers, hw, hc]
        | true => simp [Scene.delivers, hw, hc, hh, hb hh hc]
      · simp [Scene.delivers, hw, hh]
    rw [funext hd, v.mutations_met]
    cases hc : v.claimed name event with
    | none => simp
    | some body =>
      obtain ⟨id, t, hi, ht, -⟩ := v.of_claimed hc
      have hm : id ∈ keys := hk id (by simp [View.entry_work_eq_none, ht])
      -- The body that is claimed is that of one id, which is among the keys once.
      have hf : (fun k => decide (v.holds name = some k) && (some body).isSome) = (· == id) := by
        funext k
        by_cases hk : k = id
        · simp [hi, hk]
        · simp [hi, hk, Ne.symm hk]
      rw [hf, ← List.count, hn.count, if_pos hm]
      rfl

/-- A delivery uses up an id that was covered, and only an opening adds one. -/
theorem Course.covers (h : c.Course e samples) {ids : List TransactionId}
    (hc : c.before.Covers ids) :
    ∃ rest, c.after.Covers rest ∧
      Journal.hits samples (Outcome.all.map .mutations) + rest.length ≤
        c.opens.toNat + ids.length := by
  cases h with
  | silent v w t ht hs => exact ⟨ids, hs.covers hc, by simp⟩
  | absent v => exact ⟨ids, hc, by simp⟩
  | refused v name => exact ⟨ids, (View.shrinks_release name).covers hc, by simp⟩
  | opened v name event fresh id source h =>
    refine ⟨id :: ids, ?_, by simp [Journal.hits_opening, Scene.opens, h, Nat.add_comm]⟩
    intro n k hk he hd
    by_cases hi : k = id
    · exact hi ▸ List.mem_cons_self ..
    · have hr : (v.release name).Covers ids := (View.shrinks_release name).covers hc
      have hs : n ≠ name := by
        rintro rfl
        rw [View.holds_acquire_self] at hk
        exact hi (Option.some.inj hk).symm
      have hv : ((v.release name).acquire name event id).entry k = (v.release name).entry k :=
        View.entry_acquire_of_ne hi
      rw [View.holds_acquire_of_ne hs] at hk
      rw [hv] at he
      rw [View.delivered, hv] at hd
      exact List.mem_cons_of_mem _ (hr n k hk he hd)
  | worked v name event fresh h =>
    rw [v.mutations_met]
    have hu : ∀ n k, (v.work name event).holds n = some k → (v.work name event).entry k ≠ none →
        (v.work name event).delivered k = false →
          k ∈ ids ∧ ¬ (v.holds name = some k ∧ (v.claimed name event).isSome = true) := by
      intro n k hk he hd
      rw [(v.delivered_work name event k).1, Bool.or_eq_false_iff] at hd
      exact ⟨hc n k hk (mt View.entry_work_eq_none.mpr he) hd.1, by simpa using hd.2⟩
    cases hm : v.claimed name event with
    | none => exact ⟨ids, fun n k hk he hd => (hu n k hk he hd).1, by simp⟩
    | some body =>
      obtain ⟨id, t, hi, ht, -⟩ := v.of_claimed hm
      -- The id that is delivered was covered, and is not needed any more.
      have hd : v.delivered id = false := (v.delivered_work name event id).2 hi (by simp [hm])
      have hn : id ∈ ids := hc name id hi (by simp [ht]) hd
      have hl := List.length_erase_of_mem hn
      have hp := List.length_pos_of_mem hn
      refine ⟨ids.erase id, ?_, by simp; omega⟩
      intro n k hk he hd
      obtain ⟨hk, hr⟩ := hu n k hk he hd
      refine (List.mem_erase_of_ne ?_).mpr hk
      rintro rfl
      exact hr ⟨hi, by simp [hm]⟩

end Scene

theorem Session.journal_finish (session : Session) (s : Store) :
    (session.finish s).2.journal.ofSessions = s.journal.ofSessions := by
  unfold Session.finish; split
  · rfl
  · next id h =>
    rw [Engine.fst_close, Store.journal_delete]
    split <;> rfl

namespace Shared

variable {ν : Type} [DecidableEq ν] (service : Service) (w : Shared ν)

theorem journal_finish (name : ν) :
    (w.finish name).1.store.journal.ofSessions = w.store.journal.ofSessions := by
  unfold finish; split
  · rfl
  · exact Session.journal_finish _ _

theorem met_view {name : ν} {session : Session} (hs : w.sessions.get? name = some session) :
    w.view.met name = Engine.met w.store session.current := by
  rw [View.met, View.live?, holds_of_session hs]
  cases session.current <;> rfl

variable (t : Turn ν)

def scene : Scene ν := ⟨w.view, t, (w.take service t).1.view, (w.take service t).2⟩

theorem course_event (name : ν) (event : Event) (fresh : TransactionId) :
    ∃ samples, (w.scene service (.event name event fresh)).Course service.engine samples ∧
      (w.take service (.event name event fresh)).1.store.journal.ofSessions =
        samples ++ w.store.journal.ofSessions := by
  rw [scene, take]
  cases hs : w.sessions.get? name with
  | none =>
    rw [handle_of_absent service fresh hs]
    exact ⟨[], .absent _ name event fresh (by simp [view, hs]), rfl⟩
  | some session =>
    have hw : w.handle service name event fresh = _ := handle_of_session service fresh hs
    cases h : event.opens with
    | false =>
      have hr := reply_of_not_opens service fresh hs h
      rw [take] at hr
      rw [view_handle_of_not_opens service fresh h, hr, hw,
        session.handle_of_not_opens service fresh w.store h, service.engine.journal_process,
        ← met_view w hs]
      refine ⟨_, .worked _ name event fresh h, ?_⟩
      exact Journal.ofSessions_append (fun x hx => service.engine.move_samples hx) _
    | true =>
      rcases session.handle_of_opens service fresh w.store h with ⟨d, hd⟩ | ⟨id, source, ha, he⟩
      · rcases handle_cases_of_opens service fresh hs h with ⟨_, _, hv⟩ | ⟨_, _, hr, _⟩
        · rw [hv, hw, hd]
          exact ⟨[], .refused _ name event fresh d h, session.journal_finish w.store⟩
        · rw [hw, hd] at hr
          cases hr
      · have hm : Engine.met (((session.finish w.store).2.insert id).record (.opened source))
            (some id) = some (.start id (session.finish w.store).2.limit
              (session.finish w.store).2.now) := by
          simp [Engine.met, Store.get?_insert_self ha, Transaction.touch_start]
        rw [view_handle_of_opened service fresh hs ha he, hw, he, Engine.journal_process, hm,
          Engine.samples_of_opens _ h, ← session.journal_finish w.store]
        exact ⟨_, .opened _ name event fresh id source h, rfl⟩

theorem course_take :
    ∃ samples, (w.scene service t).Course service.engine samples ∧
      (w.take service t).1.store.journal.ofSessions = samples ++ w.store.journal.ofSessions := by
  cases t with
  | start name identity =>
    refine ⟨[], ?_, w.journal_finish name⟩
    rw [scene, take, view_start]
    exact .silent _ _ _ (by simp) (View.shrinks_release name)
  | event name event fresh => exact course_event service w name event fresh
  | finish name =>
    refine ⟨[], ?_, w.journal_finish name⟩
    rw [scene, take, view_finish]
    exact .silent _ _ _ (by simp) (View.shrinks_release name)
  | advance time => exact ⟨[], .silent _ _ _ (by simp) ⟨fun _ _ h => h, fun _ _ h => h⟩, rfl⟩
  | sweep idle =>
    refine ⟨[], ?_, ?_⟩
    · rw [scene, view_sweep]
      refine .silent _ _ _ (by simp) ⟨fun _ _ h => h, fun _ _ h => ?_⟩
      exact (Option.filter_eq_some_iff.mp h).1
    · have hj := w.store.journal_evict fun t => w.store.now ≤ t.touched + idle
      simp only [take, withStore, Store.sweep, hj]
      split <;> rfl

end Shared

end BodyCallout
