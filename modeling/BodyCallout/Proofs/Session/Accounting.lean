import BodyCallout.Proofs.Session.Scenes
import BodyCallout.Proofs.Store.Conservation

set_option autoImplicit false

namespace BodyCallout

namespace Shared

variable {ν : Type} [DecidableEq ν] (service : Service)

def tally (f : Shared ν → Turn ν → Nat) : Shared ν → List (Turn ν) → Nat
  | _, [] => 0
  | w, t :: rest => f w t + tally f (w.take service t).1 rest

def times (p : Scene ν → Bool) : Shared ν → List (Turn ν) → Nat :=
  tally service fun w t => (p (w.scene service t)).toNat

/-- How many bodies are delivered in the turn. -/
def deliveries (w : Shared ν) (t : Turn ν) : Nat :=
  (w.take service t).1.store.live.keys.countP (w.scene service t).delivers

section Runs

variable {w : Shared ν} {t : Turn ν} {samples : List Sample}

theorem deliveries_eq (h : (w.scene service t).Course service.engine samples) :
    w.deliveries service t = Journal.hits samples (Outcome.all.map .mutations) := by
  refine h.delivers (Table.distinct _) fun k hk => ?_
  rw [Table.mem_keys_iff, Table.contains, Option.isSome_iff_ne_none]
  exact hk

/-- What grows in each turn by what is counted of the turn grows by the whole count in a run. -/
theorem grows_after (φ : Journal → Int) {f : Shared ν → Turn ν → Nat}
    (hs : ∀ j : Journal, φ j.ofSessions = φ j)
    (hf : ∀ w t samples j, (w.scene service t).Course service.engine samples →
      φ (samples ++ j) = φ j + f w t) (w : Shared ν) (turns : List (Turn ν)) :
    φ (w.after service turns).store.journal = φ w.store.journal + w.tally service f turns := by
  induction turns generalizing w with
  | nil => simp [tally]
  | cons t rest ih =>
    obtain ⟨samples, hc, hj⟩ := w.course_take service t
    have ht : φ (w.take service t).1.store.journal = φ w.store.journal + f w t := by
      rw [← hs, hj, hf w t samples _ hc, hs]
    rw [after_cons, ih, ht, tally]
    omega

theorem total_after {metrics : List Metric} {f : Shared ν → Turn ν → Nat} (hn : metrics.Nodup)
    (ho : ∀ m ∈ metrics, m.ofStore = false)
    (hf : ∀ w t samples, (w.scene service t).Course service.engine samples →
      Journal.hits samples metrics = f w t) (w : Shared ν) (turns : List (Turn ν)) :
    (w.after service turns).store.journal.total metrics =
      w.store.journal.total metrics + w.tally service f turns := by
  refine grows_after service (fun j => j.total metrics) (Journal.total_ofSessions ho) ?_ w turns
  intro w t samples j hc
  rw [Journal.total_append hc.counts hn, hf w t samples hc]

theorem deliveries_le_times (w : Shared ν) {ids : List TransactionId} (hc : w.view.Covers ids)
    (turns : List (Turn ν)) :
    w.tally service (deliveries service) turns ≤
      w.times service Scene.opens turns + ids.length := by
  induction turns generalizing w ids with
  | nil => simp [tally]
  | cons t rest ih =>
    obtain ⟨samples, hs, -⟩ := w.course_take service t
    obtain ⟨left, hl, hm⟩ := hs.covers hc
    have hr := ih (w.take service t).1 hl
    have hd := deliveries_eq service hs
    rw [times] at hr
    rw [tally, times, tally, hd]
    omega

theorem sizes_after (w : Shared ν) (turns : List (Turn ν)) :
    ((w.after service turns).store.journal.sizes.length : Int) =
      w.store.journal.sizes.length + w.tally service (deliveries service) turns := by
  refine grows_after service (fun j => j.sizes.length) ?_ ?_ w turns
  · intro j
    rw [j.sizes_ofSessions]
  · intro w t samples j hc
    have hp : samples.countP (fun x => (Journal.size? x).isSome) =
        Journal.hits samples (Outcome.all.map .mutations) :=
      List.countP_congr fun x _ => by cases x <;> simp [Journal.size?, Sample.move]
    rw [Journal.length_sizes, Journal.length_sizes, List.countP_append, hp,
      deliveries_eq service hc]
    omega

theorem streams_take (w : Shared ν) (t : Turn ν) :
    (w.take service t).1.store.journal.reading .streams = w.store.journal.reading .streams := by
  obtain ⟨samples, hc, hj⟩ := w.course_take service t
  rw [← Journal.reading_ofSessions rfl, hj, Journal.streams_append hc.counts,
    Journal.reading_ofSessions rfl]

theorem streams_after (w : Shared ν) (turns : List (Turn ν)) :
    (w.after service turns).store.journal.reading .streams = w.store.journal.reading .streams := by
  induction turns generalizing w with
  | nil => rfl
  | cons t rest ih => rw [after_cons, ih, streams_take]

end Runs

end Shared

namespace Session

variable (service : Service) (session : Session) (s : Store)

theorem streams_finish :
    (session.finish s).2.journal.reading .streams = s.journal.reading .streams := by
  rw [← Journal.reading_ofSessions rfl, journal_finish, Journal.reading_ofSessions rfl]

theorem streams_handle (event : Event) (fresh : TransactionId) :
    (session.handle service event fresh s).2.1.journal.reading .streams =
      s.journal.reading .streams := by
  let alone : Shared Unit := ⟨s, Table.empty.insert () session⟩
  have hs : alone.sessions.get? () = some session := Table.get?_insert_self rfl session
  have ht := Shared.streams_take service alone (.event () event fresh)
  rw [Shared.take, Shared.handle_of_session service fresh hs] at ht
  exact ht

theorem streams_work (sends : Nat) (items : List (Item × TransactionId)) :
    (session.work service sends s items).2.1.journal.reading .streams =
      s.journal.reading .streams := by
  induction sends, session, s, items using work_induction service with
  | exhausted => rw [work]
  | finished => rw [work]
  | aborted => rw [work]
  | refused sends session s event fresh rest d hr =>
    rw [work_of_refused hr]
    exact session.streams_handle service s event fresh
  | unsent session s event fresh rest a hr ha =>
    rw [work_of_unsent ha]
    exact session.streams_handle service s event fresh
  | sent sends session s event fresh rest a hr ha hp ih =>
    rw [work_of_sent ha]
    exact ih.trans (session.streams_handle service s event fresh)

theorem streams_run (sends : Nat) (items : List (Item × TransactionId)) :
    (session.run service sends s items).1.journal.reading .streams =
      s.journal.reading .streams := by
  have hw := session.streams_work service (s.record .streamStarted) sends items
  rw [run]
  dsimp only
  rw [Store.record, Journal.reading_cons, Session.streams_finish, hw, Store.record,
    Journal.reading_cons]
  simp [Sample.move]

end Session

namespace Shared

variable {ν : Type} [DecidableEq ν]

/-- In any course of turns on a store, the counters grow by what can be seen of the turns. Bodies
that are delivered are counted once by outcome and once by size, and there are no more of them than
transactions were opened. The number of active streams is left alone by turns, and is after a run
what it was before. -/
theorem counters_grow_by_turns (service : Service) (s : Store) (turns : List (Turn ν)) :
    let w : Shared ν := idle s
    let before := s.journal
    let after := (w.after service turns).store.journal
    let grown (metrics : List Metric) : Int := after.total metrics - before.total metrics
    grown (Phase.all.map .events) = w.times service Scene.answered turns ∧
    grown (Source.all.map .opened) = w.times service Scene.opens turns ∧
    grown (Phase.all.map .misses) = w.times service Scene.misses turns ∧
    grown [.overflows] = w.times service Scene.overflows turns ∧
    grown (Outcome.all.map .mutations) = (after.sizes.length : Int) - before.sizes.length ∧
    grown (Outcome.all.map .mutations) = w.tally service (deliveries service) turns ∧
    w.tally service (deliveries service) turns ≤ w.times service Scene.opens turns ∧
    grown [.mutations .computed] = w.times service Scene.mutates turns ∧
    (∀ u : Shared ν, (u.after service turns).store.journal.reading .streams =
      u.store.journal.reading .streams) ∧
    ∀ (session : Session) (sends : Nat) (u : Store) (items : List (Item × TransactionId)),
      (session.run service sends u items).1.journal.reading .streams =
        u.journal.reading .streams := by
  intro w before after grown
  have grows {metrics : List Metric} {n : Nat}
      (h : after.total metrics = before.total metrics + n) : grown metrics = n := by
    dsimp only [grown]
    omega
  have hm : grown (Outcome.all.map .mutations) = w.tally service (deliveries service) turns :=
    grows (total_after service (by decide) (by decide)
      (fun w t samples h => (deliveries_eq service h).symm) w turns)
  have hz : (after.sizes.length : Int) =
      before.sizes.length + w.tally service (deliveries service) turns :=
    sizes_after service w turns
  have hu : w.view.Covers [] := by
    intro n k hk
    rw [holds_idle] at hk
    cases hk
  refine ⟨grows (total_after service (by decide) (by decide) (fun _ _ _ h => h.events) w turns),
    grows (total_after service (by decide) (by decide) (fun _ _ _ h => h.opens) w turns),
    grows (total_after service (by decide) (by decide) (fun _ _ _ h => h.misses) w turns),
    grows (total_after service (by decide) (by decide) (fun _ _ _ h => h.overflows) w turns),
    by omega, hm, deliveries_le_times service w hu turns,
    grows (total_after service (by decide) (by decide) (fun _ _ _ h => h.mutates) w turns),
    fun u => streams_after service u turns,
    fun session sends u items => session.streams_run service u sends items⟩

end Shared

end BodyCallout
