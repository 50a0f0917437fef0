import BodyCallout.Proofs.Session.Stopping
import BodyCallout.Proofs.Session.Turns

set_option autoImplicit false

namespace BodyCallout

namespace Table

variable {κ α : Type} [DecidableEq κ] {t : Table κ α} {k : κ}

theorem ne_of_mem_of_absent (h : t.get? k = none) {e : κ × α} (he : e ∈ t.entries) : e.1 ≠ k := by
  rintro rfl
  exact get?_eq_none_iff.mp h (List.mem_map_of_mem he)

theorem erase_of_absent (h : t.get? k = none) : t.erase k = t := by
  apply Table.ext
  apply List.filter_eq_self.mpr
  intro e he
  simpa using ne_of_mem_of_absent h he

theorem erase_insert (h : t.get? k = none) (a : α) : (t.insert k a).erase k = t := by
  have ht := congrArg entries (erase_of_absent h)
  apply Table.ext
  rw [← ht]
  simp [erase, filter, entries_insert h]

theorem modify_insert (h : t.get? k = none) (a : α) (f : α → α) :
    (t.insert k a).modify k f = t.insert k (f a) := by
  have hm : t.entries.map (fun e => if e.1 = k then (e.1, f e.2) else e) = t.entries := by
    refine (List.map_congr_left fun e he => ?_).trans (List.map_id _)
    exact if_neg (ne_of_mem_of_absent h he)
  apply Table.ext
  simp only [modify, entries_insert h, List.map_cons, if_true, hm]

end Table

/-- The entries of `s` are those of `base` and at most one more, under the id `held`. -/
structure Footprint (base : Store) (held : Option TransactionId) (s : Store) : Prop where
  limit : s.limit = base.limit
  absent : ∀ id, held = some id → base.live.get? id = none
  live : match held with
    | none => s.live = base.live
    | some id => ∃ t, s.live = base.live.insert id t

namespace Footprint

variable {base s : Store} {held : Option TransactionId}

theorem refl (base : Store) : Footprint base none base :=
  ⟨rfl, nofun, rfl⟩

theorem congr (h : Footprint base held s) {u : Store} (hl : u.limit = s.limit)
    (he : u.live = s.live) : Footprint base held u := by
  obtain ⟨limit, absent, live⟩ := h
  refine ⟨hl.trans limit, absent, ?_⟩
  rw [he]
  exact live

theorem insert (h : Footprint base none s) {id : TransactionId} (ha : s.live.get? id = none) :
    Footprint base (some id) (s.insert id) := by
  have hl : s.live = base.live := h.live
  refine ⟨h.limit, ?_, .start id s.limit s.now, ?_⟩
  · intro k hk
    obtain rfl := Option.some.inj hk
    rw [← hl]
    exact ha
  · simp [Store.insert, hl]

theorem delete {id : TransactionId} (h : Footprint base (some id) s) :
    Footprint base none (s.delete id).1 := by
  have ha := h.absent id rfl
  obtain ⟨t, ht⟩ := h.live
  have hg : s.live.get? id = some t := by rw [ht]; exact Table.get?_insert_self ha t
  refine ⟨(s.limit_delete id).trans h.limit, nofun, ?_⟩
  rw [Store.delete, hg]
  simp [ht, Table.erase_insert ha]

theorem process (h : Footprint base held s) (e : Engine) (event : Event) :
    Footprint base held (e.process held event s).1 := by
  cases held with
  | none => exact h.congr rfl rfl
  | some id =>
    have ha := h.absent id rfl
    obtain ⟨t, ht⟩ := h.live
    have hg : s.live.get? id = some t := by rw [ht]; exact Table.get?_insert_self ha t
    refine ⟨(e.limit_process event s _).trans h.limit, h.absent, ?_⟩
    rw [e.live_process_of_live event s id hg, ht, Table.modify_insert ha]
    exact ⟨_, rfl⟩

variable {session : Session}

theorem finish (h : Footprint base session.current s) :
    Footprint base none (session.finish s).2 := by
  unfold Session.finish
  cases hc : session.current with
  | none => rw [hc] at h; exact h
  | some id => rw [hc] at h; exact h.delete

theorem handle (h : Footprint base session.current s) (service : Service) (event : Event)
    (fresh : TransactionId) :
    Footprint base (session.handle service event fresh s).1.current
      (session.handle service event fresh s).2.1 := by
  cases ho : event.opens with
  | false =>
    rw [session.handle_of_not_opens service fresh s ho]
    exact h.process service.engine event
  | true =>
    rcases session.handle_of_opens service fresh s ho with ⟨d, hd⟩ | ⟨id, source, ha, he⟩
    · rw [hd]
      exact h.finish
    · rw [he]
      have hi := (h.finish.insert ha).congr (u := ((session.finish s).2.insert id).record
        (.opened source)) rfl rfl
      exact hi.process service.engine event

theorem work (h : Footprint base session.current s) (service : Service) (sends : Nat)
    (items : List (Item × TransactionId)) :
    Footprint base (session.work service sends s items).1.current
      (session.work service sends s items).2.1 := by
  induction sends, session, s, items using Session.work_induction service with
  | exhausted sends session s => rw [Session.work]; exact h
  | finished sends session s fresh rest => rw [Session.work]; exact h
  | aborted sends session s reason fresh rest => rw [Session.work]; exact h
  | refused sends session s event fresh rest d hr =>
    rw [Session.work_of_refused hr]
    exact h.handle service event fresh
  | unsent session s event fresh rest a hr ha =>
    rw [Session.work_of_unsent ha]
    exact h.handle service event fresh
  | sent sends session s event fresh rest a hr ha hp ih =>
    rw [Session.work_of_sent ha]
    exact ih (h.handle service event fresh)

end Footprint

def Turn.Alone {ν : Type} (name : ν) : Turn ν → Prop
  | .start n _ => n = name
  | .event n _ _ => n = name
  | .finish n => n = name
  | .advance _ => True
  | .sweep _ => False

namespace Footprint

variable {ν : Type} [DecidableEq ν] {base : Store} {name : ν} {w : Shared ν}

theorem finish_turn (h : Footprint base (w.view.holds name) w.store) :
    Footprint base none (w.finish name).1.store := by
  cases hs : w.sessions.get? name with
  | none =>
    rw [show w.view.holds name = none by simp [Shared.view, hs]] at h
    simpa [Shared.finish, hs] using h
  | some session =>
    rw [Shared.holds_of_session hs] at h
    simpa [Shared.finish, hs] using h.finish

theorem take (h : Footprint base (w.view.holds name) w.store) (service : Service) {t : Turn ν}
    (ht : t.Alone name) :
    Footprint base ((w.take service t).1.view.holds name) (w.take service t).1.store := by
  cases t with
  | start n identity =>
    obtain rfl : n = name := ht
    have hn : (w.take service (.start n identity)).1.view.holds n = none := by
      rw [Shared.take, Shared.view_start]
      exact if_pos rfl
    rw [hn]
    exact h.finish_turn
  | event n event fresh =>
    obtain rfl : n = name := ht
    cases hs : w.sessions.get? n with
    | none => rw [Shared.take_of_absent service fresh hs]; exact h
    | some session =>
      rw [Shared.holds_of_session hs] at h
      have hh := h.handle service event fresh
      rw [Shared.take, Shared.handle_of_session service fresh hs]
      simpa [Shared.view, Table.get?_modify_self, hs] using hh
  | finish n =>
    obtain rfl : n = name := ht
    have hn : (w.take service (.finish n)).1.view.holds n = none := by
      rw [Shared.take, Shared.view_finish]
      exact if_pos rfl
    rw [hn]
    exact h.finish_turn
  | advance time => exact h.congr rfl rfl
  | sweep idle => exact ht.elim

theorem after (h : Footprint base (w.view.holds name) w.store) (service : Service)
    {turns : List (Turn ν)} (ht : ∀ t ∈ turns, t.Alone name) :
    Footprint base ((w.after service turns).view.holds name) (w.after service turns).store := by
  induction turns generalizing w with
  | nil => exact h
  | cons t rest ih =>
    rw [Shared.after_cons]
    exact ih (h.take service (ht t (List.mem_cons_self ..)))
      fun t hm => ht t (List.mem_cons_of_mem _ hm)

end Footprint

/-- A session that runs alone has at most one entry of its own in the store after any number of
items, or of turns of its own and of the clock, and none when it is over; no other entry changes. -/
theorem footprint_and_live_run (service : Service) (sends : Nat) (identity : Option String)
    (s : Store) (items : List (Item × TransactionId)) :
    let session := Session.start identity
    let after := (session.run service sends s items).1
    (∀ n,
      let r := session.work service sends (s.record .streamStarted) (items.take n)
      Footprint s r.1.current r.2.1) ∧
    (after.limit = s.limit ∧ after.live = s.live) ∧
    ∀ {ν : Type} [DecidableEq ν] (name : ν) (turns : List (Turn ν)), (∀ t ∈ turns, t.Alone name) →
      let w := (Shared.idle s).after service turns
      Footprint s (w.view.holds name) w.store ∧
        (w.finish name).1.store.limit = s.limit ∧ (w.finish name).1.store.live = s.live := by
  intro session after
  have hs : Footprint s session.current (s.record .streamStarted) :=
    (Footprint.refl s).congr rfl rfl
  refine ⟨fun n => hs.work service sends _, ?_, ?_⟩
  · have hf := (hs.work service sends items).finish
    exact ⟨hf.limit, hf.live⟩
  · intro ν _ name turns ht w
    have hw : Footprint s (w.view.holds name) w.store := (Footprint.refl s).after service ht
    exact ⟨hw, hw.finish_turn.limit, hw.finish_turn.live⟩

end BodyCallout
