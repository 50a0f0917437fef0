import BodyCallout.Proofs.Session.Answering
import BodyCallout.Session.Shared

set_option autoImplicit false

namespace BodyCallout

variable {ν : Type}

/-- The session whose turn it is; the clock and the sweeps belong to nobody. -/
def Turn.name? : Turn ν → Option ν
  | .start name _ => some name
  | .event name _ _ => some name
  | .finish name => some name
  | .advance _ => none
  | .sweep _ => none

structure View (ν : Type) where
  now : Nat
  limit : Nat
  entry : TransactionId → Option Transaction
  holds : ν → Option TransactionId

namespace View

theorem ext {v w : View ν} (hn : v.now = w.now) (hl : v.limit = w.limit)
    (he : ∀ k, v.entry k = w.entry k) (hh : ∀ n, v.holds n = w.holds n) : v = w := by
  cases v; cases w
  simp only [View.mk.injEq]
  exact ⟨hn, hl, funext he, funext hh⟩

variable (v : View ν)

def work (name : ν) (event : Event) : View ν :=
  { v with
    entry := fun k =>
      if v.holds name = some k then
        (v.entry k).map fun t => (Engine.advance event (t.touch v.now)).1
      else v.entry k }

def pass (time : Nat) : View ν := { v with now := v.now + time }

def sweep (idle : Nat) : View ν :=
  { v with entry := fun k => (v.entry k).filter fun t => v.now ≤ t.touched + idle }

def claimed (name : ν) (event : Event) : Option Body :=
  (v.holds name).bind fun id =>
    (v.entry id).bind fun t => (Engine.advance event (t.touch v.now)).2.2

section Work

variable {v} {name : ν} {event : Event} {k : TransactionId}

theorem entry_work_of_ne (h : v.holds name ≠ some k) : (v.work name event).entry k = v.entry k :=
  if_neg h

theorem entry_work_eq_none : (v.work name event).entry k = none ↔ v.entry k = none := by
  by_cases hk : v.holds name = some k <;> simp [work, hk]

end Work

theorem work_of_holds_none {name : ν} (h : v.holds name = none) (event : Event) :
    v.work name event = v := by
  apply View.ext
  · rfl
  · rfl
  · intro k; simp [work, h]
  · intro n; rfl

variable [DecidableEq ν]

def release (name : ν) : View ν :=
  { v with
    entry := fun k => if v.holds name = some k then none else v.entry k
    holds := fun n => if n = name then none else v.holds n }

def acquire (name : ν) (event : Event) (id : TransactionId) : View ν :=
  { v with
    entry := fun k => if k = id then some (.opened event id v.limit v.now) else v.entry k
    holds := fun n => if n = name then some id else v.holds n }

theorem release_of_holds_none {name : ν} (h : v.holds name = none) : v.release name = v := by
  apply View.ext
  · rfl
  · rfl
  · intro k; simp [release, h]
  · intro n
    by_cases hn : n = name
    · simp [release, hn, h]
    · simp [release, hn]

section Reach

variable {v} {name n : ν} {event : Event} {id k : TransactionId}

theorem holds_release :
    (v.release name).holds n = some k ↔ n ≠ name ∧ v.holds n = some k := by
  by_cases hn : n = name <;> simp [release, hn]

theorem entry_release_of_ne (h : v.holds name ≠ some k) :
    (v.release name).entry k = v.entry k := if_neg h

theorem entry_release {t : Transaction} :
    (v.release name).entry k = some t ↔ v.holds name ≠ some k ∧ v.entry k = some t := by
  by_cases hk : v.holds name = some k <;> simp [release, hk]

@[simp] theorem holds_acquire_self : (v.acquire name event id).holds name = some id := if_pos rfl

theorem holds_acquire_of_ne (h : n ≠ name) : (v.acquire name event id).holds n = v.holds n :=
  if_neg h

@[simp] theorem entry_acquire_self :
    (v.acquire name event id).entry id = some (.opened event id v.limit v.now) := if_pos rfl

theorem entry_acquire_of_ne (h : k ≠ id) : (v.acquire name event id).entry k = v.entry k :=
  if_neg h

end Reach

inductive Step : Turn ν → View ν → Prop where
  | start (name : ν) (identity : Option String) : Step (.start name identity) (v.release name)
  | finish (name : ν) : Step (.finish name) (v.release name)
  | work (name : ν) (event : Event) (fresh : TransactionId) (h : event.opens = false) :
      Step (.event name event fresh) (v.work name event)
  | refuse (name : ν) (event : Event) (fresh : TransactionId) (h : event.opens = true) :
      Step (.event name event fresh) (v.release name)
  | acquire (name : ν) (event : Event) (fresh id : TransactionId) (h : event.opens = true)
      (ha : (v.release name).entry id = none) :
      Step (.event name event fresh) ((v.release name).acquire name event id)
  | pass (time : Nat) : Step (.advance time) (v.pass time)
  | sweep (idle : Nat) : Step (.sweep idle) (v.sweep idle)

end View

namespace Shared

def idle (s : Store) : Shared ν := ⟨s, .empty⟩

variable [DecidableEq ν]

def view (w : Shared ν) : View ν where
  now := w.store.now
  limit := w.store.limit
  entry := w.store.live.get?
  holds name := (w.sessions.get? name).bind Session.current

@[simp] theorem get?_idle (s : Store) (name : ν) : (idle s).sessions.get? name = none := rfl

@[simp] theorem holds_idle (s : Store) (name : ν) : (idle s).view.holds name = none := rfl

variable (service : Service) (w : Shared ν)

theorem view_finish (name : ν) : (w.finish name).1.view = w.view.release name := by
  cases hs : w.sessions.get? name with
  | none =>
    rw [View.release_of_holds_none _ (by simp [view, hs])]
    simp [finish, hs]
  | some session =>
    simp only [finish, hs]
    apply View.ext
    · exact session.now_finish _
    · exact session.limit_finish _
    · intro k; simp [view, View.release, hs, Session.get?_finish]
    · intro n
      by_cases hn : n = name
      · subst hn; simp [view, View.release, Table.get?_erase_self]
      · simp [view, View.release, hn, Table.get?_erase_of_ne _ hn]

theorem get?_finish_self (name : ν) : (w.finish name).1.sessions.get? name = none := by
  cases hs : w.sessions.get? name with
  | none => simp [finish, hs]
  | some session => simp [finish, hs, Table.get?_erase_self]

theorem view_start (name : ν) (identity : Option String) :
    (w.start name identity).view = w.view.release name := by
  have ha := w.get?_finish_self name
  rw [← view_finish]
  apply View.ext
  · rfl
  · rfl
  · intro k; rfl
  · intro n
    by_cases hn : n = name
    · subst hn
      simp [start, view, ha, Table.get?_insert_self ha, Session.start]
    · simp [start, view, Table.get?_insert_of_ne hn]

section Handle

variable {w} {name : ν} {event : Event} {session : Session} (fresh : TransactionId)

theorem handle_of_absent (hs : w.sessions.get? name = none) :
    w.handle service name event fresh = (w, none) := by
  simp [handle, hs]

theorem handle_of_session (hs : w.sessions.get? name = some session) :
    w.handle service name event fresh =
      (⟨(session.handle service event fresh w.store).2.1,
        w.sessions.modify name fun _ => (session.handle service event fresh w.store).1⟩,
        some (session.handle service event fresh w.store).2.2) := by
  simp [handle, hs]

theorem view_modify (hs : w.sessions.get? name = some session) (s : Store) (after : Session) :
    Shared.view ⟨s, w.sessions.modify name fun _ => after⟩ =
      ⟨s.now, s.limit, s.live.get?,
        fun n => if n = name then after.current else w.view.holds n⟩ := by
  apply View.ext
  · rfl
  · rfl
  · intro k; rfl
  · intro n
    by_cases hn : n = name
    · subst hn; simp [view, Table.get?_modify_self, hs]
    · simp [view, Table.get?_modify_of_ne _ hn, hn]

theorem holds_of_session (hs : w.sessions.get? name = some session) :
    w.view.holds name = session.current := by
  simp [view, hs]

theorem entry_release_of_session (hs : w.sessions.get? name = some session) (k : TransactionId) :
    (w.view.release name).entry k = (session.finish w.store).2.live.get? k := by
  simp [Session.get?_finish, View.release, view, hs]

theorem view_handle_of_not_opens (h : event.opens = false) :
    (w.handle service name event fresh).1.view = w.view.work name event := by
  cases hs : w.sessions.get? name with
  | none =>
    rw [handle_of_absent service fresh hs, View.work_of_holds_none _ (by simp [view, hs])]
  | some session =>
    have hh := holds_of_session hs
    rw [handle_of_session service fresh hs, session.handle_of_not_opens service fresh _ h,
      view_modify hs]
    apply View.ext
    · exact Engine.now_process _ _ _ _
    · exact Engine.limit_process _ _ _ _
    · intro k
      cases hc : session.current with
      | none => simp [View.work, hs, hc, Engine.process_none, view]
      | some id =>
        by_cases hk : k = id
        · subst hk; simp [View.work, hs, hc, Engine.get?_process_self, view]
        · simp [View.work, hs, hc, Ne.symm hk, Engine.get?_process_of_ne _ _ _ _ hk, view]
    · intro n
      by_cases hn : n = name
      · subst hn; simp [View.work, hh]
      · simp [View.work, hn]

theorem view_handle_of_opened (hs : w.sessions.get? name = some session) {id : TransactionId}
    {source : Source} {answer : Except Duplicate Answer}
    (ha : (session.finish w.store).2.live.get? id = none)
    (he : session.handle service event fresh w.store =
      ({ session with current := some id },
        (service.engine.process (some id) event
          (((session.finish w.store).2.insert id).record (.opened source))).1, answer)) :
    (w.handle service name event fresh).1.view = (w.view.release name).acquire name event id := by
  have hi := Store.get?_insert_self ha
  rw [handle_of_session service fresh hs, view_modify hs, he]
  apply View.ext
  · simp [View.acquire, View.release, view]
  · simp [View.acquire, View.release, view]
  · intro k
    by_cases hk : k = id
    · subst hk
      simp [View.acquire, Engine.get?_process_self, hi, Transaction.touch_start,
        Transaction.opened, View.release, view]
    · simp [View.acquire, entry_release_of_session hs, hk, Engine.get?_process_of_ne _ _ _ _ hk,
        Store.get?_insert_of_ne _ hk]
  · intro n
    by_cases hn : n = name
    · simp [View.acquire, hn]
    · simp [View.acquire, View.release, hn]

theorem handle_cases_of_opens (hs : w.sessions.get? name = some session)
    (h : event.opens = true) :
    (∃ d, (w.handle service name event fresh).2 = some (.error d) ∧
      (w.handle service name event fresh).1.view = w.view.release name) ∨
    ∃ id, (w.view.release name).entry id = none ∧
      (w.handle service name event fresh).2 = some (.ok (service.engine.answer event none)) ∧
      (w.handle service name event fresh).1.view =
        (w.view.release name).acquire name event id := by
  have hr := entry_release_of_session hs
  rcases session.handle_of_opens service fresh w.store h with ⟨d, hd⟩ | ⟨id, source, ha, he⟩
  · refine .inl ⟨d, ?_, ?_⟩
    · rw [handle_of_session service fresh hs, hd]
    · rw [handle_of_session service fresh hs, view_modify hs, hd]
      apply View.ext
      · exact session.now_finish _
      · exact session.limit_finish _
      · intro k; exact (hr k).symm
      · intro n; rfl
  · refine .inr ⟨id, (hr id).trans ha, ?_, view_handle_of_opened service fresh hs ha he⟩
    rw [handle_of_session service fresh hs, he]

end Handle

theorem view_sweep (idle : Nat) : (w.take service (.sweep idle)).1.view = w.view.sweep idle := by
  apply View.ext
  · exact w.store.now_evict _
  · exact w.store.limit_evict _
  · intro k; exact w.store.get?_evict _ k
  · intro n; rfl

theorem step_take (t : Turn ν) : w.view.Step t (w.take service t).1.view := by
  cases t with
  | start name identity => rw [take, view_start]; exact .start name identity
  | event name event fresh =>
    cases h : event.opens with
    | false => rw [take, view_handle_of_not_opens service fresh h]; exact .work _ _ _ h
    | true =>
      cases hs : w.sessions.get? name with
      | none =>
        have hn : w.view.holds name = none := by simp [view, hs]
        have hr := View.Step.refuse (v := w.view) name event fresh h
        rw [View.release_of_holds_none _ hn] at hr
        rw [take, handle_of_absent service fresh hs]
        exact hr
      | some session =>
        rcases handle_cases_of_opens service fresh hs h with ⟨d, _, hv⟩ | ⟨id, ha, _, hv⟩
        · rw [take, hv]; exact .refuse _ _ _ h
        · rw [take, hv]; exact .acquire _ _ _ _ h ha
  | finish name => rw [take, view_finish]; exact .finish name
  | advance time => exact .pass time
  | sweep idle => rw [view_sweep]; exact .sweep idle

section Reply

variable {w} {name : ν} {event : Event} {session : Session} (fresh : TransactionId)

theorem take_of_absent (hs : w.sessions.get? name = none) :
    w.take service (.event name event fresh) = (w, none) :=
  handle_of_absent service fresh hs

theorem reply_of_not_opens (hs : w.sessions.get? name = some session) (h : event.opens = false) :
    (w.take service (.event name event fresh)).2 =
      some (.ok (service.engine.answer event (w.view.claimed name event))) := by
  rw [take, handle_of_session service fresh hs, session.handle_of_not_opens service fresh _ h]
  cases hc : session.current with
  | none => simp [View.claimed, view, hs, hc, Engine.process_none, Engine.answer_of_not_opens _ h]
  | some id => simp [View.claimed, view, hs, hc, Engine.snd_process]

def asks (w : Shared ν) : Turn ν → Option Body
  | .event name event fresh =>
    (w.sessions.get? name).bind fun session => session.asks service event fresh w.store
  | _ => none

/-- A turn depends on the builder only through the body that it is asked about. -/
theorem take_congr {b : Builder} {t : Turn ν}
    (h : ∀ body, w.asks service t = some body → b body = service.engine.builder body) :
    w.take { service with engine := { service.engine with builder := b } } t =
      w.take service t := by
  cases t with
  | event name event fresh =>
    cases hs : w.sessions.get? name with
    | none => rw [take_of_absent _ fresh hs, take_of_absent _ fresh hs]
    | some session =>
      simp only [asks, hs, Option.bind_some] at h
      rw [take, take, handle_of_session _ fresh hs, handle_of_session _ fresh hs,
        session.handle_congr service fresh w.store h]
  | _ => rfl

theorem asks_of_opens (h : event.opens = true) :
    w.asks service (.event name event fresh) = none := by
  cases hs : w.sessions.get? name with
  | none => simp [asks, hs]
  | some session => simp [asks, hs, session.asks_of_opens service fresh _ h]

theorem asks_of_not_opens (h : event.opens = false) :
    w.asks service (.event name event fresh) =
      (w.view.claimed name event).filter fun body => decide (service.engine.consults body) := by
  cases hs : w.sessions.get? name with
  | none => simp [asks, View.claimed, view, hs]
  | some session =>
    simp [asks, hs, session.asks_of_not_opens service fresh _ h, Engine.asks, View.claimed, view]

end Reply

section Runs

def evicted (w : Shared ν) : Turn ν → Nat
  | .sweep idle => (w.store.sweep idle).2
  | _ => 0

/-- No transaction is evicted in the course of the turns. -/
def Quiet (w : Shared ν) : List (Turn ν) → Prop
  | [] => True
  | t :: rest => w.evicted t = 0 ∧ Quiet (w.take service t).1 rest

instance quietDecidable (w : Shared ν) : (turns : List (Turn ν)) → Decidable (w.Quiet service turns)
  | [] => .isTrue trivial
  | t :: rest =>
    have : Decidable ((w.take service t).1.Quiet service rest) := quietDecidable _ rest
    inferInstanceAs (Decidable (w.evicted t = 0 ∧ (w.take service t).1.Quiet service rest))

def after (w : Shared ν) (turns : List (Turn ν)) : Shared ν :=
  turns.foldl (fun w t => (w.take service t).1) w

@[simp] theorem after_nil : w.after service [] = w := rfl

@[simp] theorem after_cons (t : Turn ν) (rest : List (Turn ν)) :
    w.after service (t :: rest) = ((w.take service t).1).after service rest := rfl

theorem after_append (turns rest : List (Turn ν)) :
    w.after service (turns ++ rest) = (w.after service turns).after service rest :=
  List.foldl_append

theorem quiet_append (turns rest : List (Turn ν)) :
    w.Quiet service (turns ++ rest) ↔
      w.Quiet service turns ∧ (w.after service turns).Quiet service rest := by
  induction turns generalizing w with
  | nil => simp [Quiet]
  | cons t turns ih => simp [Quiet, ih, and_assoc]

theorem entry_of_evicted_zero {idle : Nat} (h : w.evicted (.sweep idle) = 0) :
    (w.view.sweep idle).entry = w.view.entry := by
  funext k
  have hl : (w.store.sweep idle).1.live = w.store.live := w.store.live_evict_of_zero _ h
  have hk : (w.store.sweep idle).1.live.get? k = (w.view.sweep idle).entry k :=
    w.store.get?_evict _ k
  rw [← hk, hl]
  rfl

/-- What `f` sees at the turns of one session, in order. -/
def along {β : Type} (f : Shared ν → Turn ν → β) (name : ν) (w : Shared ν) : List (Turn ν) → List β
  | [] => []
  | t :: rest =>
    if t.name? = some name then f w t :: along f name (w.take service t).1 rest
    else along f name (w.take service t).1 rest

def replies (name : ν) : Shared ν → List (Turn ν) → List (Option (Except Duplicate Answer)) :=
  along service (fun w t => (w.take service t).2) name

def asked (name : ν) : Shared ν → List (Turn ν) → List (Option Body) :=
  along service (fun w t => w.asks service t) name

end Runs

end Shared

end BodyCallout
