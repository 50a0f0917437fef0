import BodyCallout.Proofs.Session.Turns

/-!
Sessions whose streams have identities of their own do not interfere. Each keeps to the entry under
its identity, so the turns of the others can be left out and it is given back the same.
-/

set_option autoImplicit false

namespace BodyCallout

variable {ν : Type}

def Turn.concerns [DecidableEq ν] (name : ν) (t : Turn ν) : Bool :=
  match t.name? with
  | none => true
  | some m => m = name

def Turn.Identified (identity : ν → String) : Turn ν → Prop
  | .start name given => given = some (identity name)
  | _ => True

instance (identity : ν → String) : (t : Turn ν) → Decidable (t.Identified identity)
  | .start name given => inferInstanceAs (Decidable (given = some (identity name)))
  | .event .. | .finish _ | .advance _ | .sweep _ => .isTrue trivial

namespace Shared

variable [DecidableEq ν]

def identity? (w : Shared ν) (name : ν) : Option (Option String) :=
  (w.sessions.get? name).map Session.identity

section Identity

variable (service : Service) (w : Shared ν)

theorem identity?_finish (name n : ν) :
    (w.finish name).1.identity? n = if n = name then none else w.identity? n := by
  by_cases hn : n = name
  · subst hn; simp [identity?, get?_finish_self]
  · cases hs : w.sessions.get? name with
    | none => simp [finish, hs, hn]
    | some session => simp [finish, hs, hn, identity?, Table.get?_erase_of_ne _ hn]

theorem identity?_start (name : ν) (given : Option String) (n : ν) :
    (w.start name given).identity? n = if n = name then some given else w.identity? n := by
  have ha := w.get?_finish_self name
  by_cases hn : n = name
  · subst hn; simp [start, identity?, Table.get?_insert_self ha, Session.start]
  · have hf := w.identity?_finish name n
    simp only [hn, if_false] at hf ⊢
    rw [← hf]
    simp [start, identity?, Table.get?_insert_of_ne hn]

theorem identity?_handle (name : ν) (event : Event) (fresh : TransactionId) (n : ν) :
    (w.handle service name event fresh).1.identity? n = w.identity? n := by
  cases hs : w.sessions.get? name with
  | none => rw [handle_of_absent service fresh hs]
  | some session =>
    rw [handle_of_session service fresh hs]
    by_cases hn : n = name
    · subst hn
      simp [identity?, Table.get?_modify_self, hs, Session.identity_handle]
    · simp [identity?, Table.get?_modify_of_ne _ hn]

end Identity

end Shared

namespace View

/-- A session holds nothing but the id that is its identity, and holds it if there is an entry. -/
structure Apart (identity : ν → String) (v : View ν) : Prop where
  held : ∀ n k, v.holds n = some k → k = ⟨identity n⟩
  owned : ∀ n, v.entry ⟨identity n⟩ ≠ none → v.holds n = some ⟨identity n⟩

/-- Two views that a session can not tell apart: they agree on what it holds and on one entry. -/
structure Alike (name : ν) (k : TransactionId) (v u : View ν) : Prop where
  now : v.now = u.now
  limit : v.limit = u.limit
  entry : v.entry k = u.entry k
  holds : v.holds name = u.holds name

section Apart

variable {identity : ν → String} {v : View ν}

theorem Apart.of_holds (h : v.Apart identity) (hi : Function.Injective identity) {n m : ν}
    (hm : v.holds m = some ⟨identity n⟩) : m = n := by
  have hk := h.held m _ hm
  exact hi (TransactionId.mk.inj hk).symm

theorem Apart.work (h : v.Apart identity) (name : ν) (event : Event) :
    (v.work name event).Apart identity := by
  constructor
  · exact h.held
  · intro n he
    exact h.owned n (mt entry_work_eq_none.mpr he)

theorem Apart.pass (h : v.Apart identity) (time : Nat) : (v.pass time).Apart identity :=
  ⟨h.held, h.owned⟩

theorem Apart.sweep (h : v.Apart identity) (idle : Nat) : (v.sweep idle).Apart identity := by
  constructor
  · exact h.held
  · intro n he
    apply h.owned n
    intro hn
    simp [View.sweep, hn] at he

variable [DecidableEq ν]

theorem Apart.release (h : v.Apart identity) (name : ν) : (v.release name).Apart identity := by
  constructor
  · intro n k hk
    exact h.held n k (holds_release.mp hk).2
  · intro n he
    obtain ⟨t, ht⟩ := Option.ne_none_iff_exists'.mp he
    obtain ⟨hm, hv⟩ := entry_release.mp ht
    have ho := h.owned n (by simp [hv])
    have hn : n ≠ name := by rintro rfl; exact hm ho
    exact holds_release.mpr ⟨hn, ho⟩

theorem Apart.entry_release (h : v.Apart identity) (name : ν) :
    (v.release name).entry ⟨identity name⟩ = none := by
  cases he : (v.release name).entry ⟨identity name⟩ with
  | none => rfl
  | some t =>
    obtain ⟨hm, hv⟩ := View.entry_release.mp he
    exact absurd (h.owned name (by simp [hv])) hm

theorem Apart.acquire (h : v.Apart identity) (hi : Function.Injective identity) (name : ν)
    (event : Event) : (v.acquire name event ⟨identity name⟩).Apart identity := by
  constructor
  · intro n k hk
    by_cases hn : n = name
    · subst hn
      rw [holds_acquire_self] at hk
      exact (Option.some.inj hk).symm
    · rw [holds_acquire_of_ne hn] at hk
      exact h.held n k hk
  · intro n he
    by_cases hn : n = name
    · subst hn
      exact holds_acquire_self
    · have hk : (⟨identity n⟩ : TransactionId) ≠ ⟨identity name⟩ :=
        fun hk => hn (hi (TransactionId.mk.inj hk))
      rw [entry_acquire_of_ne hk] at he
      rw [holds_acquire_of_ne hn]
      exact h.owned n he

end Apart

section Alike

variable {name : ν} {k : TransactionId} {v u : View ν}

theorem Alike.trans {x : View ν} (h : v.Alike name k u) (g : u.Alike name k x) :
    v.Alike name k x :=
  ⟨h.now.trans g.now, h.limit.trans g.limit, h.entry.trans g.entry, h.holds.trans g.holds⟩

theorem Alike.work (h : v.Alike name k u) (event : Event) :
    (v.work name event).Alike name k (u.work name event) := by
  constructor
  · exact h.now
  · exact h.limit
  · simp [View.work, h.holds, h.entry, h.now]
  · exact h.holds

theorem Alike.pass (h : v.Alike name k u) (time : Nat) :
    (v.pass time).Alike name k (u.pass time) :=
  ⟨congrArg (· + time) h.now, h.limit, h.entry, h.holds⟩

theorem Alike.sweep (h : v.Alike name k u) (idle : Nat) :
    (v.sweep idle).Alike name k (u.sweep idle) :=
  ⟨h.now, h.limit, by simp [View.sweep, h.entry, h.now], h.holds⟩

theorem Alike.claimed (h : v.Alike name k u) (hk : ∀ id, u.holds name = some id → id = k)
    (event : Event) : v.claimed name event = u.claimed name event := by
  simp only [View.claimed, h.holds, h.now]
  cases hu : u.holds name with
  | none => rfl
  | some id =>
    obtain rfl := hk id hu
    simp [h.entry]

variable [DecidableEq ν]

theorem Alike.release (h : v.Alike name k u) : (v.release name).Alike name k (u.release name) := by
  constructor
  · exact h.now
  · exact h.limit
  · simp [View.release, h.holds, h.entry]
  · simp [View.release]

theorem Alike.acquire (h : v.Alike name k u) (event : Event) :
    (v.acquire name event k).Alike name k (u.acquire name event k) := by
  constructor
  · exact h.now
  · exact h.limit
  · simp [View.acquire, h.limit, h.now]
  · simp [View.acquire]

end Alike

section Others

variable {name m : ν} {k : TransactionId} {v : View ν}

theorem alike_work (hk : v.holds m ≠ some k) (event : Event) :
    (v.work m event).Alike name k v :=
  ⟨rfl, rfl, entry_work_of_ne hk, rfl⟩

variable [DecidableEq ν]

theorem alike_release (hm : m ≠ name) (hk : v.holds m ≠ some k) : (v.release m).Alike name k v :=
  ⟨rfl, rfl, entry_release_of_ne hk, if_neg (Ne.symm hm)⟩

theorem alike_acquire (hm : m ≠ name) {id : TransactionId} (hk : id ≠ k) (event : Event) :
    (v.acquire m event id).Alike name k v :=
  ⟨rfl, rfl, entry_acquire_of_ne (Ne.symm hk), holds_acquire_of_ne (Ne.symm hm)⟩

end Others

end View

namespace Shared

variable [DecidableEq ν]

structure Apart (identity : ν → String) (w : Shared ν) : Prop where
  given : ∀ n i, w.identity? n = some i → i = some (identity n)
  view : w.view.Apart identity

structure Alike (identity : ν → String) (name : ν) (w u : Shared ν) : Prop where
  given : w.identity? name = u.identity? name
  view : w.view.Alike name ⟨identity name⟩ u.view

section Turns

variable {identity : ν → String} {service : Service} {w u : Shared ν}

theorem Alike.trans {name : ν} {x : Shared ν} (h : w.Alike identity name u)
    (g : u.Alike identity name x) : w.Alike identity name x :=
  ⟨h.given.trans g.given, h.view.trans g.view⟩

theorem Alike.get?_of_none {name : ν} (h : w.Alike identity name u)
    (hs : w.sessions.get? name = none) : u.sessions.get? name = none := by
  have hg := h.given
  simp only [identity?, hs, Option.map_none] at hg
  exact Option.map_eq_none_iff.1 hg.symm

theorem Alike.get?_of_some {name : ν} {session : Session} (h : w.Alike identity name u)
    (hs : w.sessions.get? name = some session) : ∃ other, u.sessions.get? name = some other := by
  have hg := h.given
  simp only [identity?, hs, Option.map_some] at hg
  obtain ⟨other, ho, _⟩ := Option.map_eq_some_iff.1 hg.symm
  exact ⟨other, ho⟩

section Event

variable {name : ν} {session : Session} {event : Event} (fresh : TransactionId)

theorem Apart.handle_of_opens (h : w.Apart identity)
    (hp : service.correlation.preferIdentity = true) (hs : w.sessions.get? name = some session)
    (ho : event.opens = true) :
    (w.handle service name event fresh).1.view =
        (w.view.release name).acquire name event ⟨identity name⟩ ∧
      (w.handle service name event fresh).2 = some (.ok (service.engine.answer event none)) := by
  have hi : session.identity = some (identity name) := h.given name _ (by simp [identity?, hs])
  have ha : (session.finish w.store).2.live.get? ⟨identity name⟩ = none := by
    rw [← entry_release_of_session hs]
    exact h.view.entry_release name
  have he := session.handle_of_identity service fresh w.store hp hi ha ho
  constructor
  · exact view_handle_of_opened service fresh hs ha he
  · rw [handle_of_session service fresh hs, he]

theorem Apart.reply (h : w.Apart identity) (hp : service.correlation.preferIdentity = true)
    (hs : w.sessions.get? name = some session) :
    (w.take service (.event name event fresh)).2 =
      some (.ok (service.engine.answer event
        (if event.opens then none else w.view.claimed name event))) := by
  cases ho : event.opens with
  | false => exact reply_of_not_opens service fresh hs ho
  | true => exact (h.handle_of_opens fresh hp hs ho).2

end Event

theorem Apart.step (h : w.Apart identity) (hi : Function.Injective identity)
    (hp : service.correlation.preferIdentity = true) (t : Turn ν) (ht : t.Identified identity) :
    ((w.take service t).1).Apart identity := by
  cases t with
  | start name given =>
    constructor
    · intro n i hn
      rw [take, identity?_start] at hn
      split at hn
      · next hm => subst hm; rw [← Option.some.inj hn]; exact ht
      · exact h.given n i hn
    · rw [take, view_start]
      exact h.view.release name
  | event name event fresh =>
    constructor
    · intro n i hn
      rw [take, identity?_handle] at hn
      exact h.given n i hn
    · cases hs : w.sessions.get? name with
      | none => rw [take_of_absent service fresh hs]; exact h.view
      | some session =>
        cases ho : event.opens with
        | false =>
          rw [take, view_handle_of_not_opens service fresh ho]
          exact h.view.work name event
        | true =>
          rw [take, (h.handle_of_opens fresh hp hs ho).1]
          exact (h.view.release name).acquire hi name event
  | finish name =>
    constructor
    · intro n i hn
      rw [take, identity?_finish] at hn
      split at hn
      · contradiction
      · exact h.given n i hn
    · rw [take, view_finish]
      exact h.view.release name
  | advance time => exact ⟨h.given, h.view.pass time⟩
  | sweep idle => exact ⟨h.given, by rw [view_sweep]; exact h.view.sweep idle⟩

/-- The turn of another session can not be noticed. -/
theorem Apart.alike_step (h : w.Apart identity) (hi : Function.Injective identity)
    (hp : service.correlation.preferIdentity = true) {name : ν} {t : Turn ν}
    (ht : t.concerns name = false) : ((w.take service t).1).Alike identity name w := by
  have other {m : ν} (hm : m ≠ name) : w.view.holds m ≠ some ⟨identity name⟩ :=
    fun hk => hm (h.view.of_holds hi hk)
  cases t with
  | start m given =>
    have hm : m ≠ name := by simpa [Turn.concerns, Turn.name?] using ht
    constructor
    · rw [take, identity?_start, if_neg (Ne.symm hm)]
    · rw [take, view_start]
      exact View.alike_release hm (other hm)
  | event m event fresh =>
    have hm : m ≠ name := by simpa [Turn.concerns, Turn.name?] using ht
    constructor
    · rw [take, identity?_handle]
    · cases hs : w.sessions.get? m with
      | none => rw [take_of_absent service fresh hs]; exact ⟨rfl, rfl, rfl, rfl⟩
      | some session =>
        cases ho : event.opens with
        | false =>
          rw [take, view_handle_of_not_opens service fresh ho]
          exact View.alike_work (other hm) event
        | true =>
          -- Another session opens under its own identity, which is another id.
          have hk : (⟨identity m⟩ : TransactionId) ≠ ⟨identity name⟩ :=
            fun hk => hm (hi (TransactionId.mk.inj hk))
          rw [take, (h.handle_of_opens fresh hp hs ho).1]
          exact (View.alike_acquire hm hk event).trans (View.alike_release hm (other hm))
  | finish m =>
    have hm : m ≠ name := by simpa [Turn.concerns, Turn.name?] using ht
    constructor
    · rw [take, identity?_finish, if_neg (Ne.symm hm)]
    · rw [take, view_finish]
      exact View.alike_release hm (other hm)
  | advance time => simp [Turn.concerns, Turn.name?] at ht
  | sweep idle => simp [Turn.concerns, Turn.name?] at ht

theorem Alike.step {name : ν} (h : w.Alike identity name u) (hw : w.Apart identity)
    (hu : u.Apart identity) (hp : service.correlation.preferIdentity = true) {t : Turn ν}
    (ht : t.concerns name = true) :
    ((w.take service t).1).Alike identity name (u.take service t).1 := by
  cases t with
  | start m given =>
    have hm : m = name := by simpa [Turn.concerns, Turn.name?] using ht
    subst hm
    constructor
    · simp only [take, identity?_start, if_true]
    · simp only [take, view_start]
      exact h.view.release
  | event m event fresh =>
    have hm : m = name := by simpa [Turn.concerns, Turn.name?] using ht
    subst hm
    -- Both runs have the session or neither has, and both open a transaction or neither does.
    constructor
    · simp only [take, identity?_handle]
      exact h.given
    · cases hs : w.sessions.get? m with
      | none =>
        rw [take_of_absent service fresh hs, take_of_absent service fresh (h.get?_of_none hs)]
        exact h.view
      | some session =>
        obtain ⟨other, hs'⟩ := h.get?_of_some hs
        cases ho : event.opens with
        | false =>
          simp only [take, view_handle_of_not_opens service fresh ho]
          exact h.view.work event
        | true =>
          simp only [take, (hw.handle_of_opens fresh hp hs ho).1,
            (hu.handle_of_opens fresh hp hs' ho).1]
          exact h.view.release.acquire event
  | finish m =>
    have hm : m = name := by simpa [Turn.concerns, Turn.name?] using ht
    subst hm
    constructor
    · simp only [take, identity?_finish, if_true]
    · simp only [take, view_finish]
      exact h.view.release
  | advance time => exact ⟨h.given, h.view.pass time⟩
  | sweep idle =>
    constructor
    · exact h.given
    · simp only [view_sweep]
      exact h.view.sweep idle

theorem Alike.reply {name : ν} (h : w.Alike identity name u) (hw : w.Apart identity)
    (hu : u.Apart identity) (hp : service.correlation.preferIdentity = true) {t : Turn ν}
    (ht : t.name? = some name) : (w.take service t).2 = (u.take service t).2 := by
  cases t with
  | start m given => rfl
  | event m event fresh =>
    have hm : m = name := Option.some.inj ht
    subst hm
    cases hs : w.sessions.get? m with
    | none =>
      rw [take_of_absent service fresh hs, take_of_absent service fresh (h.get?_of_none hs)]
    | some session =>
      obtain ⟨other, hs'⟩ := h.get?_of_some hs
      rw [hw.reply fresh hp hs, hu.reply fresh hp hs', h.view.claimed (hu.view.held m) event]
  | finish m => rfl
  | advance time => rfl
  | sweep idle => rfl

theorem Apart.reply_ne_error (h : w.Apart identity)
    (hp : service.correlation.preferIdentity = true) (t : Turn ν) (d : Duplicate) :
    (w.take service t).2 ≠ some (.error d) := by
  cases t with
  | event name event fresh =>
    cases hs : w.sessions.get? name with
    | none => simp [take_of_absent service fresh hs]
    | some session => simp [h.reply fresh hp hs]
  | _ => simp [take]

end Turns

section Runs

variable {identity : ν → String} {service : Service}

theorem Alike.replies {name : ν} (hi : Function.Injective identity)
    (hp : service.correlation.preferIdentity = true) (turns : List (Turn ν))
    (ht : ∀ t ∈ turns, t.Identified identity) {w u : Shared ν} (h : w.Alike identity name u)
    (hw : w.Apart identity) (hu : u.Apart identity) :
    w.replies service name turns = u.replies service name (turns.filter (·.concerns name)) := by
  induction turns generalizing w u with
  | nil => rfl
  | cons t rest ih =>
    have hw' := hw.step hi hp t (ht t (List.mem_cons_self ..))
    have hu' := hu.step hi hp t (ht t (List.mem_cons_self ..))
    have hr : ∀ t ∈ rest, t.Identified identity := fun t hm => ht t (List.mem_cons_of_mem _ hm)
    cases hc : t.concerns name with
    | false =>
      have hn : t.name? ≠ some name := by
        intro hn
        simp [Turn.concerns, hn] at hc
      rw [List.filter_cons_of_neg (by simp [hc])]
      simp only [Shared.replies, along, hn, if_false]
      exact ih hr ((hw.alike_step hi hp hc).trans h) hw' hu
    | true =>
      have hk := ih hr (h.step hw hu hp hc) hw' hu'
      rw [List.filter_cons_of_pos hc]
      by_cases hn : t.name? = some name
      · simp only [Shared.replies, along, hn, if_true] at hk ⊢
        rw [h.reply hw hu hp hn, hk]
      · simp only [Shared.replies, along, hn, if_false] at hk ⊢
        exact hk

theorem Apart.replies_ne_error {name : ν} (hi : Function.Injective identity)
    (hp : service.correlation.preferIdentity = true) (turns : List (Turn ν))
    (ht : ∀ t ∈ turns, t.Identified identity) {w : Shared ν} (h : w.Apart identity)
    (d : Duplicate) : some (.error d) ∉ w.replies service name turns := by
  induction turns generalizing w with
  | nil => simp [replies, along]
  | cons t rest ih =>
    have hw := h.step hi hp t (ht t (List.mem_cons_self ..))
    have hr := ih (fun t hm => ht t (List.mem_cons_of_mem _ hm)) hw
    by_cases hn : t.name? = some name
    · simp only [Shared.replies, along, hn, if_true, List.mem_cons, not_or] at hr ⊢
      exact ⟨fun he => h.reply_ne_error hp t d he.symm, hr⟩
    · simp only [Shared.replies, along, hn, if_false] at hr ⊢
      exact hr

theorem apart_idle {s : Store} (hs : ∀ n, s.live.get? ⟨identity n⟩ = none) :
    (idle s : Shared ν).Apart identity := by
  refine ⟨?_, ?_, ?_⟩
  · intro n i hi
    simp [identity?] at hi
  · intro n k hk
    simp at hk
  · intro n he
    exact absurd (hs n) he

/-- Each of the sessions is given back, in any run, what it would be given if the others were not
there, and none of them is ever refused a transaction. -/
theorem replies_without_others (service : Service)
    (hp : service.correlation.preferIdentity = true) (identity : ν → String)
    (hi : Function.Injective identity) (s : Store) (hs : ∀ n, s.live.get? ⟨identity n⟩ = none)
    (turns : List (Turn ν)) (ht : ∀ t ∈ turns, t.Identified identity) (name : ν) :
    (idle s : Shared ν).replies service name turns =
        (idle s : Shared ν).replies service name (turns.filter (·.concerns name)) ∧
      ∀ d, some (.error d) ∉ (idle s : Shared ν).replies service name turns := by
  have ha := apart_idle hs
  exact ⟨Alike.replies hi hp turns ht ⟨rfl, rfl, rfl, rfl, rfl⟩ ha ha,
    Apart.replies_ne_error hi hp turns ht ha⟩

/-- Two streams take turns; one of them starts over with new request headers. -/
theorem replies_of_two_streams :
    let service : Service := ⟨⟨fun _ => .ok .empty, true, .skip⟩, ⟨true, "x-request-id"⟩⟩
    let identity : Bool → String := fun b => if b then "left" else "right"
    let headers : Event := .headers .request ⟨[⟨"x-request-id", "same"⟩], false⟩
    let body : Event := .body .request ⟨[1, 2, 3], true⟩
    let turns : List (Turn Bool) :=
      [.start true (some "left"), .start false (some "right"), .event true headers ⟨"f"⟩,
        .event false headers ⟨"f"⟩, .event true body ⟨"f"⟩, .advance 9, .sweep 4,
        .event true headers ⟨"f"⟩, .finish false, .event true body ⟨"f"⟩]
    let w : Shared Bool := idle (.empty 8)
    service.correlation.preferIdentity = true ∧ Function.Injective identity ∧
      (∀ n, w.store.live.get? ⟨identity n⟩ = none) ∧ (∀ t ∈ turns, t.Identified identity) ∧
      w.replies service true turns = w.replies service true (turns.filter (·.concerns true)) ∧
      ∀ d, some (.error d) ∉ w.replies service true turns := by
  intro service identity headers body turns w
  have hi : Function.Injective identity := by
    intro a b
    cases a <;> cases b <;> decide
  have ht : ∀ t ∈ turns, t.Identified identity := by decide
  have hs : ∀ n, w.store.live.get? ⟨identity n⟩ = none := by
    intro n
    cases n <;> rfl
  exact ⟨rfl, hi, hs, ht, replies_without_others service rfl identity hi w.store hs turns ht true⟩

end Runs

end Shared

end BodyCallout
