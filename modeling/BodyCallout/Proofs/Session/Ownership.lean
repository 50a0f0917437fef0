import BodyCallout.Proofs.Session.History
import BodyCallout.Proofs.Session.Turns

/-!
Whose transactions are whose. A store does not know who opened an entry, so a ledger is kept beside
it. Sessions keep off each other's entries until one of them holds on to an id that was evicted and
that another session has opened anew; this is when they no longer do.
-/

set_option autoImplicit false

namespace BodyCallout

variable {ν : Type}

/-- Who opened the live entries, what each session was handed since it last opened one, and whether
a sweep has taken that one away. -/
structure Ledger (ν : Type) where
  opener : TransactionId → Option ν
  heard : ν → List Event
  swept : ν → Bool

namespace Ledger

def empty : Ledger ν := ⟨fun _ => none, fun _ => [], fun _ => false⟩

variable (g : Ledger ν)

def forget (u : View ν) : Ledger ν :=
  { g with opener := fun k => (u.entry k).bind fun _ => g.opener k }

theorem opener_forget {u : View ν} {k : TransactionId} {m : ν} :
    (g.forget u).opener k = some m ↔ u.entry k ≠ none ∧ g.opener k = some m := by
  cases h : u.entry k with
  | none => simp [forget, h]
  | some t => simp [forget, h]

theorem forget_of_live {u : View ν} (h : ∀ k m, g.opener k = some m → u.entry k ≠ none) :
    g.forget u = g := by
  have hk : ∀ k, (g.forget u).opener k = g.opener k := by
    intro k
    cases ho : g.opener k with
    | none => simp [forget, ho]
    | some m => exact (opener_forget g).mpr ⟨h k m ho, ho⟩
  cases g
  simp only [forget, mk.injEq, and_true]
  exact funext hk

variable [DecidableEq ν]

def hear (name : ν) (event : Event) : Ledger ν :=
  { g with heard := fun n => if n = name then g.heard n ++ [event] else g.heard n }

def restart (name : ν) (event : Event) : Ledger ν :=
  { g with
    heard := fun n => if n = name then [event] else g.heard n
    swept := fun n => if n = name then false else g.swept n }

def grant (name : ν) (id : TransactionId) : Ledger ν :=
  { g with opener := fun k => if k = id then some name else g.opener k }

theorem forget_grant {v u : View ν} {id : TransactionId} (name : ν) (event : Event)
    (hi : u.entry id ≠ none) (hk : ∀ k, k ≠ id → u.entry k = v.entry k) :
    ((g.restart name event).grant name id).forget u =
      ((g.forget v).restart name event).grant name id := by
  simp only [forget, restart, grant, mk.injEq, and_true]
  funext k
  by_cases h : k = id
  · subst h
    obtain ⟨t, ht⟩ := Option.ne_none_iff_exists'.mp hi
    simp [ht]
  · simp [h, hk k h]

/-- Notes which sessions lose the transaction that they opened. -/
def mark (v u : View ν) : Ledger ν :=
  { g with
    swept := fun n => g.swept n ||
      (v.holds n).any fun k => decide (g.opener k = some n) && (u.entry k).isNone }

/-- Keeps the ledger over a turn that leads from `v` to `u`. -/
def note (v u : View ν) (t : Turn ν) : Ledger ν :=
  match t with
  | .event name event _ =>
    if event.opens then
      match u.holds name with
      | none => (g.restart name event).forget u
      | some id => ((g.restart name event).grant name id).forget u
    else (g.hear name event).forget u
  | .sweep _ => (g.mark v u).forget u
  | _ => g.forget u

theorem live_note {v u : View ν} {t : Turn ν} {k : TransactionId} {m : ν}
    (h : (g.note v u t).opener k = some m) : u.entry k ≠ none := by
  have hf (g : Ledger ν) (hg : (g.forget u).opener k = some m) : u.entry k ≠ none :=
    ((opener_forget g).mp hg).1
  cases t with
  | event name event fresh =>
    simp only [note] at h
    split at h
    · split at h
      · exact hf _ h
      · exact hf _ h
    · exact hf _ h
  | _ => exact hf _ h

end Ledger

namespace View

variable (v : View ν) (g : Ledger ν)

/-- A session still holds an id that was evicted, and another session has opened it since. -/
def Retaken : Prop :=
  ∃ n m k, g.swept n = true ∧ v.holds n = some k ∧ g.opener k = some m ∧ m ≠ n

/-- The ledger agrees with what the sessions hold and with what the entries tell. -/
structure Kept : Prop where
  live : ∀ k m, g.opener k = some m → v.entry k ≠ none
  held : ∀ k m, g.opener k = some m → v.holds m = some k
  own : ∀ n k, v.holds n = some k → g.opener k = some n ∨ g.swept n = true
  told : ∀ k m t, g.opener k = some m → v.entry k = some t → t.Tells v.limit (g.heard m)

variable {v g}

theorem Kept.holder (h : v.Kept g) (hr : ¬ v.Retaken g) {n m : ν} {k : TransactionId}
    (hn : v.holds n = some k) (hm : g.opener k = some m) : m = n := by
  rcases h.own n k hn with ho | hs
  · exact Option.some.inj (hm.symm.trans ho)
  · exact Classical.byContradiction fun hne => hr ⟨n, m, k, hs, hn, hm, hne⟩

variable [DecidableEq ν]

theorem Kept.release (h : v.Kept g) (hr : ¬ v.Retaken g) (name : ν) :
    (v.release name).Kept (g.forget (v.release name)) := by
  constructor
  · intro k m hk
    exact ((g.opener_forget).mp hk).1
  · intro k m hk
    obtain ⟨he, ho⟩ := (g.opener_forget).mp hk
    obtain ⟨t, ht⟩ := Option.ne_none_iff_exists'.mp he
    have hn := (entry_release.mp ht).1
    have hh := h.held k m ho
    refine holds_release.mpr ⟨?_, hh⟩
    rintro rfl
    exact hn hh
  · intro n k hk
    obtain ⟨hn, hv⟩ := holds_release.mp hk
    rcases h.own n k hv with ho | hs
    · left
      have hm : v.holds name ≠ some k := fun hm => hn (h.holder hr hm ho)
      refine (g.opener_forget).mpr ⟨?_, ho⟩
      rw [entry_release_of_ne hm]
      exact h.live k n ho
    · exact .inr hs
  · intro k m t hk ht
    exact h.told k m t ((g.opener_forget).mp hk).2 (entry_release.mp ht).2

theorem Kept.restart (h : v.Kept g) {name : ν} (hn : v.holds name = none) (event : Event) :
    v.Kept (g.restart name event) := by
  have other {k : TransactionId} {m : ν} (hk : v.holds m = some k) : m ≠ name := by
    rintro rfl
    simp [hn] at hk
  constructor
  · exact h.live
  · exact h.held
  · intro n k hk
    simpa [Ledger.restart, other hk] using h.own n k hk
  · intro k m t hk ht
    have hm := other (h.held k m hk)
    simpa [Ledger.restart, hm] using h.told k m t hk ht

theorem Kept.grant (h : v.Kept g) {name : ν} {event : Event} {id : TransactionId}
    (hn : v.holds name = none) (ha : v.entry id = none) (hh : g.heard name = [event]) :
    (v.acquire name event id).Kept (g.grant name id) := by
  have other {k : TransactionId} {m : ν} (hk : v.holds m = some k) : m ≠ name := by
    rintro rfl
    simp [hn] at hk
  -- An opener is the one of this turn, for the new id, or was there before, for another id.
  have old {k : TransactionId} {m : ν} (hk : (g.grant name id).opener k = some m) :
      k = id ∧ m = name ∨ k ≠ id ∧ g.opener k = some m := by
    by_cases hi : k = id
    · exact .inl ⟨hi, by simpa [Ledger.grant, hi, eq_comm] using hk⟩
    · exact .inr ⟨hi, by simpa [Ledger.grant, hi] using hk⟩
  constructor
  · intro k m hk
    rcases old hk with ⟨rfl, -⟩ | ⟨hi, ho⟩
    · simp
    · rw [entry_acquire_of_ne hi]
      exact h.live k m ho
  · intro k m hk
    rcases old hk with ⟨rfl, rfl⟩ | ⟨hi, ho⟩
    · exact holds_acquire_self
    · have hv := h.held k m ho
      rw [holds_acquire_of_ne (other hv)]
      exact hv
  · intro n k hk
    by_cases hm : n = name
    · subst hm
      rw [holds_acquire_self] at hk
      exact .inl (by simp [Ledger.grant, Option.some.inj hk])
    · rw [holds_acquire_of_ne hm] at hk
      rcases h.own n k hk with ho | hs
      · have hi : k ≠ id := by
          rintro rfl
          exact h.live k n ho ha
        exact .inl (by simpa [Ledger.grant, hi] using ho)
      · exact .inr hs
  · intro k m t hk ht
    rcases old hk with ⟨rfl, rfl⟩ | ⟨hi, ho⟩
    · have hx : (g.grant m k).heard m = [event] := hh
      rw [entry_acquire_self] at ht
      rw [hx, ← Option.some.inj ht]
      exact ((Transaction.tells_start k v.limit v.now).advance event).1
    · rw [entry_acquire_of_ne hi] at ht
      exact h.told k m t ho ht

theorem Kept.work (h : v.Kept g) (hr : ¬ v.Retaken g) (name : ν) (event : Event) :
    (v.work name event).Kept (g.hear name event) := by
  constructor
  · intro k m hk hn
    exact h.live k m hk (entry_work_eq_none.mp hn)
  · exact h.held
  · exact h.own
  · intro k m u hk hu
    by_cases hh : v.holds name = some k
    · obtain rfl := h.holder hr hh hk
      obtain ⟨t, ht, rfl⟩ : ∃ t, v.entry k = some t ∧
          (Engine.advance event (t.touch v.now)).1 = u := by
        simpa [View.work, hh] using hu
      have hx : (g.hear m event).heard m = g.heard m ++ [event] := by simp [Ledger.hear]
      rw [hx]
      exact (((h.told k m t hk ht).touch v.now).advance event).1
    · have hm : m ≠ name := by
        rintro rfl
        exact hh (h.held k m hk)
      have hx : (g.hear name event).heard m = g.heard m := by simp [Ledger.hear, hm]
      rw [hx]
      rw [entry_work_of_ne hh] at hu
      exact h.told k m u hk hu

theorem Kept.sweep (h : v.Kept g) (idle : Nat) :
    (v.sweep idle).Kept ((g.mark v (v.sweep idle)).forget (v.sweep idle)) := by
  constructor
  · intro k m hk
    exact ((Ledger.opener_forget _).mp hk).1
  · intro k m hk
    exact h.held k m ((Ledger.opener_forget _).mp hk).2
  · intro n k hk
    rcases h.own n k hk with ho | hs
    · cases he : (v.sweep idle).entry k with
      | none =>
        right
        have hv : v.holds n = some k := hk
        simp [Ledger.forget, Ledger.mark, hv, ho, he]
      | some t => exact .inl ((Ledger.opener_forget _).mpr ⟨by simp [he], ho⟩)
    · exact .inr (by simp [Ledger.forget, Ledger.mark, hs])
  · intro k m t hk ht
    have ho := ((Ledger.opener_forget _).mp hk).2
    have hv : v.entry k = some t := (Option.filter_eq_some_iff.mp ht).1
    exact h.told k m t ho hv

/-- A ledger that is kept stays so, as long as no id was retaken. -/
theorem Kept.step (h : v.Kept g) (hr : ¬ v.Retaken g) {t : Turn ν} {u : View ν}
    (hs : v.Step t u) : u.Kept (g.note v u t) := by
  cases hs with
  | start name identity => exact h.release hr name
  | finish name => exact h.release hr name
  | refuse name event fresh ho =>
    have hn : (v.release name).holds name = none := by simp [View.release]
    simp only [Ledger.note, ho, if_true, hn]
    exact (h.release hr name).restart hn event
  | acquire name event fresh id ho ha =>
    -- The old transaction goes, then the session is told the event, then it is granted the id.
    have hn : (v.release name).holds name = none := by simp [View.release]
    have hh : ((g.forget (v.release name)).restart name event).heard name = [event] := by
      simp [Ledger.restart]
    have hk := ((h.release hr name).restart hn event).grant hn ha hh
    have he : ((v.release name).acquire name event id).entry id ≠ none := by simp
    simp only [Ledger.note, ho, if_true, holds_acquire_self]
    rw [g.forget_grant name event he fun k => entry_acquire_of_ne]
    exact hk
  | work name event fresh ho =>
    have hk := h.work hr name event
    simp only [Ledger.note, ho, Bool.false_eq_true, if_false]
    rw [Ledger.forget_of_live _ hk.live]
    exact hk
  | pass time =>
    have hk : (v.pass time).Kept g := ⟨h.live, h.held, h.own, h.told⟩
    simp only [Ledger.note]
    rw [Ledger.forget_of_live _ hk.live]
    exact hk
  | sweep idle => exact h.sweep idle

theorem Kept.untouched (h : v.Kept g) (hr : ¬ v.Retaken g) {t : Turn ν} {u : View ν}
    (hs : v.Step t u) {n m : ν} {k : TransactionId} (hn : t.name? = some n)
    (hk : g.opener k = some m) (hm : m ≠ n) : u.entry k = v.entry k := by
  have hh : v.holds n ≠ some k := fun hh => hm (h.holder hr hh hk)
  have released : (v.release n).entry k = v.entry k := entry_release_of_ne hh
  cases hs with
  | start name identity => obtain rfl : name = n := Option.some.inj hn; exact released
  | finish name => obtain rfl : name = n := Option.some.inj hn; exact released
  | refuse name event fresh ho => obtain rfl : name = n := Option.some.inj hn; exact released
  | acquire name event fresh id ho ha =>
    obtain rfl : name = n := Option.some.inj hn
    have hi : k ≠ id := by
      rintro rfl
      exact h.live k m hk (released.symm.trans ha)
    exact (entry_acquire_of_ne hi).trans released
  | work name event fresh ho =>
    obtain rfl : name = n := Option.some.inj hn
    exact entry_work_of_ne hh
  | pass time => contradiction
  | sweep idle => contradiction

end View

/-- A turn that may take the transaction of a session away: the session ends or starts over, or it
is a sweep. -/
def Turn.Ends (name : ν) : Turn ν → Prop
  | .start n _ => n = name
  | .event n e _ => n = name ∧ e.opens = true
  | .finish n => n = name
  | .advance _ => False
  | .sweep _ => True

theorem View.Kept.ends [DecidableEq ν] {v u : View ν} {g : Ledger ν} (h : v.Kept g)
    (hr : ¬ v.Retaken g) {t : Turn ν} (hs : v.Step t u) {m : ν} {k : TransactionId}
    (hk : g.opener k = some m) (hu : u.entry k = none) : t.Ends m := by
  have hv := h.live k m hk
  have released {name : ν} (he : (v.release name).entry k = none) : name = m := by
    by_cases hh : v.holds name = some k
    · exact (h.holder hr hh hk).symm
    · exact absurd ((View.entry_release_of_ne hh).symm.trans he) hv
  cases hs with
  | start name identity => exact released hu
  | finish name => exact released hu
  | refuse name event fresh ho => exact ⟨released hu, ho⟩
  | acquire name event fresh id ho ha =>
    by_cases hi : k = id
    · simp [hi] at hu
    · exact ⟨released ((View.entry_acquire_of_ne hi).symm.trans hu), ho⟩
  | work name event fresh ho => exact absurd (View.entry_work_eq_none.mp hu) hv
  | pass time => exact absurd hu hv
  | sweep idle => trivial

structure Watched (ν : Type) where
  world : Shared ν
  ledger : Ledger ν

namespace Watched

variable [DecidableEq ν] (service : Service)

def start (s : Store) : Watched ν := ⟨.idle s, .empty⟩

def take (g : Watched ν) (t : Turn ν) : Watched ν :=
  ⟨(g.world.take service t).1, g.ledger.note g.world.view (g.world.take service t).1.view t⟩

def after (g : Watched ν) (turns : List (Turn ν)) : Watched ν := turns.foldl (take service) g

theorem world_after (g : Watched ν) (turns : List (Turn ν)) :
    (g.after service turns).world = g.world.after service turns := by
  induction turns generalizing g with
  | nil => rfl
  | cons t rest ih => exact ih (g.take service t)

def Retaken (g : Watched ν) : Prop := g.world.view.Retaken g.ledger

/-- A turn respects who opened what: a session changes and removes no entry but its own, bodies are
made of what their own sessions sent, and an entry goes only with its session or in a sweep. -/
structure Respects (g : Watched ν) (t : Turn ν) : Prop where
  untouched : ∀ n m k, t.name? = some n → g.ledger.opener k = some m → m ≠ n →
    (g.take service t).world.view.entry k = g.world.view.entry k
  bytes : ∀ k m x, (g.take service t).ledger.opener k = some m →
    (g.take service t).world.view.entry k = some x →
    x.buffer.bytes <+: (Event.chunks ((g.take service t).ledger.heard m)).flatten
  ends : ∀ k m, g.ledger.opener k = some m → (g.take service t).world.view.entry k = none →
    t.Ends m

theorem kept_start (s : Store) : (start s : Watched ν).world.view.Kept (start s).ledger := by
  have ho : ∀ k, (start s : Watched ν).ledger.opener k = none := fun k => rfl
  constructor
  · intro k m hk
    simp [ho] at hk
  · intro k m hk
    simp [ho] at hk
  · intro n k hk
    simp [start] at hk
  · intro k m t hk
    simp [ho] at hk

theorem live_after {g : Watched ν}
    (h : ∀ k m, g.ledger.opener k = some m → g.world.view.entry k ≠ none) (turns : List (Turn ν)) :
    ∀ k m, (g.after service turns).ledger.opener k = some m →
      (g.after service turns).world.view.entry k ≠ none := by
  induction turns generalizing g with
  | nil => exact h
  | cons t rest ih => exact ih fun k m hk => Ledger.live_note _ hk

theorem not_respects_of_retaken {g : Watched ν}
    (h : ∀ k m, g.ledger.opener k = some m → g.world.view.entry k ≠ none) (hr : g.Retaken) :
    ∃ n, ¬ g.Respects service (.finish n) := by
  obtain ⟨n, m, k, _, hn, hm, hne⟩ := hr
  refine ⟨n, fun hg => h k m hm ?_⟩
  have hu := hg.untouched n m k rfl hm hne
  have hv : (g.take service (.finish n)).world.view = g.world.view.release n :=
    g.world.view_finish n
  rw [← hu, hv]
  simp [View.release, hn]

variable {service}

theorem kept_take {g : Watched ν} (h : g.world.view.Kept g.ledger) (hr : ¬ g.Retaken)
    (t : Turn ν) : (g.take service t).world.view.Kept (g.take service t).ledger :=
  h.step hr (g.world.step_take service t)

theorem kept_after {g : Watched ν} (h : g.world.view.Kept g.ledger) (turns : List (Turn ν))
    (hr : ∀ before, before <+: turns → ¬ (g.after service before).Retaken) :
    (g.after service turns).world.view.Kept (g.after service turns).ledger := by
  induction turns generalizing g with
  | nil => exact h
  | cons t rest ih =>
    apply ih (kept_take h (hr [] List.nil_prefix) t)
    intro before hb
    exact hr (t :: before) ((List.prefix_cons_inj t).mpr hb)

theorem respects_of_kept {g : Watched ν} (h : g.world.view.Kept g.ledger) (hr : ¬ g.Retaken)
    (t : Turn ν) : g.Respects service t := by
  have hs := g.world.step_take service t
  constructor
  · intro n m k hn hk hm
    exact h.untouched hr hs hn hk hm
  · intro k m x hk hx
    exact ((kept_take h hr t).told k m x hk hx).buffer.bytes_prefix_flatten
  · intro k m hk hu
    exact h.ends hr hs hk hu

/-- A run respects who opened what, whatever turn it goes on with at any point, exactly if in it no
id is ever retaken. -/
theorem respects_iff_not_retaken (service : Service) (s : Store) (turns : List (Turn ν)) :
    (∀ before, before <+: turns → ∀ t, ((start s).after service before).Respects service t) ↔
      ∀ before, before <+: turns → ¬ ((start s).after service before).Retaken := by
  constructor
  · intro h before hb hr
    have hl := live_after service (kept_start s).live before
    obtain ⟨n, hn⟩ := not_respects_of_retaken service hl hr
    exact hn (h before hb (.finish n))
  · intro h before hb t
    have hk := kept_after (kept_start s) before fun earlier he => h earlier (he.trans hb)
    exact respects_of_kept hk (h before hb) t

/-- One client names an id; it is swept out; another client names the same id. The end of the first
one's session then takes away the transaction of the second. -/
theorem ownership_lost :
    let service : Service := ⟨⟨fun _ => .ok .empty, true, .skip⟩, ⟨false, "x-request-id"⟩⟩
    let headers : Event := .headers .request ⟨[⟨"x-request-id", "x"⟩], false⟩
    let turns : List (Turn Bool) :=
      [.start true none, .start false none, .event true headers ⟨"f"⟩, .advance 10, .sweep 5,
        .event false headers ⟨"g"⟩]
    let g := (start (.empty 8)).after service turns
    g.ledger.opener ⟨"x"⟩ = some false ∧ g.world.view.entry ⟨"x"⟩ ≠ none ∧
      (g.take service (.finish true)).world.view.entry ⟨"x"⟩ = none ∧
      ¬ g.Respects service (.finish true) := by
  intro service headers turns g
  have ho : g.ledger.opener ⟨"x"⟩ = some false := by decide +kernel
  have he : g.world.view.entry ⟨"x"⟩ ≠ none := by decide +kernel
  have hu : (g.take service (.finish true)).world.view.entry ⟨"x"⟩ = none := by decide +kernel
  refine ⟨ho, he, hu, fun h => he ?_⟩
  rw [← h.untouched true false ⟨"x"⟩ rfl ho (by decide)]
  exact hu

end Watched

end BodyCallout
