import BodyCallout.Proofs.Store.Conservation
import BodyCallout.Store.Sweeper

/-!
When transactions are evicted. A store is worked on while a sweeper ticks over it; beside it goes a
record of when each transaction was last accessed. A transaction is live exactly until the first
tick that finds it idle for longer than allowed.
-/

set_option autoImplicit false

namespace BodyCallout

namespace Store

variable (s : Store) (keep : Transaction → Bool)

theorem evict_of_kept (h : (s.live.filter fun _ t => keep t) = s.live) : s.evict keep = (s, 0) := by
  obtain ⟨limit, now, live, journal⟩ := s
  simp [evict, h, size]

theorem evict_evict : (s.evict keep).1.evict keep = ((s.evict keep).1, 0) := by
  apply evict_of_kept
  rw [live_evict]
  apply Table.ext
  simp [Table.filter]

def touched? (k : TransactionId) : Option Nat := (s.live.get? k).map Transaction.touched

section Touched

variable {s} {k id : TransactionId}

theorem touched?_insert (h : s.live.get? id = none) :
    (s.insert id).touched? k = if id = k then some s.now else s.touched? k := by
  by_cases hk : id = k
  · subst hk
    simp [touched?, get?_insert_self h, Transaction.start]
  · simp [touched?, get?_insert_of_ne s (Ne.symm hk), hk]

theorem touched?_update {α : Type} {f : Transaction → Transaction × α}
    (hf : ∀ t, (f t).1.touched = t.touched) :
    (s.update id f).1.touched? k =
      if s.contains id ∧ id = k then some s.now else s.touched? k := by
  by_cases hk : id = k
  · subst hk
    cases h : s.live.get? id <;>
      simp [touched?, get?_update_self, contains_eq, h, hf, Transaction.touch]
  · simp [touched?, get?_update_of_ne s id f (Ne.symm hk), hk]

theorem touched?_access :
    (s.access id).1.touched? k =
      if s.contains id ∧ id = k then some s.now else s.touched? k :=
  touched?_update fun _ => rfl

theorem touched?_delete :
    (s.delete id).1.touched? k = if id = k then none else s.touched? k := by
  by_cases hk : id = k
  · subst hk
    simp [touched?, get?_delete_self]
  · simp [touched?, get?_delete_of_ne s (Ne.symm hk), hk]

theorem touched?_evict :
    (s.evict keep).1.touched? k = ((s.live.get? k).filter keep).map Transaction.touched := by
  rw [touched?, get?_evict]

theorem isSome_update {α : Type} (f : Transaction → Transaction × α) :
    (s.update id f).2.isSome = s.contains id := by
  cases h : s.live.get? id with
  | none => simp [update_of_absent f h, contains_eq, h]
  | some t => simp [update_of_live f h, contains_eq, h]

end Touched

end Store

namespace Engine

theorem touched_advance (event : Event) (t : Transaction) :
    (advance event t).1.touched = t.touched := by
  have hf (u : Transaction) : u.freeze.touched = u.touched := by
    unfold Transaction.freeze; split <;> rfl
  have hc (u : Transaction) : u.claim.1.touched = u.touched := by
    unfold Transaction.claim; split <;> rfl
  have ha : (apply event t).1.touched = t.touched := by
    rcases event with ⟨⟨⟩, p⟩ | ⟨⟨⟩, p⟩ | ⟨⟨⟩, p⟩
    case headers.request =>
      cases hl : p.last <;> simp [apply, Transaction.requestHeaders, Transaction.freezeIf, hl, hf]
    case body.request =>
      rw [fst_apply_body]
      cases hw : t.awaiting with
      | false => rw [Transaction.append_of_frozen _ _ hw]
      | true =>
        rw [Transaction.fst_append_of_awaiting _ _ hw]
        cases hl : p.last <;> simp [Transaction.freezeIf, hf, Transaction.intake]
    case trailers.request => simp [apply, Transaction.markTrailers, hf]
    all_goals rfl
  cases h : claims event with
  | true => rw [advance_of_claims h, hc, ha]
  | false => rw [advance_of_not_claims h]

theorem touched?_process (e : Engine) (id : TransactionId) (event : Event) (s : Store)
    (k : TransactionId) :
    (e.process (some id) event s).1.touched? k =
      if s.contains id ∧ id = k then some s.now else s.touched? k := by
  by_cases hk : id = k
  · subst hk
    cases h : s.live.get? id <;>
      simp [Store.touched?, get?_process_self, Store.contains_eq, h, touched_advance,
        Transaction.touch]
  · simp [Store.touched?, get?_process_of_ne e event s id (Ne.symm hk), hk]

end Engine

namespace Operation

/-- Whether an operation is an access to the transaction `k`: it puts it in, or it finds it. To be
refused an id that is live is none. -/
def accesses (s : Store) (k : TransactionId) (o : Operation) : Bool :=
  match o with
  | call (.create _) => o.inserted s = some k
  | call (.getOrCreate id) => id = k
  | call (.access id) => (s.access id).2.isSome && id = k
  | update id f => (s.update id f).2.isSome && id = k
  | call (.process _ (some id) _) => s.contains id && id = k
  | _ => false

/-- Neither the clock nor a sweep; and a change leaves the time of the last access alone. -/
def Plain : Operation → Prop
  | update _ f => ∀ t, (f t).1.touched = t.touched
  | call (.sweep _) => False
  | call (.sweepBefore _) => False
  | call (.advance _) => False
  | _ => True

variable {s : Store} {o : Operation}

theorem touched?_run (h : o.Plain) (k : TransactionId) :
    (o.run s).touched? k =
      if o.accesses s k then some s.now
      else if o.deleted s = some k then none
      else s.touched? k := by
  cases o with
  | update id f =>
    simp [run, accesses, deleted, Store.touched?_update h, Store.isSome_update]
  | call c =>
    cases c with
    | create id =>
      cases hl : s.live.get? id with
      | none =>
        have hc := Store.create_of_absent hl
        simp [run, Call.run, accesses, inserted, deleted, hc, Store.touched?_insert hl]
      | some t =>
        have hc := Store.create_of_live hl
        simp [run, Call.run, accesses, inserted, deleted, hc]
    | getOrCreate id =>
      cases hl : s.live.get? id with
      | none =>
        simp [run, Call.run, accesses, deleted, s.getOrCreate_of_absent hl,
          Store.touched?_insert hl]
      | some t =>
        simp [run, Call.run, accesses, deleted, s.getOrCreate_of_live hl, Store.touched?_access,
          Store.contains_eq, hl]
    | access id =>
      -- An access that finds nothing leaves no trace.
      have hi : (s.access id).2.isSome = s.contains id := Store.isSome_update _
      simp [run, Call.run, accesses, deleted, Store.touched?_access, hi]
    | delete id =>
      cases hl : s.live.get? id with
      | none =>
        have hd : deleted s (call (.delete id)) = none := by simp [deleted, s.delete_of_absent hl]
        simp [run, Call.run, accesses, hd, s.delete_of_absent hl]
      | some t =>
        have hd : deleted s (call (.delete id)) = some id := by simp [deleted, Store.delete, hl]
        simp [run, Call.run, accesses, hd, Store.touched?_delete]
    | process e id event =>
      cases id with
      | none => simp [run, Call.run, accesses, deleted]; rfl
      | some id => simp [run, Call.run, accesses, deleted, e.touched?_process]
    | _ => exact h.elim

theorem now_run (h : o.Plain) : (o.run s).now = s.now := by
  cases o with
  | update id f => exact s.now_update id f
  | call c =>
    cases c with
    | create id => simp only [run, Call.run, Store.create]; split <;> rfl
    | getOrCreate id =>
      simp only [run, Call.run, Store.getOrCreate]; split
      · exact s.now_update id _
      · rfl
    | access id => exact s.now_update id _
    | delete id => exact s.now_delete id
    | process e id event => exact e.now_process event s id
    | _ => exact h.elim

end Operation

/-- A store with the sweeper that ticks over it, and when each transaction that was not taken out
was last accessed. -/
structure Tended where
  sweeper : Sweeper
  store : Store
  accessed : TransactionId → Option Nat

/-- What can happen to it. The clock goes on, through every tick that falls due; or it goes on as
far as the next tick at most, which is not taken yet. -/
inductive Moment : Type 1 where
  | sleep (time : Nat)
  | approach (time : Nat)
  | operate (o : Operation)

def Moment.Plain : Moment → Prop
  | .operate o => o.Plain
  | _ => True

namespace Tended

def start (grain idle interval : Nat) (s : Store) : Tended :=
  ⟨.start grain idle interval s.now, s, s.touched?⟩

def note (w : Tended) (o : Operation) (k : TransactionId) : Option Nat :=
  if o.accesses w.store k then some w.store.now
  else if o.deleted w.store = some k then none
  else w.accessed k

def run (w : Tended) : Moment → Tended
  | .sleep time =>
    let (sweeper, store) := w.sweeper.sleep time w.store
    { w with sweeper := sweeper, store := store }
  | .approach time =>
    if w.store.now + time ≤ w.sweeper.due then { w with store := w.store.advance time } else w
  | .operate o => { w with store := o.run w.store, accessed := w.note o }

def after (w : Tended) (moments : List Moment) : Tended := moments.foldl run w

end Tended

def tickTime (start interval n : Nat) : Nat := start + (n + 1) * interval

structure Sweeper.OnTime (start idle interval n : Nat) (w : Sweeper) (now : Nat) : Prop where
  idle_eq : w.idle = idle
  interval_eq : w.interval = interval
  grain_dvd : w.grain ∣ start ∧ w.grain ∣ interval
  next : w.next = tickTime start interval n
  taken : ∀ i < n, tickTime start interval i ≤ now
  due : now ≤ tickTime start interval n

/-- What is live are the transactions that were idle for longer than allowed at none of the first
`n` ticks. -/
def Spared (start idle interval n : Nat) (accessed : TransactionId → Option Nat) (s : Store) :
    Prop :=
  ∀ k a, s.touched? k = some a ↔
    accessed k = some a ∧ ∀ i < n, tickTime start interval i ≤ a + idle

namespace Sweeper

variable {start idle interval n now : Nat} {w : Sweeper}

theorem OnTime.due_eq (h : w.OnTime start idle interval n now) :
    w.due = tickTime start interval n := by
  have hd : w.grain ∣ w.next := by
    rw [h.next]
    exact Nat.dvd_add h.grain_dvd.1 (Nat.dvd_mul_left_of_dvd h.grain_dvd.2 _)
  rw [Sweeper.due, Nat.mod_eq_zero_of_dvd hd, Nat.sub_zero, Nat.mod_self, Nat.add_zero, h.next]

theorem tickTime_succ (start interval n : Nat) :
    tickTime start interval (n + 1) = tickTime start interval n + interval := by
  simp only [tickTime, Nat.succ_mul]
  omega

theorem tickTime_mono (start interval : Nat) {m n : Nat} (h : m ≤ n) :
    tickTime start interval m ≤ tickTime start interval n :=
  Nat.add_le_add_left (Nat.mul_le_mul_right interval (Nat.succ_le_succ h)) start

theorem OnTime.tick (h : w.OnTime start idle interval n now) :
    (w.reschedule (tickTime start interval n)).OnTime start idle interval (n + 1)
      (tickTime start interval n) where
  idle_eq := h.idle_eq
  interval_eq := h.interval_eq
  grain_dvd := h.grain_dvd
  next := by
    have hl : ¬ w.next + lateness < tickTime start interval n := by rw [h.next]; omega
    rw [reschedule, if_neg hl, h.next, h.interval_eq, tickTime_succ]
  taken i hi := tickTime_mono start interval (Nat.le_of_lt_succ hi)
  due := tickTime_mono start interval (Nat.le_succ n)

variable {accessed : TransactionId → Option Nat} {s : Store}

theorem spared_sweep (h : Spared start idle interval n accessed s) :
    Spared start idle interval (n + 1) accessed
      ({ s with now := tickTime start interval n }.sweep idle).1 := by
  intro k a
  have ht : ({ s with now := tickTime start interval n }.sweep idle).1.touched? k = some a ↔
      s.touched? k = some a ∧ tickTime start interval n ≤ a + idle := by
    rw [Store.sweep, Store.touched?_evict, Store.touched?]
    cases s.live.get? k with
    | none => simp
    | some t =>
      by_cases hk : tickTime start interval n ≤ t.touched + idle
      · rw [Option.filter_some_pos (by simpa using hk)]
        simp only [Option.map_some, Option.some.injEq]
        exact ⟨fun ha => ⟨ha, ha ▸ hk⟩, fun ha => ha.1⟩
      · rw [Option.filter_some_neg (by simpa using hk)]
        simp only [Option.map_none, Option.map_some, Option.some.injEq, reduceCtorEq, false_iff]
        exact fun ha => hk (ha.1 ▸ ha.2)
  rw [ht, h k a, Nat.forall_lt_succ_right, and_assoc]

theorem onTime_runTo (hi : 0 < interval) (target : Nat) (h : w.OnTime start idle interval n s.now)
    (hs : Spared start idle interval n accessed s) :
    ∃ m, (w.runTo target s).1.OnTime start idle interval m (w.runTo target s).2.now ∧
      Spared start idle interval m accessed (w.runTo target s).2 := by
  fun_induction runTo target w s generalizing n with
  | case1 w s ht time =>
    rename_i ih
    -- The clock has not gone past the tick yet, so the tick is taken at its time.
    have hm : time = tickTime start interval n := by
      have hd := h.due
      rw [← h.due_eq] at hd ⊢
      exact Nat.max_eq_right hd
    rw [h.idle_eq, hm] at ih ⊢
    apply ih
    · rw [Store.sweep, Store.now_evict]
      exact h.tick
    · exact spared_sweep hs
  | case2 w s ht =>
    refine ⟨n, ?_, hs⟩
    have hd : ¬ w.due ≤ target := fun hd => ht ⟨h.interval_eq ▸ hi, hd⟩
    rw [h.due_eq] at hd
    exact { h with
      taken := fun i hj => Nat.le_trans (h.taken i hj) (Nat.le_max_left _ _)
      due := Nat.max_le.mpr ⟨h.due, by omega⟩ }

end Sweeper

namespace Tended

/-- After `n` ticks, all taken at their times, a transaction is live exactly if it was put in, was
not taken out since, and was at none of the ticks idle for longer than allowed. -/
structure Punctual (start idle interval n : Nat) (w : Tended) : Prop where
  onTime : w.sweeper.OnTime start idle interval n w.store.now
  spared : Spared start idle interval n w.accessed w.store

variable {start idle interval n : Nat} {w : Tended}

theorem Punctual.operate (h : w.Punctual start idle interval n) {o : Operation} (ho : o.Plain) :
    (w.run (.operate o)).Punctual start idle interval n := by
  have hn : (w.run (.operate o)).store.now = w.store.now := Operation.now_run ho
  refine ⟨hn ▸ h.onTime, fun k a => ?_⟩
  have ht : (w.run (.operate o)).store.touched? k = _ := Operation.touched?_run ho k
  have ha : (w.run (.operate o)).accessed k = w.note o k := rfl
  rw [ht, ha, note]
  split
  · -- No tick that was taken is later than now.
    have hs : ∀ i < n, tickTime start interval i ≤ w.store.now + idle := fun i hi =>
      Nat.le_add_right_of_le (h.onTime.taken i hi)
    simp only [Option.some.injEq]
    exact ⟨fun he => ⟨he, he ▸ hs⟩, fun he => he.1⟩
  · split
    · simp
    · exact h.spared k a

theorem Punctual.run (h : w.Punctual start idle interval n) (hi : 0 < interval) {m : Moment}
    (hm : m.Plain) : ∃ n, (w.run m).Punctual start idle interval n := by
  cases m with
  | sleep time =>
    obtain ⟨m, ho, hs⟩ := Sweeper.onTime_runTo hi (w.store.now + time) h.onTime h.spared
    exact ⟨m, ho, hs⟩
  | approach time =>
    refine ⟨n, ?_⟩
    rw [Tended.run]
    split
    · next hd =>
      rw [h.onTime.due_eq] at hd
      have ht (i : Nat) (hi : i < n) : tickTime start interval i ≤ w.store.now + time :=
        Nat.le_add_right_of_le (h.onTime.taken i hi)
      exact ⟨{ h.onTime with taken := ht, due := hd }, h.spared⟩
    · exact h
  | operate o => exact ⟨n, h.operate hm⟩

theorem Punctual.after (h : w.Punctual start idle interval n) (hi : 0 < interval)
    {moments : List Moment} (hm : ∀ m ∈ moments, m.Plain) :
    ∃ n, (w.after moments).Punctual start idle interval n := by
  induction moments generalizing w n with
  | nil => exact ⟨n, h⟩
  | cons m rest ih =>
    obtain ⟨n', h'⟩ := h.run hi (hm m (List.mem_cons_self ..))
    exact ih h' fun x hx => hm x (List.mem_cons_of_mem _ hx)

theorem punctual_start {grain : Nat} {s : Store} (hg : grain ∣ s.now) (hd : grain ∣ interval)
    (idle : Nat) : (Tended.start grain idle interval s).Punctual s.now idle interval 0 := by
  refine ⟨⟨rfl, rfl, ⟨hg, hd⟩, ?_, nofun, ?_⟩, fun k a => ?_⟩
  · simp [Tended.start, Sweeper.start, tickTime]
  · exact Nat.le_add_right _ _
  · simp [Tended.start]

theorem Punctual.contains_iff (h : w.Punctual start idle interval n) (k : TransactionId) :
    w.store.contains k = true ↔
      ∃ a, w.accessed k = some a ∧ ∀ i < n, tickTime start interval i ≤ a + idle := by
  simp only [← h.spared k, Store.contains_eq, Store.touched?, Option.map_eq_some_iff,
    Option.isSome_iff_exists]
  constructor
  · rintro ⟨t, ht⟩
    exact ⟨t.touched, t, ht, rfl⟩
  · rintro ⟨_, t, ht, -⟩
    exact ⟨t, ht⟩

/-- However a store is worked on while a sweeper ticks over it: a transaction that is not taken out
goes at the first tick that finds it idle for longer than allowed, and not before or otherwise. So
it stays as long as it is accessed often enough, and an abandoned one is gone an interval after it
became idle. -/
theorem live_until_first_idle_tick (grain idle interval : Nat) (hi : 0 < interval) (s : Store)
    (hg : grain ∣ s.now) (hd : grain ∣ interval) (moments : List Moment)
    (hm : ∀ m ∈ moments, m.Plain) :
    let w := (Tended.start grain idle interval s).after moments
    (∃ n, w.sweeper.next = tickTime s.now interval n ∧
      (∀ i < n, tickTime s.now interval i ≤ w.store.now) ∧
      w.store.now ≤ tickTime s.now interval n ∧
      ∀ k a, (∃ t, w.store.live.get? k = some t ∧ t.touched = a) ↔
        w.accessed k = some a ∧ ∀ i < n, tickTime s.now interval i ≤ a + idle) ∧
    (∀ k a, w.accessed k = some a → w.store.now ≤ a + idle → w.store.contains k = true) ∧
    (∀ k a, w.accessed k = some a → s.now ≤ a → a + idle + interval < w.store.now →
      w.store.contains k = false) ∧
    ∀ u : Store, (u.sweep idle).1.sweep idle = ((u.sweep idle).1, 0) ∧
      ∀ k t, (u.sweep idle).1.live.get? k = some t → u.live.get? k = some t := by
  intro w
  obtain ⟨n, h⟩ := (punctual_start hg hd idle).after hi hm
  have ho := h.onTime
  refine ⟨⟨n, ho.next, ho.taken, ho.due, fun k a => ?_⟩, fun k a ha hn => ?_,
    fun k a ha hs hn => ?_, fun u => ⟨?_, fun k t ht => ?_⟩⟩
  · rw [← h.spared k a, Store.touched?, Option.map_eq_some_iff]
  · exact (h.contains_iff k).mpr ⟨a, ha, fun i hi => Nat.le_trans (ho.taken i hi) hn⟩
  · -- The last tick that was taken came less than an interval ago.
    rw [← Bool.not_eq_true, h.contains_iff]
    rintro ⟨b, hb, hl⟩
    obtain rfl : a = b := Option.some.inj (ha.symm.trans hb)
    have hdue : w.store.now ≤ tickTime s.now interval n := ho.due
    cases n with
    | zero => simp only [tickTime] at hdue; omega
    | succ n =>
      have hlast := hl n (Nat.lt_succ_self n)
      rw [Sweeper.tickTime_succ] at hdue
      omega
  · rw [Store.sweep, Store.sweep, Store.now_evict]
    exact u.evict_evict _
  · rw [Store.sweep, Store.get?_evict] at ht
    exact (Option.filter_eq_some_iff.mp ht).1

/-- The transaction is accessed once more at the very time of a tick, but before it; it is swept out
by the second tick after that. -/
theorem abandoned_is_gone :
    let s : Store := { Store.empty 8 with now := 100 }
    let a : TransactionId := ⟨"a"⟩
    let moments : List Moment :=
      [.operate (.call (.create a)), .sleep 30, .operate (.call (.access a)), .approach 10,
        .operate (.update a fun t => (t.recordResponse ⟨[], true⟩, ())), .sleep 60]
    let w := (Tended.start 10 25 20 s).after moments
    0 < 20 ∧ 10 ∣ s.now ∧ 10 ∣ 20 ∧ (∀ m ∈ moments, m.Plain) ∧ w.accessed a = some 140 ∧
      w.store.now = 200 ∧ w.store.contains a = false := by
  intro s a moments w
  have hm : ∀ m ∈ moments, m.Plain := by
    simp [moments, Moment.Plain, Operation.Plain, Transaction.recordResponse]
  have ha : w.accessed a = some 140 := by decide +kernel
  have hn : w.store.now = 200 := by decide +kernel
  refine ⟨by decide, by decide, by decide, hm, ha, hn, ?_⟩
  have h := live_until_first_idle_tick 10 25 20 (by decide) s (by decide) (by decide) moments hm
  exact h.2.2.1 a 140 ha (by decide) (by rw [hn]; decide)

end Tended

end BodyCallout
