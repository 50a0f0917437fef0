import Mathlib.Algebra.Ring.Nat
import Mathlib.Data.List.Nodup
import Mathlib.Data.List.Perm.Subperm
import BodyCallout.Proofs.Service.Demultiplexing
import BodyCallout.Proofs.Service.Lasting
import BodyCallout.Proofs.Service.Serving
import BodyCallout.Proofs.Session.Calls

/-!
How many transactions a connection has in the store. A number is free again as soon as its stream is
told its last, but the session of the stream has its transaction until it takes that item. So the
transactions are no more than the numbers that may be open and the streams that are on their way
out.
-/

set_option autoImplicit false

namespace BodyCallout

namespace Table

variable {κ α β : Type} [DecidableEq κ]

theorem size_le_of_get? {t : Table κ α} {u : Table κ β}
    (h : ∀ k a, t.get? k = some a → (u.get? k).isSome) : t.size ≤ u.size := by
  have hs : t.keys ⊆ u.keys := fun k hk => by
    rw [mem_keys_iff, contains, Option.isSome_iff_exists] at hk
    obtain ⟨a, ha⟩ := hk
    rw [mem_keys_iff]
    exact h k a ha
  have hl := (List.subperm_of_subset t.distinct hs).length_le
  simpa [keys, size] using hl

end Table

/-- The stream was told its last, and its session has yet to take that. -/
def StreamTask.leaving (t : StreamTask) : Bool := t.stage = .running && t.inbox.any Item.ends

namespace Connection

def leaving (c : Connection) : Nat := (c.tasks.entries.filter fun e => e.2.leaving).length

variable {service : Service} {number max : Nat} {c : Connection} {s : Store} {k : TransactionId}

def Held (c : Connection) (k : TransactionId) : Prop :=
  ∃ g t, c.tasks.get? g = some t ∧ t.stage = .running ∧ t.session.current = some k

theorem Lasts.held {d : Connection} (h : c.Lasts d) (hk : c.Held k) : d.Held k := by
  obtain ⟨g, t, ht, hr, hc⟩ := hk
  obtain ⟨u, hu, hr, hs, -⟩ := h g t ht hr
  exact ⟨g, u, hu, hr, (congrArg Session.current hs).trans hc⟩

/-- What is held, or is opened by the step, is held after the step, or is gone. -/
theorem held_step (hf : c.Filed number) {a : Act}
    (hk : c.Held k ∨ c.opens? service s a = some k)
    (hl : (c.step service s a).2.live.get? k ≠ none) : (c.step service s a).1.Held k := by
  have ht := c.turned_step service s a
  generalize c.step service s a = w at ht hl ⊢
  cases ht with
  | rested a d u hn hd => exact (hd hf.absent_opened).held (hk.resolve_right (by simp [hn]))
  | worked g fresh t ht =>
    have worked (hr : t.stage = .running)
        (hc : t.session.current = some k ∨ t.opens? service fresh s = some k) :
        (c.setTask g (t.work service fresh s).1).Held k := by
      obtain ⟨hr, hc⟩ := StreamTask.current_work hr hc hl
      exact ⟨g, _, get?_setTask_self ht _, hr, hc⟩
    rcases hk with ⟨h, u, hu, hr, hc⟩ | ho
    · by_cases hg : h = g
      · subst hg
        obtain rfl : t = u := Option.some.inj (ht.symm.trans hu)
        exact worked hr (.inl hc)
      · exact ⟨h, u, (get?_setTask_of_ne hg _).trans hu, hr, hc⟩
    · have ho : t.opens? service fresh s = some k := by simpa [opens?, ht] using ho
      exact worked (StreamTask.running_of_opens? ho) (.inr ho)

/-- No step puts anything in the store but what it opens. -/
theorem opens?_of_new {a : Act} (ha : s.live.get? k = none)
    (hl : (c.step service s a).2.live.get? k ≠ none) : c.opens? service s a = some k := by
  have ht := c.turned_step service s a
  generalize c.step service s a = w at ht hl
  cases ht with
  | rested a d u _ _ hs => exact absurd ha (hs ▸ hl)
  | worked g fresh t ht => simpa [opens?, ht] using StreamTask.opens?_of_new ha hl

/-- The numbers are no more than allowed, and every session at work has its place. -/
structure Housed (number max : Nat) (c : Connection) : Prop where
  filed : c.Filed number
  maxStreams : c.maxStreams = max
  size : c.streams.size ≤ max
  placed : ∀ g t, c.tasks.get? g = some t → t.stage = .running → c.Placed g t

theorem housed_start (number max : Nat) : (start number max).Housed number max :=
  ⟨filed_start number max, rfl, Nat.zero_le max, fun _ _ => nofun⟩

theorem maxStreams_step (a : Act) : (c.step service s a).1.maxStreams = c.maxStreams := by
  by_cases hd : a = .drain
  · subst hd
    rfl
  by_cases hb : a = .breakOff
  · subst hb
    rw [step, breakOff]
    split <;> rfl
  · exact congrArg (·.2.1) (fixed_step hd hb service s)

theorem size_lt_of_opens {stream : UInt64} {event : Event}
    (he : (c.step service s (.frame (.message stream event))).1 =
      c.openStream stream (.event event))
    (hs : c.streams.get? stream = none) : c.streams.size < c.maxStreams := by
  by_contra hn
  have hd : (c.dispatch (.message stream event)).opened = c.opened := by
    have hm : c.maxStreams ≤ c.streams.size := Nat.le_of_not_lt hn
    have hr (r : StreamRefusal) : (c.refuse stream r).opened = c.opened :=
      (Within.refuse stream r).opened
    simp only [dispatch, hs, hm, if_true]
    split <;> exact hr _
  have ho := congrArg Connection.opened he
  rw [step, takeFrame] at ho
  split at ho
  · exact absurd ho (Nat.succ_ne_self _).symm
  · exact absurd (hd.symm.trans ho) (Nat.succ_ne_self _).symm

theorem size_step (hc : c.streams.size ≤ c.maxStreams) (a : Act) :
    (c.step service s a).1.streams.size ≤ c.maxStreams := by
  rcases c.step_cases service s a with ⟨stream, event, rfl, hs, he⟩ | ⟨g, fresh, rfl⟩ | hw
  · have hl := size_lt_of_opens he hs
    rw [he, Connection.openStream, Table.size_insert hs]
    exact hl
  · obtain ⟨tasks, he⟩ := work_eq service g fresh c s
    rw [step, he]
    exact hc
  · refine Nat.le_trans (Table.size_le_of_get? fun m g hm => ?_) hc
    exact Option.isSome_of_eq_some (hw.streams m g hm)

theorem Housed.placed_step (h : c.Housed number max) (a : Act) {g : Nat} {u : StreamTask}
    (hu : (c.step service s a).1.tasks.get? g = some u) (hr : u.stage = .running) :
    (c.step service s a).1.Placed g u := by
  have ht := c.turned_step service s a
  have hc := change_step hu
  generalize hw : c.step service s a = w at ht hu ⊢
  -- A session that has worked and is still at work keeps the place it had.
  cases ht with
  | worked k fresh t ht =>
    by_cases hg : g = k
    · subst hg
      rw [get?_setTask_self ht] at hu
      obtain rfl := Option.some.inj hu
      obtain ⟨hs, hi⟩ := StreamTask.any_ends_of_work hr
      exact (h.placed g t ht hs).imp_right hi
    · rw [get?_setTask_of_ne hg] at hu
      exact h.placed g u hu hr
  | rested a d v _ hd =>
    have lasting {t : StreamTask} (ht : c.tasks.get? g = some t) (hs : t.stage = .running) :
        d.Placed g u := by
      obtain ⟨v, hv, -, -, hp⟩ := hd h.filed.absent_opened g t ht hs
      obtain rfl : u = v := Option.some.inj (hu.symm.trans hv)
      exact hp (h.placed g t ht hs)
    cases hc with
    | opened stream event _ hs hg he =>
      subst hg
      rw [hw] at he
      obtain rfl : d = _ := he
      exact .inl ⟨stream, Table.get?_insert_self hs _⟩
    | told t items ht => exact lasting ht hr
    | worked t fresh ht => exact lasting ht (StreamTask.any_ends_of_work hr).1
    | forwarded t answer rest ht => exact lasting ht hr
    | cutOff t ht => exact lasting ht hr
    | reported => cases hr

theorem Housed.step (h : c.Housed number max) (service : Service) (s : Store) (a : Act) :
    (c.step service s a).1.Housed number max where
  filed := h.filed.step service s a
  maxStreams := (maxStreams_step a).trans h.maxStreams
  size := h.maxStreams ▸ size_step (h.maxStreams ▸ h.size) a
  placed _ _ hu hr := h.placed_step a hu hr

/-- The generations of the streams that have a number or are on their way out. -/
def places (c : Connection) : List Nat :=
  c.streams.entries.map Prod.snd ++ (c.tasks.entries.filter fun e => e.2.leaving).map Prod.fst

theorem length_places (c : Connection) : c.places.length = c.streams.size + c.leaving := by
  simp [places, Table.size, leaving]

theorem Housed.mem_places (h : c.Housed number max) {g : Nat} {t : StreamTask}
    (ht : c.tasks.get? g = some t) (hr : t.stage = .running) : g ∈ c.places := by
  rw [places, List.mem_append]
  rcases h.placed g t ht hr with ⟨m, hm⟩ | hi
  · exact .inl (List.mem_map.mpr ⟨(m, g), Table.get?_eq_some_iff.mp hm, rfl⟩)
  · have hl : t.leaving = true := by simp [StreamTask.leaving, hr, hi]
    refine .inr (List.mem_map.mpr ⟨(g, t), List.mem_filter.mpr ⟨?_, hl⟩, rfl⟩)
    exact Table.get?_eq_some_iff.mp ht

/-- No place has two transactions. -/
theorem Housed.length_le (h : c.Housed number max) {ids : List TransactionId} (hn : ids.Nodup)
    (hh : ∀ k ∈ ids, c.Held k) : ids.length ≤ max + c.leaving := by
  let current (g : Nat) : Option TransactionId := (c.tasks.get? g).bind fun t => t.session.current
  have hs : ids ⊆ c.places.filterMap current := fun k hk => by
    obtain ⟨g, t, ht, hr, hc⟩ := hh k hk
    exact List.mem_filterMap.mpr ⟨g, h.mem_places ht hr, by simp [current, ht, hc]⟩
  have hl := (List.subperm_of_subset hn hs).length_le
  have hp := List.length_filterMap_le current c.places
  have hm := h.size
  rw [length_places] at hp
  omega

namespace Move

def opens? (service : Service) (w : Connection × Store) : Move → Option TransactionId
  | act a => w.1.opens? service w.2 a
  | around _ => none

/-- The transactions that the connection has in the store after some moves: to those it had before
come those that its sessions open, and each is one as long as it is live. -/
def holdings (service : Service) :
    List TransactionId → Connection × Store → List Move → List TransactionId
  | ids, _, [] => ids
  | ids, w, m :: rest =>
    holdings service
      (((m.opens? service w).toList ∪ ids).filter (m.take service w).2.contains)
      (m.take service w) rest

section

variable {w : Connection × Store} {ids : List TransactionId}

theorem nodup_holdings (h : ids.Nodup) (moves : List Move) :
    (holdings service ids w moves).Nodup := by
  induction moves generalizing ids w with
  | nil => exact h
  | cons m rest ih => exact ih ((h.union _).filter _)

theorem held_holdings (hw : w.1.Housed number max) (h : ∀ k ∈ ids, w.1.Held k)
    (moves : List Move) :
    ∀ k ∈ holdings service ids w moves, (run service w moves).1.Held k := by
  induction moves generalizing ids w with
  | nil => exact h
  | cons m rest ih =>
    cases m with
    | around f =>
      refine ih (w := (w.1, f w.2)) hw fun k hk => ?_
      obtain ⟨hk, -⟩ := List.mem_filter.mp hk
      exact h k (by simpa [opens?] using hk)
    | act a =>
      refine ih (hw.step service w.2 a) fun k hk => ?_
      obtain ⟨hk, hl⟩ := List.mem_filter.mp hk
      have hl : (w.1.step service w.2 a).2.live.get? k ≠ none := by
        rw [Store.contains_eq] at hl
        exact Option.isSome_iff_ne_none.mp hl
      refine held_step hw.filed ?_ hl
      rw [List.mem_union_iff, Option.mem_toList] at hk
      exact hk.symm.imp_left (h k)

theorem housed_run (hw : w.1.Housed number max) (moves : List Move) :
    (run service w moves).1.Housed number max := by
  induction moves generalizing w with
  | nil => exact hw
  | cons m rest ih =>
    cases m with
    | around f => exact ih (w := (w.1, f w.2)) hw
    | act a => exact ih (hw.step service w.2 a)

end

end Move

end Connection

namespace Store

/-- How many bytes are held for the transaction. -/
def pinned (s : Store) (k : TransactionId) : Nat :=
  match s.live.get? k with
  | some t => t.buffer.size
  | none => 0

structure Tame (s u : Store) : Prop where
  limit : u.limit = s.limit
  sound : Call.Sound s → Call.Sound u

variable {s u v : Store}

namespace Tame

theorem trans (h : s.Tame u) (k : u.Tame v) : s.Tame v :=
  ⟨k.limit.trans h.limit, k.sound ∘ h.sound⟩

theorem of_live (hl : u.limit = s.limit) (he : u.live = s.live) : s.Tame u where
  limit := hl
  sound h := by
    rw [Call.Sound, hl, he]
    exact h

theorem refl (s : Store) : s.Tame s := of_live rfl rfl

theorem call (s : Store) (c : Call) : s.Tame (c.run s) :=
  ⟨c.limit_run s, fun h => Call.sound_run h c⟩

theorem finish (session : Session) (s : Store) : s.Tame (session.finish s).2 := by
  unfold Session.finish
  split
  · exact refl s
  · next id _ => exact call s (.delete id)

theorem handle (service : Service) (event : Event) (fresh : TransactionId) (session : Session)
    (s : Store) : s.Tame (session.handle service event fresh s).2.1 := by
  cases ho : event.opens with
  | false =>
    rw [session.handle_of_not_opens service fresh s ho]
    exact call s (.process service.engine session.current event)
  | true =>
    have hf := finish session s
    rcases session.handle_of_opens service fresh s ho with ⟨d, hd⟩ | ⟨id, source, ha, he⟩
    · rw [hd]
      exact hf
    · have hc : (session.finish s).2.Tame ((session.finish s).2.insert id) := by
        have hc := call (session.finish s).2 (.create id)
        rwa [Call.run, Store.create_of_absent ha] at hc
      have hr : ((session.finish s).2.insert id).Tame
          (((session.finish s).2.insert id).record (.opened source)) := of_live rfl rfl
      rw [he]
      exact ((hf.trans hc).trans hr).trans (call _ (.process service.engine (some id) event))

theorem work (service : Service) (fresh : TransactionId) (t : StreamTask) (s : Store) :
    s.Tame (t.work service fresh s).2 := by
  have ended (t : StreamTask) (fault : Option SessionFault) (u : Store) :
      u.Tame (t.finish fault u).2 :=
    (finish t.session u).trans (of_live rfl rfl)
  have hw := t.worked_work service fresh s
  generalize t.work service fresh s = w at hw ⊢
  cases hw with
  | waits => exact refl s
  | leaves => exact ended t none s
  | answers event rest next u a _ _ hh =>
    have hu := handle service event fresh t.session s
    rwa [hh] at hu
  | fails event rest next u r fault _ _ hh =>
    have hu := handle service event fresh t.session s
    rw [hh] at hu
    exact hu.trans (ended _ _ u)

theorem step (service : Service) (c : Connection) (s : Store) (a : Connection.Act) :
    s.Tame (c.step service s a).2 := by
  have ht := c.turned_step service s a
  generalize c.step service s a = w at ht ⊢
  cases ht with
  | rested a d u _ _ hl hm => exact of_live hm hl
  | worked g fresh t => exact work service fresh t s

end Tame

theorem pinned_le (h : Call.Sound s) (k : TransactionId) : s.pinned k ≤ s.limit := by
  unfold pinned
  split
  · next t ht =>
    obtain ⟨-, hl, hs⟩ := h k t ht
    exact hl ▸ hs.fits
  · exact Nat.zero_le _

theorem sum_pinned_le (h : Call.Sound s) (ids : List TransactionId) :
    (ids.map s.pinned).sum ≤ ids.length * s.limit := by
  induction ids with
  | nil => exact Nat.zero_le _
  | cons k rest ih =>
    have hp := pinned_le h k
    rw [List.map_cons, List.sum_cons, List.length_cons, Nat.succ_mul]
    omega

end Store

namespace Connection.Move

variable {service : Service} {w : Connection × Store} {ids : List TransactionId}
  {moves : List Move}

theorem tame_run (hm : ∀ f, around f ∈ moves → ∀ u : Store, u.Tame (f u)) :
    w.2.Tame (run service w moves).2 := by
  induction moves generalizing w with
  | nil => exact .refl _
  | cons m rest ih =>
    have hr := ih (w := m.take service w) fun f hf => hm f (.tail m hf)
    cases m with
    | around f => exact (hm f (.head rest) w.2).trans hr
    | act a => exact (Store.Tame.step service w.1 w.2 a).trans hr

theorem live_of_mem_holdings (h : ∀ k ∈ ids, w.2.live.get? k ≠ none) :
    ∀ k ∈ holdings service ids w moves, (run service w moves).2.live.get? k ≠ none := by
  induction moves generalizing ids w with
  | nil => exact h
  | cons m rest ih =>
    refine ih fun k hk => ?_
    have hl := (List.mem_filter.mp hk).2
    rw [Store.contains_eq] at hl
    exact Option.isSome_iff_ne_none.mp hl

/-- If nobody else puts anything in the store, all that is in it is the connection's. -/
theorem mem_holdings_of_live (hm : ∀ f, around f ∈ moves → ∀ u : Store, u.Vacates (f u))
    (h : ∀ k, w.2.live.get? k ≠ none → k ∈ ids) :
    ∀ k, (run service w moves).2.live.get? k ≠ none → k ∈ holdings service ids w moves := by
  induction moves generalizing ids w with
  | nil => exact h
  | cons m rest ih =>
    refine ih (fun f hf => hm f (.tail m hf)) fun k hk => ?_
    rw [List.mem_filter, List.mem_union_iff, Option.mem_toList, Store.contains_eq]
    refine ⟨?_, Option.isSome_iff_ne_none.mpr hk⟩
    by_cases ha : w.2.live.get? k = none
    · cases m with
      | around f => exact absurd ((hm f (.head rest) w.2).absent k ha) hk
      | act a => exact .inl (opens?_of_new ha hk)
    · exact .inr (h k ha)

end Connection.Move

namespace Connection

open Move

/-- Whatever comes in and whoever takes the next step, and whatever else becomes of the store: the
transactions that a connection has in it are no more than the numbers that it may have open and the
streams that were told their last and have yet to take it. What they hold is within the limit times
that. If nobody else puts anything in the store, they are all that is in it. -/
theorem live_within_places (service : Service) (number maxStreams : Nat) (s : Store)
    (moves : List Move) :
    let w := (start number maxStreams, s)
    let final := run service w moves
    let ids := holdings service [] w moves
    ids.Nodup ∧ (∀ k ∈ ids, final.2.live.get? k ≠ none) ∧
      ids.length ≤ maxStreams + final.1.leaving ∧
      (Call.Sound s → (∀ f, around f ∈ moves → ∀ u : Store, u.Tame (f u)) →
        (ids.map final.2.pinned).sum ≤ (maxStreams + final.1.leaving) * s.limit) ∧
      ((∀ k, s.live.get? k = none) → (∀ f, around f ∈ moves → ∀ u : Store, u.Vacates (f u)) →
        ∀ k, final.2.live.get? k ≠ none → k ∈ ids) := by
  intro w final ids
  have hw : w.1.Housed number maxStreams := housed_start number maxStreams
  have hn : ids.Nodup := nodup_holdings List.nodup_nil moves
  have hh : ∀ k ∈ ids, final.1.Held k :=
    held_holdings hw (fun _ hk => absurd hk List.not_mem_nil) moves
  have hl : ids.length ≤ maxStreams + final.1.leaving := (housed_run hw moves).length_le hn hh
  refine ⟨hn, live_of_mem_holdings fun _ hk => absurd hk List.not_mem_nil, hl, fun hs hm => ?_,
    fun he hm => ?_⟩
  · have ht : s.Tame final.2 := tame_run (w := w) hm
    have hp := Store.sum_pinned_le (ht.sound hs) ids
    rw [ht.limit] at hp
    exact Nat.le_trans hp (Nat.mul_le_mul_right _ hl)
  · exact mem_holdings_of_live hm fun k hk => absurd (he k) hk

/-- One number is allowed. The stream that had it has yet to take its end when the next one opens
its transaction, so there are two. -/
theorem live_of_stream_on_its_way_out :
    let service : Service := ⟨⟨Classifier.builder, true, .skip⟩, .standard⟩
    let headers : Event := .headers .request ⟨[], false⟩
    let moves := [act (.frame (.message 1 headers)), act (.work 0 ⟨"f"⟩), act (.frame (.finish 1)),
      act (.frame (.message 2 headers)), around (·.advance 5), act (.work 1 ⟨"f"⟩)]
    let final := run service (start 3 1, Store.empty 16) moves
    let ids := holdings service [] (start 3 1, Store.empty 16) moves
    final.1.leaving = 1 ∧ ids = [⟨"conn-3/2.1"⟩, ⟨"conn-3/1.0"⟩] ∧ ids.length ≤ 1 + 1 ∧
      (ids.map final.2.pinned).sum ≤ (1 + 1) * 16 ∧
      ∀ k, final.2.live.get? k ≠ none → k = ⟨"conn-3/2.1"⟩ ∨ k = ⟨"conn-3/1.0"⟩ := by
  intro service headers moves
  have ha : ∀ f, around f ∈ moves → f = (·.advance 5) := by simp [moves]
  have ht : ∀ f, around f ∈ moves → ∀ u : Store, u.Tame (f u) := fun f hf u => by
    rw [ha f hf]
    exact .call u (.advance 5)
  have hv : ∀ f, around f ∈ moves → ∀ u : Store, u.Vacates (f u) := fun f hf u => by
    rw [ha f hf]
    exact ⟨rfl, fun _ h => h⟩
  have he : ∀ k, (Store.empty 16).live.get? k = none := fun _ => rfl
  have hleaving : (run service (start 3 1, Store.empty 16) moves).1.leaving = 1 := by
    decide +kernel
  have hids : holdings service [] (start 3 1, Store.empty 16) moves =
      [⟨"conn-3/2.1"⟩, ⟨"conn-3/1.0"⟩] := by decide +kernel
  have h := live_within_places service 3 1 (Store.empty 16) moves
  dsimp only at h ⊢
  rw [hids, hleaving] at h ⊢
  obtain ⟨-, -, hl, hb, hall⟩ := h
  refine ⟨rfl, rfl, hl, hb (Call.sound_empty 16) ht, fun k hk => ?_⟩
  have hm := hall he hv k hk
  simpa using hm

/-- The numbers that may be open do not bound what is in the store: nobody else is at work here, and
one number may be open. -/
theorem live_beyond_numbers :
    ¬ ∀ (service : Service) (number maxStreams limit : Nat) (acts : List Act),
      (steps service (start number maxStreams) (.empty limit) acts).2.size ≤ maxStreams := by
  intro h
  let headers : Event := .headers .request ⟨[], false⟩
  have hs := h ⟨⟨Classifier.builder, true, .skip⟩, .standard⟩ 3 1 16
    [.frame (.message 1 headers), .work 0 ⟨"f"⟩, .frame (.finish 1),
      .frame (.message 2 headers), .work 1 ⟨"f"⟩]
  exact absurd hs (by decide +kernel)

end Connection

end BodyCallout
