import BodyCallout.Proofs.Service.Order

set_option autoImplicit false

namespace BodyCallout

theorem StreamTask.keeps_work (t : StreamTask) (service : Service) (fresh : TransactionId)
    (s : Store) : (t.work service fresh s).1.key = t.key ∧
      (t.work service fresh s).1.session.identity = t.session.identity ∧
      (t.work service fresh s).1.forwarding = t.forwarding := by
  unfold StreamTask.work
  split
  · next event rest _ _ =>
    have hi : (t.session.handle service event fresh s).1.identity = t.session.identity :=
      t.session.identity_handle service fresh s
    rcases hh : t.session.handle service event fresh s with ⟨next, u, d | a⟩
    · rw [hh] at hi
      simpa [hh, StreamTask.finish, Session.fst_finish] using hi
    · rw [hh] at hi
      cases hf : t.forwarding with
      | true => simpa [hh] using hi
      | false => simpa [hh, StreamTask.finish, Session.fst_finish] using hi
  · simp [StreamTask.finish, Session.fst_finish]
  · exact ⟨rfl, rfl, rfl⟩

namespace Connection

variable {service : Service} {c d e : Connection} {s : Store} {a : Act} {g : Nat} {u : StreamTask}

/-- Hanging up is giving up one number after the other. -/
theorem hangUp_induction {P : Connection → Prop} (hc : P c)
    (hg : ∀ d stream, P d → P (d.giveUp stream (.abort closedReason))) :
    ∃ d, P d ∧ c.hangUp = { d with hungUp := true } := by
  have hf (keys : List UInt64) : P (keys.foldl
      (fun c stream => c.giveUp stream (.abort closedReason)) c) := by
    induction keys generalizing c with
    | nil => exact hc
    | cons m rest ih => exact ih (hg c m hc)
  exact ⟨_, hf c.streams.keys, rfl⟩

/-- What stays as it is unless the connection is told to drain or a write fails. -/
def fixed (c : Connection) : Nat × Nat × Bool × Bool :=
  (c.number, c.maxStreams, c.draining, c.broken)

theorem fixed_send (p : Parcel) : (c.send p).fixed = c.fixed := by
  unfold send
  split <;> rfl

theorem fixed_giveUp (stream : UInt64) (item : Item) : (c.giveUp stream item).fixed = c.fixed := by
  unfold giveUp
  split <;> rfl

theorem fixed_hangUp : c.hangUp.fixed = c.fixed := by
  obtain ⟨d, hd, he⟩ := c.hangUp_induction (P := fun d => d.fixed = c.fixed) rfl
    fun d stream hd => (fixed_giveUp stream _).trans hd
  rw [he]
  exact hd

theorem fixed_dispatch (frame : Inbound) : (c.dispatch frame).fixed = c.fixed := by
  cases frame with
  | finish stream => exact fixed_giveUp _ _
  | abort stream reason => exact fixed_giveUp _ _
  | message stream event =>
    have hd := c.dealt_dispatch stream event
    generalize c.dispatch (.message stream event) = d at hd ⊢
    cases hd with
    | delivered g => rfl
    | closed g => exact fixed_send _
    | refused r => exact fixed_send _
    | opened => rfl

theorem fixed_step (hd : a ≠ .drain) (hb : a ≠ .breakOff) (service : Service) (s : Store) :
    (c.step service s a).1.fixed = c.fixed := by
  cases a with
  | frame frame =>
    rw [step, takeFrame]
    split
    · rfl
    · exact fixed_dispatch frame
  | hangUp => exact fixed_hangUp
  | fail message => exact fixed_hangUp.trans (fixed_send _)
  | drain => exact absurd rfl hd
  | work g fresh =>
    rw [step, work]
    split <;> rfl
  | forward g =>
    have hf := c.forwarded_forward g
    rw [step]
    generalize c.forward g = d at hf ⊢
    cases hf with
    | nothing => rfl
    | cutOff => rfl
    | sent => exact fixed_send _
  | report g =>
    have hr := c.reported_report g
    rw [step]
    generalize c.report g = d at hr ⊢
    cases hr with
    | nothing => rfl
    | ended => rfl
    | failed => exact fixed_send _
  | reap g =>
    rw [step, reap]
    split
    · split <;> rfl
    · rfl
  | write =>
    rw [step, write]
    split <;> rfl
  | breakOff => exact absurd rfl hb

theorem draining_step (ha : a ≠ .drain) (service : Service) (s : Store) :
    (c.step service s a).1.draining = c.draining := by
  by_cases hb : a = .breakOff
  · subst hb
    rw [step, breakOff]
    split <;> rfl
  · exact congrArg (·.2.2.1) (fixed_step ha hb service s)

theorem whole_of_step (h : (c.step service s a).1.broken = false) : c.broken = false := by
  by_cases hd : a = .drain
  · subst hd
    exact h
  by_cases hb : a = .breakOff
  · subst hb
    rw [step, breakOff] at h
    split at h
    · exact h
    · cases h
  · exact (congrArg (·.2.2.2) (fixed_step hd hb service s)).symm.trans h

theorem dispatch_of_draining (hd : c.draining = true) {stream : UInt64}
    (hs : c.streams.get? stream = none) (event : Event) :
    c.dispatch (.message stream event) = c.refuse stream .draining := by
  simp [dispatch, hs, hd]

theorem dispatch_of_room (hd : c.draining = false) {stream : UInt64}
    (hs : c.streams.get? stream = none) (hr : c.streams.size < c.maxStreams) (event : Event) :
    c.dispatch (.message stream event) = c.openStream stream (.event event) := by
  simp [dispatch, hs, hd, Nat.not_le_of_lt hr]

/-- A step opens a stream, or lets a session work, or adds no stream and leaves the sessions be. -/
theorem step_cases (service : Service) (c : Connection) (s : Store) (a : Act) :
    (∃ stream event, a = .frame (.message stream event) ∧ c.streams.get? stream = none ∧
      (c.step service s a).1 = c.openStream stream (.event event)) ∨
    (∃ g fresh, a = .work g fresh) ∨ c.Within (c.step service s a).1 := by
  cases a with
  | frame frame =>
    rw [step, takeFrame]
    split
    · exact .inr (.inr (.refl c))
    · rcases c.within_or_opens frame with hw | ⟨stream, event, rfl, hs, hd⟩
      · exact .inr (.inr hw)
      · exact .inl ⟨stream, event, rfl, hs, hd⟩
  | hangUp => exact .inr (.inr .hangUp)
  | fail message => exact .inr (.inr (.fail message))
  | drain => exact .inr (.inr { Within.refl c with })
  | work g fresh => exact .inr (.inl ⟨g, fresh, rfl⟩)
  | forward g => exact .inr (.inr (.forward g))
  | report g => exact .inr (.inr (.report g))
  | reap g => exact .inr (.inr (.reap g))
  | write => exact .inr (.inr .write)
  | breakOff => exact .inr (.inr .breakOff)

theorem work_eq (service : Service) (g : Nat) (fresh : TransactionId) (c : Connection) (s : Store) :
    ∃ tasks, (c.work service g fresh s).1 = { c with tasks := tasks } := by
  unfold work
  split
  · exact ⟨_, rfl⟩
  · exact ⟨_, rfl⟩

structure Told (c d : Connection) : Prop where
  streams : ∀ m g, d.streams.get? m = some g → c.streams.get? m = some g
  tasks : ∀ g u, d.tasks.get? g = some u → ∃ t items, c.tasks.get? g = some t ∧
    u = { t with inbox := t.inbox ++ items } ∧
    (items ≠ [] → t.stage = .running ∧ ∃ m, c.streams.get? m = some g)

namespace Told

theorem of_tasks (hs : ∀ m g, d.streams.get? m = some g → c.streams.get? m = some g)
    (ht : d.tasks = c.tasks) : c.Told d where
  streams := hs
  tasks g u hu := ⟨u, [], ht ▸ hu, by simp, nofun⟩

theorem refl (c : Connection) : c.Told c := of_tasks (fun _ _ h => h) rfl

theorem trans (h : c.Told d) (k : d.Told e) : c.Told e where
  streams m g hm := h.streams m g (k.streams m g hm)
  tasks g v hv := by
    obtain ⟨u, more, hu, rfl, hk⟩ := k.tasks g v hv
    obtain ⟨t, items, ht, rfl, hh⟩ := h.tasks g u hu
    refine ⟨t, items ++ more, ht, by simp, fun hi => ?_⟩
    cases more with
    | nil => exact hh (by simpa using hi)
    | cons item rest =>
      obtain ⟨hs, m, hm⟩ := hk (List.cons_ne_nil _ _)
      exact ⟨hs, m, h.streams m g hm⟩

theorem deliver {m : UInt64} (hm : c.streams.get? m = some g) (item : Item) :
    c.Told (c.deliver g item) where
  streams _ _ h := h
  tasks k u hu := by
    rw [Connection.deliver] at hu
    by_cases hk : k = g
    · subst hk
      rw [Table.get?_modify_self, Option.map_eq_some_iff] at hu
      obtain ⟨t, ht, rfl⟩ := hu
      by_cases hr : t.stage = .running
      · exact ⟨t, [item], ht, by rw [if_pos hr], fun _ => ⟨hr, m, hm⟩⟩
      · exact ⟨t, [], ht, by simp [if_neg hr], fun hn => absurd rfl hn⟩
    · rw [Table.get?_modify_of_ne _ hk] at hu
      exact ⟨u, [], hu, by simp, fun hn => absurd rfl hn⟩

theorem send (p : Parcel) : c.Told (c.send p) := by
  unfold Connection.send
  split
  · exact refl c
  · exact of_tasks (fun _ _ h => h) rfl

theorem giveUp (stream : UInt64) (item : Item) : c.Told (c.giveUp stream item) := by
  unfold Connection.giveUp
  split
  · exact refl c
  · next k hk =>
    have hd := (deliver hk item).tasks
    refine ⟨fun m h hm => (Table.get?_erase_eq_some.mp hm).2, fun h u hu => hd h u hu⟩

theorem hangUp : c.Told c.hangUp := by
  obtain ⟨d, hd, he⟩ := c.hangUp_induction (P := c.Told) (refl c)
    fun d stream hd => hd.trans (giveUp stream _)
  rw [he]
  exact { hd with }

theorem fail (message : String) : c.Told (c.fail message) := (send _).trans hangUp

end Told

theorem told_or_opens (c : Connection) (frame : Inbound) :
    c.Told (c.dispatch frame) ∨ ∃ stream event, frame = .message stream event ∧
      c.streams.get? stream = none ∧ c.dispatch frame = c.openStream stream (.event event) := by
  cases frame with
  | finish stream => exact .inl (.giveUp _ _)
  | abort stream reason => exact .inl (.giveUp _ _)
  | message stream event =>
    have hd := c.dealt_dispatch stream event
    generalize c.dispatch (.message stream event) = d at hd ⊢
    cases hd with
    | delivered g hs => exact .inl (.deliver hs _)
    | closed g =>
      have he : c.Told { c with streams := c.streams.erase stream } :=
        .of_tasks (fun _ _ hm => (Table.get?_erase_eq_some.mp hm).2) rfl
      exact .inl (he.trans (.send _))
    | refused r => exact .inl (.send _)
    | opened hs => exact .inr ⟨stream, event, rfl, hs, rfl⟩

inductive Change (service : Service) (c : Connection) (s : Store) (a : Act) (g : Nat) :
    StreamTask → Prop where
  | opened (stream : UInt64) (event : Event) (ha : a = .frame (.message stream event))
      (hs : c.streams.get? stream = none) (hg : g = c.opened)
      (he : (c.step service s a).1 = c.openStream stream (.event event)) :
      Change service c s a g (.start ⟨c.number, stream, g⟩ (.event event))
  | told (t : StreamTask) (items : List Item) (ht : c.tasks.get? g = some t)
      (hi : items ≠ [] → t.stage = .running ∧ ∃ m, c.streams.get? m = some g) :
      Change service c s a g { t with inbox := t.inbox ++ items }
  | worked (t : StreamTask) (fresh : TransactionId) (ht : c.tasks.get? g = some t)
      (ha : a = .work g fresh) : Change service c s a g (t.work service fresh s).1
  | forwarded (t : StreamTask) (answer : Answer) (rest : List Answer)
      (ht : c.tasks.get? g = some t) (ha : a = .forward g) (ho : t.outbox = answer :: rest) :
      Change service c s a g { t with outbox := rest }
  | cutOff (t : StreamTask) (ht : c.tasks.get? g = some t) (hb : c.broken = true) :
      Change service c s a g { t with outbox := [], forwarding := false }
  | reported (t : StreamTask) (fault : Option SessionFault) (ht : c.tasks.get? g = some t)
      (hs : t.stage = .ended fault) (ho : t.outbox = []) :
      Change service c s a g { t with stage := .over }

namespace Change

variable {t : StreamTask}

theorem same (ht : c.tasks.get? g = some t) : Change service c s a g t := by
  have hc : Change service c s a g { t with inbox := t.inbox ++ [] } := .told t [] ht nofun
  simpa using hc

theorem of_told (h : c.Told d) (hu : d.tasks.get? g = some u) : Change service c s a g u := by
  obtain ⟨t, items, ht, rfl, hi⟩ := h.tasks g u hu
  exact .told t items ht hi

theorem of_setTask {k : Nat} {old new : StreamTask} (ho : c.tasks.get? k = some old)
    (hn : Change service c s a k new) (hu : (c.setTask k new).tasks.get? g = some u) :
    Change service c s a g u := by
  by_cases hg : g = k
  · subst hg
    rw [get?_setTask_self ho] at hu
    exact Option.some.inj hu ▸ hn
  · rw [get?_setTask_of_ne hg] at hu
    exact same hu

theorem of_send {p : Parcel} (hu : (d.send p).tasks.get? g = some u) : d.tasks.get? g = some u := by
  unfold Connection.send at hu
  split at hu <;> exact hu

end Change

theorem change_step (hu : (c.step service s a).1.tasks.get? g = some u) :
    Change service c s a g u := by
  cases a with
  | frame frame =>
    cases hh : c.hungUp with
    | true =>
      have he : (c.step service s (.frame frame)).1 = c := by simp [step, takeFrame, hh]
      rw [he] at hu
      exact .same hu
    | false =>
      have he : (c.step service s (.frame frame)).1 = c.dispatch frame := by
        simp [step, takeFrame, hh]
      rw [he] at hu
      rcases c.told_or_opens frame with ht | ⟨stream, event, rfl, hs, hd⟩
      · exact .of_told ht hu
      · rw [hd] at hu
        rcases Table.get?_insert_eq_some hu with hu | ⟨rfl, rfl⟩
        · exact .same hu
        · exact .opened stream event rfl hs rfl (he.trans hd)
  | hangUp => exact .of_told .hangUp hu
  | fail message => exact .of_told (.fail message) hu
  | drain => exact .same hu
  | work k fresh =>
    rw [step, work] at hu
    split at hu
    · next t ht => exact .of_setTask ht (.worked t fresh ht rfl) hu
    · exact .same hu
  | forward k =>
    have hf := c.forwarded_forward k
    rw [step] at hu
    generalize c.forward k = d at hf hu
    cases hf with
    | nothing => exact .same hu
    | cutOff t ht hb => exact .of_setTask ht (.cutOff t ht hb) hu
    | sent t answer rest ht ho =>
      exact .of_setTask ht (.forwarded t answer rest ht rfl ho) (Change.of_send hu)
  | report k =>
    have hr := c.reported_report k
    rw [step] at hu
    generalize c.report k = d at hr hu
    cases hr with
    | nothing => exact .same hu
    | ended t ht hs ho => exact .of_setTask ht (.reported t _ ht hs ho) hu
    | failed t fault ht hs ho => exact .of_setTask ht (.reported t _ ht hs ho) (Change.of_send hu)
  | reap k =>
    rw [step, reap] at hu
    split at hu
    · split at hu
      · exact .same (Table.get?_erase_eq_some.mp hu).2
      · exact .same hu
    · exact .same hu
  | write =>
    rw [step, write] at hu
    split at hu <;> exact .same hu
  | breakOff =>
    rw [step, breakOff] at hu
    split at hu <;> exact .same hu

theorem Change.opens_or_keeps (h : Change service c s a g u) :
    (∃ stream event, a = .frame (.message stream event) ∧ c.streams.get? stream = none ∧
      g = c.opened ∧ (c.step service s a).1 = c.openStream stream (.event event)) ∨
    ∃ t, c.tasks.get? g = some t ∧ u.key = t.key ∧ u.session.identity = t.session.identity ∧
      (c.broken = false → u.forwarding = t.forwarding) := by
  cases h with
  | opened stream event ha hs hg he => exact .inl ⟨stream, event, ha, hs, hg, he⟩
  | told t items ht => exact .inr ⟨t, ht, rfl, rfl, fun _ => rfl⟩
  | worked t fresh ht =>
    obtain ⟨hk, hi, hf⟩ := t.keeps_work service fresh s
    exact .inr ⟨t, ht, hk, hi, fun _ => hf⟩
  | forwarded t answer rest ht => exact .inr ⟨t, ht, rfl, rfl, fun _ => rfl⟩
  | cutOff t ht hb => exact .inr ⟨t, ht, rfl, rfl, fun hw => absurd hb (by simp [hw])⟩
  | reported t fault ht => exact .inr ⟨t, ht, rfl, rfl, fun _ => rfl⟩

/-- What is on its way to the client, or has come to it. -/
def parcels (c : Connection) : List Parcel := c.written ++ c.queue

theorem parcels_send (p : Parcel) :
    (c.send p).parcels = c.parcels ∨ (c.send p).parcels = c.parcels ++ [p] := by
  cases hb : c.broken with
  | true => exact .inl (by simp [send, hb])
  | false => exact .inr (by simp [c.send_of_whole hb, parcels])

theorem parcels_giveUp (stream : UInt64) (item : Item) :
    (c.giveUp stream item).parcels = c.parcels := by
  unfold giveUp
  split <;> rfl

theorem parcels_hangUp : c.hangUp.parcels = c.parcels := by
  obtain ⟨d, hd, he⟩ := c.hangUp_induction (P := fun d => d.parcels = c.parcels) rfl
    fun d stream hd => (parcels_giveUp stream _).trans hd
  rw [he]
  exact hd

/-- What a step can send: a task's next answer, or an error. -/
inductive Sent (c : Connection) (a : Act) : Parcel → Prop where
  | answer (g : Nat) (t : StreamTask) (answer : Answer) (rest : List Answer)
      (ht : c.tasks.get? g = some t) (ho : t.outbox = answer :: rest) (ha : a = .forward g) :
      Sent c a ⟨some g, .answer t.key.stream answer⟩
  | error (generation : Option Nat) (stream : UInt64) (text : String) :
      Sent c a ⟨generation, .error stream text⟩

/-- One step sends one parcel at most, behind all the others. -/
theorem parcels_step (service : Service) (c : Connection) (s : Store) (a : Act) :
    (c.step service s a).1.parcels <+: c.parcels ∨
      ∃ p, c.Sent a p ∧ (c.step service s a).1.parcels = c.parcels ++ [p] := by
  have same {d : Connection} (h : d.parcels = c.parcels) : d.parcels <+: c.parcels ∨
      ∃ p, c.Sent a p ∧ d.parcels = c.parcels ++ [p] := .inl (h ▸ List.prefix_refl _)
  -- Whatever a step sends goes last; a writer that is gone sends nothing.
  have sends {d : Connection} {p : Parcel} (h : d.parcels = c.parcels) (hp : c.Sent a p) :
      (d.send p).parcels <+: c.parcels ∨
        ∃ q, c.Sent a q ∧ (d.send p).parcels = c.parcels ++ [q] := by
    rcases d.parcels_send p with hs | hs
    · exact same (hs.trans h)
    · exact .inr ⟨p, hp, hs.trans (by rw [h])⟩
  cases a with
  | frame frame =>
    rw [step, takeFrame]
    split
    · exact same rfl
    · cases frame with
      | finish stream => exact same (parcels_giveUp _ _)
      | abort stream reason => exact same (parcels_giveUp _ _)
      | message stream event =>
        have hd := c.dealt_dispatch stream event
        dsimp only
        generalize c.dispatch (.message stream event) = d at hd ⊢
        cases hd with
        | delivered g => exact same rfl
        | closed g => exact sends rfl (.error none stream _)
        | refused r => exact sends rfl (.error none stream _)
        | opened => exact same rfl
  | hangUp => exact same parcels_hangUp
  | fail message =>
    rw [step, fail, parcels_hangUp]
    exact sends rfl (.error none 0 message)
  | drain => exact same rfl
  | work g fresh =>
    obtain ⟨tasks, he⟩ := work_eq service g fresh c s
    rw [step, he]
    exact same rfl
  | forward g =>
    have hf := c.forwarded_forward g
    rw [step]
    generalize c.forward g = d at hf ⊢
    cases hf with
    | nothing => exact same rfl
    | cutOff => exact same rfl
    | sent t answer rest ht ho => exact sends rfl (.answer g t answer rest ht ho rfl)
  | report g =>
    have hr := c.reported_report g
    rw [step]
    generalize c.report g = d at hr ⊢
    cases hr with
    | nothing => exact same rfl
    | ended => exact same rfl
    | failed t fault => exact sends rfl (.error (some g) t.key.stream fault.message)
  | reap g =>
    rw [step, reap]
    split
    · split <;> exact same rfl
    · exact same rfl
  | write =>
    rw [step, write]
    split
    · exact same rfl
    -- A parcel that is written stays where it is among all of them.
    · next p rest hq => exact same (by simp [parcels, hq])
  | breakOff =>
    rw [step, breakOff]
    split
    · exact same rfl
    · exact .inl (by simp [parcels])

/-- Every task is filed under its generation, and every number that is open names its own task. -/
structure Filed (number : Nat) (c : Connection) : Prop where
  numbered : c.number = number
  stream : ∀ m g, c.streams.get? m = some g → g < c.opened ∧
    ∀ t, c.tasks.get? g = some t → t.key.stream = m
  task : ∀ g t, c.tasks.get? g = some t → g < c.opened ∧ t.key.connection = number ∧
    t.key.generation = g ∧ t.session.identity = some t.key.text ∧
    (c.broken = false → t.forwarding = true)

theorem filed_start (number maxStreams : Nat) : (start number maxStreams).Filed number where
  numbered := rfl
  stream _ _ := nofun
  task _ _ := nofun

namespace Filed

variable {number : Nat}

theorem openStream (h : c.Filed number) {stream : UInt64} (hs : c.streams.get? stream = none)
    (item : Item) : (c.openStream stream item).Filed number where
  numbered := h.numbered
  stream m g hm := by
    rcases Table.get?_insert_eq_some hm with hm | ⟨rfl, rfl⟩
    · obtain ⟨hg, ht⟩ := h.stream m g hm
      refine ⟨Nat.lt_succ_of_lt hg, fun t hk => ?_⟩
      rcases Table.get?_insert_eq_some hk with hk | ⟨rfl, -⟩
      · exact ht t hk
      · exact absurd hg (Nat.lt_irrefl _)
    · refine ⟨Nat.lt_succ_self _, fun t hk => ?_⟩
      rcases Table.get?_insert_eq_some hk with hk | ⟨-, rfl⟩
      · exact absurd (h.task _ t hk).1 (Nat.lt_irrefl _)
      · rfl
  task g t hk := by
    rcases Table.get?_insert_eq_some hk with hk | ⟨rfl, rfl⟩
    · obtain ⟨hg, hr⟩ := h.task g t hk
      exact ⟨Nat.lt_succ_of_lt hg, hr⟩
    · exact ⟨Nat.lt_succ_self _, h.numbered, rfl, rfl, fun _ => rfl⟩

theorem absent_opened (h : c.Filed number) : c.tasks.get? c.opened = none := by
  rw [Option.eq_none_iff_forall_ne_some]
  exact fun t ht => Nat.lt_irrefl _ (h.task _ t ht).1

theorem of_kept (h : c.Filed number) (hn : d.number = c.number) (ho : d.opened = c.opened)
    (hs : ∀ m g, d.streams.get? m = some g → c.streams.get? m = some g)
    (ht : ∀ g u, d.tasks.get? g = some u → ∃ t, c.tasks.get? g = some t ∧ u.key = t.key ∧
      u.session.identity = t.session.identity ∧ (d.broken = false → u.forwarding = true)) :
    d.Filed number where
  numbered := hn.trans h.numbered
  stream m g hm := by
    obtain ⟨hg, hk⟩ := h.stream m g (hs m g hm)
    refine ⟨ho ▸ hg, fun u hu => ?_⟩
    obtain ⟨t, ht, he, -⟩ := ht g u hu
    rw [he]
    exact hk t ht
  task g u hu := by
    obtain ⟨t, ht, he, hi, hf⟩ := ht g u hu
    obtain ⟨hg, hc, hk, hj, -⟩ := h.task g t ht
    rw [ho, he, hi]
    exact ⟨hg, hc, hk, hj, hf⟩

theorem step (h : c.Filed number) (service : Service) (s : Store) (a : Act) :
    (c.step service s a).1.Filed number := by
  rcases c.step_cases service s a with ⟨stream, event, -, hs, he⟩ | hw
  · rw [he]
    exact h.openStream hs _
  · have hd : (c.step service s a).1.number = c.number ∧
        (c.step service s a).1.opened = c.opened ∧
        ∀ m g, (c.step service s a).1.streams.get? m = some g → c.streams.get? m = some g := by
      rcases hw with ⟨k, fresh, rfl⟩ | hw
      · obtain ⟨tasks, he⟩ := work_eq service k fresh c s
        rw [Connection.step, he]
        exact ⟨rfl, rfl, fun _ _ hm => hm⟩
      · exact ⟨hw.number, hw.opened, hw.streams⟩
    obtain ⟨hn, ho, hs⟩ := hd
    refine h.of_kept hn ho hs fun g u hu => ?_
    rcases (change_step hu).opens_or_keeps with ⟨_, _, _, _, _, he⟩ | ⟨t, ht, hk, hi, hf⟩
    · rw [he] at ho
      exact absurd ho (Nat.succ_ne_self _)
    · refine ⟨t, ht, hk, hi, fun hb => ?_⟩
      have hb := whole_of_step hb
      exact (hf hb).trans ((h.task g t ht).2.2.2.2 hb)

end Filed

theorem opened_le_step (service : Service) (c : Connection) (s : Store) (a : Act) :
    c.opened ≤ (c.step service s a).1.opened := by
  rcases c.step_opens_or_not service s a with h | ⟨stream, event, -, -, -, h⟩
  · exact Nat.le_of_eq h.symm
  · exact h ▸ Nat.le_succ _

theorem opened_step_le (service : Service) (c : Connection) (s : Store) (a : Act) :
    (c.step service s a).1.opened ≤ c.opened + 1 := by
  rcases c.step_opens_or_not service s a with h | ⟨stream, event, -, -, -, h⟩
  · exact h ▸ Nat.le_succ _
  · exact h ▸ Nat.le_refl _

end Connection

end BodyCallout
