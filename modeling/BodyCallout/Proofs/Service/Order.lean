import BodyCallout.Proofs.Service.Naming
import BodyCallout.Proofs.Service.Strands

set_option autoImplicit false

namespace BodyCallout

theorem StreamKey.id_ne {j k : StreamKey} (h : j ≠ k) :
    (⟨j.text⟩ : TransactionId) ≠ ⟨k.text⟩ := by
  intro he
  exact h (text_injective (TransactionId.mk.inj he))

theorem StreamTask.owns_finish {t : StreamTask} {text : String} {s : Store}
    (h : t.session.Owns text s) (fault : Option SessionFault) :
    (t.finish fault s).1.key = t.key ∧ (t.finish fault s).1.session.Owns text (t.finish fault s).2 ∧
      s.SameBut ⟨text⟩ (t.finish fault s).2 :=
  ⟨rfl, h.finish.congr rfl, h.sameBut_finish.trans ⟨rfl, fun _ _ => rfl⟩⟩

theorem StreamTask.owns_work {service : Service} (hp : service.correlation.preferIdentity = true)
    {t : StreamTask} {text : String} {s : Store} (h : t.session.Owns text s)
    (fresh : TransactionId) :
    (t.work service fresh s).1.key = t.key ∧
      (t.work service fresh s).1.session.Owns text (t.work service fresh s).2 ∧
      s.SameBut ⟨text⟩ (t.work service fresh s).2 := by
  unfold StreamTask.work
  split
  · next event rest hs hi =>
    obtain ⟨next, u, a, hh, hn, hb⟩ := h.answers hp event fresh
    simp only [hh]
    split
    · exact ⟨rfl, hn, hb⟩
    · have hf := StreamTask.owns_finish (t := { t with inbox := rest, session := next }) hn
        (some .outboundClosed)
      exact ⟨hf.1, hf.2.1, hb.trans hf.2.2⟩
  · exact StreamTask.owns_finish h none
  · exact ⟨rfl, h, rfl, fun _ _ => rfl⟩

namespace Connection

/-- The writer is gone, and nothing waits for it. -/
def Silent (c : Connection) : Prop := c.broken = true ∧ c.queue = []

/-- Of streams and tasks, `d` has none that `c` has not, and it says nothing if `c` is silent. -/
structure Within (c d : Connection) : Prop where
  number : d.number = c.number
  opened : d.opened = c.opened
  streams : ∀ m g, d.streams.get? m = some g → c.streams.get? m = some g
  tasks : ∀ g u, d.tasks.get? g = some u →
    ∃ t, c.tasks.get? g = some t ∧ u.key = t.key ∧ u.session = t.session
  parcels : ∀ p ∈ d.written ++ d.queue, p ∈ c.written ++ c.queue ∨
    (p.generation = none ∧ ∃ n text, p.frame = .error n text) ∨
    ∃ g t, p.generation = some g ∧ c.tasks.get? g = some t
  silent : c.Silent → d.Silent ∧ d.written = c.written
  quiet : (c.broken = true → c.queue = []) → d.broken = true → d.queue = []

namespace Within

variable {c d e : Connection}

theorem refl (c : Connection) : c.Within c :=
  ⟨rfl, rfl, fun _ _ h => h, fun _ t h => ⟨t, h, rfl, rfl⟩, fun _ h => .inl h, fun h => ⟨h, rfl⟩,
    fun h => h⟩

theorem trans (h : c.Within d) (k : d.Within e) : c.Within e where
  number := k.number.trans h.number
  opened := k.opened.trans h.opened
  streams m g hm := h.streams m g (k.streams m g hm)
  tasks g u hu := by
    obtain ⟨t, ht, hk, hs⟩ := k.tasks g u hu
    obtain ⟨x, hx, hj, hr⟩ := h.tasks g t ht
    exact ⟨x, hx, hk.trans hj, hs.trans hr⟩
  parcels p hp := by
    rcases k.parcels p hp with hp | hn | ⟨g, t, hg, ht⟩
    · exact h.parcels p hp
    · exact .inr (.inl hn)
    · obtain ⟨x, hx, -⟩ := h.tasks g t ht
      exact .inr (.inr ⟨g, x, hg, hx⟩)
  silent hs := by
    obtain ⟨hd, hw⟩ := h.silent hs
    obtain ⟨he, hv⟩ := k.silent hd
    exact ⟨he, hv.trans hw⟩
  quiet hq := k.quiet (h.quiet hq)

theorem send {p : Parcel} (hp : (p.generation = none ∧ ∃ n text, p.frame = .error n text) ∨
    ∃ g t, p.generation = some g ∧ c.tasks.get? g = some t) : c.Within (c.send p) := by
  cases hb : c.broken with
  | true => simpa [Connection.send, hb] using refl c
  | false =>
    rw [c.send_of_whole hb]
    refine { refl c with
      parcels := fun q hq => ?_
      silent := fun hs => absurd hs.1 (by simp [hb])
      quiet := fun _ hs => absurd hs (by simp [hb]) }
    rw [← List.append_assoc, List.mem_append] at hq
    rcases hq with hq | hq
    · exact .inl hq
    · obtain rfl := List.mem_singleton.mp hq
      exact .inr hp

theorem refuse (stream : UInt64) (r : StreamRefusal) : c.Within (c.refuse stream r) :=
  send (.inl ⟨rfl, stream, r.message, rfl⟩)

theorem erase (stream : UInt64) : c.Within { c with streams := c.streams.erase stream } :=
  { refl c with streams := fun _ _ hm => (Table.get?_erase_eq_some.mp hm).2 }

theorem modify {g : Nat} {f : StreamTask → StreamTask}
    (hf : ∀ t, c.tasks.get? g = some t → (f t).key = t.key ∧ (f t).session = t.session) :
    c.Within { c with tasks := c.tasks.modify g f } := by
  refine { refl c with tasks := fun h u hu => ?_ }
  by_cases hg : h = g
  · subst hg
    rw [Table.get?_modify_self, Option.map_eq_some_iff] at hu
    obtain ⟨t, ht, rfl⟩ := hu
    exact ⟨t, ht, hf t ht⟩
  · rw [Table.get?_modify_of_ne _ hg] at hu
    exact ⟨u, hu, rfl, rfl⟩

theorem deliver (g : Nat) (item : Item) : c.Within (c.deliver g item) :=
  modify fun t _ => by split <;> exact ⟨rfl, rfl⟩

theorem setTask {g : Nat} {old task : StreamTask} (ht : c.tasks.get? g = some old)
    (hk : task.key = old.key) (hs : task.session = old.session) : c.Within (c.setTask g task) := by
  refine modify fun t h => ?_
  obtain rfl : old = t := Option.some.inj (ht.symm.trans h)
  exact ⟨hk, hs⟩

theorem giveUp (stream : UInt64) (last : Item) : c.Within (c.giveUp stream last) := by
  unfold Connection.giveUp
  split
  · exact refl c
  · exact (erase stream).trans (deliver _ last)

theorem hangUp : c.Within c.hangUp := by
  have hf (keys : List UInt64) : c.Within
      (keys.foldl (fun c stream => c.giveUp stream (.abort closedReason)) c) := by
    induction keys generalizing c with
    | nil => exact refl c
    | cons m rest ih => exact (giveUp m _).trans ih
  exact { hf c.streams.keys with }

theorem fail (message : String) : c.Within (c.fail message) :=
  (send (.inl ⟨rfl, 0, message, rfl⟩)).trans hangUp

theorem forward (g : Nat) : c.Within (c.forward g) := by
  have hf := c.forwarded_forward g
  generalize c.forward g = d at hf ⊢
  cases hf with
  | nothing => exact refl c
  | cutOff t ht => exact setTask ht rfl rfl
  | sent t answer rest ht =>
    have hs : c.Within (c.setTask g { t with outbox := rest }) := setTask ht rfl rfl
    exact hs.trans (send (.inr ⟨g, _, rfl, get?_setTask_self ht _⟩))

theorem report (g : Nat) : c.Within (c.report g) := by
  have hr := c.reported_report g
  generalize c.report g = d at hr ⊢
  cases hr with
  | nothing => exact refl c
  | ended t ht => exact setTask ht rfl rfl
  | failed t fault ht =>
    have hs : c.Within (c.setTask g { t with stage := .over }) := setTask ht rfl rfl
    exact hs.trans (send (.inr ⟨g, _, rfl, get?_setTask_self ht _⟩))

theorem reap (g : Nat) : c.Within (c.reap g) := by
  unfold Connection.reap
  split
  · split
    · refine { refl c with streams := fun m h hm => ?_, tasks := fun h u hu => ?_ }
      · rw [Table.get?_filter] at hm
        exact (Option.filter_eq_some_iff.mp hm).1
      · exact ⟨u, (Table.get?_erase_eq_some.mp hu).2, rfl, rfl⟩
    · exact refl c
  · exact refl c

theorem write : c.Within c.write := by
  unfold Connection.write
  split
  · exact refl c
  · next hq =>
    refine { refl c with
      parcels := fun p hp => .inl ?_
      silent := fun hs => absurd hs.2 (by simp [hq])
      quiet := fun h hb => absurd (h hb) (by simp [hq]) }
    simpa [hq] using hp

theorem breakOff : c.Within c.breakOff := by
  unfold Connection.breakOff
  split
  · exact refl c
  · next hq =>
    refine { refl c with
      parcels := fun p hp => .inl ?_
      silent := fun hs => absurd hs.2 (by simp [hq])
      quiet := fun _ _ => rfl }
    exact List.mem_append_left _ (by simpa using hp)

end Within

theorem within_or_opens (c : Connection) (frame : Inbound) :
    c.Within (c.dispatch frame) ∨ ∃ stream event, frame = .message stream event ∧
      c.streams.get? stream = none ∧ c.dispatch frame = c.openStream stream (.event event) := by
  cases frame with
  | finish stream => exact .inl (.giveUp _ _)
  | abort stream reason => exact .inl (.giveUp _ _)
  | message stream event =>
    have hd := c.dealt_dispatch stream event
    generalize c.dispatch (.message stream event) = d at hd ⊢
    cases hd with
    | delivered g => exact .inl (.deliver _ _)
    | closed g => exact .inl ((Within.erase stream).trans (.refuse _ _))
    | refused r => exact .inl (.refuse _ _)
    | opened hs => exact .inr ⟨stream, event, rfl, hs, rfl⟩

/-- A step opens one stream or none. -/
theorem step_opens_or_not (service : Service) (c : Connection) (s : Store) (a : Act) :
    (c.step service s a).1.opened = c.opened ∨ ∃ stream event, a = .frame (.message stream event) ∧
      c.hungUp = false ∧ c.streams.get? stream = none ∧
      c.step service s a = (c.openStream stream (.event event), s.record .streamStarted) := by
  cases a with
  | frame frame =>
    rw [step, takeFrame]
    cases hh : c.hungUp with
    | true => exact .inl rfl
    | false =>
      rcases c.within_or_opens frame with hw | ⟨stream, event, rfl, hs, hd⟩
      · exact .inl hw.opened
      · refine .inr ⟨stream, event, rfl, rfl, hs, ?_⟩
        simp [hd, openStream]
  | hangUp => exact .inl Within.hangUp.opened
  | fail message => exact .inl (Within.fail message).opened
  | drain => exact .inl rfl
  | work g fresh =>
    left
    rw [step, work]
    split <;> rfl
  | forward g => exact .inl (Within.forward g).opened
  | report g => exact .inl (Within.report g).opened
  | reap g => exact .inl (Within.reap g).opened
  | write => exact .inl Within.write.opened
  | breakOff => exact .inl Within.breakOff.opened

theorem Silent.step {c : Connection} (h : c.Silent) (service : Service) (s : Store) (a : Act) :
    (c.step service s a).1.Silent ∧ (c.step service s a).1.written = c.written := by
  cases a with
  | frame frame =>
    rw [Connection.step, takeFrame]
    split
    · exact ⟨h, rfl⟩
    · rcases c.within_or_opens frame with hw | ⟨stream, event, -, -, hd⟩
      · exact hw.silent h
      · rw [hd]; exact ⟨h, rfl⟩
  | hangUp => exact Within.hangUp.silent h
  | fail message => exact (Within.fail message).silent h
  | drain => exact ⟨h, rfl⟩
  | work g fresh =>
    rw [Connection.step, work]
    split <;> exact ⟨h, rfl⟩
  | forward g => exact (Within.forward g).silent h
  | report g => exact (Within.report g).silent h
  | reap g => exact (Within.reap g).silent h
  | write => exact Within.write.silent h
  | breakOff => exact Within.breakOff.silent h

structure Orderly (number limit : Nat) (c : Connection) (s : Store) : Prop where
  numbered : c.number = number
  limit : s.limit = limit
  stream : ∀ m g, c.streams.get? m = some g → g < c.opened
  task : ∀ g t, c.tasks.get? g = some t → g < c.opened ∧ t.key.connection = number ∧
    t.key.generation = g ∧ t.session.Owns t.key.text s
  absent : ∀ k : StreamKey, k.connection = number → c.opened ≤ k.generation →
    s.live.get? ⟨k.text⟩ = none
  parcel : ∀ p ∈ c.written ++ c.queue, (∀ g, p.generation = some g → g < c.opened) ∧
    (p.generation = none → ∃ n text, p.frame = .error n text)
  quiet : c.broken = true → c.queue = []

namespace Orderly

variable {number limit : Nat} {c d : Connection} {s u : Store}

theorem within (h : c.Orderly number limit s) (hw : c.Within d) : d.Orderly number limit s where
  numbered := hw.number.trans h.numbered
  limit := h.limit
  stream m g hm := hw.opened ▸ h.stream m g (hw.streams m g hm)
  task g t ht := by
    obtain ⟨x, hx, hk, hs⟩ := hw.tasks g t ht
    rw [hw.opened, hk, hs]
    exact h.task g x hx
  absent k hk hg := h.absent k hk (hw.opened ▸ hg)
  parcel p hp := by
    rw [hw.opened]
    rcases hw.parcels p hp with hp | ⟨hn, he⟩ | ⟨g, t, hg, ht⟩
    · exact h.parcel p hp
    · exact ⟨by simp [hn], fun _ => he⟩
    · refine ⟨fun k hk => ?_, by simp [hg]⟩
      obtain rfl : g = k := Option.some.inj (hg.symm.trans hk)
      exact (h.task g t ht).1
  quiet := hw.quiet h.quiet

theorem store (h : c.Orderly number limit s) (hl : u.limit = s.limit)
    (he : ∀ k : StreamKey, k.connection = number →
      u.live.get? ⟨k.text⟩ = s.live.get? ⟨k.text⟩) : c.Orderly number limit u where
  numbered := h.numbered
  limit := hl.trans h.limit
  stream := h.stream
  task g t ht := by
    obtain ⟨ho, hn, hg, hs⟩ := h.task g t ht
    exact ⟨ho, hn, hg, hs.congr (he t.key hn)⟩
  absent k hk hg := (he k hk).trans (h.absent k hk hg)
  parcel := h.parcel
  quiet := h.quiet

theorem task_opened (h : c.Orderly number limit s) : c.tasks.get? c.opened = none := by
  cases ht : c.tasks.get? c.opened with
  | none => rfl
  | some t => exact absurd (h.task c.opened t ht).1 (Nat.lt_irrefl _)

theorem framesOf_opened (h : c.Orderly number limit s) :
    framesOf c.opened (c.written ++ c.queue) = [] := by
  rw [framesOf, List.map_eq_nil_iff, List.filter_eq_nil_iff]
  intro p hp hg
  exact Nat.lt_irrefl _ ((h.parcel p hp).1 c.opened (by simpa using hg))

theorem openStream (h : c.Orderly number limit s) (stream : UInt64) (item : Item) :
    (c.openStream stream item).Orderly number limit s where
  numbered := h.numbered
  limit := h.limit
  stream m g hm := by
    rcases Table.get?_insert_eq_some hm with hm | ⟨-, rfl⟩
    · exact Nat.lt_succ_of_lt (h.stream m g hm)
    · exact Nat.lt_succ_self _
  task g t ht := by
    rcases Table.get?_insert_eq_some ht with ht | ⟨rfl, rfl⟩
    · obtain ⟨ho, ht⟩ := h.task g t ht
      exact ⟨Nat.lt_succ_of_lt ho, ht⟩
    · have ha := h.absent ⟨c.number, stream, c.opened⟩ h.numbered (Nat.le_refl _)
      exact ⟨Nat.lt_succ_self _, h.numbered, rfl, Session.owns_start ha⟩
  absent k hk hg := h.absent k hk (Nat.le_of_succ_le hg)
  parcel p hp := by
    obtain ⟨hg, he⟩ := h.parcel p hp
    exact ⟨fun g hp => Nat.lt_succ_of_lt (hg g hp), he⟩
  quiet := h.quiet

section Work

variable {service : Service} (hp : service.correlation.preferIdentity = true)
include hp

/-- A session at work reaches no name but that of its own stream. -/
theorem store_work (h : c.Orderly number limit s) {g : Nat} (fresh : TransactionId)
    {k : StreamKey} (hk : k.connection = number → k.generation ≠ g) :
    (c.work service g fresh s).2.limit = s.limit ∧
      (c.work service g fresh s).2.live.get? ⟨k.text⟩ = s.live.get? ⟨k.text⟩ := by
  unfold Connection.work
  split
  · next t ht =>
    obtain ⟨-, hn, hg, hs⟩ := h.task g t ht
    obtain ⟨-, -, hb⟩ := StreamTask.owns_work hp hs fresh
    have he : k ≠ t.key := by
      rintro rfl
      exact hk hn hg
    exact ⟨hb.limit, hb.entry _ (StreamKey.id_ne he)⟩
  · exact ⟨rfl, rfl⟩

theorem work (h : c.Orderly number limit s) (g : Nat) (fresh : TransactionId) :
    (c.work service g fresh s).1.Orderly number limit (c.work service g fresh s).2 := by
  cases ht : c.tasks.get? g with
  | none => simpa [Connection.work, ht] using h
  | some t =>
    obtain ⟨ho, hn, hg, hs⟩ := h.task g t ht
    obtain ⟨hk, hw, hb⟩ := StreamTask.owns_work hp hs fresh
    have hu {k : StreamKey} (hk : k.generation ≠ g) := h.store_work hp fresh fun _ => hk
    rw [work_of_task ht] at hu ⊢
    refine ⟨h.numbered, hb.limit.trans h.limit, h.stream, fun j u hj => ?_, fun k hk hj => ?_,
      h.parcel, h.quiet⟩
    · by_cases he : j = g
      · subst he
        rw [get?_setTask_self ht] at hj
        obtain rfl := Option.some.inj hj
        rw [hk]
        exact ⟨ho, hn, hg, hw⟩
      · rw [get?_setTask_of_ne he] at hj
        obtain ⟨ho, hn, hk, hs⟩ := h.task j u hj
        exact ⟨ho, hn, hk, hs.congr (hu (hk ▸ he)).2⟩
    · rw [(hu (Nat.ne_of_gt (Nat.lt_of_lt_of_le ho hj))).2]
      exact h.absent k hk hj

end Work

theorem step (h : c.Orderly number limit s) {service : Service}
    (hp : service.correlation.preferIdentity = true) (a : Act) :
    (c.step service s a).1.Orderly number limit (c.step service s a).2 := by
  cases a with
  | frame frame =>
    have hr : c.Orderly number limit (s.record .streamStarted) := h.store rfl fun _ _ => rfl
    have hd {u : Store} (hu : c.Orderly number limit u) :
        (c.dispatch frame).Orderly number limit u := by
      rcases c.within_or_opens frame with hw | ⟨stream, event, -, -, hd⟩
      · exact hu.within hw
      · exact hd ▸ hu.openStream stream _
    rw [Connection.step, takeFrame]
    split
    · exact h
    · dsimp only
      split
      · exact hd h
      · exact hd hr
  | hangUp => exact h.within .hangUp
  | fail message => exact h.within (.fail message)
  | drain => exact h.within { Within.refl c with }
  | work g fresh => exact h.work hp g fresh
  | forward g => exact h.within (.forward g)
  | report g => exact h.within (.report g)
  | reap g => exact h.within (.reap g)
  | write => exact h.within .write
  | breakOff => exact h.within .breakOff

end Orderly

end Connection

end BodyCallout
