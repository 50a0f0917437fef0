import Mathlib.Data.Fintype.EquivFin
import BodyCallout.Proofs.Service.Changes
import BodyCallout.Proofs.Service.Demultiplexing
import BodyCallout.Proofs.Session.Telling
import BodyCallout.Settings.Basic

/-!
A number that is used again. The client sees the number and not the generation, and the sessions of
two generations take turns as they like. So whether the answers to the old stream come before those
to the new one depends on what was still owed when the number was used again.
-/

set_option autoImplicit false

namespace BodyCallout

/-- An answer is yet to be passed on, or to be made. -/
def StreamTask.Owes (t : StreamTask) : Prop :=
  t.outbox ≠ [] ∨ t.stage = .running ∧ ∃ event rest, t.inbox = .event event :: rest

theorem StreamTask.owes_of_work {service : Service} {t : StreamTask} {fresh : TransactionId}
    {s : Store} (h : (t.work service fresh s).1.Owes) : t.Owes := by
  by_contra hn
  have ho : t.outbox = [] := not_not.mp fun ho => hn (.inl ho)
  refine absurd h ?_
  unfold StreamTask.work
  split
  · next event rest hs hi => exact absurd (.inr ⟨hs, event, rest, hi⟩) hn
  · simp [Owes, StreamTask.finish, ho]
  · exact hn

def Parcel.answers? (stream : UInt64) (p : Parcel) : Option Nat :=
  match p.frame with
  | .answer n _ => if n = stream then p.generation else none
  | .error _ _ => none

/-- The generations that are answered under the number, one answer after the other. -/
def answering (stream : UInt64) (parcels : List Parcel) : List Nat :=
  parcels.filterMap (Parcel.answers? stream)

/-- After an answer to this generation or a later one comes none to an earlier. -/
def InOrder (stream : UInt64) (g : Nat) (parcels : List Parcel) : Prop :=
  (answering stream parcels).Pairwise fun a b => g ≤ a → g ≤ b

section Answering

variable {stream : UInt64} {g h : Nat} {parcels rest : List Parcel}

theorem answering_append : answering stream (parcels ++ rest) =
    answering stream parcels ++ answering stream rest := List.filterMap_append

theorem InOrder.of_prefix (ho : InOrder stream g rest) (hp : parcels <+: rest) :
    InOrder stream g parcels :=
  List.Pairwise.sublist (hp.sublist.filterMap _) ho

theorem InOrder.concat {p : Parcel} (ho : InOrder stream g parcels)
    (hp : ∀ h, p.answers? stream = some h → g ≤ h) : InOrder stream g (parcels ++ [p]) := by
  rw [InOrder, answering_append, List.pairwise_append]
  refine ⟨ho, ?_, fun a _ b hb _ => ?_⟩
  · cases ha : p.answers? stream <;> simp [answering, ha]
  · obtain ⟨q, hq, hqb⟩ := List.mem_filterMap.mp hb
    obtain rfl := List.mem_singleton.mp hq
    exact hp b hqb

end Answering

namespace Connection

variable {service : Service} {number : Nat} {c : Connection} {s : Store} {stream : UInt64} {g : Nat}

theorem Sent.answers {a : Act} {p : Parcel} (hp : c.Sent a p) {h : Nat}
    (ha : p.answers? stream = some h) :
    ∃ t, c.tasks.get? h = some t ∧ t.key.stream = stream ∧ t.Owes := by
  cases hp with
  | answer k t answer rest ht ho =>
    rw [Parcel.answers?] at ha
    split at ha
    · next n _ hf =>
      cases hf
      split at ha
      · next hn =>
        obtain rfl := Option.some.inj ha
        exact ⟨t, ht, hn, .inl (by simp [ho])⟩
      · cases ha
    · cases ha
  | error => cases ha

/-- All that was sent was sent for streams that were opened before. -/
def Dated (c : Connection) : Prop := ∀ stream, ∀ g ∈ answering stream c.parcels, g < c.opened

theorem dated_start (number maxStreams : Nat) : (start number maxStreams).Dated := fun _ => nofun

theorem Dated.step (hd : c.Dated) (hf : c.Filed number) (service : Service) (s : Store) (a : Act) :
    (c.step service s a).1.Dated := by
  intro stream g hg
  refine Nat.lt_of_lt_of_le ?_ (c.opened_le_step service s a)
  rcases c.parcels_step service s a with hp | ⟨p, hp, he⟩
  · exact hd stream g ((hp.sublist.filterMap _).subset hg)
  · rw [he, answering_append, List.mem_append] at hg
    rcases hg with hg | hg
    · exact hd stream g hg
    · obtain ⟨q, hq, ha⟩ := List.mem_filterMap.mp hg
      obtain rfl := List.mem_singleton.mp hq
      obtain ⟨t, ht, -⟩ := hp.answers ha
      exact (hf.task g t ht).1

/-- Since a generation of the number was opened, the earlier ones have owed nothing. -/
structure Past (stream : UInt64) (g : Nat) (c : Connection) : Prop where
  opened : g < c.opened
  named : ∀ h, c.streams.get? stream = some h → g ≤ h
  settled : ∀ h t, c.tasks.get? h = some t → t.key.stream = stream → t.Owes → g ≤ h
  order : InOrder stream g c.parcels

theorem Past.step (hp : c.Past stream g) (hf : c.Filed number) (service : Service) (s : Store)
    (a : Act) : (c.step service s a).1.Past stream g where
  opened := Nat.lt_of_lt_of_le hp.opened (c.opened_le_step service s a)
  named h hm := by
    rcases c.step_cases service s a with ⟨m, event, -, -, he⟩ | ⟨k, fresh, rfl⟩ | hw
    · rw [he] at hm
      rcases Table.get?_insert_eq_some hm with hm | ⟨-, rfl⟩
      · exact hp.named h hm
      · exact Nat.le_of_lt hp.opened
    · obtain ⟨tasks, he⟩ := work_eq service k fresh c s
      rw [Connection.step, he] at hm
      exact hp.named h hm
    · exact hp.named h (hw.streams stream h hm)
  settled h u hu hk ho := by
    cases change_step hu with
    | opened m event _ _ hg => exact hg ▸ Nat.le_of_lt hp.opened
    -- To be told something the stream needs its number, and that names no earlier one any more.
    | told t items ht hi =>
      cases items with
      | nil => exact hp.settled h t ht hk (by simpa using ho)
      | cons item rest =>
        obtain ⟨-, m, hm⟩ := hi (List.cons_ne_nil _ _)
        obtain rfl : t.key.stream = m := (hf.stream m h hm).2 t ht
        exact hp.named h (hk ▸ hm)
    | worked t fresh ht =>
      rw [(t.keeps_work service fresh s).1] at hk
      exact hp.settled h t ht hk (StreamTask.owes_of_work ho)
    | forwarded t answer rest ht _ hb => exact hp.settled h t ht hk (.inl (by simp [hb]))
    | cutOff t ht => exact hp.settled h t ht hk (.inr (ho.resolve_left (by simp)))
    | reported t fault ht hs hb =>
      rcases ho with ho | ⟨hr, -⟩
      · exact absurd hb ho
      · cases hr
  order := by
    rcases c.parcels_step service s a with he | ⟨p, hs, he⟩
    · exact hp.order.of_prefix he
    · rw [he]
      refine hp.order.concat fun h ha => ?_
      obtain ⟨t, ht, hk, ho⟩ := hs.answers ha
      exact hp.settled h t ht hk ho

/-- A number is used again when nothing is owed under it. -/
theorem past_openStream (hd : c.Dated) (hs : c.streams.get? stream = none)
    (hn : ∀ h t, c.tasks.get? h = some t → t.key.stream = stream → ¬ t.Owes) (item : Item) :
    (c.openStream stream item).Past stream c.opened where
  opened := Nat.lt_succ_self _
  named h hm := by
    rcases Table.get?_insert_eq_some hm with hm | ⟨-, rfl⟩
    · cases hs.symm.trans hm
    · exact Nat.le_refl _
  settled h t ht hk ho := by
    rcases Table.get?_insert_eq_some ht with ht | ⟨rfl, -⟩
    · exact absurd ho (hn h t ht hk)
    · exact Nat.le_refl _
  order := by
    refine List.pairwise_iff_forall_sublist.mpr fun {a b} hab hg => ?_
    exact absurd (hd stream a (hab.subset (by simp))) (Nat.not_lt_of_le hg)

end Connection

theorem Store.exists_absent (s : Store) : ∃ id, s.live.get? id = none := by
  have hi : Function.Injective fun n : Nat => TransactionId.mk (StreamKey.text ⟨n, 0, 0⟩) :=
    fun m n h => (StreamKey.mk.inj (StreamKey.text_injective (TransactionId.mk.inj h))).1
  have := Infinite.of_injective _ hi
  obtain ⟨id, hid⟩ := Infinite.exists_notMem_finset s.live.keys.toFinset
  exact ⟨id, Table.get?_eq_none_iff.mpr fun hm => hid (List.mem_toFinset.mpr hm)⟩

theorem Session.exists_answer (service : Service) {session : Session} {s : Store} (event : Event)
    (h : service.correlation.preferIdentity = true → ∃ text, session.Owns text s) :
    ∃ fresh next u a, session.handle service event fresh s = (next, u, .ok a) := by
  cases hp : service.correlation.preferIdentity with
  | true =>
    obtain ⟨text, ho⟩ := h hp
    obtain ⟨next, u, a, hh, -⟩ := ho.answers hp event ⟨""⟩
    exact ⟨⟨""⟩, next, u, a, hh⟩
  | false =>
    obtain ⟨fresh, hf⟩ := (session.finish s).2.exists_absent
    rcases event with ⟨⟨⟩, part⟩ | ⟨side, part⟩ | ⟨side, part⟩
    case headers.request =>
      have hl : service.correlation.lastResort session.identity fresh = fresh := by
        simp [Correlation.lastResort, hp]
      obtain ⟨id, source, ha, he⟩ := Correlation.assign_of_lastResort (by rw [hl]; exact hf) part
      exact ⟨fresh, _, _, _, session.handle_of_assigned service fresh s ha he⟩
    all_goals exact ⟨fresh, _, _, _, rfl⟩

namespace Connection

open Move

variable {service : Service} {number : Nat} {c : Connection} {s : Store} {g : Nat} {t : StreamTask}

structure Ready (service : Service) (number : Nat) (w : Connection × Store) : Prop where
  filed : w.1.Filed number
  whole : w.1.broken = false
  orderly : service.correlation.preferIdentity = true →
    ∃ limit, w.1.Orderly number limit w.2

theorem Ready.step {w : Connection × Store} (h : Ready service number w) {a : Act}
    (hd : a ≠ .drain) (hb : a ≠ .breakOff) : Ready service number (w.1.step service w.2 a) where
  filed := h.filed.step service w.2 a
  whole := (congrArg (·.2.2.2) (fixed_step hd hb service w.2)).trans h.whole
  orderly hp := by
    obtain ⟨limit, ho⟩ := h.orderly hp
    exact ⟨limit, ho.step hp a⟩

theorem parcels_forward (hb : c.broken = false) (ht : c.tasks.get? g = some t) {answer : Answer}
    {rest : List Answer} (ho : t.outbox = answer :: rest) :
    (c.forward g).parcels = c.parcels ++ [⟨some g, .answer t.key.stream answer⟩] ∧
      ∀ h, h ≠ g → (c.forward g).tasks.get? h = c.tasks.get? h := by
  have hs : (c.setTask g { t with outbox := rest }).broken = false := hb
  have hf : c.forward g = (c.setTask g { t with outbox := rest }).send
      ⟨some g, .answer t.key.stream answer⟩ := by simp [forward, ht, ho, hb]
  rw [hf, send_of_whole _ hs]
  exact ⟨(List.append_assoc ..).symm, fun h hh => get?_setTask_of_ne hh _⟩

/-- What is owed can be sent next. -/
theorem Ready.answer {w : Connection × Store} (hw : Ready service number w)
    (ht : w.1.tasks.get? g = some t) (ho : t.Owes) :
    ∃ moves, Sparing service number w moves ∧ Ready service number (run service w moves) ∧
      (∃ answer, (run service w moves).1.parcels =
        w.1.parcels ++ [⟨some g, .answer t.key.stream answer⟩]) ∧
      ∀ h, h ≠ g → (run service w moves).1.tasks.get? h = w.1.tasks.get? h := by
  cases hq : t.outbox with
  | cons answer rest =>
    obtain ⟨hp, hk⟩ := parcels_forward hw.whole ht hq
    have hr := hw.step (a := .forward g) (by simp) (by simp)
    exact ⟨[act (.forward g)], ⟨trivial, trivial⟩, hr, ⟨answer, hp⟩, hk⟩
  -- Nothing is made yet: the session answers its next event first, and the answer is sent then.
  | nil =>
    obtain ⟨hs, event, rest, hi⟩ := ho.resolve_left (by simp [hq])
    have hf : t.forwarding = true := (hw.filed.task g t ht).2.2.2.2 hw.whole
    obtain ⟨fresh, next, u, answer, hh⟩ := Session.exists_answer service event fun hp => by
      obtain ⟨limit, ho⟩ := hw.orderly hp
      exact ⟨_, (ho.task g t ht).2.2.2⟩
    have he : w.1.step service w.2 (.work g fresh) = (w.1.setTask g
        { t with session := next, inbox := rest, outbox := [answer] }, u) := by
      rw [Connection.step, work_of_task ht]
      simp [StreamTask.work, hs, hi, hh, hf, hq]
    have hr := hw.step (a := .work g fresh) (by simp) (by simp)
    rw [he] at hr
    obtain ⟨hp, hk⟩ := parcels_forward hr.whole (get?_setTask_self ht _) rfl
    have hrun : run service w [act (.work g fresh), act (.forward g)] =
        Connection.step service (w.1.setTask g
          { t with session := next, inbox := rest, outbox := [answer] }) u (.forward g) := by
      rw [run_cons, take, he]
      rfl
    refine ⟨[act (.work g fresh), act (.forward g)], ⟨trivial, trivial, trivial⟩, ?_⟩
    rw [hrun]
    refine ⟨hr.step (by simp) (by simp), ⟨answer, hp⟩, fun h hh => ?_⟩
    exact (hk h hh).trans (get?_setTask_of_ne hh _)

theorem exists_written (service : Service) (number : Nat) (w : Connection × Store) :
    ∃ moves, Sparing service number w moves ∧ (run service w moves).1.written = w.1.parcels := by
  generalize hq : w.1.queue = queue
  induction queue generalizing w with
  | nil => exact ⟨[], trivial, by simp [run, parcels, hq]⟩
  | cons p rest ih =>
    have he : (act .write).take service w =
        ({ w.1 with queue := rest, written := w.1.written ++ [p] }, w.2) := by
      simp [take, step, write, hq]
    obtain ⟨moves, hs, hw⟩ := ih ((act .write).take service w) (by rw [he])
    refine ⟨act .write :: moves, ⟨trivial, hs⟩, hw.trans ?_⟩
    rw [he]
    simp [parcels, hq]

namespace Move

variable {w : Connection × Store} {before : List Move} {stream : UInt64} {u : StreamTask}

theorem run_induction {P : Connection → Prop} (hs : ∀ c s a, P c → P (step service c s a).1)
    (h : P w.1) (moves : List Move) : P (run service w moves).1 := by
  induction moves generalizing w with
  | nil => exact h
  | cons m rest ih =>
    cases m with
    | around f => exact ih (w := (w.1, f w.2)) h
    | act a => exact ih (w := w.1.step service w.2 a) (hs _ _ _ h)

theorem filed_run (h : w.1.Filed number) (moves : List Move) :
    (run service w moves).1.Filed number :=
  run_induction (fun _ s a hf => hf.step service s a) h moves

theorem dated_run (h : w.1.Filed number) (hd : w.1.Dated) (moves : List Move) :
    (run service w moves).1.Dated :=
  (run_induction (P := fun c => c.Filed number ∧ c.Dated)
    (fun _ s a hc => ⟨hc.1.step service s a, hc.2.step hc.1 service s a⟩) ⟨h, hd⟩ moves).2

theorem past_run (service : Service) (h : w.1.Filed number) (hp : w.1.Past stream g)
    (moves : List Move) : (run service w moves).1.Past stream g :=
  (run_induction (P := fun c => c.Filed number ∧ c.Past stream g)
    (fun _ s a hc => ⟨hc.1.step service s a, hc.2.step hc.1 service s a⟩) ⟨h, hp⟩ moves).2

/-- If something is owed under a number that is used again, the new stream can be answered first. -/
theorem exists_out_of_order {h : Nat} (hw : Ready service number w) (hg : w.1.tasks.get? g = some t)
    (hh : w.1.tasks.get? h = some u) (hl : h < g) (ht : t.key.stream = stream)
    (hu : u.key.stream = stream) (ho : t.Owes) (hv : u.Owes) :
    ∃ after, Sparing service number w after ∧
      ¬ InOrder stream g (run service w after).1.written := by
  obtain ⟨first, hs₁, hw₁, ⟨a, ha⟩, hk⟩ := hw.answer hg ho
  obtain ⟨second, hs₂, -, ⟨b, hb⟩, -⟩ :=
    hw₁.answer ((hk h (Nat.ne_of_lt hl)).trans hh) hv
  obtain ⟨third, hs₃, he⟩ := exists_written service number
    (run service (run service w first) second)
  refine ⟨first ++ second ++ third, ?_, fun hi => ?_⟩
  · rw [sparing_append, sparing_append, Move.run_append]
    exact ⟨⟨hs₁, hs₂⟩, hs₃⟩
  · rw [Move.run_append, Move.run_append, he, hb, ha, InOrder, answering_append,
      List.pairwise_append] at hi
    have hga : g ∈ answering stream (w.1.parcels ++ [⟨some g, .answer t.key.stream a⟩]) := by
      simp [answering, Parcel.answers?, ht]
    have hhb : h ∈ answering stream [⟨some h, .answer u.key.stream b⟩] := by
      simp [answering, Parcel.answers?, hu]
    exact Nat.not_lt_of_le (hi.2.2 g hga h hhb (Nat.le_refl g)) hl

theorem ready_run {maxStreams : Nat} {s : Store}
    (hs : ∀ k : StreamKey, k.connection = number → s.live.get? ⟨k.text⟩ = none)
    (hm : Sparing service number (start number maxStreams, s) before)
    (hb : (run service (start number maxStreams, s) before).1.broken = false) :
    Ready service number (run service (start number maxStreams, s) before) where
  filed := filed_run (filed_start number maxStreams) before
  whole := hb
  orderly hp := ⟨s.limit, orderly_run hp (orderly_start maxStreams hs) hm⟩

theorem opens_of_room (hg : (run service w before).1.opened = g)
    (hh : (run service w before).1.hungUp = false)
    (hs : (run service w before).1.streams.get? stream = none)
    (hd : (run service w before).1.draining = false)
    (hr : (run service w before).1.streams.size < (run service w before).1.maxStreams)
    (event : Event) : Opens service w before stream event g where
  opened := hg
  hungUp := hh
  absent := hs
  taken := by simp [take, step, takeFrame, hh, dispatch_of_room hd hs hr, openStream]

section Opens

variable {event : Event} (ho : Opens service w before stream event g)
include ho

theorem Opens.in_order (hf : w.1.Filed number) (hd : w.1.Dated)
    (hn : ∀ h t, (run service w before).1.tasks.get? h = some t → t.key.stream = stream →
      ¬ t.Owes) (after : List Move) : InOrder stream g
        (run service w (before ++ act (.frame (.message stream event)) :: after)).1.written := by
  have hp := past_openStream (dated_run hf hd before) ho.absent hn (.event event)
  have hk := (filed_run hf before).openStream ho.absent (.event event)
  rw [ho.opened] at hp
  rw [ho.run_append]
  have hr := past_run service (w := (_, (run service w before).2.record .streamStarted)) hk hp after
  exact hr.order.of_prefix (List.prefix_append _ _)

theorem Opens.exists_out_of_order (hr : Ready service number (run service w before))
    (hm : Sparing service number w before) {h : Nat}
    (ht : (run service w before).1.tasks.get? h = some t) (hk : t.key.stream = stream)
    (hv : t.Owes) :
    ∃ after, Sparing service number w (before ++ act (.frame (.message stream event)) :: after) ∧
      ¬ InOrder stream g
        (run service w (before ++ act (.frame (.message stream event)) :: after)).1.written := by
  have hl := (hr.filed.task h t ht).1
  have hw : Ready service number ((act (.frame (.message stream event))).take service
    (run service w before)) := hr.step (a := .frame (.message stream event)) nofun nofun
  rw [ho.taken] at hw
  obtain ⟨after, ha, hi⟩ := Move.exists_out_of_order hw
    (Table.get?_insert_self hr.filed.absent_opened _)
    ((Table.get?_insert_of_ne (Nat.ne_of_lt hl) _).trans ht) hl rfl hk
    (.inr ⟨rfl, event, [], rfl⟩) hv
  refine ⟨after, sparing_append.mpr ⟨hm, trivial, ?_⟩, ?_⟩
  · rw [ho.taken]
    exact ha
  · rw [ho.run_append, ← ho.opened]
    exact hi

end Opens

end Move

/-- A number is used for a stream of generation `g`. If by then nothing is owed under that number,
no answer to an earlier stream is ever written after one to this stream or a later one. If something
is owed, and the writer works, the parts of the connection can take their steps so that one is. -/
theorem in_order_of_nothing_owed (service : Service) (number maxStreams : Nat) (s : Store)
    {before : List Move} {stream : UInt64} {event : Event} {g : Nat}
    (ho : Opens service (start number maxStreams, s) before stream event g) :
    let w := (start number maxStreams, s)
    let c := (run service w before).1
    let message := act (.frame (.message stream event))
    ((∀ h t, c.tasks.get? h = some t → t.key.stream = stream → ¬ t.Owes) →
      ∀ after, InOrder stream g (run service w (before ++ message :: after)).1.written) ∧
    ((∀ k : StreamKey, k.connection = number → s.live.get? ⟨k.text⟩ = none) →
      Sparing service number w before → c.broken = false →
      (∃ h t, c.tasks.get? h = some t ∧ t.key.stream = stream ∧ t.Owes) →
      ∃ after, Sparing service number w (before ++ message :: after) ∧
        ¬ InOrder stream g (run service w (before ++ message :: after)).1.written) := by
  intro w c message
  refine ⟨ho.in_order (filed_start number maxStreams) (dated_start number maxStreams), ?_⟩
  rintro hs hm hb ⟨h, t, ht, hk, hv⟩
  exact ho.exists_out_of_order (ready_run hs hm hb) hm ht hk hv

/-- One client waits until its stream is answered before it uses the number again, one does not. -/
theorem in_order_of_answered_stream :
    let service : Service := ⟨⟨Classifier.builder, true, .skip⟩, .standard⟩
    let headers : Event := .headers .request ⟨[], false⟩
    let message := act (.frame (.message 1 headers))
    let patient := [message, act (.work 0 ⟨"f"⟩), act (.forward 0), act (.frame (.finish 1))]
    let hasty := [message, act (.frame (.finish 1))]
    let w := (start 3 4, Store.empty 16)
    (∀ after, InOrder 1 1 (run service w (patient ++ message :: after)).1.written) ∧
      ∃ after, Sparing service 3 w (hasty ++ message :: after) ∧
        ¬ InOrder 1 1 (run service w (hasty ++ message :: after)).1.written := by
  intro service headers message patient hasty w
  have hp : Opens service w patient 1 headers 1 := opens_of_room (by decide +kernel)
    (by decide +kernel) (by decide +kernel) (by decide +kernel) (by decide +kernel) headers
  have hq : Opens service w hasty 1 headers 1 := opens_of_room (by decide +kernel)
    (by decide +kernel) (by decide +kernel) (by decide +kernel) (by decide +kernel) headers
  have he : ∀ e ∈ (run service w patient).1.tasks.entries,
      e.2.outbox = [] ∧ e.2.inbox = [.finish] := by decide +kernel
  have hn : ∀ h t, (run service w patient).1.tasks.get? h = some t → t.key.stream = 1 →
      ¬ t.Owes := by
    rintro h t ht - (hv | ⟨-, event, rest, hv⟩)
    · exact hv (he (h, t) (Table.get?_eq_some_iff.mp ht)).1
    · cases (he (h, t) (Table.get?_eq_some_iff.mp ht)).2.symm.trans hv
  have ho : ((run service w hasty).1.tasks.get? 0).map (fun t => (t.key.stream, t.stage, t.inbox)) =
      some (1, .running, [.event headers, .finish]) := by decide +kernel
  have hb : (run service w hasty).1.broken = false := by decide +kernel
  have hs : Sparing service 3 w hasty := ⟨trivial, trivial, trivial⟩
  have hf := (in_order_of_nothing_owed service 3 4 (Store.empty 16) hp).1
  have hl := (in_order_of_nothing_owed service 3 4 (Store.empty 16) hq).2
  obtain ⟨t, ht, hk⟩ := Option.map_eq_some_iff.mp ho
  simp only [Prod.mk.injEq] at hk
  exact ⟨hf hn, hl (fun _ _ => rfl) hs hb
    ⟨0, t, ht, hk.1, .inr ⟨hk.2.1, headers, [.finish], hk.2.2⟩⟩⟩

/-- Both generations of the number are given something to answer, and the later one is answered
first. -/
theorem answered_out_of_order :
    ¬ ∀ (service : Service) (number maxStreams : Nat) (s : Store) (acts : List Act)
      (stream : UInt64), (answering stream
        (steps service (start number maxStreams) s acts).1.written).Pairwise (· ≤ ·) := by
  intro h
  let headers : Event := .headers .request ⟨[], false⟩
  have ho := h ⟨⟨Classifier.builder, true, .skip⟩, .standard⟩ 3 4 (.empty 16)
    [.frame (.message 1 headers), .frame (.finish 1), .frame (.message 1 headers),
      .work 1 ⟨"f"⟩, .forward 1, .work 0 ⟨"f"⟩, .forward 0, .write, .write] 1
  exact absurd ho (by decide +kernel)

end Connection

end BodyCallout
