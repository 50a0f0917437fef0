import BodyCallout.Proofs.Session.Keeping
import BodyCallout.Service.Connection

set_option autoImplicit false

namespace BodyCallout

namespace Table

variable {κ α : Type} [DecidableEq κ] {t : Table κ α} {j k : κ} {a b : α}

theorem get?_insert_eq_some (h : (t.insert k a).get? j = some b) :
    t.get? j = some b ∨ j = k ∧ b = a := by
  by_cases hj : j = k
  · subst hj
    cases ht : t.get? j with
    | none => rw [get?_insert_self ht] at h; exact .inr ⟨rfl, (Option.some.inj h).symm⟩
    | some c => rw [insert_of_get? ht, ht] at h; exact .inl h
  · rw [get?_insert_of_ne hj] at h
    exact .inl h

theorem get?_erase_eq_some : (t.erase k).get? j = some b ↔ j ≠ k ∧ t.get? j = some b := by
  by_cases hj : j = k
  · subst hj; simp [get?_erase_self]
  · simp [get?_erase_of_ne t hj, hj]

end Table

def framesOf (generation : Nat) (parcels : List Parcel) : List Outbound :=
  (parcels.filter fun p => p.generation = some generation).map Parcel.frame

theorem framesOf_append (generation : Nat) (parcels rest : List Parcel) :
    framesOf generation (parcels ++ rest) =
      framesOf generation parcels ++ framesOf generation rest := by
  simp [framesOf]

/-- What a connection has of one stream: the numbers by which it is reached, its task, and its
frames, written or queued. -/
structure Strand where
  broken : Bool
  hungUp : Bool
  names : UInt64 → Prop
  task : Option StreamTask
  frames : List Outbound

namespace Connection

def strand (c : Connection) (generation : Nat) : Strand where
  broken := c.broken
  hungUp := c.hungUp
  names stream := c.streams.get? stream = some generation
  task := c.tasks.get? generation
  frames := framesOf generation (c.written ++ c.queue)

/-- What can become of a message: its stream takes it, or is closed; or there is no such stream, and
it is refused or opened. -/
inductive Dealt (c : Connection) (stream : UInt64) (event : Event) : Connection → Prop where
  | delivered (g : Nat) (hs : c.streams.get? stream = some g) (ht : c.takes g = true) :
      Dealt c stream event (c.deliver g (.event event))
  | closed (g : Nat) (hs : c.streams.get? stream = some g) (ht : c.takes g = false) :
      Dealt c stream event ({ c with streams := c.streams.erase stream }.refuse stream .closed)
  | refused (r : StreamRefusal) (hs : c.streams.get? stream = none) :
      Dealt c stream event (c.refuse stream r)
  | opened (hs : c.streams.get? stream = none) :
      Dealt c stream event (c.openStream stream (.event event))

theorem dealt_dispatch (c : Connection) (stream : UInt64) (event : Event) :
    c.Dealt stream event (c.dispatch (.message stream event)) := by
  rw [dispatch]
  cases hs : c.streams.get? stream with
  | some g =>
    dsimp only
    split
    · next ht => exact .delivered g hs ht
    · next ht => exact .closed g hs (by simpa using ht)
  | none =>
    dsimp only
    split
    · exact .refused _ hs
    · split
      · exact .refused _ hs
      · exact .opened hs

/-- What can become of a task that is to pass on an answer: it has none, or nobody takes it, or it is
sent. -/
inductive Forwarded (c : Connection) (g : Nat) : Connection → Prop where
  | nothing : Forwarded c g c
  | cutOff (t : StreamTask) (ht : c.tasks.get? g = some t) (hb : c.broken = true) :
      Forwarded c g (c.setTask g { t with outbox := [], forwarding := false })
  | sent (t : StreamTask) (answer : Answer) (rest : List Answer) (ht : c.tasks.get? g = some t)
      (ho : t.outbox = answer :: rest) :
      Forwarded c g ((c.setTask g { t with outbox := rest }).send
        ⟨some g, .answer t.key.stream answer⟩)

theorem forwarded_forward (c : Connection) (g : Nat) : c.Forwarded g (c.forward g) := by
  unfold forward
  split
  · next t ht =>
    split
    · exact .nothing
    · next answer rest ho =>
      split
      · next hb => exact .cutOff t ht hb
      · exact .sent t answer rest ht ho
  · exact .nothing

/-- What can become of a task that is to end: it is not done yet, or it is over, with its fault sent
if there is one. -/
inductive Reported (c : Connection) (g : Nat) : Connection → Prop where
  | nothing : Reported c g c
  | ended (t : StreamTask) (ht : c.tasks.get? g = some t) (hs : t.stage = .ended none)
      (ho : t.outbox = []) : Reported c g (c.setTask g { t with stage := .over })
  | failed (t : StreamTask) (fault : SessionFault) (ht : c.tasks.get? g = some t)
      (hs : t.stage = .ended (some fault)) (ho : t.outbox = []) :
      Reported c g ((c.setTask g { t with stage := .over }).send
        ⟨some g, .error t.key.stream fault.message⟩)

theorem reported_report (c : Connection) (g : Nat) : c.Reported g (c.report g) := by
  unfold report
  split
  · next t ht =>
    split
    · next fault hs ho =>
      cases fault with
      | none => exact .ended t ht hs ho
      | some f => exact .failed t f ht hs ho
    · exact .nothing
  · exact .nothing

variable {c : Connection} {g h : Nat}

section Parts

variable (c)

theorem written_prefix_frames (g : Nat) : framesOf g c.written <+: (c.strand g).frames := by
  rw [strand, framesOf_append]
  exact List.prefix_append _ _

theorem send_of_whole (hb : c.broken = false) (parcel : Parcel) :
    c.send parcel = { c with queue := c.queue ++ [parcel] } := by
  simp [send, hb]

theorem strand_send_of_ne {parcel : Parcel} (hg : parcel.generation ≠ some g) :
    (c.send parcel).strand g = c.strand g := by
  cases hb : c.broken with
  | true => simp [send, hb]
  | false =>
    have hf : framesOf g [parcel] = [] := by simp [framesOf, hg]
    simp only [c.send_of_whole hb, strand, ← List.append_assoc, framesOf_append _ _ [parcel], hf,
      List.append_nil]

theorem strand_refuse (stream : UInt64) (r : StreamRefusal) :
    (c.refuse stream r).strand g = c.strand g := c.strand_send_of_ne nofun

theorem strand_setTask_of_ne (hg : h ≠ g) (task : StreamTask) :
    (c.setTask h task).strand g = c.strand g := by
  simp [setTask, strand, Table.get?_modify_of_ne _ (Ne.symm hg)]

theorem strand_deliver_of_ne (hg : h ≠ g) (item : Item) :
    (c.deliver h item).strand g = c.strand g := by
  simp [deliver, strand, Table.get?_modify_of_ne _ (Ne.symm hg)]

variable {c}

theorem strand_send_self (hb : c.broken = false) (frame : Outbound) :
    (c.send ⟨some g, frame⟩).strand g =
      { c.strand g with frames := (c.strand g).frames ++ [frame] } := by
  have hf : framesOf g [⟨some g, frame⟩] = [frame] := by simp [framesOf]
  simp only [c.send_of_whole hb, strand, ← List.append_assoc,
    framesOf_append _ _ [Parcel.mk (some g) frame], hf]

theorem get?_setTask_self {old : StreamTask} (ht : c.tasks.get? g = some old) (task : StreamTask) :
    (c.setTask g task).tasks.get? g = some task := by
  simp [setTask, Table.get?_modify_self, ht]

theorem get?_setTask_of_ne (hg : h ≠ g) (task : StreamTask) :
    (c.setTask g task).tasks.get? h = c.tasks.get? h := Table.get?_modify_of_ne _ hg _

theorem strand_setTask_self {old : StreamTask} (ht : c.tasks.get? g = some old)
    (task : StreamTask) : (c.setTask g task).strand g = { c.strand g with task := some task } := by
  simp only [strand, get?_setTask_self ht]
  rfl

theorem strand_write : c.write.strand g = c.strand g := by
  unfold write
  split
  · rfl
  · next hq => simp [strand, hq]

theorem strand_deliver_self {t : StreamTask} (ht : c.tasks.get? g = some t)
    (hs : t.stage = .running) (item : Item) :
    (c.deliver g item).strand g =
      { c.strand g with task := some { t with inbox := t.inbox ++ [item] } } := by
  simp only [deliver, strand, Table.get?_modify_self, ht, Option.map_some, if_pos hs]

theorem strand_erase (stream : UInt64) :
    ({ c with streams := c.streams.erase stream }).strand g =
      { c.strand g with names := fun m => m ≠ stream ∧ (c.strand g).names m } := by
  simp only [strand, Table.get?_erase_eq_some]

theorem strand_erase_of_ne {stream : UInt64} (hs : c.streams.get? stream ≠ some g) :
    ({ c with streams := c.streams.erase stream }).strand g = c.strand g := by
  rw [strand_erase]
  have hn : (fun m => m ≠ stream ∧ (c.strand g).names m) = (c.strand g).names := by
    funext m
    refine propext (and_iff_right_of_imp ?_)
    rintro hm rfl
    exact hs hm
  rw [hn]

theorem strand_giveUp_of_ne {stream : UInt64} (hs : c.streams.get? stream ≠ some g) (item : Item) :
    (c.giveUp stream item).strand g = c.strand g := by
  unfold giveUp
  split
  · rfl
  · next h hh =>
    have hg : h ≠ g := by rintro rfl; exact hs hh
    rw [strand_deliver_of_ne _ hg, strand_erase_of_ne hs]

theorem strand_giveUp_self {stream : UInt64} (hn : c.streams.get? stream = some g)
    {t : StreamTask} (ht : c.tasks.get? g = some t) (hs : t.stage = .running) (item : Item) :
    (c.giveUp stream item).strand g =
      { c.strand g with
        names := fun m => m ≠ stream ∧ (c.strand g).names m
        task := some { t with inbox := t.inbox ++ [item] } } := by
  have hc : c.giveUp stream item =
      { c with streams := c.streams.erase stream }.deliver g item := by
    simp [giveUp, hn]
  have he : ({ c with streams := c.streams.erase stream } : Connection).tasks.get? g = some t := ht
  rw [hc, strand_deliver_self he hs, strand_erase]

theorem strand_openStream {stream : UInt64} (hn : c.streams.get? stream = none) (hg : g < c.opened)
    (item : Item) : (c.openStream stream item).strand g = c.strand g := by
  have hm (m : UInt64) : (c.streams.insert stream c.opened).get? m = some g ↔
      c.streams.get? m = some g := by
    by_cases hm : m = stream
    · subst hm
      simp [Table.get?_insert_self hn, hn, Nat.ne_of_gt hg]
    · rw [Table.get?_insert_of_ne hm]
  simp [openStream, strand, hm, Table.get?_insert_of_ne (Nat.ne_of_lt hg)]

theorem strand_dispatch_of_ne {frame : Inbound} (hs : c.streams.get? frame.stream ≠ some g)
    (hg : g < c.opened) : (c.dispatch frame).strand g = c.strand g := by
  cases frame with
  | finish stream => exact strand_giveUp_of_ne hs _
  | abort stream reason => exact strand_giveUp_of_ne hs _
  | message stream event =>
    have hs : c.streams.get? stream ≠ some g := hs
    have hd := c.dealt_dispatch stream event
    generalize c.dispatch (.message stream event) = d at hd ⊢
    cases hd with
    | delivered h hh => exact strand_deliver_of_ne _ (by rintro rfl; exact hs hh) _
    | closed => rw [strand_refuse, strand_erase_of_ne hs]
    | refused r => exact strand_refuse _ _ _
    | opened hn => exact strand_openStream hn hg _

theorem strand_forward_of_ne (hg : h ≠ g) : (c.forward h).strand g = c.strand g := by
  have hf := c.forwarded_forward h
  generalize c.forward h = d at hf ⊢
  cases hf with
  | nothing => rfl
  | cutOff => exact strand_setTask_of_ne _ hg _
  | sent => rw [strand_send_of_ne _ (by simpa using hg), strand_setTask_of_ne _ hg]

theorem strand_report_of_ne (hg : h ≠ g) : (c.report h).strand g = c.strand g := by
  have hr := c.reported_report h
  generalize c.report h = d at hr ⊢
  cases hr with
  | nothing => rfl
  | ended => exact strand_setTask_of_ne _ hg _
  | failed => rw [strand_send_of_ne _ (by simpa using hg), strand_setTask_of_ne _ hg]

theorem strand_work_of_ne (hg : h ≠ g) (service : Service) (fresh : TransactionId) (s : Store) :
    (c.work service h fresh s).1.strand g = c.strand g := by
  unfold work
  split
  · exact strand_setTask_of_ne _ hg _
  · rfl

theorem get?_giveUp {m stream : UInt64} {item : Item}
    (hm : (c.giveUp stream item).streams.get? m = some g) :
    m ≠ stream ∧ c.streams.get? m = some g := by
  unfold giveUp at hm
  split at hm
  · next hn =>
    refine ⟨?_, hm⟩
    rintro rfl
    rw [hn] at hm
    cases hm
  · exact Table.get?_erase_eq_some.mp hm

theorem get?_hangUp (m : UInt64) : c.hangUp.streams.get? m ≠ some g := by
  have hf (keys : List UInt64) (h : (keys.foldl
      (fun c stream => c.giveUp stream (.abort closedReason)) c).streams.get? m = some g) :
      m ∉ keys ∧ c.streams.get? m = some g := by
    induction keys generalizing c with
    | nil => exact ⟨List.not_mem_nil, h⟩
    | cons stream rest ih =>
      obtain ⟨hr, hg⟩ := ih h
      obtain ⟨hs, hc⟩ := get?_giveUp hg
      exact ⟨by simp [hs, hr], hc⟩
  intro h
  obtain ⟨hk, hc⟩ := hf c.streams.keys h
  rw [Table.get?_eq_none_iff.mpr hk] at hc
  cases hc

section Task

variable {t : StreamTask} (ht : c.tasks.get? g = some t)
include ht

theorem forward_of_nothing (ho : t.outbox = []) : c.forward g = c := by
  simp [forward, ht, ho]

theorem strand_forward {a : Answer} {rest : List Answer} (hb : c.broken = false)
    (ho : t.outbox = a :: rest) :
    (c.forward g).strand g =
      { c.strand g with
        task := some { t with outbox := rest }
        frames := (c.strand g).frames ++ [.answer t.key.stream a] } := by
  have hc : c.forward g = (c.setTask g { t with outbox := rest }).send
      ⟨some g, .answer t.key.stream a⟩ := by
    simp [forward, ht, ho, hb]
  have hs : (c.setTask g { t with outbox := rest }).broken = false := hb
  rw [hc, strand_send_self hs, strand_setTask_self ht]

theorem report_of_running (hs : ∀ fault, t.stage ≠ .ended fault) : c.report g = c := by
  unfold report
  simp only [ht]
  split
  · next fault h _ => exact absurd h (hs fault)
  · rfl

theorem report_of_outbox (ho : t.outbox ≠ []) : c.report g = c := by
  unfold report
  simp only [ht]
  split
  · next h => exact absurd h ho
  · rfl

theorem strand_report (hs : t.stage = .ended none) (ho : t.outbox = []) :
    (c.report g).strand g = { c.strand g with task := some { t with stage := .over } } := by
  have hc : c.report g = c.setTask g { t with stage := .over } := by
    simp [report, ht, hs, ho]
  rw [hc, strand_setTask_self ht]

theorem reap_of_not_over (hs : t.stage ≠ .over) : c.reap g = c := by
  simp [reap, ht, hs]

theorem work_of_task (service : Service) (fresh : TransactionId) (s : Store) :
    c.work service g fresh s =
      (c.setTask g (t.work service fresh s).1, (t.work service fresh s).2) := by
  simp [work, ht]

theorem strand_work (service : Service) (fresh : TransactionId) (s : Store) :
    (c.work service g fresh s).1.strand g =
        { c.strand g with task := some (t.work service fresh s).1 } ∧
      (c.work service g fresh s).2 = (t.work service fresh s).2 := by
  rw [work_of_task ht, strand_setTask_self ht]
  exact ⟨rfl, rfl⟩

end Task

theorem strand_reap_of_ne (hg : h ≠ g) (hn : ∀ m, c.streams.get? m = some g → c.takes g = true) :
    (c.reap h).strand g = c.strand g := by
  have hm (m : UInt64) : (c.streams.filter fun _ g => c.takes g).get? m = some g ↔
      c.streams.get? m = some g := by
    rw [Table.get?_filter, Option.filter_eq_some_iff]
    exact and_iff_left_of_imp (hn m)
  unfold reap
  split
  · split
    · simp [strand, hm, Table.get?_erase_of_ne _ (Ne.symm hg)]
    · rfl
  · rfl

theorem strand_reap_self {t : StreamTask} (ht : c.tasks.get? g = some t) (hs : t.stage = .over)
    (hn : ∀ m, c.streams.get? m ≠ some g) :
    (c.reap g).strand g = { c.strand g with task := none } := by
  have hm (m : UInt64) : (c.streams.filter fun _ g => c.takes g).get? m ≠ some g := by
    rw [Table.get?_filter]
    exact fun h => hn m (Option.filter_eq_some_iff.mp h).1
  simp [reap, ht, hs, strand, hm, hn, Table.get?_erase_self]

end Parts

end Connection

end BodyCallout
