import BodyCallout.Proofs.Service.Changes
import BodyCallout.Proofs.Service.Flow
import BodyCallout.Proofs.Store.Conservation

set_option autoImplicit false

namespace BodyCallout

namespace Connection

variable {service : Service} {c d e : Connection} {s : Store} {g : Nat} {t : StreamTask}

/-- A number names the stream, or the stream was told its last. -/
def Placed (c : Connection) (g : Nat) (t : StreamTask) : Prop :=
  (∃ m, c.streams.get? m = some g) ∨ t.inbox.any Item.ends = true

/-- A session at work stays at work where it is, and its stream has its place. -/
def Lasts (c d : Connection) : Prop :=
  ∀ g t, c.tasks.get? g = some t → t.stage = .running →
    ∃ u, d.tasks.get? g = some u ∧ u.stage = .running ∧ u.session = t.session ∧
      (c.Placed g t → d.Placed g u)

namespace Lasts

theorem refl (c : Connection) : c.Lasts c := fun _ t ht hr => ⟨t, ht, hr, rfl, id⟩

theorem trans (h : c.Lasts d) (k : d.Lasts e) : c.Lasts e := fun g t ht hr => by
  obtain ⟨u, hu, hr, hs, hp⟩ := h g t ht hr
  obtain ⟨v, hv, hr, hs', hp'⟩ := k g u hu hr
  exact ⟨v, hv, hr, hs'.trans hs, hp' ∘ hp⟩

theorem send (p : Parcel) : c.Lasts (c.send p) := by
  unfold Connection.send
  split
  · exact refl c
  · exact fun _ t ht hr => ⟨t, ht, hr, rfl, id⟩

theorem deliver (g : Nat) (item : Item) : c.Lasts (c.deliver g item) := fun h t ht hr => by
  by_cases hg : h = g
  · subst hg
    refine ⟨{ t with inbox := t.inbox ++ [item] }, ?_, hr, rfl, ?_⟩
    · rw [Connection.deliver, Table.get?_modify_self, ht, Option.map_some, if_pos hr]
    · exact Or.imp_right fun hi => by rw [List.any_append, hi, Bool.true_or]
  · refine ⟨t, ?_, hr, rfl, id⟩
    rw [Connection.deliver, Table.get?_modify_of_ne _ hg, ht]

theorem erase {stream : UInt64} (hs : c.streams.get? stream = some g) (hg : c.takes g = false) :
    c.Lasts { c with streams := c.streams.erase stream } := fun h t ht hr => by
  refine ⟨t, ht, hr, rfl, Or.imp_left fun ⟨m, hm⟩ => ⟨m, ?_⟩⟩
  refine (Table.get?_erase_of_ne _ ?_).trans hm
  rintro rfl
  obtain rfl : g = h := Option.some.inj (hs.symm.trans hm)
  simp [takes, ht, hr] at hg

theorem giveUp (stream : UInt64) {item : Item} (hi : item.ends = true) :
    c.Lasts (c.giveUp stream item) := by
  unfold Connection.giveUp
  split
  · exact refl c
  · next k hk =>
    intro h t ht hr
    obtain ⟨u, hu, hv, hs, -⟩ := deliver (c := c) k item h t ht hr
    refine ⟨u, hu, hv, hs, fun hp => ?_⟩
    by_cases hg : h = k
    · subst hg
      right
      rw [Connection.deliver, Table.get?_modify_self, ht, Option.map_some, if_pos hr] at hu
      obtain rfl := Option.some.inj hu
      simp [hi]
    · rw [Connection.deliver, Table.get?_modify_of_ne _ hg, ht] at hu
      obtain rfl := Option.some.inj hu
      refine hp.imp_left ?_
      rintro ⟨m, hm⟩
      refine ⟨m, (Table.get?_erase_of_ne _ ?_).trans hm⟩
      rintro rfl
      exact hg (Option.some.inj (hm.symm.trans hk))

theorem openStream {stream : UInt64} (hs : c.streams.get? stream = none)
    (ho : c.tasks.get? c.opened = none) (item : Item) : c.Lasts (c.openStream stream item) :=
  fun h t ht hr => by
    have hh : h ≠ c.opened := by
      rintro rfl
      cases ho.symm.trans ht
    refine ⟨t, (Table.get?_insert_of_ne hh _).trans ht, hr, rfl, Or.imp_left fun ⟨m, hm⟩ => ⟨m, ?_⟩⟩
    refine (Table.get?_insert_of_ne ?_ _).trans hm
    rintro rfl
    cases hs.symm.trans hm

theorem hangUp : c.Lasts c.hangUp := by
  obtain ⟨d, hd, he⟩ := c.hangUp_induction (P := c.Lasts) (refl c)
    fun d stream hd => hd.trans (giveUp stream rfl)
  rw [he]
  exact hd

theorem dispatch (ho : c.tasks.get? c.opened = none) (frame : Inbound) :
    c.Lasts (c.dispatch frame) := by
  cases frame with
  | finish stream => exact giveUp stream rfl
  | abort stream reason => exact giveUp stream rfl
  | message stream event =>
    have hd := c.dealt_dispatch stream event
    generalize c.dispatch (.message stream event) = d at hd ⊢
    cases hd with
    | delivered g => exact deliver g _
    | closed g hs ht => exact (erase hs ht).trans (send _)
    | refused r => exact send _
    | opened hs => exact openStream hs ho _

theorem setTask {old new : StreamTask} (ht : c.tasks.get? g = some old)
    (hn : old.stage = .running →
      new.stage = .running ∧ new.session = old.session ∧ new.inbox = old.inbox) :
    c.Lasts (c.setTask g new) := fun h t hh hr => by
  by_cases hg : h = g
  · subst hg
    obtain rfl : old = t := Option.some.inj (ht.symm.trans hh)
    obtain ⟨hs, hc, hi⟩ := hn hr
    refine ⟨new, get?_setTask_self ht new, hs, hc, Or.imp_right fun ha => ?_⟩
    rw [hi, ha]
  · exact ⟨t, (get?_setTask_of_ne hg new).trans hh, hr, rfl, id⟩

theorem forward (g : Nat) : c.Lasts (c.forward g) := by
  have hf := c.forwarded_forward g
  generalize c.forward g = d at hf ⊢
  cases hf with
  | nothing => exact refl c
  | cutOff t ht => exact setTask ht fun hr => ⟨hr, rfl, rfl⟩
  | sent t answer rest ht =>
    have hs : c.Lasts (c.setTask g { t with outbox := rest }) :=
      setTask ht fun hr => ⟨hr, rfl, rfl⟩
    exact hs.trans (send _)

theorem report (g : Nat) : c.Lasts (c.report g) := by
  have hr := c.reported_report g
  generalize c.report g = d at hr ⊢
  cases hr with
  | nothing => exact refl c
  | ended t ht hs => exact setTask ht fun hr => by rw [hs] at hr; cases hr
  | failed t fault ht hs =>
    exact (setTask ht fun hr => by rw [hs] at hr; cases hr).trans (send _)

theorem reap (g : Nat) : c.Lasts (c.reap g) := by
  unfold Connection.reap
  split
  · next old ho =>
    split
    · next hs =>
      intro h t ht hr
      have hg : h ≠ g := by
        rintro rfl
        obtain rfl : old = t := Option.some.inj (ho.symm.trans ht)
        rw [hs] at hr
        cases hr
      refine ⟨t, (Table.get?_erase_of_ne _ hg).trans ht, hr, rfl,
        Or.imp_left fun ⟨m, hm⟩ => ⟨m, ?_⟩⟩
      have hk : c.takes h = true := by simp [takes, ht, hr]
      rw [Table.get?_filter, hm, Option.filter_some_pos hk]
    · exact refl c
  · exact refl c

theorem write : c.Lasts c.write := by
  unfold Connection.write
  split
  · exact refl c
  · exact fun _ t ht hr => ⟨t, ht, hr, rfl, id⟩

theorem breakOff : c.Lasts c.breakOff := by
  unfold Connection.breakOff
  split
  · exact refl c
  · exact fun _ t ht hr => ⟨t, ht, hr, rfl, id⟩

end Lasts

end Connection

namespace Session

variable (service : Service) (event : Event) (fresh : TransactionId) {session : Session} {s : Store}
  {k : TransactionId}

theorem absent_finish (h : session.current = some k) :
    (session.finish s).2.live.get? k = none := by
  rw [get?_finish, if_pos h]

theorem current_of_opens (ho : event.opens = true)
    (ha : (session.finish s).2.live.get? k = none)
    (hl : (session.handle service event fresh s).2.1.live.get? k ≠ none) :
    (session.handle service event fresh s).1.current = some k := by
  rcases session.handle_of_opens service fresh s ho with ⟨d, hd⟩ | ⟨id, source, -, he⟩
  · rw [hd] at hl
    exact absurd ha hl
  · rw [he] at hl ⊢
    by_contra hn
    have hk : k ≠ id := fun hk => hn (congrArg some hk.symm)
    refine hl ?_
    rw [Engine.get?_process_of_ne _ _ _ _ hk]
    exact (Store.get?_insert_of_ne _ hk).trans ha

theorem current_handle (h : session.current = some k)
    (hl : (session.handle service event fresh s).2.1.live.get? k ≠ none) :
    (session.handle service event fresh s).1.current = some k := by
  cases ho : event.opens with
  | false => rw [session.handle_of_not_opens service fresh s ho]; exact h
  | true => exact current_of_opens service event fresh ho (absent_finish h) hl

theorem opens_of_new (ha : s.live.get? k = none)
    (hl : (session.handle service event fresh s).2.1.live.get? k ≠ none) :
    event.opens = true := by
  by_contra ho
  rw [session.handle_of_not_opens service fresh s (Bool.not_eq_true _ ▸ ho),
    Ne, Table.get?_eq_none_iff, Engine.keys_process, ← Table.get?_eq_none_iff] at hl
  exact hl ha

end Session

namespace StreamTask

def opens? (service : Service) (fresh : TransactionId) (t : StreamTask) (s : Store) :
    Option TransactionId :=
  match t.stage, t.inbox with
  | .running, .event event :: _ =>
    if event.opens then (t.session.handle service event fresh s).1.current else none
  | _, _ => none

variable {service : Service} {fresh : TransactionId} {t : StreamTask} {s : Store}
  {k : TransactionId}

theorem running_of_opens? (h : t.opens? service fresh s = some k) : t.stage = .running := by
  unfold opens? at h
  split at h
  · assumption
  · cases h

/-- What can become of a session that may take its next item: it has none to take, or it is told its
last, or it answers an event, or it fails at one. -/
inductive Worked (service : Service) (fresh : TransactionId) (t : StreamTask) (s : Store) :
    StreamTask × Store → Prop where
  | waits (h : t.stage = .running → t.inbox = []) : Worked service fresh t s (t, s)
  | leaves (item : Item) (rest : List Item) (hr : t.stage = .running) (hi : t.inbox = item :: rest)
      (he : item.ends = true) : Worked service fresh t s (t.finish none s)
  | answers (event : Event) (rest : List Item) (next : Session) (u : Store) (a : Answer)
      (hr : t.stage = .running) (hi : t.inbox = .event event :: rest)
      (hh : t.session.handle service event fresh s = (next, u, .ok a)) :
      Worked service fresh t s
        ({ t with session := next, inbox := rest, outbox := t.outbox ++ [a] }, u)
  | fails (event : Event) (rest : List Item) (next : Session) (u : Store)
      (r : Except Duplicate Answer) (fault : SessionFault) (hr : t.stage = .running)
      (hi : t.inbox = .event event :: rest)
      (hh : t.session.handle service event fresh s = (next, u, r)) :
      Worked service fresh t s
        ({ t with session := next, inbox := rest }.finish (some fault) u)

theorem worked_work (service : Service) (fresh : TransactionId) (t : StreamTask) (s : Store) :
    Worked service fresh t s (t.work service fresh s) := by
  unfold work
  split
  · next event rest hr hi =>
    rcases hh : t.session.handle service event fresh s with ⟨next, u, d | a⟩
    · simp only [hh]
      exact .fails event rest next u _ _ hr hi hh
    · simp only [hh]
      split
      · exact .answers event rest next u a hr hi hh
      · exact .fails event rest next u _ _ hr hi hh
  · next item rest hn hr hi =>
    refine .leaves item rest hr hi ?_
    cases item with
    | event event => exact absurd rfl (hn event)
    | finish => rfl
    | abort reason => rfl
  · next hn hi =>
    refine .waits fun hr => ?_
    cases ht : t.inbox with
    | nil => rfl
    | cons item rest => exact absurd ht (hi item rest hr)

theorem absent_finish (h : t.session.current = some k) (fault : Option SessionFault) :
    (t.finish fault s).2.live.get? k = none :=
  Session.absent_finish h

/-- What a session at work has, or opens, it has when it has worked, or is gone. -/
theorem current_work (hr : t.stage = .running)
    (hk : t.session.current = some k ∨ t.opens? service fresh s = some k)
    (hl : (t.work service fresh s).2.live.get? k ≠ none) :
    (t.work service fresh s).1.stage = .running ∧
      (t.work service fresh s).1.session.current = some k := by
  have handled {event : Event} {rest : List Item} (hi : t.inbox = .event event :: rest)
      (hl : (t.session.handle service event fresh s).2.1.live.get? k ≠ none) :
      (t.session.handle service event fresh s).1.current = some k := by
    rcases hk with hc | ho
    · exact Session.current_handle service event fresh hc hl
    · simp only [opens?, hr, hi] at ho
      split at ho
      · exact ho
      · cases ho
  have hw := worked_work service fresh t s
  generalize t.work service fresh s = w at hw hl ⊢
  cases hw with
  | waits hn =>
    exact ⟨hr, hk.resolve_right (by simp [opens?, hr, hn hr])⟩
  | leaves item rest _ hi he =>
    have hc : t.session.current = some k := hk.resolve_right (by
      cases item with
      | event event => cases he
      | _ => simp [opens?, hr, hi])
    exact absurd (absent_finish hc none) hl
  | answers event rest next u a _ hi hh =>
    have hc := handled hi
    rw [hh] at hc
    exact ⟨hr, hc hl⟩
  | fails event rest next u r fault _ hi hh =>
    have hc := handled hi
    rw [hh] at hc
    -- Had it been there after the event, the end of the session would have taken it.
    have hu : u.live.get? k = none := by
      by_contra hn
      exact hl (absent_finish (t := { t with session := next, inbox := rest }) (hc hn) _)
    refine absurd ?_ hl
    refine (next.get?_finish u k).trans ?_
    rw [hu, ite_self]

theorem opens?_of_new (ha : s.live.get? k = none)
    (hl : (t.work service fresh s).2.live.get? k ≠ none) :
    t.opens? service fresh s = some k := by
  have handled {event : Event} {rest : List Item} (hr : t.stage = .running)
      (hi : t.inbox = .event event :: rest)
      (hl : (t.session.handle service event fresh s).2.1.live.get? k ≠ none) :
      t.opens? service fresh s = some k := by
    have ho := Session.opens_of_new service event fresh ha hl
    have hf : (t.session.finish s).2.live.get? k = none := by
      rw [Session.get?_finish, ha, ite_self]
    simp only [opens?, hr, hi, ho, if_true]
    exact Session.current_of_opens service event fresh ho hf hl
  have ended (session : Session) {u : Store} (hu : (session.finish u).2.live.get? k ≠ none) :
      u.live.get? k ≠ none := by
    intro hn
    rw [Session.get?_finish, hn, ite_self] at hu
    exact hu rfl
  have hw := worked_work service fresh t s
  generalize t.work service fresh s = w at hw hl
  cases hw with
  | waits hn => exact absurd ha hl
  | leaves item rest hr hi he => exact absurd ha (ended t.session hl)
  | answers event rest next u a hr hi hh => exact handled hr hi (by rw [hh]; exact hl)
  | fails event rest next u r fault hr hi hh =>
    exact handled hr hi (by rw [hh]; exact ended next hl)

theorem any_ends_of_work (hr : (t.work service fresh s).1.stage = .running) :
    t.stage = .running ∧ (t.inbox.any Item.ends = true →
      (t.work service fresh s).1.inbox.any Item.ends = true) := by
  have hw := worked_work service fresh t s
  generalize t.work service fresh s = w at hw hr ⊢
  cases hw with
  | waits => exact ⟨hr, id⟩
  | leaves => cases hr
  | answers event rest next u a hs hi =>
    rw [hi]
    exact ⟨hs, id⟩
  | fails => cases hr

end StreamTask

namespace Connection

def opens? (service : Service) (c : Connection) (s : Store) : Act → Option TransactionId
  | .work g fresh => (c.tasks.get? g).bind fun t => t.opens? service fresh s
  | _ => none

/-- What a step is to the sessions. Either one of them may take its next item, or they all stay
where they are, and so does what is in the store. -/
inductive Turned (service : Service) (c : Connection) (s : Store) :
    Act → Connection × Store → Prop where
  | worked (g : Nat) (fresh : TransactionId) (t : StreamTask) (ht : c.tasks.get? g = some t) :
      Turned service c s (.work g fresh)
        (c.setTask g (t.work service fresh s).1, (t.work service fresh s).2)
  | rested (a : Act) (d : Connection) (u : Store) (hn : c.opens? service s a = none)
      (hd : c.tasks.get? c.opened = none → c.Lasts d) (hl : u.live = s.live)
      (hm : u.limit = s.limit) : Turned service c s a (d, u)

theorem turned_takeFrame (service : Service) (c : Connection) (frame : Inbound) (s : Store) :
    Turned service c s (.frame frame) (c.takeFrame frame s) := by
  unfold takeFrame
  split
  · exact .rested _ c s rfl (fun _ => .refl c) rfl rfl
  · have hd (ho : c.tasks.get? c.opened = none) : c.Lasts (c.dispatch frame) := .dispatch ho frame
    dsimp only
    split
    · exact .rested _ _ s rfl hd rfl rfl
    · exact .rested _ _ _ rfl hd rfl rfl

theorem turned_work (service : Service) (c : Connection) (g : Nat) (fresh : TransactionId)
    (s : Store) : Turned service c s (.work g fresh) (c.work service g fresh s) := by
  unfold work
  split
  · next t ht => exact .worked g fresh t ht
  · next ht => exact .rested _ c s (by rw [opens?, ht, Option.bind_none]) (fun _ => .refl c) rfl rfl

theorem turned_step (service : Service) (c : Connection) (s : Store) (a : Act) :
    Turned service c s a (c.step service s a) := by
  cases a with
  | frame frame => exact turned_takeFrame service c frame s
  | work g fresh => exact turned_work service c g fresh s
  | hangUp => exact .rested _ _ s rfl (fun _ => .hangUp) rfl rfl
  | fail message => exact .rested _ _ s rfl (fun _ => (Lasts.send _).trans .hangUp) rfl rfl
  | drain => exact .rested _ _ s rfl (fun _ _ t ht hr => ⟨t, ht, hr, rfl, id⟩) rfl rfl
  | forward g => exact .rested _ _ s rfl (fun _ => .forward g) rfl rfl
  | report g => exact .rested _ _ s rfl (fun _ => .report g) rfl rfl
  | reap g => exact .rested _ _ s rfl (fun _ => .reap g) rfl rfl
  | write => exact .rested _ _ s rfl (fun _ => .write) rfl rfl
  | breakOff => exact .rested _ _ s rfl (fun _ => .breakOff) rfl rfl

end Connection

end BodyCallout
