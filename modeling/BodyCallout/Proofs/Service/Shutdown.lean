import BodyCallout.Proofs.Service.Serving
import BodyCallout.Session.Builder

/-!
Whom a shutdown reaches. A receiver gets the signals sent after it was made, and that of a
connection is made when the connection is let in. So it depends on the order of two events, the
connection being let in and the signal being sent, and not on when the gate closes.
-/

set_option autoImplicit false

namespace BodyCallout

namespace Broadcast

variable {b : Broadcast} {i j n : Nat}

theorem position?_subscribe_self : b.subscribe.position? b.receivers.length = some b.sent := by
  simp [position?, subscribe]

theorem position?_subscribe_of_lt (h : i < b.receivers.length) :
    b.subscribe.position? i = b.position? i := by
  simp [position?, subscribe, List.getElem?_append_left h]

theorem position?_setPosition_of_ne (h : j ≠ i) (n : Nat) :
    (b.setPosition i n).position? j = b.position? j := by
  simp [position?, setPosition, List.getElem?_set_ne (Ne.symm h)]

theorem position?_drop_of_ne (h : j ≠ i) : (b.drop i).1.position? j = b.position? j := by
  simp [position?, drop, List.getElem?_set_ne (Ne.symm h)]

theorem lt_of_position? (h : b.position? i = some n) : i < b.receivers.length := by
  refine Nat.lt_of_not_le fun hi => ?_
  rw [position?, List.getElem?_eq_none hi] at h
  cases h

theorem position?_setPosition_self (h : b.position? i = some n) (m : Nat) :
    (b.setPosition i m).position? i = some m := by
  simp [position?, setPosition, lt_of_position? h]

theorem trigger_of_position? (h : b.position? i = some n) :
    b.trigger.1 = { b with sent := b.sent + 1 } := by
  have hc : b.count ≠ 0 := by
    rw [position?, Option.join_eq_some_iff] at h
    exact Nat.ne_of_gt (List.countP_pos_iff.mpr ⟨_, List.mem_of_getElem? h, rfl⟩)
  rw [trigger, if_neg hc]

end Broadcast

namespace Server

/-- The connection refuses new streams, or it will when it next takes notice. -/
def Warned (s : Server) (h : Handler) : Prop :=
  h.connection.draining = true ∨ (noticed s.shutdown h.receiver).isSome = true

instance (s : Server) (h : Handler) : Decidable (s.Warned h) := inferInstanceAs (Decidable (_ ∨ _))

def LetsIn (s : Server) (number : Nat) : Prop :=
  s.accepting = true ∧ s.gate.letIn.2 = true ∧ s.roll.next = number

variable {s t : Server} {n : Nat} {g h : Handler}

section Noticed

variable {b : Broadcast} {i p : Nat} (hp : b.position? i = some p)
include hp

theorem noticed_cases :
    b.sent ≤ p ∧ noticed b i = none ∨
      p < b.sent ∧ ∃ q ≤ b.sent, noticed b i = some (b.setPosition i q) := by
  unfold noticed Broadcast.receive
  simp only [hp]
  match hs : b.sent - p with
  | 0 => exact .inl ⟨by omega, rfl⟩
  | 1 => exact .inr ⟨by omega, b.sent, Nat.le_refl _, rfl⟩
  | _ + 2 => exact .inr ⟨by omega, b.sent - 1, Nat.sub_le _ _, rfl⟩

theorem isSome_noticed : (noticed b i).isSome = true ↔ p < b.sent := by
  rcases noticed_cases hp with ⟨hl, hn⟩ | ⟨hl, q, -, hn⟩
  · simp [hn, hl]
  · simp [hn, hl]

end Noticed

structure Listening (s : Server) : Prop where
  next : s.shutdown.receivers.length = s.roll.next
  gate : ∃ p, s.shutdown.position? gateReceiver = some p
  handler : ∀ n h, s.handlers.get? n = some h → h.receiver = n ∧ n ≠ gateReceiver ∧
    ∃ p ≤ s.shutdown.sent, s.shutdown.position? n = some p

structure Still (s t : Server) : Prop where
  next : t.roll.next = s.roll.next
  length : t.shutdown.receivers.length = s.shutdown.receivers.length
  sent : t.shutdown.sent = s.shutdown.sent
  gate : ∃ p, t.shutdown.position? gateReceiver = some p
  handler : ∀ n g, t.handlers.get? n = some g → ∃ h, s.handlers.get? n = some h ∧
    g.receiver = h.receiver ∧ g.connection.draining = h.connection.draining ∧
    t.shutdown.position? n = s.shutdown.position? n

theorem Listening.warned (hs : s.Listening) (hh : s.handlers.get? n = some h) :
    ∃ p ≤ s.shutdown.sent, s.shutdown.position? n = some p ∧
      (s.Warned h ↔ h.connection.draining = true ∨ p < s.shutdown.sent) := by
  obtain ⟨hr, -, p, hl, hp⟩ := hs.handler n h hh
  exact ⟨p, hl, hp, by rw [Warned, hr, isSome_noticed hp]⟩

namespace Still

theorem listening (hs : s.Listening) (ht : s.Still t) : t.Listening where
  next := by rw [ht.length, hs.next, ht.next]
  gate := ht.gate
  handler n g hg := by
    obtain ⟨h, hh, hr, -, hp⟩ := ht.handler n g hg
    rw [hr, hp, ht.sent]
    exact hs.handler n h hh

theorem warned (hs : s.Listening) (ht : s.Still t) (hg : t.handlers.get? n = some g) :
    ∃ h, s.handlers.get? n = some h ∧ (t.Warned g ↔ s.Warned h) ∧
      g.connection.draining = h.connection.draining := by
  obtain ⟨h, hh, hr, hd, hp⟩ := ht.handler n g hg
  obtain ⟨p, -, hq, hw⟩ := hs.warned hh
  obtain ⟨q, -, hq', hv⟩ := (listening hs ht).warned hg
  obtain rfl : p = q := Option.some.inj (hq.symm.trans (hp.symm.trans hq'))
  exact ⟨h, hh, by rw [hv, hw, hd, ht.sent], hd⟩

theorem of_handlers (hs : s.Listening) {store : Store} {sweeper : Option Sweeper} {gate : Gate}
    {handlers : Table Nat Handler}
    (hh : ∀ n g, handlers.get? n = some g → ∃ h, s.handlers.get? n = some h ∧
      g.receiver = h.receiver ∧ g.connection.draining = h.connection.draining) :
    s.Still { s with store := store, sweeper := sweeper, gate := gate, handlers := handlers } where
  next := rfl
  length := rfl
  sent := rfl
  gate := hs.gate
  handler n g hg := by
    obtain ⟨h, hs, hr, hd⟩ := hh n g hg
    exact ⟨h, hs, hr, hd, rfl⟩

theorem refl (hs : s.Listening) : s.Still s := of_handlers hs fun _ g hg => ⟨g, hg, rfl, rfl⟩

theorem on (hs : s.Listening) (number : Nat) {a : Connection.Act} (ha : a ≠ .drain) :
    s.Still (s.withConnection number fun c store => c.step s.service store a) := by
  have hf (n : Nat) (g : Handler) := s.get?_withConnection (n := n) (g := g) number
    fun c store => c.step s.service store a
  obtain ⟨store, handlers, he⟩ :=
    s.withConnection_eq number fun c store => c.step s.service store a
  rw [he] at hf ⊢
  refine of_handlers hs fun n g hg => ?_
  obtain ⟨h, hh, hr, ⟨hk, -⟩ | ⟨-, hk⟩⟩ := hf n g hg
  · exact ⟨h, hh, hr, by rw [hk]⟩
  · have hc : g.connection = (h.connection.step s.service s.store a).1 := congrArg Prod.fst hk
    exact ⟨h, hh, hr, by rw [hc, Connection.draining_step ha]⟩

theorem closeGate (hs : s.Listening) : s.Still s.closeGate := by
  unfold Server.closeGate
  obtain ⟨p, hp⟩ := hs.gate
  rcases noticed_cases hp with ⟨-, hn⟩ | ⟨-, q, -, hn⟩
  · rw [hn]
    exact refl hs
  · rw [hn]
    refine ⟨rfl, by simp [Broadcast.setPosition], rfl,
      ⟨q, Broadcast.position?_setPosition_self hp q⟩, fun n g hg => ⟨g, hg, rfl, rfl, ?_⟩⟩
    exact Broadcast.position?_setPosition_of_ne (hs.handler n g hg).2.1 q

theorem remove (hs : s.Listening) {number : Nat} (hh : s.handlers.get? number = some h)
    (store : Store) : s.Still ({ s with store := store }.remove number h) := by
  obtain ⟨hr, hn, -⟩ := hs.handler number h hh
  obtain ⟨p, hp⟩ := hs.gate
  refine ⟨rfl, by simp [Server.remove, Broadcast.drop], rfl, ⟨p, ?_⟩, fun n g hg => ?_⟩
  · rw [← hp]
    exact Broadcast.position?_drop_of_ne (by rw [hr]; exact Ne.symm hn)
  · obtain ⟨hne, hg⟩ := Table.get?_erase_eq_some.mp hg
    exact ⟨g, hg, rfl, rfl, Broadcast.position?_drop_of_ne (by rw [hr]; exact hne)⟩

theorem dismiss (hs : s.Listening) (number : Nat) : s.Still (s.dismiss number) := by
  unfold Server.dismiss
  split
  · exact refl hs
  · next h hh =>
    split
    · exact remove hs hh s.store
    · exact refl hs

theorem cut (hs : s.Listening) (number : Nat) : s.Still (s.cut number) := by
  unfold Server.cut
  split
  · next h _ hh => exact remove hs hh _
  · exact refl hs

theorem pass (hs : s.Listening) (time : Nat) : s.Still (s.pass time) := by
  unfold Server.pass
  split
  · exact of_handlers hs fun _ g hg => ⟨g, hg, rfl, rfl⟩
  · exact of_handlers hs fun _ g hg => ⟨g, hg, rfl, rfl⟩

end Still

section Trigger

variable (hs : s.Listening)
include hs

theorem trigger_eq : s.shutdown.trigger.1 = { s.shutdown with sent := s.shutdown.sent + 1 } := by
  obtain ⟨p, hp⟩ := hs.gate
  exact Broadcast.trigger_of_position? hp

theorem Listening.trigger : (s.step .trigger).Listening := by
  rw [step, trigger_eq hs]
  refine { hs with handler := fun n h hh => ?_ }
  obtain ⟨hr, hn, p, hl, hp⟩ := hs.handler n h hh
  exact ⟨hr, hn, p, Nat.le_succ_of_le hl, hp⟩

theorem warned_trigger (hh : s.handlers.get? n = some h) : (s.step .trigger).Warned h := by
  obtain ⟨p, hl, hp, -⟩ := hs.warned hh
  have hh : (s.step .trigger).handlers.get? n = some h := hh
  obtain ⟨q, -, hq, hw⟩ := hs.trigger.warned hh
  rw [step, trigger_eq hs] at hq hw ⊢
  obtain rfl : p = q := Option.some.inj (hp.symm.trans hq)
  exact hw.mpr (.inr (Nat.lt_succ_of_le hl))

end Trigger

structure Joined (s t : Server) : Prop where
  letsIn : s.LetsIn s.roll.next
  next : t.roll.next = s.roll.next + 1
  shutdown : t.shutdown = s.shutdown.subscribe
  handlers : t.handlers = s.handlers.insert s.roll.next
    ⟨.start s.roll.next s.settings.listener.maxStreams.toNat, s.roll.next⟩

theorem still_or_joined_letIn (hs : s.Listening) : s.Still s.letIn ∨ s.Joined s.letIn := by
  obtain ⟨p, hp⟩ := hs.gate
  have hb : s.shutdown.resubscribe gateReceiver = (s.shutdown.subscribe, true) := by
    simp [Broadcast.resubscribe, hp]
  unfold letIn
  split
  · next gate ha hg =>
    exact .inr ⟨⟨ha, by rw [hg], rfl⟩, rfl, congrArg Prod.fst hb, by simp [Roll.enter, hs.next]⟩
  · exact .inl (Still.refl hs)

namespace Joined

theorem position?_of_some (ht : s.Joined t) {i p : Nat} (hp : s.shutdown.position? i = some p) :
    t.shutdown.position? i = some p := by
  rw [ht.shutdown, Broadcast.position?_subscribe_of_lt (Broadcast.lt_of_position? hp), hp]

theorem handler (ht : s.Joined t) (hg : t.handlers.get? n = some g) :
    s.handlers.get? n = some g ∨
      n = s.roll.next ∧ g = ⟨.start n s.settings.listener.maxStreams.toNat, n⟩ := by
  rw [ht.handlers] at hg
  rcases Table.get?_insert_eq_some hg with hg | ⟨rfl, rfl⟩
  · exact .inl hg
  · exact .inr ⟨rfl, rfl⟩

theorem position?_next (hs : s.Listening) (ht : s.Joined t) :
    t.shutdown.position? s.roll.next = some t.shutdown.sent := by
  rw [ht.shutdown, ← hs.next, Broadcast.position?_subscribe_self]
  rfl

theorem listening (hs : s.Listening) (ht : s.Joined t) : t.Listening where
  next := by
    rw [ht.shutdown, ht.next, ← hs.next]
    simp [Broadcast.subscribe]
  gate := by
    obtain ⟨p, hp⟩ := hs.gate
    exact ⟨p, ht.position?_of_some hp⟩
  handler n g hg := by
    rcases ht.handler hg with hg | ⟨rfl, rfl⟩
    · obtain ⟨hr, hn, p, hl, hp⟩ := hs.handler n g hg
      have hl : p ≤ t.shutdown.sent := by rw [ht.shutdown]; exact hl
      exact ⟨hr, hn, p, hl, ht.position?_of_some hp⟩
    · refine ⟨rfl, ?_, _, Nat.le_refl _, ht.position?_next hs⟩
      obtain ⟨p, hp⟩ := hs.gate
      rw [← hs.next]
      exact Nat.ne_of_gt (Broadcast.lt_of_position? hp)

theorem warned (hs : s.Listening) (ht : s.Joined t) (hg : t.handlers.get? n = some g) :
    s.handlers.get? n = some g ∧ (t.Warned g ↔ s.Warned g) ∨
      n = s.roll.next ∧ ¬ t.Warned g := by
  obtain ⟨q, -, hq, hv⟩ := (ht.listening hs).warned hg
  rcases ht.handler hg with hh | ⟨rfl, rfl⟩
  · obtain ⟨p, -, hp, hw⟩ := hs.warned hh
    obtain rfl : p = q := Option.some.inj ((ht.position?_of_some hp).symm.trans hq)
    exact .inl ⟨hh, by rw [hv, hw, ht.shutdown]; rfl⟩
  · obtain rfl : t.shutdown.sent = q := Option.some.inj ((ht.position?_next hs).symm.trans hq)
    refine .inr ⟨rfl, fun hw => ?_⟩
    rcases hv.mp hw with hd | hl
    · cases hd
    · exact Nat.lt_irrefl _ hl

end Joined

section Notice

variable (hs : s.Listening)
include hs

/-- A connection takes notice of a signal that it has not heard of before, if there is one. -/
theorem notice_cases (number : Nat) : s.notice number = s ∧
      (∀ h, s.handlers.get? number = some h → s.Warned h → h.connection.draining = true) ∨
    ∃ h p, s.handlers.get? number = some h ∧ s.Warned h ∧ p ≤ s.shutdown.sent ∧
      s.notice number = { s with
        shutdown := s.shutdown.setPosition number p
        handlers := s.handlers.modify number fun k =>
          { k with connection := h.connection.drain } } := by
  unfold notice
  cases hh : s.handlers.get? number with
  | none => exact .inl ⟨rfl, nofun⟩
  | some h =>
    obtain ⟨hr, -, q, hl, hq⟩ := hs.handler number h hh
    have hw : s.Warned h ↔ h.connection.draining = true ∨ (noticed s.shutdown number).isSome := by
      rw [Warned, hr]
    dsimp only
    rw [hr]
    split
    · next hd =>
      refine .inl ⟨rfl, fun g hg _ => ?_⟩
      obtain rfl := Option.some.inj hg
      exact hd
    · next hd =>
      rcases noticed_cases hq with ⟨-, hn⟩ | ⟨-, p, hp, hn⟩
      · refine .inl ⟨by rw [hn], fun g hg hv => ?_⟩
        obtain rfl := Option.some.inj hg
        exact absurd (hw.mp hv) (by simp [hn, hd])
      · refine .inr ⟨h, p, rfl, hw.mpr (.inr (by simp [hn])), hp, ?_⟩
        rw [hn]
        simp only [withConnection, hh]

theorem Listening.notice (number : Nat) : (s.notice number).Listening := by
  rcases s.notice_cases hs number with ⟨he, -⟩ | ⟨h, p, hh, -, hl, he⟩
  · rw [he]
    exact hs
  · obtain ⟨hr, hn, q, -, hq⟩ := hs.handler number h hh
    obtain ⟨r, hp⟩ := hs.gate
    rw [he]
    refine ⟨?_, ⟨r, ?_⟩, fun n g hg => ?_⟩
    · simpa [Broadcast.setPosition] using hs.next
    · rw [← hp]
      exact Broadcast.position?_setPosition_of_ne (Ne.symm hn) p
    · by_cases hm : n = number
      · subst hm
        rw [Table.get?_modify_self, hh] at hg
        obtain rfl := Option.some.inj hg
        exact ⟨hr, hn, p, hl, Broadcast.position?_setPosition_self hq p⟩
      · rw [Table.get?_modify_of_ne _ hm] at hg
        obtain ⟨hr, hn, q, hl, hq⟩ := hs.handler n g hg
        exact ⟨hr, hn, q, hl, (Broadcast.position?_setPosition_of_ne hm p).trans hq⟩

theorem warned_notice (number : Nat) (hg : (s.notice number).handlers.get? n = some g) :
    ∃ h, s.handlers.get? n = some h ∧ ((s.notice number).Warned g ↔ s.Warned h) ∧
      (g.connection.draining = true ↔
        h.connection.draining = true ∨ s.Warned h ∧ number = n) := by
  rcases s.notice_cases hs number with ⟨he, hd⟩ | ⟨h, p, hh, hw, -, he⟩
  · rw [he] at hg ⊢
    refine ⟨g, hg, Iff.rfl, Iff.symm (or_iff_left_of_imp ?_)⟩
    rintro ⟨hw, rfl⟩
    exact hd g hg hw
  · have hv := hs.notice number
    rw [he] at hg hv ⊢
    by_cases hm : n = number
    · subst hm
      rw [Table.get?_modify_self, hh] at hg
      obtain rfl := Option.some.inj hg
      have hd : h.connection.drain.draining = true := rfl
      exact ⟨h, hh, iff_of_true (.inl hd) hw, iff_of_true hd (.inr ⟨hw, rfl⟩)⟩
    · have hk := hg
      rw [Table.get?_modify_of_ne _ hm] at hg
      obtain ⟨q, -, hq, hx⟩ := hs.warned hg
      obtain ⟨r, -, hr, hy⟩ := hv.warned hk
      rw [Broadcast.position?_setPosition_of_ne hm, hq] at hr
      obtain rfl := Option.some.inj hr
      refine ⟨g, hg, by rw [hx, hy]; rfl, Iff.symm (or_iff_left_of_imp ?_)⟩
      rintro ⟨-, rfl⟩
      exact absurd rfl hm

end Notice

/-- All steps but those of three kinds are no matter to those who listen. -/
theorem step_cases (hs : s.Listening) (a : Act) :
    (a ≠ .trigger ∧ (∀ number, a ≠ .notice number) ∧ s.Still (s.step a)) ∨
      (a = .letIn ∧ s.Joined (s.step a)) ∨ a = .trigger ∨ ∃ number, a = .notice number := by
  cases a with
  | arrive => exact .inl ⟨nofun, nofun, .of_handlers hs fun _ g hg => ⟨g, hg, rfl, rfl⟩⟩
  | letIn =>
    rcases s.still_or_joined_letIn hs with h | h
    · exact .inl ⟨nofun, nofun, h⟩
    · exact .inr (.inl ⟨rfl, h⟩)
  | trigger => exact .inr (.inr (.inl rfl))
  | closeGate => exact .inl ⟨nofun, nofun, .closeGate hs⟩
  | notice number => exact .inr (.inr (.inr ⟨number, rfl⟩))
  | on number act =>
    refine .inl ⟨nofun, nofun, ?_⟩
    by_cases ha : act = .drain
    · subst ha
      exact .refl hs
    · rw [step_on ha]
      exact .on hs number ha
  | dismiss number => exact .inl ⟨nofun, nofun, .dismiss hs number⟩
  | cut number => exact .inl ⟨nofun, nofun, .cut hs number⟩
  | pass time => exact .inl ⟨nofun, nofun, .pass hs time⟩

theorem Listening.step (hs : s.Listening) (a : Act) : (s.step a).Listening := by
  rcases step_cases hs a with ⟨-, -, h⟩ | ⟨-, h⟩ | rfl | ⟨number, rfl⟩
  · exact h.listening hs
  · exact h.listening hs
  · exact hs.trigger
  · exact hs.notice number

theorem warned_step (hs : s.Listening) (a : Act) (hg : (s.step a).handlers.get? n = some g) :
    (a = .letIn ∧ s.LetsIn n ∧ ¬ (s.step a).Warned g) ∨
    ∃ h, s.handlers.get? n = some h ∧ ((s.step a).Warned g ↔ s.Warned h ∨ a = .trigger) ∧
      (g.connection.draining = true ↔
        h.connection.draining = true ∨ s.Warned h ∧ a = .notice n) := by
  rcases step_cases hs a with ⟨ht, hn, hst⟩ | ⟨rfl, hj⟩ | rfl | ⟨number, rfl⟩
  · obtain ⟨h, hh, hw, hd⟩ := hst.warned hs hg
    exact .inr ⟨h, hh, hw.trans (or_iff_left ht).symm, by simp [hd, hn]⟩
  · rcases hj.warned hs hg with ⟨hk, hw⟩ | ⟨rfl, hw⟩
    · exact .inr ⟨g, hk, hw.trans (or_iff_left nofun).symm, by simp⟩
    · exact .inl ⟨rfl, hj.letsIn, hw⟩
  · have hw : (s.step .trigger).Warned g := s.warned_trigger hs hg
    exact .inr ⟨g, hg, iff_of_true hw (.inr rfl), by simp⟩
  · obtain ⟨h, hh, hw, hd⟩ := s.warned_notice hs number hg
    exact .inr ⟨h, hh, hw.trans (or_iff_left nofun).symm, by simpa using hd⟩

theorem Listening.steps (hs : s.Listening) (acts : List Act) : (s.steps acts).Listening :=
  steps_induction (fun _ => Listening.step) hs acts

theorem next_le_steps (s : Server) (acts : List Act) : s.roll.next ≤ (s.steps acts).roll.next :=
  steps_induction (P := fun t => s.roll.next ≤ t.roll.next)
    (fun t ht a => Nat.le_trans ht (t.taken_step a).kept.2.1) (Nat.le_refl _) acts

/-- A connection that is there was let in on the way or was there before. -/
theorem warned_steps (hs : s.Listening) (acts : List Act)
    (hg : (s.steps acts).handlers.get? n = some g) :
    (∃ before after, acts = before ++ .letIn :: after ∧ (s.steps before).LetsIn n ∧
      ((s.steps acts).Warned g ↔ .trigger ∈ after)) ∨
    ∃ h, s.handlers.get? n = some h ∧ ((s.steps acts).Warned g ↔ s.Warned h ∨ .trigger ∈ acts) ∧
      (h.connection.draining = true ∨ s.Warned h ∧ .notice n ∈ acts →
        g.connection.draining = true) := by
  induction acts generalizing s with
  | nil => exact .inr ⟨g, hg, by simp [steps], by simp⟩
  | cons a rest ih =>
    rcases ih (hs.step a) hg with ⟨before, after, rfl, hl, hw⟩ | ⟨k, hk, hw, hd⟩
    · exact .inl ⟨a :: before, after, rfl, hl, hw⟩
    · rcases warned_step hs a hk with ⟨rfl, hl, hu⟩ | ⟨h, hh, hv, he⟩
      · exact .inl ⟨[], rest, rfl, hl, hw.trans (or_iff_right hu)⟩
      · refine .inr ⟨h, hh, ?_, fun hx => hd ?_⟩
        · rw [List.mem_cons, ← or_assoc, eq_comm (a := Act.trigger), ← hv]
          exact hw
        · rw [List.mem_cons] at hx
          rcases hx with hx | ⟨hx, hn | hn⟩
          · exact .inl (he.mpr (.inl hx))
          · exact .inl (he.mpr (.inr ⟨hx, hn.symm⟩))
          · exact .inr ⟨hv.mpr (.inl hx), hn⟩

theorem listening_start {settings : Settings} {builder : Builder} {now : Nat}
    (h : start? settings builder now = some s) : s.Listening ∧ ∀ n, s.handlers.get? n = none := by
  obtain ⟨gate, -, rfl⟩ := Option.map_eq_some_iff.mp h
  exact ⟨⟨rfl, ⟨0, rfl⟩, nofun⟩, fun _ => rfl⟩

/-- A connection is warned if and only if a signal was sent after it was let in, wherever the gate
stands. What is warned refuses new streams from its next notice on, and what is not goes on opening
them until another signal is sent. -/
theorem warned_iff_triggered_since {settings : Settings} {builder : Builder} {now : Nat}
    {first : Server} (hs : start? settings builder now = some first) (acts : List Act)
    {number : Nat} {h : Handler} (hh : (first.steps acts).handlers.get? number = some h) :
    let s := first.steps acts
    (∃ before after, acts = before ++ .letIn :: after ∧ (first.steps before).LetsIn number ∧
      (s.Warned h ↔ .trigger ∈ after)) ∧
    ∀ later g, (s.steps later).handlers.get? number = some g → ∀ stream event,
      g.connection.streams.get? stream = none →
      (s.Warned h → .notice number ∈ later →
        g.connection.dispatch (.message stream event) = g.connection.refuse stream .draining) ∧
      (¬ s.Warned h → .trigger ∉ later → g.connection.streams.size < g.connection.maxStreams →
        g.connection.dispatch (.message stream event) =
          g.connection.openStream stream (.event event)) := by
  intro s
  obtain ⟨hl, ha⟩ := listening_start hs
  refine ⟨?_, fun later g hg stream event hn => ?_⟩
  · rcases warned_steps hl acts hh with hb | ⟨k, hk, -⟩
    · exact hb
    · cases (ha number).symm.trans hk
  · have hk : s.Listening := hl.steps acts
    rcases warned_steps hk later hg with ⟨before, after, -, hi, -⟩ | ⟨k, hk, hw, hd⟩
    · -- A number is not given twice.
      have hle := s.next_le_steps before
      rw [hi.2.2, ← hk.next] at hle
      obtain ⟨-, -, p, -, hp⟩ := hk.handler number h hh
      exact absurd (Broadcast.lt_of_position? hp) (Nat.not_lt_of_le hle)
    · obtain rfl : k = h := Option.some.inj (hk.symm.trans hh)
      refine ⟨fun hv ht => ?_, fun hv ht hr => ?_⟩
      · exact Connection.dispatch_of_draining (hd (.inr ⟨hv, ht⟩)) hn event
      · have hu : ¬ (s.steps later).Warned g := fun hx => (hw.mp hx).elim hv ht
        have hf : g.connection.draining = false := by
          cases hc : g.connection.draining with
          | false => rfl
          | true => exact absurd (.inl hc) hu
        exact Connection.dispatch_of_room hf hn hr event

/-- Two connections wait, and the signal is sent when one of them is in. Then the gate lets in the
other before it closes, and of the two only the first refuses new streams. -/
theorem warned_of_two_arrivals :
    let acts := [.arrive, .arrive, .letIn, .trigger, .letIn, .closeGate]
    let later := [.notice 1, .notice 2]
    ∃ first one two, start? {} Classifier.builder 0 = some first ∧
      (first.steps acts).accepting = false ∧
      ((first.steps acts).steps later).handlers.get? 1 = some one ∧
      ((first.steps acts).steps later).handlers.get? 2 = some two ∧
      ∀ event, one.connection.dispatch (.message 7 event) = one.connection.refuse 7 .draining ∧
        two.connection.dispatch (.message 7 event) =
          two.connection.openStream 7 (.event event) := by
  intro acts later
  let first := (start? {} Classifier.builder 0).get rfl
  let s := first.steps acts
  have hs : start? {} Classifier.builder 0 = some first := rfl
  have hx : (s.handlers.get? 1).map (fun h => decide (s.Warned h)) = some true := by decide +kernel
  have hy : (s.handlers.get? 2).map (fun h => decide (s.Warned h)) = some false := by decide +kernel
  have ho : ((s.steps later).handlers.get? 1).map (fun h =>
      decide (h.connection.streams.get? 7 = none)) = some true := by decide +kernel
  have ht : ((s.steps later).handlers.get? 2).map (fun h =>
      decide (h.connection.streams.get? 7 = none ∧
        h.connection.streams.size < h.connection.maxStreams)) = some true := by decide +kernel
  obtain ⟨x, hx, hw⟩ := Option.map_eq_some_iff.mp hx
  obtain ⟨y, hy, hv⟩ := Option.map_eq_some_iff.mp hy
  obtain ⟨one, ho, hm⟩ := Option.map_eq_some_iff.mp ho
  obtain ⟨two, ht, hn⟩ := Option.map_eq_some_iff.mp ht
  simp only [decide_eq_true_eq, decide_eq_false_iff_not] at hw hv hm hn
  have hk := (warned_iff_triggered_since hs acts hx).2 later one ho
  have hl := (warned_iff_triggered_since hs acts hy).2 later two ht
  refine ⟨first, one, two, hs, rfl, ho, ht, fun event => ⟨?_, ?_⟩⟩
  · exact (hk 7 event hm).1 hw (by simp [later])
  · exact (hl 7 event hn.1).2 hv (by simp [later]) hn.2

/-- What comes in after the signal, while the gate is not closed yet, is not warned. -/
theorem not_warned_of_late_arrival :
    ¬ ∀ (settings : Settings) (builder : Builder) (now : Nat) (first : Server) (acts : List Act),
      start? settings builder now = some first → (first.steps acts).accepting = false →
      ∀ number h, (first.steps acts).handlers.get? number = some h →
        (first.steps acts).Warned h := by
  intro hall
  have hw := hall {} Classifier.builder 0 _ [.arrive, .arrive, .letIn, .trigger, .letIn, .closeGate]
    rfl rfl 2 _ rfl
  exact absurd hw (by decide)

end Server

end BodyCallout
