import BodyCallout.Proofs.Session.Answering

/-!
Runs of a session, from outside. A run answers its events one by one up to the first item that stops
it; what stops it decides the result, and what comes after it can not be noticed.
-/

set_option autoImplicit false

namespace BodyCallout

namespace Engine

variable (e : Engine) (event : Event) (claimed : Option Body)

@[simp] theorem reply_withDelivery (a : Answer) : (e.withDelivery event a).reply = a.reply := by
  rcases event with ⟨⟨⟩, p⟩ | ⟨side, p⟩ | ⟨side, p⟩ <;> simp only [withDelivery]
  split <;> rfl

@[simp] theorem delivery_answerWith (p : Phase) (m : Option Mutation) :
    (answerWith p m).delivery = none := by
  cases m <;> rfl

theorem phase_answer : (e.answer event claimed).reply.phase = event.phase := by
  rw [answer, reply_withDelivery]
  cases claimed.bind e.due <;> simp [answerWith, Answer.pass, Answer.change]

theorem delivery_answer :
    (e.answer event claimed).delivery =
      if event.phase = ⟨.request, .headers⟩ ∧ e.bufferedDelivery then some .buffered else none := by
  rcases event with ⟨⟨⟩, p⟩ | ⟨side, p⟩ | ⟨side, p⟩
  · simp only [answer, withDelivery, Event.phase, true_and]
    split
    · rfl
    · exact delivery_answerWith _ _
  all_goals simp [answer, withDelivery, Event.phase]

theorem mutation_answer : (e.answer event claimed).reply.mutation = claimed.bind e.due := by
  rw [answer, reply_withDelivery]
  cases claimed.bind e.due <;> simp [answerWith, Answer.pass, Answer.change, Mutation.empty_merge]

end Engine

/-- What every answer to an event is like, whatever became of the event. -/
structure Answer.Proper (e : Engine) (event : Event) (a : Answer) : Prop where
  phase : a.reply.phase = event.phase
  delivery : a.delivery =
    if event.phase = ⟨.request, .headers⟩ ∧ e.bufferedDelivery then some .buffered else none
  mutation : event.phase = ⟨.response, .body⟩ ∨ event.phase = ⟨.response, .trailers⟩ →
    a.reply.mutation = none

namespace Engine

variable (e : Engine) (event : Event)

theorem proper_answer {claimed : Option Body} (h : claims event = false → claimed = none) :
    (e.answer event claimed).Proper e event := by
  refine ⟨e.phase_answer event claimed, e.delivery_answer event claimed, fun hp => ?_⟩
  have hc : claims event = false := by
    rcases event with ⟨⟨⟩, p⟩ | ⟨⟨⟩, p⟩ | ⟨⟨⟩, p⟩ <;> simp_all [Event.phase, claims]
  rw [mutation_answer, h hc]
  rfl

theorem proper_process (id : Option TransactionId) (s : Store) (h : event.opens = false) :
    (e.process id event s).2.Proper e event := by
  cases id with
  | none =>
    rw [process_none, ← e.answer_of_not_opens h]
    exact e.proper_answer event fun _ => rfl
  | some id =>
    rw [snd_process]
    apply e.proper_answer
    intro hc
    cases s.live.get? id with
    | none => rfl
    | some t => simp [advance_of_not_claims hc]

end Engine

inductive Stop where
  | exhausted
  | finished
  | aborted (reason : String)
  | refused (duplicate : Duplicate)
  | unsent
  deriving DecidableEq, Repr

def Stop.result : Stop → Except SessionFault Unit
  | .exhausted => .ok ()
  | .finished => .ok ()
  | .aborted _ => .ok ()
  | .refused d => .error (.duplicate d)
  | .unsent => .error .outboundClosed

namespace Session

variable (service : Service)

def refusal? (event : Event) (fresh : TransactionId) (session : Session) (s : Store) :
    Option Duplicate :=
  match event with
  | .headers .request part =>
    match (session.begin service part fresh s).2.2 with
    | .error d => some d
    | .ok () => none
  | _ => none

section Handle

variable {service} {event : Event} {fresh : TransactionId} {session : Session} {s : Store}

theorem handle_of_refused {d : Duplicate} (h : session.refusal? service event fresh s = some d) :
    (session.handle service event fresh s).2.2 = .error d := by
  rcases event with ⟨⟨⟩, p⟩ | ⟨side, p⟩ | ⟨side, p⟩ <;> try contradiction
  simp only [refusal?] at h
  simp only [handle]
  rcases hb : session.begin service p fresh s with ⟨session, s, d' | ⟨⟩⟩ <;> simp_all

theorem handle_of_not_refused (h : session.refusal? service event fresh s = none) :
    ∃ a, (session.handle service event fresh s).2.2 = .ok a ∧ a.Proper service.engine event := by
  cases ho : event.opens with
  | false =>
    rw [session.handle_of_not_opens service fresh s ho]
    exact ⟨_, rfl, service.engine.proper_process event session.current s ho⟩
  | true =>
    rcases session.handle_of_opens service fresh s ho with ⟨d, hd⟩ | ⟨id, source, -, he⟩
    · rcases event with ⟨⟨⟩, p⟩ | ⟨side, p⟩ | ⟨side, p⟩ <;> try contradiction
      simp only [refusal?] at h
      simp only [handle] at hd
      rcases hb : session.begin service p fresh s with ⟨session', s', d' | ⟨⟩⟩
      · simp [hb] at h
      · simp [hb, Session.process] at hd
    · rw [he]
      exact ⟨_, rfl, service.engine.proper_answer event fun _ => rfl⟩

end Handle

def follow : Session → Store → List (Item × TransactionId) → Session × Store
  | session, s, [] => (session, s)
  | session, s, (.event event, fresh) :: rest =>
    let (session, s, _) := session.handle service event fresh s
    follow session s rest
  | session, s, _ :: rest => follow session s rest

/-- What stops a run at item number `i`, if nothing stops it before. -/
def stop? (sends : Nat) (session : Session) (s : Store) (items : List (Item × TransactionId))
    (i : Nat) : Option Stop :=
  match items[i]? with
  | none => some .exhausted
  | some (.finish, _) => some .finished
  | some (.abort reason, _) => some (.aborted reason)
  | some (.event event, fresh) =>
    let (session, s) := session.follow service s (items.take i)
    match session.refusal? service event fresh s with
    | some d => some (.refused d)
    | none => if i < sends then none else some .unsent

section Work

variable {service} {sends : Nat} {session : Session} {s : Store}

theorem work_of_refused {event : Event} {fresh : TransactionId} {d : Duplicate}
    (h : session.refusal? service event fresh s = some d) (rest : List (Item × TransactionId)) :
    session.work service sends s ((.event event, fresh) :: rest) =
      ((session.handle service event fresh s).1, (session.handle service event fresh s).2.1,
        ⟨.error (.duplicate d), [], 1⟩) := by
  have hr := handle_of_refused h
  rw [work]
  rcases hh : session.handle service event fresh s with ⟨session, s, d' | a⟩
  · rw [hh] at hr
    cases hr
    rfl
  · rw [hh] at hr
    cases hr

theorem work_of_unsent {event : Event} {fresh : TransactionId} {a : Answer}
    (h : (session.handle service event fresh s).2.2 = .ok a)
    (rest : List (Item × TransactionId)) :
    session.work service 0 s ((.event event, fresh) :: rest) =
      ((session.handle service event fresh s).1, (session.handle service event fresh s).2.1,
        ⟨.error .outboundClosed, [], 1⟩) := by
  rw [work]
  rcases hh : session.handle service event fresh s with ⟨session, s, d | a'⟩
  · rw [hh] at h
    cases h
  · rfl

theorem work_of_sent {event : Event} {fresh : TransactionId} {a : Answer}
    (h : (session.handle service event fresh s).2.2 = .ok a)
    (rest : List (Item × TransactionId)) :
    session.work service (sends + 1) s ((.event event, fresh) :: rest) =
      let r := (session.handle service event fresh s).1.work service sends
        (session.handle service event fresh s).2.1 rest
      (r.1, r.2.1, ⟨r.2.2.result, a :: r.2.2.answers, r.2.2.taken + 1⟩) := by
  rw [work]
  rcases hh : session.handle service event fresh s with ⟨session, s, d | a'⟩
  · rw [hh] at h
    cases h
  · rw [hh] at h
    cases h
    rfl

theorem stop?_event_succ (event : Event) (fresh : TransactionId)
    (rest : List (Item × TransactionId)) (i : Nat) :
    session.stop? service (sends + 1) s ((.event event, fresh) :: rest) (i + 1) =
      (session.handle service event fresh s).1.stop? service sends
        (session.handle service event fresh s).2.1 rest i := by
  simp [stop?, follow]

theorem stop?_of_refused {event : Event} {fresh : TransactionId} {d : Duplicate}
    (h : session.refusal? service event fresh s = some d) (rest : List (Item × TransactionId)) :
    session.stop? service sends s ((.event event, fresh) :: rest) 0 = some (.refused d) := by
  simp [stop?, follow, h]

theorem stop?_of_not_refused {event : Event} {fresh : TransactionId}
    (h : session.refusal? service event fresh s = none) (rest : List (Item × TransactionId)) :
    session.stop? service sends s ((.event event, fresh) :: rest) 0 =
      if 0 < sends then none else some .unsent := by
  simp [stop?, follow, h]

end Work

theorem work_induction {motive : Nat → Session → Store → List (Item × TransactionId) → Prop}
    (exhausted : ∀ sends session s, motive sends session s [])
    (finished : ∀ sends session s fresh rest, motive sends session s ((.finish, fresh) :: rest))
    (aborted : ∀ sends session s reason fresh rest,
      motive sends session s ((.abort reason, fresh) :: rest))
    (refused : ∀ sends session s event fresh rest d,
      session.refusal? service event fresh s = some d →
        motive sends session s ((.event event, fresh) :: rest))
    (unsent : ∀ session s event fresh rest a, session.refusal? service event fresh s = none →
      (session.handle service event fresh s).2.2 = .ok a →
        motive 0 session s ((.event event, fresh) :: rest))
    (sent : ∀ sends session s event fresh rest a, session.refusal? service event fresh s = none →
      (session.handle service event fresh s).2.2 = .ok a → a.Proper service.engine event →
        motive sends (session.handle service event fresh s).1
          (session.handle service event fresh s).2.1 rest →
        motive (sends + 1) session s ((.event event, fresh) :: rest))
    (sends : Nat) (session : Session) (s : Store) (items : List (Item × TransactionId)) :
    motive sends session s items := by
  induction items generalizing sends session s with
  | nil => exact exhausted sends session s
  | cons first rest ih =>
    obtain ⟨event | _ | reason, fresh⟩ := first
    · cases hr : session.refusal? service event fresh s with
      | some d => exact refused sends session s event fresh rest d hr
      -- What is not refused is answered, and the run goes on as long as answers can be sent.
      | none =>
        obtain ⟨a, ha, hp⟩ := handle_of_not_refused hr
        cases sends with
        | zero => exact unsent session s event fresh rest a hr ha
        | succ sends => exact sent sends session s event fresh rest a hr ha hp (ih sends _ _)
    · exact finished sends session s fresh rest
    · exact aborted sends session s reason fresh rest

variable (sends : Nat) (session : Session) (s : Store) (items : List (Item × TransactionId))

/-- There are as many answers as items before the one that stops the run. -/
theorem stop?_work :
    let ending := (session.work service sends s items).2.2
    (∀ i < ending.answers.length, session.stop? service sends s items i = none) ∧
      ∃ stop, session.stop? service sends s items ending.answers.length = some stop ∧
        ending.result = stop.result := by
  induction sends, session, s, items using work_induction service with
  | exhausted sends session s => exact ⟨by simp [work], .exhausted, rfl, by rw [work]; rfl⟩
  | finished sends session s fresh rest =>
    rw [work]
    exact ⟨nofun, .finished, rfl, rfl⟩
  | aborted sends session s reason fresh rest =>
    rw [work]
    exact ⟨nofun, .aborted reason, rfl, rfl⟩
  | refused sends session s event fresh rest d hr =>
    rw [work_of_refused hr]
    exact ⟨nofun, .refused d, stop?_of_refused hr rest, rfl⟩
  | unsent session s event fresh rest a hr ha =>
    rw [work_of_unsent ha]
    exact ⟨nofun, .unsent, stop?_of_not_refused hr rest, rfl⟩
  | sent sends session s event fresh rest a hr ha hp ih =>
    rw [work_of_sent ha]
    obtain ⟨hn, stop, hs, he⟩ := ih
    refine ⟨?_, stop, ?_, he⟩
    · intro i hi
      cases i with
      | zero => rw [stop?_of_not_refused hr]; rfl
      | succ i =>
        rw [stop?_event_succ]
        exact hn i (Nat.lt_of_succ_lt_succ hi)
    · rw [List.length_cons, stop?_event_succ]
      exact hs

theorem answers_work {i : Nat} {a : Answer}
    (h : (session.work service sends s items).2.2.answers[i]? = some a) :
    ∃ event fresh, items[i]? = some (.event event, fresh) ∧ a.Proper service.engine event := by
  induction sends, session, s, items using work_induction service generalizing i with
  | exhausted sends session s => simp [work] at h
  | finished sends session s fresh rest => simp [work] at h
  | aborted sends session s reason fresh rest => simp [work] at h
  | refused sends session s event fresh rest d hr => simp [work_of_refused hr] at h
  | unsent session s event fresh rest a hr ha => simp [work_of_unsent ha] at h
  | sent sends session s event fresh rest b hr hb hp ih =>
    rw [work_of_sent hb] at h
    cases i with
    | zero =>
      obtain rfl : b = a := by simpa using h
      exact ⟨event, fresh, rfl, hp⟩
    | succ i => exact ih (by simpa using h)

theorem taken_work :
    let ending := (session.work service sends s items).2.2
    ending.taken = (items.take (ending.answers.length + 1)).length := by
  induction sends, session, s, items using work_induction service with
  | exhausted sends session s => simp [work]
  | finished sends session s fresh rest => simp [work]
  | aborted sends session s reason fresh rest => simp [work]
  | refused sends session s event fresh rest d hr => simp [work_of_refused hr]
  | unsent session s event fresh rest a hr ha => simp [work_of_unsent ha]
  | sent sends session s event fresh rest a hr ha hp ih =>
    rw [work_of_sent ha]
    simpa using ih

/-- What comes after the item that stops a run does not matter. -/
theorem work_take_append (more : List (Item × TransactionId)) :
    let n := (session.work service sends s items).2.2.answers.length
    n < items.length →
      session.work service sends s (items.take (n + 1) ++ more) =
        session.work service sends s items := by
  induction sends, session, s, items using work_induction service with
  | exhausted sends session s => exact nofun
  | finished sends session s fresh rest => simp [work]
  | aborted sends session s reason fresh rest => simp [work]
  | refused sends session s event fresh rest d hr => simp [work_of_refused hr]
  | unsent session s event fresh rest a hr ha => simp [work_of_unsent ha]
  | sent sends session s event fresh rest a hr ha hp ih =>
    intro n hn
    simp only [n, work_of_sent ha, List.length_cons, Nat.succ_lt_succ_iff] at hn ⊢
    rw [List.take_succ_cons, List.cons_append, work_of_sent ha]
    dsimp only
    rw [ih hn]

/-- A run answers every event before the first item that stops it, and that item decides the result.
Whatever comes after it changes neither the answers nor the store. -/
theorem run_until_stop (service : Service) (sends : Nat) (session : Session) (s : Store)
    (items : List (Item × TransactionId)) :
    let before := s.record .streamStarted
    let after := session.run service sends s items
    let n := after.2.answers.length
    (∀ i < n, session.stop? service sends before items i = none ∧
      ∃ event fresh a, items[i]? = some (.event event, fresh) ∧ after.2.answers[i]? = some a ∧
        a.Proper service.engine event) ∧
    (∃ stop, session.stop? service sends before items n = some stop ∧
      (after.2.result = .ok () ↔
        stop = .exhausted ∨ stop = .finished ∨ ∃ reason, stop = .aborted reason) ∧
      (∀ d, after.2.result = .error (.duplicate d) ↔ stop = .refused d) ∧
      (after.2.result = .error .outboundClosed ↔ stop = .unsent)) ∧
    after.2.taken = (items.take (n + 1)).length ∧
    ∀ more, n < items.length →
      session.run service sends s (items.take (n + 1) ++ more) = after := by
  intro before after n
  obtain ⟨hn, stop, hs, hr⟩ := session.stop?_work service sends before items
  have ht := session.taken_work service sends before items
  refine ⟨fun i hi => ⟨hn i hi, ?_⟩, ⟨stop, hs, ?_⟩, ht, ?_⟩
  · have ha : after.2.answers[i]? = some after.2.answers[i] := List.getElem?_eq_getElem hi
    obtain ⟨event, fresh, he, hp⟩ := session.answers_work service sends before items ha
    exact ⟨event, fresh, _, he, ha, hp⟩
  · have hr : after.2.result = stop.result := hr
    rw [hr]
    cases stop <;> simp [Stop.result]
  · intro more hl
    have hw := session.work_take_append service sends before items more hl
    simp only [run, after]
    rw [← hw]
    rfl

end Session

end BodyCallout
