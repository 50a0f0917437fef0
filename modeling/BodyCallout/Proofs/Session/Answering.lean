import BodyCallout.Proofs.Store.Lookup
import BodyCallout.Session.Basic

set_option autoImplicit false

namespace BodyCallout

def Event.opens : Event → Bool
  | .headers .request _ => true
  | _ => false

namespace Engine

theorem fst_apply_body (part : BodyPart) (t : Transaction) :
    (apply (.body .request part) t).1 = (t.append part.bytes part.last).1 := by
  simp only [apply]; split <;> next h => rw [h]

theorem advance_of_claims {event : Event} (h : claims event = true) (t : Transaction) :
    advance event t =
      ((apply event t).1.claim.1, (apply event t).2, (apply event t).1.claim.2) := by
  simp [advance, h]

theorem advance_of_not_claims {event : Event} (h : claims event = false) (t : Transaction) :
    advance event t = (t, false, none) := by
  rcases event with ⟨⟨⟩, p⟩ | ⟨⟨⟩, p⟩ | ⟨⟨⟩, p⟩ <;> first | contradiction | rfl

variable (e : Engine)

def consults (body : Body) : Prop := ¬ (body.truncated = true ∧ e.overflow = .skip)

instance (body : Body) : Decidable (e.consults body) := inferInstanceAs (Decidable (¬ (_ ∧ _)))

/-- The mutation that a claimed body gives: what the builder makes of it, with a note if chunks are
missing, unless that is nothing at all. -/
def due (body : Body) : Option Mutation :=
  if e.consults body then
    match e.builder body with
    | .error _ => none
    | .ok m =>
      let m := if body.truncated then m.merge (.ofPairs [(truncatedHeader, "true")]) else m
      if m.isEmpty then none else some m
  else none

theorem snd_judge (body : Body) : (e.judge body).2 = e.due body := by
  by_cases hc : e.consults body
  · have hn : ¬ (body.truncated = true ∧ e.overflow = .skip) := hc
    rw [judge, due, if_neg hn, if_pos hc]
    rcases e.builder body with (_ | _) | m
    · rfl
    · rfl
    · dsimp only
      split <;> split <;> rfl
  · have hs : body.truncated = true ∧ e.overflow = .skip := Decidable.not_not.mp hc
    rw [judge, due, if_pos hs, if_neg hc]

def answer (event : Event) (claimed : Option Body) : Answer :=
  e.withDelivery event (answerWith event.phase (claimed.bind e.due))

theorem withDelivery_of_not_opens {event : Event} (h : event.opens = false) (a : Answer) :
    e.withDelivery event a = a := by
  rcases event with ⟨⟨⟩, p⟩ | ⟨side, p⟩ | ⟨side, p⟩ <;> first | contradiction | rfl

theorem answer_of_not_opens {event : Event} (h : event.opens = false) :
    e.answer event none = .pass event.phase :=
  e.withDelivery_of_not_opens h _

section Respond

variable (p : Phase) (claimed : Option Body) (s : Store)

@[simp] theorem live_respond : (e.respond p claimed s).1.live = s.live := by
  cases claimed <;> rfl

@[simp] theorem now_respond : (e.respond p claimed s).1.now = s.now := by
  cases claimed <;> rfl

@[simp] theorem limit_respond : (e.respond p claimed s).1.limit = s.limit := by
  cases claimed <;> rfl

theorem snd_respond :
    (e.respond p claimed s).2 = answerWith p (claimed.bind e.due) := by
  cases claimed with
  | none => rfl
  | some body => simp only [respond, snd_judge, Option.bind_some]

end Respond

section Process

variable (event : Event) (s : Store)

theorem process_none :
    e.process none event s =
      ((s.record (.event event.phase)).record (.miss event.phase), .pass event.phase) := rfl

variable {event s} {id : TransactionId}

theorem process_of_absent (h : s.live.get? id = none) :
    e.process (some id) event s =
      ((s.record (.event event.phase)).record (.miss event.phase), e.answer event none) := by
  have hr : (s.record (.event event.phase)).live.get? id = none := h
  simp only [process, Store.update_of_absent _ hr]
  rfl

theorem process_of_live {t : Transaction} (h : s.live.get? id = some t) :
    let a := advance event (t.touch s.now)
    let u := { s.record (.event event.phase) with live := s.live.modify id fun _ => a.1 }
    e.process (some id) event s =
      ((e.respond event.phase a.2.2 (if a.2.1 then u.record .overflow else u)).1,
        e.answer event a.2.2) := by
  have hr : (s.record (.event event.phase)).live.get? id = some t := h
  simp only [process, Store.update_of_live _ hr, snd_respond]
  rfl

variable (event s) (id : TransactionId)

@[simp] theorem now_process (id : Option TransactionId) : (e.process id event s).1.now = s.now := by
  cases id with
  | none => rfl
  | some id =>
    cases h : s.live.get? id with
    | none => rw [e.process_of_absent h]; rfl
    | some t => rw [e.process_of_live h]; simp only [now_respond]; split <;> rfl

@[simp] theorem limit_process (id : Option TransactionId) :
    (e.process id event s).1.limit = s.limit := by
  cases id with
  | none => rfl
  | some id =>
    cases h : s.live.get? id with
    | none => rw [e.process_of_absent h]; rfl
    | some t => rw [e.process_of_live h]; simp only [limit_respond]; split <;> rfl

theorem live_process_of_live {t : Transaction} (h : s.live.get? id = some t) :
    (e.process (some id) event s).1.live =
      s.live.modify id fun _ => (advance event (t.touch s.now)).1 := by
  rw [e.process_of_live h]; simp only [live_respond]; split <;> rfl

theorem get?_process_self :
    (e.process (some id) event s).1.live.get? id =
      (s.live.get? id).map fun t => (advance event (t.touch s.now)).1 := by
  cases h : s.live.get? id with
  | none => rw [e.process_of_absent h]; exact h
  | some t => rw [live_process_of_live e event s id h, Table.get?_modify_self, h]; rfl

theorem get?_process_of_ne {j : TransactionId} (hj : j ≠ id) :
    (e.process (some id) event s).1.live.get? j = s.live.get? j := by
  cases h : s.live.get? id with
  | none => rw [e.process_of_absent h]; rfl
  | some t => rw [live_process_of_live e event s id h]; exact Table.get?_modify_of_ne _ hj _

theorem snd_process :
    (e.process (some id) event s).2 =
      e.answer event ((s.live.get? id).bind fun t => (advance event (t.touch s.now)).2.2) := by
  cases h : s.live.get? id with
  | none => rw [e.process_of_absent h]; rfl
  | some t => rw [e.process_of_live h]; rfl

end Process

section Asks

/-- The body that the builder is asked about at an event, if it is asked at all. -/
def asks (id : Option TransactionId) (event : Event) (s : Store) : Option Body :=
  (id.bind fun id => (s.live.get? id).bind fun t => (advance event (t.touch s.now)).2.2).filter
    fun body => decide (e.consults body)

def claim (id : Option TransactionId) (event : Event) (s : Store) :
    Option (TransactionId × Body) :=
  id.bind fun id => (s.live.get? id).bind fun t =>
    (advance event (t.touch s.now)).2.2.map fun body => (id, body)

theorem asks_eq (id : Option TransactionId) (event : Event) (s : Store) :
    e.asks id event s =
      ((claim id event s).map Prod.snd).filter fun body => decide (e.consults body) := by
  cases id with
  | none => rfl
  | some id => cases h : s.live.get? id <;> simp [asks, claim, h, Function.comp_def]

variable {e} {b : Builder}

theorem judge_congr {body : Body} (h : e.consults body → b body = e.builder body) :
    { e with builder := b }.judge body = e.judge body := by
  unfold judge
  split
  · rfl
  · next hs =>
    have hb : { e with builder := b }.builder body = e.builder body := h hs
    rw [hb]

/-- What an event does depends on the builder only through the body that it is asked about. -/
theorem process_congr {id : Option TransactionId} {event : Event} {s : Store}
    (h : ∀ body, e.asks id event s = some body → b body = e.builder body) :
    { e with builder := b }.process id event s = e.process id event s := by
  cases id with
  | none => rfl
  | some id =>
    cases hl : s.live.get? id with
    | none => rw [process_of_absent _ hl, process_of_absent _ hl]; rfl
    | some t =>
      rw [process_of_live _ hl, process_of_live _ hl]
      cases hc : (advance event (t.touch s.now)).2.2 with
      | none => rfl
      | some body =>
        have hj : { e with builder := b }.judge body = e.judge body := by
          apply judge_congr
          intro hs
          apply h
          simp [asks, hl, hc, hs]
        simp only [respond, answer, Option.bind_some, ← snd_judge, hj]
        rfl

end Asks

theorem fst_close (id : TransactionId) (s : Store) : (close id s).1 = (s.delete id).1 := rfl

end Engine

namespace Correlation

variable (c : Correlation) (s : Store)

theorem createFrom_cases (source : Source) (id : TransactionId) :
    (∃ d, createFrom s source id = (s, .error d)) ∨
      s.live.get? id = none ∧ createFrom s source id = (s.insert id, .ok (id, source)) := by
  cases h : s.live.get? id with
  | none => exact .inr ⟨rfl, by simp [createFrom, Store.create_of_absent h]⟩
  | some t => exact .inl ⟨⟨id⟩, by simp [createFrom, Store.create_of_live h]⟩

theorem assign_cases (identity : Option String) (part : HeaderPart) (fresh : TransactionId) :
    (∃ d, c.assign identity part fresh s = (s, .error d)) ∨
      ∃ id source, s.live.get? id = none ∧
        c.assign identity part fresh s = (s.insert id, .ok (id, source)) := by
  have outcome (source : Source) (id : TransactionId) :
      (∃ d, createFrom s source id = (s, .error d)) ∨
        ∃ j x, s.live.get? j = none ∧ createFrom s source id = (s.insert j, .ok (j, x)) :=
    (createFrom_cases s source id).imp_right fun h => ⟨id, source, h⟩
  unfold assign
  split
  · exact outcome _ _
  · split
    · exact outcome _ _
    · next id _ =>
      rcases createFrom_cases s .header id with ⟨d, hd⟩ | ⟨ha, he⟩
      · simp only [hd]
        exact outcome _ _
      · simp only [he]
        exact .inr ⟨id, .header, ha, rfl⟩

variable {c s}

theorem assign_of_identity (hp : c.preferIdentity = true) (text : String) (part : HeaderPart)
    (fresh : TransactionId) (h : s.live.get? ⟨text⟩ = none) :
    c.assign (some text) part fresh s = (s.insert ⟨text⟩, .ok (⟨text⟩, .stream)) := by
  simp [assign, hp, createFrom, Store.create_of_absent h]

end Correlation

theorem Transaction.touch_start (id : TransactionId) (limit now : Nat) :
    (start id limit now).touch now = .start id limit now := rfl

/-- The entry that request headers leave behind when they open a transaction. -/
def Transaction.opened (event : Event) (id : TransactionId) (limit now : Nat) : Transaction :=
  (Engine.advance event (.start id limit now)).1

/-- A transaction has seen no response headers when it is opened, so nothing is claimed then. -/
theorem Engine.claimed_of_opens {event : Event} (h : event.opens = true) (id : TransactionId)
    (limit now : Nat) : (Engine.advance event (.start id limit now)).2.2 = none := by
  rcases event with ⟨⟨⟩, p⟩ | ⟨side, p⟩ | ⟨side, p⟩ <;> try contradiction
  cases hl : p.last <;>
    simp [Engine.advance, Engine.apply, Engine.claims, Transaction.requestHeaders,
      Transaction.freezeIf, Transaction.freeze, Transaction.start, Transaction.claim,
      Transaction.ready, hl]

namespace Session

section Finish

variable (session : Session) (s : Store)

@[simp] theorem now_finish : (session.finish s).2.now = s.now := by
  unfold finish; split
  · rfl
  · exact s.now_delete _

@[simp] theorem limit_finish : (session.finish s).2.limit = s.limit := by
  unfold finish; split
  · rfl
  · exact s.limit_delete _

theorem fst_finish : (session.finish s).1 = { session with current := none } := by
  unfold finish; split
  · next h => rw [← h]
  · rfl

theorem get?_finish (k : TransactionId) :
    (session.finish s).2.live.get? k =
      if session.current = some k then none else s.live.get? k := by
  unfold finish
  cases h : session.current with
  | none => rfl
  | some id =>
    by_cases hk : k = id
    · subst hk
      simpa [Engine.fst_close] using s.get?_delete_self k
    · simpa [Engine.fst_close, Ne.symm hk] using s.get?_delete_of_ne hk

end Finish

section Handle

variable (service : Service) {event : Event} (fresh : TransactionId) (session : Session) (s : Store)

theorem handle_of_not_opens (h : event.opens = false) :
    session.handle service event fresh s =
      (session, (service.engine.process session.current event s).1,
        .ok (service.engine.process session.current event s).2) := by
  rcases event with ⟨⟨⟩, p⟩ | ⟨side, p⟩ | ⟨side, p⟩ <;> first | contradiction | rfl

theorem handle_of_assigned {part : HeaderPart} {id : TransactionId} {source : Source}
    (ha : (session.finish s).2.live.get? id = none)
    (he : service.correlation.assign session.identity part fresh (session.finish s).2 =
      ((session.finish s).2.insert id, .ok (id, source))) :
    session.handle service (.headers .request part) fresh s =
      ({ session with current := some id },
        (service.engine.process (some id) (.headers .request part)
          (((session.finish s).2.insert id).record (.opened source))).1,
        .ok (service.engine.answer (.headers .request part) none)) := by
  have hi := Store.get?_insert_self ha
  have hc : ∀ limit now,
      (Engine.advance (.headers .request part) (.start id limit now)).2.2 = none :=
    Engine.claimed_of_opens rfl id
  simp only [handle, begin, fst_finish, he, process, Engine.snd_process, Store.live_record, hi,
    Option.bind_some, Store.now_record, Store.now_insert, Transaction.touch_start, hc]

theorem handle_of_opens (h : event.opens = true) :
    (∃ d, session.handle service event fresh s =
      ({ session with current := none }, (session.finish s).2, .error d)) ∨
    ∃ id source, (session.finish s).2.live.get? id = none ∧
      session.handle service event fresh s =
        ({ session with current := some id },
          (service.engine.process (some id) event
            (((session.finish s).2.insert id).record (.opened source))).1,
          .ok (service.engine.answer event none)) := by
  rcases event with ⟨⟨⟩, p⟩ | ⟨side, p⟩ | ⟨side, p⟩ <;> try contradiction
  rcases service.correlation.assign_cases (session.finish s).2 session.identity p fresh with
    ⟨d, hd⟩ | ⟨id, source, ha, he⟩
  · refine .inl ⟨d, ?_⟩
    simp only [handle, begin, fst_finish, hd]
  · exact .inr ⟨id, source, ha, session.handle_of_assigned service fresh s ha he⟩

theorem handle_of_identity (hp : service.correlation.preferIdentity = true) {text : String}
    (hs : session.identity = some text) (ha : (session.finish s).2.live.get? ⟨text⟩ = none)
    (h : event.opens = true) :
    session.handle service event fresh s =
      ({ session with current := some ⟨text⟩ },
        (service.engine.process (some ⟨text⟩) event
          (((session.finish s).2.insert ⟨text⟩).record (.opened .stream))).1,
        .ok (service.engine.answer event none)) := by
  rcases event with ⟨⟨⟩, p⟩ | ⟨side, p⟩ | ⟨side, p⟩ <;> try contradiction
  apply session.handle_of_assigned service fresh s ha
  rw [hs]
  exact Correlation.assign_of_identity hp text p fresh ha

theorem identity_handle :
    (session.handle service event fresh s).1.identity = session.identity := by
  cases h : event.opens with
  | false => rw [session.handle_of_not_opens service fresh s h]
  | true =>
    rcases session.handle_of_opens service fresh s h with ⟨d, hd⟩ | ⟨id, source, _, he⟩
    · rw [hd]
    · rw [he]

def asks (service : Service) (event : Event) (fresh : TransactionId) (session : Session)
    (s : Store) : Option Body :=
  match event with
  | .headers .request part =>
    match session.begin service part fresh s with
    | (session, s, .ok ()) => service.engine.asks session.current event s
    | _ => none
  | _ => service.engine.asks session.current event s

def claim (service : Service) (event : Event) (fresh : TransactionId) (session : Session)
    (s : Store) : Option (TransactionId × Body) :=
  match event with
  | .headers .request part =>
    match session.begin service part fresh s with
    | (session, s, .ok ()) => Engine.claim session.current event s
    | _ => none
  | _ => Engine.claim session.current event s

theorem asks_eq (event : Event) :
    session.asks service event fresh s =
      ((session.claim service event fresh s).map Prod.snd).filter fun body =>
        decide (service.engine.consults body) := by
  rcases event with ⟨⟨⟩, part⟩ | ⟨side, part⟩ | ⟨side, part⟩
  · simp only [asks, claim]
    rcases session.begin service part fresh s with ⟨session, s, d | ⟨⟩⟩
    · rfl
    · exact service.engine.asks_eq _ _ _
  all_goals exact service.engine.asks_eq _ _ _

theorem claim_of_not_opens (h : event.opens = false) :
    session.claim service event fresh s = Engine.claim session.current event s := by
  rcases event with ⟨⟨⟩, p⟩ | ⟨side, p⟩ | ⟨side, p⟩ <;> first | contradiction | rfl

theorem claim_of_opens (h : event.opens = true) : session.claim service event fresh s = none := by
  rcases event with ⟨⟨⟩, p⟩ | ⟨side, p⟩ | ⟨side, p⟩ <;> try contradiction
  rcases service.correlation.assign_cases (session.finish s).2 session.identity p fresh with
    ⟨d, hd⟩ | ⟨id, source, ha, he⟩
  · simp only [claim, begin, fst_finish, hd]
  · have hi := Store.get?_insert_self ha
    simp only [claim, begin, fst_finish, he, Engine.claim, Store.live_record, hi, Option.bind_some,
      Store.now_record, Store.now_insert, Transaction.touch_start, Engine.claimed_of_opens h]
    rfl

theorem asks_of_not_opens (h : event.opens = false) :
    session.asks service event fresh s = service.engine.asks session.current event s := by
  rw [asks_eq, claim_of_not_opens service fresh session s h, Engine.asks_eq]

theorem asks_of_opens (h : event.opens = true) :
    session.asks service event fresh s = none := by
  rw [asks_eq, claim_of_opens service fresh session s h]
  rfl

theorem handle_congr {b : Builder}
    (h : ∀ body, session.asks service event fresh s = some body →
      b body = service.engine.builder body) :
    session.handle { service with engine := { service.engine with builder := b } } event fresh s =
      session.handle service event fresh s := by
  cases ho : event.opens with
  | false =>
    rw [asks_of_not_opens service fresh session s ho] at h
    rw [handle_of_not_opens _ fresh session s ho, handle_of_not_opens _ fresh session s ho,
      Engine.process_congr h]
  | true =>
    rcases event with ⟨⟨⟩, p⟩ | ⟨side, p⟩ | ⟨side, p⟩ <;> try contradiction
    have hb : session.begin { service with engine := { service.engine with builder := b } } p fresh
        s = session.begin service p fresh s := rfl
    simp only [asks] at h
    simp only [handle, hb]
    rcases hr : session.begin service p fresh s with ⟨session, s, d | ⟨⟩⟩
    · rfl
    · simp only [hr] at h
      simp only [process, Engine.process_congr h]

end Handle

end Session

end BodyCallout
