import BodyCallout.Proofs.Session.Stopping
import BodyCallout.Proofs.Store.Coherence

set_option autoImplicit false

namespace BodyCallout

namespace Transaction

variable (now : Nat) (t : Transaction)

theorem freezeIf_touch (last : Bool) :
    (t.touch now).freezeIf last = (t.freezeIf last).touch now := by
  cases last with
  | false => rfl
  | true => cases h : t.awaiting <;> simp [freezeIf, freeze, touch, h]

theorem claim_touch : (t.touch now).claim = (t.claim.1.touch now, t.claim.2) := by
  have hr : (t.touch now).ready = t.ready := rfl
  cases h : t.ready with
  | false => rw [claim_of_not_ready h, claim_of_not_ready (hr.trans h)]
  | true => rw [claim_of_ready h, claim_of_ready (hr.trans h)]; rfl

theorem append_touch (chunk : List UInt8) (last : Bool) :
    (t.touch now).append chunk last =
      ((t.append chunk last).1.touch now, (t.append chunk last).2) := by
  have ha : (t.touch now).awaiting = t.awaiting := rfl
  cases h : t.awaiting with
  | false => rw [append_of_frozen _ _ h, append_of_frozen _ _ (ha.trans h)]
  | true =>
    simp only [Transaction.append, ha, h, if_true, ← freezeIf_touch]
    rfl

end Transaction

namespace Engine

open Transaction

theorem apply_touch (event : Event) (now : Nat) (t : Transaction) :
    apply event (t.touch now) = ((apply event t).1.touch now, (apply event t).2) := by
  rcases event with ⟨⟨⟩, part⟩ | ⟨⟨⟩, part⟩ | ⟨⟨⟩, part⟩
  case headers.request => simp only [apply, requestHeaders, freezeIf_touch]
  case body.request =>
    simp only [apply, append_touch]
    rcases t.append part.bytes part.last with ⟨u, _ | _ | _⟩ <;> rfl
  case trailers.request =>
    have hf := freezeIf_touch now { t with trailers := true } true
    simp only [freezeIf, if_true] at hf
    simp only [apply, markTrailers, ← hf]
    rfl
  all_goals rfl

theorem advance_touch (event : Event) (now : Nat) (t : Transaction) :
    advance event (t.touch now) = ((advance event t).1.touch now, (advance event t).2) := by
  cases h : claims event with
  | true => rw [advance_of_claims h, advance_of_claims h, apply_touch, claim_touch]
  | false => rw [advance_of_not_claims h, advance_of_not_claims h]

end Engine

namespace Store

/-- Apart from the clock and the journal, only the entry under one id may differ. -/
structure SameBut (id : TransactionId) (s u : Store) : Prop where
  limit : u.limit = s.limit
  entry : ∀ k, k ≠ id → u.live.get? k = s.live.get? k

/-- The entry under an id, whenever it was last accessed. -/
def content? (s : Store) (id : TransactionId) : Option Transaction :=
  (s.live.get? id).map (·.touch 0)

variable {s u v : Store} {id : TransactionId}

theorem SameBut.trans (h : SameBut id s u) (g : SameBut id u v) : SameBut id s v :=
  ⟨g.limit.trans h.limit, fun k hk => (g.entry k hk).trans (h.entry k hk)⟩

theorem sameBut_insert (s : Store) (id : TransactionId) : SameBut id s (s.insert id) :=
  ⟨rfl, fun _ hk => s.get?_insert_of_ne hk⟩

theorem content?_insert (h : s.live.get? id = none) :
    (s.insert id).content? id = some (.start id s.limit 0) := by
  rw [content?, get?_insert_self h]
  rfl

end Store

namespace Engine

variable (e : Engine) (event : Event) (s : Store) (id : TransactionId)

theorem sameBut_process : s.SameBut id (e.process (some id) event s).1 :=
  ⟨e.limit_process event s _, fun _ hk => e.get?_process_of_ne event s id hk⟩

theorem content?_process :
    (e.process (some id) event s).1.content? id =
      (s.content? id).map fun t => (advance event t).1 := by
  rw [Store.content?, get?_process_self, Store.content?]
  cases s.live.get? id with
  | none => rfl
  | some t => simp only [Option.map_some, advance_touch]; rfl

theorem answer_process :
    (e.process (some id) event s).2 =
      e.answer event ((s.content? id).bind fun t => (advance event t).2.2) := by
  rw [snd_process, Store.content?]
  cases s.live.get? id with
  | none => rfl
  | some t => simp only [Option.map_some, Option.bind_some, advance_touch]

end Engine

namespace Session

/-- The transaction of the session is the one under its identity, and that one is live only if the
session has it. -/
structure Owns (text : String) (session : Session) (s : Store) : Prop where
  identity : session.identity = some text
  current : session.current = none ∧ s.live.get? ⟨text⟩ = none ∨ session.current = some ⟨text⟩

/-- The same session in two stores that agree on the entry under its identity. -/
structure Alike (text : String) (session : Session) (s u : Store) : Prop where
  left : session.Owns text s
  right : session.Owns text u
  limit : s.limit = u.limit
  content : s.content? ⟨text⟩ = u.content? ⟨text⟩

variable {service : Service} {text : String} {session : Session} {s u v : Store}

theorem owns_start (h : s.live.get? ⟨text⟩ = none) : (start (some text)).Owns text s :=
  ⟨rfl, .inl ⟨rfl, h⟩⟩

theorem Owns.congr (h : session.Owns text s) (he : u.live.get? ⟨text⟩ = s.live.get? ⟨text⟩) :
    session.Owns text u :=
  ⟨h.identity, he ▸ h.current⟩

theorem Alike.store (h : session.Alike text s u) (hl : v.limit = s.limit)
    (he : v.live.get? ⟨text⟩ = s.live.get? ⟨text⟩) : session.Alike text v u where
  left := h.left.congr he
  right := h.right
  limit := hl.trans h.limit
  content := by
    rw [← h.content, Store.content?, he]
    rfl

theorem Owns.absent_finish (h : session.Owns text s) :
    (session.finish s).2.live.get? ⟨text⟩ = none := by
  rw [get?_finish]
  rcases h.current with ⟨hc, ha⟩ | hc
  · simp [hc, ha]
  · exact if_pos hc

theorem Owns.finish (h : session.Owns text s) :
    (session.finish s).1.Owns text (session.finish s).2 := by
  have ha := h.absent_finish
  rw [fst_finish]
  exact ⟨h.identity, .inl ⟨rfl, ha⟩⟩

theorem Owns.sameBut_finish (h : session.Owns text s) :
    s.SameBut ⟨text⟩ (session.finish s).2 := by
  refine ⟨session.limit_finish s, fun k hk => ?_⟩
  rw [get?_finish, if_neg]
  rcases h.current with ⟨hc, -⟩ | hc
  · simp [hc]
  · simpa [hc] using Ne.symm hk

def solo (service : Service) (fresh : TransactionId) (session : Session) (s : Store)
    (events : List Event) : Ending :=
  (session.work service events.length s (events.map fun event => (.event event, fresh))).2.2

theorem solo_nil (fresh : TransactionId) :
    session.solo service fresh s [] = ⟨.ok (), [], 0⟩ := by
  rw [solo, List.map_nil, work]

theorem solo_cons {event : Event} {fresh : TransactionId} {next : Session} {a : Answer}
    (h : session.handle service event fresh s = (next, u, .ok a)) (rest : List Event) :
    session.solo service fresh s (event :: rest) =
      let ending := next.solo service fresh u rest
      ⟨ending.result, a :: ending.answers, ending.taken + 1⟩ := by
  have ha : (session.handle service event fresh s).2.2 = .ok a := by rw [h]
  rw [solo, List.map_cons, List.length_cons, work_of_sent ha, h]
  rfl

section Handle

variable (hp : service.correlation.preferIdentity = true) {event : Event}
include hp

theorem Owns.handle (h : session.Owns text s) (event : Event) (fresh : TransactionId) :
    (session.handle service event fresh s).1.Owns text (session.handle service event fresh s).2.1 ∧
      s.SameBut ⟨text⟩ (session.handle service event fresh s).2.1 := by
  cases ho : event.opens with
  | false =>
    rw [session.handle_of_not_opens service fresh s ho]
    rcases h.current with ⟨hc, ha⟩ | hc
    · rw [hc]
      exact ⟨⟨h.identity, .inl ⟨hc, ha⟩⟩, ⟨rfl, fun _ _ => rfl⟩⟩
    · rw [hc]
      exact ⟨⟨h.identity, .inr hc⟩, service.engine.sameBut_process event s _⟩
  | true =>
    rw [session.handle_of_identity service fresh s hp h.identity h.absent_finish ho]
    refine ⟨⟨h.identity, .inr rfl⟩, h.sameBut_finish.trans ?_⟩
    have hi := (session.finish s).2.sameBut_insert ⟨text⟩
    have hr : ((session.finish s).2.insert ⟨text⟩).SameBut ⟨text⟩
        (((session.finish s).2.insert ⟨text⟩).record (.opened .stream)) := ⟨rfl, fun _ _ => rfl⟩
    exact (hi.trans hr).trans (service.engine.sameBut_process event _ _)

theorem Owns.handle_by_content (h : session.Owns text s) (event : Event) (fresh : TransactionId) :
    session.handle service event fresh s =
      ({ session with current := if event.opens then some ⟨text⟩ else session.current },
        (session.handle service event fresh s).2.1,
        .ok (service.engine.answer event
          (if event.opens then none
            else session.current.bind fun _ =>
              (s.content? ⟨text⟩).bind fun t => (Engine.advance event t).2.2))) ∧
    (session.handle service event fresh s).2.1.content? ⟨text⟩ =
      if event.opens then some (Engine.advance event (.start ⟨text⟩ s.limit 0)).1
      else session.current.bind fun _ =>
        (s.content? ⟨text⟩).map fun t => (Engine.advance event t).1 := by
  cases ho : event.opens with
  | false =>
    rw [session.handle_of_not_opens service fresh s ho]
    rcases h.current with ⟨hc, ha⟩ | hc
    -- A session without a transaction has no entry under its name.
    · have hn : s.content? ⟨text⟩ = none := by rw [Store.content?, ha]; rfl
      have hp := service.engine.answer_of_not_opens ho
      simp only [hc, Engine.process_none, Option.bind_none]
      exact ⟨by simp [← hc, hp], hn⟩
    · simp only [hc, Engine.answer_process, Engine.content?_process, Option.bind_some]
      exact ⟨by simp [← hc], rfl⟩
  | true =>
    have ha := h.absent_finish
    rw [session.handle_of_identity service fresh s hp h.identity ha ho]
    refine ⟨rfl, ?_⟩
    have hi : (((session.finish s).2.insert ⟨text⟩).record (.opened .stream)).content? ⟨text⟩ =
        some (.start ⟨text⟩ s.limit 0) := by
      rw [← session.limit_finish s]
      exact Store.content?_insert ha
    simp only [Engine.content?_process, hi]
    rfl

theorem Owns.answers (h : session.Owns text s) (event : Event) (fresh : TransactionId) :
    ∃ next u a, session.handle service event fresh s = (next, u, .ok a) ∧ next.Owns text u ∧
      s.SameBut ⟨text⟩ u := by
  have hh := (h.handle_by_content hp event fresh).1
  obtain ⟨hn, hb⟩ := h.handle hp event fresh
  rw [hh] at hn
  exact ⟨_, _, _, hh, hn, hb⟩

theorem Alike.handle (h : session.Alike text s u) (event : Event) (fresh other : TransactionId) :
    ∃ next a v w, session.handle service event fresh s = (next, v, .ok a) ∧
      session.handle service event other u = (next, w, .ok a) ∧ next.Alike text v w := by
  obtain ⟨hs, hc⟩ := h.left.handle_by_content hp event fresh
  obtain ⟨hu, hd⟩ := h.right.handle_by_content hp event other
  obtain ⟨hl, hk⟩ := h.left.handle hp event fresh
  obtain ⟨hr, hj⟩ := h.right.handle hp event other
  rw [hs] at hl
  rw [hu] at hr
  rw [← h.content] at hu
  refine ⟨_, _, _, _, hs, hu, hl, hr, ?_, ?_⟩
  · rw [hk.limit, hj.limit, h.limit]
  · rw [hc, hd, h.limit, h.content]

/-- A session that has its name to itself answers whatever comes. -/
theorem Owns.ending_solo (h : session.Owns text s) (fresh : TransactionId) (events : List Event) :
    (session.solo service fresh s events).result = .ok () ∧
      (session.solo service fresh s events).answers.length = events.length := by
  induction events generalizing session s with
  | nil => rw [solo_nil]; exact ⟨rfl, rfl⟩
  | cons event rest ih =>
    obtain ⟨next, u, a, hh, hn, -⟩ := h.answers hp event fresh
    obtain ⟨hr, hl⟩ := ih hn
    rw [solo_cons hh]
    exact ⟨hr, congrArg (· + 1) hl⟩

end Handle

end Session

end BodyCallout
