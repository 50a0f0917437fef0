import BodyCallout.Proofs.Session.History
import BodyCallout.Proofs.Session.Keeping

set_option autoImplicit false

namespace BodyCallout

namespace Correlation

/-- The id that a new transaction gets when it can have no other. -/
def lastResort (c : Correlation) (identity : Option String) (fresh : TransactionId) :
    TransactionId :=
  match c.preferIdentity, identity with
  | true, some text => ⟨text⟩
  | _, _ => fresh

variable {c : Correlation} {identity : Option String} {fresh : TransactionId} {s : Store}

theorem createFrom_of_absent {id : TransactionId} (h : s.live.get? id = none) (source : Source) :
    createFrom s source id = (s.insert id, .ok (id, source)) := by
  simp [createFrom, Store.create_of_absent h]

theorem assign_of_absent (h : s.live.get? fresh = none) (part : HeaderPart) :
    ∃ id source, s.live.get? id = none ∧
      c.assign none part fresh s = (s.insert id, .ok (id, source)) := by
  have hg := createFrom_of_absent h .generated
  cases hr : c.requested part with
  | none => exact ⟨_, .generated, h, by simp [assign, hr, hg]⟩
  | some id =>
    rcases createFrom_cases s .header id with ⟨d, hd⟩ | ⟨ha, he⟩
    · exact ⟨_, .generated, h, by simp [assign, hr, hd, hg]⟩
    · exact ⟨_, .header, ha, by simp [assign, hr, he]⟩

theorem assign_of_lastResort (h : s.live.get? (c.lastResort identity fresh) = none)
    (part : HeaderPart) :
    ∃ id source, s.live.get? id = none ∧
      c.assign identity part fresh s = (s.insert id, .ok (id, source)) := by
  cases identity with
  | none => exact assign_of_absent (by simpa [lastResort] using h) part
  | some text =>
    cases hp : c.preferIdentity with
    | true =>
      have ht : s.live.get? ⟨text⟩ = none := by simpa [lastResort, hp] using h
      exact ⟨_, _, ht, assign_of_identity hp text part fresh ht⟩
    | false =>
      have ha : c.assign (some text) part fresh s = c.assign none part fresh s := by
        simp [assign, hp]
      rw [ha]
      exact assign_of_absent (by simpa [lastResort, hp] using h) part

end Correlation

def Session.Tells (session : Session) (s : Store) (events : List Event) : Prop :=
  ∃ id t, session.current = some id ∧ s.live.get? id = some t ∧ t.Tells s.limit events

namespace Session

variable {service : Service} {fresh : TransactionId} {session : Session} {s : Store}

theorem Tells.handle {past : List Event} (h : session.Tells s past) (service : Service)
    (fresh : TransactionId) {event : Event} (ho : event.opens = false) (more : List Event) :
    ∃ u, u.limit = s.limit ∧ session.Tells u (past ++ [event]) ∧
      session.handle service event fresh s = (session, u, .ok (service.engine.answer event
        (Event.claim s.limit (past ++ event :: more) past.length))) := by
  obtain ⟨id, t, hc, ht, hk⟩ := h
  have hn := hk.touch s.now
  have hl := service.engine.limit_process event s (some id)
  have hg := service.engine.get?_process_self event s id
  rw [ht] at hg
  refine ⟨(service.engine.process (some id) event s).1, hl, ⟨id, _, hc, hg, ?_⟩, ?_⟩
  · rw [hl]
    exact (hn.advance event).1
  · rw [session.handle_of_not_opens service fresh s ho, hc, Engine.snd_process, ht,
      Option.bind_some, hn.claimed event more]

theorem Tells.solo {past rest : List Event} (h : session.Tells s past)
    (ho : ∀ event ∈ rest, event.opens = false) :
    session.solo service fresh s rest =
      ⟨.ok (), rest.mapIdx fun i event => service.engine.answer event
        (Event.claim s.limit (past ++ rest) (past.length + i)), rest.length⟩ := by
  induction rest generalizing past s with
  | nil => exact solo_nil fresh
  | cons event rest ih =>
    obtain ⟨u, hl, hu, hh⟩ := h.handle service fresh (ho event (List.mem_cons_self ..)) rest
    have hr := ih hu fun e he => ho e (List.mem_cons_of_mem _ he)
    rw [solo_cons hh, hr, hl, List.mapIdx_cons]
    simp [Nat.add_assoc, Nat.add_comm 1]

/-- A session that has no transaction yet answers every event of its first one. -/
theorem solo_of_opens {event : Event} (ho : event.opens = true) (hc : session.current = none)
    (hs : s.live.get? (service.correlation.lastResort session.identity fresh) = none)
    {rest : List Event} (hr : ∀ e ∈ rest, e.opens = false) :
    session.solo service fresh s (event :: rest) =
      ⟨.ok (), (event :: rest).mapIdx fun i e => service.engine.answer e
        (Event.claim s.limit (event :: rest) i), rest.length + 1⟩ := by
  have hf : session.finish s = (session, s) := by simp [Session.finish, hc]
  -- Only request headers open a transaction.
  rcases event with ⟨⟨⟩, part⟩ | ⟨side, part⟩ | ⟨side, part⟩ <;> try contradiction
  obtain ⟨id, source, ha, he⟩ := Correlation.assign_of_lastResort hs part
  have hh : session.handle service (.headers .request part) fresh s = _ :=
    session.handle_of_assigned service fresh s (by rw [hf]; exact ha) (by rw [hf]; exact he)
  rw [hf] at hh
  have hk := Transaction.tells_start id s.limit s.now
  have ht : Session.Tells { session with current := some id }
      (service.engine.process (some id) (.headers .request part)
        ((s.insert id).record (.opened source))).1 [.headers .request part] := by
    refine ⟨id, .opened (.headers .request part) id s.limit s.now, rfl, ?_, ?_⟩
    · rw [Engine.get?_process_self, Store.live_record, Store.get?_insert_self ha]
      rfl
    · rw [Engine.limit_process]
      exact (hk.advance _).1
  have hn : none = Event.claim s.limit (.headers .request part :: rest) 0 := by
    rw [← Engine.claimed_of_opens ho id s.limit s.now]
    exact hk.claimed _ rest
  rw [solo_cons hh, ht.solo hr, List.mapIdx_cons, ← hn]
  simp [Nat.add_comm 1]

end Session

end BodyCallout
