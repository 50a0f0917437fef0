import BodyCallout.Proofs.Session.Veil

/-!
What builders bear on. Two builders can not be told apart but by the mutations in the answers to
events that claim a body, and not even by those if they agree on the bodies that are claimed. A body
is claimed once for each time its id is opened, and its claim is answered whatever the builder says.
-/

set_option autoImplicit false

namespace BodyCallout

theorem Engine.veil_answer (e : Engine) (event : Event) :
    (e.answer event none).veil = e.answer event none := by
  rw [answer, ← withDelivery_veil, Option.bind_none, veil_answerWith]
  rfl

def Service.withBuilder (service : Service) (b : Builder) : Service :=
  { service with engine := { service.engine with builder := b } }

namespace View

variable {ν : Type} {v : View ν} {k : TransactionId}

/-- What is live under the id, if anything is, was delivered. -/
def Spent (v : View ν) (k : TransactionId) : Prop := ∀ t, v.entry k = some t → t.delivered = true

theorem Spent.release [DecidableEq ν] (h : v.Spent k) (name : ν) : (v.release name).Spent k :=
  fun t ht => h t (entry_release.mp ht).2

theorem Spent.work (h : v.Spent k) (name : ν) (event : Event) : (v.work name event).Spent k := by
  intro t ht
  by_cases hk : v.holds name = some k
  · simp only [View.work, if_pos hk, Option.map_eq_some_iff] at ht
    obtain ⟨t, ht, rfl⟩ := ht
    have hd : (t.touch v.now).delivered = true := h t ht
    rw [(Engine.delivered_advance event _).1, hd, Bool.true_or]
  · rw [entry_work_of_ne hk] at ht
    exact h t ht

/-- An id stays spent until it is opened again. -/
theorem Spent.step [DecidableEq ν] (h : v.Spent k) {t : Turn ν} {u : View ν} (hs : v.Step t u) :
    u.Spent k ∨
      ∃ name event fresh, t = .event name event fresh ∧ event.opens = true ∧
        u.holds name = some k := by
  cases hs with
  | start name identity => exact .inl (h.release name)
  | finish name => exact .inl (h.release name)
  | refuse name event fresh ho => exact .inl (h.release name)
  | work name event fresh ho => exact .inl (h.work name event)
  | pass time => exact .inl h
  | sweep idle => exact .inl fun t ht => h t (Option.filter_eq_some_iff.mp ht).1
  | acquire name event fresh id ho ha =>
    -- The id itself may be the one that is opened: then it is live again, and not delivered.
    by_cases hk : k = id
    · exact .inr ⟨name, event, fresh, rfl, ho, hk ▸ holds_acquire_self⟩
    · refine .inl fun t ht => ?_
      rw [entry_acquire_of_ne hk] at ht
      exact h.release name t ht

end View

namespace Shared

variable {ν : Type} [DecidableEq ν]

section Turns

variable (service : Service) (w : Shared ν)

def claim (w : Shared ν) : Turn ν → Option (TransactionId × Body)
  | .event name event fresh =>
    (w.sessions.get? name).bind fun session => session.claim service event fresh w.store
  | _ => none

def opened (w : Shared ν) : Turn ν → Option TransactionId
  | .event name event fresh =>
    if event.opens then (w.take service (.event name event fresh)).1.view.holds name else none
  | _ => none

theorem asks_eq (t : Turn ν) :
    w.asks service t =
      ((w.claim service t).map Prod.snd).filter fun body =>
        decide (service.engine.consults body) := by
  cases t with
  | event name event fresh =>
    simp only [asks, claim]
    cases w.sessions.get? name with
    | none => rfl
    | some session => exact session.asks_eq service fresh w.store event
  | _ => rfl

section Claim

variable {name : ν} {event : Event} (fresh : TransactionId)

theorem claim_of_opens (h : event.opens = true) :
    w.claim service (.event name event fresh) = none := by
  cases hs : w.sessions.get? name with
  | none => simp [claim, hs]
  | some session => simp [claim, hs, session.claim_of_opens service fresh _ h]

theorem claim_of_not_opens (h : event.opens = false) :
    w.claim service (.event name event fresh) =
      (w.view.holds name).bind fun id =>
        (w.view.claimed name event).map fun body => (id, body) := by
  cases hs : w.sessions.get? name with
  | none => simp [claim, view, hs]
  | some session =>
    simp only [claim, hs, Option.bind_some, session.claim_of_not_opens service fresh _ h,
      Engine.claim, View.claimed, view]
    cases session.current with
    | none => rfl
    | some id =>
      simp only [Option.bind_some, Option.map_bind]
      rfl

variable {service w} in
theorem of_claim {t : Turn ν} {k : TransactionId} {body : Body}
    (h : w.claim service t = some (k, body)) :
    ∃ name event fresh, t = .event name event fresh ∧ event.opens = false ∧
      w.view.holds name = some k ∧ w.view.claimed name event = some body := by
  cases t with
  | event name event fresh =>
    cases ho : event.opens with
    | true => simp [w.claim_of_opens service fresh ho] at h
    | false =>
      rw [w.claim_of_not_opens service fresh ho] at h
      obtain ⟨id, hi, h⟩ := Option.bind_eq_some_iff.mp h
      obtain ⟨body', hb, he⟩ := Option.map_eq_some_iff.mp h
      obtain ⟨rfl, rfl⟩ := Prod.mk.inj he
      exact ⟨name, event, fresh, rfl, ho, hi, hb⟩
  | _ => contradiction

/-- The answer to an event is decided by the event and what is claimed at it. -/
theorem reply_cases (t : Turn ν) :
    (w.claim service t = none ∧ ∀ a, (w.take service t).2 ≠ some (.ok a)) ∨
      ∃ event, (w.take service t).2 =
        some (.ok (service.engine.answer event ((w.claim service t).map Prod.snd))) := by
  cases t with
  | event name event fresh =>
    cases hs : w.sessions.get? name with
    | none =>
      rw [take_of_absent service fresh hs]
      exact .inl ⟨by simp [claim, hs], by simp⟩
    | some session =>
      -- Request headers claim nothing, so their answer is the one to no claim.
      cases ho : event.opens with
      | true =>
        have hn : w.claim service (.event name event fresh) = none :=
          w.claim_of_opens service fresh ho
        rw [hn]
        rcases handle_cases_of_opens service fresh hs ho with ⟨d, hd, -⟩ | ⟨id, -, hr, -⟩
        · exact .inl ⟨rfl, by simp [take, hd]⟩
        · exact .inr ⟨event, by rw [take, hr]; rfl⟩
      | false =>
        refine .inr ⟨event, ?_⟩
        rw [reply_of_not_opens service fresh hs ho, w.claim_of_not_opens service fresh ho]
        simp only [View.claimed]
        cases w.view.holds name <;> simp [Function.comp_def]
  | _ => exact .inl ⟨rfl, by simp [take]⟩

end Claim

theorem claim_mute (t : Turn ν) : w.veil.claim service.mute t = w.claim service t := by
  cases t with
  | event name event fresh =>
    cases ho : event.opens with
    | true => rw [claim_of_opens _ _ fresh ho, claim_of_opens _ _ fresh ho]
    | false =>
      rw [claim_of_not_opens _ _ fresh ho, claim_of_not_opens _ _ fresh ho]
      rfl
  | _ => rfl

theorem veil_reply {t : Turn ν} (h : w.claim service t = none) :
    (w.take service t).2.map (Except.map Answer.veil) = (w.take service t).2 := by
  rcases w.reply_cases service t with ⟨-, ha⟩ | ⟨event, he⟩
  · cases hr : (w.take service t).2 with
    | none => rfl
    | some reply =>
      cases reply with
      | error d => rfl
      | ok a => exact absurd hr (ha a)
  · rw [he, h, Option.map_none, Option.map_some, Except.map, service.engine.veil_answer]

/-- What can be seen of a turn, with the mutations of the answers to claims out of sight. -/
structure Sight (ν : Type) where
  world : Shared ν
  claim : Option (TransactionId × Body)
  reply : Option (Except Duplicate Answer)

def sight (w : Shared ν) (t : Turn ν) : Sight ν where
  world := (w.take service t).1.veil
  claim := w.claim service t
  reply :=
    if (w.claim service t).isSome then (w.take service t).2.map (Except.map Answer.veil)
    else (w.take service t).2

theorem sight_eq (t : Turn ν) :
    w.sight service t =
      ⟨(w.veil.take service.mute t).1, w.veil.claim service.mute t,
        (w.veil.take service.mute t).2⟩ := by
  rw [claim_mute, take_mute, sight]
  cases hc : w.claim service t with
  | none => rw [veil_reply service w hc]; rfl
  | some p => rfl

def throughout {β : Type} (f : Shared ν → Turn ν → β) (w : Shared ν) : List (Turn ν) → List β
  | [] => []
  | t :: rest => f w t :: throughout f (w.take service t).1 rest

def sights (w : Shared ν) (turns : List (Turn ν)) : List (Sight ν) :=
  throughout service (sight service) w turns

def claims (w : Shared ν) (turns : List (Turn ν)) : List (TransactionId × Body) :=
  (throughout service (claim service) w turns).filterMap id

/-- The sessions and the whole store after each turn, and what the turn gives back. -/
def history (w : Shared ν) (turns : List (Turn ν)) :
    List (Shared ν × Option (Except Duplicate Answer)) :=
  throughout service (take service) w turns

theorem sights_eq (turns : List (Turn ν)) :
    w.sights service turns =
      throughout service.mute (fun w t =>
        ⟨(w.take service.mute t).1, w.claim service.mute t, (w.take service.mute t).2⟩)
        w.veil turns := by
  induction turns generalizing w with
  | nil => rfl
  | cons t rest ih =>
    rw [sights, throughout, throughout, sight_eq, take_mute, ← ih]
    rfl

end Turns

section Builders

variable (service : Service) (a b : Builder)

theorem sights_congr (w : Shared ν) (turns : List (Turn ν)) :
    w.sights (service.withBuilder a) turns = w.sights (service.withBuilder b) turns := by
  rw [sights_eq, sights_eq]
  rfl

variable {a b}

theorem take_congr_of_claim {w : Shared ν} {t : Turn ν}
    (h : ∀ p, w.claim (service.withBuilder a) t = some p → service.engine.consults p.2 →
      a p.2 = b p.2) :
    w.take (service.withBuilder b) t = w.take (service.withBuilder a) t := by
  apply take_congr (service.withBuilder a)
  intro body hb
  rw [asks_eq, Option.filter_eq_some_iff, Option.map_eq_some_iff] at hb
  obtain ⟨⟨p, hp, rfl⟩, hc⟩ := hb
  exact (h p hp (of_decide_eq_true hc)).symm

/-- A run depends on the builder only through the bodies that it is asked about. -/
theorem history_congr {w : Shared ν} {turns : List (Turn ν)}
    (h : ∀ p ∈ w.claims (service.withBuilder a) turns, service.engine.consults p.2 →
      a p.2 = b p.2) :
    w.history (service.withBuilder a) turns = w.history (service.withBuilder b) turns := by
  induction turns generalizing w with
  | nil => rfl
  | cons t rest ih =>
    -- The claims are those of the first builder's run, and the second one's has kept to it so far.
    have ht : w.take (service.withBuilder b) t = w.take (service.withBuilder a) t := by
      refine take_congr_of_claim service fun p hp => h p ?_
      simp [claims, throughout, hp]
    have hr := ih (w := (w.take (service.withBuilder a) t).1) fun p hp => h p <| by
      simp only [claims, throughout, List.mem_filterMap, List.mem_cons] at hp ⊢
      obtain ⟨x, hx, he⟩ := hp
      exact ⟨x, .inr hx, he⟩
    rw [history, history, throughout, throughout, ht]
    exact congrArg _ hr

section Reopening

variable {service} {w : Shared ν} {k : TransactionId}

theorem spent_of_claim {t : Turn ν} {body : Body} (h : w.claim service t = some (k, body)) :
    (w.take service t).1.view.Spent k := by
  obtain ⟨name, event, fresh, rfl, ho, hk, hc⟩ := of_claim h
  rw [take, view_handle_of_not_opens service fresh ho]
  intro t ht
  have hd := (w.view.delivered_work name event k).1
  simpa [View.delivered, ht, hk, hc] using hd

theorem not_spent_of_claim {t : Turn ν} {body : Body} (h : w.claim service t = some (k, body)) :
    ¬ w.view.Spent k := by
  obtain ⟨name, event, fresh, rfl, -, hk, hc⟩ := of_claim h
  obtain ⟨id, t, hi, ht, hb⟩ := w.view.of_claimed hc
  obtain rfl : k = id := Option.some.inj (hk.symm.trans hi)
  intro hs
  have hd : t.delivered = true := hs t ht
  have hf : t.delivered = false :=
    (Engine.delivered_advance event (t.touch w.view.now)).2 (by rw [hb]; rfl)
  rw [hd] at hf
  contradiction

theorem spent_or_opened (h : w.view.Spent k) (turns : List (Turn ν)) :
    (w.after service turns).view.Spent k ∨
      ∃ before t rest, turns = before ++ t :: rest ∧
        (w.after service before).opened service t = some k := by
  induction turns generalizing w with
  | nil => exact .inl h
  | cons t rest ih =>
    rcases h.step (w.step_take service t) with hs | ⟨name, event, fresh, rfl, ho, hk⟩
    · rcases ih hs with hr | ⟨before, u, rest, rfl, hu⟩
      · exact .inl hr
      · exact .inr ⟨t :: before, u, rest, rfl, hu⟩
    · exact .inr ⟨[], _, rest, rfl, by rw [after_nil, opened, if_pos ho, hk]⟩

/-- Between two claims under one id the id is opened anew. -/
theorem opened_between {t u : Turn ν} {turns : List (Turn ν)} {first second : Body}
    (ht : w.claim service t = some (k, first))
    (hu : (w.after service (t :: turns)).claim service u = some (k, second)) :
    ∃ before o rest, turns = before ++ o :: rest ∧
      (w.after service (t :: before)).opened service o = some k :=
  (spent_or_opened (spent_of_claim ht) turns).resolve_left (not_spent_of_claim hu)

end Reopening

theorem answered_of_claim {service : Service} {w : Shared ν} {t : Turn ν}
    {p : TransactionId × Body} (h : w.claim service t = some p) :
    ∃ answer, (w.take service t).2 = some (.ok answer) ∧
      ∀ refusal, service.engine.builder p.2 = .error refusal → answer.reply.mutation = none := by
  rcases w.reply_cases service t with ⟨hn, -⟩ | ⟨event, he⟩
  · rw [h] at hn
    contradiction
  · refine ⟨_, he, fun refusal hr => ?_⟩
    rw [Engine.mutation_answer, h, Option.map_some, Option.bind_some, Engine.due, hr, ite_self]

variable (a b)

/-- Two builders on the same world. The sessions and the store go the same way, but for how the
journal calls what became of a body; the same bodies are claimed in the same turns, and every turn
gives back the same, but for the mutation where a body is claimed. If the builders agree on the
claimed bodies that the policy does not skip, nothing at all differs, so the builder is not asked
about any other. A refused body is not offered again, and the event that claimed it is answered
without a mutation. -/
theorem builders_bear_on_mutations (w : Shared ν) (turns : List (Turn ν)) :
    let sa := service.withBuilder a
    let sb := service.withBuilder b
    w.sights sa turns = w.sights sb turns ∧
    ((∀ p ∈ w.claims sa turns, service.engine.consults p.2 → a p.2 = b p.2) →
      w.history sa turns = w.history sb turns) ∧
    (service.engine.overflow = .skip → (∀ body, body.truncated = false → a body = b body) →
      w.history sa turns = w.history sb turns) ∧
    (∀ t p, (w.after sa turns).claim sa t = some p →
      ∃ answer, ((w.after sa turns).take sa t).2 = some (.ok answer) ∧
        ∀ refusal, a p.2 = .error refusal → answer.reply.mutation = none) ∧
    (∀ t rest u k first second, (w.after sa turns).claim sa t = some (k, first) →
      (w.after sa (turns ++ t :: rest)).claim sa u = some (k, second) →
        ∃ before o between, rest = before ++ o :: between ∧
          (w.after sa (turns ++ t :: before)).opened sa o = some k) ∧
    ∀ (session : Session) (sends : Nat) (items : List (Item × TransactionId)),
      let ra := session.run sa sends w.store items
      let rb := session.run sb sends w.store items
      ra.1.veil = rb.1.veil ∧ ra.2.veil = rb.2.veil := by
  intro sa sb
  refine ⟨sights_congr service a b w turns, fun h => history_congr service h, ?_, ?_, ?_, ?_⟩
  · intro hs hab
    refine history_congr service fun p _ hc => hab p.2 ?_
    cases ht : p.2.truncated with
    | false => rfl
    | true => exact absurd ⟨ht, hs⟩ hc
  · intro t p h
    exact answered_of_claim h
  · intro t rest u k first second ht hu
    simp only [after_append] at hu ⊢
    exact opened_between ht hu
  · intro session sends items ra rb
    have hm : (ra.1.veil, ra.2.veil) = (rb.1.veil, rb.2.veil) :=
      (session.run_mute sa w.store sends items).symm.trans
        (session.run_mute sb w.store sends items)
    exact Prod.mk.inj hm

/-- One builder takes truncated bodies and the other takes none, but the policy skips them. One
stream uses its id three times, and a body is claimed each time. -/
theorem builders_bear_on_mutations_of_reused :
    let service : Service := ⟨⟨Classifier.builder, true, .skip⟩, ⟨false, "x-request-id"⟩⟩
    let a : Builder := fun body => if body.truncated then .ok .empty else .error (.failed "down")
    let b : Builder := fun _ => .error (.failed "down")
    let request (name : Bool) (id : String) : Turn Bool :=
      .event name (.headers .request ⟨[], false⟩) ⟨id⟩
    let body (name : Bool) (bytes : List UInt8) : Turn Bool :=
      .event name (.body .request ⟨bytes, true⟩) ⟨"h"⟩
    let response (name : Bool) : Turn Bool :=
      .event name (.headers .response ⟨[], false⟩) ⟨"h"⟩
    let turns : List (Turn Bool) :=
      [.start true none, .start false none, request true "f", request false "g",
        body false [1, 2, 3, 4, 5], body true [1, 2], response true, response false,
        request true "f", body true [3]]
    let rest : List (Turn Bool) := [.advance 5, request true "f", response true]
    let w : Shared Bool := idle (.empty 4)
    let sa := service.withBuilder a
    let sb := service.withBuilder b
    w.claims sa turns = [(⟨"f"⟩, ⟨[1, 2], false⟩), (⟨"g"⟩, ⟨[], true⟩)] ∧
      (∀ p ∈ w.claims sa turns, service.engine.consults p.2 → a p.2 = b p.2) ∧
      service.engine.overflow = .skip ∧ (∀ body, body.truncated = false → a body = b body) ∧
      w.history sa turns = w.history sb turns ∧
      (w.after sa turns).claim sa (response true) = some (⟨"f"⟩, ⟨[3], false⟩) ∧
      (∃ answer, ((w.after sa turns).take sa (response true)).2 = some (.ok answer) ∧
        answer.reply.mutation = none) ∧
      (w.after sa (turns ++ response true :: rest)).claim sa (body true [6]) =
        some (⟨"f"⟩, ⟨[6], false⟩) ∧
      ∃ before o between, rest = before ++ o :: between ∧
        (w.after sa (turns ++ response true :: before)).opened sa o = some ⟨"f"⟩ := by
  intro service a b request body response turns rest w sa sb
  have hc : w.claims sa turns = [(⟨"f"⟩, ⟨[1, 2], false⟩), (⟨"g"⟩, ⟨[], true⟩)] := by
    decide +kernel
  have hab : ∀ body, body.truncated = false → a body = b body := by
    intro body hb
    simp only [a, b, hb, Bool.false_eq_true, if_false]
  have hp : ∀ p ∈ w.claims sa turns, service.engine.consults p.2 → a p.2 = b p.2 := by
    intro p _ hq
    refine hab p.2 ?_
    cases ht : p.2.truncated with
    | false => rfl
    | true => exact absurd ⟨ht, rfl⟩ hq
  have ht : (w.after sa turns).claim sa (response true) = some (⟨"f"⟩, ⟨[3], false⟩) := by
    decide +kernel
  have hu : (w.after sa (turns ++ response true :: rest)).claim sa (body true [6]) =
      some (⟨"f"⟩, ⟨[6], false⟩) := by decide +kernel
  obtain ⟨-, hh, -, ha, ho, -⟩ := builders_bear_on_mutations service a b w turns
  obtain ⟨answer, he, hn⟩ := ha _ _ ht
  exact ⟨hc, hp, rfl, hab, hh hp, ht, ⟨answer, he, hn _ rfl⟩, hu, ho _ _ _ _ _ _ ht hu⟩

end Builders

end Shared

end BodyCallout
