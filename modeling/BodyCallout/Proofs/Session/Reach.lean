import BodyCallout.Proofs.Session.Calls
import BodyCallout.Proofs.Session.Stopping
import BodyCallout.Proofs.Store.Idleness

set_option autoImplicit false

namespace BodyCallout

def Store.target (s : Store) (id : Option TransactionId) : Option Transaction :=
  id.bind s.live.get?

namespace Engine

/-- The event goes by without a trace: no entry changes, the builder is not asked, and the answer
is for the event's phase and changes nothing. -/
structure Passes (e : Engine) (id : Option TransactionId) (event : Event) (s : Store) : Prop where
  live : (e.process id event s).1.live = s.live
  builder : ∀ b, { e with builder := b }.process id event s = e.process id event s
  mutation : (e.process id event s).2.reply.mutation = none
  phase : (e.process id event s).2.reply.phase = event.phase

structure Reach (e : Engine) (id : Option TransactionId) (event : Event) (s : Store) : Prop where
  keys : (e.process id event s).1.live.keys = s.live.keys
  now : (e.process id event s).1.now = s.now
  limit : (e.process id event s).1.limit = s.limit
  others : ∀ k, id ≠ some k → (e.process id event s).1.live.get? k = s.live.get? k
  misses : s.target id = none → e.Passes id event s
  touches : ∀ k t, id = some k → s.live.get? k = some t →
    ∃ u, (e.process id event s).1.live.get? k = some u ∧ u.touched = s.now
  onlyTouches : ∀ k t, id = some k → s.live.get? k = some t →
    event.phase = ⟨.response, .body⟩ ∨ event.phase = ⟨.response, .trailers⟩ →
      (e.process id event s).1.live.get? k = some (t.touch s.now)

variable {e : Engine} {id : Option TransactionId} {event : Event} {s : Store}

theorem claims_eq_false_of_phase
    (h : event.phase = ⟨.response, .body⟩ ∨ event.phase = ⟨.response, .trailers⟩) :
    claims event = false := by
  rcases event with ⟨⟨⟩, p⟩ | ⟨⟨⟩, p⟩ | ⟨⟨⟩, p⟩ <;> simp [Event.phase] at h <;> rfl

theorem live_process_of_missed (h : s.target id = none) :
    (e.process id event s).1.live = s.live := by
  cases id with
  | none => rfl
  | some k => rw [e.process_of_absent h]; rfl

theorem asks_of_missed (h : s.target id = none) : e.asks id event s = none := by
  cases id with
  | none => rfl
  | some k =>
    have hk : s.live.get? k = none := h
    simp [asks, hk]

theorem reply_process_of_missed (h : s.target id = none) :
    (e.process id event s).2.reply = .empty event.phase := by
  cases id with
  | none => rfl
  | some k => rw [e.process_of_absent h]; exact e.reply_withDelivery event _

theorem passes_of_missed (h : s.target id = none) : e.Passes id event s where
  live := live_process_of_missed h
  builder b := process_congr fun body hb => by rw [asks_of_missed h] at hb; contradiction
  mutation := by rw [reply_process_of_missed h, Reply.mutation_empty]
  phase := by rw [reply_process_of_missed h, Reply.phase_empty]

theorem reach (e : Engine) (id : Option TransactionId) (event : Event) (s : Store) :
    e.Reach id event s where
  keys := e.keys_process id event s
  now := e.now_process event s id
  limit := e.limit_process event s id
  others k hk := by
    cases id with
    | none => rfl
    | some j => exact e.get?_process_of_ne event s j fun hj => hk (by rw [hj])
  misses := passes_of_missed
  touches k t hi ht := by
    subst hi
    refine ⟨(advance event (t.touch s.now)).1, ?_, touched_advance event _⟩
    rw [e.get?_process_self, ht, Option.map_some]
  onlyTouches k t hi ht hp := by
    subst hi
    rw [e.get?_process_self, ht, Option.map_some,
      advance_of_not_claims (claims_eq_false_of_phase hp)]

end Engine

namespace Operation

/-- Only such an operation can put an entry under `k`. -/
def creates (k : TransactionId) : Operation → Bool
  | call (.create id) => id = k
  | call (.getOrCreate id) => id = k
  | _ => false

def tells : Operation → Bool
  | call (.process _ _ _) => true
  | _ => false

variable {s : Store} {k : TransactionId} {o : Operation}

theorem inserted_ne (h : o.creates k = false) : o.inserted s ≠ some k := by
  cases o with
  | update id f => exact nofun
  | call c =>
    cases c with
    | create id =>
      have hk : id ≠ k := by simpa [creates] using h
      simp only [inserted]
      split <;> simp [hk]
    | getOrCreate id =>
      have hk : id ≠ k := by simpa [creates] using h
      simp only [inserted]
      split <;> simp [hk]
    | _ => simp [inserted]

theorem absent_run (ha : s.live.get? k = none) (h : o.creates k = false) :
    (o.run s).live.get? k = none := by
  rw [Table.get?_eq_none_iff] at ha ⊢
  intro hk
  have hp := (effect_run s o).perm_keys.subset (a := k) (by simp [hk])
  rw [List.mem_append, Option.mem_toList] at hp
  exact hp.elim ha (inserted_ne h)

theorem absent_after {ops : List Operation} (ha : s.live.get? k = none)
    (h : ∀ o ∈ ops, o.creates k = false) : (after s ops).live.get? k = none := by
  induction ops generalizing s with
  | nil => exact ha
  | cons o rest ih =>
    rw [List.forall_mem_cons] at h
    exact ih (absent_run ha h.1) h.2

theorem keys_after_of_tells {events : List Operation} (h : ∀ o ∈ events, o.tells = true) :
    (after s events).live.keys = s.live.keys := by
  induction events generalizing s with
  | nil => rfl
  | cons o rest ih =>
    rw [List.forall_mem_cons] at h
    rw [after_cons, ih h.2]
    match o, h.1 with
    | call (.process e id event), _ => exact e.keys_process id event s

end Operation

/-- An event reaches the entry of its own live transaction, keeps it fresh, and reaches nothing
else. So events alone keep the ids of the store; and whatever is done to a store where an id is not
live, short of creating it, leaves it not live, and then its events pass. -/
theorem Engine.reach_and_absence (s : Store) :
    (∀ (e : Engine) (id : Option TransactionId) (event : Event), e.Reach id event s) ∧
      (∀ events : List Operation, (∀ o ∈ events, o.tells = true) →
        (Operation.after s events).live.keys = s.live.keys) ∧
      ∀ (k : TransactionId) (ops : List Operation), s.live.get? k = none →
        (∀ o ∈ ops, o.creates k = false) →
          (Operation.after s ops).live.get? k = none ∧
            ∀ (e : Engine) (event : Event), e.Passes (some k) event (Operation.after s ops) := by
  refine ⟨fun e id event => e.reach id event s, fun _ h => Operation.keys_after_of_tells h, ?_⟩
  intro k ops ha h
  have hk := Operation.absent_after ha h
  exact ⟨hk, fun e event => Engine.passes_of_missed hk⟩

/-- A transaction is swept out; the events that were still on their way do not bring it back. -/
theorem late_events_pass :
    let e : Engine := ⟨Classifier.builder, true, .skip⟩
    let k : TransactionId := ⟨"x"⟩
    let s := (((Store.empty 4).insert k |>.advance 10).sweep 5).1
    let late : List Operation :=
      [.call (.process e (some k) (.body .request ⟨[1, 2], true⟩)), .call (.create ⟨"y"⟩),
        .call (.process e (some k) (.headers .response ⟨[], false⟩))]
    s.live.get? k = none ∧ (Operation.after s late).live.get? k = none ∧
      (Operation.after s (late.take 1)).live.keys = s.live.keys := by
  intro e k s late
  have hk : s.live.get? k = none := by decide +kernel
  have hc : ∀ o ∈ late, o.creates k = false := by simp [late, Operation.creates, k]
  have ht : ∀ o ∈ late.take 1, o.tells = true := by simp [late, Operation.tells]
  have h := Engine.reach_and_absence s
  exact ⟨hk, (h.2.2 k late hk hc).1, h.2.1 _ ht⟩

end BodyCallout
