import BodyCallout.Proofs.Session.Answering
import BodyCallout.Proofs.Store.Coherence

set_option autoImplicit false

namespace BodyCallout

namespace Transaction

variable {t : Transaction}

theorem Coherent.apply (h : t.Coherent) (event : Event) : (Engine.apply event t).1.Coherent := by
  rcases event with ⟨⟨⟩, p⟩ | ⟨⟨⟩, p⟩ | ⟨⟨⟩, p⟩
  · exact h.freezeIf _
  · exact h.recordResponse p
  · rw [Engine.fst_apply_body]; exact h.append _ _
  · exact h
  · exact h.markTrailers
  · exact h

theorem Coherent.onward_apply (h : t.Coherent) (event : Event) :
    t.Onward (Engine.apply event t).1 := by
  rcases event with ⟨⟨⟩, p⟩ | ⟨⟨⟩, p⟩ | ⟨⟨⟩, p⟩
  · exact h.onward_freezeIf _
  · exact t.onward_recordResponse p
  · rw [Engine.fst_apply_body]; exact h.onward_append _ _
  · exact .refl t
  · exact h.onward_markTrailers
  · exact .refl t

/-- Whatever an event makes ready is claimed at that event. -/
theorem Settled.advance (h : t.Settled) (event : Event) : (Engine.advance event t).1.Settled := by
  cases hc : Engine.claims event with
  | true => rw [Engine.advance_of_claims hc]; exact (h.toCoherent.apply event).claim
  | false => rw [Engine.advance_of_not_claims hc]; exact h

theorem Settled.onward_advance (h : t.Settled) (event : Event) :
    t.Onward (Engine.advance event t).1 := by
  cases hc : Engine.claims event with
  | true =>
    rw [Engine.advance_of_claims hc]
    exact (h.toCoherent.onward_apply event).trans (h.toCoherent.apply event).onward_claim
  | false => rw [Engine.advance_of_not_claims hc]; exact .refl t

inductive Fate (k : TransactionId) (limit now : Nat) :
    Option Transaction → Option Transaction → Prop
  | kept (x : Option Transaction) : Fate k limit now x x
  | gone (x : Option Transaction) : Fate k limit now x none
  | born : Fate k limit now none (some (.start k limit now))
  | touched (t : Transaction) : Fate k limit now (some t) (some (t.touch now))
  | told (t : Transaction) (event : Event) :
      Fate k limit now (some t) (some (Engine.advance event (t.touch now)).1)

variable {k : TransactionId} {limit now : Nat} {x y : Option Transaction}

theorem Fate.onward {t u : Transaction} (h : Fate k limit now (some t) (some u)) (ht : t.Settled) :
    t.Onward u := by
  cases h with
  | kept => exact .refl t
  | touched => exact t.onward_touch now
  | told _ event => exact (t.onward_touch now).trans ((ht.touch now).onward_advance event)

theorem Fate.settled {u : Transaction} (h : Fate k limit now x (some u))
    (hx : ∀ t, x = some t → t.id = k ∧ t.buffer.limit = limit ∧ t.Settled) :
    u.id = k ∧ u.buffer.limit = limit ∧ u.Settled := by
  cases h with
  | kept => exact hx u rfl
  | born => exact ⟨rfl, rfl, settled_start k limit now⟩
  | touched t =>
    obtain ⟨hi, hl, hs⟩ := hx t rfl
    exact ⟨hi, hl, hs.touch now⟩
  | told t event =>
    obtain ⟨hi, hl, hs⟩ := hx t rfl
    have ho := (hs.touch now).onward_advance event
    exact ⟨ho.id.trans hi, ho.limit.trans hl, (hs.touch now).advance event⟩

end Transaction

inductive Call where
  | create (id : TransactionId)
  | getOrCreate (id : TransactionId)
  | access (id : TransactionId)
  | delete (id : TransactionId)
  | sweep (idle : Nat)
  | sweepBefore (time : Nat)
  | advance (time : Nat)
  | process (engine : Engine) (id : Option TransactionId) (event : Event)

namespace Call

def run (s : Store) : Call → Store
  | create id => (s.create id).1
  | getOrCreate id => (s.getOrCreate id).1
  | access id => (s.access id).1
  | delete id => (s.delete id).1
  | sweep idle => (s.sweep idle).1
  | sweepBefore time => (s.sweepBefore time).1
  | advance time => s.advance time
  | process engine id event => (engine.process id event s).1

theorem limit_run (s : Store) (c : Call) : (c.run s).limit = s.limit := by
  cases c with
  | create id => simp only [run, Store.create]; split <;> rfl
  | getOrCreate id =>
    simp only [run, Store.getOrCreate]; split
    · exact s.limit_update id _
    · rfl
  | access id => exact s.limit_update id _
  | delete id => exact s.limit_delete id
  | sweep idle => exact s.limit_evict _
  | sweepBefore time => exact s.limit_evict _
  | advance time => rfl
  | process engine id event => exact engine.limit_process event s id

variable (s : Store) (k id : TransactionId)

open Transaction

theorem fate_insert (h : s.live.get? id = none) :
    Fate k s.limit s.now (s.live.get? k) ((s.insert id).live.get? k) := by
  by_cases hk : k = id
  · subst hk
    rw [h, Store.get?_insert_self h]
    exact .born
  · rw [s.get?_insert_of_ne hk]
    exact .kept _

theorem fate_access : Fate k s.limit s.now (s.live.get? k) ((s.access id).1.live.get? k) := by
  by_cases hk : k = id
  · subst hk
    rw [Store.access, Store.get?_update_self]
    cases s.live.get? k with
    | none => exact .kept _
    | some t => exact .touched t
  · rw [Store.access, s.get?_update_of_ne id _ hk]
    exact .kept _

theorem fate_evict (keep : Transaction → Bool) :
    Fate k s.limit s.now (s.live.get? k) ((s.evict keep).1.live.get? k) := by
  rw [s.get?_evict]
  cases s.live.get? k with
  | none => exact .kept _
  | some t =>
    cases ht : keep t with
    | false => rw [Option.filter_some_neg (by simp [ht])]; exact .gone _
    | true => rw [Option.filter_some_pos ht]; exact .kept _

theorem fate_process (engine : Engine) (id : Option TransactionId) (event : Event) :
    Fate k s.limit s.now (s.live.get? k) ((engine.process id event s).1.live.get? k) := by
  cases id with
  | none => exact .kept _
  | some id =>
    by_cases hk : k = id
    · subst hk
      rw [engine.get?_process_self]
      cases s.live.get? k with
      | none => exact .kept _
      | some t => exact .told t event
    · rw [engine.get?_process_of_ne event s id hk]
      exact .kept _

theorem fate_run (c : Call) :
    Fate k s.limit s.now (s.live.get? k) ((c.run s).live.get? k) := by
  cases c with
  | create id =>
    simp only [run]
    cases h : s.live.get? id with
    | none => rw [Store.create_of_absent h]; exact fate_insert s k id h
    | some t => rw [Store.create_of_live h]; exact .kept _
  | getOrCreate id =>
    simp only [run, Store.getOrCreate]; split
    · exact fate_access s k id
    · next h => exact fate_insert s k id (by simpa [Store.contains_eq] using h)
  | access id => exact fate_access s k id
  | delete id =>
    by_cases hk : k = id
    · subst hk
      rw [run, s.get?_delete_self]
      exact .gone _
    · rw [run, s.get?_delete_of_ne hk]
      exact .kept _
  | sweep idle => exact fate_evict s k _
  | sweepBefore time => exact fate_evict s k _
  | advance time => exact .kept _
  | process engine id event => exact fate_process s k engine id event

def after (s : Store) (calls : List Call) : Store := calls.foldl run s

theorem after_cons (c : Call) (rest : List Call) : after s (c :: rest) = after (c.run s) rest := rfl

theorem limit_after (calls : List Call) : (after s calls).limit = s.limit := by
  induction calls generalizing s with
  | nil => rfl
  | cons c rest ih => rw [after_cons, ih, limit_run]

/-- Every entry is filed under its own id, is settled, and has the limit of the store. -/
def Sound (s : Store) : Prop :=
  ∀ k t, s.live.get? k = some t → t.id = k ∧ t.buffer.limit = s.limit ∧ t.Settled

variable {s}

theorem sound_run (h : Sound s) (c : Call) : Sound (c.run s) := by
  intro k u hu
  have hf := fate_run s k c
  rw [hu] at hf
  rw [limit_run]
  exact hf.settled fun t ht => h k t ht

theorem sound_after (h : Sound s) (calls : List Call) : Sound (after s calls) := by
  induction calls generalizing s with
  | nil => exact h
  | cons c rest ih => exact ih (sound_run h c)

theorem sound_empty (limit : Nat) : Sound (.empty limit) := by
  intro k t h
  simp [Store.empty, Table.empty, Table.get?] at h

theorem onward_after (h : Sound s) {k : TransactionId} {calls : List Call} {t : Transaction}
    (ht : s.live.get? k = some t)
    (hl : ∀ part, part <+: calls → (after s part).live.get? k ≠ none) :
    ∃ u, (after s calls).live.get? k = some u ∧ t.Onward u := by
  induction calls generalizing s t with
  | nil => exact ⟨t, ht, .refl t⟩
  | cons c rest ih =>
    have hn := hl [c] (by simp)
    obtain ⟨m, hm⟩ := Option.ne_none_iff_exists'.mp hn
    have hf := fate_run s k c
    rw [ht, show (c.run s).live.get? k = some m from hm] at hf
    have ho := hf.onward (h k t ht).2.2
    obtain ⟨u, hu, hmu⟩ := ih (sound_run h c) hm fun part hp => hl (c :: part) (by simpa using hp)
    exact ⟨u, hu, ho.trans hmu⟩

/-- After any calls on an empty store every entry is filed under its own id, settled and within the
limit; and from then on, for as long as it stays live, it only goes onward. -/
theorem settled_and_onward (limit : Nat) (calls more : List Call) (k : TransactionId) :
    let s := after (.empty limit) calls
    (∀ t, s.live.get? k = some t → t.id = k ∧ t.Settled ∧ t.buffer.size ≤ limit) ∧
      ∀ t, s.live.get? k = some t →
        (∀ part, part <+: more → (after s part).live.get? k ≠ none) →
          ∃ u, (after s more).live.get? k = some u ∧ t.Onward u := by
  have hs := sound_after (sound_empty limit) calls
  refine ⟨?_, fun t ht => onward_after hs ht⟩
  intro t ht
  obtain ⟨hi, hl, hd⟩ := hs k t ht
  have hf := hd.fits
  rw [hl, limit_after] at hf
  exact ⟨hi, hd, hf⟩

end Call

end BodyCallout
