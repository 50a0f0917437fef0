import BodyCallout.Proofs.Session.Calls
import BodyCallout.Proofs.Store.Samples

/-!
The books of a store balance. Whatever is done to a store, and in any order: what was put in and not
taken out is there, the eviction count is what the sweeps say, and the gauge shows the size.
-/

set_option autoImplicit false

namespace BodyCallout

namespace Table

variable {κ α : Type} [DecidableEq κ] (t : Table κ α) {k : κ}

theorem mem_keys_iff : k ∈ t.keys ↔ t.contains k = true := by
  have h := t.get?_eq_none_iff (k := k)
  rw [contains, Option.isSome_iff_ne_none, ne_eq, h, Classical.not_not]

theorem count_keys (k : κ) : t.keys.count k = if t.contains k then 1 else 0 := by
  have hd : t.keys.Nodup := t.distinct
  simp only [hd.count, mem_keys_iff]

variable {t} in
theorem keys_insert (h : t.get? k = none) (a : α) : (t.insert k a).keys = k :: t.keys := by
  simp [keys, entries_insert h]

theorem contains_filter_of_mem (p : κ → α → Bool) {e : κ × α} (he : e ∈ t.entries) :
    (t.filter p).contains e.1 = p e.1 e.2 := by
  have hg : t.get? e.1 = some e.2 := get?_eq_some_iff.mpr he
  rw [contains, get?_filter, hg]
  cases hp : p e.1 e.2 with
  | false => rw [Option.filter_some_neg (by simp [hp])]; rfl
  | true => rw [Option.filter_some_pos hp]; rfl

theorem keys_filter (p : κ → α → Bool) :
    (t.filter p).keys = t.keys.filter fun k => (t.filter p).contains k := by
  have hp : t.entries.filter ((fun k => (t.filter p).contains k) ∘ Prod.fst) =
      t.entries.filter fun e => p e.1 e.2 :=
    List.filter_congr fun e he => t.contains_filter_of_mem p he
  rw [keys, keys, List.filter_map, hp]
  rfl

theorem keys_erase (k : κ) : (t.erase k).keys = t.keys.erase k := by
  have hd : t.keys.Nodup := t.distinct
  rw [hd.erase_eq_filter, keys, keys, List.filter_map]
  congr 1
  refine List.filter_congr fun e _ => ?_
  simp [bne, ← Bool.beq_eq_decide_eq]

end Table

namespace Store

variable (s : Store)

theorem keys_insert {id : TransactionId} (h : s.live.get? id = none) :
    (s.insert id).live.keys = id :: s.live.keys := Table.keys_insert h _

theorem getOrCreate_of_absent {id : TransactionId} (h : s.live.get? id = none) :
    s.getOrCreate id = (s.insert id, true) := by
  simp [getOrCreate, contains_eq, h]

theorem getOrCreate_of_live {id : TransactionId} {t : Transaction}
    (h : s.live.get? id = some t) : s.getOrCreate id = ((s.access id).1, false) := by
  simp [getOrCreate, contains_eq, h]

theorem delete_of_absent {id : TransactionId} (h : s.live.get? id = none) :
    s.delete id = (s, none) := by
  simp [delete, h]

theorem keys_update {α : Type} (id : TransactionId) (f : Transaction → Transaction × α) :
    (s.update id f).1.live.keys = s.live.keys := by
  unfold update; split
  · rfl
  · exact Table.keys_modify _ _ _

theorem keys_delete (id : TransactionId) : (s.delete id).1.live.keys = s.live.keys.erase id := by
  unfold delete; split
  · next h => exact (List.erase_of_not_mem (Table.get?_eq_none_iff.mp h)).symm
  · exact s.live.keys_erase id

theorem keys_evict (keep : Transaction → Bool) :
    (s.evict keep).1.live.keys = s.live.keys.filter fun k => (s.evict keep).1.contains k := by
  simp only [contains, live_evict]
  exact s.live.keys_filter _

theorem snd_evict (keep : Transaction → Bool) :
    (s.evict keep).2 = s.size - (s.evict keep).1.size := by
  have hl : (s.evict keep).1.size = (s.live.filter fun _ t => keep t).size := by
    rw [size, live_evict]
  rw [hl]
  simp only [evict]
  split
  · next h => exact h.symm
  · next h => exact h.symm

theorem size_eq : s.size = s.live.keys.length := by simp [size, Table.size, Table.keys]

end Store

theorem Engine.keys_process (e : Engine) (id : Option TransactionId) (event : Event) (s : Store) :
    (e.process id event s).1.live.keys = s.live.keys := by
  cases id with
  | none => rfl
  | some id =>
    cases h : s.live.get? id with
    | none => rw [e.process_of_absent h]; rfl
    | some t => rw [e.live_process_of_live event s id h, Table.keys_modify]

/-- What can be done to a store: the calls, and changing a transaction in any way. -/
inductive Operation : Type 1 where
  | call (c : Call)
  | update {α : Type} (id : TransactionId) (f : Transaction → Transaction × α)

namespace Operation

def run (s : Store) : Operation → Store
  | call c => c.run s
  | update id f => (s.update id f).1

def inserted (s : Store) : Operation → Option TransactionId
  | call (.create id) =>
    match (s.create id).2 with
    | .ok () => some id
    | .error _ => none
  | call (.getOrCreate id) => if (s.getOrCreate id).2 then some id else none
  | _ => none

def deleted (s : Store) : Operation → Option TransactionId
  | call (.delete id) => (s.delete id).2.map fun _ => id
  | _ => none

def sweeps : Operation → Bool
  | call (.sweep _) => true
  | call (.sweepBefore _) => true
  | _ => false

def evicted (s : Store) (o : Operation) : List TransactionId :=
  if o.sweeps then s.live.keys.filter fun k => !(o.run s).contains k else []

def evictions (s : Store) : Operation → Nat
  | call (.sweep idle) => (s.sweep idle).2
  | call (.sweepBefore time) => (s.sweepBefore time).2
  | _ => 0

/-- Nothing could be done: the id was live already, or there was none to be changed or taken out. -/
def Fails (s : Store) : Operation → Prop
  | call (.create id) => ∃ d, (s.create id).2 = .error d
  | call (.access id) => (s.access id).2 = none
  | call (.delete id) => (s.delete id).2 = none
  | update id f => (s.update id f).2 = none
  | _ => False

def after (s : Store) (ops : List Operation) : Store := ops.foldl run s

theorem after_cons (s : Store) (o : Operation) (rest : List Operation) :
    after s (o :: rest) = after (o.run s) rest := rfl

/-- All that an operation can do to the ids of a store and to its journal: what goes in, what is
taken out, what is evicted and how many that is said to be. -/
inductive Effect (s : Store) :
    Store → Option TransactionId → Option TransactionId → List TransactionId → Nat → Prop where
  | nothing {u : Store} (samples : List Sample) (hk : u.live.keys = s.live.keys)
      (hj : u.journal = samples ++ s.journal)
      (hs : ∀ x ∈ samples, x.move.1 ≠ .active ∧ x.move.1 ≠ .evicted) : Effect s u none none [] 0
  | insert {id : TransactionId} (ha : s.live.get? id = none) :
      Effect s (s.insert id) (some id) none [] 0
  | delete {id : TransactionId} (hl : id ∈ s.live.keys) :
      Effect s (s.delete id).1 none (some id) [] 0
  | sweep (keep : Transaction → Bool) :
      Effect s (s.evict keep).1 none none
        (s.live.keys.filter fun k => !(s.evict keep).1.contains k) (s.evict keep).2

section Step

variable (s : Store) (o : Operation)

theorem effect_run : Effect s (o.run s) (o.inserted s) (o.deleted s) (o.evicted s)
    (o.evictions s) := by
  have updated {α : Type} (id : TransactionId) (f : Transaction → Transaction × α) :
      Effect s (s.update id f).1 none none [] 0 :=
    .nothing [] (s.keys_update id f) (s.journal_update id f) nofun
  have untouched : Effect s s none none [] 0 := .nothing [] rfl rfl nofun
  cases o with
  | update id f => exact updated id f
  | call c =>
    cases c with
    | create id =>
      cases h : s.live.get? id with
      | none =>
        have hc := Store.create_of_absent h
        rw [inserted, run, Call.run, hc]
        exact .insert h
      | some t =>
        have hc := Store.create_of_live h
        rw [inserted, run, Call.run, hc]
        exact untouched
    | getOrCreate id =>
      cases h : s.live.get? id with
      | none =>
        rw [inserted, run, Call.run, s.getOrCreate_of_absent h]
        exact .insert h
      | some t =>
        rw [inserted, run, Call.run, s.getOrCreate_of_live h]
        exact updated id _
    | access id => exact updated id _
    | delete id =>
      cases h : s.live.get? id with
      | none =>
        rw [deleted, run, Call.run, s.delete_of_absent h]
        exact untouched
      | some t =>
        have hl : id ∈ s.live.keys := (Table.mem_keys_iff _).mpr (by simp [Table.contains, h])
        have hd : deleted s (call (.delete id)) = some id := by simp [deleted, Store.delete, h]
        rw [hd]
        exact .delete hl
    | sweep idle => exact .sweep _
    | sweepBefore time => exact .sweep _
    | advance time => exact .nothing [] rfl rfl nofun
    | process e id event =>
      refine .nothing (e.samples event (Engine.met s id)) (e.keys_process id event s)
        (e.journal_process id event s) fun x hx => ?_
      -- What an event notes are counts, and the gauge of live transactions is none.
      have hc := e.move_samples hx
      constructor <;> intro hm <;> simp [hm, Metric.counts] at hc

variable {s} {u : Store} {put out : Option TransactionId} {gone : List TransactionId} {n : Nat}

/-- What goes in stays, unless it is taken out or evicted. -/
theorem Effect.perm_keys (h : Effect s u put out gone n) :
    (u.live.keys ++ out.toList ++ gone).Perm (s.live.keys ++ put.toList) := by
  cases h with
  | nothing samples hk hj hs => simp [hk]
  | @insert id ha =>
    rw [s.keys_insert ha]
    simpa using (List.perm_append_singleton id s.live.keys).symm
  | @delete id hl =>
    rw [s.keys_delete id]
    simpa using (List.perm_append_singleton id _).trans (List.perm_cons_erase hl).symm
  | sweep keep =>
    rw [s.keys_evict keep]
    simpa using List.filter_append_perm (fun k => (s.evict keep).1.contains k) s.live.keys

theorem Effect.length_gone (h : Effect s u put out gone n) : gone.length = n := by
  cases h with
  | sweep keep =>
    have hp := (Effect.sweep (s := s) keep).perm_keys.length_eq
    have hn := s.snd_evict keep
    simp only [List.length_append, Option.toList_none, List.length_nil, ← Store.size_eq] at hp
    omega
  | _ => rfl

theorem Effect.reading_evicted (h : Effect s u put out gone n) :
    u.journal.reading .evicted = s.journal.reading .evicted + n := by
  cases h with
  | nothing samples hk hj hs =>
    have hv := Journal.value?_append (j := s.journal) fun x hx => (hs x hx).2
    rw [hj, Journal.reading, hv]
    exact (Int.add_zero _).symm
  | insert ha => simp [s.journal_insert, Journal.reading_cons, Sample.move]
  | @delete id hl =>
    have hc : s.contains id = true := (Table.mem_keys_iff _).mp hl
    simp [s.journal_delete, hc, Journal.reading_cons, Sample.move]
  | sweep keep =>
    rw [s.journal_evict]
    split
    · next hn => simp [hn]
    · simp [Journal.reading_cons, Sample.move]

theorem Effect.active (h : Effect s u put out gone n)
    (hs : put ≠ none ∨ s.journal.value? .active = some (s.size : Int)) :
    u.journal.value? .active = some (u.size : Int) := by
  cases h with
  | nothing samples hk hj ho =>
    have hv := Journal.value?_append (j := s.journal) fun x hx => (ho x hx).1
    rw [hj, hv, u.size_eq, hk, ← s.size_eq]
    exact hs.resolve_left nofun
  | insert ha => simp [s.journal_insert, Journal.value?_cons, Sample.move]
  | @delete id hl =>
    have hc : s.contains id = true := (Table.mem_keys_iff _).mp hl
    simp [s.journal_delete, hc, Journal.value?_cons, Sample.move]
  | sweep keep =>
    rw [s.journal_evict]
    split
    · next hn =>
      have hl : (s.evict keep).1.live = s.live := s.live_evict_of_zero keep hn
      rw [Store.size, hl]
      exact hs.resolve_left nofun
    · simp [Journal.value?_cons, Sample.move]

end Step

def along {β : Type} (f : Store → Operation → List β) : Store → List Operation → List β
  | _, [] => []
  | s, o :: rest => f s o ++ along f (o.run s) rest

def allInserted : Store → List Operation → List TransactionId :=
  along fun s o => (o.inserted s).toList

def allDeleted : Store → List Operation → List TransactionId :=
  along fun s o => (o.deleted s).toList

def allEvicted : Store → List Operation → List TransactionId := along fun s o => o.evicted s

def swept : Store → List Operation → Nat
  | _, [] => 0
  | s, o :: rest => o.evictions s + swept (o.run s) rest

section Runs

variable (s : Store) (ops : List Operation)

theorem perm_keys_after :
    ((after s ops).live.keys ++ allDeleted s ops ++ allEvicted s ops).Perm
      (s.live.keys ++ allInserted s ops) := by
  induction ops generalizing s with
  | nil => simp [after, allDeleted, allEvicted, allInserted, along]
  | cons o rest ih =>
    have hs := (effect_run s o).perm_keys
    have hr := ih (o.run s)
    rw [List.perm_iff_count] at hs hr ⊢
    intro k
    have hk := hs k
    have hm := hr k
    simp only [allDeleted, allEvicted, allInserted, along, after_cons, List.count_append] at hk hm ⊢
    omega

theorem length_allEvicted : (allEvicted s ops).length = swept s ops := by
  induction ops generalizing s with
  | nil => rfl
  | cons o rest ih =>
    have hs := (effect_run s o).length_gone
    have hr := ih (o.run s)
    simp only [allEvicted, swept, along, List.length_append] at hr ⊢
    omega

theorem reading_evicted_after :
    (after s ops).journal.reading .evicted = s.journal.reading .evicted + swept s ops := by
  induction ops generalizing s with
  | nil => simp [after, swept]
  | cons o rest ih =>
    have hs := (effect_run s o).reading_evicted
    have hr := ih (o.run s)
    rw [after_cons, swept]
    omega

theorem active_after
    (h : allInserted s ops ≠ [] ∨ s.journal.value? .active = some (s.size : Int)) :
    (after s ops).journal.value? .active = some ((after s ops).size : Int) := by
  induction ops generalizing s with
  | nil => simpa [allInserted, along, after] using h
  | cons o rest ih =>
    have hs := (effect_run s o).active
    rw [after_cons]
    apply ih
    cases hi : o.inserted s with
    | none =>
      rcases h with h | h
      · exact .inl (by simpa [allInserted, along, hi] using h)
      · exact .inr (hs (.inr h))
    | some id => exact .inr (hs (.inl (by simp [hi])))

end Runs

theorem run_of_fails {s : Store} {o : Operation} (h : o.Fails s) : o.run s = s := by
  have update_none {α : Type} {id : TransactionId} {f : Transaction → Transaction × α}
      (hu : (s.update id f).2 = none) : (s.update id f).1 = s := by
    cases hl : s.live.get? id with
    | none => rw [Store.update_of_absent f hl]
    | some t => simp [Store.update_of_live f hl] at hu
  cases o with
  | update id f => exact update_none h
  | call c =>
    cases c with
    | create id =>
      obtain ⟨d, hd⟩ := h
      cases hl : s.live.get? id with
      | none => simp [Store.create_of_absent hl] at hd
      | some t => rw [run, Call.run, Store.create_of_live hl]
    | access id => exact update_none h
    | delete id =>
      cases hl : s.live.get? id with
      | none => rw [run, Call.run, s.delete_of_absent hl]
      | some t => simp [Fails, Store.delete, hl] at h
    | _ => exact h.elim

/-- Whatever is done to a store that was empty: every id went in as often as it was taken out or
evicted, and once more if it is live; the counts and the gauge agree with that; and what fails
changes nothing. -/
theorem inserted_eq_removed_and_live (limit : Nat) (ops : List Operation) :
    let start := Store.empty limit
    let s := after start ops
    (∀ k, (allInserted start ops).count k =
      (allDeleted start ops).count k + (allEvicted start ops).count k +
        if s.contains k then 1 else 0) ∧
    (∀ k, ((s.create k).2 = .ok () ↔ s.contains k = false) ∧
      ((s.getOrCreate k).2 = true ↔ s.contains k = false)) ∧
    s.size + (allDeleted start ops).length + swept start ops = (allInserted start ops).length ∧
    (allEvicted start ops).length = swept start ops ∧
    s.journal.reading .evicted = swept start ops ∧
    (allInserted start ops ≠ [] → s.journal.value? .active = some (s.size : Int)) ∧
    (∀ o : Operation, o.Fails s → o.run s = s) ∧
    ∀ k, (s.delete k).1.delete k = ((s.delete k).1, none) := by
  intro start s
  have hp := perm_keys_after start ops
  have hl := hp.length_eq
  have hn := length_allEvicted start ops
  have hz : start.live.keys = [] := rfl
  rw [hz, List.nil_append] at hp hl
  simp only [List.length_append, ← Store.size_eq, hn] at hl
  refine ⟨fun k => ?_, fun k => ?_, hl, hn, ?_, fun h => active_after start ops (.inl h),
    fun o h => run_of_fails h, fun k => ?_⟩
  · have hc := hp.count_eq k
    rw [List.count_append, List.count_append, Table.count_keys] at hc
    have hk : s.live.contains k = s.contains k := rfl
    rw [hk] at hc
    omega
  · cases hk : s.live.get? k with
    | none => simp [Store.create_of_absent hk, s.getOrCreate_of_absent hk, Store.contains_eq, hk]
    | some t => simp [Store.create_of_live hk, s.getOrCreate_of_live hk, Store.contains_eq, hk]
  · rw [reading_evicted_after]
    exact Int.zero_add _
  · exact Store.delete_of_absent _ (s.get?_delete_self k)

end Operation

end BodyCallout
