import BodyCallout.Proofs.Session.Answering

set_option autoImplicit false

namespace BodyCallout

/-- A count only ever goes up, one by one. -/
def Metric.counts : Metric → Bool
  | .active => false
  | .evicted => false
  | .streams => false
  | _ => true

def Metric.ofStore : Metric → Bool
  | .active => true
  | .evicted => true
  | _ => false

theorem Metric.ofStore_of_counts {m : Metric} (h : m.counts = true) : m.ofStore = false := by
  cases m <;> first | contradiction | rfl

@[simp] theorem Phase.mem_all (p : Phase) : p ∈ Phase.all := by rcases p with ⟨⟨⟩, ⟨⟩⟩ <;> decide

@[simp] theorem Source.mem_all (s : Source) : s ∈ Source.all := by cases s <;> decide

@[simp] theorem Outcome.mem_all (o : Outcome) : o ∈ Outcome.all := by cases o <;> decide

namespace Journal

def reading (j : Journal) (m : Metric) : Int := (j.value? m).getD 0

variable {j : Journal} {m : Metric}

theorem value?_cons (x : Sample) (m : Metric) :
    Journal.value? (x :: j) m =
      if x.move.1 = m then some (x.move.2 (j.reading m)) else j.value? m := by
  simp only [value?, reading, List.foldr_cons]

theorem reading_cons (x : Sample) (m : Metric) :
    Journal.reading (x :: j) m = if x.move.1 = m then x.move.2 (j.reading m) else j.reading m := by
  simp only [reading, value?_cons]
  split <;> rfl

theorem value?_append {samples : List Sample} (h : ∀ x ∈ samples, x.move.1 ≠ m) :
    Journal.value? (samples ++ j) m = j.value? m := by
  induction samples with
  | nil => rfl
  | cons x rest ih =>
    rw [List.cons_append, value?_cons, if_neg (h x (List.mem_cons_self ..))]
    exact ih fun y hy => h y (List.mem_cons_of_mem _ hy)

def ofSessions (j : Journal) : Journal := j.filter fun x => !x.move.1.ofStore

def total (j : Journal) : List Metric → Int
  | [] => 0
  | m :: rest => j.reading m + j.total rest

variable {metrics : List Metric}

theorem ofSessions_append {samples : List Sample} (h : ∀ x ∈ samples, x.move.1.counts = true)
    (j : Journal) : Journal.ofSessions (samples ++ j) = samples ++ j.ofSessions := by
  have hs : samples.filter (fun x => !x.move.1.ofStore) = samples :=
    List.filter_eq_self.mpr fun x hx => by rw [Metric.ofStore_of_counts (h x hx)]; rfl
  rw [ofSessions, List.filter_append, hs]
  rfl

theorem reading_ofSessions (h : m.ofStore = false) (j : Journal) :
    j.ofSessions.reading m = j.reading m := by
  induction j with
  | nil => rfl
  | cons x rest ih =>
    cases hx : x.move.1.ofStore with
    | true =>
      have hm : x.move.1 ≠ m := by rintro rfl; simp [h] at hx
      have hf : Journal.ofSessions (x :: rest) = Journal.ofSessions rest := by
        simp [ofSessions, hx]
      rw [hf, ih, reading_cons, if_neg hm]
    | false =>
      have hf : Journal.ofSessions (x :: rest) = x :: Journal.ofSessions rest := by
        simp [ofSessions, hx]
      rw [hf, reading_cons, reading_cons, ih]

theorem total_ofSessions (h : ∀ m ∈ metrics, m.ofStore = false) (j : Journal) :
    j.ofSessions.total metrics = j.total metrics := by
  induction metrics with
  | nil => rfl
  | cons m rest ih =>
    obtain ⟨hm, hr⟩ := List.forall_mem_cons.mp h
    rw [total, total, ih hr, reading_ofSessions hm]

theorem sizes_ofSessions (j : Journal) : j.ofSessions.sizes = j.sizes := by
  have hf : j.ofSessions.filterMap size? = j.filterMap size? := by
    rw [ofSessions, List.filterMap_filter]
    congr 1
    funext x
    cases x <;> rfl
  rw [sizes, sizes, hf]

theorem length_sizes (j : Journal) : j.sizes.length = j.countP fun x => (size? x).isSome := by
  rw [sizes, List.length_mergeSort, List.length_filterMap_eq_countP]

theorem reading_cons_of_counts {x : Sample} (h : x.move.1.counts = true) (j : Journal) :
    Journal.reading (x :: j) m = j.reading m + if x.move.1 = m then 1 else 0 := by
  rw [reading_cons]
  by_cases hm : x.move.1 = m
  · subst hm
    cases x <;> first | contradiction | simp [Sample.move]
  · simp [hm]

theorem total_cons_of_counts {x : Sample} (h : x.move.1.counts = true) (hn : metrics.Nodup)
    (j : Journal) :
    Journal.total (x :: j) metrics = j.total metrics + if x.move.1 ∈ metrics then 1 else 0 := by
  induction metrics with
  | nil => rfl
  | cons m rest ih =>
    obtain ⟨hm, hr⟩ := List.nodup_cons.mp hn
    have ih := ih hr
    rw [total, total, ih, reading_cons_of_counts h]
    by_cases hx : x.move.1 = m
    · simp [hx, hm]; omega
    · simp [hx]; omega

theorem streams_append {samples : List Sample} (h : ∀ x ∈ samples, x.move.1.counts = true)
    (j : Journal) : Journal.reading (samples ++ j) .streams = j.reading .streams := by
  rw [reading, value?_append, reading]
  intro x hx hm
  have hc := h x hx
  rw [hm] at hc
  cases hc

def hits (samples : List Sample) (metrics : List Metric) : Nat :=
  samples.countP fun x => decide (x.move.1 ∈ metrics)

@[simp] theorem hits_nil : hits [] metrics = 0 := rfl

theorem hits_cons (x : Sample) (rest : List Sample) :
    hits (x :: rest) metrics = hits rest metrics + (decide (x.move.1 ∈ metrics)).toNat := by
  rw [hits, hits, List.countP_cons]
  by_cases h : x.move.1 ∈ metrics <;> simp [h]

theorem hits_opening (p : Phase) (source : Source) :
    hits [.event p, .opened source] metrics =
      (decide (.opened source ∈ metrics)).toNat + (decide (.events p ∈ metrics)).toNat := by
  rw [hits_cons, hits_cons, hits_nil, Nat.zero_add]
  rfl

theorem hits_append (samples rest : List Sample) :
    hits (samples ++ rest) metrics = hits samples metrics + hits rest metrics :=
  List.countP_append

theorem total_append {samples : List Sample} (h : ∀ x ∈ samples, x.move.1.counts = true)
    (hn : metrics.Nodup) (j : Journal) :
    Journal.total (samples ++ j) metrics = j.total metrics + hits samples metrics := by
  induction samples with
  | nil => simp
  | cons x rest ih =>
    have hr := ih fun y hy => h y (List.mem_cons_of_mem _ hy)
    rw [List.cons_append, total_cons_of_counts (h x (List.mem_cons_self ..)) hn, hr, hits_cons]
    by_cases hx : x.move.1 ∈ metrics
    · simp [hx, Int.add_assoc]
    · simp [hx]

end Journal

namespace Store

variable (s : Store) (id : TransactionId)

theorem journal_insert :
    (s.insert id).journal = .active (s.insert id).size :: s.journal := rfl

@[simp] theorem journal_update {α : Type} (f : Transaction → Transaction × α) :
    (s.update id f).1.journal = s.journal := by
  unfold update; split <;> rfl

theorem journal_delete :
    (s.delete id).1.journal =
      if s.contains id then .active (s.delete id).1.size :: s.journal else s.journal := by
  rw [contains_eq]
  unfold delete; split
  · next h => simp [h]
  · next h => simp [h]; rfl

theorem journal_evict (keep : Transaction → Bool) :
    (s.evict keep).1.journal =
      if (s.evict keep).2 = 0 then s.journal
      else .active (s.evict keep).1.size :: .evicted (s.evict keep).2 :: s.journal := by
  cases hn : s.size - Store.size { s with live := s.live.filter fun _ t => keep t } with
  | zero => simp [evict, hn]
  | succ n => simp [evict, hn]; rfl

end Store

namespace Engine

/-- A chunk of the request that the transaction is waiting for and has no room for. -/
def refuses : Event → Transaction → Bool
  | .body .request part, t => t.awaiting && !decide (t.buffer.fits part.bytes)
  | _, _ => false

theorem snd_apply (event : Event) (t : Transaction) : (apply event t).2 = refuses event t := by
  rcases event with ⟨⟨⟩, part⟩ | ⟨⟨⟩, part⟩ | ⟨⟨⟩, part⟩ <;> try rfl
  cases ha : t.awaiting with
  | false => simp [apply, refuses, Transaction.append, ha]
  | true =>
    by_cases hf : t.buffer.fits part.bytes
    · simp [apply, refuses, Transaction.append, ha, Buffer.append_of_fits hf, hf]
    · simp [apply, refuses, Transaction.append, ha, Buffer.append_of_not_fits hf, hf]

theorem refused_advance (event : Event) (t : Transaction) :
    (advance event t).2.1 = refuses event t := by
  cases h : claims event with
  | true => rw [advance_of_claims h]; exact snd_apply event t
  | false =>
    rw [advance_of_not_claims h, ← snd_apply]
    rcases event with ⟨⟨⟩, part⟩ | ⟨⟨⟩, part⟩ | ⟨⟨⟩, part⟩ <;> first | contradiction | rfl

theorem refuses_of_opens {event : Event} (h : event.opens = true) (t : Transaction) :
    refuses event t = false := by
  rcases event with ⟨⟨⟩, p⟩ | ⟨side, p⟩ | ⟨side, p⟩ <;> first | contradiction | rfl

variable (e : Engine)

/-- What an event notes, newest first: the event, a chunk that was refused, what became of the body
if it was claimed; or that there was no transaction. -/
def samples (event : Event) : Option Transaction → List Sample
  | none => [.miss event.phase, .event event.phase]
  | some t =>
    let (_, refused, claimed) := advance event t
    (claimed.map fun body => .mutation (e.judge body).1 body.size).toList ++
      (if refused then [.overflow] else []) ++ [.event event.phase]

/-- The transaction that an event meets, as it is when the event comes. -/
def met (s : Store) (id : Option TransactionId) : Option Transaction :=
  id.bind fun id => (s.live.get? id).map (·.touch s.now)

theorem journal_process (id : Option TransactionId) (event : Event) (s : Store) :
    (e.process id event s).1.journal = e.samples event (met s id) ++ s.journal := by
  cases id with
  | none => rfl
  | some id =>
    cases h : s.live.get? id with
    | none => rw [e.process_of_absent h]; simp [samples, met, h, Store.record]
    | some t =>
      rw [e.process_of_live h]
      simp only [samples, met, Option.bind_some, h, Option.map_some]
      rcases advance event (t.touch s.now) with ⟨u, _ | _, _ | body⟩ <;> rfl

theorem move_samples {event : Event} {t : Option Transaction} {x : Sample}
    (h : x ∈ e.samples event t) : x.move.1.counts = true := by
  unfold samples at h
  split at h
  · rcases h with _ | ⟨_, _ | ⟨_, h⟩⟩
    · rfl
    · rfl
    · exact absurd h List.not_mem_nil
  · simp only [List.mem_append, Option.mem_toList, Option.map_eq_some_iff] at h
    rcases h with (⟨body, -, rfl⟩ | h) | h
    · rfl
    · split at h
      · obtain rfl := List.mem_singleton.mp h; rfl
      · exact absurd h List.not_mem_nil
    · obtain rfl := List.mem_singleton.mp h; rfl

theorem hits_samples (event : Event) (t : Option Transaction) (metrics : List Metric) :
    Journal.hits (e.samples event t) metrics = (decide (.events event.phase ∈ metrics)).toNat +
      match t with
      | none => (decide (.misses event.phase ∈ metrics)).toNat
      | some t => (refuses event t && decide (.overflows ∈ metrics)).toNat +
          ((advance event t).2.2.any fun body =>
            decide (.mutations (e.judge body).1 ∈ metrics)).toNat := by
  cases t with
  | none =>
    simp only [samples, Journal.hits_cons, Journal.hits_nil, Nat.zero_add]
    rfl
  | some t =>
    have hr : Journal.hits (if refuses event t then [.overflow] else []) metrics =
        (refuses event t && decide (.overflows ∈ metrics)).toNat := by
      cases refuses event t with
      | false => rfl
      | true => exact (Journal.hits_cons _ _).trans (Nat.zero_add _)
    have he : Journal.hits [.event event.phase] metrics =
        (decide (.events event.phase ∈ metrics)).toNat :=
      (Journal.hits_cons _ _).trans (Nat.zero_add _)
    have hc : Journal.hits ((advance event t).2.2.map fun body =>
        Sample.mutation (e.judge body).1 body.size).toList metrics =
          ((advance event t).2.2.any fun body =>
            decide (.mutations (e.judge body).1 ∈ metrics)).toNat := by
      cases (advance event t).2.2 with
      | none => rfl
      | some body => exact (Journal.hits_cons _ _).trans (Nat.zero_add _)
    simp only [samples, Journal.hits_append, refused_advance, hc, hr, he]
    omega

theorem computed_eq (body : Body) :
    decide ((e.judge body).1 = .computed) = (e.due body).isSome := by
  rw [← e.snd_judge]
  by_cases hs : body.truncated = true ∧ e.overflow = .skip
  · simp only [judge, if_pos hs]
    rfl
  · rcases hb : e.builder body with (_ | _) | m <;> simp only [judge, if_neg hs, hb]
    · rfl
    · rfl
    · generalize (if body.truncated = true then _ else m) = merged
      cases merged.isEmpty <;> rfl

theorem samples_of_opens {event : Event} (h : event.opens = true)
    (id : TransactionId) (limit now : Nat) :
    e.samples event (some (.start id limit now)) = [.event event.phase] := by
  simp [samples, refused_advance, refuses_of_opens h, claimed_of_opens h]

end Engine

end BodyCallout
