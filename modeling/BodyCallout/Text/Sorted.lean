import BodyCallout.Text.Utf8

set_option autoImplicit false

namespace BodyCallout.Text

/-- The order of keys is the order of their bytes. -/
def Before (a b : String) : Prop := Utf8.encode a.toList < Utf8.encode b.toList

instance (a b : String) : Decidable (Before a b) :=
  inferInstanceAs (Decidable (Utf8.encode a.toList < Utf8.encode b.toList))

theorem Before.trans {a b c : String} (h : Before a b) (k : Before b c) : Before a c :=
  List.lt_trans h k

/-- A table of texts that has each key once and lists them in order. -/
structure Sorted where
  entries : List (String × String)
  ascending : entries.Pairwise fun a b => Before a.1 b.1

namespace Sorted

def put (key value : String) : List (String × String) → List (String × String)
  | [] => [(key, value)]
  | e :: rest =>
    if Before key e.1 then (key, value) :: e :: rest
    else if Before e.1 key then e :: put key value rest
    else (key, value) :: rest

variable {key value : String} {e : String × String} {es : List (String × String)}

theorem mem_of_mem_put (h : e ∈ put key value es) : e = (key, value) ∨ e ∈ es := by
  induction es with
  | nil => exact .inl (List.mem_singleton.mp h)
  | cons d rest ih =>
    rw [put] at h
    split at h
    · exact List.mem_cons.mp h
    · split at h
      · rcases List.mem_cons.mp h with rfl | h
        · exact .inr (List.mem_cons_self ..)
        · exact (ih h).imp_right (List.mem_cons_of_mem d)
      · exact (List.mem_cons.mp h).imp_right (List.mem_cons_of_mem d)

theorem ascending_put (h : es.Pairwise fun a b => Before a.1 b.1) :
    (put key value es).Pairwise fun a b => Before a.1 b.1 := by
  induction es with
  | nil => exact List.pairwise_singleton ..
  | cons d rest ih =>
    obtain ⟨hd, hr⟩ := List.pairwise_cons.mp h
    rw [put]
    split
    · next hk =>
      refine List.pairwise_cons.mpr ⟨fun e he => ?_, h⟩
      rcases List.mem_cons.mp he with rfl | he
      · exact hk
      · exact hk.trans (hd e he)
    · next hk =>
      split
      · next hl =>
        refine List.pairwise_cons.mpr ⟨fun e he => ?_, ih hr⟩
        rcases mem_of_mem_put he with rfl | he
        · exact hl
        · exact hd e he
      · next hl =>
        -- The key is there, and what comes after its entry stays after it.
        have he : Utf8.encode key.toList = Utf8.encode d.1.toList := List.le_antisymm hl hk
        refine List.pairwise_cons.mpr ⟨fun e hm => ?_, hr⟩
        rw [Before, he]
        exact hd e hm

theorem mem_put_self : (key, value) ∈ put key value es := by
  induction es with
  | nil => exact List.mem_singleton_self _
  | cons d rest ih =>
    rw [put]
    split
    · exact List.mem_cons_self ..
    · split
      · exact List.mem_cons_of_mem d ih
      · exact List.mem_cons_self ..

theorem mem_put_of_mem (h : e ∈ es) (hk : Before e.1 key ∨ Before key e.1) :
    e ∈ put key value es := by
  induction es with
  | nil => cases h
  | cons d rest ih =>
    rw [put]
    split
    · exact List.mem_cons_of_mem _ h
    · next hd =>
      split
      · rcases List.mem_cons.mp h with rfl | h
        · exact List.mem_cons_self ..
        · exact List.mem_cons_of_mem d (ih h)
      · next hl =>
        rcases List.mem_cons.mp h with rfl | h
        · exact absurd hk (not_or.mpr ⟨hl, hd⟩)
        · exact List.mem_cons_of_mem _ h

theorem map_put (f : String → String → String) :
    (put key value es).map (fun e => (e.1, f e.1 e.2)) =
      put key (f key value) (es.map fun e => (e.1, f e.1 e.2)) := by
  induction es with
  | nil => rfl
  | cons d rest ih =>
    rw [List.map_cons, put, put]
    split
    · rfl
    · split
      · rw [List.map_cons, ih]
      · rfl

def empty : Sorted := ⟨[], .nil⟩

/-- The value of a key that is there already is replaced. -/
def insert (t : Sorted) (key value : String) : Sorted :=
  ⟨put key value t.entries, ascending_put t.ascending⟩

def insertAll (t : Sorted) (es : List (String × String)) : Sorted :=
  es.foldl (fun t e => t.insert e.1 e.2) t

def ofPairs (es : List (String × String)) : Sorted := empty.insertAll es

theorem mem_of_mem_insertAll {t : Sorted} (h : e ∈ (t.insertAll es).entries) :
    e ∈ t.entries ∨ e ∈ es := by
  induction es generalizing t with
  | nil => exact .inl h
  | cons d rest ih =>
    rcases ih h with h | h
    · exact (mem_of_mem_put h).elim (fun he => .inr (he ▸ List.mem_cons_self ..)) .inl
    · exact .inr (List.mem_cons_of_mem d h)

theorem mem_insertAll_of_mem {t : Sorted} (h : e ∈ t.entries)
    (hk : ∀ d ∈ es, Before e.1 d.1 ∨ Before d.1 e.1) : e ∈ (t.insertAll es).entries := by
  induction es generalizing t with
  | nil => exact h
  | cons d rest ih =>
    rw [List.forall_mem_cons] at hk
    exact ih (mem_put_of_mem h hk.1) hk.2

/-- The table has what was put in it, if no key was used twice. -/
theorem mem_ofPairs_iff (hk : es.Pairwise fun a b => Before a.1 b.1 ∨ Before b.1 a.1) :
    e ∈ (ofPairs es).entries ↔ e ∈ es := by
  constructor
  · intro h
    exact (mem_of_mem_insertAll h).resolve_left List.not_mem_nil
  · intro h
    suffices hs : ∀ t : Sorted, e ∈ (t.insertAll es).entries from hs empty
    induction es with
    | nil => cases h
    | cons d rest ih =>
      obtain ⟨hd, hr⟩ := List.pairwise_cons.mp hk
      intro t
      rcases List.mem_cons.mp h with rfl | h
      · have hm : e ∈ (t.insert e.1 e.2).entries := mem_put_self
        exact mem_insertAll_of_mem (t := t.insert e.1 e.2) hm hd
      · exact ih hr h (t.insert d.1 d.2)

/-- What is done to the values before they are put in a table may be done afterwards. -/
theorem entries_ofPairs_map (f : String → String → String) (es : List (String × String)) :
    (ofPairs (es.map fun e => (e.1, f e.1 e.2))).entries =
      (ofPairs es).entries.map fun e => (e.1, f e.1 e.2) := by
  suffices hs : ∀ t u : Sorted, u.entries = t.entries.map (fun e => (e.1, f e.1 e.2)) →
      (u.insertAll (es.map fun e => (e.1, f e.1 e.2))).entries =
        (t.insertAll es).entries.map fun e => (e.1, f e.1 e.2) from hs empty empty rfl
  induction es with
  | nil => exact fun _ _ h => h
  | cons d rest ih =>
    intro t u h
    refine ih (t.insert d.1 d.2) (u.insert d.1 (f d.1 d.2)) ?_
    exact (congrArg (put d.1 (f d.1 d.2)) h).trans (map_put f).symm

end Sorted

end BodyCallout.Text
