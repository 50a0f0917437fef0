set_option autoImplicit false

namespace BodyCallout

structure Table (κ α : Type) where
  entries : List (κ × α)
  distinct : (entries.map Prod.fst).Nodup

namespace Table

variable {κ α : Type}

@[ext] theorem ext {s t : Table κ α} (h : s.entries = t.entries) : s = t := by
  cases s; cases t; cases h; rfl

def empty : Table κ α := ⟨[], List.nodup_nil⟩

def size (t : Table κ α) : Nat := t.entries.length

def keys (t : Table κ α) : List κ := t.entries.map Prod.fst

def filter (t : Table κ α) (p : κ → α → Bool) : Table κ α where
  entries := t.entries.filter fun e => p e.1 e.2
  distinct := t.distinct.sublist (List.filter_sublist.map Prod.fst)

variable [DecidableEq κ]

def get? (t : Table κ α) (k : κ) : Option α :=
  (t.entries.find? fun e => e.1 = k).map Prod.snd

def contains (t : Table κ α) (k : κ) : Bool := (t.get? k).isSome

def erase (t : Table κ α) (k : κ) : Table κ α := t.filter fun j _ => j ≠ k

def modify (t : Table κ α) (k : κ) (f : α → α) : Table κ α where
  entries := t.entries.map fun e => if e.1 = k then (e.1, f e.2) else e
  distinct := by
    have h : (Prod.fst ∘ fun e : κ × α => if e.1 = k then (e.1, f e.2) else e) = Prod.fst := by
      funext e; dsimp only [Function.comp_apply]; split <;> rfl
    rw [List.map_map, h]
    exact t.distinct

theorem get?_eq_none_iff {t : Table κ α} {k : κ} : t.get? k = none ↔ k ∉ t.keys := by
  simp only [get?, Option.map_eq_none_iff, List.find?_eq_none, decide_eq_true_eq, keys,
    List.mem_map, not_exists, not_and]

/-- Adds an entry under a key that is not there; else nothing changes. -/
def insert (t : Table κ α) (k : κ) (a : α) : Table κ α :=
  if h : t.get? k = none then
    ⟨(k, a) :: t.entries, List.nodup_cons.2 ⟨get?_eq_none_iff.1 h, t.distinct⟩⟩
  else t

theorem entries_insert {t : Table κ α} {k : κ} (h : t.get? k = none) (a : α) :
    (t.insert k a).entries = (k, a) :: t.entries := by
  rw [insert, dif_pos h]

theorem insert_of_get? {t : Table κ α} {k : κ} {b : α} (h : t.get? k = some b) (a : α) :
    t.insert k a = t := by
  rw [insert, dif_neg (by simp [h])]

theorem get?_insert_self {t : Table κ α} {k : κ} (h : t.get? k = none) (a : α) :
    (t.insert k a).get? k = some a := by
  simp [get?, entries_insert h]

theorem get?_insert_of_ne {t : Table κ α} {j k : κ} (h : j ≠ k) (a : α) :
    (t.insert k a).get? j = t.get? j := by
  unfold insert; split
  · simp [get?, Ne.symm h]
  · rfl

theorem size_insert {t : Table κ α} {k : κ} (h : t.get? k = none) (a : α) :
    (t.insert k a).size = t.size + 1 := by
  simp [size, entries_insert h]

theorem get?_modify_self (t : Table κ α) (k : κ) (f : α → α) :
    (t.modify k f).get? k = (t.get? k).map f := by
  simp only [modify, get?, List.find?_map, Option.map_map]
  have hp : ((fun e : κ × α => decide (e.1 = k)) ∘ fun e : κ × α =>
      if e.1 = k then (e.1, f e.2) else e) = fun e => decide (e.1 = k) := by
    funext e; dsimp only [Function.comp_apply]; split <;> simp_all
  rw [hp]
  cases hf : t.entries.find? fun e => decide (e.1 = k) with
  | none => rfl
  | some e =>
    have he : e.1 = k := by simpa using List.find?_some hf
    simp [he]

theorem get?_modify_of_ne (t : Table κ α) {j k : κ} (h : j ≠ k) (f : α → α) :
    (t.modify k f).get? j = t.get? j := by
  simp only [modify, get?, List.find?_map, Option.map_map]
  have hp : ((fun e : κ × α => decide (e.1 = j)) ∘ fun e : κ × α =>
      if e.1 = k then (e.1, f e.2) else e) = fun e => decide (e.1 = j) := by
    funext e; dsimp only [Function.comp_apply]; split <;> rfl
  rw [hp]
  cases hf : t.entries.find? fun e => decide (e.1 = j) with
  | none => rfl
  | some e =>
    have he : e.1 = j := by simpa using List.find?_some hf
    simp [he, h]

theorem keys_modify (t : Table κ α) (k : κ) (f : α → α) : (t.modify k f).keys = t.keys := by
  simp only [modify, keys, List.map_map]
  congr 1
  funext e; dsimp only [Function.comp_apply]; split <;> rfl

theorem get?_eq_some_iff {t : Table κ α} {k : κ} {a : α} :
    t.get? k = some a ↔ (k, a) ∈ t.entries := by
  obtain ⟨entries, distinct⟩ := t
  simp only [get?]
  induction entries with
  | nil => simp
  | cons e rest ih =>
    have hd := List.nodup_cons.1 distinct
    by_cases h : e.1 = k
    · subst h
      have ha : (e.1, a) ∉ rest := fun hm =>
        hd.1 (List.mem_map.2 ⟨(e.1, a), hm, rfl⟩)
      simp [ha, Prod.ext_iff, eq_comm]
    · simp [h, ih hd.2, Prod.ext_iff, Ne.symm h]

theorem get?_filter (t : Table κ α) (p : κ → α → Bool) (k : κ) :
    (t.filter p).get? k = (t.get? k).filter (p k) := by
  ext a
  simp only [get?_eq_some_iff, Option.filter_eq_some_iff]
  simp [filter]

theorem get?_erase_self (t : Table κ α) (k : κ) : (t.erase k).get? k = none := by
  simp [erase, get?_filter]

theorem get?_erase_of_ne (t : Table κ α) {j k : κ} (h : j ≠ k) :
    (t.erase k).get? j = t.get? j := by
  rw [erase, get?_filter]
  cases t.get? j <;> simp [h]

end Table

end BodyCallout
