import BodyCallout.Store.Basic

set_option autoImplicit false

namespace BodyCallout

namespace Store

@[simp] theorem live_record (s : Store) (x : Sample) : (s.record x).live = s.live := rfl

@[simp] theorem now_record (s : Store) (x : Sample) : (s.record x).now = s.now := rfl

@[simp] theorem limit_record (s : Store) (x : Sample) : (s.record x).limit = s.limit := rfl

@[simp] theorem live_recordSize (s : Store) : s.recordSize.live = s.live := rfl

@[simp] theorem now_recordSize (s : Store) : s.recordSize.now = s.now := rfl

@[simp] theorem limit_recordSize (s : Store) : s.recordSize.limit = s.limit := rfl

theorem contains_eq (s : Store) (id : TransactionId) :
    s.contains id = (s.live.get? id).isSome := rfl

@[simp] theorem now_insert (s : Store) (id : TransactionId) : (s.insert id).now = s.now := rfl

@[simp] theorem limit_insert (s : Store) (id : TransactionId) : (s.insert id).limit = s.limit := rfl

theorem get?_insert_self {s : Store} {id : TransactionId} (h : s.live.get? id = none) :
    (s.insert id).live.get? id = some (.start id s.limit s.now) :=
  Table.get?_insert_self h _

theorem get?_insert_of_ne (s : Store) {j id : TransactionId} (h : j ≠ id) :
    (s.insert id).live.get? j = s.live.get? j :=
  Table.get?_insert_of_ne h _

theorem create_of_absent {s : Store} {id : TransactionId} (h : s.live.get? id = none) :
    s.create id = (s.insert id, .ok ()) := by
  simp [create, contains_eq, h]

theorem create_of_live {s : Store} {id : TransactionId} {t : Transaction}
    (h : s.live.get? id = some t) : s.create id = (s, .error ⟨id⟩) := by
  simp [create, contains_eq, h]

section Update

variable {α : Type} (s : Store) (id : TransactionId) (f : Transaction → Transaction × α)

variable {s id} in
theorem update_of_absent (h : s.live.get? id = none) : s.update id f = (s, none) := by
  simp [update, h]

variable {s id} in
theorem update_of_live {t : Transaction} (h : s.live.get? id = some t) :
    s.update id f =
      ({ s with live := s.live.modify id fun _ => (f (t.touch s.now)).1 },
        some (f (t.touch s.now)).2) := by
  simp [update, h]

@[simp] theorem now_update : (s.update id f).1.now = s.now := by
  unfold update; split <;> rfl

@[simp] theorem limit_update : (s.update id f).1.limit = s.limit := by
  unfold update; split <;> rfl

theorem get?_update_self :
    (s.update id f).1.live.get? id = (s.live.get? id).map fun t => (f (t.touch s.now)).1 := by
  cases h : s.live.get? id with
  | none => simp [update_of_absent f h, h]
  | some t => simp [update_of_live f h, Table.get?_modify_self, h]

theorem get?_update_of_ne {j : TransactionId} (h : j ≠ id) :
    (s.update id f).1.live.get? j = s.live.get? j := by
  unfold update; split
  · rfl
  · exact Table.get?_modify_of_ne _ h _

end Update

@[simp] theorem now_delete (s : Store) (id : TransactionId) : (s.delete id).1.now = s.now := by
  unfold delete; split <;> rfl

@[simp] theorem limit_delete (s : Store) (id : TransactionId) :
    (s.delete id).1.limit = s.limit := by
  unfold delete; split <;> rfl

theorem get?_delete_self (s : Store) (id : TransactionId) :
    (s.delete id).1.live.get? id = none := by
  unfold delete; split
  · assumption
  · exact Table.get?_erase_self _ _

theorem get?_delete_of_ne (s : Store) {j id : TransactionId} (h : j ≠ id) :
    (s.delete id).1.live.get? j = s.live.get? j := by
  unfold delete; split
  · rfl
  · exact Table.get?_erase_of_ne _ h

section Evict

variable (s : Store) (keep : Transaction → Bool)

@[simp] theorem now_evict : (s.evict keep).1.now = s.now := by
  simp only [evict]; split <;> rfl

@[simp] theorem limit_evict : (s.evict keep).1.limit = s.limit := by
  simp only [evict]; split <;> rfl

theorem live_evict : (s.evict keep).1.live = s.live.filter fun _ t => keep t := by
  simp only [evict]; split <;> rfl

theorem get?_evict (id : TransactionId) :
    (s.evict keep).1.live.get? id = (s.live.get? id).filter keep := by
  rw [live_evict, Table.get?_filter]

theorem live_evict_of_zero (h : (s.evict keep).2 = 0) : (s.evict keep).1.live = s.live := by
  have hl : s.live.size ≤ (s.live.filter fun _ t => keep t).size := by
    simp only [evict, size] at h
    split at h
    · omega
    · contradiction
  rw [live_evict]
  apply Table.ext
  exact List.filter_sublist.eq_of_length_le hl

end Evict

end Store

end BodyCallout
