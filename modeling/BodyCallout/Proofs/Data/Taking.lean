import BodyCallout.Data.Held

set_option autoImplicit false

namespace BodyCallout.Data

theorem foldlM_beside {ε β σ τ : Type} {step : σ → β → Except ε σ}
    {both : τ × σ → β → Except ε (τ × σ)} {a : τ} {ms : List β}
    (h : ∀ m ∈ ms, ∀ s, both (a, s) m = (step s m).map (a, ·)) (s : σ) :
    ms.foldlM both (a, s) = (ms.foldlM step s).map (a, ·) := by
  induction ms generalizing s with
  | nil => rfl
  | cons m ms ih =>
    rw [List.foldlM_cons, List.foldlM_cons, h m (.head _)]
    cases hm : step s m with
    | error e => rfl
    | ok s' => exact ih (fun n hn => h n (.tail m hn)) s'

theorem foldlM_between {ε β σ τ : Type} {step : σ → β → Except ε σ}
    {both : τ × σ → β → Except ε (τ × σ)} {m : β} {before after : List β}
    (h : ∀ n ∈ before ++ after, ∀ a s, both (a, s) n = (step s n).map (a, ·)) {a b : τ}
    {first : Except ε τ} (hm : ∀ s, both (a, s) m = first.map (·, s)) (s s' : σ) :
    (before ++ m :: after).foldlM both (a, s) = .ok (b, s') ↔
      first = .ok b ∧ (before ++ after).foldlM step s = .ok s' := by
  have hb (s) : before.foldlM both (a, s) = (before.foldlM step s).map (a, ·) :=
    foldlM_beside (fun n hn s => h n (List.mem_append_left after hn) a s) s
  have ha (c) (s) : after.foldlM both (c, s) = (after.foldlM step s).map (c, ·) :=
    foldlM_beside (fun n hn s => h n (List.mem_append_right before hn) c s) s
  rw [List.foldlM_append, List.foldlM_append, hb]
  cases before.foldlM step s with
  | error fault => exact ⟨nofun, fun h => nomatch h.2⟩
  | ok s₁ =>
    change (both (a, s₁) m >>= fun x => after.foldlM both x) = _ ↔
      _ ∧ after.foldlM step s₁ = _
    rw [hm]
    cases first with
    | error fault => exact ⟨nofun, fun h => nomatch h.1⟩
    | ok c =>
      change after.foldlM both (c, s₁) = _ ↔ _
      rw [ha]
      cases after.foldlM step s₁ with
      | error fault => exact ⟨nofun, fun h => nomatch h.2⟩
      | ok s₂ => simp [Except.map]

namespace Fields

def slots : (f : Fields) → f.Values → f.Slots
  | .done, () => ()
  | .must _ _ rest, (v, vs) => (some v, rest.slots vs)
  | .may _ _ rest, (v, vs) => (v, rest.slots vs)

theorem fill_slots : (f : Fields) → (vs : f.Values) → f.fill (f.slots vs) = .ok vs
  | .done, () => rfl
  | .must _ _ rest, (v, vs) => by simp only [slots, fill, rest.fill_slots vs]; rfl
  | .may _ _ rest, (v, vs) => by simp only [slots, fill, rest.fill_slots vs]; rfl

section

variable {X : Type} (one : (s : Shape) → X → Reading s.Value) (other : X → Reading Unit)

/-- Takes one member of a record; `one` reads it if it is a field, and `other` if it is not. -/
def takeMember : (f : Fields) → String → X → f.Slots → Reading f.Slots
  | .done, _, x, () => other x
  | .must key shape rest, name, x, (slot, slots) =>
    if name = key then
      match slot with
      | some _ => mismatched (.repeated key)
      | none => (one shape x).map fun v => (some v, slots)
    else (rest.takeMember name x slots).map (slot, ·)
  | .may key shape rest, name, x, (slot, slots) =>
    if name = key then
      match slot with
      | some _ => mismatched (.repeated key)
      | none => (one shape x).map fun v => (some v, slots)
    else (rest.takeMember name x slots).map (slot, ·)

def takeAll (f : Fields) (slots : f.Slots) (members : List (String × X)) : Reading f.Slots :=
  members.foldlM (fun slots m => f.takeMember one other m.1 m.2 slots) slots

end

section

variable {X : Type} {one : (s : Shape) → X → Reading s.Value} {other : X → Reading Unit}
  {key : String} {shape : Shape} {rest : Fields} {before after members : List (String × X)} {x : X}

theorem takeAll_must_between (h : ∀ m ∈ before ++ after, m.1 ≠ key)
    {slot : Option shape.Value} {slots : rest.Slots} :
    (Fields.must key shape rest).takeAll one other (none, rest.vacant)
        (before ++ (key, x) :: after) = .ok (slot, slots) ↔
      (one shape x).map some = .ok slot ∧
        rest.takeAll one other rest.vacant (before ++ after) = .ok slots := by
  refine foldlM_between (fun m hm a s => by simp only [takeMember, h m hm, if_false])
    (fun s => ?_) rest.vacant slots
  simp only [takeMember, if_true]
  cases one shape x <;> rfl

theorem takeAll_may_between (h : ∀ m ∈ before ++ after, m.1 ≠ key)
    {slot : Option shape.Value} {slots : rest.Slots} :
    (Fields.may key shape rest).takeAll one other (none, rest.vacant)
        (before ++ (key, x) :: after) = .ok (slot, slots) ↔
      (one shape x).map some = .ok slot ∧
        rest.takeAll one other rest.vacant (before ++ after) = .ok slots := by
  refine foldlM_between (fun m hm a s => by simp only [takeMember, h m hm, if_false])
    (fun s => ?_) rest.vacant slots
  simp only [takeMember, if_true]
  cases one shape x <;> rfl

theorem takeAll_must_cons (h : ∀ m ∈ members, m.1 ≠ key) {slot : Option shape.Value}
    {slots : rest.Slots} :
    (Fields.must key shape rest).takeAll one other (none, rest.vacant) ((key, x) :: members) =
        .ok (slot, slots) ↔
      (one shape x).map some = .ok slot ∧
        rest.takeAll one other rest.vacant members = .ok slots := by
  rw [← List.nil_append members] at h
  exact takeAll_must_between h

theorem takeAll_may_cons (h : ∀ m ∈ members, m.1 ≠ key) {slot : Option shape.Value}
    {slots : rest.Slots} :
    (Fields.may key shape rest).takeAll one other (none, rest.vacant) ((key, x) :: members) =
        .ok (slot, slots) ↔
      (one shape x).map some = .ok slot ∧
        rest.takeAll one other rest.vacant members = .ok slots := by
  rw [← List.nil_append members] at h
  exact takeAll_may_between h

theorem takeAll_done (h : ∀ m ∈ members, other m.2 = .ok ()) :
    Fields.done.takeAll one other () members = .ok () := by
  induction members with
  | nil => rfl
  | cons m members ih =>
    rw [takeAll, List.foldlM_cons, takeMember, h m (.head _)]
    exact ih fun n hn => h n (.tail m hn)

theorem takeAll_may_absent (h : ∀ m ∈ members, m.1 ≠ key) {slots : rest.Slots}
    (hr : rest.takeAll one other rest.vacant members = .ok slots) :
    (Fields.may key shape rest).takeAll one other (none, rest.vacant) members =
      .ok (none, slots) := by
  have hb : (Fields.may key shape rest).takeAll one other (none, rest.vacant) members =
      (rest.takeAll one other rest.vacant members).map (none, ·) :=
    foldlM_beside (fun m hm s => by simp only [takeMember, h m hm, if_false]) rest.vacant
  rw [hb, hr]
  rfl

theorem takeMember_other (hx : other x = .ok ()) : (f : Fields) → key ∉ f.keys →
    (slots : f.Slots) → f.takeMember one other key x slots = .ok slots
  | .done, _, () => hx
  | .must k shape rest, hk, (slot, slots) => by
    rw [keys, List.mem_cons, not_or] at hk
    simp only [takeMember, if_neg hk.1, takeMember_other hx rest hk.2 slots]
    rfl
  | .may k shape rest, hk, (slot, slots) => by
    rw [keys, List.mem_cons, not_or] at hk
    simp only [takeMember, if_neg hk.1, takeMember_other hx rest hk.2 slots]
    rfl

theorem takeAll_other {f : Fields} (hk : key ∉ f.keys) (hx : other x = .ok ())
    (before after : List (String × X)) (slots : f.Slots) :
    f.takeAll one other slots (before ++ (key, x) :: after) =
      f.takeAll one other slots (before ++ after) := by
  simp only [takeAll, List.foldlM_append, List.foldlM_cons, takeMember_other hx f hk]
  rfl

end

section

variable {T : Type} (D : Dialect T)

abbrev takeHeld (f : Fields) : f.Slots → List (String × T) → Reading f.Slots :=
  f.takeAll (Shape.held D) fun _ => .ok ()

theorem heldMember_eq : (f : Fields) → (name : String) → (t : T) → (slots : f.Slots) →
    f.heldMember D name t slots = f.takeMember (Shape.held D) (fun _ => .ok ()) name t slots
  | .done, _, _, () => rfl
  | .must _ _ rest, name, t, (slot, slots) => by
    cases slot <;> simp only [heldMember, takeMember, rest.heldMember_eq name t slots]
  | .may _ _ rest, name, t, (slot, slots) => by
    cases slot <;> simp only [heldMember, takeMember, rest.heldMember_eq name t slots]

end

end Fields

section

variable {T : Type} {D : Dialect T} {t : T} {members : List (String × T)}

theorem held_record_map (hv : D.view t = .map members) (title : String) (f : Fields) :
    (Shape.record title f).held D t = f.takeHeld D f.vacant members >>= f.fill := by
  simp only [Shape.held, hv, Fields.heldMember_eq]
  rfl

theorem held_record_of_taken (hv : D.view t = .map members) {f : Fields} {vs : f.Values}
    (h : f.takeHeld D f.vacant members = .ok (f.slots vs)) (title : String) :
    (Shape.record title f).held D t = .ok vs := by
  rw [held_record_map hv, h]
  exact f.fill_slots vs

end

end BodyCallout.Data
