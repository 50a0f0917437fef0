import BodyCallout.Proofs.Session.Telling
import BodyCallout.Proofs.Text.Casing
import BodyCallout.Proofs.Text.Trimming

set_option autoImplicit false

namespace BodyCallout

open Text (SameName Trims)

/-- The field under a name: the first one whose key is that name. -/
def HeaderPart.Under (p : HeaderPart) (name : String) (field : Header) : Prop :=
  SameName field.key name ∧ ∃ before after, p.headers = before ++ field :: after ∧
    ∀ h ∈ before, ¬ SameName h.key name

namespace HeaderPart

variable {p : HeaderPart} {name : String}

theorem find?_eq_some_iff_under {field : Header} :
    (p.headers.find? fun h => Text.sameName h.key name) = some field ↔ p.Under name field := by
  simp only [List.find?_eq_some_iff_append, Text.sameName_iff, Bool.not_eq_true',
    ← Bool.not_eq_true]
  rfl

theorem get?_eq_some_iff {value : String} :
    p.get? name = some value ↔ ∃ field, p.Under name field ∧ field.value = value := by
  simp only [get?, Option.map_eq_some_iff, find?_eq_some_iff_under]

theorem get?_eq_none_iff : p.get? name = none ↔ ∀ h ∈ p.headers, ¬ SameName h.key name := by
  simp only [get?, Option.map_eq_none_iff, List.find?_eq_none, Text.sameName_iff]

end HeaderPart

/-- One new entry, begun now, and nothing else about the entries. -/
structure Store.Gains (s : Store) (id : TransactionId) (u : Store) : Prop where
  entry : u.live.get? id = some
    { id := id
      buffer := { limit := s.limit, bytes := [], ended := false, truncated := false }
      responseHeaders := none
      trailers := false
      awaiting := true
      delivered := false
      touched := s.now
      stage := .started }
  others : ∀ k, k ≠ id → u.live.get? k = s.live.get? k
  keys : u.live.keys = id :: s.live.keys
  now : u.now = s.now
  limit : u.limit = s.limit
  journal : u.journal = .active (s.size + 1) :: s.journal

theorem Store.gains_insert {s : Store} {id : TransactionId} (h : s.live.get? id = none) :
    s.Gains id (s.insert id) where
  entry := get?_insert_self h
  others _ hk := s.get?_insert_of_ne hk
  keys := by
    have he := Table.entries_insert h (Transaction.start id s.limit s.now)
    exact congrArg (List.map Prod.fst) he
  now := rfl
  limit := rfl
  journal := by
    have hz := Table.size_insert h (Transaction.start id s.limit s.now)
    exact congrArg (fun n => Sample.active n :: s.journal) hz

namespace Correlation

variable (c : Correlation) (identity : Option String) (part : HeaderPart) (fresh : TransactionId)
  (s : Store)

def Named (text : List Char) : Prop :=
  ∃ field, part.Under c.header field ∧ Trims field.value.toList text

def Identified : Prop := c.preferIdentity = true ∧ identity ≠ none

/-- The id that a new transaction is to have, and where it comes from. -/
inductive Candidate : TransactionId → Source → Prop where
  | identity (text : String) (hp : c.preferIdentity = true) (hi : identity = some text) :
      Candidate ⟨text⟩ .stream
  | named (text : List Char) (hi : ¬ c.Identified identity) (ht : c.Named part text)
      (hb : text ≠ []) (hl : s.live.get? ⟨String.ofList text⟩ = none) :
      Candidate ⟨String.ofList text⟩ .header
  | unnamed (hi : ¬ c.Identified identity) (ht : ∀ h ∈ part.headers, ¬ SameName h.key c.header) :
      Candidate fresh .generated
  | blank (hi : ¬ c.Identified identity) (ht : c.Named part []) : Candidate fresh .generated
  | taken (text : List Char) (hi : ¬ c.Identified identity) (ht : c.Named part text)
      (hb : text ≠ []) (hl : s.live.get? ⟨String.ofList text⟩ ≠ none) : Candidate fresh .generated

def candidate : TransactionId × Source :=
  match c.preferIdentity, identity with
  | true, some text => (⟨text⟩, .stream)
  | _, _ =>
    match c.requested part with
    | none => (fresh, .generated)
    | some id => if s.contains id then (fresh, .generated) else (id, .header)

variable {c identity part fresh s}

theorem createFrom_of_live {id : TransactionId} {t : Transaction} (h : s.live.get? id = some t)
    (source : Source) : createFrom s source id = (s, .error ⟨id⟩) := by
  simp [createFrom, Store.create_of_live h]

section Requested

theorem requested_of_named {text : List Char} (h : c.Named part text) (hb : text ≠ []) :
    c.requested part = some ⟨String.ofList text⟩ := by
  obtain ⟨field, hf, ht⟩ := h
  have hg : part.get? c.header = some field.value :=
    HeaderPart.get?_eq_some_iff.mpr ⟨field, hf, rfl⟩
  rw [Text.trims_iff] at ht
  simp [requested, hg, ht, hb]

theorem requested_of_blank (h : c.Named part []) : c.requested part = none := by
  obtain ⟨field, hf, ht⟩ := h
  have hg : part.get? c.header = some field.value :=
    HeaderPart.get?_eq_some_iff.mpr ⟨field, hf, rfl⟩
  rw [Text.trims_iff] at ht
  simp [requested, hg, ht]

theorem requested_of_unnamed (h : ∀ f ∈ part.headers, ¬ SameName f.key c.header) :
    c.requested part = none := by
  rw [requested, HeaderPart.get?_eq_none_iff.mpr h]

variable (c part) in
theorem named_or_unnamed :
    (∃ text, c.Named part text) ∨ ∀ f ∈ part.headers, ¬ SameName f.key c.header := by
  cases hg : part.get? c.header with
  | none => exact .inr (HeaderPart.get?_eq_none_iff.mp hg)
  | some value =>
    obtain ⟨field, hf, -⟩ := HeaderPart.get?_eq_some_iff.mp hg
    exact .inl ⟨_, field, hf, Text.trims_trim _⟩

end Requested

section Identified

variable (h : ¬ c.Identified identity)
include h

theorem candidate_of_not_identified :
    c.candidate identity part fresh s =
      match c.requested part with
      | none => (fresh, .generated)
      | some id => if s.contains id then (fresh, .generated) else (id, .header) := by
  unfold candidate
  split
  · next hp => exact absurd ⟨hp, nofun⟩ h
  · rfl

theorem assign_of_not_identified :
    c.assign identity part fresh s =
      match c.requested part with
      | none => createFrom s .generated fresh
      | some id =>
        match createFrom s .header id with
        | (s, .ok opened) => (s, .ok opened)
        | (s, .error _) => createFrom s .generated fresh := by
  unfold assign
  split
  · next hp => exact absurd ⟨hp, nofun⟩ h
  · rfl

end Identified

theorem Candidate.eq {id : TransactionId} {source : Source}
    (h : c.Candidate identity part fresh s id source) :
    c.candidate identity part fresh s = (id, source) := by
  cases h with
  | identity text hp hi => simp [candidate, hp, hi]
  | named text hi ht hb hl =>
    rw [candidate_of_not_identified hi, requested_of_named ht hb]
    simp [Store.contains_eq, hl]
  | unnamed hi ht => rw [candidate_of_not_identified hi, requested_of_unnamed ht]
  | blank hi ht => rw [candidate_of_not_identified hi, requested_of_blank ht]
  | taken text hi ht hb hl =>
    obtain ⟨t, hl⟩ := Option.ne_none_iff_exists'.mp hl
    rw [candidate_of_not_identified hi, requested_of_named ht hb]
    simp [Store.contains_eq, hl]

theorem Candidate.assign_eq {id : TransactionId} {source : Source}
    (h : c.Candidate identity part fresh s id source) :
    c.assign identity part fresh s = createFrom s source id := by
  cases h with
  | identity text hp hi => simp [assign, hp, hi, createFrom]
  | named text hi ht hb hl =>
    rw [assign_of_not_identified hi, requested_of_named ht hb]
    simp [createFrom_of_absent hl]
  | unnamed hi ht => rw [assign_of_not_identified hi, requested_of_unnamed ht]
  | blank hi ht => rw [assign_of_not_identified hi, requested_of_blank ht]
  | taken text hi ht hb hl =>
    obtain ⟨t, hl⟩ := Option.ne_none_iff_exists'.mp hl
    rw [assign_of_not_identified hi, requested_of_named ht hb]
    simp [createFrom_of_live hl]

variable (c identity part fresh s) in
theorem exists_candidate : ∃ id source, c.Candidate identity part fresh s id source := by
  by_cases hi : c.Identified identity
  · obtain ⟨text, ht⟩ := Option.ne_none_iff_exists'.mp hi.2
    exact ⟨_, _, .identity text hi.1 ht⟩
  · rcases c.named_or_unnamed part with ⟨text, ht⟩ | ht
    · by_cases hb : text = []
      · subst hb
        exact ⟨_, _, .blank hi ht⟩
      · by_cases hl : s.live.get? ⟨String.ofList text⟩ = none
        · exact ⟨_, _, .named text hi ht hb hl⟩
        · exact ⟨_, _, .taken text hi ht hb hl⟩
    · exact ⟨_, _, .unnamed hi ht⟩

theorem Candidate.source_of_live {id : TransactionId} {source : Source} {t : Transaction}
    (h : c.Candidate identity part fresh s id source) (hl : s.live.get? id = some t) :
    source = .stream ∧ identity = some id.text ∨ source = .generated ∧ id = fresh := by
  cases h with
  | identity text hp hi => exact .inl ⟨rfl, hi⟩
  | named text hi ht hb ha => simp [ha] at hl
  | unnamed | blank | taken => exact .inr ⟨rfl, rfl⟩

/-- A new transaction has one candidate for an id. If it is not live, it is opened: the store gains
one fresh entry. If it is, nothing happens to the store, and then the id is not one that a client
named. -/
theorem assign_of_candidate (c : Correlation) (identity : Option String) (part : HeaderPart)
    (fresh : TransactionId) (s : Store) :
    ∃ id source,
      (∀ j x, c.Candidate identity part fresh s j x ↔ j = id ∧ x = source) ∧
      match s.live.get? id with
      | none => ∃ u, c.assign identity part fresh s = (u, .ok (id, source)) ∧ s.Gains id u
      | some _ => c.assign identity part fresh s = (s, .error ⟨id⟩) ∧
          (source = .stream ∧ identity = some id.text ∨ source = .generated ∧ id = fresh) := by
  obtain ⟨id, source, hc⟩ := c.exists_candidate identity part fresh s
  refine ⟨id, source, ?_, ?_⟩
  · intro j x
    constructor
    · intro hj
      exact Prod.mk.inj (hj.eq.symm.trans hc.eq)
    · rintro ⟨rfl, rfl⟩
      exact hc
  · rw [hc.assign_eq]
    cases hl : s.live.get? id with
    | none => exact ⟨_, createFrom_of_absent hl source, Store.gains_insert hl⟩
    | some t => exact ⟨createFrom_of_live hl source, hc.source_of_live hl⟩

end Correlation

end BodyCallout
