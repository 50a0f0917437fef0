import Mathlib.Data.List.Induction
import BodyCallout.Proofs.Store.Assembly

set_option autoImplicit false

namespace BodyCallout

/-- The longest start of the chunks whose total length is within the limit. -/
structure LongestStart (limit : Nat) (chunks taken : List (List UInt8)) : Prop where
  start : taken <+: chunks
  fits : taken.flatten.length ≤ limit
  most : ∀ p, p <+: chunks → p.flatten.length ≤ limit → p <+: taken

theorem longestStart_longestFit (limit : Nat) (chunks : List (List UInt8)) :
    LongestStart limit chunks (longestFit limit chunks) :=
  ⟨longestFit_prefix_self limit chunks, length_longestFit_le limit chunks,
    fun _ hp hl => prefix_longestFit hp hl⟩

namespace Buffer

inductive Step where
  | append (chunk : List UInt8)
  | close
  deriving DecidableEq, Repr

def Step.chunk? : Step → Option (List UInt8)
  | append chunk => some chunk
  | close => none

def step (b : Buffer) : Step → Buffer × Option Overflow
  | .append chunk => b.append chunk
  | .close => (b.close, none)

def filled (limit : Nat) (steps : List Step) : Buffer :=
  steps.foldl (fun b s => (b.step s).1) (empty limit)

def chunks (steps : List Step) : List (List UInt8) := steps.filterMap Step.chunk?

theorem filled_concat (limit : Nat) (steps : List Step) (s : Step) :
    filled limit (steps ++ [s]) = ((filled limit steps).step s).1 := by
  rw [filled, List.foldl_append]
  rfl

theorem chunks_concat (steps : List Step) (s : Step) :
    chunks (steps ++ [s]) = chunks steps ++ s.chunk?.toList := by
  cases s <;> simp [chunks, Step.chunk?]

theorem holds_filled (limit : Nat) (steps : List Step) :
    (filled limit steps).Holds limit (chunks steps) := by
  induction steps using List.reverseRecOn with
  | nil => exact holds_empty limit
  | append_singleton steps s ih =>
    rw [filled_concat, chunks_concat]
    cases s with
    | append chunk => exact ih.append chunk
    | close =>
      rw [Step.chunk?, Option.toList_none, List.append_nil]
      exact ih.close

structure Filled (limit : Nat) (chunks : List (List UInt8)) (b : Buffer) : Prop where
  content : ∃ taken, LongestStart limit chunks taken ∧ b.bytes = taken.flatten
  size_le : b.size ≤ limit
  truncated : b.truncated = true ↔ limit < chunks.flatten.length
  takes : ∀ chunk, (b.append chunk).2 = none ↔ (chunks ++ [chunk]).flatten.length ≤ limit
  refuses : ∀ chunk o, (b.append chunk).2 = some o →
    o = ⟨b.size, chunk.length, limit⟩ ∧ (b.append chunk).1.bytes = b.bytes
  sealed : b.truncated = true → ∀ chunk, (b.append chunk).2 ≠ none

section Holds

variable {limit : Nat} {chunks : List (List UInt8)} {b : Buffer}

theorem Holds.snd_append (h : b.Holds limit chunks) (chunk : List UInt8) :
    (b.append chunk).2 = if (chunks ++ [chunk]).flatten.length ≤ limit then none
      else some ⟨b.size, chunk.length, limit⟩ := by
  by_cases hf : b.fits chunk
  · rw [append_of_fits hf, if_pos ((h.fits_iff chunk).mp hf)]
  · rw [append_of_not_fits hf, if_neg (mt (h.fits_iff chunk).mpr hf), h.limit_eq]

theorem bytes_append_of_refused {chunk : List UInt8} {o : Overflow}
    (h : (b.append chunk).2 = some o) : (b.append chunk).1.bytes = b.bytes := by
  by_cases hf : b.fits chunk
  · rw [append_of_fits hf] at h
    contradiction
  · rw [append_of_not_fits hf]

theorem Holds.filled (h : b.Holds limit chunks) : b.Filled limit chunks where
  content := ⟨_, longestStart_longestFit limit chunks, h.bytes⟩
  size_le := by
    rw [size, h.bytes]
    exact length_longestFit_le limit chunks
  truncated := by rw [h.truncated, decide_eq_true_eq]
  takes chunk := by
    rw [h.snd_append]
    split
    · next hl => exact iff_of_true rfl hl
    · next hl => exact iff_of_false (Option.some_ne_none _) hl
  refuses chunk o ho := by
    refine ⟨?_, bytes_append_of_refused ho⟩
    rw [h.snd_append] at ho
    split at ho
    · contradiction
    · exact (Option.some.inj ho).symm
  sealed ht chunk := by
    have hf : ¬ b.fits chunk := fun hf => by simp [hf.1] at ht
    simp [append_of_not_fits hf]

end Holds

/-- What is done to the buffers of a row, each known by its place. A clone goes to the end. -/
inductive Act where
  | step (place : Nat) (s : Step)
  | snapshot (place : Nat)
  | clone (place : Nat)
  deriving DecidableEq, Repr

/-- A row of buffers, the snapshots that are held of them, and what was said at each step. -/
structure Desk where
  row : List Buffer
  held : List (List UInt8)
  said : List (Option Overflow)

namespace Desk

def start (limit : Nat) : Desk := ⟨[empty limit], [], []⟩

def act (d : Desk) : Act → Desk
  | .step place s =>
    match d.row[place]? with
    | none => d
    | some b => { d with row := d.row.set place (b.step s).1, said := d.said ++ [(b.step s).2] }
  | .snapshot place => { d with held := d.held ++ (d.row[place]?.map bytes).toList }
  | .clone place => { d with row := d.row ++ d.row[place]?.toList }

def after (limit : Nat) (acts : List Act) : Desk := acts.foldl act (start limit)

end Desk

/-- The steps that each buffer of the row went through; a clone went through those of its
original. -/
def line (lines : List (List Step)) : Act → List (List Step)
  | .step place s =>
    match lines[place]? with
    | none => lines
    | some steps => lines.set place (steps ++ [s])
  | .snapshot _ => lines
  | .clone place => lines ++ lines[place]?.toList

def lines (acts : List Act) : List (List Step) := acts.foldl line [[]]

namespace Desk

variable (limit : Nat)

theorem after_append (acts more : List Act) :
    after limit (acts ++ more) = more.foldl act (after limit acts) := List.foldl_append

theorem after_concat (acts : List Act) (a : Act) :
    after limit (acts ++ [a]) = (after limit acts).act a := after_append limit acts [a]

theorem lines_concat (acts : List Act) (a : Act) :
    lines (acts ++ [a]) = line (lines acts) a := List.foldl_append

theorem row_after (acts : List Act) :
    (after limit acts).row = (lines acts).map (filled limit) := by
  induction acts using List.reverseRecOn with
  | nil => rfl
  | append_singleton acts a ih =>
    rw [after_concat, lines_concat]
    cases a with
    | step place s =>
      simp only [act, line, ih, List.getElem?_map]
      cases (lines acts)[place]? with
      | none => exact ih
      | some steps => rw [List.map_set, filled_concat]; rfl
    | snapshot place => exact ih
    | clone place =>
      simp only [act, line, ih, List.getElem?_map, List.map_append]
      cases (lines acts)[place]? <;> rfl

theorem prefix_act (d : Desk) (a : Act) :
    d.said <+: (d.act a).said ∧ d.held <+: (d.act a).held := by
  cases a with
  | step place s =>
    simp only [act]
    split
    · exact ⟨List.prefix_refl _, List.prefix_refl _⟩
    · exact ⟨List.prefix_append _ _, List.prefix_refl _⟩
  | snapshot place => exact ⟨List.prefix_refl _, List.prefix_append _ _⟩
  | clone place => exact ⟨List.prefix_refl _, List.prefix_refl _⟩

theorem prefix_foldl (d : Desk) (acts : List Act) :
    d.said <+: (acts.foldl act d).said ∧ d.held <+: (acts.foldl act d).held := by
  induction acts generalizing d with
  | nil => exact ⟨List.prefix_refl _, List.prefix_refl _⟩
  | cons a rest ih =>
    have ha := d.prefix_act a
    have hr := ih (d.act a)
    exact ⟨ha.1.trans hr.1, ha.2.trans hr.2⟩

theorem prefix_after (acts : List Act) (a : Act) (more : List Act) :
    ((after limit acts).act a).said <+: (after limit (acts ++ a :: more)).said ∧
      ((after limit acts).act a).held <+: (after limit (acts ++ a :: more)).held := by
  rw [after_append]
  exact prefix_foldl _ more

/-- After any acts on one fresh buffer: each buffer of the row is what a fresh one is after its
steps, so it holds the longest start of its chunks; at each append it was said whether the chunks
fitted up to then; and each snapshot still is what its buffer held when it was taken. -/
structure Keeps (acts : List Act) : Prop where
  row : (after limit acts).row = (lines acts).map (filled limit)
  each : ∀ steps, (filled limit steps).Filled limit (chunks steps)
  said : ∀ before place chunk more steps, acts = before ++ .step place (.append chunk) :: more →
    (lines before)[place]? = some steps →
    (after limit acts).said[(after limit before).said.length]? =
      some (if (chunks steps ++ [chunk]).flatten.length ≤ limit then none
        else some ⟨(filled limit steps).size, chunk.length, limit⟩)
  held : ∀ before place more steps, acts = before ++ .snapshot place :: more →
    (lines before)[place]? = some steps →
    (after limit acts).held[(after limit before).held.length]? = some (filled limit steps).bytes

theorem getElem?_row {acts : List Act} {place : Nat} {steps : List Step}
    (h : (lines acts)[place]? = some steps) :
    (after limit acts).row[place]? = some (filled limit steps) := by
  rw [row_after, List.getElem?_map, h]
  rfl

theorem getElem?_of_concat_prefix {α : Type} {l m : List α} {a : α} (h : l ++ [a] <+: m) :
    m[l.length]? = some a := by
  obtain ⟨rest, rfl⟩ := h
  simp

theorem keeps (acts : List Act) : Keeps limit acts where
  row := row_after limit acts
  each steps := (holds_filled limit steps).filled
  said before place chunk more steps ha hl := by
    have hp := (prefix_after limit before (.step place (.append chunk)) more).1
    simp only [act, getElem?_row limit hl] at hp
    rw [ha, getElem?_of_concat_prefix hp]
    exact congrArg some ((holds_filled limit steps).snd_append chunk)
  held before place more steps ha hl := by
    have hp := (prefix_after limit before (.snapshot place) more).2
    simp only [act, getElem?_row limit hl] at hp
    rw [ha]
    exact getElem?_of_concat_prefix hp

end Desk

end Buffer

end BodyCallout
