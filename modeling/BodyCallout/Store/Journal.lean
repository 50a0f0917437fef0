import BodyCallout.Wire.Event

/-!
What was observed, newest first, and the metrics read off it. A metric nothing has touched has no
value.
-/

set_option autoImplicit false

namespace BodyCallout

inductive Source where
  | stream
  | header
  | generated
  deriving DecidableEq, Repr

def Source.name : Source → String
  | .stream => "stream"
  | .header => "header"
  | .generated => "generated"

def Source.all : List Source := [.stream, .header, .generated]

inductive Outcome where
  | skipped
  | computed
  | empty
  | rejected
  | failed
  deriving DecidableEq, Repr

def Outcome.name : Outcome → String
  | .skipped => "skipped"
  | .computed => "computed"
  | .empty => "empty"
  | .rejected => "rejected"
  | .failed => "failed"

def Outcome.all : List Outcome := [.skipped, .computed, .empty, .rejected, .failed]

inductive Sample where
  | event (phase : Phase)
  | miss (phase : Phase)
  | overflow
  | mutation (outcome : Outcome) (size : Nat)
  | opened (source : Source)
  | active (size : Nat)
  | evicted (count : Nat)
  | streamStarted
  | streamFinished
  deriving DecidableEq, Repr

inductive Metric where
  | events (phase : Phase)
  | misses (phase : Phase)
  | overflows
  | mutations (outcome : Outcome)
  | opened (source : Source)
  | active
  | evicted
  | streams
  deriving DecidableEq, Repr

namespace Metric

def labelled (name label value : String) : String :=
  name ++ "\x7b" ++ label ++ "=" ++ value ++ "\x7d"

def name : Metric → String
  | events p => labelled "callout_phase_events_total" "phase" p.name
  | misses p => labelled "callout_correlation_miss_total" "phase" p.name
  | overflows => "callout_body_overflow_total"
  | mutations o => labelled "callout_mutations_total" "outcome" o.name
  | opened s => labelled "callout_transactions_total" "source" s.name
  | active => "callout_transactions_active"
  | evicted => "callout_evicted_total"
  | streams => "callout_active_streams"

def sizesName : String := "callout_body_bytes"

def all : List Metric :=
  Phase.all.map events ++ Phase.all.map misses ++ [overflows] ++ Outcome.all.map mutations ++
    Source.all.map opened ++ [active, evicted, streams]

theorem mem_all (m : Metric) : m ∈ all := by
  rcases m with ⟨⟨⟨⟩, ⟨⟩⟩⟩ | ⟨⟨⟨⟩, ⟨⟩⟩⟩ | _ | ⟨⟨⟩⟩ | ⟨⟨⟩⟩ | _ | _ | _ <;> decide

end Metric

def Sample.move : Sample → Metric × (Int → Int)
  | .event p => (.events p, (· + 1))
  | .miss p => (.misses p, (· + 1))
  | .overflow => (.overflows, (· + 1))
  | .mutation o _ => (.mutations o, (· + 1))
  | .opened s => (.opened s, (· + 1))
  | .active n => (.active, fun _ => n)
  | .evicted n => (.evicted, (· + n))
  | .streamStarted => (.streams, (· + 1))
  | .streamFinished => (.streams, (· - 1))

abbrev Journal := List Sample

namespace Journal

def value? (j : Journal) (m : Metric) : Option Int :=
  j.foldr
    (fun s before =>
      let (moved, f) := s.move
      if moved = m then some (f (before.getD 0)) else before)
    none

def size? : Sample → Option Nat
  | .mutation _ n => some n
  | _ => none

def sizes (j : Journal) : List Nat := (j.filterMap size?).mergeSort

end Journal

end BodyCallout
