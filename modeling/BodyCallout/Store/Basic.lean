import BodyCallout.Store.Journal
import BodyCallout.Store.Table
import BodyCallout.Store.Transaction

/-!
The store of live transactions, with its clock and its journal. Every access to a transaction makes
it as fresh as the clock; what was not accessed for longer than allowed can be swept out.
-/

set_option autoImplicit false

namespace BodyCallout

structure Duplicate where
  id : TransactionId
  deriving DecidableEq, Repr

def Duplicate.message (d : Duplicate) : String :=
  "transaction " ++ d.id.text ++ " is already active"

/-- `now` is in nanoseconds; the journal is newest first. -/
structure Store where
  limit : Nat
  now : Nat
  live : Table TransactionId Transaction
  journal : Journal

namespace Store

def empty (limit : Nat) : Store := ⟨limit, 0, .empty, []⟩

def size (s : Store) : Nat := s.live.size

def contains (s : Store) (id : TransactionId) : Bool := s.live.contains id

def record (s : Store) (sample : Sample) : Store := { s with journal := sample :: s.journal }

def recordSize (s : Store) : Store := s.record (.active s.size)

def advance (s : Store) (time : Nat) : Store := { s with now := s.now + time }

def insert (s : Store) (id : TransactionId) : Store :=
  { s with live := s.live.insert id (.start id s.limit s.now) }.recordSize

def create (s : Store) (id : TransactionId) : Store × Except Duplicate Unit :=
  if s.contains id then (s, .error ⟨id⟩) else (s.insert id, .ok ())

/-- Changes a live transaction after touching it, and hands on what the change gives. -/
def update {α : Type} (s : Store) (id : TransactionId) (f : Transaction → Transaction × α) :
    Store × Option α :=
  match s.live.get? id with
  | none => (s, none)
  | some t =>
    let (t, a) := f (t.touch s.now)
    ({ s with live := s.live.modify id fun _ => t }, some a)

def access (s : Store) (id : TransactionId) : Store × Option Transaction :=
  s.update id fun t => (t, t)

def getOrCreate (s : Store) (id : TransactionId) : Store × Bool :=
  if s.contains id then ((s.access id).1, false) else (s.insert id, true)

def delete (s : Store) (id : TransactionId) : Store × Option Transaction :=
  match s.live.get? id with
  | none => (s, none)
  | some t => ({ s with live := s.live.erase id }.recordSize, some t.close)

def evict (s : Store) (keep : Transaction → Bool) : Store × Nat :=
  let kept := { s with live := s.live.filter fun _ t => keep t }
  match s.size - kept.size with
  | 0 => (kept, 0)
  | n + 1 => ((kept.record (.evicted (n + 1))).recordSize, n + 1)

def sweepBefore (s : Store) (time : Nat) : Store × Nat := s.evict fun t => time ≤ t.touched

/-- Evicts what was not accessed for longer than the given time. -/
def sweep (s : Store) (idle : Nat) : Store × Nat := s.evict fun t => s.now ≤ t.touched + idle

end Store

end BodyCallout
