import BodyCallout.Store.Basic

/-!
The sweeper evicts idle transactions at regular times. Its clock has a grain: a tick is taken at the
first multiple of the grain that is not before its time. A tick taken more than five milliseconds
late puts the next one a full interval after itself; any other keeps the rhythm.
-/

set_option autoImplicit false

namespace BodyCallout

def millisecond : Nat := 1000000

def second : Nat := 1000 * millisecond

/-- Times are nanoseconds; `next` is when the next tick is due. -/
structure Sweeper where
  grain : Nat
  idle : Nat
  interval : Nat
  next : Nat
  deriving DecidableEq, Repr

namespace Sweeper

def start (grain idle interval now : Nat) : Sweeper := ⟨grain, idle, interval, now + interval⟩

def timeLimit : Nat := 0x8000000000000000 * second

/-- There is no sweeper without an interval, or if its first tick can not be told. -/
def start? (grain idle interval now : Nat) : Option Sweeper :=
  if interval = 0 ∨ timeLimit ≤ now + interval then none
  else some (start grain idle interval now)

def defaultInterval (idle : Nat) : Nat := idle / 2

def lateness : Nat := 5 * millisecond

/-- The first multiple of the grain that is not before the next tick's time. -/
def due (w : Sweeper) : Nat := w.next + (w.grain - w.next % w.grain) % w.grain

theorem next_le_due (w : Sweeper) : w.next ≤ w.due := Nat.le_add_right _ _

def TicksBy (w : Sweeper) (time : Nat) : Prop := 0 < w.interval ∧ w.due ≤ time

instance (w : Sweeper) (time : Nat) : Decidable (w.TicksBy time) :=
  inferInstanceAs (Decidable (_ ∧ _))

def reschedule (w : Sweeper) (now : Nat) : Sweeper :=
  { w with next := (if w.next + lateness < now then now else w.next) + w.interval }

theorem next_lt_reschedule {w : Sweeper} (h : 0 < w.interval) (now : Nat) :
    w.next < (w.reschedule now).next := by
  unfold reschedule; split <;> simp only <;> omega

/-- The clock goes to `target` through every tick that falls due by then. -/
def runTo (target : Nat) (w : Sweeper) (s : Store) : Sweeper × Store :=
  if _ : w.TicksBy target then
    let time := max s.now w.due
    runTo target (w.reschedule time) ({ s with now := time }.sweep w.idle).1
  else (w, { s with now := max s.now target })
termination_by target + 1 - w.next
decreasing_by
  have h : w.TicksBy target := ‹_›
  have := next_lt_reschedule h.1 (max s.now w.due)
  have := Nat.le_trans w.next_le_due h.2
  omega

/-- The clock jumps; the ticks that fell due on the way are all taken after the jump. -/
def jump (time : Nat) (w : Sweeper) (s : Store) : Sweeper × Store :=
  let s := s.advance time
  w.runTo s.now s

def sleep (time : Nat) (w : Sweeper) (s : Store) : Sweeper × Store := w.runTo (s.now + time) s

end Sweeper

end BodyCallout
