import BodyCallout.Settings.Address
import BodyCallout.Text.Decimal

set_option autoImplicit false

namespace BodyCallout

inductive BindFault where
  | notAnAddress
  | notOfThisHost
  deriving DecidableEq, Repr

def BindFault.message : BindFault → String
  | .notAnAddress => "Failed to bind: invalid socket address syntax"
  | .notOfThisHost => "Failed to bind: Cannot assign requested address (os error 99)"

def bindAddress (hosts : SocketAddress → Bool) (text : String) : Except BindFault SocketAddress :=
  match SocketAddress.ofText? text with
  | none => .error .notAnAddress
  | some a => if hosts a then .ok a else .error .notOfThisHost

structure Gate where
  free : Nat
  waiting : Nat
  deriving DecidableEq, Repr

namespace Gate

/-- More slots than this can not be counted. -/
def maxSlots : Nat := 0x1FFFFFFFFFFFFFFF

def tooManyMessage : String :=
  "a semaphore may not have more than MAX_PERMITS permits (" ++ Decimal.text maxSlots ++ ")"

def ofSlots? (slots : Nat) : Option Gate := if slots ≤ maxSlots then some ⟨slots, 0⟩ else none

def arrive (g : Gate) : Gate := { g with waiting := g.waiting + 1 }

def letIn (g : Gate) : Gate × Bool :=
  if 0 < g.free ∧ 0 < g.waiting then (⟨g.free - 1, g.waiting - 1⟩, true) else (g, false)

def release (g : Gate) : Gate := { g with free := g.free + 1 }

end Gate

end BodyCallout
