import BodyCallout.Store.Buffer
import BodyCallout.Wire.Http

/-!
One exchange of a request and its response. The request body is frozen by the first thing that ends
it; the body is claimed once, when it is frozen and response headers were seen.
-/

set_option autoImplicit false

namespace BodyCallout

structure TransactionId where
  text : String
  deriving DecidableEq, Repr

inductive Stage where
  | started
  | accumulating
  | complete
  | answered
  | closed
  deriving DecidableEq, Repr

def Stage.name : Stage → String
  | .started => "started"
  | .accumulating => "accumulating_body"
  | .complete => "body_complete"
  | .answered => "mutation_computed"
  | .closed => "closed"

structure Body where
  bytes : List UInt8
  truncated : Bool
  deriving DecidableEq, Repr

def Body.size (b : Body) : Nat := b.bytes.length

inductive Intake where
  | appended
  | overflowed (overflow : Overflow)
  | late
  deriving DecidableEq, Repr

/-- Times are nanoseconds since the clock's start. -/
structure Transaction where
  id : TransactionId
  buffer : Buffer
  responseHeaders : Option HeaderPart
  trailers : Bool
  awaiting : Bool
  delivered : Bool
  touched : Nat
  stage : Stage
  deriving DecidableEq, Repr

namespace Transaction

def start (id : TransactionId) (limit now : Nat) : Transaction :=
  ⟨id, .empty limit, none, false, true, false, now, .started⟩

def touch (now : Nat) (t : Transaction) : Transaction := { t with touched := now }

def freeze (t : Transaction) : Transaction :=
  if t.awaiting then
    { t with awaiting := false, buffer := t.buffer.close, stage := .complete }
  else t

def freezeIf (last : Bool) (t : Transaction) : Transaction := if last then t.freeze else t

/-- Headers that end the request mean that no body follows. -/
def requestHeaders (last : Bool) (t : Transaction) : Transaction := t.freezeIf last

def append (chunk : List UInt8) (last : Bool) (t : Transaction) : Transaction × Intake :=
  if t.awaiting then
    let (buffer, overflow) := t.buffer.append chunk
    let t := { t with buffer := buffer, stage := .accumulating }
    (t.freezeIf last, match overflow with
      | none => .appended
      | some o => .overflowed o)
  else (t, .late)

def markTrailers (t : Transaction) : Transaction := { t with trailers := true }.freeze

def recordResponse (headers : HeaderPart) (t : Transaction) : Transaction :=
  { t with responseHeaders := some headers }

def ready (t : Transaction) : Bool :=
  !t.awaiting && t.responseHeaders.isSome && !t.delivered

/-- Hands the body out the first time the transaction is ready, and never again. -/
def claim (t : Transaction) : Transaction × Option Body :=
  if t.ready then
    ({ t with delivered := true, stage := .answered }, some ⟨t.buffer.bytes, t.buffer.truncated⟩)
  else (t, none)

def close (t : Transaction) : Transaction := { t with stage := .closed }

end Transaction

end BodyCallout
