import BodyCallout.Text.Decimal

/-!
Names of connections and streams. A stream is named by its connection, by the number its client
gave it, and by how many streams were opened on the connection before it, so that a number that is
used again names another stream.
-/

set_option autoImplicit false

namespace BodyCallout

structure StreamKey where
  connection : Nat
  stream : UInt64
  generation : Nat
  deriving DecidableEq, Repr

def connectionName (n : Nat) : String := "conn-" ++ Decimal.text n

def StreamKey.text (k : StreamKey) : String :=
  connectionName k.connection ++ "/" ++ Decimal.text k.stream.toNat ++ "." ++
    Decimal.text k.generation

structure Roll where
  next : Nat
  active : Nat
  deriving DecidableEq, Repr

namespace Roll

def start : Roll := ⟨1, 0⟩

def fresh (r : Roll) : Roll × Nat := ({ r with next := r.next + 1 }, r.next)

def enter (r : Roll) : Roll × Nat := (⟨r.next + 1, r.active + 1⟩, r.next)

def leave (r : Roll) : Roll := { r with active := r.active - 1 }

def drained (r : Roll) : Bool := r.active = 0

end Roll

end BodyCallout
