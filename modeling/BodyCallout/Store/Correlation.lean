import BodyCallout.Store.Basic
import BodyCallout.Text.Blank
import BodyCallout.Wire.Http

set_option autoImplicit false

namespace BodyCallout

structure Correlation where
  preferIdentity : Bool
  header : String
  deriving DecidableEq, Repr

namespace Correlation

def generated (bytes : List UInt8) : TransactionId :=
  ⟨String.ofList <| bytes.flatMap fun b =>
    [Nat.digitChar (b.toNat / 16), Nat.digitChar (b.toNat % 16)]⟩

/-- The id a client asks for: the first field of the header's name, trimmed, unless it is blank. -/
def requested (c : Correlation) (headers : HeaderPart) : Option TransactionId :=
  match headers.get? c.header with
  | none => none
  | some value =>
    let text := String.ofList (Text.trim value.toList)
    if text.isEmpty then none else some ⟨text⟩

def createFrom (s : Store) (source : Source) (id : TransactionId) :
    Store × Except Duplicate (TransactionId × Source) :=
  match s.create id with
  | (s, .ok ()) => (s, .ok (id, source))
  | (s, .error d) => (s, .error d)

def assign (c : Correlation) (identity : Option String) (headers : HeaderPart)
    (fresh : TransactionId) (s : Store) : Store × Except Duplicate (TransactionId × Source) :=
  match c.preferIdentity, identity with
  | true, some text => createFrom s .stream ⟨text⟩
  | _, _ =>
    match c.requested headers with
    | none => createFrom s .generated fresh
    | some id =>
      match createFrom s .header id with
      | (s, .ok opened) => (s, .ok opened)
      | (s, .error _) => createFrom s .generated fresh

end Correlation

end BodyCallout
