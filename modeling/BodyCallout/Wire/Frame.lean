import BodyCallout.Json.Direct
import BodyCallout.Json.Writer
import BodyCallout.Wire.Answer

/-!
Frames: one JSON object to a line, each addressed to a stream. Inbound frames carry events and end
a stream or abort it; outbound frames carry answers and errors. A frame is named by its member
`type`, which may stand anywhere in the object.
-/

set_option autoImplicit false

namespace BodyCallout

open Data Json

inductive Inbound where
  | message (stream : UInt64) (event : Event)
  | finish (stream : UInt64)
  | abort (stream : UInt64) (reason : String)
  deriving DecidableEq, Repr

inductive Outbound where
  | answer (stream : UInt64) (answer : Answer)
  | error (stream : UInt64) (message : String)
  deriving DecidableEq, Repr

def Inbound.stream : Inbound → UInt64
  | message stream _ => stream
  | finish stream => stream
  | abort stream _ => stream

def Outbound.stream : Outbound → UInt64
  | answer stream _ => stream
  | error stream _ => stream

class Framed (α : Type) where
  union : Union
  toValues : α → union.cases.Values
  ofValues : union.cases.Values → α
  ofValues_toValues (a : α) : ofValues (toValues a) = a

attribute [simp] Framed.ofValues_toValues

abbrev Inbound.union : Union where
  title := "internally tagged enum InboundFrame"
  tag := "type"
  cases :=
    .case "message" (.record "struct variant InboundFrame::Message" <|
      .must "stream" (Described.shape UInt64) <| .must "message" Event.shape .done) <|
    .case "end" (.record "struct variant InboundFrame::End" <|
      .must "stream" (Described.shape UInt64) .done) <|
    .case "abort" (.record "struct variant InboundFrame::Abort" <|
      .must "stream" (Described.shape UInt64) <| .may "reason" .text .done) .done

instance : Framed Inbound where
  union := Inbound.union
  toValues
    | .message n e => .inl (Described.toValue n, Described.toValue e, ())
    | .finish n => .inr (.inl (Described.toValue n, ()))
    | .abort n reason => .inr (.inr (.inl (Described.toValue n, some reason, ())))
  ofValues
    | .inl (n, e, ()) => .message (valueOf UInt64 n) (valueOf Event e)
    | .inr (.inl (n, ())) => .finish (valueOf UInt64 n)
    | .inr (.inr (.inl (n, reason, ()))) => .abort (valueOf UInt64 n) (reason.getD "")
  ofValues_toValues f := by cases f <;> simp

abbrev Outbound.union : Union where
  title := "internally tagged enum OutboundFrame"
  tag := "type"
  cases :=
    .case "response" (.record "struct variant OutboundFrame::Response" <|
      .must "stream" (Described.shape UInt64) <| .must "response" Answer.shape .done) <|
    .case "error" (.record "struct variant OutboundFrame::Error" <|
      .must "stream" (Described.shape UInt64) <| .must "message" .text .done) .done

instance : Framed Outbound where
  union := Outbound.union
  toValues
    | .answer n a => .inl (Described.toValue n, Described.toValue a, ())
    | .error n message => .inr (.inl (Described.toValue n, message, ()))
  ofValues
    | .inl (n, a, ()) => .answer (valueOf UInt64 n) (valueOf Answer a)
    | .inr (.inl (n, message, ())) => .error (valueOf UInt64 n) message
  ofValues_toValues f := by cases f <;> simp

def write {α : Type} [Described α] (a : α) : List Char :=
  Shape.write (Described.shape α) (Described.toValue a)

def encode {α : Type} [Described α] (a : α) : List UInt8 := Utf8.encode (write a)

def decode (α : Type) [Described α] (text : List UInt8) : Reading α :=
  (Json.decode (Described.shape α) text).map Described.ofValue

/-- A value from a tree that was given as one. -/
def ofTree (α : Type) [Described α] (t : Tree) : Reading α :=
  ((Described.shape α).held treeDialect t).map Described.ofValue

def writeFrame {α : Type} [Framed α] (a : α) : List Char :=
  (Framed.union α).write (Framed.toValues a)

def newline : UInt8 := 0x0A

def encodeFrame {α : Type} [Framed α] (a : α) : List UInt8 :=
  Utf8.encode (writeFrame a) ++ [newline]

def decodeFrame (α : Type) [Framed α] (text : List UInt8) : Reading α :=
  ((Framed.union α).decode text).map Framed.ofValues

end BodyCallout
