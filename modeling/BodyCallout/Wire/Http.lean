import BodyCallout.Data.Described
import BodyCallout.Text.LetterCase

set_option autoImplicit false

namespace BodyCallout

open Data

structure Header where
  key : String
  value : String
  deriving DecidableEq, Repr

/-- `last` says that nothing of the message follows. -/
structure HeaderPart where
  headers : List Header
  last : Bool
  deriving DecidableEq, Repr

structure BodyPart where
  bytes : List UInt8
  last : Bool
  deriving DecidableEq, Repr

structure TrailerPart where
  trailers : List Header
  deriving DecidableEq, Repr

def HeaderPart.ofPairs (pairs : List (String × String)) (last : Bool) : HeaderPart :=
  ⟨pairs.map fun (key, value) => ⟨key, value⟩, last⟩

def HeaderPart.get? (p : HeaderPart) (name : String) : Option String :=
  (p.headers.find? fun h => Text.sameName h.key name).map Header.value

abbrev Header.shape : Shape :=
  .record "struct HeaderValue" <| .must "key" .text <| .must "value" .text .done

instance : Described Header where
  shape := Header.shape
  toValue h := (h.key, h.value, ())
  ofValue := fun (key, value, ()) => ⟨key, value⟩
  ofValue_toValue _ := rfl

abbrev HeaderPart.shape : Shape :=
  .record "struct HttpHeaders" <|
    .may "headers" (Described.shape (List Header)) <| .may "end_of_stream" .boolean .done

instance : Described HeaderPart where
  shape := HeaderPart.shape
  toValue p := (some (Described.toValue p.headers), some p.last, ())
  ofValue := fun (headers, last, ()) =>
    ⟨(headers.map (valueOf (List Header))).getD [], last.getD false⟩
  ofValue_toValue p := by simp

abbrev BodyPart.shape : Shape :=
  .record "struct HttpBody" <|
    .may "body" (Described.shape (List UInt8)) <| .may "end_of_stream" .boolean .done

instance : Described BodyPart where
  shape := BodyPart.shape
  toValue p := (some (Described.toValue p.bytes), some p.last, ())
  ofValue := fun (bytes, last, ()) =>
    ⟨(bytes.map (valueOf (List UInt8))).getD [], last.getD false⟩
  ofValue_toValue p := by simp

abbrev TrailerPart.shape : Shape :=
  .record "struct HttpTrailers" <| .may "trailers" (Described.shape (List Header)) .done

instance : Described TrailerPart where
  shape := TrailerPart.shape
  toValue p := (some (Described.toValue p.trailers), ())
  ofValue := fun (trailers, ()) =>
    ⟨(trailers.map (valueOf (List Header))).getD []⟩
  ofValue_toValue p := by simp

end BodyCallout
