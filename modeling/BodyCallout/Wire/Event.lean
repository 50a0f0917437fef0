import BodyCallout.Wire.Http

set_option autoImplicit false

namespace BodyCallout

open Data

inductive Side where
  | request
  | response
  deriving DecidableEq, Repr

inductive Part where
  | headers
  | body
  | trailers
  deriving DecidableEq, Repr

structure Phase where
  side : Side
  part : Part
  deriving DecidableEq, Repr

def Phase.all : List Phase :=
  [⟨.request, .headers⟩, ⟨.request, .body⟩, ⟨.request, .trailers⟩,
    ⟨.response, .headers⟩, ⟨.response, .body⟩, ⟨.response, .trailers⟩]

def Phase.name : Phase → String
  | ⟨.request, .headers⟩ => "request_headers"
  | ⟨.request, .body⟩ => "request_body"
  | ⟨.request, .trailers⟩ => "request_trailers"
  | ⟨.response, .headers⟩ => "response_headers"
  | ⟨.response, .body⟩ => "response_body"
  | ⟨.response, .trailers⟩ => "response_trailers"

inductive Event where
  | headers (side : Side) (part : HeaderPart)
  | body (side : Side) (part : BodyPart)
  | trailers (side : Side) (part : TrailerPart)
  deriving DecidableEq, Repr

def Event.phase : Event → Phase
  | .headers side _ => ⟨side, .headers⟩
  | .body side _ => ⟨side, .body⟩
  | .trailers side _ => ⟨side, .trailers⟩

abbrev phaseNames : List String :=
  ["request_headers", "request_body", "request_trailers",
    "response_headers", "response_body", "response_trailers"]

instance : Described Phase where
  shape := .choice phaseNames
  toValue
    | ⟨.request, .headers⟩ => 0
    | ⟨.request, .body⟩ => 1
    | ⟨.request, .trailers⟩ => 2
    | ⟨.response, .headers⟩ => 3
    | ⟨.response, .body⟩ => 4
    | ⟨.response, .trailers⟩ => 5
  ofValue
    | 0 => ⟨.request, .headers⟩
    | 1 => ⟨.request, .body⟩
    | 2 => ⟨.request, .trailers⟩
    | 3 => ⟨.response, .headers⟩
    | 4 => ⟨.response, .body⟩
    | 5 => ⟨.response, .trailers⟩
  ofValue_toValue p := by rcases p with ⟨⟨⟩, ⟨⟩⟩ <;> rfl

abbrev phaseCases (headers body trailers : Shape) : Cases :=
  .case "request_headers" headers <| .case "request_body" body <|
    .case "request_trailers" trailers <| .case "response_headers" headers <|
      .case "response_body" body <| .case "response_trailers" trailers .done

abbrev Event.shape : Shape :=
  .tagged "adjacently tagged enum PhaseMessage" "phase" "payload" <|
    phaseCases HeaderPart.shape BodyPart.shape TrailerPart.shape

instance : Described Event where
  shape := Event.shape
  toValue
    | .headers .request p => .inl (Described.toValue p)
    | .body .request p => .inr (.inl (Described.toValue p))
    | .trailers .request p => .inr (.inr (.inl (Described.toValue p)))
    | .headers .response p => .inr (.inr (.inr (.inl (Described.toValue p))))
    | .body .response p => .inr (.inr (.inr (.inr (.inl (Described.toValue p)))))
    | .trailers .response p => .inr (.inr (.inr (.inr (.inr (.inl (Described.toValue p))))))
  ofValue
    | .inl v => .headers .request (valueOf HeaderPart v)
    | .inr (.inl v) => .body .request (valueOf BodyPart v)
    | .inr (.inr (.inl v)) => .trailers .request (valueOf TrailerPart v)
    | .inr (.inr (.inr (.inl v))) => .headers .response (valueOf HeaderPart v)
    | .inr (.inr (.inr (.inr (.inl v)))) => .body .response (valueOf BodyPart v)
    | .inr (.inr (.inr (.inr (.inr (.inl v))))) => .trailers .response (valueOf TrailerPart v)
  ofValue_toValue e := by
    rcases e with ⟨⟨⟩, p⟩ | ⟨⟨⟩, p⟩ | ⟨⟨⟩, p⟩ <;>
      simp only [valueOf] <;> congr 1 <;> exact Described.ofValue_toValue p

end BodyCallout
