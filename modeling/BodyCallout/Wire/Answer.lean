import BodyCallout.Wire.Event
import BodyCallout.Wire.Mutation

set_option autoImplicit false

namespace BodyCallout

open Data

structure Change where
  mutation : Option Mutation
  clearRouteCache : Bool
  deriving DecidableEq, Repr

inductive Reply where
  | headers (side : Side) (change : Change)
  | body (side : Side) (change : Change)
  | trailers (side : Side) (mutation : Option Mutation)
  deriving DecidableEq, Repr

namespace Reply

def phase : Reply → Phase
  | headers side _ => ⟨side, .headers⟩
  | body side _ => ⟨side, .body⟩
  | trailers side _ => ⟨side, .trailers⟩

def empty (p : Phase) : Reply :=
  match p.part with
  | .headers => headers p.side ⟨none, false⟩
  | .body => body p.side ⟨none, false⟩
  | .trailers => trailers p.side none

@[simp] theorem phase_empty (p : Phase) : (empty p).phase = p := by
  rcases p with ⟨side, ⟨⟩⟩ <;> rfl

def mutation : Reply → Option Mutation
  | headers _ change => change.mutation
  | body _ change => change.mutation
  | trailers _ mutation => mutation

@[simp] theorem mutation_empty (p : Phase) : (empty p).mutation = none := by
  rcases p with ⟨side, ⟨⟩⟩ <;> rfl

def setMutation (m : Option Mutation) : Reply → Reply
  | headers side change => headers side { change with mutation := m }
  | body side change => body side { change with mutation := m }
  | trailers side _ => trailers side m

/-- A further mutation goes after the ones attached before it. -/
def attach (m : Mutation) (r : Reply) : Reply :=
  r.setMutation (some ((r.mutation.getD .empty).merge m))

@[simp] theorem phase_attach (m : Mutation) (r : Reply) : (r.attach m).phase = r.phase := by
  cases r <;> rfl

@[simp] theorem mutation_attach (m : Mutation) (r : Reply) :
    (r.attach m).mutation = some ((r.mutation.getD .empty).merge m) := by
  cases r <;> rfl

end Reply

inductive BodyMode where
  | skipped
  | streamed
  | buffered
  | bufferedPartial
  deriving DecidableEq, Repr

structure Delivery where
  request : BodyMode
  response : BodyMode
  deriving DecidableEq, Repr

def Delivery.buffered : Delivery := ⟨.buffered, .buffered⟩

structure Answer where
  reply : Reply
  delivery : Option Delivery
  deriving DecidableEq, Repr

def Answer.pass (p : Phase) : Answer := ⟨.empty p, none⟩

def Answer.change (p : Phase) (m : Mutation) : Answer := ⟨(Reply.empty p).attach m, none⟩

abbrev Change.shape : Shape :=
  .record "struct CommonResponse" <|
    .may "header_mutation" (Described.shape (Option Mutation)) <|
      .may "clear_route_cache" .boolean .done

instance : Described Change where
  shape := Change.shape
  toValue c := (some (Described.toValue c.mutation), some c.clearRouteCache, ())
  ofValue := fun (mutation, clear, ()) =>
    ⟨(mutation.map (valueOf (Option Mutation))).getD none, clear.getD false⟩
  ofValue_toValue c := by simp

abbrev trailerChangeShape : Shape :=
  .record "struct TrailersResponse" <|
    .may "header_mutation" (Described.shape (Option Mutation)) .done

def trailerChangeValue (m : Option Mutation) : trailerChangeShape.Value :=
  (some (Described.toValue m), ())

def trailerChangeOf : trailerChangeShape.Value → Option Mutation :=
  fun (mutation, ()) => (mutation.map (valueOf (Option Mutation))).getD none

theorem trailerChangeOf_value (m : Option Mutation) :
    trailerChangeOf (trailerChangeValue m) = m := by
  simp [trailerChangeOf, trailerChangeValue]

abbrev Reply.shape : Shape :=
  .tagged "adjacently tagged enum PhaseResponse" "phase" "payload" <|
    phaseCases Change.shape Change.shape trailerChangeShape

instance : Described Reply where
  shape := Reply.shape
  toValue
    | .headers .request c => .inl (Described.toValue c)
    | .body .request c => .inr (.inl (Described.toValue c))
    | .trailers .request m => .inr (.inr (.inl (trailerChangeValue m)))
    | .headers .response c => .inr (.inr (.inr (.inl (Described.toValue c))))
    | .body .response c => .inr (.inr (.inr (.inr (.inl (Described.toValue c)))))
    | .trailers .response m => .inr (.inr (.inr (.inr (.inr (.inl (trailerChangeValue m))))))
  ofValue
    | .inl v => .headers .request (valueOf Change v)
    | .inr (.inl v) => .body .request (valueOf Change v)
    | .inr (.inr (.inl v)) => .trailers .request (trailerChangeOf v)
    | .inr (.inr (.inr (.inl v))) => .headers .response (valueOf Change v)
    | .inr (.inr (.inr (.inr (.inl v)))) => .body .response (valueOf Change v)
    | .inr (.inr (.inr (.inr (.inr (.inl v))))) => .trailers .response (trailerChangeOf v)
  ofValue_toValue r := by
    cases r with
    | headers side c =>
      cases side <;> exact congrArg (Reply.headers _) (Described.ofValue_toValue c)
    | body side c => cases side <;> exact congrArg (Reply.body _) (Described.ofValue_toValue c)
    | trailers side m => cases side <;> exact congrArg (Reply.trailers _) (trailerChangeOf_value m)

instance : Described BodyMode where
  shape := .choice ["none", "streamed", "buffered", "buffered_partial"]
  toValue
    | .skipped => 0
    | .streamed => 1
    | .buffered => 2
    | .bufferedPartial => 3
  ofValue
    | 0 => .skipped
    | 1 => .streamed
    | 2 => .buffered
    | 3 => .bufferedPartial
  ofValue_toValue m := by cases m <;> rfl

abbrev Delivery.shape : Shape :=
  .record "struct ProcessingMode" <|
    .may "request_body_mode" (Described.shape BodyMode) <|
      .may "response_body_mode" (Described.shape BodyMode) .done

instance : Described Delivery where
  shape := Delivery.shape
  toValue d := (some (Described.toValue d.request), some (Described.toValue d.response), ())
  ofValue := fun (request, response, ()) =>
    ⟨(request.map (valueOf BodyMode)).getD .skipped,
      (response.map (valueOf BodyMode)).getD .skipped⟩
  ofValue_toValue d := by simp

abbrev Answer.shape : Shape :=
  .record "struct ProcessingResponse" <|
    .must "response" Reply.shape <|
      .may "mode_override" (Described.shape (Option Delivery)) .done

/-- An answer without a mode is written without the field; null is read as none. -/
instance : Described Answer where
  shape := Answer.shape
  toValue a :=
    (Described.toValue a.reply, a.delivery.map fun d => Described.toValue (some d), ())
  ofValue := fun (reply, delivery, ()) =>
    ⟨valueOf Reply reply, (delivery.map (valueOf (Option Delivery))).getD none⟩
  ofValue_toValue a := by
    rcases a with ⟨reply, _ | d⟩
    · simp
    · simp

end BodyCallout
