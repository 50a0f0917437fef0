import BodyCallout.Proofs.Json.Rearranging
import BodyCallout.Proofs.Wire.Buffering
import BodyCallout.Proofs.Wire.RoundTrip

/-!
Fields that are left out. A field that may be left out has a declared default, and a record without
the fields that have their defaults is read as the record; so what is decoded does not depend on how
objects are written.
-/

set_option autoImplicit false

namespace BodyCallout.Data

open Json

/-- What is written for the default of a field that may be left out. -/
def declaredDefault : String → Option (List Char)
  | "headers" | "body" | "trailers" | "set_headers" | "remove_headers" => some (bracket '[' ']' [])
  | "end_of_stream" | "clear_route_cache" => some (writeBoolean false)
  | "append_action" => some (writeText "overwrite_if_exists_or_add")
  | "reason" => some (writeText "")
  | "header_mutation" | "mode_override" => some null
  | "request_body_mode" | "response_body_mode" => some (writeText "none")
  | _ => none

inductive ParedSlot (key : String) {V : Type} (write : V → List Char) (pared : V → V → Prop) :
    Option V → Option V → Prop where
  | kept {v w : V} (h : pared v w) : ParedSlot key write pared (some v) (some w)
  | dropped {v : V} (h : declaredDefault key = some (write v)) :
      ParedSlot key write pared (some v) none
  | absent : ParedSlot key write pared none none

mutual
/-- A value, and the value without some of the fields that have their defaults. -/
def Shape.Pared : (s : Shape) → s.Value → s.Value → Prop
  | .boolean, v, w => v = w
  | .natural _ _, v, w => v = w
  | .text, v, w => v = w
  | .list item, vs, ws => List.Forall₂ item.Pared vs ws
  | .optional inner, v, w => Option.Rel inner.Pared v w
  | .choice _, v, w => v = w
  | .record _ fields, vs, ws => fields.Pared vs ws
  | .tagged _ _ _ cases, v, w => cases.Pared v w
def Fields.Pared : (f : Fields) → f.Values → f.Values → Prop
  | .done, (), () => True
  | .must _ shape rest, (v, vs), (w, ws) => shape.Pared v w ∧ rest.Pared vs ws
  | .may key shape rest, (v, vs), (w, ws) =>
    ParedSlot key shape.write shape.Pared v w ∧ rest.Pared vs ws
def Cases.Pared : (c : Cases) → c.Values → c.Values → Prop
  | .case _ shape rest, v, w => Sum.LiftRel shape.Pared rest.Pared v w
end

mutual
theorem Shape.pared_refl : (s : Shape) → (v : s.Value) → s.Pared v v
  | .boolean, _ => rfl
  | .natural _ _, _ => rfl
  | .text, _ => rfl
  | .list item, _ => List.forall₂_same.mpr fun v _ => item.pared_refl v
  | .optional _, none => .none
  | .optional inner, some v => .some (inner.pared_refl v)
  | .choice _, _ => rfl
  | .record _ fields, vs => fields.pared_refl vs
  | .tagged _ _ _ cases, v => cases.pared_refl v
theorem Fields.pared_refl : (f : Fields) → (vs : f.Values) → f.Pared vs vs
  | .done, () => trivial
  | .must _ shape rest, (v, vs) => ⟨shape.pared_refl v, rest.pared_refl vs⟩
  | .may _ shape rest, (some v, vs) => ⟨.kept (shape.pared_refl v), rest.pared_refl vs⟩
  | .may _ _ rest, (none, vs) => ⟨.absent, rest.pared_refl vs⟩
theorem Cases.pared_refl : (c : Cases) → (v : c.Values) → c.Pared v v
  | .case _ shape _, .inl v => .inl (shape.pared_refl v)
  | .case _ _ rest, .inr v => .inr (rest.pared_refl v)
end

/-- Values are told apart by how they are written. -/
theorem Shape.write_injective {s : Shape} (h : s.proper = true) {v w : s.Value}
    (he : s.write v = s.write w) : v = w := by
  have ho : s.outline v = s.outline w := by
    have hv := (s.spells_write v).outline_eq
    rw [he, (s.spells_write w).outline_eq] at hv
    exact (congrArg Document.value hv).symm
  have ht : s.tree v = s.tree w := by
    have hv := s.tree_outline h v s.height (Nat.le_refl _)
    rw [ho, s.tree_outline h w s.height (Nat.le_refl _)] at hv
    exact (Except.ok.inj hv).symm
  have hv := s.held_tree (D := heldDialect) rfl h v
  rw [ht, s.held_tree rfl h w] at hv
  exact (Except.ok.inj hv).symm

end BodyCallout.Data

namespace BodyCallout

open Data Json

/-- Types whose values are told apart by how they are written, and are read whatever defaults are left
out. -/
class Fills (α : Type) [Described α] : Prop where
  proper : (Described.shape α).proper = true
  ofValue_of_pared {a : α} {w : (Described.shape α).Value}
    (h : (Described.shape α).Pared (Described.toValue a) w) : Described.ofValue w = a

section

variable {α : Type} [Described α] [Fills α]

theorem getD_of_pared {key : String} {a d : α} (hd : declaredDefault key = some (write d))
    {w : Option (Described.shape α).Value}
    (h : ParedSlot key (Described.shape α).write (Described.shape α).Pared
      (some (Described.toValue a)) w) : (w.map (valueOf α)).getD d = a := by
  cases h with
  | kept h => exact Fills.ofValue_of_pared h
  | dropped h =>
    have hv : Described.toValue d = Described.toValue a :=
      Shape.write_injective Fills.proper (Option.some.inj (hd.symm.trans h))
    rw [← Described.ofValue_toValue a, ← hv, Described.ofValue_toValue]
    rfl

end

instance : Fills Bool := ⟨rfl, Eq.symm⟩

instance : Fills String := ⟨rfl, Eq.symm⟩

instance : Fills UInt8 := ⟨rfl, fun h => h ▸ rfl⟩

instance : Fills UInt64 := ⟨rfl, fun h => h ▸ rfl⟩

instance {α : Type} [Described α] [Fills α] : Fills (List α) where
  proper := Fills.proper (α := α)
  ofValue_of_pared {as ws} h := by
    have hs : List.Forall₂ (fun a w => (Described.shape α).Pared (Described.toValue a) w) as ws :=
      List.forall₂_map_left_iff.mp h
    change ws.map Described.ofValue = as
    clear h
    induction hs with
    | nil => rfl
    | cons h _ ih => exact List.cons_eq_cons.mpr ⟨Fills.ofValue_of_pared h, ih⟩

theorem fills_option {α : Type} [Described α] [Fills α]
    (h : (Described.shape α).isOptional = false) : Fills (Option α) where
  proper := Bool.and_eq_true_iff.mpr ⟨Fills.proper (α := α), by rw [h]; rfl⟩
  ofValue_of_pared {a w} h := by
    change Option.Rel _ (a.map Described.toValue) w at h
    cases a with
    | none =>
      cases h
      rfl
    | some a =>
      cases h with
      | some h => exact congrArg some (Fills.ofValue_of_pared h)

instance : Fills Phase where
  proper := by decide
  ofValue_of_pared h := h ▸ Described.ofValue_toValue _

instance : Fills SetAction where
  proper := by decide
  ofValue_of_pared h := h ▸ Described.ofValue_toValue _

instance : Fills BodyMode where
  proper := by decide
  ofValue_of_pared h := h ▸ Described.ofValue_toValue _

instance : Fills Header where
  proper := by decide
  ofValue_of_pared h := congrArg₂ Header.mk h.1.symm h.2.1.symm

theorem getD_flag_of_pared {key : String} {b d : Bool}
    (hd : declaredDefault key = some (writeBoolean d)) {w : Option Bool}
    (h : ParedSlot key Shape.boolean.write Shape.boolean.Pared (some b) w) : w.getD d = b := by
  have hg := getD_of_pared (α := Bool) hd h
  rwa [show w.map (valueOf Bool) = w from Option.map_id'] at hg

theorem getD_text_of_pared {key s d : String} (hd : declaredDefault key = some (writeText d))
    {w : Option String} (h : ParedSlot key Shape.text.write Shape.text.Pared (some s) w) :
    w.getD d = s := by
  have hg := getD_of_pared (α := String) hd h
  rwa [show w.map (valueOf String) = w from Option.map_id'] at hg

instance : Fills HeaderPart where
  proper := by decide
  ofValue_of_pared h := congrArg₂ HeaderPart.mk (getD_of_pared rfl h.1) (getD_flag_of_pared rfl h.2.1)

instance : Fills BodyPart where
  proper := by decide
  ofValue_of_pared h := congrArg₂ BodyPart.mk (getD_of_pared rfl h.1) (getD_flag_of_pared rfl h.2.1)

instance : Fills TrailerPart where
  proper := by decide
  ofValue_of_pared h := congrArg TrailerPart.mk (getD_of_pared rfl h.1)

instance : Fills Setting where
  proper := by decide
  ofValue_of_pared h := congrArg₂ Setting.mk (Fills.ofValue_of_pared h.1) (getD_of_pared rfl h.2.1)

instance : Fills Mutation where
  proper := by decide
  ofValue_of_pared h := congrArg₂ Mutation.mk (getD_of_pared rfl h.1) (getD_of_pared rfl h.2.1)

instance : Fills (Option Mutation) := fills_option rfl

instance : Fills Change where
  proper := by decide
  ofValue_of_pared h := congrArg₂ Change.mk (getD_of_pared rfl h.1) (getD_flag_of_pared rfl h.2.1)

theorem trailerChangeOf_of_pared {m : Option Mutation} {w : trailerChangeShape.Value}
    (h : trailerChangeShape.Pared (trailerChangeValue m) w) : trailerChangeOf w = m :=
  getD_of_pared rfl h.1

instance : Fills Delivery where
  proper := by decide
  ofValue_of_pared h := congrArg₂ Delivery.mk (getD_of_pared rfl h.1) (getD_of_pared rfl h.2.1)

instance : Fills (Option Delivery) := fills_option rfl

instance : Fills Event where
  proper := by decide
  ofValue_of_pared {e w} h := by
    cases e with
    | headers side p =>
      cases side <;> rcases h with h | h | h | h | h | h | h <;>
        exact congrArg (Event.headers _) (Fills.ofValue_of_pared h)
    | body side p =>
      cases side <;> rcases h with h | h | h | h | h | h | h <;>
        exact congrArg (Event.body _) (Fills.ofValue_of_pared h)
    | trailers side p =>
      cases side <;> rcases h with h | h | h | h | h | h | h <;>
        exact congrArg (Event.trailers _) (Fills.ofValue_of_pared h)

instance : Fills Reply where
  proper := by decide
  ofValue_of_pared {r w} h := by
    cases r with
    | headers side c =>
      cases side <;> rcases h with h | h | h | h | h | h | h <;>
        exact congrArg (Reply.headers _) (Fills.ofValue_of_pared h)
    | body side c =>
      cases side <;> rcases h with h | h | h | h | h | h | h <;>
        exact congrArg (Reply.body _) (Fills.ofValue_of_pared h)
    | trailers side m =>
      cases side <;> rcases h with h | h | h | h | h | h | h <;>
        exact congrArg (Reply.trailers _) (trailerChangeOf_of_pared h)

/-- A mode is written only if there is one, and then it is no default. -/
instance : Fills Answer where
  proper := by decide
  ofValue_of_pared {a w} h := by
    obtain ⟨reply, delivery⟩ := a
    obtain ⟨hr, hd, -⟩ := h
    refine congrArg₂ Answer.mk (Fills.ofValue_of_pared hr) ?_
    cases delivery with
    | none =>
      generalize w.2.1 = d at hd ⊢
      cases hd
      rfl
    | some d => exact getD_of_pared rfl hd

theorem ofValues_inbound_of_pared {f : Inbound} {w : Inbound.union.cases.Values}
    (h : Inbound.union.cases.Pared (Framed.toValues f) w) : Framed.ofValues w = f := by
  cases f with
  | message n e =>
    rcases h with h | h | h | h
    exact congrArg₂ Inbound.message (Fills.ofValue_of_pared h.1) (Fills.ofValue_of_pared h.2.1)
  | finish n =>
    rcases h with h | h | h | h
    exact congrArg Inbound.finish (Fills.ofValue_of_pared h.1)
  | abort n reason =>
    rcases h with h | h | h | h
    exact congrArg₂ Inbound.abort (Fills.ofValue_of_pared h.1) (getD_text_of_pared rfl h.2.1)

theorem ofValues_outbound_of_pared {f : Outbound} {w : Outbound.union.cases.Values}
    (h : Outbound.union.cases.Pared (Framed.toValues f) w) : Framed.ofValues w = f := by
  cases f with
  | answer n a =>
    rcases h with h | h | h
    exact congrArg₂ Outbound.answer (Fills.ofValue_of_pared h.1) (Fills.ofValue_of_pared h.2.1)
  | error n message =>
    rcases h with h | h | h
    exact congrArg₂ Outbound.error (Fills.ofValue_of_pared h.1) (Fills.ofValue_of_pared h.2.1)

/-! Texts that are written otherwise. -/

/-- A text as it is written for a value, but that fields which have their defaults may be left out,
and that the members of every object stand in any order, with further ones among them. -/
def Respells {α : Type} [Described α] (a : α) (text : List Char) : Prop :=
  ∃ w, (Described.shape α).Pared (Described.toValue a) w ∧ (Described.shape α).Renders false w text

def RespellsFrame {α : Type} [Framed α] (a : α) (text : List Char) : Prop :=
  ∃ w, (Framed.union α).cases.Pared (Framed.toValues a) w ∧ (Framed.union α).Renders w text

structure Forgiving (α : Type) [Described α] : Prop where
  written (a : α) : Respells a (write a)
  decoded (a : α) (text : List Char) : Respells a text → decode α (Utf8.encode text) = .ok a

structure ForgivingFrames (α : Type) [Framed α] : Prop where
  written (a : α) : RespellsFrame a (writeFrame a)
  decoded (a : α) (text : List Char) :
    RespellsFrame a text → decodeFrame α (Utf8.encode text) = .ok a

theorem Fills.forgiving {α : Type} [Described α] [Fills α]
    (hd : (Described.shape α).height ≤ maxDepth) : Forgiving α where
  written a := ⟨_, Shape.pared_refl _ _, Shape.renders_write _ false _⟩
  decoded a text h := by
    obtain ⟨w, hp, hr⟩ := h
    rw [decode, decode_of_renders Fills.proper hd hr]
    exact congrArg Except.ok (Fills.ofValue_of_pared hp)

theorem Faithful.forgiving {α : Type} [Framed α] (h : Faithful α)
    (hf : ∀ {a : α} {w}, (Framed.union α).cases.Pared (Framed.toValues a) w →
      Framed.ofValues w = a) : ForgivingFrames α where
  written a := ⟨_, Cases.pared_refl _ _, Union.renders_write h.proper _⟩
  decoded a text ht := by
    obtain ⟨w, hp, hr⟩ := ht
    rw [decodeFrame, Union.decode_of_renders h.proper h.height hr]
    exact congrArg Except.ok (hf hp)

theorem trailerChange_of_respells {m : Option Mutation} {w : trailerChangeShape.Value}
    {text : List Char} (hp : trailerChangeShape.Pared (trailerChangeValue m) w)
    (hr : trailerChangeShape.Renders false w text) :
    (Json.decode trailerChangeShape (Utf8.encode text)).map trailerChangeOf = .ok m := by
  rw [decode_of_renders (by decide) (by decide) hr]
  exact congrArg Except.ok (trailerChangeOf_of_pared hp)

/-- Decoding does not depend on how objects are written: for every type of the wire, what is written
for a value is decoded to it in any order of the members of every object, without any of the fields
that have their defaults, and with any further members that are null, flags, texts or integers. Where
a text is held before it is read, as a frame is and a payload before its phase, these integers must be
in the range of numbers, as are all whose magnitude fits 64 bits. -/
theorem respelled_objects_decode_alike :
    (Forgiving Phase ∧ Forgiving Header ∧ Forgiving HeaderPart ∧ Forgiving BodyPart ∧
      Forgiving TrailerPart ∧ Forgiving Event) ∧
    (Forgiving SetAction ∧ Forgiving Setting ∧ Forgiving Mutation ∧ Forgiving Change ∧
      (∀ m w text, trailerChangeShape.Pared (trailerChangeValue m) w →
        trailerChangeShape.Renders false w text →
        (Json.decode trailerChangeShape (Utf8.encode text)).map trailerChangeOf = .ok m) ∧
      Forgiving Reply ∧ Forgiving BodyMode ∧ Forgiving Delivery ∧ Forgiving Answer) ∧
    (ForgivingFrames Inbound ∧ ForgivingFrames Outbound) ∧
    ∀ n : Int, n.natAbs < UInt64.size → ∀ held, Scalar held (integerText n) := by
  refine ⟨⟨?_, ?_, ?_, ?_, ?_, ?_⟩,
    ⟨?_, ?_, ?_, ?_, fun m w text hp hr => trailerChange_of_respells hp hr, ?_, ?_, ?_, ?_⟩,
    ⟨faithful_inbound.forgiving ofValues_inbound_of_pared,
      faithful_outbound.forgiving ofValues_outbound_of_pared⟩,
    fun n hn held => Scalar.of_lt hn held⟩
  all_goals exact Fills.forgiving (by decide)

/-- A frame without its reason, its members out of order and with one more, and an event whose
payload comes before its phase and has a member more and none of its own. -/
theorem abort_and_headers_decode_out_of_order :
    decodeFrame Inbound (Utf8.encode (objectText [("x", integerText (-5)),
      ("stream", Decimal.digits 7), ("type", writeText "abort")])) = .ok (.abort 7 "") ∧
    decode Event (Utf8.encode (objectText [("payload", objectText [("x", integerText (-5))]),
      ("phase", writeText "request_headers")])) = .ok (.headers .request ⟨[], false⟩) := by
  obtain ⟨⟨-, -, -, -, -, he⟩, -, ⟨hf, -⟩, hs⟩ := respelled_objects_decode_alike
  have hx : Scalar true (integerText (-5)) := hs (-5) (by decide) true
  have hm : ∀ e ∈ [("x", integerText (-5))], e.1 ∉ ["type", "stream", "reason"] ∧
      Scalar true e.2 := by
    simpa using hx
  have hp : ∀ e ∈ [("x", integerText (-5))], e.1 ∉ ["headers", "end_of_stream"] ∧
      Scalar true e.2 := by
    simpa using hx
  refine ⟨hf.decoded (.abort 7 "") _ ?_, he.decoded (.headers .request ⟨[], false⟩) _ ?_⟩
  · exact ⟨.inr (.inr (.inl (Described.toValue (7 : UInt64), none, ()))),
      .inr (.inr (.inl ⟨rfl, .dropped rfl, trivial⟩)), _, _, rfl, ⟨_, _, rfl, rfl, rfl⟩,
      [("x", integerText (-5))], by decide, hm⟩
  · exact ⟨.inl (none, none, ()), .inl ⟨.dropped rfl, .dropped rfl, trivial⟩, _, _, rfl,
      ⟨[], _, rfl, rfl, _, .refl _, hp⟩, [], by decide, nofun⟩

def belowRange : Int := -(Nat.pow 10 400 : Nat)

/-- A frame is refused for such an integer under a further key, though it is far below `2 ^ 63`. -/
theorem integer_below_range_is_refused :
    belowRange < 0x8000000000000000 ∧
    writeFrame (Inbound.finish 1) =
      objectText [("type", writeText "end"), ("stream", Decimal.digits 1)] ∧
    ∀ f, decodeFrame Inbound (Utf8.encode (objectText [("type", writeText "end"),
      ("stream", Decimal.digits 1), ("extra", integerText belowRange)])) ≠ .ok f :=
  ⟨by decide +kernel, rfl, ne_ok_of_toOption (by decide +kernel)⟩

end BodyCallout
