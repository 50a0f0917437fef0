import BodyCallout.Proofs.Session.Answering
import BodyCallout.Proofs.Store.Assembly
import BodyCallout.Proofs.Store.Coherence

set_option autoImplicit false

namespace BodyCallout

namespace Event

def freezes : Event → Bool
  | .headers .request part => part.last
  | .body .request part => part.last
  | .trailers .request _ => true
  | _ => false

def responds : Event → Bool
  | .headers .response _ => true
  | _ => false

def chunk? : Event → Option (List UInt8)
  | .body .request part => some part.bytes
  | _ => none

/-- The chunks of the request body, up to the event that freezes it. -/
def chunks (events : List Event) : List (List UInt8) :=
  (events.take (events.findIdx freezes + 1)).filterMap chunk?

/-- The place at which the body is claimed, if it is frozen and responded to at all. -/
def claimedAt (events : List Event) : Option Nat :=
  let last := max (events.findIdx freezes) (events.findIdx responds)
  if last < events.length then some last else none

def assembled (limit : Nat) (events : List Event) : Body :=
  ⟨(longestFit limit (chunks events)).flatten, decide (limit < (chunks events).flatten.length)⟩

def claim (limit : Nat) (events : List Event) (i : Nat) : Option Body :=
  if claimedAt events = some i then some (assembled limit events) else none

def settled (events : List Event) : Bool := events.any freezes && events.any responds

theorem any_take_iff (p : Event → Bool) (events : List Event) (i : Nat) :
    (events.take i).any p = true ↔ events.findIdx p < i ∧ events.findIdx p < events.length := by
  rw [List.any_eq_true, ← List.findIdx_lt_length, List.findIdx_take, List.length_take]
  omega

theorem claimedAt_iff (events : List Event) (i : Nat) :
    claimedAt events = some i ↔
      i < events.length ∧ settled (events.take i) = false ∧
        settled (events.take (i + 1)) = true := by
  have hf := any_take_iff freezes events
  have hr := any_take_iff responds events
  have hs : ∀ n, settled (events.take n) = true ↔
      max (events.findIdx freezes) (events.findIdx responds) < n ∧
        max (events.findIdx freezes) (events.findIdx responds) < events.length := by
    intro n
    rw [settled, Bool.and_eq_true, hf, hr]
    omega
  rw [← Bool.not_eq_true, hs, hs, claimedAt]
  split
  · rw [Option.some.injEq]
    omega
  · simp only [reduceCtorEq, false_iff]
    omega

theorem chunks_concat (events : List Event) (event : Event) :
    chunks (events ++ [event]) =
      chunks events ++ (if events.any freezes then [] else event.chunk?.toList) := by
  have hi : events.any freezes = true ↔ events.findIdx freezes < events.length := by
    rw [List.any_eq_true, List.findIdx_lt_length]
  cases ha : events.any freezes with
  | true =>
    have hl := hi.mp ha
    have hf : (events ++ [event]).findIdx freezes = events.findIdx freezes := by
      rw [List.findIdx_append, if_pos hl]
    simp only [chunks, hf, if_true, List.append_nil]
    rw [List.take_append_of_le_length hl]
  | false =>
    have hl : ¬ events.findIdx freezes < events.length := by
      rw [← hi, ha]
      exact Bool.false_ne_true
    have hf : events.length ≤ (events ++ [event]).findIdx freezes := by
      rw [List.findIdx_append, if_neg hl]
      omega
    have hw : (events ++ [event]).length ≤ (events ++ [event]).findIdx freezes + 1 := by
      simpa using hf
    have hv : events.length ≤ events.findIdx freezes + 1 := by omega
    rw [chunks, chunks, List.take_of_length_le hw, List.take_of_length_le hv]
    cases hc : event.chunk? <;> simp [hc]

theorem chunks_append_of_frozen {events : List Event} (h : events.any freezes = true)
    (more : List Event) : chunks (events ++ more) = chunks events := by
  induction more generalizing events with
  | nil => rw [List.append_nil]
  | cons event more ih =>
    have hc : chunks (events ++ [event]) = chunks events := by simp [chunks_concat, h]
    have ha : (events ++ [event]).any freezes = true := by simp [List.any_append, h]
    rw [← List.singleton_append, ← List.append_assoc, ih ha, hc]

theorem claimedAt_length_iff (events : List Event) (event : Event) (more : List Event) :
    claimedAt (events ++ event :: more) = some events.length ↔
      settled events = false ∧ settled (events ++ [event]) = true := by
  have hl : events.length < (events ++ event :: more).length := by simp
  have ht : (events ++ event :: more).take events.length = events := List.take_left
  have hn : (events ++ event :: more).take (events.length + 1) = events ++ [event] := by
    have hc : events ++ event :: more = (events ++ [event]) ++ more := by simp
    have hm : events.length + 1 = (events ++ [event]).length := by simp
    rw [hc, hm]
    exact List.take_left
  rw [claimedAt_iff, ht, hn]
  simp only [hl, true_and]

theorem assembled_append {events : List Event} (h : settled events = true) (limit : Nat)
    (more : List Event) : assembled limit (events ++ more) = assembled limit events := by
  simp only [settled, Bool.and_eq_true] at h
  simp only [assembled, chunks_append_of_frozen h.1]

theorem settled_concat_of_settled {events : List Event} (h : settled events = true)
    (event : Event) : settled (events ++ [event]) = true := by
  simp only [settled, Bool.and_eq_true] at h
  simp [settled, List.any_append, h.1, h.2]

end Event

namespace Transaction

open Event (chunks freezes responds settled assembled)

/-- The transaction has taken these events in, whether or not its body was claimed yet. -/
structure Took (limit : Nat) (events : List Event) (t : Transaction) : Prop where
  buffer : t.buffer.Holds limit (chunks events)
  awaiting : t.awaiting = !events.any freezes
  responded : t.responseHeaders.isSome = events.any responds

structure Tells (limit : Nat) (events : List Event) (t : Transaction) : Prop
    extends t.Took limit events where
  delivered : t.delivered = settled events

variable {limit : Nat} {events : List Event} {t : Transaction}

theorem tells_start (id : TransactionId) (limit now : Nat) :
    (start id limit now).Tells limit [] :=
  ⟨⟨Buffer.holds_empty limit, rfl, rfl⟩, rfl⟩

theorem Tells.touch (h : t.Tells limit events) (now : Nat) : (t.touch now).Tells limit events :=
  ⟨⟨h.buffer, h.awaiting, h.responded⟩, h.delivered⟩

section Freeze

variable (t : Transaction) (last : Bool)

theorem awaiting_freezeIf : (t.freezeIf last).awaiting = (t.awaiting && !last) := by
  cases last with
  | false => simp [freezeIf]
  | true => simpa [freezeIf] using awaiting_freeze t

theorem responseHeaders_freezeIf : (t.freezeIf last).responseHeaders = t.responseHeaders := by
  cases last with
  | false => rfl
  | true => simp only [freezeIf, freeze, if_true]; split <;> rfl

theorem delivered_freezeIf : (t.freezeIf last).delivered = t.delivered := by
  cases last with
  | false => rfl
  | true => simp only [freezeIf, freeze, if_true]; split <;> rfl

variable {t} in
theorem holds_freezeIf {chunks : List (List UInt8)} (h : t.buffer.Holds limit chunks) :
    (t.freezeIf last).buffer.Holds limit chunks := by
  cases last with
  | false => exact h
  | true =>
    simp only [freezeIf, freeze, if_true]
    split
    · exact h.close
    · exact h

end Freeze

theorem Took.freezeIf (h : t.Took limit events) (event : Event) (hc : event.chunk? = none)
    (hr : event.responds = false) : (t.freezeIf event.freezes).Took limit (events ++ [event]) := by
  have hs : chunks (events ++ [event]) = chunks events := by simp [Event.chunks_concat, hc]
  constructor
  · rw [hs]
    exact holds_freezeIf _ h.buffer
  · simp [awaiting_freezeIf, h.awaiting, List.any_append]
  · simp [responseHeaders_freezeIf, h.responded, List.any_append, hr]

theorem Took.append (h : t.Took limit events) (part : BodyPart) :
    (t.append part.bytes part.last).1.Took limit (events ++ [.body .request part]) := by
  have hs := Event.chunks_concat events (.body .request part)
  cases ha : t.awaiting with
  | false =>
    have hf : events.any freezes = true := by simpa [ha] using h.awaiting
    rw [append_of_frozen _ _ ha]
    constructor
    · simpa [hs, hf] using h.buffer
    · simp [ha, List.any_append, hf]
    · simp [h.responded, List.any_append, responds]
  | true =>
    have hf : events.any freezes = false := by simpa [ha] using h.awaiting
    rw [fst_append_of_awaiting _ _ ha]
    constructor
    · simp only [hs, hf, Event.chunk?, Bool.false_eq_true, if_false, Option.toList_some]
      exact holds_freezeIf _ (h.buffer.append part.bytes)
    · simp [awaiting_freezeIf, intake, ha, List.any_append, hf, freezes]
    · simp [responseHeaders_freezeIf, intake, h.responded, List.any_append, responds]

theorem Took.recordResponse (h : t.Took limit events) (part : HeaderPart) :
    (t.recordResponse part).Took limit (events ++ [.headers .response part]) := by
  have hs : chunks (events ++ [.headers .response part]) = chunks events := by
    simp [Event.chunks_concat, Event.chunk?]
  constructor
  · rw [hs]
    exact h.buffer
  · simp [Transaction.recordResponse, h.awaiting, List.any_append, freezes]
  · simp [Transaction.recordResponse, List.any_append, responds]

theorem Took.apply (h : t.Took limit events) (event : Event) :
    (Engine.apply event t).1.Took limit (events ++ [event]) := by
  rcases event with ⟨⟨⟩, part⟩ | ⟨⟨⟩, part⟩ | ⟨⟨⟩, part⟩
  case headers.request => exact h.freezeIf (.headers .request part) rfl rfl
  case headers.response => exact h.recordResponse part
  case body.request =>
    rw [Engine.fst_apply_body]
    exact h.append part
  case trailers.request =>
    have hf := h.freezeIf (.trailers .request part) rfl rfl
    simp only [Engine.apply, markTrailers_eq]
    exact ⟨hf.buffer, hf.awaiting, hf.responded⟩
  all_goals exact h.freezeIf _ rfl rfl

theorem delivered_apply (event : Event) (t : Transaction) :
    (Engine.apply event t).1.delivered = t.delivered := by
  rcases event with ⟨⟨⟩, part⟩ | ⟨⟨⟩, part⟩ | ⟨⟨⟩, part⟩
  case headers.request => exact delivered_freezeIf t part.last
  case body.request =>
    rw [Engine.fst_apply_body]
    cases ha : t.awaiting with
    | false => rw [append_of_frozen _ _ ha]
    | true => rw [fst_append_of_awaiting _ _ ha, delivered_freezeIf]; rfl
  case trailers.request =>
    simp only [Engine.apply, markTrailers_eq]
    exact delivered_freezeIf t true
  all_goals rfl

theorem Tells.advance_of_claims (h : t.Tells limit events) {event : Event}
    (hc : Engine.claims event = true) :
    (Engine.advance event t).1.Tells limit (events ++ [event]) ∧
      (Engine.advance event t).2.2 =
        if settled events = false ∧ settled (events ++ [event]) = true then
          some (assembled limit (events ++ [event]))
        else none := by
  have hk := h.toTook.apply event
  have hd : (Engine.apply event t).1.delivered = settled events :=
    (delivered_apply event t).trans h.delivered
  have hr : (Engine.apply event t).1.ready = (settled (events ++ [event]) && !settled events) := by
    rw [ready, hk.awaiting, hk.responded, hd, Bool.not_not]
    rfl
  rw [Engine.advance_of_claims hc]
  cases hb : settled events with
  | true =>
    have ha := Event.settled_concat_of_settled hb event
    rw [claim_of_not_ready (by simp [hr, hb])]
    exact ⟨⟨hk, by rw [hd, hb, ha]⟩, by simp⟩
  | false =>
    cases ha : settled (events ++ [event]) with
    | false =>
      rw [claim_of_not_ready (by simp [hr, ha])]
      exact ⟨⟨hk, by rw [hd, hb, ha]⟩, by simp⟩
    | true =>
      rw [claim_of_ready (by simp [hr, ha, hb])]
      refine ⟨⟨⟨hk.buffer, hk.awaiting, hk.responded⟩, ha.symm⟩, ?_⟩
      simp [assembled, hk.buffer.bytes, hk.buffer.truncated]

/-- An event claims the body if it is the first by which there is something to claim. -/
theorem Tells.advance (h : t.Tells limit events) (event : Event) :
    (Engine.advance event t).1.Tells limit (events ++ [event]) ∧
      (Engine.advance event t).2.2 =
        if settled events = false ∧ settled (events ++ [event]) = true then
          some (assembled limit (events ++ [event]))
        else none := by
  cases hc : Engine.claims event with
  | true => exact h.advance_of_claims hc
  | false =>
    have hk := h.toTook.apply event
    have hs : settled (events ++ [event]) = settled events := by
      rcases event with ⟨⟨⟩, part⟩ | ⟨⟨⟩, part⟩ | ⟨⟨⟩, part⟩ <;>
        first | contradiction | simp [settled, List.any_append, freezes, responds]
    have ha : (Engine.apply event t).1 = t := by
      rcases event with ⟨⟨⟩, part⟩ | ⟨⟨⟩, part⟩ | ⟨⟨⟩, part⟩ <;> first | contradiction | rfl
    rw [ha] at hk
    rw [Engine.advance_of_not_claims hc, hs]
    exact ⟨⟨hk, h.delivered.trans hs.symm⟩, by simp⟩

theorem Tells.claimed (h : t.Tells limit events) (event : Event) (more : List Event) :
    (Engine.advance event t).2.2 = Event.claim limit (events ++ event :: more) events.length := by
  have hc := Event.claimedAt_length_iff events event more
  rw [(h.advance event).2, Event.claim]
  by_cases ha : settled events = false ∧ settled (events ++ [event]) = true
  · have he := Event.assembled_append ha.2 limit more
    rw [if_pos ha, if_pos (hc.mpr ha), ← he, List.append_assoc, List.singleton_append]
  · rw [if_neg ha, if_neg (mt hc.mp ha)]

end Transaction

end BodyCallout
