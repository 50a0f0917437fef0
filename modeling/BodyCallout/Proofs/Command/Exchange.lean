import Mathlib.Algebra.Ring.Nat
import BodyCallout.Command.Replay
import BodyCallout.Proofs.Session.Classifying
import BodyCallout.Proofs.Session.Telling

set_option autoImplicit false

namespace BodyCallout

namespace Event

theorem chunks_of_unfrozen {events : List Event} (h : events.any freezes = false) :
    chunks events = events.filterMap chunk? := by
  have hl : events.findIdx freezes = events.length := by
    rw [List.findIdx_eq_length]
    simpa using h
  rw [chunks, hl, List.take_of_length_le (Nat.le_succ _)]

theorem chunks_of_freezes {init : List Event} {event : Event} (h : init.any freezes = false)
    (he : event.freezes = true) (more : List Event) :
    chunks (init ++ event :: more) = (init ++ [event]).filterMap chunk? := by
  have hf : (init ++ [event]).any freezes = true := by simp [List.any_append, he]
  rw [← List.singleton_append, ← List.append_assoc, chunks_append_of_frozen hf, chunks_concat,
    if_neg (by simp [h]), chunks_of_unfrozen h, List.filterMap_append]
  cases hc : event.chunk? <;> simp [hc]

theorem assembled_of_fits {limit : Nat} {events : List Event}
    (h : (chunks events).flatten.length ≤ limit) :
    assembled limit events = ⟨(chunks events).flatten, false⟩ := by
  rw [assembled, longestFit_of_le h, decide_eq_false (Nat.not_lt.mpr h)]

end Event

namespace Replay

open Event (freezes responds chunk? settled claimedAt)

def content (r : Replay) : List UInt8 := r.bodies.flatMap fun text => Utf8.encode text.toList

section Parts

variable (r : Replay) (text : String) (last : Bool)

@[simp] theorem freezes_requestHeaders :
    r.requestHeaders.freezes = (r.bodies.isEmpty && !r.trailers) := rfl

@[simp] theorem responds_requestHeaders : r.requestHeaders.responds = false := rfl

@[simp] theorem chunk?_requestHeaders : r.requestHeaders.chunk? = none := rfl

@[simp] theorem freezes_chunk : (chunk text last).freezes = last := rfl

@[simp] theorem responds_chunk : (chunk text last).responds = false := rfl

@[simp] theorem chunk?_chunk : (chunk text last).chunk? = some (Utf8.encode text.toList) := rfl

@[simp] theorem freezes_responseHeaders : responseHeaders.freezes = false := rfl

@[simp] theorem responds_responseHeaders : responseHeaders.responds = true := rfl

@[simp] theorem chunk?_responseHeaders : responseHeaders.chunk? = none := rfl

@[simp] theorem opens_chunk : (chunk text last).opens = false := rfl

@[simp] theorem opens_responseHeaders : responseHeaders.opens = false := rfl

@[simp] theorem responds_trailers (part : TrailerPart) :
    responds (.trailers .request part) = false := rfl

@[simp] theorem chunk?_trailers (part : TrailerPart) :
    chunk? (.trailers .request part) = none := rfl

theorem filterMap_chunks (texts : List String) :
    texts.filterMap (chunk? ∘ (chunk · false)) =
      texts.map fun text => Utf8.encode text.toList := by
  rw [← List.filterMap_eq_map]
  rfl

end Parts

theorem chunks_concat (r : Replay) (texts : List String) (final : String) :
    r.chunks (texts ++ [final]) = texts.map (chunk · false) ++
      (if r.responseFirst then [responseHeaders] else []) ++ [chunk final (!r.trailers)] := by
  induction texts with
  | nil => simp [chunks]
  | cons text texts ih =>
    cases texts with
    | nil => simp [chunks]
    | cons next texts => simpa [chunks] using ih

theorem opens_of_mem_chunks (r : Replay) (texts : List String) :
    ∀ event ∈ r.chunks texts, event.opens = false := by
  induction texts with
  | nil => nofun
  | cons text texts ih =>
    cases texts with
    | nil => cases hr : r.responseFirst <;> simp [chunks, hr]
    | cons next texts => simpa [chunks] using ih

theorem events_eq_cons (r : Replay) : ∃ rest, r.events = r.requestHeaders :: rest ∧
    ∀ event ∈ rest, event.opens = false := by
  refine ⟨r.chunks r.bodies ++ (if r.trailers then [.trailers .request ⟨[]⟩] else []) ++
    (if r.responseFirst && !r.bodies.isEmpty then [] else [responseHeaders]), rfl, ?_⟩
  intro event he
  rw [List.mem_append, List.mem_append] at he
  rcases he with (he | he) | he
  · exact r.opens_of_mem_chunks r.bodies event he
  · split at he
    · obtain rfl := List.mem_singleton.mp he
      rfl
    · exact absurd he List.not_mem_nil
  · split at he
    · exact absurd he List.not_mem_nil
    · obtain rfl := List.mem_singleton.mp he
      rfl

/-- The request ends at one event; the response begins before that one, or at the one after it. -/
structure Layout (r : Replay) (init : List Event) (freezer : Event) (post : List Event) : Prop where
  events : r.events = init ++ freezer :: post
  unfrozen : init.any freezes = false
  freezes : freezer.freezes = true
  chunks : (init ++ [freezer]).filterMap chunk? =
    r.bodies.map fun text => Utf8.encode text.toList
  response : post = [] ∧ init.any responds = true ∨
    post = [responseHeaders] ∧ (init ++ [freezer]).any responds = false

theorem layout_cases (r : Replay) : ∃ init freezer post, r.Layout init freezer post := by
  rcases r.bodies.eq_nil_or_concat with hb | ⟨texts, final, hb⟩
  · cases ht : r.trailers with
    | true =>
      refine ⟨[r.requestHeaders], .trailers .request ⟨[]⟩, [responseHeaders],
        ?_, ?_, rfl, ?_, .inr ⟨rfl, ?_⟩⟩
      · simp [Replay.events, hb, ht, Replay.chunks]
      · simp [hb, ht]
      · simp [hb]
      · simp
    | false =>
      refine ⟨[], r.requestHeaders, [responseHeaders], ?_, rfl, ?_, ?_, .inr ⟨rfl, ?_⟩⟩
      · simp [Replay.events, hb, ht, Replay.chunks]
      · simp [hb, ht]
      · simp [hb]
      · simp
  -- The final chunk ends the request unless trailers do.
  · rw [List.concat_eq_append] at hb
    have hc := r.chunks_concat texts final
    cases ht : r.trailers with
    | true =>
      refine ⟨r.requestHeaders :: r.chunks r.bodies, .trailers .request ⟨[]⟩,
        if r.responseFirst then [] else [responseHeaders], ?_, ?_, rfl, ?_, ?_⟩
      · simp [Replay.events, ht, hb]
      · cases hr : r.responseFirst <;> simp [hb, hc, hr, ht]
      · cases hr : r.responseFirst <;> simp [hb, hc, hr, List.filterMap_cons, filterMap_chunks]
      · cases hr : r.responseFirst <;> simp [hb, hc, hr]
    | false =>
      refine ⟨r.requestHeaders :: texts.map (chunk · false) ++
        (if r.responseFirst then [responseHeaders] else []), chunk final true,
        if r.responseFirst then [] else [responseHeaders], ?_, ?_, rfl, ?_, ?_⟩
      · simp [Replay.events, ht, hb, hc]
      · cases hr : r.responseFirst <;> simp [hb]
      · cases hr : r.responseFirst <;> simp [hb, List.filterMap_cons, filterMap_chunks]
      · cases hr : r.responseFirst <;> simp

/-- The last event is the one at which the body is claimed, and then it is whole. -/
theorem claim_events (r : Replay) {limit : Nat} (h : r.content.length ≤ limit) (i : Nat) :
    Event.claim limit r.events i =
      if i + 1 = r.events.length then some ⟨r.content, false⟩ else none := by
  obtain ⟨init, freezer, post, hl⟩ := r.layout_cases
  have hc : (Event.chunks r.events).flatten = r.content := by
    rw [hl.events, Event.chunks_of_freezes hl.unfrozen hl.freezes, hl.chunks, content,
      List.flatMap_def]
  have ha : Event.assembled limit r.events = ⟨r.content, false⟩ := by
    rw [Event.assembled_of_fits (hc ▸ h), hc]
  have hs : claimedAt r.events = some (r.events.length - 1) := by
    rw [hl.events]
    rcases hl.response with ⟨rfl, hr⟩ | ⟨rfl, hr⟩
    · have hi := (Event.claimedAt_length_iff init freezer []).mpr
        ⟨by simp [settled, hl.unfrozen], by simp [settled, hl.freezes, hr]⟩
      simpa using hi
    · have hi := (Event.claimedAt_length_iff (init ++ [freezer]) responseHeaders []).mpr
        ⟨by simp only [settled, hr, Bool.and_false], by simp [settled, hl.freezes]⟩
      simpa using hi
  have hn : r.events.length ≠ 0 := by simp [hl.events]
  have hi : r.events.length - 1 = i ↔ i + 1 = r.events.length := by omega
  simp only [Event.claim, hs, ha, Option.some.injEq, hi]

theorem due_content (e : Engine) (hb : e.builder = Classifier.builder) (bytes : List UInt8) :
    e.due ⟨bytes, false⟩ = some (Classifier.mutation bytes) := by
  have hc : e.consults ⟨bytes, false⟩ := by simp [Engine.consults]
  simp [Engine.due, hc, hb, Classifier.builder, Classifier.isEmpty_mutation]

/-- Every event of the exchange gets its answer. The last answer carries what the classifier makes
of the whole body, and no other answer carries anything. -/
theorem answered_at_last (r : Replay) (service : Service)
    (hb : service.engine.builder = Classifier.builder) (identity : Option String)
    (fresh : TransactionId) (s : Store)
    (hs : s.live.get? (service.correlation.lastResort identity fresh) = none)
    (hl : r.content.length ≤ s.limit) :
    let ending := ((Session.start identity).run service r.events.length s
      (r.events.map fun event => (.event event, fresh))).2
    ending.result = .ok () ∧
      ending.answers.map (·.reply.phase) = r.events.map Event.phase ∧
      ending.answers.map (·.reply.mutation) =
        List.replicate (r.events.length - 1) none ++ [some (Classifier.mutation r.content)] ∧
      (Classifier.mutation r.content).get? "x-body-size" = some (Decimal.text
        (r.bodies.map fun text => (Utf8.encode text.toList).length).sum) := by
  intro ending
  obtain ⟨rest, he, hr⟩ := r.events_eq_cons
  -- The run answers each event by what the events before it have claimed.
  have hw : ending = ⟨.ok (), r.events.mapIdx fun i event => service.engine.answer event
      (Event.claim s.limit r.events i), r.events.length⟩ := by
    have hn : (Session.start identity).solo service fresh (s.record .streamStarted)
        (r.requestHeaders :: rest) = _ := Session.solo_of_opens rfl rfl hs hr
    rw [← he] at hn
    rw [he, List.length_cons, ← he]
    exact hn
  have hm (i : Nat) (event : Event) :
      (service.engine.answer event (Event.claim s.limit r.events i)).reply.mutation =
        if i + 1 = r.events.length then some (Classifier.mutation r.content) else none := by
    rw [Engine.mutation_answer, claim_events r hl]
    split
    · exact due_content service.engine hb r.content
    · rfl
  rw [hw]
  refine ⟨rfl, ?_, ?_, ?_⟩
  · refine List.ext_getElem (by simp) fun i hi hj => ?_
    simp [Engine.phase_answer]
  · refine List.ext_getElem ?_ fun i hi hj => ?_
    · simp [he]
    · have hi : i < r.events.length := by simpa using hi
      simp only [List.getElem_map, List.getElem_mapIdx, hm, List.getElem_append,
        List.length_replicate, List.getElem_replicate, List.getElem_singleton]
      by_cases hn : i + 1 = r.events.length
      · rw [if_pos hn, dif_neg (by omega)]
      · rw [if_neg hn, dif_pos (by omega)]
  · rw [Classifier.get?_size, content, List.length_flatMap]

/-- The client asks for an id that another transaction has; the response begins before the final
chunk, and trailers end the request. -/
theorem answered_after_trailers :
    let r : Replay :=
      { bodies := ["<a>", "", "Error</a>"], requestId := some "x", trailers := true,
        responseFirst := true }
    let service : Service := ⟨⟨Classifier.builder, true, .skip⟩, ⟨false, "x-request-id"⟩⟩
    let s := (Store.empty 12).insert ⟨"x"⟩
    let ending := ((Session.start none).run service r.events.length s
      (r.events.map fun event => (.event event, ⟨"f"⟩))).2
    service.engine.builder = Classifier.builder ∧
      s.live.get? (service.correlation.lastResort none ⟨"f"⟩) = none ∧
      r.content.length ≤ s.limit ∧
      ending.result = .ok () ∧
      ending.answers.map (·.reply.phase) =
        [⟨.request, .headers⟩, ⟨.request, .body⟩, ⟨.request, .body⟩, ⟨.response, .headers⟩,
          ⟨.request, .body⟩, ⟨.request, .trailers⟩] ∧
      ending.answers.map (·.reply.mutation) =
        [none, none, none, none, none, some (.ofPairs [("x-body-format", "xml"),
          ("x-body-has-error", "true"), ("x-body-size", "12")])] ∧
      (Classifier.mutation r.content).get? "x-body-size" = some "12" := by
  intro r service s ending
  have hs : s.live.get? (service.correlation.lastResort none ⟨"f"⟩) = none := by decide
  have hl : r.content.length ≤ s.limit := by decide
  have hm : Classifier.mutation r.content = .ofPairs [("x-body-format", "xml"),
      ("x-body-has-error", "true"), ("x-body-size", "12")] := by decide +kernel
  obtain ⟨ho, hp, hc, hn⟩ := answered_at_last r service rfl none ⟨"f"⟩ s hs hl
  rw [hm] at hc
  exact ⟨rfl, hs, hl, ho, hp, hc, hn.trans (by decide +kernel)⟩

end Replay

end BodyCallout
