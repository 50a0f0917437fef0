import BodyCallout.Store.Transaction

set_option autoImplicit false

namespace BodyCallout

def Stage.rank : Stage → Nat
  | .started => 0
  | .accumulating => 1
  | .complete => 2
  | .answered => 3
  | .closed => 4

namespace Buffer

theorem bytes_append_prefix (b : Buffer) (chunk : List UInt8) :
    b.bytes <+: (b.append chunk).1.bytes := by
  by_cases h : b.fits chunk
  · simp [append_of_fits h]
  · simp [append_of_not_fits h]

theorem append_of_truncated {b : Buffer} (h : b.truncated = true) (chunk : List UInt8) :
    (b.append chunk).1 = b := by
  have hf : ¬ b.fits chunk := by simp [fits, h]
  rw [append_of_not_fits hf, ← h]

end Buffer

namespace Transaction

/-- What ties the flags of a transaction to each other, whatever has happened to it. -/
structure Coherent (t : Transaction) : Prop where
  notClosed : t.stage ≠ .closed
  answered_iff : t.stage = .answered ↔ t.delivered = true
  complete_iff : t.stage = .complete ↔ t.awaiting = false ∧ t.delivered = false
  awaiting_iff : (t.stage = .started ∨ t.stage = .accumulating) ↔ t.awaiting = true
  started : t.stage = .started → t.buffer.bytes = [] ∧ t.buffer.truncated = false
  ended : t.buffer.ended = !t.awaiting
  trailers : t.trailers = true → t.awaiting = false
  delivered : t.delivered = true → t.responseHeaders.isSome = true
  fits : t.buffer.size ≤ t.buffer.limit

/-- Between two events nothing is left that could be claimed. -/
structure Settled (t : Transaction) : Prop extends t.Coherent where
  claimed : t.ready = false

/-- `t` may become `u` while it lives: the stage goes forward, no flag is taken back, and the body
only grows, up to the point where it is frozen or a chunk was refused. -/
structure Onward (t u : Transaction) : Prop where
  id : u.id = t.id
  limit : u.buffer.limit = t.buffer.limit
  stage : t.stage.rank ≤ u.stage.rank
  delivered : t.delivered = true → u.delivered = true
  trailers : t.trailers = true → u.trailers = true
  responseHeaders : t.responseHeaders.isSome = true → u.responseHeaders.isSome = true
  bytes : t.buffer.bytes <+: u.buffer.bytes
  truncated : t.buffer.truncated = true →
    u.buffer.truncated = true ∧ u.buffer.bytes = t.buffer.bytes
  frozen : t.awaiting = false → u.awaiting = false ∧ u.buffer = t.buffer

theorem Onward.of_same_body {t u : Transaction} (hi : u.id = t.id) (hb : u.buffer = t.buffer)
    (ha : u.awaiting = t.awaiting) (hs : t.stage.rank ≤ u.stage.rank)
    (hd : t.delivered = true → u.delivered = true) (ht : t.trailers = true → u.trailers = true)
    (hr : t.responseHeaders.isSome = true → u.responseHeaders.isSome = true) : t.Onward u where
  id := hi
  limit := by rw [hb]
  stage := hs
  delivered := hd
  trailers := ht
  responseHeaders := hr
  bytes := ⟨[], by rw [hb, List.append_nil]⟩
  truncated h := by rw [hb]; exact ⟨h, rfl⟩
  frozen h := ⟨ha.trans h, hb⟩

theorem Onward.refl (t : Transaction) : t.Onward t :=
  .of_same_body rfl rfl rfl (Nat.le_refl _) (fun h => h) (fun h => h) (fun h => h)

theorem Onward.trans {t u v : Transaction} (h : t.Onward u) (k : u.Onward v) : t.Onward v where
  id := k.id.trans h.id
  limit := k.limit.trans h.limit
  stage := Nat.le_trans h.stage k.stage
  delivered ht := k.delivered (h.delivered ht)
  trailers ht := k.trailers (h.trailers ht)
  responseHeaders ht := k.responseHeaders (h.responseHeaders ht)
  bytes := h.bytes.trans k.bytes
  truncated ht := by
    obtain ⟨hu, hb⟩ := h.truncated ht
    obtain ⟨hv, kb⟩ := k.truncated hu
    exact ⟨hv, kb.trans hb⟩
  frozen ht := by
    obtain ⟨ha, hb⟩ := h.frozen ht
    obtain ⟨ka, kb⟩ := k.frozen ha
    exact ⟨ka, kb.trans hb⟩

variable {t : Transaction}

theorem settled_start (id : TransactionId) (limit now : Nat) :
    (start id limit now).Settled := by
  constructor
  · constructor <;> simp [start, Buffer.empty, Buffer.size]
  · rfl

theorem Coherent.undelivered (h : t.Coherent) (ha : t.awaiting = true) : t.delivered = false := by
  have hs := h.awaiting_iff.mpr ha
  cases hd : t.delivered with
  | false => rfl
  | true =>
    rw [h.answered_iff.mpr hd] at hs
    simp at hs

theorem Coherent.rank_le_one (h : t.Coherent) (ha : t.awaiting = true) : t.stage.rank ≤ 1 := by
  rcases h.awaiting_iff.mpr ha with hs | hs <;> simp [hs, Stage.rank]

theorem Coherent.rank_le_three (h : t.Coherent) : t.stage.rank ≤ 3 := by
  have hn := h.notClosed
  cases hs : t.stage <;> simp_all [Stage.rank]

theorem Coherent.touch (h : t.Coherent) (now : Nat) : (t.touch now).Coherent :=
  ⟨h.1, h.2, h.3, h.4, h.5, h.6, h.7, h.8, h.9⟩

theorem Settled.touch (h : t.Settled) (now : Nat) : (t.touch now).Settled :=
  ⟨h.toCoherent.touch now, h.claimed⟩

theorem onward_touch (t : Transaction) (now : Nat) : t.Onward (t.touch now) :=
  .of_same_body rfl rfl rfl (Nat.le_refl _) (fun h => h) (fun h => h) (fun h => h)

theorem Coherent.freeze (h : t.Coherent) : t.freeze.Coherent := by
  unfold Transaction.freeze; split
  · next ha =>
    have hd := h.undelivered ha
    have hs := h.delivered
    have hf := h.fits
    constructor <;> simp_all [Buffer.close, Buffer.size]
  · exact h

theorem awaiting_freeze (t : Transaction) : t.freeze.awaiting = false := by
  unfold Transaction.freeze; split
  · rfl
  · next ha => simpa using ha

theorem Coherent.onward_freeze (h : t.Coherent) : t.Onward t.freeze := by
  unfold Transaction.freeze; split
  · next ha =>
    have hr : t.stage.rank ≤ Stage.complete.rank := Nat.le_succ_of_le (h.rank_le_one ha)
    exact ⟨rfl, rfl, hr, fun h => h, fun h => h, fun h => h, List.prefix_refl _,
      fun ht => ⟨ht, rfl⟩, fun hf => by simp [ha] at hf⟩
  · exact .refl t

theorem Coherent.freezeIf (h : t.Coherent) (last : Bool) : (t.freezeIf last).Coherent := by
  cases last with
  | false => exact h
  | true => exact h.freeze

theorem Coherent.onward_freezeIf (h : t.Coherent) (last : Bool) : t.Onward (t.freezeIf last) := by
  cases last with
  | false => exact .refl t
  | true => exact h.onward_freeze

def intake (chunk : List UInt8) (t : Transaction) : Transaction :=
  { t with buffer := (t.buffer.append chunk).1, stage := .accumulating }

theorem fst_append_of_awaiting (chunk : List UInt8) (last : Bool) (ha : t.awaiting = true) :
    (t.append chunk last).1 = (t.intake chunk).freezeIf last := by
  simp [Transaction.append, ha, intake]

theorem append_of_frozen (chunk : List UInt8) (last : Bool) (ha : t.awaiting = false) :
    t.append chunk last = (t, .late) := by
  simp [Transaction.append, ha]

theorem Coherent.intake (h : t.Coherent) (ha : t.awaiting = true) (chunk : List UInt8) :
    (t.intake chunk).Coherent where
  notClosed := by simp [Transaction.intake]
  answered_iff := by simp [Transaction.intake, h.undelivered ha]
  complete_iff := by simp [Transaction.intake, ha]
  awaiting_iff := by simp [Transaction.intake, ha]
  started hs := by simp [Transaction.intake] at hs
  ended := by simp [Transaction.intake, Buffer.ended_append, h.ended]
  trailers := h.trailers
  delivered := h.delivered
  fits := Buffer.size_append_le chunk h.fits

theorem Coherent.onward_intake (h : t.Coherent) (ha : t.awaiting = true) (chunk : List UInt8) :
    t.Onward (t.intake chunk) where
  id := rfl
  limit := Buffer.limit_append _ _
  stage := h.rank_le_one ha
  delivered hd := hd
  trailers ht := ht
  responseHeaders hr := hr
  bytes := Buffer.bytes_append_prefix _ _
  truncated ht := by
    simp only [Transaction.intake, Buffer.append_of_truncated ht chunk]
    exact ⟨ht, trivial⟩
  frozen hf := by simp [ha] at hf

theorem Coherent.append (h : t.Coherent) (chunk : List UInt8) (last : Bool) :
    (t.append chunk last).1.Coherent := by
  cases ha : t.awaiting with
  | false => rw [append_of_frozen chunk last ha]; exact h
  | true =>
    rw [fst_append_of_awaiting chunk last ha]
    exact (h.intake ha chunk).freezeIf last

theorem Coherent.onward_append (h : t.Coherent) (chunk : List UInt8) (last : Bool) :
    t.Onward (t.append chunk last).1 := by
  cases ha : t.awaiting with
  | false => rw [append_of_frozen chunk last ha]; exact .refl t
  | true =>
    rw [fst_append_of_awaiting chunk last ha]
    exact (h.onward_intake ha chunk).trans ((h.intake ha chunk).onward_freezeIf last)

theorem markTrailers_eq (t : Transaction) :
    t.markTrailers = { t.freeze with trailers := true } := by
  unfold markTrailers freeze; split <;> rfl

theorem Coherent.markTrailers (h : t.Coherent) : t.markTrailers.Coherent := by
  have hf := h.freeze
  have ha := awaiting_freeze t
  rw [markTrailers_eq]
  exact { hf with trailers := fun _ => ha }

theorem Coherent.onward_markTrailers (h : t.Coherent) : t.Onward t.markTrailers := by
  have hf := h.onward_freeze
  rw [markTrailers_eq]
  exact { hf with trailers := fun _ => rfl }

theorem Coherent.recordResponse (h : t.Coherent) (part : HeaderPart) :
    (t.recordResponse part).Coherent :=
  { h with delivered := fun _ => rfl }

theorem onward_recordResponse (t : Transaction) (part : HeaderPart) :
    t.Onward (t.recordResponse part) :=
  .of_same_body rfl rfl rfl (Nat.le_refl _) (fun h => h) (fun h => h) (fun _ => rfl)

theorem claim_of_ready (h : t.ready = true) :
    t.claim = ({ t with delivered := true, stage := .answered },
      some ⟨t.buffer.bytes, t.buffer.truncated⟩) := if_pos h

theorem claim_of_not_ready (h : t.ready = false) : t.claim = (t, none) := by
  simp [claim, h]

theorem Coherent.claim (h : t.Coherent) : t.claim.1.Settled := by
  cases hr : t.ready with
  | false => rw [claim_of_not_ready hr]; exact ⟨h, hr⟩
  | true =>
    rw [claim_of_ready hr]
    simp only [ready, Bool.and_eq_true, Bool.not_eq_true'] at hr
    obtain ⟨⟨ha, hs⟩, -⟩ := hr
    refine ⟨?_, by simp [ready]⟩
    constructor <;> simp [ha, hs, h.ended, h.fits]

theorem Coherent.onward_claim (h : t.Coherent) : t.Onward t.claim.1 := by
  cases hr : t.ready with
  | false => rw [claim_of_not_ready hr]; exact .refl t
  | true =>
    rw [claim_of_ready hr]
    exact .of_same_body rfl rfl rfl h.rank_le_three (fun _ => rfl) (fun h => h) (fun h => h)

end Transaction

end BodyCallout
