import BodyCallout.Proofs.Service.Order

/-!
How one stream's messages become its frames. While the writer works, what was sent for a stream,
what waits to be sent, and what its session would answer to all that is addressed to it make up one
list, the answers of the same session on its own; every step only moves the marks in it.
-/

set_option autoImplicit false

namespace BodyCallout

/-- After such an item a stream is told nothing more. -/
def Item.ends : Item → Bool
  | .event _ => false
  | _ => true

def tagged (stream : UInt64) (answers : List Answer) : List Outbound := answers.map (.answer stream)

/-- The session of a stream is at work: it has yet to take the pending events, and then the last
item if that has come. On its own it would be where it is now with the store `u`. -/
structure Running (key : StreamKey) (s u : Store) (pending : List Event) (last : Option Item)
    (t : StreamTask) (x : Strand) : Prop where
  whole : x.broken = false
  task : x.task = some t
  names : ∀ m, x.names m ↔ m = key.stream ∧ last = none
  hungUp : last = none → x.hungUp = false
  filed : t.key = key
  stage : t.stage = .running
  forwarding : t.forwarding = true
  inbox : t.inbox = pending.map .event ++ last.toList
  ends : ∀ item, last = some item → item.ends = true
  alike : t.session.Alike key.text s u

/-- The events that a session has yet to take, of which some have yet to come in. -/
def Running.left (pending : List Event) (last : Option Item) (more : List Event) : List Event :=
  pending ++ if last = none then more else []

/-- The frames of a stream are on the way to be `all` the answers; `more` is yet to be addressed to
it, unless it was told its last. -/
inductive Flow (service : Service) (fresh : TransactionId) (key : StreamKey) (all : List Answer)
    (s : Store) (more : List Event) (x : Strand) : Prop where
  | running (u : Store) (pending : List Event) (last : Option Item) (t : StreamTask)
      (h : Running key s u pending last t x)
      (hd : x.frames ++ tagged key.stream (t.outbox ++
        (t.session.solo service fresh u (Running.left pending last more)).answers) =
          tagged key.stream all)
  | ended (t : StreamTask) (hb : x.broken = false) (ht : x.task = some t) (hk : t.key = key)
      (hs : t.stage = .ended none) (hn : ∀ m, ¬ x.names m)
      (hd : x.frames ++ tagged key.stream t.outbox = tagged key.stream all)
  | gone (hb : x.broken = false) (ht : ∀ t, x.task = some t → t.stage = .over ∧ t.outbox = [])
      (hn : ∀ m, ¬ x.names m) (hd : x.frames = tagged key.stream all)

namespace Flow

variable {service : Service} {fresh : TransactionId} {key : StreamKey} {all : List Answer}
  {s u : Store} {more : List Event} {x : Strand}

theorem whole (h : Flow service fresh key all s more x) : x.broken = false := by
  cases h with
  | running u pending last t h => exact h.whole
  | ended t hb => exact hb
  | gone hb => exact hb

theorem names (h : Flow service fresh key all s more x) {m : UInt64} (hm : x.names m) :
    m = key.stream ∧ x.hungUp = false := by
  cases h with
  | running u pending last t h =>
    obtain ⟨he, hl⟩ := (h.names m).mp hm
    exact ⟨he, h.hungUp hl⟩
  | ended t hb ht hk hs hn => exact absurd hm (hn m)
  | gone hb ht hn => exact absurd hm (hn m)

theorem frames (h : Flow service fresh key all s more x) :
    x.frames <+: tagged key.stream all := by
  cases h with
  | running u pending last t h hd => exact ⟨_, hd⟩
  | ended t hb ht hk hs hn hd => exact ⟨_, hd⟩
  | gone hb ht hn hd => exact hd ▸ List.prefix_refl _

/-- When everything is taken and passed on, everything is answered. -/
theorem complete (h : Flow service fresh key all s [] x)
    (hi : ∀ t, x.task = some t → t.inbox = [] ∧ t.outbox = []) :
    x.frames = tagged key.stream all := by
  cases h with
  | running u pending last t h hd =>
    obtain ⟨hn, ho⟩ := hi t h.task
    rw [h.inbox, List.append_eq_nil_iff, List.map_eq_nil_iff] at hn
    simpa [Running.left, hn.1, ho, Session.solo_nil, tagged] using hd
  | ended t hb ht hk hs hn hd => simpa [(hi t ht).2, tagged] using hd
  | gone hb ht hn hd => exact hd

theorem store (h : Flow service fresh key all s more x) (hl : u.limit = s.limit)
    (he : u.live.get? ⟨key.text⟩ = s.live.get? ⟨key.text⟩) :
    Flow service fresh key all u more x := by
  cases h with
  | running v pending last t h hd =>
    exact .running v pending last t { h with alike := h.alike.store hl he } hd
  | ended t hb ht hk hs hn hd => exact .ended t hb ht hk hs hn hd
  | gone hb ht hn hd => exact .gone hb ht hn hd

theorem shut (h : Flow service fresh key all s more x) (hn : ∀ m, ¬ x.names m) (hungUp : Bool)
    (other : List Event) : Flow service fresh key all s other { x with hungUp := hungUp } := by
  cases h with
  | running u pending last t h hd =>
    have hl : last ≠ none := fun hl => hn key.stream ((h.names _).mpr ⟨rfl, hl⟩)
    refine .running u pending last t { h with hungUp := fun h => absurd h hl } ?_
    simpa only [Running.left, if_neg hl] using hd
  | ended t hb ht hk hs hn hd => exact .ended t hb ht hk hs hn hd
  | gone hb ht hn hd => exact .gone hb ht hn hd

section Frames

variable {c : Connection} {g : Nat}

theorem takes (h : Flow service fresh key all s more (c.strand g))
    (hn : c.streams.get? key.stream = some g) : c.takes g = true := by
  cases h with
  | running u pending last t h hd =>
    have ht : c.tasks.get? g = some t := h.task
    simp [Connection.takes, ht, h.stage]
  | ended t hb ht hk hs hm => exact absurd hn (hm _)
  | gone hb ht hm => exact absurd hn (hm _)

theorem deliver {event : Event} (h : Flow service fresh key all s (event :: more) (c.strand g))
    (hn : c.streams.get? key.stream = some g) :
    Flow service fresh key all s more ((c.deliver g (.event event)).strand g) := by
  cases h with
  | running u pending last t h hd =>
    obtain rfl : last = none := ((h.names _).mp hn).2
    rw [Connection.strand_deliver_self h.task h.stage]
    refine .running u (pending ++ [event]) none { t with inbox := t.inbox ++ [.event event] }
      { h with task := rfl, inbox := ?_ } ?_
    · simp [h.inbox]
    · simpa [Running.left] using hd
  | ended t hb ht hk hs hm => exact absurd hn (hm _)
  | gone hb ht hm => exact absurd hn (hm _)

theorem giveUp (h : Flow service fresh key all s [] (c.strand g)) (stream : UInt64) {item : Item}
    (hi : item.ends = true) :
    Flow service fresh key all s [] ((c.giveUp stream item).strand g) := by
  by_cases hn : c.streams.get? stream = some g
  · cases h with
    | running u pending last t h hd =>
      obtain ⟨rfl, rfl⟩ := (h.names stream).mp hn
      rw [Connection.strand_giveUp_self hn h.task h.stage]
      refine .running u pending (some item) { t with inbox := t.inbox ++ [item] }
        { h with task := rfl, names := ?_, inbox := ?_, hungUp := nofun, ends := ?_ } ?_
      · simp [h.names]
      · simp [h.inbox]
      · rintro _ ⟨⟩; exact hi
      · simpa [Running.left] using hd
    | ended t hb ht hk hs hm => exact absurd hn (hm _)
    | gone hb ht hm => exact absurd hn (hm _)
  · rw [Connection.strand_giveUp_of_ne hn]
    exact h

theorem hangUp (h : Flow service fresh key all s [] (c.strand g)) (other : List Event) :
    Flow service fresh key all s other (c.hangUp.strand g) := by
  have hf (keys : List UInt64) : Flow service fresh key all s [] ((keys.foldl
      (fun c stream => c.giveUp stream (.abort Connection.closedReason)) c).strand g) := by
    induction keys generalizing c with
    | nil => exact h
    | cons stream rest ih => exact ih (h.giveUp stream rfl)
  exact (hf c.streams.keys).shut (fun m hm => Connection.get?_hangUp m hm) true other

theorem forward (h : Flow service fresh key all s more (c.strand g)) :
    Flow service fresh key all s more ((c.forward g).strand g) := by
  have hb : c.broken = false := h.whole
  cases ht : c.tasks.get? g with
  | none =>
    have hc : c.forward g = c := by simp [Connection.forward, ht]
    rw [hc]
    exact h
  | some t =>
    cases ho : t.outbox with
    | nil =>
      rw [Connection.forward_of_nothing ht ho]
      exact h
    | cons a rest =>
      rw [Connection.strand_forward ht hb ho]
      cases h with
      | running u pending last x h hd =>
        obtain rfl : x = t := Option.some.inj (h.task.symm.trans ht)
        refine .running u pending last { x with outbox := rest } { h with task := rfl } ?_
        simpa [ho, tagged, h.filed] using hd
      | ended x hb hx hk hs hm hd =>
        obtain rfl : x = t := Option.some.inj (hx.symm.trans ht)
        refine .ended { x with outbox := rest } hb rfl hk hs hm ?_
        simpa [ho, tagged, hk] using hd
      | gone hb hx hm hd =>
        rw [(hx t ht).2] at ho
        cases ho

theorem report (h : Flow service fresh key all s more (c.strand g)) :
    Flow service fresh key all s more ((c.report g).strand g) := by
  cases h with
  | running u pending last t h hd =>
    have hr : ∀ fault, t.stage ≠ .ended fault := by simp [h.stage]
    rw [Connection.report_of_running h.task hr]
    exact .running u pending last t h hd
  | ended t hb ht hk hs hm hd =>
    by_cases ho : t.outbox = []
    · rw [Connection.strand_report ht hs ho]
      refine .gone hb (fun x hx => ?_) hm (by simpa [ho, tagged] using hd)
      obtain rfl := Option.some.inj hx
      exact ⟨rfl, ho⟩
    · rw [Connection.report_of_outbox ht ho]
      exact .ended t hb ht hk hs hm hd
  | gone hb ht hm hd =>
    have hc : c.report g = c := by
      cases hx : c.tasks.get? g with
      | none => simp [Connection.report, hx]
      | some t =>
        have hr : ∀ fault, t.stage ≠ .ended fault := by simp [(ht t hx).1]
        exact Connection.report_of_running hx hr
    rw [hc]
    exact .gone hb ht hm hd

theorem reap (h : Flow service fresh key all s more (c.strand g)) :
    Flow service fresh key all s more ((c.reap g).strand g) := by
  cases h with
  | running u pending last t h hd =>
    rw [Connection.reap_of_not_over h.task (by simp [h.stage])]
    exact .running u pending last t h hd
  | ended t hb ht hk hs hm hd =>
    rw [Connection.reap_of_not_over ht (by simp [hs])]
    exact .ended t hb ht hk hs hm hd
  | gone hb ht hm hd =>
    cases hx : c.tasks.get? g with
    | none =>
      have hc : c.reap g = c := by simp [Connection.reap, hx]
      rw [hc]
      exact .gone hb ht hm hd
    | some t =>
      rw [Connection.strand_reap_self hx (ht t hx).1 hm]
      exact .gone hb (by simp) hm hd

theorem work (hp : service.correlation.preferIdentity = true)
    (h : Flow service fresh key all s more (c.strand g)) (other : TransactionId) :
    Flow service fresh key all (c.work service g other s).2 more
      ((c.work service g other s).1.strand g) := by
  cases ht : c.tasks.get? g with
  | none =>
    have hc : c.work service g other s = (c, s) := by simp [Connection.work, ht]
    rw [hc]
    exact h
  | some t =>
    obtain ⟨hx, hy⟩ := Connection.strand_work ht service other s
    rw [hx, hy]
    -- A stream with nothing to take stays as it is.
    have idle (hw : t.work service other s = (t, s)) : Flow service fresh key all
        (t.work service other s).2 more
        { c.strand g with task := some (t.work service other s).1 } := by
      rw [hw, ← ht]
      exact h
    cases h with
    | running u pending last x h hd =>
      obtain rfl : x = t := Option.some.inj (h.task.symm.trans ht)
      have hi := h.inbox
      cases pending with
      | cons event rest =>
        obtain ⟨next, a, v, w, hs, hu, ha⟩ := h.alike.handle hp event other fresh
        have hw : x.work service other s =
            ({ x with inbox := rest.map .event ++ last.toList, session := next,
                      outbox := x.outbox ++ [a] }, v) := by
          have hi : x.inbox = .event event :: (rest.map .event ++ last.toList) := hi
          simp [StreamTask.work, h.stage, hi, hs, h.forwarding]
        rw [hw]
        refine .running w rest last _ { h with task := rfl, inbox := rfl, alike := ha } ?_
        rw [Running.left, List.cons_append, Session.solo_cons hu] at hd
        simpa [Running.left] using hd
      | nil =>
        cases last with
        | none =>
          have hi : x.inbox = [] := hi
          exact idle (by simp [StreamTask.work, h.stage, hi])
        | some item =>
          -- The last item is left, and with it the session is over.
          have hi : x.inbox = [item] := hi
          have hw : x.work service other s = x.finish none s := by
            have he := h.ends item rfl
            cases item <;> simp_all [StreamTask.work, h.stage, Item.ends]
          rw [hw]
          refine .ended _ h.whole rfl h.filed rfl (fun m hm => ?_) ?_
          · have hn := ((h.names m).mp hm).2
            cases hn
          · simpa [Running.left, Session.solo_nil, StreamTask.finish] using hd
    | ended x hb hx hk hs hm hd =>
      obtain rfl : x = t := Option.some.inj (hx.symm.trans ht)
      exact idle (by simp [StreamTask.work, hs])
    | gone hb hx hm hd =>
      exact idle (by simp [StreamTask.work, (hx t ht).1])

end Frames

end Flow

end BodyCallout
