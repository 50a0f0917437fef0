import BodyCallout.Proofs.Service.Flow

/-!
The streams of a connection do not get in each other's way. Whatever comes in and however the parts
of the connection take turns, what is written for a stream is what its session would answer on its
own, in the same order.
-/

set_option autoImplicit false

namespace BodyCallout

/-- A session on a store of its own, which is told everything at once. -/
def Session.alone (service : Service) (fresh : TransactionId) (limit : Nat) (identity : String)
    (events : List Event) : Ending :=
  ((start (some identity)).run service events.length (.empty limit)
    (events.map fun event => (.event event, fresh))).2

namespace Connection

/-- A step of the connection, or something else that happens to the store. -/
inductive Move where
  | act (a : Act)
  | around (f : Store → Store)

namespace Move

/-- What happens around the connection leaves the entries of its streams alone: none is evicted. -/
def Spares (number : Nat) (s : Store) : Move → Prop
  | act _ => True
  | around f => (f s).limit = s.limit ∧ ∀ k : StreamKey, k.connection = number →
      (f s).live.get? ⟨k.text⟩ = s.live.get? ⟨k.text⟩

theorem spares_advance {number time : Nat} {s : Store} :
    (around fun s => s.advance time).Spares number s :=
  ⟨rfl, fun _ _ => rfl⟩

theorem spares_sweep {number idle : Nat} {s : Store} (h : (s.sweep idle).2 = 0) :
    (around fun s => (s.sweep idle).1).Spares number s := by
  refine ⟨Store.limit_evict _ _, fun k _ => ?_⟩
  have hl : (s.sweep idle).1.live = s.live := Store.live_evict_of_zero _ _ h
  rw [hl]

theorem spares_step {service : Service} (hp : service.correlation.preferIdentity = true)
    {number other limit : Nat} (hn : number ≠ other) {d : Connection} {s : Store}
    (h : d.Orderly other limit s) (a : Act) :
    (around fun s => (d.step service s a).2).Spares number s := by
  cases a with
  | frame frame =>
    dsimp only [Spares, step, takeFrame]
    split
    · exact ⟨rfl, fun _ _ => rfl⟩
    · split <;> exact ⟨rfl, fun _ _ => rfl⟩
  | work g fresh =>
    have hw {k : StreamKey} (hk : k.connection = number) : k.connection = other →
        k.generation ≠ g := fun ho => absurd (hk.symm.trans ho) hn
    refine ⟨(h.store_work hp fresh (hw (k := ⟨number, 0, g⟩) rfl)).1, fun k hk => ?_⟩
    exact (h.store_work hp fresh (hw hk)).2
  | _ => exact ⟨rfl, fun _ _ => rfl⟩

def take (service : Service) (w : Connection × Store) : Move → Connection × Store
  | act a => w.1.step service w.2 a
  | around f => (w.1, f w.2)

def run (service : Service) (w : Connection × Store) (moves : List Move) : Connection × Store :=
  moves.foldl (take service) w

theorem run_cons (service : Service) (w : Connection × Store) (m : Move) (rest : List Move) :
    run service w (m :: rest) = run service (m.take service w) rest := rfl

theorem run_append (service : Service) (w : Connection × Store) (moves rest : List Move) :
    run service w (moves ++ rest) = run service (run service w moves) rest := List.foldl_append

def Sparing (service : Service) (number : Nat) : Connection × Store → List Move → Prop
  | _, [] => True
  | w, m :: rest => m.Spares number w.2 ∧ Sparing service number (m.take service w) rest

theorem sparing_append {service : Service} {number : Nat} {w : Connection × Store}
    {moves rest : List Move} : Sparing service number w (moves ++ rest) ↔
      Sparing service number w moves ∧ Sparing service number (run service w moves) rest := by
  induction moves generalizing w with
  | nil => simp [Sparing, run]
  | cons m moves ih =>
    rw [List.cons_append, Sparing, Sparing, ih, run_cons, and_assoc]

/-- The messages to a stream up to its end or abort, or to the end of the connection. -/
def addressed (stream : UInt64) : List Move → List Event
  | [] => []
  | act (.frame (.message n event)) :: rest =>
    if n = stream then event :: addressed stream rest else addressed stream rest
  | act (.frame (.finish n)) :: rest => if n = stream then [] else addressed stream rest
  | act (.frame (.abort n _)) :: rest => if n = stream then [] else addressed stream rest
  | act .hangUp :: _ => []
  | act (.fail _) :: _ => []
  | _ :: rest => addressed stream rest

end Move

end Connection

namespace Flow

open Connection Move

variable {service : Service} {fresh : TransactionId} {key : StreamKey} {all : List Answer}
  {s : Store} {c : Connection} {rest : List Move}

theorem giveUp_last {n : UInt64} {item : Item} (hi : item.ends = true)
    (h : Flow service fresh key all s (if n = key.stream then [] else addressed key.stream rest)
      (c.strand key.generation)) :
    Flow service fresh key all s (addressed key.stream rest)
      ((c.giveUp n item).strand key.generation) := by
  by_cases hn : n = key.stream
  · rw [if_pos hn] at h
    refine (h.giveUp n hi).shut (fun m hm => ?_) _ _
    obtain ⟨hne, hm⟩ := Connection.get?_giveUp hm
    exact hne ((h.names hm).1.trans hn.symm)
  · rw [if_neg hn] at h
    rw [Connection.strand_giveUp_of_ne fun hm => hn (h.names hm).1]
    exact h

theorem dispatch {frame : Inbound} (hg : key.generation < c.opened)
    (h : Flow service fresh key all s (addressed key.stream (.act (.frame frame) :: rest))
      (c.strand key.generation)) :
    Flow service fresh key all s (addressed key.stream rest)
      ((c.dispatch frame).strand key.generation) := by
  cases frame with
  | finish n => exact h.giveUp_last rfl
  | abort n reason => exact h.giveUp_last rfl
  | message n event =>
    rw [addressed] at h
    by_cases hs : c.streams.get? n = some key.generation
    · obtain rfl := (h.names hs).1
      have hd : c.dispatch (.message key.stream event) =
          c.deliver key.generation (.event event) := by
        simp [Connection.dispatch, hs, h.takes hs]
      rw [if_pos rfl] at h
      rw [hd]
      exact h.deliver hs
    · rw [Connection.strand_dispatch_of_ne hs hg]
      by_cases hn : n = key.stream
      · exact h.shut (fun m hm => hs (by rw [hn, ← (h.names hm).1]; exact hm)) _ _
      · rwa [if_neg hn] at h

theorem takeFrame {frame : Inbound} (hg : key.generation < c.opened)
    (h : Flow service fresh key all s (addressed key.stream (.act (.frame frame) :: rest))
      (c.strand key.generation)) :
    Flow service fresh key all (c.takeFrame frame s).2 (addressed key.stream rest)
      ((c.takeFrame frame s).1.strand key.generation) := by
  rw [Connection.takeFrame]
  split
  · next hh =>
    refine h.shut (fun m hm => ?_) _ _
    have hu : c.hungUp = false := (h.names hm).2
    rw [hu] at hh
    cases hh
  · refine (h.dispatch hg).store ?_ ?_
    · dsimp only
      split <;> rfl
    · dsimp only
      split <;> rfl

/-- One step moves a stream on, unless it is the one by which the writer is gone. -/
theorem take (hp : service.correlation.preferIdentity = true) {limit : Nat}
    (ho : c.Orderly key.connection limit s) (hg : key.generation < c.opened) {m : Move}
    (hm : m.Spares key.connection s)
    (h : Flow service fresh key all s (addressed key.stream (m :: rest))
      (c.strand key.generation)) :
    Flow service fresh key all (m.take service (c, s)).2 (addressed key.stream rest)
        ((m.take service (c, s)).1.strand key.generation) ∨
      (m.take service (c, s)).1.Silent ∧
        framesOf key.generation (m.take service (c, s)).1.written <+: tagged key.stream all := by
  cases m with
  | around f => exact .inl (h.store hm.1 (hm.2 key rfl))
  | act a =>
    cases a with
    | frame frame => exact .inl (h.takeFrame hg)
    | hangUp => exact .inl (Flow.hangUp h _)
    | fail message =>
      have h : Flow service fresh key all s [] (c.strand key.generation) := h
      -- The error bears no generation, so it is none of the frames of this stream.
      have hs : (c.send ⟨none, .error 0 message⟩).strand key.generation = c.strand key.generation :=
        c.strand_send_of_ne nofun
      rw [← hs] at h
      exact .inl (h.hangUp _)
    | drain => exact .inl h
    | work g other =>
      by_cases he : g = key.generation
      · subst he
        exact .inl (Flow.work hp h other)
      · obtain ⟨hl, hu⟩ := ho.store_work hp other fun _ => Ne.symm he
        rw [← c.strand_work_of_ne he service other s] at h
        exact .inl (h.store hl hu)
    | forward g =>
      by_cases he : g = key.generation
      · subst he
        exact .inl (Flow.forward h)
      · rw [← c.strand_forward_of_ne he] at h
        exact .inl h
    | report g =>
      by_cases he : g = key.generation
      · subst he
        exact .inl (Flow.report h)
      · rw [← c.strand_report_of_ne he] at h
        exact .inl h
    | reap g =>
      by_cases he : g = key.generation
      · subst he
        exact .inl (Flow.reap h)
      -- Numbers of streams that take nothing more go too, but this stream still takes.
      · have hn (n : UInt64) (hn : c.streams.get? n = some key.generation) :
            c.takes key.generation = true := Flow.takes h ((h.names hn).1 ▸ hn)
        rw [← c.strand_reap_of_ne he hn] at h
        exact .inl h
    | write =>
      rw [← c.strand_write] at h
      exact .inl h
    | breakOff =>
      cases hq : c.queue with
      | nil =>
        have hc : c.breakOff = c := by simp [breakOff, hq]
        rw [← hc] at h
        exact .inl h
      | cons p queue =>
        have hc : c.breakOff = { c with queue := [], broken := true } := by simp [breakOff, hq]
        -- What was queued is lost, and what was written before is still a start of all the answers.
        rw [Move.take, step, hc]
        exact .inr ⟨⟨rfl, rfl⟩, (c.written_prefix_frames _).trans h.frames⟩

theorem start {number limit : Nat} (ho : c.Orderly number limit s) (hb : c.broken = false)
    (hh : c.hungUp = false) {stream : UInt64} (hs : c.streams.get? stream = none) (event : Event)
    (more : List Event) {u : Store} (hl : u.limit = limit) (hu : u.live = .empty) :
    let key : StreamKey := ⟨number, stream, c.opened⟩
    Flow service fresh key
      ((Session.start (some key.text)).solo service fresh u (event :: more)).answers
      (s.record .streamStarted) more ((c.openStream stream (.event event)).strand c.opened) := by
  intro key
  have ha : s.live.get? ⟨key.text⟩ = none := ho.absent key rfl (Nat.le_refl _)
  have hn : u.live.get? ⟨key.text⟩ = none := by rw [hu]; rfl
  refine .running u [event] none (.start key (.event event)) ?_ ?_
  · refine ⟨hb, ?_, fun m => ?_, fun _ => hh, rfl, rfl, rfl, rfl, nofun, ?_⟩
    · have hk : c.number = number := ho.numbered
      simp [strand, openStream, Table.get?_insert_self ho.task_opened, hk, key]
    · refine ⟨fun hm => ?_, fun hm => ?_⟩
      · rcases Table.get?_insert_eq_some hm with hm | ⟨rfl, -⟩
        · exact absurd (ho.stream m _ hm) (Nat.lt_irrefl _)
        · exact ⟨rfl, rfl⟩
      · obtain ⟨rfl, -⟩ := hm
        exact Table.get?_insert_self hs _
    · refine ⟨(Session.owns_start ha).congr rfl, Session.owns_start hn, ho.limit.trans hl.symm, ?_⟩
      simp only [Store.content?, Store.live_record, ha, hn]
  · have hf : ((c.openStream stream (.event event)).strand c.opened).frames = [] :=
      ho.framesOf_opened
    rw [hf]
    rfl

end Flow

namespace Connection

variable {service : Service} {c : Connection} {s : Store} {number limit : Nat}

theorem Orderly.take (hp : service.correlation.preferIdentity = true)
    (h : c.Orderly number limit s) {m : Move} (hm : m.Spares number s) :
    (m.take service (c, s)).1.Orderly number limit (m.take service (c, s)).2 := by
  cases m with
  | act a => exact h.step hp a
  | around f => exact h.store hm.1 hm.2

/-- Once the writer is gone with all that was queued, nothing more is written. -/
theorem Silent.run (h : c.Silent) (service : Service) (s : Store) (moves : List Move) :
    (Move.run service (c, s) moves).1.Silent ∧
      (Move.run service (c, s) moves).1.written = c.written := by
  induction moves generalizing c s with
  | nil => exact ⟨h, rfl⟩
  | cons m rest ih =>
    cases m with
    | around f => exact ih h (f s)
    | act a =>
      obtain ⟨hs, hw⟩ := h.step service s a
      obtain ⟨hr, hv⟩ := ih hs (c.step service s a).2
      exact ⟨hr, hv.trans hw⟩

theorem orderly_start (maxStreams : Nat)
    (h : ∀ k : StreamKey, k.connection = number → s.live.get? ⟨k.text⟩ = none) :
    (start number maxStreams).Orderly number s.limit s where
  numbered := rfl
  limit := rfl
  stream _ _ := nofun
  task _ _ := nofun
  absent k hk _ := h k hk
  parcel _ := nofun
  quiet := nofun

namespace Move

variable {w : Connection × Store} {moves : List Move}

theorem orderly_run (hp : service.correlation.preferIdentity = true)
    (h : w.1.Orderly number limit w.2) (hm : Sparing service number w moves) :
    (run service w moves).1.Orderly number limit (run service w moves).2 := by
  induction moves generalizing w with
  | nil => exact h
  | cons m rest ih =>
    exact ih (h.take hp hm.1) hm.2

theorem opened_le_take (m : Move) : w.1.opened ≤ (m.take service w).1.opened := by
  cases m with
  | around f => exact Nat.le_refl _
  | act a =>
    rcases w.1.step_opens_or_not service w.2 a with h | ⟨stream, event, -, -, -, h⟩
    · exact Nat.le_of_eq h.symm
    · rw [take, h]
      exact Nat.le_succ _

theorem flow_run (hp : service.correlation.preferIdentity = true) {fresh : TransactionId}
    {key : StreamKey} {all : List Answer} (ho : w.1.Orderly key.connection limit w.2)
    (hg : key.generation < w.1.opened) (hm : Sparing service key.connection w moves)
    (h : Flow service fresh key all w.2 (addressed key.stream moves)
      (w.1.strand key.generation)) :
    Flow service fresh key all (run service w moves).2 []
        ((run service w moves).1.strand key.generation) ∨
      (run service w moves).1.Silent ∧
        framesOf key.generation (run service w moves).1.written <+: tagged key.stream all := by
  induction moves generalizing w with
  | nil => exact .inl h
  | cons m rest ih =>
    rcases h.take hp ho hg hm.1 with h | ⟨hs, hf⟩
    · exact ih (ho.take hp hm.1) (Nat.lt_of_lt_of_le hg (opened_le_take m)) hm.2 h
    · obtain ⟨hr, hw⟩ := hs.run service (m.take service w).2 rest
      exact .inr ⟨hr, by rw [run_cons, hw]; exact hf⟩

/-- The message that comes in after the given moves opens the stream of generation `g`. -/
structure Opens (service : Service) (w : Connection × Store) (before : List Move)
    (stream : UInt64) (event : Event) (g : Nat) : Prop where
  opened : (run service w before).1.opened = g
  hungUp : (run service w before).1.hungUp = false
  absent : (run service w before).1.streams.get? stream = none
  taken : (act (.frame (.message stream event))).take service (run service w before) =
    ((run service w before).1.openStream stream (.event event),
      (run service w before).2.record .streamStarted)

theorem Opens.run_append {before after : List Move} {stream : UInt64} {event : Event} {g : Nat}
    (h : Opens service w before stream event g) :
    run service w (before ++ act (.frame (.message stream event)) :: after) =
      run service ((run service w before).1.openStream stream (.event event),
        (run service w before).2.record .streamStarted) after := by
  rw [Move.run_append, run_cons, h.taken]

theorem opens_of_lt {g : Nat} (hl : w.1.opened ≤ g) (hg : g < (run service w moves).1.opened) :
    ∃ before stream event after, moves = before ++ act (.frame (.message stream event)) :: after ∧
      Opens service w before stream event g := by
  induction moves generalizing w with
  | nil => exact absurd hg (Nat.not_lt.mpr hl)
  | cons m rest ih =>
    by_cases hk : (m.take service w).1.opened ≤ g
    · obtain ⟨before, stream, event, after, rfl, h⟩ := ih hk hg
      exact ⟨m :: before, stream, event, after, rfl, ⟨h.opened, h.hungUp, h.absent, h.taken⟩⟩
    · cases m with
      | around f => exact absurd hl hk
      | act a =>
        rcases w.1.step_opens_or_not service w.2 a with h | ⟨stream, event, rfl, hh, hs, h⟩
        · exact absurd (h ▸ hl) hk
        · have hn : (w.1.openStream stream (.event event)).opened = w.1.opened + 1 := rfl
          rw [take, h, hn] at hk
          exact ⟨[], stream, event, rest, rfl, by simp only [run, List.foldl_nil]; omega, hh, hs, h⟩

end Move

/-- What a connection has written for a stream, and what the session of that stream answers to the
same events when it has a store of its own. -/
structure Served (service : Service) (fresh : TransactionId) (limit : Nat) (key : StreamKey)
    (events : List Event) (c : Connection) : Prop where
  answered : (Session.alone service fresh limit key.text events).result = .ok () ∧
    (Session.alone service fresh limit key.text events).answers.length = events.length
  written : framesOf key.generation c.written <+:
    (Session.alone service fresh limit key.text events).answers.map (.answer key.stream)
  complete : c.broken = false → c.queue = [] →
    (∀ t, c.tasks.get? key.generation = some t → t.inbox = [] ∧ t.outbox = []) →
      framesOf key.generation c.written =
        (Session.alone service fresh limit key.text events).answers.map (.answer key.stream)

namespace Served

variable {fresh : TransactionId} {key : StreamKey} {events : List Event} {u : Store}

theorem answered_alone (hp : service.correlation.preferIdentity = true) (fresh : TransactionId)
    (limit : Nat) (text : String) (events : List Event) :
    (Session.alone service fresh limit text events).result = .ok () ∧
      (Session.alone service fresh limit text events).answers.length = events.length :=
  Session.Owns.ending_solo hp (Session.owns_start rfl) fresh events

theorem of_silent (hp : service.correlation.preferIdentity = true) (hc : c.Silent)
    (hw : framesOf key.generation c.written <+:
      tagged key.stream (Session.alone service fresh limit key.text events).answers) :
    Served service fresh limit key events c where
  answered := answered_alone hp fresh limit key.text events
  written := hw
  complete hb := absurd hc.1 (by simp [hb])

theorem of_flow (hp : service.correlation.preferIdentity = true)
    (h : Flow service fresh key (Session.alone service fresh limit key.text events).answers u []
      (c.strand key.generation)) : Served service fresh limit key events c where
  answered := answered_alone hp fresh limit key.text events
  written := (c.written_prefix_frames key.generation).trans h.frames
  complete _ hq hi := by
    have hf := h.complete hi
    rwa [strand, hq, List.append_nil] at hf

end Served

open Move in
theorem served_of_opens (hp : service.correlation.preferIdentity = true) (fresh : TransactionId)
    {w : Connection × Store} {before after : List Move} {stream : UInt64} {event : Event} {g : Nat}
    (h : Opens service w before stream event g)
    (hw : w.1.Orderly number limit w.2)
    (hm : Sparing service number w (before ++ act (.frame (.message stream event)) :: after)) :
    Served service fresh limit ⟨number, stream, g⟩ (event :: addressed stream after)
      (run service w (before ++ act (.frame (.message stream event)) :: after)).1 := by
  obtain ⟨hb, -, hm⟩ := sparing_append.mp hm
  have hv := orderly_run hp hw hb
  rw [h.taken] at hm
  rw [h.run_append]
  obtain ⟨rfl, hh, hs, -⟩ := h
  generalize run service w before = v at hv hh hs hm
  have ho : (v.1.openStream stream (.event event)).Orderly number limit
      (v.2.record .streamStarted) := (hv.openStream stream _).store rfl fun _ _ => rfl
  -- A stream that opens when the writer is gone already has nothing written for it.
  cases hb : v.1.broken with
  | true =>
    have hc : (v.1.openStream stream (.event event)).Silent := ⟨hb, hv.quiet hb⟩
    obtain ⟨hr, hw⟩ := hc.run service (v.2.record .streamStarted) after
    have hn := hv.framesOf_opened
    rw [hv.quiet hb, List.append_nil] at hn
    refine .of_silent hp hr ?_
    rw [hw]
    exact hn ▸ List.nil_prefix
  | false =>
    have hf : Flow service fresh ⟨number, stream, v.1.opened⟩ _ _ (addressed stream after)
        ((v.1.openStream stream (.event event)).strand v.1.opened) :=
      Flow.start hv hb hh hs event (addressed stream after)
        (u := (Store.empty limit).record .streamStarted) rfl rfl
    have hg : v.1.opened < (v.1.openStream stream (.event event)).opened := Nat.lt_succ_self _
    rcases flow_run (w := (v.1.openStream stream (.event event), v.2.record .streamStarted)) hp ho
      hg hm hf with hf | ⟨hr, hw⟩
    · exact .of_flow hp hf
    · exact .of_silent hp hr hw

open Move in
/-- Whatever comes in and whoever takes the next step, every answer that was written belongs to a
stream that some message opened. What was written for a stream is a start of what its session
answers on its own to the messages that were addressed to it, and nothing is missing when nothing is
waiting and no write failed. -/
theorem written_as_alone (service : Service) (hp : service.correlation.preferIdentity = true)
    (number maxStreams : Nat) (s : Store)
    (hs : ∀ k : StreamKey, k.connection = number → s.live.get? ⟨k.text⟩ = none)
    (fresh : TransactionId) (moves : List Move)
    (hm : Sparing service number (start number maxStreams, s) moves) :
    let w := (start number maxStreams, s)
    let final := (run service w moves).1
    (∀ p ∈ final.written, (p.generation = none → ∃ n text, p.frame = .error n text) ∧
      ∀ g, p.generation = some g → g < final.opened) ∧
    ∀ g < final.opened, ∃ before stream event after,
      moves = before ++ act (.frame (.message stream event)) :: after ∧
      (run service w before).1.opened = g ∧
      (run service w (before ++ [act (.frame (.message stream event))])).1.opened = g + 1 ∧
      Served service fresh s.limit ⟨number, stream, g⟩ (event :: addressed stream after) final := by
  intro w final
  have hw : w.1.Orderly number s.limit w.2 := orderly_start maxStreams hs
  have hf : final.Orderly number s.limit (run service w moves).2 := orderly_run hp hw hm
  refine ⟨fun p hp => ?_, fun g hg => ?_⟩
  · obtain ⟨hg, he⟩ := hf.parcel p (List.mem_append_left _ hp)
    exact ⟨he, hg⟩
  · obtain ⟨before, stream, event, after, rfl, ho⟩ := opens_of_lt (Nat.zero_le g) hg
    refine ⟨before, stream, event, after, rfl, ho.opened, ?_, ?_⟩
    · rw [ho.run_append, ← ho.opened]
      rfl
    · exact served_of_opens hp fresh ho hw hm

open Move in
/-- Two streams take turns, the number of the second is used again after its end, and the store is
swept while an answer waits. -/
theorem written_of_two_numbers :
    let service : Service := ⟨⟨fun _ => .ok (.ofPairs [("x-seen", "yes")]), true, .skip⟩,
      ⟨true, "x-request-id"⟩⟩
    let fresh : TransactionId := ⟨"f"⟩
    let headers : Event := .headers .request ⟨[], false⟩
    let body : Event := .body .request ⟨[1, 2, 3], true⟩
    let moves : List Move :=
      [act (.frame (.message 1 headers)), act (.frame (.message 2 headers)), act (.work 1 fresh),
        act (.frame (.message 1 body)), act (.work 0 fresh), act (.forward 1),
        around fun s => s.advance 5, around fun s => (s.sweep 8).1, act (.work 0 fresh),
        act (.forward 0), act (.frame (.finish 2)), act (.frame (.message 2 headers)),
        act (.work 2 fresh), act (.forward 2), act (.forward 0), act (.work 1 fresh),
        act (.report 1), act (.reap 1), act .write, act .write, act .write, act .write]
    let w := (start 3 4, Store.empty 16)
    let final := (run service w moves).1
    (∀ k : StreamKey, k.connection = 3 → w.2.live.get? ⟨k.text⟩ = none) ∧
      Sparing service 3 w moves ∧ final.opened = 3 ∧
      final.written.map Parcel.generation = [some 1, some 0, some 2, some 0] ∧
      (∀ p ∈ final.written, (p.generation = none → ∃ n text, p.frame = .error n text) ∧
        ∀ g, p.generation = some g → g < final.opened) ∧
      ∀ g < final.opened, ∃ before stream event after,
        moves = before ++ act (.frame (.message stream event)) :: after ∧
        (run service w before).1.opened = g ∧
        (run service w (before ++ [act (.frame (.message stream event))])).1.opened = g + 1 ∧
        Served service fresh 16 ⟨3, stream, g⟩ (event :: addressed stream after) final := by
  intro service fresh headers body moves w final
  have hs : ∀ k : StreamKey, k.connection = 3 → w.2.live.get? ⟨k.text⟩ = none := fun _ _ => rfl
  have hm : Sparing service 3 w moves := by
    have he : ((run service w (moves.take 7)).2.sweep 8).2 = 0 := by decide +kernel
    simp only [moves, Sparing, Spares, true_and, and_true]
    exact ⟨spares_advance, spares_sweep he⟩
  have ho : final.opened = 3 := by decide +kernel
  have hw : final.written.map Parcel.generation = [some 1, some 0, some 2, some 0] := by
    decide +kernel
  exact ⟨hs, hm, ho, hw, written_as_alone service rfl 3 4 w.2 hs fresh moves hm⟩

end Connection

end BodyCallout
