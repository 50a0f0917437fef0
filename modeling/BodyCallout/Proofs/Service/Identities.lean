import BodyCallout.Proofs.Service.Demultiplexing
import BodyCallout.Proofs.Service.Serving

/-!
No two streams of a server are opened with the same identity, whatever its connections do and in
whatever order, so that where transactions get their ids from their streams no id is taken when a
stream asks for it.
-/

set_option autoImplicit false

namespace BodyCallout

theorem Session.Owns.vacated {session : Session} {text : String} {s u : Store}
    (h : session.Owns text s) (hv : s.Vacates u) : session.Owns text u :=
  ⟨h.identity, h.current.imp_left fun ⟨hc, ha⟩ => ⟨hc, hv.absent _ ha⟩⟩

theorem Session.Owns.begin {service : Service} (hp : service.correlation.preferIdentity = true)
    {session : Session} {text : String} {s : Store} (h : session.Owns text s) (part : HeaderPart)
    (fresh : TransactionId) : (session.begin service part fresh s).2.2 = .ok () := by
  have hi : (session.finish s).1.identity = some text := by
    rw [Session.fst_finish]
    exact h.identity
  have ha := Correlation.assign_of_identity hp text part fresh h.absent_finish
  simp only [Session.begin, hi, ha]

/-- A session that owns its name is not failed for a name that was taken. -/
theorem StreamTask.stage_work {service : Service}
    (hp : service.correlation.preferIdentity = true) {t : StreamTask} {text : String} {s : Store}
    (h : t.session.Owns text s) (fresh : TransactionId) :
    (t.work service fresh s).1.stage = t.stage ∨ (t.work service fresh s).1.stage = .ended none ∨
      (t.work service fresh s).1.stage = .ended (some .outboundClosed) := by
  unfold StreamTask.work
  split
  · next event rest _ _ =>
    obtain ⟨next, u, a, hh, -⟩ := h.answers hp event fresh
    simp only [hh]
    split
    · exact .inl rfl
    · exact .inr (.inr rfl)
  · exact .inr (.inl rfl)
  · exact .inl rfl

namespace Connection

theorem Orderly.vacated {number limit : Nat} {c : Connection} {s u : Store}
    (h : c.Orderly number limit s) (hv : s.Vacates u) : c.Orderly number limit u where
  numbered := h.numbered
  limit := hv.limit.trans h.limit
  stream := h.stream
  task g t ht := by
    obtain ⟨ho, hn, hg, hs⟩ := h.task g t ht
    exact ⟨ho, hn, hg, hs.vacated hv⟩
  absent k hk hg := hv.absent _ (h.absent k hk hg)
  parcel := h.parcel
  quiet := h.quiet

def Unfailed (c : Connection) : Prop :=
  ∀ g t, c.tasks.get? g = some t → ∀ d, t.stage ≠ .ended (some (.duplicate d))

theorem Unfailed.step {number limit : Nat} {service : Service} {c : Connection} {s : Store}
    (h : c.Unfailed) (hp : service.correlation.preferIdentity = true)
    (ho : c.Orderly number limit s) (a : Act) : (c.step service s a).1.Unfailed := by
  intro g u hu d
  cases change_step hu with
  | opened => nofun
  | told t items ht => exact h g t ht d
  | worked t fresh ht =>
    obtain ⟨-, -, -, hs⟩ := ho.task g t ht
    rcases StreamTask.stage_work hp hs fresh with hw | hw | hw
    · exact hw ▸ h g t ht d
    · exact hw ▸ nofun
    · exact hw ▸ nofun
  | forwarded t answer rest ht => exact h g t ht d
  | cutOff t ht => exact h g t ht d
  | reported => nofun

end Connection

namespace Server

/-- The stream that a step opens, as its connection files it. -/
def opened? (s : Server) (a : Act) : Option StreamTask :=
  match a with
  | .on number (.frame (.message stream _)) =>
    match s.handlers.get? number, (s.step a).handlers.get? number with
    | some before, some after =>
      match before.connection.streams.get? stream, after.connection.streams.get? stream with
      | none, some generation => after.connection.tasks.get? generation
      | _, _ => none
    | _, _ => none
  | _ => none

def openings (s : Server) : List Act → List StreamTask
  | [] => []
  | a :: rest => (s.opened? a).toList ++ (s.step a).openings rest

/-- A number that was given to a connection names that one for good. -/
structure Numbered (s : Server) : Prop where
  given : ∀ n h, s.handlers.get? n = some h → n < s.roll.next
  filed : ∀ n h, s.handlers.get? n = some h → h.connection.Filed n

/-- A key that no stream can be opened with any more. -/
def Used (s : Server) (k : StreamKey) : Prop :=
  k.connection < s.roll.next ∧
    ∀ h, s.handlers.get? k.connection = some h → k.generation < h.connection.opened

variable {s : Server} {k : StreamKey} {a : Act} {n m : Nat} {g h : Handler} {t u : StreamTask}

theorem Numbered.step (hs : s.Numbered) (a : Act) : (s.step a).Numbered where
  given n g hg := by
    rcases (s.taken_step a).handler hg with ⟨-, hn, -⟩ | ⟨h, hh, -⟩
    · exact hn
    · exact Nat.lt_of_lt_of_le (hs.given n h hh) (s.taken_step a).kept.2.1
  filed n g hg := by
    rcases (s.taken_step a).handler hg with ⟨-, -, max, he⟩ | ⟨h, hh, ⟨act, -, -, he⟩ | ⟨he, -⟩⟩
    · exact he ▸ Connection.filed_start n max
    · have hf := (hs.filed n h hh).step s.service s.store act
      rw [← he] at hf
      exact hf
    · have hf := hs.filed n h hh
      rcases he with he | he
      · exact he ▸ hf
      · exact he ▸ hf.step s.service s.store .drain

/-- A connection comes in with no stream opened, or has opened at most one more. -/
theorem opened_step (hg : (s.step a).handlers.get? n = some g) :
    n = s.roll.next ∧ g.connection.opened = 0 ∨
      ∃ h, s.handlers.get? n = some h ∧ h.connection.opened ≤ g.connection.opened ∧
        g.connection.opened ≤ h.connection.opened + 1 := by
  rcases (s.taken_step a).handler hg with ⟨hn, -, max, he⟩ | ⟨h, hh, ⟨act, -, -, he⟩ | ⟨he, -⟩⟩
  · exact .inl ⟨hn, by rw [he]; rfl⟩
  · have hc : g.connection = (h.connection.step s.service s.store act).1 := congrArg Prod.fst he
    rw [hc]
    exact .inr ⟨h, hh, Connection.opened_le_step _ _ _ _, Connection.opened_step_le _ _ _ _⟩
  · have ho : g.connection.opened = h.connection.opened := by
      rcases he with he | he
      · rw [he]
      · rw [he]
        rfl
    exact .inr ⟨h, hh, Nat.le_of_eq ho.symm, Nat.le_succ_of_le (Nat.le_of_eq ho)⟩

theorem Used.step (hk : s.Used k) (a : Act) : (s.step a).Used k := by
  refine ⟨Nat.lt_of_lt_of_le hk.1 (s.taken_step a).kept.2.1, fun g hg => ?_⟩
  rcases opened_step hg with ⟨hn, -⟩ | ⟨h, hh, hl, -⟩
  · exact absurd hn (Nat.ne_of_lt hk.1)
  · exact Nat.lt_of_lt_of_le (hk.2 h hh) hl

/-- A stream is opened under the next generation of its connection. -/
theorem Numbered.of_opened? (hs : s.Numbered) (ht : s.opened? a = some t) :
    ∃ h event, s.handlers.get? t.key.connection = some h ∧
      t = .start ⟨t.key.connection, t.key.stream, h.connection.opened⟩ (.event event) ∧
      ∀ g, (s.step a).handlers.get? t.key.connection = some g →
        g.connection.opened = h.connection.opened + 1 := by
  unfold opened? at ht
  split at ht
  · next number stream event =>
    split at ht
    · next before after hb hg =>
      split at ht
      · next generation hn hm =>
        have hd : Connection.Act.frame (.message stream event) ≠ .drain := by simp
        obtain ⟨h, hh, he⟩ := get?_on hd hg
        obtain rfl : h = before := Option.some.inj (hh.symm.trans hb)
        have hf := hs.filed number h hh
        have hc : after.connection = (h.connection.step s.service s.store _).1 :=
          congrArg Prod.fst he
        rcases h.connection.step_cases s.service s.store (.frame (.message stream event)) with
          ⟨m, e, ha, hn, ho⟩ | ⟨m, fresh, ha⟩ | hw
        · cases ha
          rw [hc, ho] at hm ht
          have hi := Table.get?_insert_self hn h.connection.opened
          obtain rfl : _ = generation := Option.some.inj (hi.symm.trans hm)
          have hk := Table.get?_insert_self hf.absent_opened
            (.start ⟨h.connection.number, stream, h.connection.opened⟩ (.event event))
          obtain rfl := Option.some.inj (hk.symm.trans ht)
          rw [hf.numbered]
          refine ⟨h, event, hh, rfl, fun g hk => ?_⟩
          obtain rfl : after = g := Option.some.inj (hg.symm.trans hk)
          rw [hc, ho]
          rfl
        · cases ha
        · rw [hc] at hm
          cases hn.symm.trans (hw.streams stream generation hm)
      · cases ht
    · cases ht
  · cases ht

section Opened

variable (hs : s.Numbered) (ht : s.opened? a = some t)
include hs ht

theorem not_used_of_opened? : ¬ s.Used t.key := by
  obtain ⟨h, event, hh, he, -⟩ := hs.of_opened? ht
  intro hu
  have hl := hu.2 h hh
  rw [he] at hl
  exact Nat.lt_irrefl _ hl

theorem used_of_opened? : (s.step a).Used t.key := by
  obtain ⟨h, event, hh, he, hg⟩ := hs.of_opened? ht
  refine ⟨Nat.lt_of_lt_of_le (hs.given _ h hh) (s.taken_step a).kept.2.1, fun g hk => ?_⟩
  rw [hg g hk, he]
  exact Nat.lt_succ_self _

theorem identity_of_opened? : t.session.identity = some t.key.text := by
  obtain ⟨h, event, -, he, -⟩ := hs.of_opened? ht
  rw [he]
  rfl

end Opened

theorem task_step (hg : (s.step a).handlers.get? n = some g)
    (hu : g.connection.tasks.get? m = some u) :
    (∃ h t, s.handlers.get? n = some h ∧ h.connection.tasks.get? m = some t ∧ u.key = t.key) ∨
      s.opened? a = some u := by
  rcases (s.taken_step a).handler hg with ⟨-, -, max, he⟩ | ⟨h, hh, ⟨act, rfl, hd, he⟩ | ⟨he, -⟩⟩
  · rw [he] at hu
    cases hu
  · have hc : g.connection = (h.connection.step s.service s.store act).1 := congrArg Prod.fst he
    have hv := hu
    rw [hc] at hv
    rcases (Connection.change_step hv).opens_or_keeps with
      ⟨stream, event, rfl, hn, rfl, ho⟩ | ⟨t, ht, hk, -⟩
    · right
      have hm : g.connection.streams.get? stream = some h.connection.opened := by
        rw [hc, ho]
        exact Table.get?_insert_self hn _
      simp [opened?, hh, hg, hn, hm, hu]
    · exact .inl ⟨h, t, hh, ht, hk⟩
  · have ht : g.connection.tasks = h.connection.tasks := by
      rcases he with he | he
      · rw [he]
      · rw [he]
        rfl
    rw [ht] at hu
    exact .inl ⟨h, u, hh, hu, rfl⟩

theorem Numbered.steps (hs : s.Numbered) (acts : List Act) : (s.steps acts).Numbered :=
  steps_induction (fun _ => Numbered.step) hs acts

/-- What is opened in a run was not opened before. -/
theorem Numbered.openings (hs : s.Numbered) (acts : List Act) :
    (∀ t ∈ s.openings acts, t.session.identity = some t.key.text ∧ ¬ s.Used t.key) ∧
      ((s.openings acts).map StreamTask.key).Nodup := by
  induction acts generalizing s with
  | nil => exact ⟨nofun, List.nodup_nil⟩
  | cons a rest ih =>
    obtain ⟨hr, hn⟩ := ih (hs.step a)
    have later : ∀ t ∈ (s.step a).openings rest,
        t.session.identity = some t.key.text ∧ ¬ s.Used t.key := fun t ht =>
      ⟨(hr t ht).1, fun hu => (hr t ht).2 (hu.step a)⟩
    rw [Server.openings]
    cases ho : s.opened? a with
    | none => exact ⟨later, hn⟩
    | some t =>
      refine ⟨fun u hu => ?_, List.nodup_cons.mpr ⟨fun hm => ?_, hn⟩⟩
      · rcases List.mem_cons.mp hu with rfl | hu
        · exact ⟨identity_of_opened? hs ho, not_used_of_opened? hs ho⟩
        · exact later u hu
      · obtain ⟨u, hu, hk⟩ := List.mem_map.mp hm
        exact (hr u hu).2 (hk ▸ used_of_opened? hs ho)

theorem task_steps (acts : List Act)
    (hg : (s.steps acts).handlers.get? n = some g) (hu : g.connection.tasks.get? m = some u) :
    (∃ h t, s.handlers.get? n = some h ∧ h.connection.tasks.get? m = some t ∧ u.key = t.key) ∨
      ∃ t ∈ s.openings acts, u.key = t.key := by
  induction acts generalizing s with
  | nil => exact .inl ⟨g, u, hg, hu, rfl⟩
  | cons a rest ih =>
    rcases ih hg with ⟨h, t, hh, ht, hk⟩ | ⟨t, ht, hk⟩
    · rcases task_step hh ht with ⟨h, v, hh, hv, hj⟩ | ho
      · exact .inl ⟨h, v, hh, hv, hk.trans hj⟩
      · exact .inr ⟨t, by simp [Server.openings, ho], hk⟩
    · exact .inr ⟨t, List.mem_append_right _ ht, hk⟩

/-- Neither the connections nor the streams of any of them were more than `count`. -/
structure Counted (count : Nat) (s : Server) : Prop where
  connections : s.roll.next ≤ count
  streams : ∀ n h, s.handlers.get? n = some h → h.connection.opened ≤ count

section Counted

variable {count : Nat}

theorem Counted.step (hs : s.Counted count) (a : Act) : (s.step a).Counted (count + 1) where
  connections := Nat.le_trans (s.taken_step a).kept.2.2 (Nat.succ_le_succ hs.connections)
  streams n g hg := by
    rcases opened_step hg with ⟨-, ho⟩ | ⟨h, hh, -, hl⟩
    · exact ho ▸ Nat.zero_le _
    · exact Nat.le_trans hl (Nat.succ_le_succ (hs.streams n h hh))

theorem Counted.steps (hs : s.Counted count) (acts : List Act) :
    (s.steps acts).Counted (count + acts.length) := by
  induction acts generalizing s count with
  | nil => exact hs
  | cons a rest ih =>
    have hr := ih (hs.step a)
    rwa [Nat.add_right_comm] at hr

theorem Counted.openings (hc : s.Counted count) (hs : s.Numbered) (acts : List Act) :
    ∀ t ∈ s.openings acts,
      t.key.connection < count + acts.length ∧ t.key.generation < count + acts.length := by
  induction acts generalizing s count with
  | nil => nofun
  | cons a rest ih =>
    intro t ht
    rcases List.mem_append.mp ht with ht | ht
    · obtain ⟨h, event, hh, he, -⟩ := hs.of_opened? (Option.mem_toList.mp ht)
      have hn := hs.given _ h hh
      have ho := hc.streams _ h hh
      have hr := hc.connections
      have hg : t.key.generation = h.connection.opened := congrArg (·.key.generation) he
      rw [List.length_cons]
      omega
    · have hr := ih (hc.step a) (hs.step a) t ht
      rwa [Nat.add_right_comm] at hr

end Counted

/-- Every connection is in order on the common store, and the names of those to come are free. -/
structure Peaceful (s : Server) : Prop extends s.Numbered where
  prefers : s.service.correlation.preferIdentity = true
  orderly : ∀ n h, s.handlers.get? n = some h → h.connection.Orderly n s.store.limit s.store
  unfailed : ∀ n h, s.handlers.get? n = some h → h.connection.Unfailed
  absent : ∀ k : StreamKey, s.roll.next ≤ k.connection → s.store.live.get? ⟨k.text⟩ = none

namespace Peaceful

/-- Where a connection does nothing itself, its names are left alone or some of them are freed. -/
theorem beside (hs : s.Peaceful) (a : Act)
    (hn : ∀ h act, s.handlers.get? n = some h → a = .on n act → act = .drain) :
    s.store.Vacates (s.step a).store ∨ (s.step a).store.limit = s.store.limit ∧
      ∀ k : StreamKey, k.connection = n →
        (s.step a).store.live.get? ⟨k.text⟩ = s.store.live.get? ⟨k.text⟩ := by
  rcases (s.taken_step a).store with hv | ⟨m, h, act, ha, hd, hh, he⟩
  · exact .inl hv
  · have hm : n ≠ m := by
      rintro rfl
      exact hd (hn h act hh ha)
    have hr := Connection.Move.spares_step hs.prefers hm (hs.orderly m h hh) act
    rw [he]
    exact .inr hr

theorem absent_step (hs : s.Peaceful) (a : Act) (hk : s.roll.next ≤ k.connection) :
    (s.step a).store.live.get? ⟨k.text⟩ = none := by
  have hn (h : Handler) (act : Connection.Act) (hh : s.handlers.get? k.connection = some h) :
      a = .on k.connection act → act = .drain := fun _ =>
    absurd (hs.given _ h hh) (Nat.not_lt_of_le hk)
  rcases hs.beside a hn with hv | ⟨-, he⟩
  · exact hv.absent _ (hs.absent k hk)
  · exact (he k rfl).trans (hs.absent k hk)

theorem orderly_step (hs : s.Peaceful) (a : Act) (hg : (s.step a).handlers.get? n = some g) :
    g.connection.Orderly n (s.step a).store.limit (s.step a).store := by
  rcases (s.taken_step a).handler hg with ⟨hn, -, max, he⟩ | ⟨h, hh, ⟨act, -, -, he⟩ | ⟨he, hd⟩⟩
  · rw [he]
    refine Connection.orderly_start max fun k hk => hs.absent_step a ?_
    exact Nat.le_of_eq (hk.trans hn).symm
  · have ho := (hs.orderly n h hh).step hs.prefers act
    rw [← he] at ho
    have hl : (s.step a).store.limit = s.store.limit := ho.limit
    rw [hl]
    exact ho
  · have hc : g.connection.Orderly n s.store.limit s.store := by
      rcases he with he | he
      · exact he ▸ hs.orderly n h hh
      · exact he ▸ (hs.orderly n h hh).within { Connection.Within.refl h.connection with }
    rcases hs.beside a fun _ act _ ha => hd act ha with hv | ⟨hl, hk⟩
    · exact hv.limit ▸ hc.vacated hv
    · exact hl ▸ hc.store hl hk

theorem step (hs : s.Peaceful) (a : Act) : (s.step a).Peaceful where
  toNumbered := hs.toNumbered.step a
  prefers := (s.taken_step a).kept.1 ▸ hs.prefers
  orderly _ _ hg := hs.orderly_step a hg
  unfailed n g hg := by
    rcases (s.taken_step a).handler hg with ⟨-, -, max, he⟩ | ⟨h, hh, ⟨act, -, -, he⟩ | ⟨he, -⟩⟩
    · rw [he]
      exact nofun
    · have hf := (hs.unfailed n h hh).step hs.prefers (hs.orderly n h hh) act
      rw [← he] at hf
      exact hf
    · rcases he with he | he
      · exact he ▸ hs.unfailed n h hh
      · rw [he]
        exact hs.unfailed n h hh
  absent _ hk := hs.absent_step a (Nat.le_trans (s.taken_step a).kept.2.1 hk)

theorem steps (hs : s.Peaceful) (acts : List Act) : (s.steps acts).Peaceful :=
  steps_induction (fun _ => step) hs acts

end Peaceful

section Start

variable {settings : Settings} {builder : Builder} {now : Nat}
  (hb : start? settings builder now = some s)
include hb

theorem numbered_start : s.Numbered := by
  obtain ⟨gate, -, rfl⟩ := Option.map_eq_some_iff.mp hb
  exact ⟨nofun, nofun⟩

theorem peaceful_start (hp : settings.correlation.preferIdentity = true) : s.Peaceful := by
  have hn := numbered_start hb
  obtain ⟨gate, -, rfl⟩ := Option.map_eq_some_iff.mp hb
  exact ⟨hn, hp, nofun, nofun, fun _ _ => rfl⟩

theorem handlers_start (n : Nat) : s.handlers.get? n = none := by
  obtain ⟨gate, -, rfl⟩ := Option.map_eq_some_iff.mp hb
  rfl

/-- All that is counted is counted in words of 64 bits, which a run of fewer steps does not use up. -/
theorem counters_fit {acts : List Act} (hl : acts.length + 1 < UInt64.size) :
    (s.steps acts).roll.next < UInt64.size ∧
    (∀ n h, (s.steps acts).handlers.get? n = some h → h.connection.opened < UInt64.size) ∧
    ∀ t ∈ s.openings acts,
      t.key.connection < UInt64.size ∧ t.key.generation < UInt64.size := by
  have hn := numbered_start hb
  have hc : s.Counted 1 := by
    obtain ⟨gate, -, rfl⟩ := Option.map_eq_some_iff.mp hb
    exact ⟨Nat.le_refl 1, nofun⟩
  obtain ⟨hr, ho⟩ := hc.steps acts
  rw [Nat.add_comm] at hl
  refine ⟨Nat.lt_of_le_of_lt hr hl, fun n h hh => Nat.lt_of_le_of_lt (ho n h hh) hl, ?_⟩
  intro t ht
  obtain ⟨hk, hg⟩ := hc.openings hn acts t ht
  exact ⟨Nat.lt_trans hk hl, Nat.lt_trans hg hl⟩

/-- Two streams never have the same identity, and every stream keeps the one it was opened with. If
ids are taken from identities, a stream can have its id whenever it begins a transaction, and none is
failed because it could not. -/
theorem identities_apart (acts : List Act) :
    Function.Injective StreamKey.text ∧
    (∀ t ∈ s.openings acts, t.session.identity = some t.key.text) ∧
    ((s.openings acts).map fun t => t.session.identity).Nodup ∧
    ∀ n h g t, (s.steps acts).handlers.get? n = some h → h.connection.tasks.get? g = some t →
      t.session.identity = some t.key.text ∧ (∃ o ∈ s.openings acts, t.key = o.key) ∧
      (settings.correlation.preferIdentity = true →
        (∀ part fresh,
          (t.session.begin (s.steps acts).service part fresh (s.steps acts).store).2.2 = .ok ()) ∧
        ∀ d, t.stage ≠ .ended (some (.duplicate d))) := by
  have hn := numbered_start hb
  obtain ⟨ho, hk⟩ := hn.openings acts
  refine ⟨StreamKey.text_injective, fun t ht => (ho t ht).1, ?_, fun n h g t hh ht => ⟨?_, ?_, ?_⟩⟩
  · have he : ((s.openings acts).map fun t => t.session.identity) =
        ((s.openings acts).map StreamTask.key).map fun k => some k.text := by
      rw [List.map_map]
      exact List.map_congr_left fun t ht => (ho t ht).1
    rw [he]
    exact List.Pairwise.map _ (fun j k hj he => hj (StreamKey.text_injective (Option.some.inj he))) hk
  · exact (((hn.steps acts).filed n h hh).task g t ht).2.2.2.1
  · rcases task_steps acts hh ht with ⟨k, _, hc, -⟩ | hm
    · cases (handlers_start hb n).symm.trans hc
    · exact hm
  · intro hp
    have hq := (peaceful_start hb hp).steps acts
    obtain ⟨-, -, -, hs⟩ := (hq.orderly n h hh).task g t ht
    exact ⟨fun part fresh => hs.begin hq.prefers part fresh, hq.unfailed n h hh g t ht⟩

end Start

/-- Both clients use number 7. The first gives it up and uses it again, and its new stream begins
before the old one is done; then it sends its request headers twice. After all transactions were
evicted, either stream begins another. -/
theorem identities_of_two_connections :
    let fresh : TransactionId := ⟨"f"⟩
    let headers : Event := .headers .request ⟨[], false⟩
    let acts : List Act :=
      [.arrive, .arrive, .letIn, .letIn, .on 1 (.frame (.message 7 headers)),
        .on 2 (.frame (.message 7 headers)), .on 1 (.work 0 fresh), .on 2 (.work 0 fresh),
        .on 1 (.frame (.finish 7)), .on 1 (.frame (.message 7 headers)),
        .on 1 (.frame (.message 7 headers)), .on 1 (.work 1 fresh), .on 1 (.work 1 fresh),
        .pass (1000 * second)]
    ∃ s h t, start? {} Classifier.builder 0 = some s ∧
      (s.openings acts).map (fun t => t.session.identity) =
        [some "conn-1/7.0", some "conn-2/7.0", some "conn-1/7.1"] ∧
      ((s.openings acts).map fun t => t.session.identity).Nodup ∧
      (s.steps acts).handlers.get? 1 = some h ∧ h.connection.tasks.get? 1 = some t ∧
      t.session.current = some ⟨"conn-1/7.1"⟩ ∧
      ∀ part, (t.session.begin (s.steps acts).service part fresh (s.steps acts).store).2.2 =
        .ok () := by
  intro fresh headers acts
  let s := (start? {} Classifier.builder 0).get rfl
  have hs : start? {} Classifier.builder 0 = some s := rfl
  have ho : (s.openings acts).map (fun t => t.session.identity) =
      [some "conn-1/7.0", some "conn-2/7.0", some "conn-1/7.1"] := by decide +kernel
  have hh : ((s.steps acts).handlers.get? 1).bind (fun h => (h.connection.tasks.get? 1).map
      fun t => t.session.current) = some (some ⟨"conn-1/7.1"⟩) := by decide +kernel
  obtain ⟨h, hh, ht⟩ := Option.bind_eq_some_iff.mp hh
  obtain ⟨t, ht, hc⟩ := Option.map_eq_some_iff.mp ht
  obtain ⟨-, -, hd, ha⟩ := identities_apart hs acts
  obtain ⟨-, -, hb⟩ := ha 1 h 1 t hh ht
  exact ⟨s, h, t, hs, ho, hd, hh, ht, hc, fun part => (hb rfl).1 part fresh⟩

end Server

end BodyCallout
