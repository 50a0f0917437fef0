import BodyCallout.Proofs.Service.Changes
import BodyCallout.Service.Server

set_option autoImplicit false

namespace BodyCallout

structure Store.Vacates (s u : Store) : Prop where
  limit : u.limit = s.limit
  absent : ∀ id, s.live.get? id = none → u.live.get? id = none

namespace Store

variable {s u v : Store}

theorem Vacates.refl (s : Store) : s.Vacates s := ⟨rfl, fun _ h => h⟩

theorem Vacates.trans (h : s.Vacates u) (k : u.Vacates v) : s.Vacates v :=
  ⟨k.limit.trans h.limit, fun id hs => k.absent id (h.absent id hs)⟩

theorem vacates_sweep (s : Store) (idle : Nat) : s.Vacates (s.sweep idle).1 where
  limit := s.limit_evict _
  absent id h := by rw [sweep, get?_evict, h, Option.filter_none]

theorem vacates_finish (s : Store) (session : Session) : s.Vacates (session.finish s).2 where
  limit := session.limit_finish s
  absent id h := by
    rw [Session.get?_finish, h]
    split <;> rfl

theorem vacates_runTo (target : Nat) (w : Sweeper) (s : Store) :
    s.Vacates (w.runTo target s).2 := by
  fun_induction Sweeper.runTo target w s with
  | case1 w s ht time ih =>
    have hn : s.Vacates { s with now := time } := ⟨rfl, fun _ h => h⟩
    exact (hn.trans (vacates_sweep _ _)).trans ih
  | case2 w s ht => exact ⟨rfl, fun _ h => h⟩

theorem vacates_abandon (c : Connection) (s : Store) : s.Vacates (c.abandon s) := by
  unfold Connection.abandon
  induction c.tasks.entries generalizing s with
  | nil => exact .refl s
  | cons entry rest ih => exact (s.vacates_finish _).trans (ih _)

end Store

namespace Server

variable {s : Server} {n : Nat} {g : Handler}

theorem steps_induction {P : Server → Prop} (hp : ∀ s, P s → ∀ a, P (s.step a)) (h : P s)
    (acts : List Act) : P (s.steps acts) := by
  induction acts generalizing s with
  | nil => exact h
  | cons a rest ih => exact ih (hp s h a)

theorem step_on {a : Connection.Act} (ha : a ≠ .drain) (s : Server) (number : Nat) :
    s.step (.on number a) = s.withConnection number fun c store => c.step s.service store a := by
  cases a with
  | drain => exact absurd rfl ha
  | _ => rfl

section WithConnection

variable (s : Server) (number : Nat) (f : Connection → Store → Connection × Store)

theorem withConnection_eq :
    ∃ store handlers,
      s.withConnection number f = { s with store := store, handlers := handlers } := by
  unfold withConnection
  split <;> exact ⟨_, _, rfl⟩

theorem store_withConnection : (s.withConnection number f).store = s.store ∨
    ∃ h, s.handlers.get? number = some h ∧
      (s.withConnection number f).store = (f h.connection s.store).2 := by
  unfold withConnection
  split
  · exact .inl rfl
  · next h hh => exact .inr ⟨h, hh, rfl⟩

theorem get?_withConnection (hg : (s.withConnection number f).handlers.get? n = some g) :
    ∃ h, s.handlers.get? n = some h ∧ g.receiver = h.receiver ∧
      (g.connection = h.connection ∧ n ≠ number ∨ n = number ∧
        (g.connection, (s.withConnection number f).store) = f h.connection s.store) := by
  unfold withConnection at hg ⊢
  split at hg
  · next hn =>
    refine ⟨g, hg, rfl, .inl ⟨rfl, ?_⟩⟩
    rintro rfl
    cases hn.symm.trans hg
  · next h hh =>
    by_cases hn : n = number
    · subst hn
      rw [Table.get?_modify_self, hh] at hg
      obtain rfl := Option.some.inj hg
      exact ⟨h, hh, rfl, .inr ⟨rfl, rfl⟩⟩
    · rw [Table.get?_modify_of_ne _ hn] at hg
      exact ⟨g, hg, rfl, .inl ⟨rfl, hn⟩⟩

end WithConnection

theorem get?_on {act : Connection.Act} (hd : act ≠ .drain)
    (hg : (s.step (.on n act)).handlers.get? n = some g) :
    ∃ h, s.handlers.get? n = some h ∧ (g.connection, (s.step (.on n act)).store) =
      h.connection.step s.service s.store act := by
  rw [step_on hd] at hg ⊢
  obtain ⟨h, hh, -, ⟨-, hn⟩ | ⟨-, he⟩⟩ := get?_withConnection _ _ _ hg
  · exact absurd rfl hn
  · exact ⟨h, hh, he⟩

inductive Taken (s : Server) (a : Act) : Server → Prop where
  | aside (store : Store) (sweeper : Option Sweeper) (gate : Gate) (accepting : Bool)
      (shutdown : Broadcast) (hv : s.store.Vacates store)
      (ha : ∀ number act, a = .on number act → act = .drain) :
      Taken s a { s with
        store := store, sweeper := sweeper, gate := gate, accepting := accepting
        shutdown := shutdown }
  | joined (gate : Gate) (shutdown : Broadcast) (maxStreams receiver : Nat) (ha : a = .letIn) :
      Taken s a { s with
        gate := gate, roll := s.roll.enter.1, shutdown := shutdown
        handlers := s.handlers.insert s.roll.next ⟨.start s.roll.next maxStreams, receiver⟩ }
  | noticed (shutdown : Broadcast) (number : Nat) (ha : a = .notice number) :
      Taken s a (({ s with shutdown := shutdown }).withConnection number
        fun c store => (c.drain, store))
  | acted (number : Nat) (act : Connection.Act) (ha : a = .on number act) (hd : act ≠ .drain) :
      Taken s a (s.withConnection number fun c store => c.step s.service store act)
  | removed (store : Store) (number : Nat) (h : Handler) (hh : s.handlers.get? number = some h)
      (hv : s.store.Vacates store) (ha : ∀ number act, a ≠ .on number act) :
      Taken s a ({ s with store := store }.remove number h)

theorem taken_step (s : Server) (a : Act) : s.Taken a (s.step a) := by
  have same (ha : ∀ number act, a = .on number act → act = .drain) : s.Taken a s :=
    .aside s.store s.sweeper s.gate s.accepting s.shutdown (.refl _) ha
  cases a with
  | arrive => exact .aside _ _ _ _ _ (.refl _) nofun
  | letIn =>
    rw [step, letIn]
    split
    · exact .joined _ _ _ _ rfl
    · exact same nofun
  | trigger => exact .aside _ _ _ _ _ (.refl _) nofun
  | closeGate =>
    rw [step, closeGate]
    split
    · exact .aside _ _ _ _ _ (.refl _) nofun
    · exact same nofun
  | notice number =>
    rw [step, notice]
    split
    · exact same nofun
    · split
      · exact same nofun
      · split
        · exact same nofun
        · exact .noticed _ _ rfl
  | on number act =>
    by_cases ha : act = .drain
    · subst ha
      exact same fun _ _ he => by cases he; rfl
    · rw [step_on ha]
      exact .acted number act rfl ha
  | dismiss number =>
    rw [step, dismiss]
    split
    · exact same nofun
    · next h hh =>
      split
      · exact .removed s.store number h hh (.refl _) nofun
      · exact same nofun
  | cut number =>
    rw [step, cut]
    split
    · next h _ hh => exact .removed _ number h hh (Store.vacates_abandon _ _) nofun
    · exact same nofun
  | pass time =>
    rw [step, pass]
    split
    · exact .aside _ _ _ _ _ ⟨rfl, fun _ h => h⟩ nofun
    · exact .aside _ _ _ _ _ (Store.vacates_runTo _ _ _) nofun

section Taken

variable {a : Act} {t : Server} (h : s.Taken a t)
include h

/-- No step changes what the sessions share. No number is given back, and one at most is given. -/
theorem Taken.kept : t.service = s.service ∧
    s.roll.next ≤ t.roll.next ∧ t.roll.next ≤ s.roll.next + 1 := by
  cases h with
  | aside => exact ⟨rfl, Nat.le_refl _, Nat.le_succ _⟩
  | joined => exact ⟨rfl, Nat.le_succ _, Nat.le_refl _⟩
  | noticed shutdown number =>
    obtain ⟨store, handlers, he⟩ := ({ s with shutdown := shutdown } : Server).withConnection_eq
      number fun c store => (c.drain, store)
    rw [he]
    exact ⟨rfl, Nat.le_refl _, Nat.le_succ _⟩
  | acted number act =>
    obtain ⟨store, handlers, he⟩ :=
      s.withConnection_eq number fun c store => c.step s.service store act
    rw [he]
    exact ⟨rfl, Nat.le_refl _, Nat.le_succ _⟩
  | removed => exact ⟨rfl, Nat.le_refl _, Nat.le_succ _⟩

theorem Taken.store : s.store.Vacates t.store ∨ ∃ number h act, a = .on number act ∧ act ≠ .drain ∧
    s.handlers.get? number = some h ∧
    t.store = (h.connection.step s.service s.store act).2 := by
  cases h with
  | aside _ _ _ _ _ hv => exact .inl hv
  | joined => exact .inl (.refl _)
  | noticed shutdown number =>
    rcases ({ s with shutdown := shutdown } : Server).store_withConnection number
      fun c store => (c.drain, store) with he | ⟨h, -, he⟩
    · exact .inl (by rw [he]; exact .refl _)
    · exact .inl (by rw [he]; exact .refl _)
  | acted number act ha hd =>
    rcases s.store_withConnection number fun c store => c.step s.service store act
      with he | ⟨h, hh, he⟩
    · exact .inl (by rw [he]; exact .refl _)
    · exact .inr ⟨number, h, act, ha, hd, hh, he⟩
  | removed _ _ _ _ hv => exact .inl hv

/-- A connection comes in, or takes a step of its own, or goes on as before, draining maybe. -/
theorem Taken.handler (hg : t.handlers.get? n = some g) :
    (n = s.roll.next ∧ n < t.roll.next ∧ ∃ maxStreams, g.connection = .start n maxStreams) ∨
    ∃ k, s.handlers.get? n = some k ∧
      ((∃ act, a = .on n act ∧ act ≠ .drain ∧
          (g.connection, t.store) = k.connection.step s.service s.store act) ∨
        (g.connection = k.connection ∨ g.connection = k.connection.drain) ∧
          ∀ act, a = .on n act → act = .drain) := by
  cases h with
  | aside _ _ _ _ _ _ ha => exact .inr ⟨g, hg, .inr ⟨.inl rfl, ha n⟩⟩
  | joined _ _ maxStreams receiver ha =>
    rcases Table.get?_insert_eq_some hg with hg | ⟨rfl, rfl⟩
    · exact .inr ⟨g, hg, .inr ⟨.inl rfl, by simp [ha]⟩⟩
    · exact .inl ⟨rfl, Nat.lt_succ_self _, maxStreams, rfl⟩
  | noticed shutdown number ha =>
    obtain ⟨k, hk, -, ⟨he, -⟩ | ⟨-, he⟩⟩ := get?_withConnection _ _ _ hg
    · exact .inr ⟨k, hk, .inr ⟨.inl he, by simp [ha]⟩⟩
    · exact .inr ⟨k, hk, .inr ⟨.inr (Prod.mk.inj he).1, by simp [ha]⟩⟩
  | acted number act ha hd =>
    obtain ⟨k, hk, -, ⟨he, hn⟩ | ⟨rfl, he⟩⟩ := get?_withConnection _ _ _ hg
    · refine .inr ⟨k, hk, .inr ⟨.inl he, fun other ho => ?_⟩⟩
      rw [ha] at ho
      cases ho
      exact absurd rfl hn
    · exact .inr ⟨k, hk, .inl ⟨act, ha, hd, he⟩⟩
  | removed store number k hk _ ha =>
    have hg := (Table.get?_erase_eq_some.mp hg).2
    exact .inr ⟨g, hg, .inr ⟨.inl rfl, fun act he => absurd he (ha n act)⟩⟩

end Taken

end Server

end BodyCallout
