import BodyCallout.Proofs.Settings.Validity
import BodyCallout.Service.Server

set_option autoImplicit false

namespace BodyCallout

namespace Settings

variable {s : Settings}

theorem eq_of_check {t : Settings} (h : s.check = .ok t) : t = s := by
  unfold check at h
  split at h
  · exact (Except.ok.inj h).symm
  · cases h

theorem kept_of_check (h : s.check = .ok s) (r : Rule) : ¬ r.BrokenBy s := fun hr => by
  rw [check_of_broken hr] at h
  cases h

theorem check_of_ofToml {text : List Char} (h : ofToml text = .ok s) : s.check = .ok s := by
  unfold ofToml at h
  split at h
  · cases h
  · split at h
    · rwa [← eq_of_check h] at h
    · cases h
    · cases h

end Settings

theorem Gate.ofSlots?_of_le {slots : Nat} (h : slots ≤ maxSlots) : ofSlots? slots = some ⟨slots, 0⟩ :=
  if_pos h

theorem Gate.ofSlots?_of_lt {slots : Nat} (h : maxSlots < slots) : ofSlots? slots = none :=
  if_neg (Nat.not_le.mpr h)

theorem Sweeper.start?_of_lt {grain idle interval now : Nat} (hi : 0 < interval)
    (h : now + interval < timeLimit) :
    start? grain idle interval now = some (start grain idle interval now) :=
  if_neg (by omega)

theorem Sweeper.start?_of_le {grain idle interval now : Nat} (h : timeLimit ≤ now + interval) :
    start? grain idle interval now = none :=
  if_pos (.inr h)

namespace Server

theorem start?_of_lt {s : Settings} (h : Gate.maxSlots < s.listener.maxConnections.toNat)
    (builder : Builder) (now : Nat) : start? s builder now = none := by
  rw [start?, Gate.ofSlots?_of_lt h]
  rfl

theorem start?_of_le {s : Settings} (h : s.listener.maxConnections.toNat ≤ Gate.maxSlots)
    (builder : Builder) (now : Nat) :
    ∃ server, start? s builder now = some server ∧
      server.gate = ⟨s.listener.maxConnections.toNat, 0⟩ ∧
      server.sweeper =
        Sweeper.start? millisecond s.buffering.idle s.buffering.sweepInterval now := by
  rw [start?, Gate.ofSlots?_of_le h]
  exact ⟨_, rfl, rfl, rfl⟩

/-- Accepted settings, those of a document among them, leave the sweeper an interval. A server starts
with them if and only if the connections that they let in can be counted, and it has a slot for each;
it has its sweeper, whose first tick is an interval away, if and only if that time can be told. -/
theorem start_of_accepted_iff {s : Settings}
    (h : s.check = .ok s ∨ ∃ text, Settings.ofToml text = .ok s) (builder : Builder) (now : Nat) :
    0 < s.buffering.sweepInterval ∧
      ((start? s builder now).isSome = true ↔
        s.listener.maxConnections.toNat ≤ Gate.maxSlots) ∧
      ∀ server ∈ start? s builder now,
        server.gate = ⟨s.listener.maxConnections.toNat, 0⟩ ∧
          (server.sweeper.isSome = true ↔
            now + s.buffering.sweepInterval < Sweeper.timeLimit) ∧
          ∀ sweeper ∈ server.sweeper, sweeper =
            .start millisecond s.buffering.idle s.buffering.sweepInterval now := by
  have hc : s.check = .ok s := h.elim id fun ⟨_, ht⟩ => Settings.check_of_ofToml ht
  have hi : 0 < s.buffering.sweepInterval :=
    (Settings.sweepInterval_of_kept (Settings.kept_of_check hc)).1
  rcases Nat.lt_or_ge Gate.maxSlots s.listener.maxConnections.toNat with hl | hl
  · rw [start?_of_lt hl]
    exact ⟨hi, by simp [hl], fun server hs => by cases hs⟩
  · obtain ⟨server, hs, hg, hw⟩ := start?_of_le hl builder now
    rw [hs]
    refine ⟨hi, by simp [hl], fun server' hs' => ?_⟩
    obtain rfl := Option.some.inj hs'
    refine ⟨hg, ?_⟩
    rw [hw]
    rcases Nat.lt_or_ge (now + s.buffering.sweepInterval) Sweeper.timeLimit with ht | ht
    · simp [Sweeper.start?_of_lt hi ht, ht]
    · simp [Sweeper.start?_of_le ht, Nat.not_lt.mpr ht]

/-- The defaults keep the rules, and a server starts with them and sweeps. -/
theorem start_of_defaults :
    ({} : Settings).check = .ok {} ∧
      (start? {} Classifier.builder 0).isSome = true ∧
      ∀ server ∈ start? {} Classifier.builder 0, server.sweeper.isSome = true := by
  have hc : ({} : Settings).check = .ok {} :=
    Settings.check_of_kept (by
      intro r
      cases r <;> decide +kernel)
  obtain ⟨-, hs, hw⟩ := start_of_accepted_iff (.inl hc) Classifier.builder 0
  exact ⟨hc, hs.mpr (by decide), fun server h => (hw server h).2.1.mpr (by decide)⟩

/-- One connection more than can be counted. -/
def uncountable : String := "[listener]\nmax_connections = 2305843009213693952\n"

def untellable : String :=
  "[buffering]\nidle_timeout_secs = 9223372036854775807\nsweep_interval_secs = 9223372036854775807\n"

/-- The one document is accepted, and no server starts with it; the other is accepted, and the server
that starts with it a second after the clock's beginning has no sweeper. -/
theorem accepted_without_start :
    (∃ s, Settings.ofToml uncountable.toList = .ok s ∧
      start? s Classifier.builder second = none) ∧
    ∃ s, Settings.ofToml untellable.toList = .ok s ∧
      ∃ server, start? s Classifier.builder second = some server ∧ server.sweeper = none := by
  constructor
  · exact ⟨{ listener := { maxConnections := 2305843009213693952 } },
      Data.eq_ok_of_toOption (by decide +kernel), start?_of_lt (by decide +kernel) _ _⟩
  · let b : BufferingSettings :=
      { idleSeconds := 9223372036854775807, sweepSeconds := some 9223372036854775807 }
    refine ⟨{ buffering := b }, Data.eq_ok_of_toOption (by decide +kernel), ?_⟩
    exact (start?_of_le (by decide +kernel) Classifier.builder second).imp fun server h =>
      ⟨h.1, h.2.2.trans (Sweeper.start?_of_le (by decide +kernel))⟩

end Server

end BodyCallout
