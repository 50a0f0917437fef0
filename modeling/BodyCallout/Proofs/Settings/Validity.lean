import Mathlib.Data.List.Forall2
import BodyCallout.Settings.Load

set_option autoImplicit false

namespace BodyCallout

inductive Rule where
  | connections
  | streams
  | frameBytes
  | bodyBytes
  | idleTime
  | sweepTime
  | bindAddress
  | metricsAddress
  | headerName
  deriving DecidableEq, Repr

namespace Rule

def ofSizes : List Rule := [connections, streams, frameBytes, bodyBytes, idleTime]

def ofAddresses : List Rule := [bindAddress, metricsAddress]

def all : List Rule := ofSizes ++ [sweepTime] ++ ofAddresses ++ [headerName]

theorem mem_all (r : Rule) : r ∈ all := by cases r <;> decide

def BrokenBy (s : Settings) : Rule → Prop
  | connections => s.listener.maxConnections = 0
  | streams => s.listener.maxStreams = 0
  | frameBytes => s.listener.maxFrameBytes = 0
  | bodyBytes => s.buffering.maxBodyBytes = 0
  | idleTime => s.buffering.idleSeconds = 0
  | sweepTime => ∃ n ∈ s.buffering.sweepSeconds, n = 0 ∨ s.buffering.idleSeconds < n
  | bindAddress => SocketAddress.ofText? s.listener.bindAddress = none
  | metricsAddress => s.observability.metricsEnabled = true ∧
      SocketAddress.ofText? s.observability.metricsAddress = none
  | headerName => s.correlation.header = "" ∨ ∃ c ∈ s.correlation.header.toList,
      ¬ ('a' ≤ c ∧ c ≤ 'z' ∨ '0' ≤ c ∧ c ≤ '9' ∨ c = '-' ∨ c = '_')

instance (s : Settings) : (r : Rule) → Decidable (r.BrokenBy s)
  | connections | streams | frameBytes | bodyBytes | idleTime | bindAddress =>
    inferInstanceAs (Decidable (_ = _))
  | sweepTime => Option.decidableExistsMem s.buffering.sweepSeconds
  | metricsAddress => inferInstanceAs (Decidable (_ ∧ _))
  | headerName => @instDecidableOr _ _ inferInstance (List.decidableBEx _ s.correlation.header.toList)

def violation (s : Settings) : Rule → Violation
  | connections => .zero "listener.max_connections"
  | streams => .zero "listener.max_streams_per_connection"
  | frameBytes => .zero "listener.max_frame_bytes"
  | bodyBytes => .zero "buffering.max_body_bytes"
  | idleTime => .zero "buffering.idle_timeout_secs"
  | sweepTime =>
    match s.buffering.sweepSeconds with
    | none | some 0 => .zero "buffering.sweep_interval_secs"
    | some n => .sweepSlowerThanIdle n s.buffering.idleSeconds
  | bindAddress => .invalidAddress "listener.bind_address" s.listener.bindAddress
  | metricsAddress =>
    .invalidAddress "observability.metrics_address" s.observability.metricsAddress
  | headerName => .invalidHeaderName s.correlation.header

def report (s : Settings) (rules : List Rule) : List Violation :=
  (rules.filter (BrokenBy s ·)).map (violation s)

variable {s : Settings}

theorem report_append (rules more : List Rule) :
    report s (rules ++ more) = report s rules ++ report s more := by
  simp [report]

theorem report_of_broken {r : Rule} (h : r.BrokenBy s) : report s [r] = [r.violation s] := by
  simp [report, h]

theorem report_of_kept {r : Rule} (h : ¬ r.BrokenBy s) : report s [r] = [] := by
  simp [report, h]

theorem report_eq_nil_iff : report s all = [] ↔ ∀ r : Rule, ¬ r.BrokenBy s := by
  simp only [report, List.map_eq_nil_iff, List.filter_eq_nil_iff, decide_eq_true_eq]
  exact ⟨fun h r => h r r.mem_all, fun h r _ => h r⟩

theorem filterMap_eq_report {β : Type} {f : β → Option Violation} {rules : List Rule} {xs : List β}
    (h : List.Forall₂ (fun (r : Rule) x =>
      f x = if r.BrokenBy s then some (r.violation s) else none) rules xs) :
    xs.filterMap f = report s rules := by
  induction h with
  | nil => rfl
  | @cons r x rules xs hx _ ih =>
    rw [List.filterMap_cons, hx, ← List.singleton_append, report_append]
    by_cases hr : r.BrokenBy s
    · simp [hr, report_of_broken, ih]
    · simp [hr, report_of_kept, ih]

end Rule

namespace Settings

open Rule

variable {s : Settings}

theorem isNameChar_iff (c : Char) : isNameChar c = true ↔
    'a' ≤ c ∧ c ≤ 'z' ∨ '0' ≤ c ∧ c ≤ '9' ∨ c = '-' ∨ c = '_' := by
  have hl : c.isLower = (decide ('a'.val ≤ c.val) && decide (c.val ≤ 'z'.val)) := rfl
  simp [isNameChar, hl, Char.isDigit, Char.le_def, or_assoc]

theorem isHeaderName_iff :
    isHeaderName s.correlation.header = true ↔ ¬ Rule.headerName.BrokenBy s := by
  simp only [isHeaderName, Bool.and_eq_true, Bool.not_eq_true', List.all_eq_true, isNameChar_iff]
  rw [BrokenBy, not_or, ← Bool.not_eq_true, String.isEmpty_iff]
  simp only [not_exists, not_and, not_not]

theorem headerViolations_eq :
    (if isHeaderName s.correlation.header then []
      else [Violation.invalidHeaderName s.correlation.header]) = report s [.headerName] := by
  by_cases h : Rule.headerName.BrokenBy s
  · rw [report_of_broken h, if_neg (fun hn => isHeaderName_iff.mp hn h)]
    rfl
  · rw [report_of_kept h, if_pos (isHeaderName_iff.mpr h)]

theorem sweepViolations_eq : s.sweepViolations = report s [.sweepTime] := by
  cases hn : s.buffering.sweepSeconds with
  | none =>
    have hk : ¬ Rule.sweepTime.BrokenBy s := by simp [BrokenBy, hn]
    rw [report_of_kept hk, sweepViolations, hn]
  | some n =>
    have hi : Rule.sweepTime.BrokenBy s ↔ n = 0 ∨ s.buffering.idleSeconds < n := by
      simp [BrokenBy, hn]
    by_cases hz : n = 0
    · subst hz
      rw [report_of_broken (hi.mpr (.inl rfl)), sweepViolations, Rule.violation, hn]
      rfl
    · by_cases hl : s.buffering.idleSeconds < n
      · rw [report_of_broken (hi.mpr (.inr hl))]
        simp [sweepViolations, Rule.violation, hn, hz, hl]
      · rw [report_of_kept (fun h => hl ((hi.mp h).resolve_left hz))]
        simp [sweepViolations, hn, hz, hl]

theorem addressViolations_eq :
    s.addresses.filterMap (fun (setting, value) =>
      if (SocketAddress.ofText? value).isSome then none
      else some (Violation.invalidAddress setting value)) = report s ofAddresses := by
  have hv (setting value : String) :
      (if (SocketAddress.ofText? value).isSome then none
        else some (Violation.invalidAddress setting value)) =
      if SocketAddress.ofText? value = none then some (.invalidAddress setting value)
        else none := by
    cases SocketAddress.ofText? value <;> rfl
  cases he : s.observability.metricsEnabled with
  | true =>
    rw [addresses, if_pos he]
    refine filterMap_eq_report (.cons (hv _ _) (.cons ((hv _ _).trans ?_) .nil))
    simp [BrokenBy, he, Rule.violation]
  | false =>
    have hk : ¬ Rule.metricsAddress.BrokenBy s := by simp [BrokenBy, he]
    have ho : ofAddresses = [.bindAddress] ++ [.metricsAddress] := rfl
    rw [addresses, if_neg (by simp [he]), ho, report_append, report_of_kept hk, List.append_nil]
    exact filterMap_eq_report (.cons (hv _ _) .nil)

theorem violations_eq_report : s.violations = report s Rule.all := by
  rw [Rule.all, report_append, report_append, report_append, violations, sweepViolations_eq,
    addressViolations_eq, headerViolations_eq]
  congr 3
  exact filterMap_eq_report (.cons rfl (.cons rfl (.cons rfl (.cons rfl (.cons rfl .nil)))))

/-- Settings that break no rule leave the sweeper an interval. -/
theorem sweepInterval_of_kept (h : ∀ r : Rule, ¬ r.BrokenBy s) :
    0 < s.buffering.sweepInterval ∧ s.buffering.sweepInterval ≤ s.buffering.idle := by
  have hi : 0 < s.buffering.idleSeconds.toNat :=
    Nat.pos_of_ne_zero fun h0 => h .idleTime (UInt64.toNat_inj.mp h0)
  have hsecond : 1 < second := by decide
  have hidle : s.buffering.idleSeconds.toNat * second = s.buffering.idle := rfl
  cases hn : s.buffering.sweepSeconds with
  | none =>
    have hs : s.buffering.sweepInterval = s.buffering.idle / 2 := by
      simp only [BufferingSettings.sweepInterval, hn, Sweeper.defaultInterval]
    have hm : 2 ≤ s.buffering.idle := hidle ▸ Nat.mul_le_mul hi hsecond
    omega
  | some n =>
    have hs : s.buffering.sweepInterval = n.toNat * second := by
      simp only [BufferingSettings.sweepInterval, hn]
    have hk : ¬ (n = 0 ∨ s.buffering.idleSeconds < n) := fun hb => h .sweepTime ⟨n, hn, hb⟩
    obtain ⟨hz, hl⟩ := not_or.mp hk
    have hz : 0 < n.toNat := Nat.pos_of_ne_zero fun h0 => hz (UInt64.toNat_inj.mp h0)
    have hl : n.toNat ≤ s.buffering.idleSeconds.toNat :=
      UInt64.le_iff_toNat_le.mp (UInt64.not_lt.mp hl)
    rw [hs, ← hidle]
    exact ⟨Nat.mul_pos hz (Nat.lt_of_succ_lt hsecond), Nat.mul_le_mul_right second hl⟩

theorem check_of_kept (h : ∀ r : Rule, ¬ r.BrokenBy s) : s.check = .ok s := by
  rw [check, violations_eq_report, report_eq_nil_iff.mpr h]
  rfl

theorem check_of_broken {r : Rule} (h : r.BrokenBy s) :
    s.check = .error (.broken (report s Rule.all)) := by
  have hne : report s Rule.all ≠ [] := fun hn => report_eq_nil_iff.mp hn r h
  rw [check, violations_eq_report, if_neg (by simpa using hne)]

/-- Settings are accepted if they break no rule; else they are refused with one violation for each
broken rule, in the order of the rules, and no other. Whatever is accepted leaves the sweeper an
interval that is not empty and no longer than the idle time, half a second at the least. -/
theorem check_reports_broken_rules (s : Settings) :
    (s.check = .ok s ↔ ∀ r : Rule, ¬ r.BrokenBy s) ∧
      ((∃ r : Rule, r.BrokenBy s) → s.check =
        .error (.broken ((Rule.all.filter (Rule.BrokenBy s ·)).map (Rule.violation s)))) ∧
      (s.check = .ok s → 0 < s.buffering.sweepInterval ∧
        s.buffering.sweepInterval ≤ s.buffering.idle) ∧
      (s.buffering.sweepSeconds = none → s.buffering.idleSeconds = 1 →
        s.buffering.sweepInterval = second / 2) := by
  have hiff : s.check = .ok s ↔ ∀ r : Rule, ¬ r.BrokenBy s := by
    refine ⟨fun hc r hr => ?_, check_of_kept⟩
    rw [check_of_broken hr] at hc
    cases hc
  refine ⟨hiff, fun ⟨r, hr⟩ => check_of_broken hr, fun hc => sweepInterval_of_kept (hiff.mp hc),
    fun hn hi => ?_⟩
  simp only [BufferingSettings.sweepInterval, hn, Sweeper.defaultInterval, BufferingSettings.idle, hi]
  rfl

/-- A zero idle time and a sweep interval beyond it are reported both, with both times. -/
theorem check_of_idle_zero :
    let s : Settings := { buffering := { idleSeconds := 0, sweepSeconds := some 5 } }
    s.check = .error (.broken [.zero "buffering.idle_timeout_secs", .sweepSlowerThanIdle 5 0]) := by
  intro s
  obtain ⟨-, hb, -, -⟩ := check_reports_broken_rules s
  have hl : (Rule.all.filter (Rule.BrokenBy s ·)).map (Rule.violation s) =
      [.zero "buffering.idle_timeout_secs", .sweepSlowerThanIdle 5 0] := by decide +kernel
  rw [hb ⟨.idleTime, rfl⟩, hl]

end Settings

end BodyCallout
