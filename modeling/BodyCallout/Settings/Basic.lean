import BodyCallout.Session.Engine
import BodyCallout.Store.Correlation
import BodyCallout.Store.Sweeper

set_option autoImplicit false

namespace BodyCallout

open Data

structure ListenerSettings where
  bindAddress : String := "0.0.0.0:8080"
  maxConnections : UInt64 := 10000
  maxStreams : UInt64 := 1024
  maxFrameBytes : UInt64 := 16777216
  deriving DecidableEq, Repr

/-- The sweep interval is half the idle time unless it is given. -/
structure BufferingSettings where
  maxBodyBytes : UInt64 := 2097152
  idleSeconds : UInt64 := 300
  sweepSeconds : Option UInt64 := none
  bufferedDelivery : Bool := true
  overflow : OverflowPolicy := .skip
  deriving DecidableEq, Repr

inductive LogFormat where
  | pretty
  | json
  deriving DecidableEq, Repr

structure ObservabilitySettings where
  logFormat : LogFormat := .pretty
  logFilter : String := "callout_buffering=info"
  metricsEnabled : Bool := false
  metricsAddress : String := "0.0.0.0:9090"
  deriving DecidableEq, Repr

structure ShutdownSettings where
  drainSeconds : UInt64 := 10
  deriving DecidableEq, Repr

def Correlation.standard : Correlation := ⟨true, "x-request-id"⟩

structure Settings where
  listener : ListenerSettings := {}
  buffering : BufferingSettings := {}
  correlation : Correlation := .standard
  observability : ObservabilitySettings := {}
  shutdown : ShutdownSettings := {}
  deriving DecidableEq, Repr

namespace BufferingSettings

def idle (b : BufferingSettings) : Nat := b.idleSeconds.toNat * second

def sweepInterval (b : BufferingSettings) : Nat :=
  match b.sweepSeconds with
  | some n => n.toNat * second
  | none => Sweeper.defaultInterval b.idle

end BufferingSettings

abbrev sizeShape : Shape := .natural "usize" UInt64.size

instance : Described OverflowPolicy where
  shape := .choice ["skip", "partial"]
  toValue
    | .skip => 0
    | .keepStart => 1
  ofValue
    | 0 => .skip
    | 1 => .keepStart
  ofValue_toValue p := by cases p <;> rfl

instance : Described LogFormat where
  shape := .choice ["pretty", "json"]
  toValue
    | .pretty => 0
    | .json => 1
  ofValue
    | 0 => .pretty
    | 1 => .json
  ofValue_toValue f := by cases f <;> rfl

def given (α : Type) [Described α] (default : α) (v : Option (Described.shape α).Value) : α :=
  (v.map (valueOf α)).getD default

@[simp] theorem given_toValue {α : Type} [Described α] (default a : α) :
    given α default (some (Described.toValue a)) = a := by
  simp [given]

def givenSize (default : UInt64) (v : Option (Fin UInt64.size)) : UInt64 :=
  (v.map UInt64.ofFin).getD default

@[simp] theorem givenSize_toFin (default n : UInt64) : givenSize default (some n.toFin) = n := rfl

abbrev ListenerSettings.shape : Shape :=
  .record "struct ListenerConfig" <|
    .may "bind_address" .text <| .may "max_connections" sizeShape <|
      .may "max_streams_per_connection" sizeShape <| .may "max_frame_bytes" sizeShape .done

instance : Described ListenerSettings where
  shape := ListenerSettings.shape
  toValue l :=
    (some l.bindAddress, some l.maxConnections.toFin, some l.maxStreams.toFin,
      some l.maxFrameBytes.toFin, ())
  ofValue := fun (address, connections, streams, frame, ()) =>
    let d : ListenerSettings := {}
    ⟨address.getD d.bindAddress, givenSize d.maxConnections connections,
      givenSize d.maxStreams streams, givenSize d.maxFrameBytes frame⟩
  ofValue_toValue l := by simp

abbrev BufferingSettings.shape : Shape :=
  .record "struct BufferingConfig" <|
    .may "max_body_bytes" sizeShape <| .may "idle_timeout_secs" (Described.shape UInt64) <|
      .may "sweep_interval_secs" (Described.shape (Option UInt64)) <|
        .may "buffered_delivery" .boolean <|
          .may "overflow_policy" (Described.shape OverflowPolicy) .done

instance : Described BufferingSettings where
  shape := BufferingSettings.shape
  toValue b :=
    (some b.maxBodyBytes.toFin, some (Described.toValue b.idleSeconds),
      some (Described.toValue b.sweepSeconds), some b.bufferedDelivery,
      some (Described.toValue b.overflow), ())
  ofValue := fun (limit, idle, sweep, delivery, overflow, ()) =>
    let d : BufferingSettings := {}
    ⟨givenSize d.maxBodyBytes limit, given UInt64 d.idleSeconds idle,
      given (Option UInt64) d.sweepSeconds sweep, delivery.getD d.bufferedDelivery,
      given OverflowPolicy d.overflow overflow⟩
  ofValue_toValue b := by simp

abbrev Correlation.shape : Shape :=
  .record "struct CorrelationConfig" <|
    .may "prefer_stream_identity" .boolean <| .may "request_id_header" .text .done

instance : Described Correlation where
  shape := Correlation.shape
  toValue c := (some c.preferIdentity, some c.header, ())
  ofValue := fun (prefer, header, ()) =>
    ⟨prefer.getD Correlation.standard.preferIdentity, header.getD Correlation.standard.header⟩
  ofValue_toValue c := by simp

abbrev ObservabilitySettings.shape : Shape :=
  .record "struct ObservabilityConfig" <|
    .may "log_format" (Described.shape LogFormat) <| .may "log_filter" .text <|
      .may "metrics_enabled" .boolean <| .may "metrics_address" .text .done

instance : Described ObservabilitySettings where
  shape := ObservabilitySettings.shape
  toValue o :=
    (some (Described.toValue o.logFormat), some o.logFilter, some o.metricsEnabled,
      some o.metricsAddress, ())
  ofValue := fun (format, filter, enabled, address, ()) =>
    let d : ObservabilitySettings := {}
    ⟨given LogFormat d.logFormat format, filter.getD d.logFilter,
      enabled.getD d.metricsEnabled, address.getD d.metricsAddress⟩
  ofValue_toValue o := by simp

abbrev ShutdownSettings.shape : Shape :=
  .record "struct ShutdownConfig" <| .may "drain_timeout_secs" (Described.shape UInt64) .done

instance : Described ShutdownSettings where
  shape := ShutdownSettings.shape
  toValue s := (some (Described.toValue s.drainSeconds), ())
  ofValue := fun (drain, ()) =>
    let d : ShutdownSettings := {}
    ⟨given UInt64 d.drainSeconds drain⟩
  ofValue_toValue s := by simp

abbrev Settings.shape : Shape :=
  .record "struct CalloutConfig" <|
    .may "listener" ListenerSettings.shape <| .may "buffering" BufferingSettings.shape <|
      .may "correlation" Correlation.shape <| .may "observability" ObservabilitySettings.shape <|
        .may "shutdown" ShutdownSettings.shape .done

instance : Described Settings where
  shape := Settings.shape
  toValue s :=
    (some (Described.toValue s.listener), some (Described.toValue s.buffering),
      some (Described.toValue s.correlation), some (Described.toValue s.observability),
      some (Described.toValue s.shutdown), ())
  ofValue := fun (listener, buffering, correlation, observability, shutdown, ()) =>
    let d : Settings := {}
    ⟨given ListenerSettings d.listener listener, given BufferingSettings d.buffering buffering,
      given Correlation d.correlation correlation,
      given ObservabilitySettings d.observability observability,
      given ShutdownSettings d.shutdown shutdown⟩
  ofValue_toValue s := by simp [given]

end BodyCallout
