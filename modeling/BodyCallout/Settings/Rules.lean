import BodyCallout.Settings.Address
import BodyCallout.Settings.Basic

set_option autoImplicit false

namespace BodyCallout

inductive Violation where
  | zero (setting : String)
  | sweepSlowerThanIdle (interval idle : UInt64)
  | invalidAddress (setting value : String)
  | invalidHeaderName (name : String)
  deriving DecidableEq, Repr

def Violation.message : Violation → String
  | .zero setting => setting ++ " must be greater than zero"
  | .sweepSlowerThanIdle interval idle =>
    "buffering.sweep_interval_secs (" ++ Decimal.text interval.toNat ++
      ") exceeds idle_timeout_secs (" ++ Decimal.text idle.toNat ++ ")"
  | .invalidAddress setting value =>
    setting ++ " is not a valid socket address: " ++ value
  | .invalidHeaderName name =>
    "correlation.request_id_header must be a non-empty lowercase header name: " ++
      Text.quote name

namespace Settings

def sizes (s : Settings) : List (String × UInt64) :=
  [("listener.max_connections", s.listener.maxConnections),
    ("listener.max_streams_per_connection", s.listener.maxStreams),
    ("listener.max_frame_bytes", s.listener.maxFrameBytes),
    ("buffering.max_body_bytes", s.buffering.maxBodyBytes),
    ("buffering.idle_timeout_secs", s.buffering.idleSeconds)]

def addresses (s : Settings) : List (String × String) :=
  ("listener.bind_address", s.listener.bindAddress) ::
    if s.observability.metricsEnabled then
      [("observability.metrics_address", s.observability.metricsAddress)]
    else []

def sweepViolations (s : Settings) : List Violation :=
  match s.buffering.sweepSeconds with
  | none => []
  | some n =>
    if n = 0 then [.zero "buffering.sweep_interval_secs"]
    else if s.buffering.idleSeconds < n then [.sweepSlowerThanIdle n s.buffering.idleSeconds]
    else []

def isNameChar (c : Char) : Bool := c.isLower || c.isDigit || c = '-' || c = '_'

def isHeaderName (name : String) : Bool := !name.isEmpty && name.toList.all isNameChar

def violations (s : Settings) : List Violation :=
  s.sizes.filterMap (fun (setting, n) => if n = 0 then some (.zero setting) else none) ++
    s.sweepViolations ++
    s.addresses.filterMap (fun (setting, value) =>
      if (SocketAddress.ofText? value).isSome then none
      else some (.invalidAddress setting value)) ++
    if isHeaderName s.correlation.header then []
    else [.invalidHeaderName s.correlation.header]

end Settings

end BodyCallout
