import BodyCallout.Command.Options
import BodyCallout.Json.Writer
import BodyCallout.Service.Gate
import BodyCallout.Settings.Load

set_option autoImplicit false

namespace BodyCallout

namespace Serve

def specs : List OptionSpec :=
  [⟨"config", some 'c', some fun path => !path.isEmpty, false⟩,
    ⟨"bind", some 'b', some fun _ => true, false⟩]

def helpText : String :=
  "External-processing callout server with body buffering\n\n" ++
  "Usage: callout-buffering [OPTIONS]\n\n" ++
  "Options:\n" ++
  "  -c, --config <CONFIG>  TOML configuration file; defaults are used when omitted\n" ++
  "  -b, --bind <BIND>      Override `listener.bind_address`\n" ++
  "  -h, --help             Print help\n"

def configPath? (g : Given) : Option String := g.value? "config"

def logLine (format : LogFormat) (message : String) : String :=
  match format with
  | .pretty => "INFO " ++ message
  | .json =>
    String.ofList <| Json.bracket Json.openBrace Json.closeBrace
      [Json.member "level" (Json.writeText "INFO"), Json.member "message" (Json.writeText message)]

inductive Fault where
  | load (fault : LoadFault)
  | bind (fault : BindFault)

def Fault.message : Fault → String
  | .load f => f.message
  | .bind f => f.message

def withBind (g : Given) (s : Settings) : Except LoadFault Settings :=
  match g.value? "bind" with
  | none => .ok s
  | some address => { s with listener := { s.listener with bindAddress := address } }.check

/-- The settings and the address to listen on, on a host that has certain addresses. The file is
given by its bytes, if it is there. -/
def prepare (hosts : SocketAddress → Bool) (g : Given) (file : Option (List UInt8)) :
    Except Fault (Settings × SocketAddress) := do
  let loaded ← match configPath? g with
    | none => .ok {}
    | some _ => (Settings.ofFile file).mapError Fault.load
  let s ← (withBind g loaded).mapError Fault.load
  let address ← (bindAddress hosts s.listener.bindAddress).mapError Fault.bind
  .ok (s, address)

end Serve

end BodyCallout
