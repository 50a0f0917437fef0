import BodyCallout.Command.Options
import BodyCallout.Json.Layout
import BodyCallout.Text.Utf8
import BodyCallout.Wire.Framing

/-!
The replay client: it plays one exchange against a server, event by event, and shows what the server
answers. Response headers come last, or before the final chunk if that is asked for.
-/

set_option autoImplicit false

namespace BodyCallout

structure Replay where
  address : String := "127.0.0.1:8080"
  bodies : List String := []
  requestId : Option String := none
  trailers : Bool := false
  responseFirst : Bool := false
  stream : UInt64 := 1
  path : String := "/"
  deriving DecidableEq, Repr

namespace Replay

def specs : List OptionSpec :=
  [⟨"addr", some 'a', some fun _ => true, false⟩, ⟨"body", some 'b', some fun _ => true, true⟩,
    ⟨"request-id", none, some fun _ => true, false⟩, ⟨"trailers", none, none, false⟩,
    ⟨"response-headers-first", none, none, false⟩,
    ⟨"stream", none, some fun text => (wordOf? text).isSome, false⟩,
    ⟨"path", none, some fun _ => true, false⟩]

def ofGiven (g : Given) : Replay :=
  let d : Replay := {}
  { address := (g.value? "addr").getD d.address
    bodies := g.values "body"
    requestId := g.value? "request-id"
    trailers := g.has "trailers"
    responseFirst := g.has "response-headers-first"
    stream := ((g.value? "stream").bind wordOf?).getD d.stream
    path := (g.value? "path").getD d.path }

def helpText : String :=
  "Replay one scripted transaction against a callout server\n\n" ++
  "Usage: callout-client [OPTIONS]\n\n" ++
  "Options:\n" ++
  "  -a, --addr <ADDR>              [default: 127.0.0.1:8080]\n" ++
  "  -b, --body <BODIES>            Request body chunk; repeat for multiple chunks\n" ++
  "      --request-id <REQUEST_ID>  Value for the x-request-id header\n" ++
  "      --trailers                 Finish the request body with trailers instead of " ++
  "end_of_stream\n" ++
  "      --response-headers-first   Send response headers before the final body chunk\n" ++
  "      --stream <STREAM>          Stream number to use on the connection [default: 1]\n" ++
  "      --path <PATH>              [default: /]\n" ++
  "  -h, --help                     Print help\n"

def requestHeaders (r : Replay) : Event :=
  .headers .request <| .ofPairs
    ([(":method", "POST"), (":path", r.path)] ++
      match r.requestId with
      | some id => [("x-request-id", id)]
      | none => [])
    (r.bodies.isEmpty && !r.trailers)

def responseHeaders : Event := .headers .response (.ofPairs [(":status", "200")] false)

def chunk (text : String) (last : Bool) : Event :=
  .body .request ⟨Utf8.encode text.toList, last⟩

/-- The chunks of the body; response headers may come before the final one. -/
def chunks (r : Replay) : List String → List Event
  | [] => []
  | [final] => (if r.responseFirst then [responseHeaders] else []) ++ [chunk final (!r.trailers)]
  | text :: rest => chunk text false :: chunks r rest

def events (r : Replay) : List Event :=
  r.requestHeaders :: r.chunks r.bodies ++
    (if r.trailers then [.trailers .request ⟨[]⟩] else []) ++
    if r.responseFirst && !r.bodies.isEmpty then [] else [responseHeaders]

def frames (r : Replay) : List Inbound := r.events.map (.message r.stream)

def farewell (r : Replay) : Inbound := .finish r.stream

def maxFrameBytes : Nat := 16777216

/-- Of the answers that are expected so many have been received. -/
structure Listening where
  expected : Nat
  received : Nat
  deriving DecidableEq, Repr

/-- What is shown, what is complained of, and how it goes on: listening, or with a farewell. -/
structure Hearing where
  shown : List String
  complaint : Option String
  next : Option Listening

def Listening.toGo? (l : Listening) : Option Listening :=
  if l.received < l.expected then some l else none

def Listening.hear (l : Listening) (frame : Outbound) : Hearing :=
  let shown := [String.ofList (Json.layOut (writeFrame frame))]
  match frame with
  | .answer _ _ => ⟨shown, none, { l with received := l.received + 1 }.toGo?⟩
  | .error _ message => ⟨shown, some ("Error: " ++ message), none⟩

def Listening.closed (l : Listening) : Hearing :=
  ⟨[], some ("Error: server closed the connection after " ++ Decimal.text l.received ++
    " responses"), none⟩

end Replay

end BodyCallout
