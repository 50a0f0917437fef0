import BodyCallout.Command.Replay
import BodyCallout.Command.Serve
import BodyCallout.Service.Server
import BodyCallout.Wire.Reader
import Std.Async.DNS
import Std.Async.Signal
import Std.Async.TCP
import Std.Async.Timer
import Std.Sync.Mutex

/-!
The two programs, one under each name. Sockets, signals, the clock, random bytes and the standard
streams are here; what is done about them is decided elsewhere. A zone in an address is left out.
-/

set_option autoImplicit false

namespace BodyCallout

open Std.Async

abbrev Socket := TCP.Socket.Client

namespace Program

def complain (message : String) : IO UInt32 := do
  IO.eprintln ("Error: " ++ message)
  return 1

def systemAddress : SocketAddress → Std.Net.SocketAddress
  | .v4 octets port =>
    let o (i : Nat) := (octets.getD i 0).toUInt8
    .v4 ⟨.ofParts (o 0) (o 1) (o 2) (o 3), port.toUInt16⟩
  | .v6 groups _ port =>
    let g (i : Nat) := (groups.getD i 0).toUInt16
    .v6 ⟨.ofParts (g 0) (g 1) (g 2) (g 3) (g 4) (g 5) (g 6) (g 7), port.toUInt16⟩

def pack (bytes : List UInt8) : ByteArray := ⟨bytes.toArray⟩

def sendAll {α : Type} [Framed α] (socket : Socket) (frames : List α) : Async Unit :=
  if frames.isEmpty then pure () else socket.send (pack (frames.flatMap encodeFrame))

def readSize : UInt64 := 65536

/-! The server. -/

structure Running where
  server : Std.Mutex Server
  began : Nat

namespace Running

/-- A turn of the server, whose clock is set first. -/
def turn {α : Type} (w : Running) (f : Server → α × Server) : IO α := do
  let time := (← IO.monoNanosNow) - w.began
  w.server.atomically (modifyGet fun s => f (s.pass (time - s.store.now)))

end Running

def freshId : IO TransactionId :=
  return Correlation.generated (← IO.getRandomBytes 8).toList

def fill {limit : Nat} (socket : Socket) (reader : Reader limit) : Async (Reader limit) := do
  match ← socket.recv? readSize with
  | some bytes => return reader.arrive bytes.toList
  | none => return reader.close

/-- A connection, from its first byte to its last; nothing is read after a line that is at fault. -/
def converse (w : Running) (socket : Socket) (number limit : Nat) : Async Unit := do
  try
    let mut reader : Reader limit := .start
    let mut reading := true
    while reading do
      let (after, result) := reader.poll Inbound
      reader := after
      match result with
      | .pending => reader ← fill socket reader
      | .ready none => reading := false
      | .ready (some receipt) =>
        let id ← freshId
        let frames ← w.turn fun s => (s.hear number id receipt).swap
        sendAll socket frames
        reading := receipt matches .frame _
  catch _ => pure ()
  let id ← freshId
  let frames ← w.turn fun s => (s.leave number id).swap
  try
    sendAll socket frames
    socket.shutdown
  catch _ => pure ()

def pause (milliseconds : Nat) : Async Unit := sleep (.ofNat milliseconds)

/-- Connections are taken while a slot is free, until the gate closes. -/
def welcome (w : Running) (door : TCP.Socket.Server) (limit : Nat) : Async Unit := do
  let mut accepting := true
  while accepting do
    let (isOpen, free) ← w.turn fun s => ((s.accepting, s.gate.free), s)
    accepting := isOpen
    if isOpen then
      if free = 0 then pause 5
      else
        try
          let socket ← door.accept
          if let some number ← w.turn fun s => s.connect.swap then
            background (converse w socket number limit)
        catch _ => pause 50

def keepSweeping (w : Running) : Async Unit := do
  while true do
    pause 20
    w.turn fun s => ((), s)

def awaitStop : IO Unit := do
  let terminate ← (← Signal.Waiter.mk .sigterm false).wait
  let interrupt ← (← Signal.Waiter.mk .sigint false).wait
  discard <| IO.waitAny [terminate.run, interrupt.run]

/-- Waits until the last connection is gone, for so many milliseconds at most. -/
def awaitDrain (w : Running) (milliseconds : Nat) : IO Unit := do
  let deadline := (← IO.monoMsNow) + milliseconds
  let mut waiting := true
  while waiting do
    let drained ← w.turn fun s => (s.roll.drained, s)
    waiting := !drained && (← IO.monoMsNow) < deadline
    if waiting then IO.sleep 5

def log (format : LogFormat) (message : String) : IO Unit :=
  IO.println (Serve.logLine format message)

def serve (settings : Settings) (address : SocketAddress) : IO UInt32 := do
  let door ← TCP.Socket.Server.mk
  door.bind (systemAddress address)
  door.listen 1024
  match Server.start? settings Classifier.builder 0 with
  | none => complain Gate.tooManyMessage
  | some server =>
    let w : Running := ⟨← Std.Mutex.new server, ← IO.monoNanosNow⟩
    log settings.observability.logFormat ("Listening on " ++ toString (← door.getSockName))
    discard <| Async.toIO (welcome w door settings.listener.maxFrameBytes.toNat)
    discard <| Async.toIO (keepSweeping w)
    awaitStop
    w.turn fun s => ((), s.shutDown)
    awaitDrain w (settings.shutdown.drainSeconds.toNat * 1000)
    log settings.observability.logFormat "Shutdown complete"
    return 0

def serveMain (args : List String) : IO UInt32 := do
  match OptionSpec.read Serve.specs args with
  | .misuse =>
    IO.eprintln Serve.helpText
    return 2
  | .help =>
    IO.print Serve.helpText
    return 0
  | .given g =>
    let file ← match Serve.configPath? g with
      | none => pure none
      | some path =>
        let bytes ← EIO.toBaseIO (IO.FS.readBinFile path)
        pure (bytes.toOption.map ByteArray.toList)
    match Serve.prepare (fun _ => true) g file with
    | .error f => complain f.message
    | .ok (settings, address) =>
      try serve settings address
      catch e => complain (toString e)

/-! The replay client. -/

def resolve (text : String) : Async (List Std.Net.SocketAddress) :=
  match SocketAddress.ofText? text, text.splitOn ":" with
  | some a, _ => pure [systemAddress a]
  | none, [host, port] => do
    let found ← DNS.getAddrInfo host ""
    let port := (port.toNat?.getD 0).toUInt16
    return found.toList.map fun
      | .v4 a => .v4 ⟨a, port⟩
      | .v6 a => .v6 ⟨a, port⟩
  | none, _ => throw (.userError "invalid socket address")

def connect : List Std.Net.SocketAddress → Async Socket
  | [] => throw (.userError "could not resolve to any addresses")
  | a :: rest => do
    let socket ← TCP.Socket.Client.mk
    try
      socket.connect a
      return socket
    catch e => if rest.isEmpty then throw e else connect rest

def replay (r : Replay) : Async UInt32 := do
  let socket ← connect (← resolve r.address)
  sendAll socket r.frames
  let mut reader : Reader Replay.maxFrameBytes := .start
  let mut listening := some (⟨r.frames.length, 0⟩ : Replay.Listening)
  while listening.isSome do
    if let some l := listening then
      let (after, result) := reader.poll Outbound
      reader := after
      match result with
      | .pending => reader ← fill socket reader
      | .ready none =>
        l.closed.complaint.forM (IO.eprintln ·)
        listening := none
      | .ready (some (.malformed f)) => return (← complain (malformedMessage f))
      | .ready (some (.tooLarge limit)) => return (← complain (tooLargeMessage limit))
      | .ready (some (.frame frame)) =>
        let hearing := l.hear frame
        hearing.shown.forM (IO.println ·)
        hearing.complaint.forM (IO.eprintln ·)
        listening := hearing.next
  sendAll socket [r.farewell]
  return 0

def replayMain (args : List String) : IO UInt32 := do
  match OptionSpec.read Replay.specs args with
  | .misuse =>
    IO.eprintln Replay.helpText
    return 2
  | .help =>
    IO.print Replay.helpText
    return 0
  | .given g =>
    try (replay (.ofGiven g)).block
    catch e => complain (toString e)

end Program

end BodyCallout

def main (args : List String) : IO UInt32 := do
  match (← IO.appPath).fileStem with
  | some "callout-client" => BodyCallout.Program.replayMain args
  | _ => BodyCallout.Program.serveMain args
