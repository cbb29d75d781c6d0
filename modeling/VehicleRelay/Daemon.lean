import VehicleRelay.CommandLine
import VehicleRelay.Property.Json
import VehicleRelay.Relay.Basic
import VehicleRelay.Relay.Passthrough
import VehicleRelay.Server.Remote
import VehicleRelay.Server.Scripted
import VehicleRelay.Settings.Address
import VehicleRelay.Settings.Document
import VehicleRelay.Text.Terminal

/-!
# The daemon

The daemon sets up a relay, subscribes to every property that can be read and
changes, logs each change that the server pushes, and ends when it is
interrupted.  A run is described by what it logs; the files and the network that
it finds are given to it.
-/

namespace VehicleRelay

inductive LogLevel
  | info
  | warning
deriving DecidableEq, Repr

def LogLevel.name : LogLevel → String
  | .info => "INFO"
  | .warning => "WARN"

structure LogLine where
  level : LogLevel
  text : String
deriving DecidableEq, Repr

/-- The message of a line.  Logs in JSON hold the text itself, others are made for
a terminal. -/
def LogLine.message (jsonLogs : Bool) (line : LogLine) : String :=
  if jsonLogs then line.text else Text.forTerminal line.text

namespace Daemon

def info (text : String) : LogLine := ⟨.info, text⟩

def warning (text : String) : LogLine := ⟨.warning, text⟩

/-- What the daemon finds around it. -/
structure Environment where
  file : String → Option ByteArray
  link : String → Link

structure Report where
  /-- The lines that are logged before the daemon is interrupted. -/
  log : List LogLine
  failure : Option SetupError := none
  /-- The changes that were logged. -/
  events : List PropertyValue := []
  /-- Whether the daemon was interrupted and has shut down. -/
  interrupted : Bool := false
  sent : List Sent := []

/-- The lines that are logged once the daemon is interrupted. -/
def Report.lastLog (report : Report) : List LogLine :=
  if report.interrupted then [info "Shutting down"] else []

/-- The number as a word of 32 bits in hexadecimal digits. -/
def hexadecimal (number : Int32) : String :=
  "0x" ++ String.ofList (Nat.toDigits 16 number.toUInt32.toNat)

/-- Whether changes of a property can be seen by reading it. -/
def isWatched (config : PropertyConfig) : Bool :=
  config.changeMode != .static && config.access != .write

def subscription (config : PropertyConfig) : Subscription where
  property := config.property
  areas := config.areaIds
  sampleRate := if config.changeMode = .continuous then config.minSampleRate else .zero

variable {Server : Type} [VehicleServer Server]

/-- Subscribes to watched properties one after the other, and gives the keys
for which that worked. -/
def subscribeAll :
    List PropertyConfig → Relay → Server → (List LogLine × List PropertyKey) × Relay × Server
  | [], relay, server => (([], []), relay, server)
  | config :: configs, relay, server =>
      if isWatched config then
        let (status, relay, server) := relay.subscribe (subscription config) server
        let ((lines, keys), relay, server) := subscribeAll configs relay server
        if status.isOk then ((lines, config.keys ++ keys), relay, server)
        else
          let line := warning ("Failed to subscribe to property " ++ hexadecimal config.property
            ++ ": " ++ Coded.name status)
          ((line :: lines, keys), relay, server)
      else subscribeAll configs relay server

def unsubscribeAll : List PropertyKey → Relay → Server → Relay × Server
  | [], relay, server => (relay, server)
  | key :: keys, relay, server =>
      let (_, relay, server) := relay.unsubscribe key server
      unsubscribeAll keys relay server

/-- What the daemon does between its connection and its first wait. -/
def introduce (ready : Bool) (waitMillis : UInt64) (relay : Relay) (server : Server) :
    (List LogLine × List PropertyKey) × Relay × Server :=
  let reached :=
    if ready then info "Vehicle server is reachable"
    else warning ("Vehicle server not reachable after " ++ Decimal.text waitMillis.toNat
      ++ "ms, continuing")
  let (configs, relay, server) := relay.propertyConfigs server
  let (health, relay, server) := relay.checkHealth server
  let ((lines, keys), relay, server) := subscribeAll configs relay server
  let log := [reached,
    info ("Vehicle server exposes " ++ Decimal.text configs.length ++ " properties"),
    info ("Health: " ++ Coded.name health)] ++ lines ++
    [info ("Subscribed to " ++ Decimal.text keys.length ++ " property areas")]
  ((log, keys), relay, server)

/-- The line that is logged for a change. -/
def changeLine (value : PropertyValue) : LogLine :=
  info (JsonForm.toText value)

/-! ## The server in memory -/

def speedKey : PropertyKey := ⟨0x11600207, 0⟩

def demoConfigs : List PropertyConfig := [
  { property := speedKey.property
    access := .read
    changeMode := .continuous
    minSampleRate := .ofInt 1
    maxSampleRate := .ofInt 10 },
  { property := 0x15600503
    access := .readWrite
    changeMode := .onChange
    areas := [
      { area := 0x31
        access := .readWrite
        minSingle := .ofInt 16
        maxSingle := .ofInt 28 }] }]

/-- The speed that is pushed at one second. -/
def demoSample (second : Nat) : PropertyValue :=
  ((PropertyValue.selecting speedKey).withTimestamp (Int64.ofNat (second * 1000000000)))
    |>.withSingles [.ofInt (second % 30 : Nat)]

/-- The first changes that are logged.  The sample of the first second is pushed
before anybody listens. -/
def demoEvents (count : Nat) : List PropertyValue :=
  (List.range count).map fun index => demoSample (index + 2)

/-! ## Runs -/

/-- The changes that a relay dispatches for batches of one stream. -/
def changes (relay : Relay) : List Batch → List PropertyValue
  | [] => []
  | batch :: batches =>
      let (events, relay) := relay.deliver (.still 0) batch
      events.flatMap ChangeEvent.values ++ changes relay batches

def remoteEvents (relay : Relay) (server : RemoteServer) : List PropertyValue :=
  match server.streamValues with
  | (.ok (batches, _), _) =>
      changes { relay with callbacks := relay.callbacks.registerChange 1 } batches
  | (.error _, _) => []

/-- Ends a run when the daemon is interrupted, which happens once a number of
changes has been logged. -/
def conclude (log : List LogLine) (events : List PropertyValue) (awaited : Nat)
    (sent : List Sent) (sentOnShutdown : List Sent) : Report :=
  if awaited ≤ events.length then
    { log, events, interrupted := true, sent := sent ++ sentOnShutdown }
  else { log, events, sent }

def runDemo (log : List LogLine) (arguments : Arguments) (settings : Settings)
    (awaited : Nat) : Report :=
  let server := ScriptedServer.ofConfigs demoConfigs
  let relay := Relay.start settings.options
  let ((lines, _), _, _) := introduce server.reachable arguments.waitMillis relay server
  conclude (log ++ info "Using in-process mock vehicle server" :: lines) (demoEvents awaited)
    awaited [] []

def runRemote (log : List LogLine) (arguments : Arguments) (settings : Settings) (link : Link)
    (awaited : Nat) : Report :=
  let server : RemoteServer := { link }
  let relay := Relay.start settings.options
  let ((lines, keys), relay, server) :=
    introduce server.isReady arguments.waitMillis relay server
  let (_, last) := unsubscribeAll keys relay { server with sent := [] }
  conclude (log ++ lines) (remoteEvents relay server) awaited server.sent last.sent

/-- A run that is interrupted once the awaited number of changes is logged. -/
def run (arguments : Arguments) (environment : Environment) (awaited : Nat) : Report :=
  let log := info "Starting vhal-bridged (Vehicle Hardware Bridge Daemon)" ::
    arguments.unknown.map fun argument => warning ("Unknown argument: " ++ argument)
  let (line, loaded) :=
    match arguments.settingsPath with
    | some path =>
        (info ("Loading config from: " ++ path), Settings.ofFile (environment.file path))
    | none => (info "No config file provided, using defaults", .ok {})
  let log := log ++ [line]
  match loaded with
  | .error failure => { log, failure := some failure }
  | .ok settings =>
      if arguments.demo then runDemo log arguments settings awaited
      else
        match settings.readyToConnect with
        | .error failure => { log, failure := some failure }
        | .ok settings =>
            runRemote log arguments settings (environment.link settings.server.address) awaited

end Daemon

end VehicleRelay
