import GpioBridge.FileTree.Basic
import GpioBridge.Settings.Basic
import GpioBridge.Toml.Document
import GpioBridge.Transport.Address
import GpioBridge.Wire.Utf8

namespace GpioBridge

inductive SettingsFault where
  | fileNotFound
  -- There is something at the path, but no text can be read from it.
  | unreadable (detail : String)
  | malformed
  | invalid (detail : String)
  deriving DecidableEq, Repr

def SettingsFault.message : SettingsFault → String
  | fileNotFound => "Configuration file not found"
  | unreadable detail => s!"Failed to parse configuration: {detail}"
  | malformed => "Failed to parse configuration: not a document of settings"
  | invalid detail => s!"Configuration validation failed: {detail}"

namespace Settings

open Toml (Value)

abbrev Section := String → Option Value

def section? (fields : List String) : Value → Option Section
  | .table entries =>
    let known := fun (entry : String × Value) => fields.contains entry.1
    if entries.all fun entry => known entry || entry.2.passable then
      some fun field => entries.lookup field
    else none
  | .array items => some fun field => (fields.zip items).lookup field
  -- A time stands for itself and has none of the fields.
  | .time => some fun _ => none
  | _ => none

def text? : Value → Option String
  | .text s => some s
  | _ => none

def word? : Value → Option UInt64
  | .integer n => if 0 ≤ n ∧ n < UInt64.size then some (UInt64.ofNat n.toNat) else none
  | _ => none

def texts? : Value → Option (List String)
  | .array items => items.mapM text?
  | _ => none

def severityNamed? : String → Option Severity
  | "trace" => some .trace
  | "debug" => some .debug
  | "info" => some .info
  | "warn" => some .warn
  | "error" => some .error
  | _ => none

-- A severity by its name, or as the only key of a table with nothing under it.
def severity? : Value → Option Severity
  | .text name => severityNamed? name
  | .table [(name, .table [])] | .table [(name, .array [])] => severityNamed? name
  | _ => none

-- A field of a section, or its standard value where the section leaves it out.
def field (sec : Section) (name : String) (read : Value → Option α) (standard : α) : Option α :=
  match sec name with
  | none => some standard
  | some v => read v

-- A section nobody knows is refused, a field nobody knows is passed over.
def withSection (name : String) (v : Value) (settings : Settings) : Option Settings :=
  match name with
  | "shared" => do
    let sec ← section? ["log_level", "service_name"] v
    let logLevel ← field sec "log_level" severity? settings.logLevel
    let serviceName ← field sec "service_name" text? settings.serviceName
    return { settings with logLevel, serviceName }
  | "engine" => do
    let sec ← section? ["reply_timeout_ms"] v
    let replyTimeout ← field sec "reply_timeout_ms" word? settings.replyTimeout
    return { settings with replyTimeout }
  | "lifecycle" => do
    let sec ← section? ["max_chips"] v
    let maxChips ← field sec "max_chips" (fun v => (word? v).map some) settings.maxChips
    return { settings with maxChips }
  | "transport" => do
    let sec ← section? ["listen", "peers", "poll_interval_ms"] v
    let listen ← field sec "listen" text? settings.listen
    let peers ← field sec "peers" texts? settings.peers
    let pollInterval ← field sec "poll_interval_ms" word? settings.pollInterval
    return { settings with listen, peers, pollInterval }
  | "status" => do
    let sec ← section? ["path", "interval_ms"] v
    let reportPath ← field sec "path" (fun v => (text? v).map some) settings.reportPath
    let reportInterval ← field sec "interval_ms" word? settings.reportInterval
    return { settings with reportPath, reportInterval }
  | _ => none

def ofText (text : String) : Except SettingsFault Settings :=
  match Toml.parse? text with
  | none => .error .malformed
  | some entries =>
    match entries.foldlM (fun settings (name, v) => withSection name v settings) {} with
    | none => .error .malformed
    | some settings => .ok settings

def ofBytes (bytes : List UInt8) : Except SettingsFault Settings :=
  match Utf8.text bytes with
  | .error _ => .error (.unreadable "stream did not contain valid UTF-8")
  | .ok text => ofText text

def load (path : String) (files : FileTree) : Except SettingsFault Settings :=
  match files.read path with
  | .ok text => ofText text
  | .error .missing => .error .fileNotFound
  | .error fault => .error (.unreadable fault.message)

def address (field value : String) : Except SettingsFault SocketAddress :=
  match SocketAddress.parse? value with
  | some address => .ok address
  | none => .error (.invalid s!"{field}: '{value}': invalid socket address syntax")

def listenAddress (settings : Settings) : Except SettingsFault SocketAddress :=
  address "transport.listen" settings.listen

def peerAddresses (settings : Settings) : Except SettingsFault (List SocketAddress) :=
  settings.peers.mapM (address "transport.peers")

-- Refuses settings no service can run with; of several faults the first is told.
def check (settings : Settings) : Except SettingsFault Unit := do
  if settings.serviceName = "" then throw (.invalid "service_name cannot be empty")
  if settings.replyTimeout = 0 then throw (.invalid "engine.reply_timeout_ms must be > 0")
  if settings.maxChips = some 0 then throw (.invalid "lifecycle.max_chips must be > 0 when set")
  if settings.pollInterval = 0 then throw (.invalid "transport.poll_interval_ms must be > 0")
  if settings.reportInterval = 0 then throw (.invalid "status.interval_ms must be > 0")
  let _ ← settings.listenAddress
  let _ ← settings.peerAddresses
  return ()

end Settings

end GpioBridge
