import GpioBridge.FileTree.Path
import GpioBridge.Hub.Basic
import GpioBridge.Settings.Basic
import GpioBridge.Text.Json

namespace GpioBridge

inductive Phase where
  | starting
  | running
  | stopped
  deriving DecidableEq, Repr, Inhabited

def Phase.text : Phase → String
  | starting => "starting"
  | running => "running"
  | stopped => "stopped"

def Phase.name : Phase → String
  | starting => "Starting"
  | running => "Running"
  | stopped => "Stopped"

structure Report where
  serviceName : String
  version : String := releaseVersion
  apiVersion : ApiVersion := .current
  processId : UInt32
  phase : Phase
  -- Milliseconds since the service was made.
  uptime : UInt64
  chips : List Chip.Summary
  counters : Counters
  deriving DecidableEq, Repr

namespace Report

def chipJson (chip : Chip.Summary) : JsonValue := .record [
  ("uid", .number chip.uid.toNat),
  ("label", .text chip.label),
  ("line_count", .number chip.lineCount.toNat),
  ("initialized", .truth chip.initialized),
  ("registered", .truth chip.registered)]

def countersJson (counters : Counters) : JsonValue := .record [
  ("sent", .number counters.sent.toNat),
  ("timed_out", .number counters.timedOut.toNat),
  ("dispatched", .number counters.dispatched.toNat),
  ("dropped", .number counters.dropped.toNat)]

def json (report : Report) : JsonValue := .record [
  ("service_name", .text report.serviceName),
  ("version", .text report.version),
  ("api_version", .text report.apiVersion.text),
  ("process_id", .number report.processId.toNat),
  ("state", .text report.phase.text),
  ("uptime_ms", .number report.uptime.toNat),
  ("chips", .list (report.chips.map chipJson)),
  ("counters", countersJson report.counters)]

def text (report : Report) : String := report.json.document

-- The file a report is written to first: beside the report file, with another extension.
def draftPath (path : String) : String := FilePath.withExtension "tmp" path

end Report

end GpioBridge
