import GpioBridge.CommandLine.Session
import GpioBridge.Text.Json

namespace GpioBridge

def Event.written (json : Bool) (event : Event) : String :=
  if json then
    let fields := ("message", event.text) :: event.fields
    let written := fields.map fun (name, value) =>
      JsonValue.quoted name ++ ":" ++ JsonValue.quoted value
    "\x7b\"level\":" ++ JsonValue.quoted event.severity.text ++ ",\"fields\":\x7b" ++
      ",".intercalate written ++ "\x7d,\"target\":" ++ JsonValue.quoted event.area.target ++ "\x7d"
  else event.severity.text ++ " " ++ event.terminalLine

-- The files a run can see: the one its settings are read from.
def visibleFiles (invocation : Invocation) : IO FileTree := do
  let path := invocation.settingsPath.getD Settings.defaultPath
  try
    return ({} : FileTree).plant path (← IO.FS.readFile path)
  catch _ => return {}

partial def awaitEnd (input : IO.FS.Stream) : IO Unit := do
  if (← input.getLine).isEmpty then return ()
  awaitEnd input

def runProgram (arguments : List String) : IO UInt32 := do
  match Invocation.ofArguments arguments with
  | .error halt =>
    halt.lines.forM IO.println
    return halt.exitCode
  | .ok invocation =>
    let session := Session.run invocation {} (← visibleFiles invocation)
    session.started.forM fun event => IO.println (event.written invocation.json)
    if session.exitCode = 0 then
      awaitEnd (← IO.getStdin)
    session.ended.forM fun event => IO.println (event.written invocation.json)
    return session.exitCode

end GpioBridge

def main (arguments : List String) : IO UInt32 := GpioBridge.runProgram arguments
