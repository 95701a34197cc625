import SagaEngine.Daemon.CommandLine
import SagaEngine.Json.Reader
/-!
# The daemon

Reads the configuration that the command line names, starts the application and
stops it when the standard input ends. A configuration is a document in flow
style, that is JSON. Executions live as long as the process.
-/

namespace SagaEngine.Daemon

/-- The document in a file, or why it cannot be read. -/
def readDocument (path : String) : IO (Except String YamlNode) := do
  match ← (IO.FS.readFile path).toBaseIO with
  | .error e => return .error (toString e)
  | .ok text =>
    match Json.read? text with
    | some j => return .ok (.ofJson j)
    | none => return .error "not a document in flow style"

/-- The environment variables that the daemon looks at. -/
def variableNames : List String :=
  ["SAGA_LOG_LEVEL", "SAGA_LOG_PATTERN", "SAGA_LOG_INCLUDE_TRACE_CONTEXT",
    "OTEL_EXPORTER_OTLP_TRACES_ENDPOINT", "OTEL_EXPORTER_OTLP_ENDPOINT"]

/-- The environment of the process. -/
def environment : IO Environment :=
  variableNames.foldlM (fun env name => do
    match ← IO.getEnv name with
    | some value => return env.insert name value
    | none => return env) Dictionary.empty

def pathOf (place : List String) : String := "/" ++ "/".intercalate place

/-- Whether there is something at a path that can be read. -/
def isReadable (path : String) : IO Bool :=
  return (← (IO.FS.Handle.mk path .read).toBaseIO).isOk

/-- What is at a place; only a directory has a part of its own name. -/
def entryAt (place : List String) : IO (Option FileEntry) := do
  if ← isReadable (pathOf place ++ "/.") then return some (.directory true) else return none

/-- The file system, as far as it matters to a path. -/
def filesAround (path : String) : IO FileTree := do
  let root : FileTree := { working := [], entry? := fun _ => none }
  let tree := { root with working := (root.locate? (← IO.currentDir).toString).getD [] }
  match tree.locate? path with
  | none => return tree
  | some place =>
    let itself ← entryAt place
    let above ← entryAt place.dropLast
    return { tree with entry? := fun p =>
      if p = place then itself else if p = place.dropLast then above else none }

/-- The file system, as far as it matters to a configuration. -/
def filesFor (settings : Except ConfigError RuntimeSettings) : IO FileTree :=
  match settings.toOption.bind (·.backend) with
  | some (.sqlite path _) => filesAround path
  | _ => filesAround ""

/-- Writes log lines to the error stream. -/
def emit (lines : List LogLine) : IO Unit := lines.forM fun line => IO.eprintln line.text

/-- Says how a run ended. -/
def conclude (e : Ending) : IO UInt32 := do
  emit e.lines
  IO.print e.output
  IO.eprint e.errorOutput
  return UInt32.ofNat e.exitCode

/-- Reads the standard input to its end. -/
partial def awaitEnd (input : IO.FS.Stream) : IO Unit := do
  if !(← input.getLine).isEmpty then awaitEnd input

/-- Serves a configuration until the standard input ends. -/
def serve (path : String) (settings : Except ConfigError RuntimeSettings) : IO UInt32 := do
  let files ← filesFor settings
  let clock ← IO.monoMsNow
  match Application.launch path settings (← environment) files clock {} with
  | .error ending => conclude ending
  | .ok a =>
    let (lines, recorder) := a.world.recorder.takeLines
    emit lines
    awaitEnd (← IO.getStdin)
    conclude (Application.stop { a with world := { a.world with recorder } })

end SagaEngine.Daemon

open SagaEngine in
def main (args : List String) : IO UInt32 := do
  match Invocation.ofArgs? args with
  | none => Daemon.conclude .misused
  | some i =>
    let settings := RuntimeSettings.ofFile i.configPath (← Daemon.readDocument i.configPath)
    if i.checkOnly then Daemon.conclude (.checked i.configPath settings)
    else Daemon.serve i.configPath settings
