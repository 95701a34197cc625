import SagaEngine.Config.Document
import SagaEngine.Daemon.Application
/-!
# The command line of the daemon

A command line names one configuration. It is either checked or served; what can
go wrong before the engine runs ends the run with an error.
-/

namespace SagaEngine

open Scenario

/-- What a command line asks for. -/
structure Invocation where
  checkOnly : Bool
  configPath : String
  deriving DecidableEq, Repr

namespace Invocation

/-- Reads the arguments on top of what was read so far. The path may be given
again by its flag; as an argument of its own it is taken once only, and it does
not look like a flag. -/
def extend (checkOnly : Bool) (path : String) : List String → Option Invocation
  | [] => if path.isEmpty then none else some ⟨checkOnly, path⟩
  | "--check" :: rest => extend true path rest
  | "--config" :: value :: rest => extend checkOnly value rest
  | arg :: rest =>
    if path.isEmpty && !arg.startsWith "--" then extend checkOnly arg rest else none

/-- Reads a command line, unless it is malformed. -/
def ofArgs? (args : List String) : Option Invocation := extend false "" args

/-- What is said about a malformed command line. -/
def usage : String :=
  "Usage: saga-orchestrator [--check] <config.yaml>\n" ++
    "       saga-orchestrator [--check] --config <config.yaml>\n" ++
    "  --check  validate the configuration and exit\n"

end Invocation

/-- How a run of the daemon ended. -/
structure Ending where
  exitCode : Nat
  output : String := ""
  errorOutput : String := ""
  lines : List LogLine := []
  observersClosed : Bool := false
  deriving Repr, Inhabited

namespace Ending

/-- The end of a run with a malformed command line. -/
def misused : Ending := { exitCode := 1, errorOutput := Invocation.usage }

/-- The end of a run that checks a configuration. -/
def checked (path : String) (loaded : Except ConfigError RuntimeSettings) : Ending :=
  match loaded with
  | .ok _ => { exitCode := 0, output := path ++ ": ok\n" }
  | .error e => { exitCode := 2, errorOutput := path ++ ": " ++ e.message ++ "\n" }

/-- The end of a run that served, whose observers were closed. -/
def served (exitCode : Nat) (recorder : Recorder) : Ending :=
  { exitCode, lines := recorder.lines, observersClosed := true }

/-- The end of a run that could not go on. -/
def broken (recorder : Recorder) (message : String) : Ending :=
  served 2 (recorder.log (.err "fatal error" [.text "error" message]))

end Ending

namespace Application

/-- The application that a loaded configuration asks for: spans come first, then
log lines, then everything else. -/
def ofSettings (s : RuntimeSettings) (environment : Environment)
    (files : FileTree) (clock : Int) (recorder : Recorder) :
    Except SetupError Application × Recorder :=
  let (_, recorder) := recorder.startTracing s environment
  build s { collaborators := some s.collaboratorsOrEmpty } files clock
    (recorder.setUpLogging s environment)

/-- Starts the application of a configuration, or says how the run ended. -/
def launch (path : String) (loaded : Except ConfigError RuntimeSettings)
    (environment : Environment) (files : FileTree) (clock : Int)
    (recorder : Recorder) : Except Ending Application :=
  match loaded with
  | .error e => .error (.broken recorder e.message)
  | .ok settings =>
    match ofSettings settings environment files clock recorder with
    | (.error e, recorder) => .error (.broken recorder e.message)
    | (.ok a, _) =>
      match a.start with
      | (.error failure, a) => .error (.broken a.world.recorder failure.message)
      | (.ok _, a) =>
        .ok { a with world := a.world.log (.info "saga orchestrator started"
          [.text "config" path, .bool "recovery_enabled" a.recoveryEnabled]) }

/-- Stops an application and ends the run. -/
def stop (a : Application) : Ending :=
  let a := { a with world := a.world.log (.info "saga orchestrator stopping" []) }
  .served 0 a.finish.world.recorder

end Application

/-- The run of a command line; one that serves is told to stop when it is idle. -/
def Ending.ofInvocation (i : Invocation) (loaded : Except ConfigError RuntimeSettings)
    (environment : Environment) (files : FileTree) (clock : Int)
    (recorder : Recorder) : Ending :=
  if i.checkOnly then .checked i.configPath loaded
  else
    match Application.launch i.configPath loaded environment files clock recorder with
    | .error ending => ending
    | .ok a => a.stop

end SagaEngine
