import SagaEngine.Config.Resolution
import SagaEngine.Scenario.Play
import SagaEngine.Scenario.Setup
/-!
# The application

Everything that a configuration asks for, put together around one engine for the
create-order saga. Dispatched executions wait in the queue until the application
runs: it reports the failed executions that wait for a person, sweeps once if
recovery is enabled and lets a worker empty the queue.
-/

namespace SagaEngine

open Scenario

/-- A configured engine in its surroundings. -/
structure Application where
  recoveryEnabled : Bool
  world : World

namespace Application

/-- How many failed executions are reported at the start. -/
def reportLimit : Nat := 100

/-- The engine for the create-order saga under a configuration. -/
def buildEngine (s : RuntimeSettings) (services : OrderServices) : Except SetupError Engine := do
  let r ← (services.register (s.retryPolicy CreateOrder.sagaType) {}).mapError .registration
  (Engine.ofRegistry r.freeze).mapError .engine

/-- The parts that can be missing or refused, with the lines about them: callers of
the services, then the store, then the engine. -/
def buildParts (s : RuntimeSettings) (services : OrderServices) (files : FileTree) :
    Except SetupError (Option ServiceCallers × Store × Engine) × List LogEntry :=
  match services.buildCallers with
  | (.error e, lines) => (.error e, lines)
  | (.ok callers, lines) =>
    match s.buildStore files with
    | (.error failure, more) => (.error (.store failure), lines ++ more)
    | (.ok store, more) =>
      ((buildEngine s services).map fun engine => (callers, store, engine), lines ++ more)

/-- Puts an application together, at a time. What was logged is in the recorder,
also if it fails. -/
def build (s : RuntimeSettings) (services : OrderServices) (files : FileTree)
    (clock : Int) (recorder : Recorder) : Except SetupError Application × Recorder :=
  let (parts, lines) := buildParts s services files
  let recorder := recorder.logAll lines
  match parts with
  | .error e => (.error e, recorder)
  | .ok (callers, store, engine) =>
    let recorder := recorder.provideAlerts s.loggingOrEmpty.alertLogPath
    (.ok
      { recoveryEnabled := s.recoveryEnabled
        world :=
          { engine, clock, store, callers, recorder
            leases := { ttl := s.leaseTtl }
            dispatch := .queue true
            listening := false
            sleepsSilently := true
            alertsLogged := true
            behaviours := Dictionary.empty.insert CreateOrder.sagaType .createOrder
            services := services.scripts
            recovery := s.recoveryOptions } }, recorder)

/-- The line about failed executions, oldest first, if there are any. -/
def failedLine (rows : List Execution) : Option LogEntry :=
  match rows with
  | [] => none
  | oldest :: _ => some (.warn "failed executions awaiting intervention"
      [.int "count" rows.length, .bool "truncated" (rows.length = reportLimit),
        .text "oldest_execution_id" oldest.id])

/-- The line about an application that has started. -/
def runningLine (a : Application) : LogEntry :=
  .info "orchestrator running"
    [.text "sagas" (",".intercalate a.world.engine.registry.types),
      .bool "recovery" a.recoveryEnabled]

/-- Starts an application: the report and, if recovery is enabled, a sweep. -/
def start (a : Application) : Except Failure Unit × Application :=
  match (Engine.list .failed reportLimit).run (World.answer World.play) a.world with
  | (.error failure, world) => (.error failure, { a with world })
  | (.ok rows, world) =>
    let world := world.logAll (failedLine rows).toList
    let world := if a.recoveryEnabled then World.sweeps World.play 1 world else world
    (.ok (), { a with world := world.log a.runningLine })

/-- Lets a worker empty the queue, then stops. -/
def finish (a : Application) : Application := { a with world := World.work World.play a.world }

/-- Runs one operation on the engine of an application and reports it. -/
def step (a : Application) (op : Op) : Report × Application :=
  let (report, world) := a.world.step op
  (report, { a with world })

end Application

end SagaEngine
