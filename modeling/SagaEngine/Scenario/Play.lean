import SagaEngine.Dispatch.Worker
import SagaEngine.Scenario.World
/-!
# Playing a scenario

The answers of a world to the engine's requests, and the effect of each
operation. While a step is being called, its script may run further operations;
how deep they nest is bounded, and `play` is the whole with a bound that no
scenario reaches.
-/

namespace SagaEngine.Scenario

namespace World

/-- How operations run while a step is being called. -/
abbrev Player := Op → World → Reply × World

/-- Runs the operations of a script entry for the execution being called. -/
def runSide (side : Player) (executionId : String) (ops : List Op) (w : World) : World :=
  ops.foldl (fun w op =>
    let op := op.forExecution executionId
    let (reply, w) := side op w
    w.note (.side op.name reply)) w

/-- Lets a service answer a request, by its script. -/
def serve (side : Player) (executionId : String) (act : ServiceAct) (w : World) :
    CallReply × World :=
  let w := runSide side executionId act.side (w.pass act.takes)
  match act.raised with
  | some message => (.threw message, w)
  | none => (.status act.code act.message, w)

/-- What a service answers to a caller without protection. -/
def plainReply (act : ServiceAct) : CallReply → ServiceReply
  | .threw message => .threw message
  | .threwOther => .threwOther
  | .status code message =>
    let result := CallResult.ofStatus code message
    .answered { result with outcome := act.outcome.getD result.outcome } act.assignedId

/-- Takes the next entry of a service's script. -/
def takeServiceAct (w : World) (request : ServiceRequest) : ServiceAct × World :=
  w.takeAct (.service request.verb) ((w.services.get? request.verb).getD [])

/-- Calls a service through its caller. -/
def protectedRequest (side : Player) (executionId : String) (request : ServiceRequest)
    (callers : ServiceCallers) (caller : RemoteCaller) (w : World) : ServiceReply × World :=
  let name := request.service.name
  match caller.admission w.clock with
  | (none, caller) =>
    let w := { w with callers := some (callers.insert name caller) }
    (.answered (.circuitOpen caller.target) "", w.log (caller.refusedLine request.method))
  | (some deadline, caller) =>
    let w := { w with callers := some (callers.insert name caller) }
    let w := w.note (.request request (some (deadline - w.clock)))
    let (act, w) := w.takeServiceAct request
    let (reply, w) := serve side executionId act w
    let callers := w.callers.getD Dictionary.empty
    let caller := (callers.get? name).getD caller
    let (result, lines, caller) := caller.settle request.method reply w.clock
    let w := { w with callers := some (callers.insert name caller) }.logAll lines
    match result with
    | .ok result => (.answered result act.assignedId, w)
    | .error (some message) => (.threw message, w)
    | .error none => (.threwOther, w)

def request (side : Player) (executionId : String) (request : ServiceRequest) (w : World) :
    ServiceReply × World :=
  match w.callers with
  | some callers =>
    match callers.get? request.service.name with
    | some caller => protectedRequest side executionId request callers caller w
    | none => (.threwOther, w)
  | none =>
    let (act, w) := (w.note (.request request none)).takeServiceAct request
    let (reply, w) := serve side executionId act w
    (plainReply act reply, w)

/-- Carries out what a step of the create-order saga plans. -/
def carryOut (side : Player) (call : StepCall) (plan : CreateOrder.Plan) (w : World) :
    StepReply × World :=
  match plan with
  | .settled result => (.returned result, w)
  | .request rq settle =>
    match request side call.executionId rq w with
    | (.answered result id, w) =>
      let (result, lines) := settle result id
      (.returned result, w.logAll lines)
    | (.threw message, w) => (.threw message, w)
    | (.threwOther, w) => (.threwOther, w)

/-- Calls a step, by its script or its plan. -/
def callStep (side : Player) (sagaType : String) (call : StepCall) (w : World) :
    StepReply × World :=
  match w.behaviours.get? sagaType with
  | some (.scripted steps) =>
    let acts := ((steps[call.index.toNat]?).map (·.acts call.phase)).getD []
    let (act, w) := w.takeAct (.step sagaType call.index call.phase) acts
    let w := (w.note (.call call)).pass act.takes
    (act.reply, runSide side call.executionId act.side w)
  | some .createOrder =>
    match CreateOrder.Stage.ofIndex? call.index with
    | some stage => carryOut side call (stage.plan call) w
    | none => (.threwOther, w)
  | none => (.threwOther, w)

def answer (side : Player) (q : Request) (w : World) : Response q × World :=
  match q with
  | .now => (w.now, w)
  | .freshId => (w.nextId, w)
  | .begin => w.storeCall .begin Store.begin
  | .insert tx row => w.insertNew tx row
  | .find tx id => w.findRow tx id
  | .update tx row expected => w.storeWrite .update row.version (Store.update tx row expected)
  | .listByStatus tx status limit => w.storeCall .list (Store.listByStatus tx status limit)
  | .listStale tx query => w.storeCall .stale (Store.listStale tx query)
  | .commit tx => w.storeCall .commit (Store.commit tx)
  | .drop tx => ((), w.dropTransaction tx)
  | .acquire id =>
    let (lease, leases) := w.leases.tryAcquire id "engine" w.clock
    (lease, { w with leases })
  | .release lease => ((), { w with leases := w.leases.release lease })
  | .call sagaType call => callStep side sagaType call w
  | .openSpan info =>
    let (span, tracing) := w.recorder.tracing.openSpan info
    (span, w.onSpans fun _ => tracing)
  | .failSpan span outcome message => ((), w.onSpans (·.fail span outcome message))
  | .closeSpan span => ((), w.onSpans (·.close span))
  | .log entry => ((), w.log entry)
  | .alert alert => ((), w.raise alert)
  | .completed row => ((), if w.listening then w.note (.completed row) else w)
  | .dispatch id => w.dispatchExecution id
  | .sleep delay => ((), w.wait delay)
  | .requeue id delay => ((), { w with queue := w.queue.enqueueAfter id delay w.clock })
  | .finished id => ((), { w with queue := w.queue.done id })
  | .alertedCount => (w.alerted.length, w)
  | .wasAlerted id => (w.alerted.contains id, w)
  | .markAlerted id =>
    ((), if w.alerted.contains id then w else { w with alerted := id :: w.alerted })

/-- Runs an action of the engine. -/
def perform (side : Player) (action : Action α) (reply : α → Reply) (w : World) : Reply × World :=
  match action.run (answer side) w with
  | (.ok value, w) => (reply value, w)
  | (.error failure, w) => (.failed failure, w)

/-- Lets one worker empty the queue, a bounded number of times. -/
def workWithin (side : Player) : Nat → World → World
  | 0, w => w
  | turns + 1, w =>
    if w.queue.inFlight.isEmpty then w
    else
      match w.queue.await w.clock with
      | (some (some id, clock), queue) =>
        let (_, w) := perform side (Worker.process w.engine id) (fun _ => .nothing)
          { w with queue, clock }
        workWithin side turns w
      | (_, queue) => { w with queue }

/-- Lets one worker empty the queue and closes it. -/
def work (side : Player) (w : World) : World :=
  let w := w.onThread (workWithin side w.engine.patience)
  { w with queue := w.queue.shutdown }

/-- Makes sweeps with the interval between them. -/
def sweepTimes (side : Player) : Nat → World → World
  | 0, w => w
  | n + 1, w =>
    let (_, w) := perform side (Sweep.guarded w.engine w.recovery) (fun _ => .nothing) w
    if n = 0 then w else sweepTimes side n (w.pass (max 0 w.recovery.interval))

/-- Lets the scanner make sweeps with the interval between them. -/
def sweeps (side : Player) (n : Nat) (w : World) : World := w.onThread (sweepTimes side n)

/-- Claims an execution for someone else. -/
def claim (w : World) (executionId owner slot : String) : Bool × World :=
  let (lease, kept, leases) := w.kept.acquire w.leases slot executionId owner w.clock
  (lease.isSome, { w with kept, leases })

/-- Runs one operation. -/
def runOp (side : Player) (op : Op) (w : World) : Reply × World :=
  match op.withSlot.mapIds w.idOf with
  | .start sagaType context =>
    match (w.engine.start sagaType context).run (answer side) w with
    | (.ok id, w) => (.started id, w.pass 1)
    | (.error failure, w) => (.failed failure, w)
  | .get id => perform side (Engine.getStatus id) .row w
  | .list status limit => perform side (Engine.list status limit) .rows w
  | .cancel id => perform side (Engine.cancel id) (fun _ => .nothing) w
  | .resume id => perform side (w.engine.resume id) (fun _ => .nothing) w
  | .drive id => perform side (w.engine.drive id) .row w
  | .advance id => perform side (w.engine.advance id) .advanced w
  | .tick ms => (.nothing, w.pass ms)
  | .insert row =>
    match w.insertRow (row w.clock) with
    | (.ok answer, w) => (.written answer, w)
    | (.error failure, w) => (.failed (.store failure), w)
  | .touch id edit =>
    match w.touch id edit with
    | (.ok _, w) => (.nothing, w)
    | (.error failure, w) => (.failed (.store failure), w)
  | .lease id owner slot =>
    let (granted, w) := w.claim id owner (slot.getD id)
    (.flag granted, w)
  | .unlease id slot =>
    let (had, kept, leases) := w.kept.release w.leases (slot.getD id)
    (.flag had, { w with kept, leases })
  | .held id =>
    let (held, leases) := w.leases.isHeld id w.clock
    (.flag held, { w with leases })
  | .sweep now =>
    perform side (Sweep.once w.engine w.recovery (now.getD w.now)) .swept w
  | .sweepLoop n =>
    let w := sweeps side n w
    (.time w.clock, w)
  | .pool =>
    let w := work side w
    (.time w.clock, w)
  | .queueLength => (.count w.queue.inFlight.length, w)
  | .types => (.types w.engine.registry.types, w)
  | .unsetHooks => (.nothing, { w with dispatch := .nobody, listening := false })
  | .unreadable => (.unreadable, w)

/-- Runs one operation whose scripts nest at most so deep. -/
def playWithin : Nat → Player
  | 0 => fun _ w => (.nothing, w)
  | depth + 1 => runOp (playWithin depth)

/-- How deep scripts may nest. -/
def nesting : Nat := 1 <<< 40

/-- Runs one operation. -/
def play : Player := playWithin nesting

end World

/-- What an operation came to: its reply, what happened, and what was observed. -/
structure Report where
  op : Op
  reply : Reply
  events : List Event
  lines : List LogLine
  spans : List Span

/-- Runs one operation and reports it. -/
def World.step (w : World) (op : Op) : Report × World :=
  let (reply, w) := w.play op
  let (lines, recorder) := w.recorder.takeLines
  let (spans, _, tracing) := recorder.tracing.take
  ({ op, reply, events := w.events, lines, spans },
    { w.forgetEvents with recorder := { recorder with tracing } })

/-- Runs operations in order and reports each. -/
def World.steps (w : World) (ops : List Op) : List Report × World :=
  ops.foldl (fun (acc : List Report × World) op =>
    let (report, w) := acc.2.step op
    (acc.1 ++ [report], w)) ([], w)

end SagaEngine.Scenario
