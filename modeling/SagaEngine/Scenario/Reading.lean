import SagaEngine.Config.Fields
import SagaEngine.Saga.Members
import SagaEngine.Scenario.Setup
/-!
# Reading scenarios

A scenario is written as a JSON object: what it starts from and, by name, the
operations that are run on it. What is left out has a default.
-/

namespace SagaEngine

/-- The environment of an object. A variable has no zero codes. -/
def Environment.ofMembers (j : Json) : Environment :=
  Dictionary.ofList (j.asMembers.map fun m => (untilZero m.1, untilZero m.2.asText))

/-- The options of an object; what is absent keeps the built-in value. -/
def RecoveryOptions.ofMembers (j : Json) : RecoveryOptions :=
  let d : RecoveryOptions := {}
  { interval := j.intAt "interval_ms" d.interval
    staleAfter := j.intAt "stale_after_ms" d.staleAfter
    alertAfter := j.intAt "alert_after_ms" d.alertAfter
    batchLimit := j.natAt "batch_limit" d.batchLimit }

namespace Scenario

/-- The row that an object describes at a time, on top of one that has just started. -/
def insertedRow (j : Json) (clock : Int) : Execution :=
  Execution.withMembers j
    { sagaType := "T"
      context := Context.toBlob Dictionary.empty
      createdAt := wrapWord64 clock
      updatedAt := wrapWord64 clock
      version := 1 }

/-- The start of an execution; the values of its order draft do not replace others. -/
def startOf (j : Json) : Op :=
  let values := Context.ofMembers (j.objectAt "context")
  match j.at? "draft" with
  | none => .start (j.textAt "type") values
  | some draft =>
    match OrderDraft.ofJson? draft with
    | none => .unreadable
    | some draft => .start (j.textAt "type") (draft.toContext.mergeFragment values)

/-- The operation that an object describes. -/
def Op.ofJson? (j : Json) : Option Op :=
  let id := j.textAt "id"
  match j.textAt "op" with
  | "start" => some (startOf j)
  | "get" => some (.get id)
  | "list" =>
    some (.list ((Status.ofName? (j.textAt "status")).getD .started) (j.natAt "limit" 100))
  | "cancel" => some (.cancel id)
  | "resume" => some (.resume id)
  | "drive" => some (.drive id)
  | "advance" => some (.advance id)
  | "tick" => some (.tick (j.intAt "ms"))
  | "insert" => some (.insert (insertedRow (j.objectAt "record")))
  | "touch" => some (.touch id (Execution.withMembers (j.objectAt "set")))
  | "lease" => some (.lease id (j.textAt "owner" "other") ((j.at? "slot").map Json.asText))
  | "unlease" => some (.unlease id ((j.at? "slot").map Json.asText))
  | "held" => some (.held id)
  | "sweep" => some (.sweep ((j.at? "now").map fun n => wrapWord64 n.asInt))
  | "sweep_loop" => some (.sweepLoop (j.intAt "sweeps").toNat)
  | "pool" => some .pool
  | "queue_len" => some .queueLength
  | "types" => some .types
  | "unset_hooks" => some .unsetHooks
  | _ => none

/-- The operations in a member. -/
def Op.listAt (j : Json) (name : String) : List Op := (j.itemsAt name).filterMap ofJson?

/-- How a scripted call comes back. -/
def replyOf (j : Json) : StepReply :=
  let message := j.textAt "message"
  let fragment := Context.ofMembers (j.objectAt "fragment")
  match j.textAt "do" with
  | "retryable" => .returned (.retryable message)
  | "terminal" => .returned (.terminal message)
  | "throw" => .threw message
  | "throw_saga" => .threw message
  | "throw_other" => .threwOther
  | "raw" => .returned ⟨.ofCode (j.intAt "outcome"), message, fragment⟩
  | _ => .returned (.ok fragment)

/-- The script entry that an object describes. -/
def Act.ofJson (j : Json) : Act where
  reply := replyOf j
  takes := j.intAt "takes" 1
  side := Op.listAt j "side"

/-- The step that an object describes. -/
def stepDraftOf (j : Json) : StepDraft where
  name := j.textAt "name"
  hasExecute := !j.boolAt "no_execute"
  hasCompensate := !j.boolAt "no_compensate"

/-- The scripted step that an object describes. -/
def ScriptedStep.ofJson (j : Json) : ScriptedStep where
  draft := stepDraftOf j
  execute := (j.itemsAt "execute").map Act.ofJson
  compensate := (j.itemsAt "compensate").map Act.ofJson

/-- The scripted saga that an object describes. -/
def ScriptedSaga.ofJson (j : Json) : ScriptedSaga where
  sagaType := j.textAt "type"
  steps := (j.itemsAt "steps").map ScriptedStep.ofJson
  retry := .ofMembers (j.objectAt "retry")

/-- The script entry of a service that an object describes. -/
def ServiceAct.ofJson (j : Json) : ServiceAct where
  code := j.int32At "code"
  message := j.textAt "message"
  assignedId := j.textAt "id"
  raised := (j.at? "throw").map Json.asText
  outcome := (j.at? "outcome").map fun n => .ofCode n.asInt
  takes := j.intAt "takes" 1
  side := Op.listAt j "side"

namespace OrderServices

/-- The services with their requests, by name. -/
def layout : List (String × List String) :=
  [("inventory", ["reserve", "release"]), ("payment", ["process", "refund"]),
    ("order", ["confirm"])]

/-- The services that an object describes, unless the settings of their callers are
malformed; a service that is null is not there. -/
def ofJson? (j : Json) : Option OrderServices :=
  let services : OrderServices :=
    { complete := !layout.any fun s => j.nullAt s.1
      scripts := Dictionary.ofList (layout.flatMap fun s => s.2.map fun verb =>
        (verb, ((j.objectAt s.1).itemsAt verb).map ServiceAct.ofJson)) }
  match j.at? "collaborators" with
  | none => some services
  | some settings =>
    (Json.readMessage? CollaboratorsSettings.fields {} settings).map fun settings =>
      { services with collaborators := some settings }

end OrderServices

/-- The call of the store of that name. -/
def StoreCall.ofName? (name : String) : Option StoreCall :=
  match name with
  | "begin" => some begin
  | "insert" => some insert
  | "get" => some find
  | "update" => some update
  | "commit" => some commit
  | "list" => some list
  | "stale" => some stale
  | _ => none

def answerOf (code : WriteCode) (message : String) : Except Refusal Unit :=
  if code = .ok then .ok () else .error (.other code message)

/-- What a fault puts in the place of a call. -/
def Disturbance.ofJson? (call : StoreCall) (j : Json) : Option Disturbance :=
  let message := j.textAt "message"
  match j.at? "throw", j.at? "code" with
  | some kind, _ =>
    some (.raised (.other (if kind.asText = "Conflict" then .conflict else .runtime) message))
  | none, some code =>
    if call.isWrite then
      some (.answered (answerOf ((WriteCode.ofName? code.asText).getD .internalError) message))
    else if call = .find && j.boolAt "missing" then some .missing
    else none
  | none, none => if call = .find && j.boolAt "missing" then some .missing else none

/-- The fault that an object describes. -/
def Fault.ofJson? (j : Json) : Option Fault :=
  (StoreCall.ofName? (j.textAt "on")).map fun call =>
    { on := call
      nth := j.intAt "nth" 1
      count := j.intAt "count" 1
      touches := (j.itemsAt "touch").map fun t =>
        (t.textAt "id", Execution.withMembers (t.objectAt "set"))
      instead := Disturbance.ofJson? call j }

/-- The dispatch mode of that name. -/
def DispatchMode.ofName (name : String) : DispatchMode :=
  match name with
  | "record" => .recorder
  | "queue" => .queue false
  | _ => .nobody

/-- The recorder of a scenario whose spans and lines are set up as an object says. -/
def observedAs (recorder : Recorder) (j : Json) : Option Recorder :=
  match j.at? "observability" with
  | none => some recorder
  | some wanted =>
    (RuntimeSettings.ofJson? (wanted.objectAt "config")).map fun settings =>
      let environment := Environment.ofMembers (wanted.objectAt "env")
      ((recorder.startTracing settings environment).2).setUpLogging settings environment

/-- The create-order saga that an object wants, if it wants it. -/
def createOrderOf? (j : Json) : Option (Option OrderServices × RetryPolicy) :=
  (j.at? "create_order").map fun wanted =>
    (OrderServices.ofJson? wanted, .ofMembers (wanted.objectAt "retry"))

/-- When a scenario starts unless it says so. -/
def defaultClock : Int := 1700000000000

/-- The setup that an object describes, unless a configuration in it is malformed. -/
def Setup.ofJson? (recorder : Recorder) (j : Json) : Option Setup := do
  let recorder ← observedAs recorder j
  return {
    clock := j.intAt "now" defaultClock
    backend := if j.textAt "backend" = "sqlite" then .sqlite DatabaseAddress.memoryPath false
      else .memory
    leaseTtl := j.intAt "lease_ttl_ms" 30000
    sagas := (j.itemsAt "definitions").map ScriptedSaga.ofJson
    createOrder := createOrderOf? j
    freezes := !j.boolAt "unfrozen"
    dispatch := .ofName (j.textAt "dispatch")
    sleepsSilently := j.textAt "sleeper" = "default"
    recovery := .ofMembers (j.objectAt "recovery")
    faults := (j.itemsAt "faults").filterMap Fault.ofJson?
    recorder }

end Scenario

end SagaEngine
