import SagaEngine.Dispatch.Queue
import SagaEngine.Lease.Holdings
import SagaEngine.Order.Clients
import SagaEngine.Scenario.Script
import SagaEngine.Store.Backend
import SagaEngine.Tally
import SagaEngine.Telemetry.Recorder
/-!
# The world of a scenario

Everything that the engine's requests are answered from: a clock that moves only
when something takes time, the store with its faults, the leases, the queue, the
scripts and the observers.
-/

namespace SagaEngine.Scenario

/-- Who takes dispatched executions. -/
inductive DispatchMode where
  | nobody
  | recorder
  | queue (silent : Bool)
  deriving DecidableEq, Repr, Inhabited

/-- Whose script a call follows. -/
inductive ScriptKey where
  | step (sagaType : String) (index : Int) (phase : Phase)
  | service (verb : String)
  deriving DecidableEq, Repr

/-- The name by which the `n`-th new execution goes in a scenario. -/
def World.plainId (n : Nat) : String := "E" ++ toString n

/-- The state of a scenario. `idText` gives the id of the `n`-th new execution; what
happened is noted with the latest in front. -/
structure World where
  engine : Engine
  clock : Int
  store : Store
  leases : LeaseManager
  kept : Holdings := Dictionary.empty
  queue : DispatchQueue := {}
  dispatch : DispatchMode := .nobody
  listening : Bool := true
  sleepsSilently : Bool := false
  alertsLogged : Bool := false
  idText : Nat → String := World.plainId
  idsIssued : Nat := 0
  behaviours : Dictionary Behaviour := Dictionary.empty
  services : Dictionary (List ServiceAct) := Dictionary.empty
  callers : Option ServiceCallers := none
  scriptsUsed : Tally ScriptKey := {}
  faults : List Fault := []
  storeCalls : Tally StoreCall := {}
  recovery : RecoveryOptions := {}
  alerted : List String := []
  noted : List Event := []
  recorder : Recorder := {}

namespace World

def note (w : World) (e : Event) : World := { w with noted := e :: w.noted }

/-- What happened, in order. -/
def events (w : World) : List Event := w.noted.reverse

def forgetEvents (w : World) : World := { w with noted := [] }

/-- Lets time pass. -/
def pass (w : World) (ms : Int) : World := { w with clock := w.clock + ms }

/-- The present time, in a word of 64 bits. -/
def now (w : World) : Nat := wrapWord64 w.clock

/-- Writes a line. -/
def log (w : World) (e : LogEntry) : World := { w with recorder := w.recorder.log e }

/-- Writes lines. -/
def logAll (w : World) (entries : List LogEntry) : World :=
  { w with recorder := w.recorder.logAll entries }

/-- The id of the next new execution. -/
def nextId (w : World) : String := w.idText (w.idsIssued + 1)

/-- The number in the name of a new execution. -/
def numberIn? (name : String) : Option Nat :=
  match name.toList with
  | 'E' :: digits =>
    let n := Numeral.digitsValue digits
    if plainId n = name then some n else none
  | _ => none

/-- The id that a name stands for: that of a new execution, if there is one of that
name, else the name itself. -/
def idOf (w : World) (name : String) : String :=
  match numberIn? name with
  | some n => if 0 < n ∧ n ≤ w.idsIssued then w.idText n else name
  | none => name

/-- Takes the next entry of a script. -/
def takeAct [Inhabited α] (w : World) (key : ScriptKey) (acts : List α) : α × World :=
  (nextAct acts (w.scriptsUsed.count key), { w with scriptsUsed := w.scriptsUsed.add key })

/-! ## The store -/

/-- Runs an operation of the store. -/
def onStore (w : World) (f : Store → α × Store) : α × World :=
  let (answer, store) := f w.store
  (answer, { w with store })

def dropTransaction (w : World) (tx : Nat) : World :=
  let (line, w) := w.onStore (Store.drop tx)
  w.logAll line.toList

/-- Runs an operation of the store in a transaction of its own, which is committed
if the operation says so. -/
def inTransaction (w : World) (f : Nat → Store → (Except StoreFailure α × Bool) × Store) :
    Except StoreFailure α × World :=
  match w.onStore Store.begin with
  | (.error failure, w) => (.error failure, w)
  | (.ok tx, w) =>
    let ((answer, wanted), w) := w.onStore (f tx)
    let (answer, w) := if wanted then
        match w.onStore (Store.commit tx) with
        | (.ok _, w) => (answer, w)
        | (.error failure, w) => (.error failure, w)
      else (answer, w)
    (answer, w.dropTransaction tx)

/-- Puts a row into the store. -/
def insertRow (w : World) (row : Execution) : Except StoreFailure (Except Refusal Unit) × World :=
  w.inTransaction fun tx s =>
    let (answer, s) := s.insert tx row
    ((.ok answer, answer.toOption.isSome), s)

/-- What became of a row that was to be changed. -/
inductive Touch where
  | missing
  | answered (answer : Except Refusal Unit) (version : Nat)

/-- Reads a row, changes it and writes it back. -/
def touchRow (tx : Nat) (executionId : String) (edit : Execution → Execution) (s : Store) :
    (Except StoreFailure Touch × Bool) × Store :=
  match s.find? tx executionId with
  | (.error failure, s) => ((.error failure, false), s)
  | (.ok none, s) => ((.ok .missing, false), s)
  | (.ok (some row), s) =>
    let changed := edit row
    match s.update tx changed row.version with
    | (.error failure, s) => ((.error failure, false), s)
    | (.ok (.ok version), s) => ((.ok (.answered (.ok ()) version), true), s)
    | (.ok (.error refusal), s) => ((.ok (.answered (.error refusal) changed.version), false), s)

/-- Changes a row behind the engine's back. -/
def touch (w : World) (executionId : String) (edit : Execution → Execution) :
    Except StoreFailure Unit × World :=
  match w.inTransaction fun tx s => touchRow tx executionId edit s with
  | (.error failure, w) => (.error failure, w)
  | (.ok .missing, w) => (.ok (), w.note (.untouched executionId))
  | (.ok (.answered answer version), w) =>
    let code := match answer with
      | .ok _ => .ok
      | .error refusal => refusal.code
    (.ok (), w.note (.touched executionId code version))

/-- Runs the faults that concern a call, in order. A raised one ends the call; of
the others, the first takes the place of the call. -/
def disturb (w : World) (call : StoreCall) (n : Nat) (found : Option Disturbance) :
    List Fault → Option Disturbance × World
  | [] => (found, w)
  | fault :: rest =>
    if !fault.concerns call n then disturb w call n found rest
    else
      let w := fault.touches.foldl (fun w t => (w.touch (w.idOf t.1) t.2).2) w
      match fault.instead with
      | some (.raised failure) => (some (.raised failure), w)
      | instead => disturb w call n (found.or instead) rest

/-- Counts a call of the store and runs its faults. -/
def beforeCall (w : World) (call : StoreCall) : Option Disturbance × World :=
  let w := { w with storeCalls := w.storeCalls.add call }
  w.disturb call (w.storeCalls.count call) none w.faults

/-- A call of the store that may be raised. -/
def storeCall (w : World) (call : StoreCall) (f : Store → Except StoreFailure α × Store) :
    Except StoreFailure α × World :=
  match w.beforeCall call with
  | (some (.raised failure), w) => (.error failure, w)
  | (_, w) => w.onStore f

/-- A write that may be raised, or answered without being made; `unmade` is the
answer of one that looks made. -/
def storeWrite (w : World) (call : StoreCall) (unmade : α)
    (f : Store → Except StoreFailure (Except Refusal α) × Store) :
    Except StoreFailure (Except Refusal α) × World :=
  match w.beforeCall call with
  | (some (.raised failure), w) => (.error failure, w)
  | (some (.answered answer), w) => (.ok (answer.map fun _ => unmade), w)
  | (_, w) => w.onStore f

/-- Adds a new row; its id is used up even if the write fails. -/
def insertNew (w : World) (tx : Nat) (row : Execution) :
    Except StoreFailure (Except Refusal Unit) × World :=
  let w := if row.id = w.nextId then { w with idsIssued := w.idsIssued + 1 } else w
  w.storeWrite .insert () fun s =>
    let (answer, s) := s.insert tx row
    (.ok answer, s)

/-- Reads a row, which may be kept from view. -/
def findRow (w : World) (tx : Nat) (executionId : String) :
    Except StoreFailure (Option Execution) × World :=
  match w.beforeCall .find with
  | (some (.raised failure), w) => (.error failure, w)
  | (some .missing, w) => (.ok none, w)
  | (_, w) => w.onStore (Store.find? tx executionId)

/-! ## Observers -/

def raise (w : World) (a : Alert) : World :=
  if w.alertsLogged then { w with recorder := w.recorder.raise a } else w.note (.alert a)

/-- Hands an execution to whoever takes it. -/
def dispatchExecution (w : World) (executionId : String) : Bool × World :=
  match w.dispatch with
  | .nobody => (false, w)
  | .recorder => (true, w.note (.dispatch executionId))
  | .queue silent =>
    let (accepted, queue) := w.queue.enqueue executionId
    let w := { w with queue }
    (true, if silent then w else w.note (.enqueue executionId accepted))

/-- Waits out a delay. -/
def wait (w : World) (delay : Int) : World :=
  if w.sleepsSilently then w.pass (max 0 delay) else (w.note (.sleep delay)).pass delay

/-- Changes the spans. -/
def onSpans (w : World) (f : Tracing → Tracing) : World :=
  { w with recorder := { w.recorder with tracing := f w.recorder.tracing } }

/-- Runs something on a thread of its own and waits for its end. No span is active
there at first; those that are active here are so again afterwards. -/
def onThread (w : World) (f : World → World) : World :=
  (f (w.onSpans (·.withActive []))).onSpans (·.withActive w.recorder.tracing.active)

end World

end SagaEngine.Scenario
