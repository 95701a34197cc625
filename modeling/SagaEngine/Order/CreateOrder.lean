import SagaEngine.Order.Collaborator
import SagaEngine.Saga.Definition
import SagaEngine.Saga.Step
import SagaEngine.Telemetry.Log
/-!
# The create-order saga

Reserve the items, charge the customer, confirm the order. An undo releases the
reservation and refunds the payment; a confirmation has nothing to undo. A step
makes at most one request, so it is a plan: a result that needs no request, or a
request with the reading of its answer.
-/

namespace SagaEngine.CreateOrder

def sagaType : String := "CreateOrderSaga"

/-- The context key of the reservation's id. -/
def reservationKey : String := "reservation_id"

/-- The context key of the payment's id. -/
def transactionKey : String := "transaction_id"

/-- The context key of the confirmation's id. -/
def confirmationKey : String := "confirmation_id"

def refundReason : String := "Order cancelled - saga compensation"

/-- The currency of a draft that names none. -/
def defaultCurrency : String := "USD"

/-- The three steps, in order. -/
inductive Stage where
  | reserve
  | charge
  | confirm
  deriving DecidableEq, Repr, Inhabited

/-- Every stage, in order. -/
def Stage.all : List Stage := [reserve, charge, confirm]

def Stage.name : Stage → String
  | reserve => "ReserveInventory"
  | charge => "ProcessPayment"
  | confirm => "ConfirmOrder"

def Stage.ofIndex? (index : Int) : Option Stage :=
  if index < 0 then none else all[index.toNat]?

/-- The saga as it is handed in for registration. -/
def draft (retry : RetryPolicy) : SagaDraft where
  sagaType := sagaType
  steps := Stage.all.map fun s => { name := s.name }
  retry := retry

/-- The checked definition; every service must be there. -/
def definition (hasServices : Bool) (retry : RetryPolicy) :
    Except RegistrationError SagaDefinition :=
  if hasServices then SagaDefinition.ofDraft (draft retry)
  else .error (.clientsMissing sagaType)

/-- What a step does: it is settled, or it makes a request and reads the answer,
with lines to log. -/
inductive Plan where
  | settled (result : StepResult)
  | request (request : ServiceRequest) (settle : CallResult → String → StepResult × List LogEntry)

/-- Reads a result whose code has no meaning of its own. -/
def toStepResult (result : CallResult) (what : String) (fragment : Context) : StepResult :=
  match result.outcome with
  | .ok => .ok fragment
  | .retryable => .retryable (what ++ " failed: " ++ result.message)
  | .terminal => .terminal (what ++ " rejected: " ++ result.message)
  | .unclassified _ => .retryable (what ++ " returned an unclassified result")

/-- A step that needs the order draft; without one it is rejected. -/
def withDraft (call : StepCall) (plan : OrderDraft → Plan) : Plan :=
  match OrderDraft.ofContext call.context with
  | .ok draft => plan draft
  | .error e => .settled (.terminal e.message)

/-- A value of the context, empty if there is none. -/
def lookUp (call : StepCall) (key : String) : String := (call.context.get? key).getD ""

/-- What the undo of a call takes back. -/
def undone (call : StepCall) (key : String) : Undone :=
  let id := lookUp call key
  if id.isEmpty then .byKey (IdempotencyKey.execute call.executionId call.index) else .byId id

def single (key value : String) : Context := Dictionary.empty.insert key value

/-- Reserves the items. -/
def reserveInventory (call : StepCall) : Plan :=
  withDraft call fun draft =>
    .request (.reserve call.key draft.orderId draft.items) fun result id =>
      if result.code = StatusCode.failedPrecondition then
        (.terminal ("insufficient stock: " ++ result.message), [])
      else (toStepResult result "reserve inventory" (single reservationKey id), [])

/-- Releases the reservation; one that does not exist counts as released. -/
def releaseInventory (call : StepCall) : Plan :=
  if call.rejected then .settled .ok
  else
    .request (.release call.key (undone call reservationKey)) fun result _ =>
      if result.code = StatusCode.notFound then
        (.ok, [.info "release found no reservation, treating as released"
          [.execution call.executionId, .text reservationKey (lookUp call reservationKey)]])
      else (toStepResult result "release inventory" Dictionary.empty, [])

/-- Charges the customer. -/
def processPayment (call : StepCall) : Plan :=
  withDraft call fun draft =>
    let currency := if draft.currency.isEmpty then defaultCurrency else draft.currency
    .request (.process call.key draft.orderId draft.amountCents currency draft.paymentMethod)
      fun result id =>
        if result.code = StatusCode.failedPrecondition then
          (.terminal ("payment declined: " ++ result.message), [])
        else (toStepResult result "process payment" (single transactionKey id), [])

/-- Refunds the payment; one that was refunded before counts as refunded, and so
does one that was never taken, if it is named by its key. -/
def refundPayment (call : StepCall) : Plan :=
  if call.rejected then .settled .ok
  else
    let transaction := undone call transactionKey
    .request (.refund call.key transaction refundReason) fun result _ =>
      if result.code = StatusCode.alreadyExists then (.ok, [])
      else if (lookUp call transactionKey).isEmpty ∧ result.code = StatusCode.notFound then
        (.ok, [])
      else (toStepResult result "refund payment" Dictionary.empty, [])

def confirmOrder (call : StepCall) : Plan :=
  withDraft call fun draft =>
    .request (.confirm call.key draft.orderId (lookUp call reservationKey)
      (lookUp call transactionKey)) fun result id =>
        (toStepResult result "confirm order" (single confirmationKey id), [])

/-- What a step does when it is called. -/
def Stage.plan (stage : Stage) (call : StepCall) : Plan :=
  match stage, call.phase with
  | .reserve, .execute => reserveInventory call
  | .reserve, .compensate => releaseInventory call
  | .charge, .execute => processPayment call
  | .charge, .compensate => refundPayment call
  | .confirm, .execute => confirmOrder call
  | .confirm, .compensate => .settled .ok

end SagaEngine.CreateOrder
