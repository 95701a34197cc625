import SagaEngine.Order.Draft
import SagaEngine.Remote.Call
/-!
# Requests to the collaborating services

The five requests of a create-order execution, each to one of three services,
and what comes back: a classified result with the id that the service assigned,
or a raised error. An undo names what it takes back by the assigned id if there
is one, else by the key of the forward call.
-/

namespace SagaEngine

/-- The three services. -/
inductive Service where
  | inventory
  | payment
  | order
  deriving DecidableEq, Repr, Inhabited

def Service.name : Service → String
  | inventory => "inventory"
  | payment => "payment"
  | order => "order"

/-- What an undo takes back. -/
inductive Undone where
  | byId (id : String)
  | byKey (key : String)
  deriving DecidableEq, Repr, Inhabited

/-- A request, with its idempotency key first. -/
inductive ServiceRequest where
  | reserve (key orderId : String) (items : List LineItem)
  | release (key : String) (reservation : Undone)
  | process (key orderId : String) (amountCents : Int) (currency method : String)
  | refund (key : String) (transaction : Undone) (reason : String)
  | confirm (key orderId reservationId transactionId : String)
  deriving DecidableEq, Repr, Inhabited

namespace ServiceRequest

def service : ServiceRequest → Service
  | reserve .. => .inventory
  | release .. => .inventory
  | process .. => .payment
  | refund .. => .payment
  | confirm .. => .order

/-- The short name of a request. -/
def verb : ServiceRequest → String
  | reserve .. => "reserve"
  | release .. => "release"
  | process .. => "process"
  | refund .. => "refund"
  | confirm .. => "confirm"

/-- The name of the remote method. -/
def method : ServiceRequest → String
  | reserve .. => "ReserveInventory"
  | release .. => "ReleaseInventory"
  | process .. => "ProcessPayment"
  | refund .. => "RefundPayment"
  | confirm .. => "ConfirmOrder"

end ServiceRequest

/-- How a request came back. -/
inductive ServiceReply where
  | answered (result : CallResult) (assignedId : String)
  | threw (message : String)
  | threwOther
  deriving DecidableEq, Repr

end SagaEngine
