import SagaEngine.Json.Message
import SagaEngine.Saga.Context
/-!
# Order drafts

The order that a create-order execution works on. It travels in the context
under one key, as the JSON text of a message: fields in their order, blank ones
left out, amounts of 64 bits in quotes.
-/

namespace SagaEngine

/-- One position of an order. -/
structure LineItem where
  sku : String := ""
  quantity : Nat := 0
  unitPriceCents : Int := 0
  deriving DecidableEq, Repr, Inhabited

structure OrderDraft where
  orderId : String := ""
  customerId : String := ""
  items : List LineItem := []
  amountCents : Int := 0
  currency : String := ""
  paymentMethod : String := ""
  deriving DecidableEq, Repr, Inhabited

namespace Json

/-- A text member, unless the text is empty. -/
def textMember (name text : String) : List (String × Json) :=
  if text.isEmpty then [] else [(name, .string text)]

/-- A member for a number of 32 bits, unless it is zero. -/
def wordMember (name : String) (n : Nat) : List (String × Json) :=
  if n = 0 then [] else [(name, .ofNat n)]

/-- A quoted member for a number of 64 bits, unless it is zero. -/
def signed64Member (name : String) (n : Int) : List (String × Json) :=
  if n = 0 then [] else [(name, .string (toString n))]

/-- A list member, unless the list is empty. -/
def listMember (name : String) (items : List Json) : List (String × Json) :=
  if items.isEmpty then [] else [(name, .array items)]

end Json

namespace LineItem

def fields : List (Json.FieldReader LineItem) :=
  [⟨"sku", "sku", fun i j => (Json.text? j).map fun t => { i with sku := t }⟩,
    ⟨"quantity", "quantity", fun i j => (Json.word32? j).map fun n => { i with quantity := n }⟩,
    ⟨"unitPriceCents", "unit_price_cents",
      fun i j => (Json.signed64? j).map fun n => { i with unitPriceCents := n }⟩]

/-- A position as a message. -/
def toJson (i : LineItem) : Json :=
  .object (Json.textMember "sku" i.sku ++ Json.wordMember "quantity" i.quantity ++
    Json.signed64Member "unitPriceCents" i.unitPriceCents)

end LineItem

namespace OrderDraft

def fields : List (Json.FieldReader OrderDraft) :=
  [⟨"orderId", "order_id", fun d j => (Json.text? j).map fun t => { d with orderId := t }⟩,
    ⟨"customerId", "customer_id",
      fun d j => (Json.text? j).map fun t => { d with customerId := t }⟩,
    .plain "items" fun d j =>
      (Json.items? (Json.readMessage? LineItem.fields {}) j).map
        fun items => { d with items := d.items ++ items },
    ⟨"amountCents", "amount_cents",
      fun d j => (Json.signed64? j).map fun n => { d with amountCents := n }⟩,
    .plain "currency" fun d j => (Json.text? j).map fun t => { d with currency := t },
    ⟨"paymentMethod", "payment_method",
      fun d j => (Json.text? j).map fun t => { d with paymentMethod := t }⟩]

def ofJson? (j : Json) : Option OrderDraft := Json.readMessage? fields {} j

def toJson (d : OrderDraft) : Json :=
  .object (Json.textMember "orderId" d.orderId ++ Json.textMember "customerId" d.customerId ++
    Json.listMember "items" (d.items.map LineItem.toJson) ++
    Json.signed64Member "amountCents" d.amountCents ++ Json.textMember "currency" d.currency ++
    Json.textMember "paymentMethod" d.paymentMethod)

/-- The context key under which a draft travels. -/
def contextKey : String := "order"

/-- The context with which a create-order execution starts. -/
def toContext (d : OrderDraft) : Context :=
  Dictionary.empty.insert contextKey d.toJson.write

def ofContext (values : Context) : Except DecodeError OrderDraft :=
  match values.get? contextKey with
  | none => .error .orderDraftMissing
  | some text =>
    match (Json.read? text).bind ofJson? with
    | some draft => .ok draft
    | none => .error .orderDraft

end OrderDraft

end SagaEngine
