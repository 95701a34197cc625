import SagaEngine.Order.Draft
import SagaEngine.Proofs.ContextBlob
/-!
# Drafts survive their context

An order draft travels as a text inside a text: its message is written as a value of the context,
and the context as the blob of an execution. What a fragment adds under other keys leaves it alone.
A field with its zero value is left out, and is the same when nothing is read for it. Main
statements: `OrderDraft.ofJson?_toJson` and `encodings_round_trip`.
-/

namespace SagaEngine

/-- The numbers of a position fit their words. -/
structure LineItem.InRange (i : LineItem) : Prop where
  quantity : i.quantity ≤ 0xffffffff
  least : -0x8000000000000000 ≤ i.unitPriceCents
  greatest : i.unitPriceCents ≤ 0x7fffffffffffffff

/-- The numbers of a draft fit their words. -/
structure OrderDraft.InRange (d : OrderDraft) : Prop where
  items : ∀ i ∈ d.items, i.InRange
  least : -0x8000000000000000 ≤ d.amountCents
  greatest : d.amountCents ≤ 0x7fffffffffffffff

namespace Json

/-! ## Members that may be left out -/

section

variable {α : Type} {fields : List (FieldReader α)} {message message' : α} {name : String}
  {value : Json} {blank : Prop} [Decidable blank]

/-- A member that is left out would have changed nothing. -/
theorem foldlM_member (set : setMember fields message (name, value) = some message')
    (same : blank → message' = message) :
    (if blank then [] else [(name, value)]).foldlM (setMember fields) message = some message' := by
  split
  · rename_i left
    rw [same left]
    rfl
  · rw [List.foldlM_cons, set]
    rfl

theorem foldlM_members (between : α) {members others : List (String × Json)} {last : α}
    (first : members.foldlM (setMember fields) message = some between)
    (second : others.foldlM (setMember fields) between = some last) :
    (members ++ others).foldlM (setMember fields) message = some last := by
  rw [List.foldlM_append, first]
  exact second

theorem readsBack_member (back : ReadsBack value) :
    ∀ m ∈ if blank then [] else [(name, value)], ReadsBack m.2 := by
  split
  · exact nofun
  · exact List.forall_mem_singleton.2 back

end

theorem forall_mem_append {members others : List (String × Json)}
    (first : ∀ m ∈ members, ReadsBack m.2) (second : ∀ m ∈ others, ReadsBack m.2) :
    ∀ m ∈ members ++ others, ReadsBack m.2 :=
  List.forall_mem_append.2 ⟨first, second⟩

theorem word32?_ofNat {n : Nat} (small : n ≤ 0xffffffff) : word32? (.ofNat n) = some n := by
  have read : whole? 0 0xffffffff (.number (toString (n : Int))) = some (n : Int) :=
    whole?_number (by omega) (by omega)
  show (whole? 0 0xffffffff (.number (toString (n : Int)))).map Int.toNat = some n
  rw [read]
  rfl

theorem items?_map {α : Type} {item? : Json → Option α} {items : List α} {toJson : α → Json}
    (reads : ∀ i ∈ items, item? (toJson i) = some i) :
    items? item? (.array (items.map toJson)) = some items := by
  rw [items?]
  induction items with
  | nil => rfl
  | cons i items ih =>
    obtain ⟨first, others⟩ := List.forall_mem_cons.1 reads
    rw [List.map_cons, List.mapM_cons, first, ih others]
    rfl

end Json

open Json

namespace LineItem

theorem readsBack (i : LineItem) : ReadsBack i.toJson :=
  .object (forall_mem_append (forall_mem_append (readsBack_member (.string _))
    (readsBack_member (.ofNat _))) (readsBack_member (.string _)))

theorem readMessage?_toJson {i : LineItem} (inRange : i.InRange) :
    readMessage? fields {} i.toJson = some i := by
  have quantity := word32?_ofNat inRange.quantity
  have price : signed64? (.string (toString i.unitPriceCents)) = some i.unitPriceCents :=
    whole?_quoted inRange.least inRange.greatest
  refine foldlM_members { sku := i.sku, quantity := i.quantity }
    (foldlM_members { sku := i.sku } ?_ ?_) ?_
  · refine foldlM_member rfl fun blank => ?_
    rw [String.isEmpty_iff.1 blank]
  · refine foldlM_member ?_ fun blank => ?_
    · show Option.map _ (word32? (.ofNat i.quantity)) = _
      rw [quantity]
      rfl
    · rw [blank]
  · refine foldlM_member ?_ fun blank => ?_
    · show Option.map _ (signed64? (.string (toString i.unitPriceCents))) = _
      rw [price]
      rfl
    · obtain ⟨sku, quantity, price⟩ := i
      cases blank
      rfl

end LineItem

namespace OrderDraft

theorem readsBack (d : OrderDraft) : ReadsBack d.toJson := by
  have items : ∀ j ∈ d.items.map LineItem.toJson, ReadsBack j := by
    intro j inside
    obtain ⟨i, -, rfl⟩ := List.mem_map.1 inside
    exact i.readsBack
  refine .object ?_
  refine forall_mem_append (forall_mem_append (forall_mem_append (forall_mem_append
    (forall_mem_append ?_ ?_) ?_) ?_) ?_) ?_
  · exact readsBack_member (.string _)
  · exact readsBack_member (.string _)
  · exact readsBack_member (.array items)
  · exact readsBack_member (.string _)
  · exact readsBack_member (.string _)
  · exact readsBack_member (.string _)

theorem ofJson?_toJson {d : OrderDraft} (inRange : d.InRange) : ofJson? d.toJson = some d := by
  have items : items? (readMessage? LineItem.fields {}) (.array (d.items.map LineItem.toJson)) =
      some d.items :=
    items?_map fun i inside => LineItem.readMessage?_toJson (inRange.items i inside)
  have amount : signed64? (.string (toString d.amountCents)) = some d.amountCents :=
    whole?_quoted inRange.least inRange.greatest
  refine foldlM_members { d with paymentMethod := "" }
    (foldlM_members { d with currency := "", paymentMethod := "" }
      (foldlM_members { orderId := d.orderId, customerId := d.customerId, items := d.items }
        (foldlM_members { orderId := d.orderId, customerId := d.customerId }
          (foldlM_members { orderId := d.orderId } ?_ ?_) ?_) ?_) ?_) ?_
  · exact foldlM_member rfl fun blank => by rw [String.isEmpty_iff.1 blank]
  · exact foldlM_member rfl fun blank => by rw [String.isEmpty_iff.1 blank]
  · refine foldlM_member ?_ fun blank => ?_
    · show Option.map _ (items? (readMessage? LineItem.fields {}) (.array _)) = _
      rw [items]
      rfl
    · rw [List.map_eq_nil_iff.1 (List.isEmpty_iff.1 blank)]
  · refine foldlM_member ?_ fun blank => ?_
    · show Option.map _ (signed64? (.string (toString d.amountCents))) = _
      rw [amount]
      rfl
    · rw [blank]
  · exact foldlM_member rfl fun blank => by rw [String.isEmpty_iff.1 blank]
  · exact foldlM_member rfl fun blank => by rw [← String.isEmpty_iff.1 blank]

/-- The draft is found in whatever context has its text. -/
theorem ofContext_of_get? {d : OrderDraft} (inRange : d.InRange) {values : Context}
    (found : values.get? contextKey = some d.toJson.write) : ofContext values = .ok d := by
  rw [ofContext, found]
  simp only [d.readsBack.read?_write, Option.bind_some, ofJson?_toJson inRange]

end OrderDraft

/-- Every context is read back from its blob, a blob that does not parse is refused by both ways to
read it alike, and a draft is read back from its context after any fragment that does not bind the
draft's own key. -/
theorem encodings_round_trip :
    (∀ values : Context, Context.ofBlob values.toBlob = .ok values) ∧
      (∀ blob,
        (Context.ofBlob? blob = none ↔ ∃ error, Context.ofBlob blob = .error error) ∧
        ∀ values, Context.ofBlob? blob = some values ↔ Context.ofBlob blob = .ok values) ∧
      ∀ (d : OrderDraft) (fragment : Context), d.InRange →
        fragment.get? OrderDraft.contextKey = none →
        ∃ values, Context.ofBlob (d.toContext.mergeFragment fragment).toBlob = .ok values ∧
          OrderDraft.ofContext values = .ok d := by
  refine ⟨Context.ofBlob_toBlob, fun blob => ⟨?_, fun values => ?_⟩,
    fun d fragment inRange unbound => ?_⟩
  · constructor
    · intro refused
      exact ⟨.contextBlob, Context.ofBlob_eq_error_iff.2 ⟨refused, rfl⟩⟩
    · intro raised
      obtain ⟨error, raised⟩ := raised
      exact (Context.ofBlob_eq_error_iff.1 raised).1
  · exact Context.ofBlob_eq_ok_iff.symm
  · refine ⟨_, Context.ofBlob_toBlob _, OrderDraft.ofContext_of_get? inRange ?_⟩
    rw [Context.mergeFragment, Dictionary.get?_merge, unbound, Option.none_or, OrderDraft.toContext,
      Dictionary.get?_insert_self]

namespace Sample

/-- A draft with texts that are escaped twice and with numbers at the ends of their ranges. -/
def extreme : OrderDraft :=
  { orderId := "say \"no\"\n", customerId := "\\"
    items := [{ sku := "\x00", quantity := 0xffffffff, unitPriceCents := -0x8000000000000000 }, {}]
    amountCents := 0x7fffffffffffffff }

end Sample

theorem encodings_round_trip_extreme :
    ∃ values, Context.ofBlob
        (Sample.extreme.toContext.mergeFragment (Dictionary.empty.insert "payment_id" "7")).toBlob =
          .ok values ∧
      OrderDraft.ofContext values = .ok Sample.extreme := by
  have inRange : Sample.extreme.InRange := by
    refine ⟨List.forall_mem_cons.2 ⟨⟨?_, ?_, ?_⟩, List.forall_mem_singleton.2 ?_⟩, ?_, ?_⟩
    case refine_4 => exact ⟨by decide, by decide, by decide⟩
    all_goals decide
  exact encodings_round_trip.2.2 Sample.extreme _ inRange (by decide)

end SagaEngine
