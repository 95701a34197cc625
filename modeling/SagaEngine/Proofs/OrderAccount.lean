import SagaEngine.Proofs.OrderExchange
/-!
# The accounts of a create-order execution

What the context of an execution says about its exchanges with the services, as one
owner makes them who sees no cancel request: the id under the key of a step is the one
that its service assigned, and the rejection mark names the step whose last exchange
was rejected. On the way forward nothing is undone, and on the way back every step
behind is taken back. Main statements: `Tally.decided` and `lineage_tally`.
-/

namespace SagaEngine.CreateOrder

/-- The id that the last forward exchange of a step returned, empty if there is none. -/
def returned (stage : Stage) (exchanges : List Exchange) : String :=
  ((sent stage .execute exchanges).getLast?.map Exchange.assigned).getD ""

/-- What the undo of a step has to name. -/
def toTakeBack (stage : Stage) (x : String) (exchanges : List Exchange) : Undone :=
  if (returned stage exchanges).isEmpty then .byKey (IdempotencyKey.execute x stage.index)
  else .byId (returned stage exchanges)

/-- What the context says about the exchanges of a step. -/
structure Account (x : String) (values : Context) (exchanges : List Exchange) (stage : Stage) :
    Prop where
  remembered : (values.get? stage.idKey).getD "" = returned stage exchanges
  unique : ∀ exchange ∈ sent stage .execute exchanges, exchange.outcome = .ok →
    exchange.assigned = returned stage exchanges
  marked : ∀ last ∈ (sent stage .execute exchanges).getLast?,
    last.outcome = .terminal ↔ values.isRejected stage.index = true
  named : ∀ undo ∈ sent stage .compensate exchanges,
    takes? undo.request = some (toTakeBack stage x exchanges)
  spared : sent stage .compensate exchanges ≠ [] →
    ∃ last ∈ (sent stage .execute exchanges).getLast?, last.outcome ≠ .terminal

structure Books (x : String) (values : Context) (exchanges : List Exchange) : Prop where
  legible : exchanges ≠ [] → ∃ draft, OrderDraft.ofContext values = .ok draft
  accounts : ∀ stage, Account x values exchanges stage
  carried : ∀ exchange ∈ sent .confirm .execute exchanges,
    ∀ key orderId reservation transaction,
      exchange.request = .confirm key orderId reservation transaction →
        reservation = returned .reserve exchanges ∧ transaction = returned .charge exchanges

/-- The last forward exchange of a step was accepted. -/
def Accepted (stage : Stage) (exchanges : List Exchange) : Prop :=
  ∃ last ∈ (sent stage .execute exchanges).getLast?, last.outcome = .ok

/-- Unless the last forward exchange of a step was rejected, its last undo was tolerated. -/
def Reverted (stage : Stage) (exchanges : List Exchange) : Prop :=
  ∀ last ∈ (sent stage .execute exchanges).getLast?, last.outcome ≠ .terminal →
    ∃ undo ∈ (sent stage .compensate exchanges).getLast?, undo.Tolerated

/-- On the way forward, at a step. -/
structure Onward (index : Int) (values : Context) (exchanges : List Exchange) : Prop where
  unmarked : values.get? Context.rejectedStepKey = none
  unrecalled : ∀ stage, sent stage .compensate exchanges = []
  passed : ∀ stage, stage.index < index → Accepted stage exchanges
  ahead : ∀ stage, index ≤ stage.index → ∀ exchange ∈ sent stage .execute exchanges,
    exchange.outcome = .retryable
  untouched : ∀ stage, index < stage.index → sent stage .execute exchanges = []

/-- On the way back, at a step. -/
structure Homeward (index : Int) (values : Context) (exchanges : List Exchange) : Prop where
  reverted : ∀ stage, stage ≠ .confirm → index < stage.index → Reverted stage exchanges
  tried : ∀ stage, stage.index ≤ index →
    sent stage .execute exchanges ≠ [] ∨ values.isRejected stage.index = true

structure Fulfilled (exchanges : List Exchange) : Prop where
  unrecalled : ∀ stage, sent stage .compensate exchanges = []
  accepted : ∀ stage, Accepted stage exchanges

def Standing (row : Execution) (values : Context) (exchanges : List Exchange) : Prop :=
  match row.status with
  | .started => row.stepIndex = 0 ∧ exchanges = [] ∧ values.get? Context.rejectedStepKey = none
  | .inProgress => Onward row.stepIndex values exchanges
  | .compensating => Homeward row.stepIndex values exchanges
  | .completed => Fulfilled exchanges
  | .compensated => ∀ stage, stage ≠ .confirm → Reverted stage exchanges
  | .failed => True

/-- A row and the exchanges whose results it stores. -/
structure Tally (x : String) (row : Execution) (values : Context) (exchanges : List Exchange) :
    Prop where
  stored : row.context = values.toBlob
  books : Books x values exchanges
  standing : Standing row values exchanges

section

variable {x key : String} {values values' : Context} {exchanges exchanges' : List Exchange}
  {exchange last : Exchange} {stage other : Stage} {phase : Phase} {index : Int}
  {row base changed : Execution} {call : StepCall} {reply : StepReply}

/-! ## One more exchange -/

theorem sent_concat_own (own : role exchange.request = (stage, phase)) :
    sent stage phase (exchanges ++ [exchange]) = sent stage phase exchanges ++ [exchange] := by
  simp [sent, own]

theorem sent_concat_other (foreign : role exchange.request ≠ (stage, phase)) :
    sent stage phase (exchanges ++ [exchange]) = sent stage phase exchanges := by
  simp [sent, foreign]

theorem sent_concat_foreign {way : Phase} (own : role exchange.request = (stage, way))
    (differs : other ≠ stage) :
    sent other phase (exchanges ++ [exchange]) = sent other phase exchanges := by
  apply sent_concat_other
  rw [own]
  intro same
  exact differs (congrArg Prod.fst same).symm

theorem returned_concat_own (own : role exchange.request = (stage, .execute)) :
    returned stage (exchanges ++ [exchange]) = exchange.assigned := by
  simp [returned, sent_concat_own own]

theorem returned_congr (same : sent stage .execute exchanges' = sent stage .execute exchanges) :
    returned stage exchanges' = returned stage exchanges := by
  rw [returned, same, returned]

theorem assigned_of_failed (failed : exchange.outcome ≠ .ok) : exchange.assigned = "" := by
  rw [Exchange.outcome] at failed
  rw [Exchange.assigned]
  split
  · rename_i result id replied
    rw [replied] at failed
    exact if_neg failed
  · rfl
  · rfl

theorem returned_of_failed
    (failed : ∀ exchange ∈ sent stage .execute exchanges, exchange.outcome ≠ .ok) :
    returned stage exchanges = "" := by
  rw [returned]
  cases isLast : (sent stage .execute exchanges).getLast? with
  | none => rfl
  | some last => exact assigned_of_failed (failed last (List.mem_of_getLast? isLast))

namespace Account

theorem kept (account : Account x values exchanges stage)
    (forward : sent stage .execute exchanges' = sent stage .execute exchanges)
    (back : sent stage .compensate exchanges' = sent stage .compensate exchanges)
    (id : values'.get? stage.idKey = values.get? stage.idKey)
    (mark : values'.isRejected stage.index = values.isRejected stage.index) :
    Account x values' exchanges' stage := by
  have returned := returned_congr forward
  constructor
  · rw [id, returned]
    exact account.remembered
  · rw [forward, returned]
    exact account.unique
  · rw [forward, mark]
    exact account.marked
  · rw [back, toTakeBack, returned]
    exact account.named
  · rw [forward, back]
    exact account.spared

theorem forwarded (own : role exchange.request = (stage, .execute))
    (failed : ∀ earlier ∈ sent stage .execute exchanges, earlier.outcome ≠ .ok)
    (unrecalled : sent stage .compensate exchanges = [])
    (remembered : (values.get? stage.idKey).getD "" = exchange.assigned)
    (marked : exchange.outcome = .terminal ↔ values.isRejected stage.index = true) :
    Account x values (exchanges ++ [exchange]) stage := by
  have forward : sent stage .execute (exchanges ++ [exchange]) =
      sent stage .execute exchanges ++ [exchange] := sent_concat_own own
  have back : sent stage .compensate (exchanges ++ [exchange]) = [] := by
    rw [sent_concat_other (by simp [own]), unrecalled]
  have returned : returned stage (exchanges ++ [exchange]) = exchange.assigned :=
    returned_concat_own own
  constructor
  · rw [returned]
    exact remembered
  · rw [forward, returned]
    intro earlier inside accepted
    rcases List.mem_append.1 inside with old | last
    · exact absurd accepted (failed earlier old)
    · rw [List.mem_singleton.1 last]
  · rw [forward, List.getLast?_concat]
    rintro last ⟨⟩
    exact marked
  · rw [back]
    simp
  · rw [back]
    exact fun nonempty => absurd rfl nonempty

theorem undone (account : Account x values exchanges stage)
    (own : role exchange.request = (stage, .compensate))
    (named : takes? exchange.request = some (toTakeBack stage x exchanges))
    (tried : ∃ last ∈ (sent stage .execute exchanges).getLast?, last.outcome ≠ .terminal) :
    Account x values (exchanges ++ [exchange]) stage := by
  have forward : sent stage .execute (exchanges ++ [exchange]) = sent stage .execute exchanges :=
    sent_concat_other (by simp [own])
  have returned := returned_congr forward
  constructor
  · rw [returned]
    exact account.remembered
  · rw [forward, returned]
    exact account.unique
  · rw [forward]
    exact account.marked
  · rw [sent_concat_own own, toTakeBack, returned]
    intro undo inside
    rcases List.mem_append.1 inside with old | last
    · exact account.named undo old
    · rw [List.mem_singleton.1 last]
      exact named
  · rw [forward]
    exact fun _ => tried

end Account

/-! ## What a forward call does to the context -/

theorem Stage.idKey_ne (differs : other ≠ stage) : other.idKey ≠ stage.idKey := by
  cases stage <;> cases other <;> first | exact absurd rfl differs | decide

theorem Stage.toString_index_ne (differs : other ≠ stage) :
    toString other.index ≠ toString stage.index := by
  cases stage <;> cases other <;> first | exact absurd rfl differs | decide

theorem Stage.idKey_ne_rejectedStepKey (stage : Stage) :
    Context.rejectedStepKey ≠ stage.idKey := by
  cases stage <;> decide

theorem Stage.contextKey_ne_idKey (stage : Stage) : OrderDraft.contextKey ≠ stage.idKey := by
  cases stage <;> decide

theorem Stage.eq_of_index_eq (same : other.index = stage.index) : other = stage := by
  cases stage <;> cases other <;> first | rfl | cases same

theorem Stage.index_lt (stage : Stage) : stage.index < 3 := by
  cases stage <;> decide

theorem Stage.index_nonneg (stage : Stage) : 0 ≤ stage.index := by
  cases stage <;> decide

theorem Stage.eq_of_ofIndex? (isStage : Stage.ofIndex? index = some stage) :
    index = stage.index := by
  rw [Stage.ofIndex?] at isStage
  split at isStage
  · cases isStage
  · rename_i notNegative
    have inRange := (List.getElem?_eq_some_iff.1 isStage).1
    simp only [Stage.all, List.length_cons, List.length_nil] at inRange
    obtain rfl | rfl | rfl : index = 0 ∨ index = 1 ∨ index = 2 := by omega
    all_goals
      cases isStage
      rfl

/-- The context after a forward call of a step: the id under its key, and whether its rejection is
marked. -/
structure Updates (stage : Stage) (id : String) (rejected : Prop) (values values' : Context) :
    Prop where
  own : (values'.get? stage.idKey).getD "" = id
  others : ∀ other, other ≠ stage → values'.get? other.idKey = values.get? other.idKey
  mark : rejected ↔ values'.isRejected stage.index = true
  marks : ∀ other, other ≠ stage → values'.isRejected other.index = values.isRejected other.index
  order : values'.get? OrderDraft.contextKey = values.get? OrderDraft.contextKey

theorem isRejected_of_unmarked (unmarked : values.get? Context.rejectedStepKey = none) :
    values.isRejected index = false := by
  simp [Context.isRejected, unmarked]

namespace Updates

theorem refl (own : (values.get? stage.idKey).getD "" = "")
    (unmarked : values.get? Context.rejectedStepKey = none) :
    Updates stage "" False values values := by
  refine ⟨own, fun _ _ => rfl, ?_, fun _ _ => rfl, rfl⟩
  simp [isRejected_of_unmarked unmarked]

theorem insert (id : String) (unmarked : values.get? Context.rejectedStepKey = none) :
    Updates stage id False values (values.insert stage.idKey id) := by
  have still : (values.insert stage.idKey id).get? Context.rejectedStepKey = none := by
    rw [Dictionary.get?_insert_of_ne _ _ stage.idKey_ne_rejectedStepKey, unmarked]
  refine ⟨by simp, ?_, ?_, ?_, ?_⟩
  · intro other differs
    exact Dictionary.get?_insert_of_ne _ _ (Stage.idKey_ne differs)
  · simp [isRejected_of_unmarked still]
  · intro other _
    rw [isRejected_of_unmarked still, isRejected_of_unmarked unmarked]
  · exact Dictionary.get?_insert_of_ne _ _ stage.contextKey_ne_idKey

theorem mark_rejected (own : (values.get? stage.idKey).getD "" = "")
    (unmarked : values.get? Context.rejectedStepKey = none) :
    Updates stage "" True values (values.markRejected stage.index) := by
  have marked (i : Int) : (values.markRejected stage.index).isRejected i =
      decide (toString stage.index = toString i) := by
    simp [Context.isRejected, Context.markRejected]
  have key (other : Stage) : (values.markRejected stage.index).get? other.idKey =
      values.get? other.idKey :=
    Dictionary.get?_insert_of_ne _ _ other.idKey_ne_rejectedStepKey.symm
  refine ⟨(key stage).symm ▸ own, fun other _ => key other, ?_, ?_, ?_⟩
  · simp [marked]
  · intro other differs
    rw [marked, isRejected_of_unmarked unmarked]
    exact decide_eq_false (Stage.toString_index_ne differs).symm
  · exact Dictionary.get?_insert_of_ne _ _ (by decide)

end Updates

theorem ofContext_congr
    (same : values'.get? OrderDraft.contextKey = values.get? OrderDraft.contextKey) :
    OrderDraft.ofContext values' = OrderDraft.ofContext values := by
  rw [OrderDraft.ofContext, OrderDraft.ofContext, same]

namespace Books

theorem nil (nothing : ∀ stage : Stage, (values.get? stage.idKey).getD "" = "") :
    Books x values [] where
  legible nonempty := absurd rfl nonempty
  accounts stage := ⟨nothing stage, by simp [sent], by simp [sent], by simp [sent], by simp [sent]⟩
  carried := by simp [sent]

theorem forwarded (books : Books x values exchanges) (onward : Onward stage.index values exchanges)
    (forwarded : Forwarded stage call reply exchange) (context : call.context = values)
    (updates : Updates stage exchange.assigned (exchange.outcome = .terminal) values values') :
    Books x values' (exchanges ++ [exchange]) := by
  have own := forwarded.role
  constructor
  · obtain ⟨draft, decoded⟩ := forwarded.legible
    intro _
    refine ⟨draft, ?_⟩
    rw [ofContext_congr updates.order, ← context]
    exact decoded
  · intro other
    by_cases same : other = stage
    · subst same
      refine .forwarded own ?_ (onward.unrecalled other) updates.own updates.mark
      intro earlier inside accepted
      have retryable := onward.ahead other (Int.le_refl _) earlier inside
      rw [accepted] at retryable
      cases retryable
    · exact (books.accounts other).kept (sent_concat_foreign own same)
        (sent_concat_foreign own same) (updates.others other same) (updates.marks other same)
  · cases stage with
    | reserve | charge =>
      have unsent : sent .confirm .execute (exchanges ++ [exchange]) = [] := by
        rw [sent_concat_foreign own (by simp)]
        exact onward.untouched .confirm (by decide)
      rw [unsent]
      simp
    | confirm =>
      have reserve : returned .reserve (exchanges ++ [exchange]) = returned .reserve exchanges :=
        returned_congr (sent_concat_foreign own (by simp))
      have charge : returned .charge (exchanges ++ [exchange]) = returned .charge exchanges :=
        returned_congr (sent_concat_foreign own (by simp))
      rw [sent_concat_own own, reserve, charge]
      intro earlier inside key orderId reservation transaction isConfirm
      rcases List.mem_append.1 inside with old | last
      · exact books.carried earlier old key orderId reservation transaction isConfirm
      · rw [List.mem_singleton.1 last] at isConfirm
        obtain ⟨rfl, rfl⟩ := forwarded.carries key orderId reservation transaction isConfirm
        rw [lookUp, lookUp, context]
        exact ⟨(books.accounts .reserve).remembered, (books.accounts .charge).remembered⟩

theorem undone (books : Books x values exchanges) (taken : TakenBack stage call reply exchange)
    (context : call.context = values) (about : call.executionId = x)
    (isIndex : call.index = stage.index)
    (tried : ∃ last ∈ (sent stage .execute exchanges).getLast?, last.outcome ≠ .terminal) :
    Books x values (exchanges ++ [exchange]) := by
  have own := taken.role
  have forward {other : Stage} : sent other .execute (exchanges ++ [exchange]) =
      sent other .execute exchanges :=
    sent_concat_other (by simp [own])
  constructor
  · intro _
    apply books.legible
    rintro rfl
    obtain ⟨last, isLast, -⟩ := tried
    cases isLast
  · intro other
    by_cases same : other = stage
    · subst same
      refine (books.accounts other).undone own ?_ tried
      rw [taken.named, CreateOrder.undone, lookUp, context, about, isIndex,
        (books.accounts other).remembered, toTakeBack]
    · exact (books.accounts other).kept forward
        (sent_concat_foreign own same) rfl rfl
  · rw [forward, returned_congr forward, returned_congr forward]
    exact books.carried

end Books

/-! ## One more call -/

theorem accepted_of_concat (own : role exchange.request = (stage, .execute))
    (accepted : exchange.outcome = .ok) : Accepted stage (exchanges ++ [exchange]) :=
  ⟨exchange, by rw [sent_concat_own own, List.getLast?_concat]; rfl, accepted⟩

namespace Onward

theorem unrecalled_concat (onward : Onward index values exchanges)
    (own : role exchange.request = (stage, .execute)) (other : Stage) :
    sent other .compensate (exchanges ++ [exchange]) = [] := by
  rw [sent_concat_other (by simp [own]), onward.unrecalled]

theorem repeated (onward : Onward stage.index values exchanges)
    (own : role exchange.request = (stage, .execute)) (retryable : exchange.outcome = .retryable) :
    Onward stage.index values (exchanges ++ [exchange]) := by
  refine ⟨onward.unmarked, onward.unrecalled_concat own, ?_, ?_, ?_⟩
  · intro other before
    have differs : other ≠ stage := by
      rintro rfl
      exact absurd before (Int.lt_irrefl _)
    rw [Accepted, sent_concat_foreign own differs]
    exact onward.passed other before
  · intro other above earlier inside
    by_cases same : other = stage
    · subst same
      rw [sent_concat_own own] at inside
      rcases List.mem_append.1 inside with old | last
      · exact onward.ahead other above earlier old
      · rw [List.mem_singleton.1 last]
        exact retryable
    · rw [sent_concat_foreign own same] at inside
      exact onward.ahead other above earlier inside
  · intro other above
    have differs : other ≠ stage := by
      rintro rfl
      exact absurd above (Int.lt_irrefl _)
    rw [sent_concat_foreign own differs]
    exact onward.untouched other above

theorem passed_concat (onward : Onward stage.index values exchanges)
    (own : role exchange.request = (stage, .execute)) (accepted : exchange.outcome = .ok)
    (before : other.index < stage.index + 1) : Accepted other (exchanges ++ [exchange]) := by
  by_cases same : other = stage
  · subst same
    exact accepted_of_concat own accepted
  · have different : other.index ≠ stage.index := fun equal => same (Stage.eq_of_index_eq equal)
    rw [Accepted, sent_concat_foreign own same]
    exact onward.passed other (by omega)

theorem next (onward : Onward stage.index values exchanges)
    (own : role exchange.request = (stage, .execute)) (accepted : exchange.outcome = .ok)
    (unmarked : values'.get? Context.rejectedStepKey = none) :
    Onward (stage.index + 1) values' (exchanges ++ [exchange]) := by
  have untouched (other : Stage) (above : stage.index < other.index) :
      sent other .execute (exchanges ++ [exchange]) = [] := by
    have differs : other ≠ stage := by
      rintro rfl
      exact absurd above (Int.lt_irrefl _)
    rw [sent_concat_foreign own differs]
    exact onward.untouched other above
  refine ⟨unmarked, onward.unrecalled_concat own, ?_, ?_, ?_⟩
  · intro other before
    exact onward.passed_concat own accepted before
  · intro other above earlier inside
    rw [untouched other (by omega)] at inside
    cases inside
  · intro other above
    exact untouched other (by omega)

/-- The walk turns round at a step whose call did not succeed. -/
theorem turned (onward : Onward stage.index values exchanges)
    (others : ∀ other, other ≠ stage → sent other .execute exchanges' = sent other .execute exchanges)
    (tried : sent stage .execute exchanges' ≠ [] ∨ values'.isRejected stage.index = true) :
    Homeward stage.index values' exchanges' := by
  constructor
  · intro other _ above last isLast
    have differs : other ≠ stage := by
      rintro rfl
      exact absurd above (Int.lt_irrefl _)
    rw [others other differs, onward.untouched other above] at isLast
    cases isLast
  · intro other below
    by_cases same : other = stage
    · exact same ▸ tried
    · have different : other.index ≠ stage.index := fun equal => same (Stage.eq_of_index_eq equal)
      obtain ⟨last, isLast, -⟩ := onward.passed other (by omega)
      rw [others other same]
      exact .inl (List.ne_nil_of_mem (List.mem_of_getLast? isLast))

end Onward

namespace Homeward

theorem reverted_concat (own : role exchange.request = (stage, .compensate))
    (differs : other ≠ stage) (reverted : Reverted other exchanges) :
    Reverted other (exchanges ++ [exchange]) := by
  rw [Reverted, sent_concat_foreign own differs, sent_concat_foreign own differs]
  exact reverted

theorem repeated (homeward : Homeward stage.index values exchanges)
    (own : role exchange.request = (stage, .compensate)) :
    Homeward stage.index values (exchanges ++ [exchange]) := by
  constructor
  · intro other undoable above
    refine reverted_concat own ?_ (homeward.reverted other undoable above)
    rintro rfl
    exact absurd above (Int.lt_irrefl _)
  · intro other below
    rw [sent_concat_other (by simp [own])]
    exact homeward.tried other below

/-- A step is taken back, and the walk goes on to the step below. -/
theorem next (homeward : Homeward stage.index values exchanges)
    (own : stage ≠ .confirm → Reverted stage exchanges) :
    Homeward (stage.index - 1) values exchanges := by
  constructor
  · intro other undoable above
    by_cases same : other = stage
    · subst same
      exact own undoable
    · have different : other.index ≠ stage.index := fun equal => same (Stage.eq_of_index_eq equal)
      exact homeward.reverted other undoable (by omega)
  · intro other below
    exact homeward.tried other (by omega)

theorem done (homeward : Homeward index values exchanges) (below : index < 0) :
    ∀ stage, stage ≠ .confirm → Reverted stage exchanges := by
  intro stage undoable
  have above := stage.index_nonneg
  exact homeward.reverted stage undoable (by omega)

/-- The step at the index was called, if the undo of it is a call that has something to undo. -/
theorem tried_of_applied (homeward : Homeward stage.index values exchanges)
    (account : Account x values exchanges stage)
    (applied : values.isRejected stage.index = false) :
    ∃ last ∈ (sent stage .execute exchanges).getLast?, last.outcome ≠ .terminal := by
  rcases homeward.tried stage (Int.le_refl _) with called | rejected
  · cases isLast : (sent stage .execute exchanges).getLast? with
    | none => exact absurd (List.getLast?_eq_none_iff.1 isLast) called
    | some last =>
      refine ⟨last, rfl, ?_⟩
      intro terminal
      rw [(account.marked last isLast).1 terminal] at applied
      cases applied
  · rw [rejected] at applied
    cases applied

end Homeward

/-! ## One more decision -/

theorem mergeFragment_single (values : Context) (key value : String) :
    values.mergeFragment (single key value) = values.insert key value := rfl

theorem mergeFragment_empty (values : Context) :
    values.mergeFragment Dictionary.empty = values := rfl

namespace Tally

/-- The step accepted, and the walk goes on to the next one, if there is one. -/
theorem accepted (tally : Tally x row values exchanges)
    (onward : Onward stage.index values exchanges) (isIndex : row.stepIndex = stage.index)
    (three : row.totalSteps = 3) (forwarded : Forwarded stage call reply exchange)
    (context : call.context = values) (accepted : exchange.outcome = .ok)
    (applied : (Transition.stepDone reply.result.fragment).apply row = .ok changed) :
    ∃ values', Tally x changed values' (exchanges ++ [exchange]) := by
  have own := forwarded.role
  have updates : Updates stage exchange.assigned (exchange.outcome = .terminal) values
      (values.insert stage.idKey exchange.assigned) := by
    have inserted : Updates stage exchange.assigned False values _ :=
      .insert exchange.assigned onward.unmarked
    simpa [accepted] using inserted
  have books := tally.books.forwarded onward forwarded context updates
  have unmarked : (values.insert stage.idKey exchange.assigned).get? Context.rejectedStepKey =
      none := by
    rw [Dictionary.get?_insert_of_ne _ _ stage.idKey_ne_rejectedStepKey, onward.unmarked]
  have wrapped : wrapSigned32 (row.stepIndex + 1) = stage.index + 1 := by
    rw [isIndex]
    cases stage <;> decide
  rw [Transition.apply, tally.stored, forwarded.fragment accepted, mergedBlob_toBlob,
    mergeFragment_single] at applied
  by_cases last : stage.index + 1 = 3
  · simp only [Except.map, wrapped, three, last, if_true] at applied
    cases applied
    refine ⟨_, rfl, books, onward.unrecalled_concat own, ?_⟩
    intro other
    apply onward.passed_concat own accepted
    rw [last]
    exact other.index_lt
  · simp only [Except.map, wrapped, three, last, if_false] at applied
    cases applied
    exact ⟨_, rfl, books, onward.next own accepted unmarked⟩

/-- A forward call that made an exchange. -/
theorem forwarded {d : SagaDefinition} {t : Transition} {step : String}
    (tally : Tally x row values exchanges)
    (onward : Onward stage.index values exchanges) (isIndex : row.stepIndex = stage.index)
    (three : row.totalSteps = 3) (status : row.status = .inProgress)
    (forwarded : Forwarded stage call reply exchange) (context : call.context = values)
    (follows : afterExecute? d base step reply.result = some t)
    (applied : t.apply row = .ok changed) :
    ∃ values', Tally x changed values' (exchanges ++ [exchange]) := by
  have own := forwarded.role
  have failed (other : exchange.outcome ≠ .ok) :
      exchange.assigned = "" ∧ (values.get? stage.idKey).getD "" = "" := by
    refine ⟨assigned_of_failed other, ?_⟩
    rw [(tally.books.accounts stage).remembered]
    apply returned_of_failed
    intro earlier inside accepted
    have retryable := onward.ahead stage (Int.le_refl _) earlier inside
    rw [accepted] at retryable
    cases retryable
  have turned (values' : Context) : Homeward stage.index values' (exchanges ++ [exchange]) := by
    refine onward.turned (fun other => sent_concat_foreign own) (.inl ?_)
    rw [sent_concat_own own]
    simp
  rw [afterExecute?, forwarded.outcome] at follows
  split at follows
  · rename_i accepted
    cases follows
    exact tally.accepted onward isIndex three forwarded context accepted applied
  · rename_i retryable
    have nothing := failed (by simp [retryable])
    have updates : Updates stage exchange.assigned (exchange.outcome = .terminal) values values := by
      rw [nothing.1]
      simpa [retryable] using Updates.refl nothing.2 onward.unmarked
    have books := tally.books.forwarded onward forwarded context updates
    split at follows
    · cases follows
      cases applied
      refine ⟨_, tally.stored, books, ?_⟩
      show Homeward row.stepIndex _ _
      rw [isIndex]
      exact turned values
    · cases follows
      cases applied
      refine ⟨_, tally.stored, books, ?_⟩
      simp only [Standing, status, isIndex]
      exact onward.repeated own retryable
  · rename_i terminal
    cases follows
    have nothing := failed (by simp [terminal])
    have updates : Updates stage exchange.assigned (exchange.outcome = .terminal) values
        (values.markRejected stage.index) := by
      rw [nothing.1]
      simpa [terminal] using Updates.mark_rejected nothing.2 onward.unmarked
    rw [Transition.apply, tally.stored, markedBlob_toBlob, isIndex] at applied
    cases applied
    exact ⟨_, rfl, tally.books.forwarded onward forwarded context updates, turned _⟩
  · cases follows

/-- A forward call that was rejected for want of a draft. -/
theorem unread {d : SagaDefinition} {t : Transition} {step : String}
    (tally : Tally x row values exchanges)
    (onward : Onward stage.index values exchanges) (isIndex : row.stepIndex = stage.index)
    (unread : ∀ draft, OrderDraft.ofContext values ≠ .ok draft)
    (terminal : reply.result.outcome = .terminal)
    (follows : afterExecute? d base step reply.result = some t)
    (applied : t.apply row = .ok changed) : ∃ values', Tally x changed values' exchanges := by
  have nothing : exchanges = [] := by
    by_cases empty : exchanges = []
    · exact empty
    · obtain ⟨draft, decoded⟩ := tally.books.legible empty
      exact absurd decoded (unread draft)
  subst nothing
  rw [afterExecute?, terminal] at follows
  cases follows
  rw [Transition.apply, tally.stored, markedBlob_toBlob, isIndex] at applied
  cases applied
  have blank (other : Stage) : (values.get? other.idKey).getD "" = "" :=
    (tally.books.accounts other).remembered
  refine ⟨_, rfl, .nil ?_, onward.turned (fun _ _ => rfl) (.inr ?_)⟩
  · intro other
    have key : (values.markRejected stage.index).get? other.idKey = values.get? other.idKey :=
      Dictionary.get?_insert_of_ne _ _ other.idKey_ne_rejectedStepKey.symm
    rw [key]
    exact blank other
  · exact (Updates.mark_rejected (blank stage) onward.unmarked).mark.1 trivial

/-- An undo whose step is taken back: the walk goes on to the step below, or it is over. -/
theorem undone (tally : Tally x row values exchanges) (books : Books x values exchanges')
    (homeward : Homeward stage.index values exchanges') (isIndex : row.stepIndex = stage.index)
    (own : stage ≠ .confirm → Reverted stage exchanges')
    (applied : (Transition.stepUndone Dictionary.empty).apply row = .ok changed) :
    ∃ values', Tally x changed values' exchanges' := by
  have wrapped : wrapSigned32 (row.stepIndex - 1) = stage.index - 1 := by
    rw [isIndex]
    cases stage <;> decide
  rw [Transition.apply, tally.stored, mergedBlob_toBlob, mergeFragment_empty] at applied
  have below := homeward.next own
  by_cases last : stage.index - 1 < 0
  · simp only [Except.map, wrapped, last, if_true] at applied
    cases applied
    exact ⟨_, rfl, books, below.done last⟩
  · simp only [Except.map, wrapped, last, if_false] at applied
    cases applied
    exact ⟨_, rfl, books, below⟩

/-- One more call in the backward direction. -/
theorem compensated {d : SagaDefinition} {step : String} {said : List Exchange}
    (tally : Tally x row values exchanges) (status : row.status = .compensating)
    (isIndex : row.stepIndex = stage.index) (backward : call.phase = .compensate)
    (context : call.context = values) (about : call.executionId = x)
    (same : call.index = stage.index)
    (rejected : call.rejected = values.isRejected stage.index)
    (yields : (stage.plan call).Yields reply said)
    (applied : (afterCompensate d base step reply.result).apply row = .ok changed) :
    ∃ values', Tally x changed values' (exchanges ++ said) := by
  have homeward : Homeward stage.index values exchanges := by
    have standing := tally.standing
    simp only [Standing, status, isIndex] at standing
    exact standing
  rcases Stage.compensate_yields backward yields with ⟨rfl, idle, done⟩ | ⟨exchange, rfl, sends, taken⟩
  · rw [afterCompensate, done] at applied
    rw [List.append_nil]
    refine tally.undone tally.books homeward isIndex ?_ applied
    intro undoable last isLast spared
    rcases idle with rfl | isRejected
    · exact absurd rfl undoable
    · rw [rejected] at isRejected
      exact absurd (((tally.books.accounts stage).marked last isLast).2 isRejected) spared
  · have tried := homeward.tried_of_applied (tally.books.accounts stage) (rejected ▸ sends)
    have books := tally.books.undone taken context about same tried
    have still := homeward.repeated taken.role
    rw [afterCompensate] at applied
    split at applied
    · rename_i done
      obtain ⟨tolerated, fragment⟩ := taken.done done
      rw [fragment] at applied
      refine tally.undone books still isIndex ?_ applied
      intro _ last isLast spared
      refine ⟨exchange, ?_, tolerated⟩
      rw [sent_concat_own taken.role, List.getLast?_concat]
      rfl
    · split at applied
      · cases applied
        refine ⟨_, tally.stored, books, ?_⟩
        simp only [Standing, status, isIndex]
        exact still
      · cases applied
        exact ⟨_, tally.stored, books, trivial⟩

theorem onward (tally : Tally x row values exchanges) (status : row.status = .inProgress) :
    Onward row.stepIndex values exchanges := by
  have standing := tally.standing
  simp only [Standing, status] at standing
  exact standing

/-- A decision that no cancel request brought about. -/
theorem decided {d : SagaDefinition} {t : Transition} {made : List CallMade} {said : List Exchange}
    (tally : Tally x row values exchanges) (three : row.totalSteps = 3) (about : base.id = x)
    (total : base.totalSteps = row.totalSteps) (unasked : base.cancelRequested = false)
    (same : base.progress = row.progress) (decides : Decides d base made t)
    (applied : t.apply row = .ok changed) (talk : Talk made said) :
    ∃ values', Tally x changed values' (exchanges ++ said) := by
  simp only [Execution.progress, Execution.Progress.mk.injEq] at same
  obtain ⟨status, index, -, context⟩ := same
  have decoded {values' : Context} (decodes : Context.ofBlob base.context = .ok values') :
      values' = values := by
    rw [context, tally.stored, Context.ofBlob_toBlob] at decodes
    exact (Except.ok.inj decodes).symm
  cases decides with
  | begin isStarted =>
    cases applied
    rw [talk.nil_inv, List.append_nil]
    have standing := tally.standing
    rw [Standing, ← status, isStarted] at standing
    obtain ⟨first, rfl, unmarked⟩ := standing
    refine ⟨values, tally.stored, tally.books, ?_⟩
    show Onward row.stepIndex values []
    rw [first]
    refine ⟨unmarked, fun _ => rfl, ?_, fun _ _ _ => by simp [sent], fun _ _ => rfl⟩
    intro stage before
    have above := stage.index_nonneg
    omega
  | cancel _ requested =>
    rw [unasked] at requested
    cases requested
  | complete isForward _ noStep =>
    cases applied
    rw [talk.nil_inv, List.append_nil]
    have onward := tally.onward (status ▸ isForward)
    refine ⟨values, tally.stored, tally.books, onward.unrecalled, ?_⟩
    intro stage
    have below := stage.index_lt
    exact onward.passed stage (by omega)
  | execute isForward _ _ step named values' decodes reply t follows =>
    obtain rfl := decoded decodes
    obtain ⟨stage, called, yields⟩ := talk.singleton_inv
    have isIndex : row.stepIndex = stage.index := by
      rw [← index]
      exact Stage.eq_of_ofIndex? called
    have onward := tally.onward (status ▸ isForward)
    rw [isIndex] at onward
    rcases Stage.execute_yields rfl yields with ⟨rfl, unread, terminal⟩ | ⟨exchange, rfl, forwarded⟩
    · rw [List.append_nil]
      exact tally.unread onward isIndex unread terminal follows applied
    · exact tally.forwarded onward isIndex three (status ▸ isForward) forwarded rfl follows applied
  | finish isBackward noStep =>
    cases applied
    rw [talk.nil_inv, List.append_nil]
    have standing := tally.standing
    simp only [Standing, ← status, isBackward] at standing
    exact ⟨values, tally.stored, tally.books, standing.done (index ▸ noStep)⟩
  | compensate isBackward isStep step named values' decodes reply =>
    obtain rfl := decoded decodes
    obtain ⟨stage, called, yields⟩ := talk.singleton_inv
    have isIndex : base.stepIndex = stage.index := Stage.eq_of_ofIndex? called
    exact tally.compensated (status ▸ isBackward) (index ▸ isIndex) rfl rfl about isIndex
      (congrArg values'.isRejected isIndex) yields applied

end Tally

/-- A row with the same progress has the same tally. -/
theorem Tally.stamped (tally : Tally x changed values exchanges) (now : Nat) :
    Tally x ((changed.stamped now).replacing row) values exchanges :=
  ⟨tally.stored, tally.books, tally.standing⟩

theorem newRow_tally {order : OrderDraft} {context : Context} (id : String) (d : SagaDefinition)
    (sagaType : String) (now : Nat) (began : context.toBlob = order.toContext.toBlob) :
    Tally x (Engine.newRow id d sagaType context now) order.toContext [] := by
  have unbound {key : String} (differs : key ≠ OrderDraft.contextKey) :
      order.toContext.get? key = none := by
    rw [OrderDraft.toContext, Dictionary.get?_insert_of_ne _ _ differs, Dictionary.get?_empty]
  refine ⟨began, .nil ?_, rfl, rfl, unbound (by decide)⟩
  intro stage
  rw [unbound stage.contextKey_ne_idKey.symm]
  rfl

/-- The rows of an owner that saw no cancel request tally with the exchanges of its calls. -/
theorem lineage_tally {d : SagaDefinition} {rows : List Execution} {calls : List CallMade}
    {order : OrderDraft} (lineage : Lineage d rows calls) (fits : d.Fits) (three : d.stepCount = 3)
    (ids : ∀ row ∈ rows, row.id = x) (unasked : ∀ row ∈ rows, row.cancelRequested = false)
    (began : ∀ first ∈ rows.getLast?, first.context = order.toContext.toBlob)
    (talk : Talk calls exchanges) : ∀ row ∈ rows.head?, ∃ values, Tally x row values exchanges := by
  induction lineage generalizing exchanges with
  | created id sagaType context now =>
    rintro row ⟨⟩
    rw [talk.nil_inv]
    exact ⟨_, newRow_tally id d sagaType now (began _ rfl)⟩
  | cancelled now before active open_ ih =>
    have asked := unasked _ List.mem_cons_self
    cases asked
  | @decided old base changed earlier calls made t now before read same decides next ih =>
    rintro row ⟨⟩
    obtain ⟨first, said, rfl, talked, talking⟩ := talk.split decides
    obtain ⟨values, tally⟩ := ih (fun row inside => ids row (List.mem_cons_of_mem _ inside))
      (fun row inside => unasked row (List.mem_cons_of_mem _ inside)) began talked old rfl
    have formed := before.wellFormed fits
    have total := (formed old List.mem_cons_self).steps
    have steps : old.totalSteps = 3 := by
      rw [total, three]
      rfl
    obtain ⟨values', tally'⟩ := tally.decided steps (ids base (List.mem_cons_of_mem _ read))
      ((formed base read).steps.trans total.symm) (unasked base (List.mem_cons_of_mem _ read)) same
      decides (apply_of_next next) talking
    exact ⟨values', tally'.stamped now⟩

end

end SagaEngine.CreateOrder
