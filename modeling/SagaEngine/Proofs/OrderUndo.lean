import SagaEngine.Proofs.OrderAccount
import SagaEngine.Proofs.Solo
/-!
# Orders that are confirmed or taken back

A create-order execution that one owner after another drives to its end, without a
cancel request, has confirmed the order with the ids that its services assigned and
has taken nothing back, or it has taken back whatever a service may have done and
nothing else. Main statement: `order_undo_complete`.
-/

namespace SagaEngine.CreateOrder

/-- A step was accepted in the end, and never with another id. -/
structure AcceptedWith (stage : Stage) (id : String) (exchanges : List Exchange) : Prop where
  accepted : Accepted stage exchanges
  unique : ∀ exchange ∈ sent stage .execute exchanges, exchange.outcome = .ok →
    exchange.assigned = id

structure Confirmed (exchanges : List Exchange) : Prop where
  unreleased : sent .reserve .compensate exchanges = []
  unrefunded : sent .charge .compensate exchanges = []
  confirmed : Accepted .confirm exchanges
  carried : ∃ reservation transaction, AcceptedWith .reserve reservation exchanges ∧
    AcceptedWith .charge transaction exchanges ∧
      ∀ exchange ∈ sent .confirm .execute exchanges, ∃ key orderId,
        exchange.request = .confirm key orderId reservation transaction

/-- Whatever a step may have done is taken back, and nothing else: by the id that was assigned to
it, or else by the key of the forward call. -/
structure Recalled (x : String) (stage : Stage) (exchanges : List Exchange) : Prop where
  undone : ∀ last ∈ (sent stage .execute exchanges).getLast?,
    last.outcome = .ok ∨ last.outcome = .retryable →
      ∃ undo ∈ (sent stage .compensate exchanges).getLast?, undo.Tolerated
  named : ∀ last ∈ (sent stage .execute exchanges).getLast?,
    ∀ undo ∈ sent stage .compensate exchanges, takes? undo.request =
      some (if last.assigned = "" then .byKey (IdempotencyKey.execute x stage.index)
        else .byId last.assigned)
  rejected : ∀ last ∈ (sent stage .execute exchanges).getLast?, last.outcome = .terminal →
    sent stage .compensate exchanges = []
  uncalled : sent stage .execute exchanges = [] → sent stage .compensate exchanges = []

section

variable {e : Engine} {σ : Cluster} {x : String} {d : SagaDefinition}
  {row : Execution} {exchanges : List Exchange} {values : Context}
  {retry : RetryPolicy} {order : OrderDraft}

theorem definition_stepCount (built : definition true retry = .ok d) : d.stepCount = 3 := by
  rw [definition, if_pos rfl, SagaDefinition.ofDraft] at built
  split at built
  · cases built
  · split at built
    · cases built
    · split at built
      · cases built
      · split at built
        · cases built
        · cases built
          rfl

theorem Tally.confirmed (tally : Tally x row values exchanges) (status : row.status = .completed) :
    Confirmed exchanges := by
  have standing := tally.standing
  simp only [Standing, status] at standing
  have accepted (stage : Stage) : AcceptedWith stage (returned stage exchanges) exchanges :=
    ⟨standing.accepted stage, (tally.books.accounts stage).unique⟩
  refine ⟨standing.unrecalled _, standing.unrecalled _, standing.accepted _, _, _,
    accepted .reserve, accepted .charge, ?_⟩
  intro exchange inside
  have isConfirm : role exchange.request = (.confirm, .execute) := by
    simpa using (List.mem_filter.1 inside).2
  cases request : exchange.request with
  | confirm key orderId reservation transaction =>
    obtain ⟨rfl, rfl⟩ :=
      tally.books.carried exchange inside key orderId reservation transaction request
    exact ⟨key, orderId, rfl⟩
  | _ =>
    rw [request] at isConfirm
    cases isConfirm

theorem Tally.recalled (tally : Tally x row values exchanges) (status : row.status = .compensated)
    {stage : Stage} (undoable : stage ≠ .confirm) : Recalled x stage exchanges := by
  have standing := tally.standing
  simp only [Standing, status] at standing
  have account := tally.books.accounts stage
  have unsent (none : ¬∃ last ∈ (sent stage .execute exchanges).getLast?, last.outcome ≠ .terminal) :
      sent stage .compensate exchanges = [] := by
    by_cases empty : sent stage .compensate exchanges = []
    · exact empty
    · exact absurd (account.spared empty) none
  constructor
  · intro last isLast mayHave
    refine standing stage undoable last isLast ?_
    intro terminal
    rw [terminal] at mayHave
    rcases mayHave with accepted | retryable
    · cases accepted
    · cases retryable
  · intro last isLast undo inside
    have isLast : (sent stage .execute exchanges).getLast? = some last := isLast
    have assigned : returned stage exchanges = last.assigned := by rw [returned, isLast]; rfl
    rw [account.named undo inside, toTakeBack, assigned]
    simp only [String.isEmpty_iff]
  · intro last isLast terminal
    apply unsent
    rintro ⟨last', isLast', spared⟩
    rw [isLast] at isLast'
    cases isLast'
    exact spared terminal
  · intro uncalled
    apply unsent
    rintro ⟨last, isLast, -⟩
    rw [uncalled] at isLast
    cases isLast

/-- Whatever the services answer to an order, an execution that is driven to its end without cancel
requests has confirmed it and taken nothing back, or has taken back what a service may have done. -/
theorem order_undo_complete (fits : e.Fits) (reachable : Reachable e σ)
    (built : definition true retry = .ok d) (registered : e.definition sagaType = .ok d)
    (started : ∃ ev ∈ σ.journal, ev.actor.operation = .start sagaType order.toContext ∧
      ∃ first ∈ ev.installed, first.id = x)
    (exclusive : σ.journal.Exclusive x)
    (uncancelled : ∀ task ∈ σ.tasks, task.actor.operation ≠ .cancel x)
    (talk : Talk (σ.journal.calls x) exchanges) (latest : σ.rows.get? x = some row) :
    (row.status = .completed → Confirmed exchanges) ∧
      (row.status = .compensated → ∀ stage, stage ≠ .confirm → Recalled x stage exchanges) := by
  have consistent := reachable_consistent reachable fits
  have lawful := consistent.lawful
  have found : σ.journal.record x = some row := by
    rw [Journal.record, ← consistent.rows]
    exact latest
  obtain ⟨older, history⟩ := history_eq_cons_of_record found
  have unasked : ∀ row ∈ σ.journal.history x, row.cancelRequested = false := by
    apply lawful.unasked
    intro ev inside cancels
    obtain ⟨task, member, same⟩ := consistent.known ev inside
    exact uncancelled task member (same ▸ cancels)
  obtain ⟨ev, inside, starts, first, installed, id⟩ := started
  obtain ⟨isFirst, sagaType, context⟩ := lawful.first_row inside starts installed id
  have classified : σ.journal.Classified x := talk.meant
  obtain ⟨calls, booked⟩ := lawful.booked exclusive classified
  obtain ⟨d', known, lineage⟩ := booked.lineage history
  have known' := known first (history ▸ List.mem_of_getLast? isFirst)
  obtain rfl : d = d' := by
    have definition := (definitionOf_eq_ok.1 known').1
    rw [sagaType, registered] at definition
    exact Except.ok.inj definition
  have small := fits.of_definitionOf known'
  have tally (terminal : row.status.isTerminal = true) :
      ∃ values, Tally x row values exchanges := by
    have made := booked.made_of_terminal lawful exclusive ⟨found, terminal⟩
    rw [made] at talk
    have began : ∀ first ∈ (row :: older).getLast?, first.context = order.toContext.toBlob := by
      rw [← history, isFirst]
      rintro first ⟨⟩
      exact context
    refine lineage_tally lineage small (definition_stepCount built) ?_ ?_ began talk row rfl
    · intro row inside
      exact id_of_mem_history (history ▸ inside)
    · intro row inside
      exact unasked row (history ▸ inside)
  constructor
  · intro status
    obtain ⟨values, tally⟩ := tally (by rw [status]; rfl)
    exact tally.confirmed status
  · intro status stage undoable
    obtain ⟨values, tally⟩ := tally (by rw [status]; rfl)
    exact tally.recalled status undoable

/-! ## A small order -/

/-- Services that reply to a request in one way, as a host meets them. -/
def serviced (services : ServiceRequest → ServiceReply) (call : StepCall) :
    StepReply × List Exchange :=
  match Stage.ofIndex? call.index with
  | none => (.threwOther, [])
  | some stage =>
    match stage.plan call with
    | .settled result => (.returned result, [])
    | .request request settle =>
      (readReply settle (services request), [⟨request, services request⟩])

theorem serviced_went {services : ServiceRequest → ServiceReply} {c : CallMade}
    (coded : ∀ request, Coded (services request)) (isStage : Stage.ofIndex? c.call.index ≠ none)
    (replies : c.reply = (serviced services c.call).1) :
    ∃ stage, Went c stage (serviced services c.call).2 := by
  obtain ⟨stage, called⟩ := Option.ne_none_iff_exists'.1 isStage
  refine ⟨stage, called, ?_⟩
  rw [replies, serviced, called]
  dsimp only
  cases stage.plan c.call with
  | settled result => exact .settled result
  | request request settle => exact .asked request settle _ (coded request)

theorem Talk.serviced {services : ServiceRequest → ServiceReply}
    (coded : ∀ request, Coded (services request)) {calls before : List CallMade}
    (talk : Talk before exchanges)
    (replies : ∀ c ∈ calls, Stage.ofIndex? c.call.index ≠ none ∧
      c.reply = (serviced services c.call).1) :
    Talk (before ++ calls) (exchanges ++ calls.flatMap fun c => (serviced services c.call).2) := by
  induction calls generalizing before exchanges with
  | nil => simpa using talk
  | cons c calls ih =>
    obtain ⟨isStage, reply⟩ := replies c List.mem_cons_self
    obtain ⟨stage, went⟩ := serviced_went coded isStage reply
    have rest := ih (.next talk went) fun c inside => replies c (List.mem_cons_of_mem _ inside)
    rw [List.append_assoc, List.append_assoc] at rest
    exact rest

theorem serviced_talk {services : ServiceRequest → ServiceReply}
    (coded : ∀ request, Coded (services request)) {calls : List CallMade}
    (replies : ∀ c ∈ calls, Stage.ofIndex? c.call.index ≠ none ∧
      c.reply = (serviced services c.call).1) :
    Talk calls (calls.flatMap fun c => (serviced services c.call).2) :=
  Talk.silent.serviced coded replies

end

namespace Sample

def definition : SagaDefinition where
  sagaType := sagaType
  steps := [Stage.name .reserve, Stage.name .charge, Stage.name .confirm]
  retry := { maxAttempts := 2 }
  steps_ne_nil := List.cons_ne_nil _ _
  attempts_pos := Nat.two_pos

def engine : Engine where
  registry := { definitions := Dictionary.empty.insert sagaType definition, frozen := true }
  patience := Engine.defaultPatience
  frozen := rfl

theorem engine_fits : engine.Fits := .of_single ⟨by decide, by decide⟩ rfl

/-- Stock is reserved, every payment times out, and neither is known when it is taken back. -/
def services : ServiceRequest → ServiceReply
  | .reserve .. => .answered (.ofStatus StatusCode.ok "") "stock"
  | .process .. => .answered (.ofStatus StatusCode.deadlineExceeded "late") ""
  | .confirm .. => .answered (.ofStatus StatusCode.ok "") "order"
  | .release .. => .answered (.ofStatus StatusCode.notFound "gone") ""
  | .refund .. => .answered (.ofStatus StatusCode.notFound "unknown") ""

theorem services_coded (request : ServiceRequest) : Coded (services request) := by
  cases request <;> rfl

def order : OrderDraft := { orderId := "42", amountCents := 12500 }

def host : Host := SagaEngine.Sample.host fun _ call => (serviced services call).1

def taken : Cluster :=
  (Cluster.perform engine host {} (.start sagaType order.toContext)).perform engine host (.drive "x")

theorem taken_reachable : Reachable engine taken :=
  perform_reachable _ (perform_reachable _ .initial _) _

end Sample

/-- A payment that times out is refunded by its key, and the stock by its id. -/
theorem order_undo_complete_late :
    ∃ exchanges, exchanges.map (fun exchange => takes? exchange.request) =
        [none, none, none, some (.byKey "x/1"), some (.byId "stock")] ∧
      Recalled "x" .charge exchanges ∧ Recalled "x" .reserve exchanges := by
  have ran : (Sample.taken.rows.get? "x").map (·.status) = some .compensated ∧
      (∃ ev ∈ Sample.taken.journal,
        ev.actor.operation = .start sagaType Sample.order.toContext ∧
          ∃ first ∈ ev.installed, first.id = "x") ∧
      Sample.taken.journal.Exclusive "x" ∧
      (∀ task ∈ Sample.taken.tasks, task.actor.operation ≠ .cancel "x") ∧
      (∀ c ∈ Sample.taken.journal.calls "x", Stage.ofIndex? c.call.index ≠ none ∧
        c.reply = (serviced Sample.services c.call).1) ∧
      ((Sample.taken.journal.calls "x").flatMap fun c => (serviced Sample.services c.call).2).map
        (fun exchange => takes? exchange.request) =
          [none, none, none, some (.byKey "x/1"), some (.byId "stock")] := by decide +kernel
  obtain ⟨status, started, exclusive, uncancelled, replies, undos⟩ := ran
  obtain ⟨row, latest, compensated⟩ := Option.map_eq_some_iff.1 status
  have built : definition true { maxAttempts := 2 } = .ok Sample.definition := rfl
  have registered : Sample.engine.definition sagaType = .ok Sample.definition := rfl
  have recalled := (order_undo_complete Sample.engine_fits Sample.taken_reachable built registered
    started exclusive uncancelled (serviced_talk Sample.services_coded replies) latest).2 compensated
  exact ⟨_, undos, recalled .charge (by simp), recalled .reserve (by simp)⟩

end SagaEngine.CreateOrder
