import SagaEngine.Order.CreateOrder
import SagaEngine.Proofs.Conduct
/-!
# What the create-order steps ask of the services

A call of a step makes no exchange with a service or exactly one, and comes back with
what the plan of the step reads out of the reply. One lemma for each direction says
all about it. Main statements: `Stage.execute_yields` and `Stage.compensate_yields`.
-/

namespace SagaEngine.CreateOrder

/-- A request to a service and what came back. -/
structure Exchange where
  request : ServiceRequest
  reply : ServiceReply
  deriving DecidableEq

/-- The step that a request belongs to, and whether it is sent forward or by an undo. -/
def role : ServiceRequest → Stage × Phase
  | .reserve .. => (.reserve, .execute)
  | .release .. => (.reserve, .compensate)
  | .process .. => (.charge, .execute)
  | .refund .. => (.charge, .compensate)
  | .confirm .. => (.confirm, .execute)

/-- The exchanges of one step in one direction. -/
def sent (stage : Stage) (phase : Phase) (exchanges : List Exchange) : List Exchange :=
  exchanges.filter fun exchange => role exchange.request = (stage, phase)

def takes? : ServiceRequest → Option Undone
  | .release _ reservation => some reservation
  | .refund _ transaction _ => some transaction
  | _ => none

/-- The outcome of a reply is the one that its code stands for. -/
def Coded : ServiceReply → Prop
  | .answered result _ => result.outcome = StatusCode.classify result.code
  | .threw _ => True
  | .threwOther => True

namespace Exchange

/-- How an exchange ended; a raised error tells as little as a code that may be retried. -/
def outcome (exchange : Exchange) : Outcome :=
  match exchange.reply with
  | .answered result _ => result.outcome
  | .threw _ => .retryable
  | .threwOther => .retryable

def code? (exchange : Exchange) : Option Int :=
  match exchange.reply with
  | .answered result _ => some result.code
  | .threw _ => none
  | .threwOther => none

/-- The id that a service assigned, empty if it did not accept. -/
def assigned (exchange : Exchange) : String :=
  match exchange.reply with
  | .answered result id => if result.outcome = .ok then id else ""
  | .threw _ => ""
  | .threwOther => ""

/-- The replies after which an undo counts as done: it succeeded, or a reservation does not exist,
or a payment was refunded before or was never taken under the key that names it. -/
inductive Tolerated (exchange : Exchange) : Prop
  | ok (outcome : exchange.outcome = .ok)
  | released (key : String) (reservation : Undone)
      (request : exchange.request = .release key reservation)
      (code : exchange.code? = some StatusCode.notFound)
  | refunded (key reason : String) (transaction : Undone)
      (request : exchange.request = .refund key transaction reason)
      (code : exchange.code? = some StatusCode.alreadyExists)
  | untaken (key reason payment : String)
      (request : exchange.request = .refund key (.byKey payment) reason)
      (code : exchange.code? = some StatusCode.notFound)

end Exchange

namespace Stage

def index : Stage → Int
  | reserve => 0
  | charge => 1
  | confirm => 2

/-- The context key of the id that a step leaves behind. -/
def idKey : Stage → String
  | reserve => reservationKey
  | charge => transactionKey
  | confirm => confirmationKey

end Stage

def readReply (settle : CallResult → String → StepResult × List LogEntry) :
    ServiceReply → StepReply
  | .answered result id => .returned (settle result id).1
  | .threw message => .threw message
  | .threwOther => .threwOther

/-- What a plan comes to: the reply of the step, and the exchange if there is one. -/
inductive Plan.Yields : Plan → StepReply → List Exchange → Prop
  | settled (result : StepResult) : Yields (.settled result) (.returned result) []
  | asked (request : ServiceRequest) (settle : CallResult → String → StepResult × List LogEntry)
      (reply : ServiceReply) (coded : Coded reply) :
      Yields (.request request settle) (readReply settle reply) [⟨request, reply⟩]

/-- A call of a step went as its plan has it. -/
structure Went (c : CallMade) (stage : Stage) (said : List Exchange) : Prop where
  called : Stage.ofIndex? c.call.index = some stage
  yields : (stage.plan c.call).Yields c.reply said

/-- The exchanges of some calls, oldest first. -/
inductive Talk : List CallMade → List Exchange → Prop
  | silent : Talk [] []
  | next {calls : List CallMade} {exchanges said : List Exchange} {c : CallMade} {stage : Stage}
      (before : Talk calls exchanges) (went : Went c stage said) :
      Talk (calls ++ [c]) (exchanges ++ said)

section

variable {c : CallMade} {call : StepCall} {reply : StepReply} {stage : Stage}
  {calls : List CallMade} {exchanges said : List Exchange}

theorem classify_ne_unclassified (code : Int) (number : Nat) :
    StatusCode.classify code ≠ .unclassified number := by
  rw [StatusCode.classify]
  split
  · simp
  · split <;> simp

theorem Coded.meant {answer : ServiceReply} (coded : Coded answer) (request : ServiceRequest)
    (number : Nat) : Exchange.outcome ⟨request, answer⟩ ≠ .unclassified number := by
  cases answer with
  | threw | threwOther =>
    intro outcome
    cases outcome
  | answered result id =>
    have coded : result.outcome = StatusCode.classify result.code := coded
    show result.outcome ≠ .unclassified number
    rw [coded]
    exact classify_ne_unclassified _ _

theorem toStepResult_outcome {result : CallResult}
    (coded : result.outcome = StatusCode.classify result.code) (what : String)
    (fragment : Context) : (toStepResult result what fragment).outcome = result.outcome := by
  rw [toStepResult]
  split <;> rename_i outcome
  · exact outcome.symm
  · exact outcome.symm
  · exact outcome.symm
  · exact absurd (coded.symm.trans outcome) (classify_ne_unclassified _ _)

theorem toStepResult_fragment {result : CallResult} (outcome : result.outcome = .ok)
    (what : String) (fragment : Context) :
    (toStepResult result what fragment).fragment = fragment := by
  rw [toStepResult, outcome]
  rfl

/-- What a forward call with an exchange comes to. -/
structure Forwarded (stage : Stage) (call : StepCall) (reply : StepReply) (exchange : Exchange) :
    Prop where
  role : role exchange.request = (stage, .execute)
  legible : ∃ draft, OrderDraft.ofContext call.context = .ok draft
  outcome : reply.result.outcome = exchange.outcome
  meant : ∀ code, exchange.outcome ≠ .unclassified code
  fragment : exchange.outcome = .ok → reply.result.fragment = single stage.idKey exchange.assigned
  carries : ∀ key orderId reservation transaction,
    exchange.request = .confirm key orderId reservation transaction →
      reservation = lookUp call reservationKey ∧ transaction = lookUp call transactionKey

/-- A forward call reads a reply by its outcome, but for a code with a meaning of its own, which is
that of a rejection anyway. -/
theorem Forwarded.of_reads {settle : CallResult → String → StepResult × List LogEntry}
    {request : ServiceRequest} {answer : ServiceReply} {draft : OrderDraft} (what : String)
    (coded : Coded answer) (isRole : CreateOrder.role request = (stage, .execute))
    (decoded : OrderDraft.ofContext call.context = .ok draft)
    (carries : ∀ key orderId reservation transaction,
      request = .confirm key orderId reservation transaction →
        reservation = lookUp call reservationKey ∧ transaction = lookUp call transactionKey)
    (reads : ∀ result id,
      (settle result id).1 = toStepResult result what (single stage.idKey id) ∨
        result.code = StatusCode.failedPrecondition ∧ (settle result id).1.outcome = .terminal) :
    Forwarded stage call (readReply settle answer) ⟨request, answer⟩ := by
  have meant := coded.meant request
  suffices both : (readReply settle answer).result.outcome = Exchange.outcome ⟨request, answer⟩ ∧
      (Exchange.outcome ⟨request, answer⟩ = .ok → (readReply settle answer).result.fragment =
        single stage.idKey (Exchange.assigned ⟨request, answer⟩)) from
    ⟨isRole, ⟨draft, decoded⟩, both.1, meant, both.2, carries⟩
  cases answer with
  | threw | threwOther =>
    refine ⟨rfl, ?_⟩
    intro outcome
    cases outcome
  | answered result id =>
    have coded : result.outcome = StatusCode.classify result.code := coded
    show (settle result id).1.outcome = result.outcome ∧
      (result.outcome = .ok → (settle result id).1.fragment = single stage.idKey
        (if result.outcome = .ok then id else ""))
    rcases reads result id with plain | ⟨code, terminal⟩
    · rw [plain, toStepResult_outcome coded]
      refine ⟨rfl, ?_⟩
      intro outcome
      rw [toStepResult_fragment outcome, if_pos outcome]
    · have rejected : result.outcome = .terminal := by
        rw [coded, code]
        rfl
      rw [terminal, rejected]
      refine ⟨rfl, ?_⟩
      intro outcome
      cases outcome

theorem withDraft_yields {plan : OrderDraft → Plan}
    (yields : (withDraft call plan).Yields reply said) :
    (said = [] ∧ (∀ draft, OrderDraft.ofContext call.context ≠ .ok draft) ∧
      reply.result.outcome = .terminal) ∨
    ∃ draft, OrderDraft.ofContext call.context = .ok draft ∧ (plan draft).Yields reply said := by
  rw [withDraft] at yields
  split at yields
  · rename_i draft decoded
    exact .inr ⟨draft, decoded, yields⟩
  · rename_i error undecoded
    cases yields
    refine .inl ⟨rfl, ?_, rfl⟩
    intro draft decoded
    rw [undecoded] at decoded
    cases decoded

/-- A forward call is rejected for want of a draft, or it makes one exchange. -/
theorem Stage.execute_yields (forward : call.phase = .execute)
    (yields : (stage.plan call).Yields reply said) :
    (said = [] ∧ (∀ draft, OrderDraft.ofContext call.context ≠ .ok draft) ∧
      reply.result.outcome = .terminal) ∨
    ∃ exchange, said = [exchange] ∧ Forwarded stage call reply exchange := by
  cases stage with
  | reserve =>
    simp only [Stage.plan, forward] at yields
    rcases withDraft_yields yields with settled | ⟨draft, decoded, yields⟩
    · exact .inl settled
    · cases yields with
      | asked request settle answer coded =>
        refine .inr ⟨_, rfl, .of_reads "reserve inventory" coded rfl decoded (by simp) ?_⟩
        intro result id
        split
        · rename_i code
          exact .inr ⟨code, rfl⟩
        · exact .inl rfl
  | charge =>
    simp only [Stage.plan, forward] at yields
    rcases withDraft_yields yields with settled | ⟨draft, decoded, yields⟩
    · exact .inl settled
    · cases yields with
      | asked request settle answer coded =>
        refine .inr ⟨_, rfl, .of_reads "process payment" coded rfl decoded (by simp) ?_⟩
        intro result id
        split
        · rename_i code
          exact .inr ⟨code, rfl⟩
        · exact .inl rfl
  | confirm =>
    simp only [Stage.plan, forward] at yields
    rcases withDraft_yields yields with settled | ⟨draft, decoded, yields⟩
    · exact .inl settled
    · cases yields with
      | asked request settle answer coded =>
        refine .inr ⟨_, rfl, .of_reads "confirm order" coded rfl decoded ?_ ?_⟩
        · intro key orderId reservation transaction carries
          cases carries
          exact ⟨rfl, rfl⟩
        · intro result id
          exact .inl rfl

/-- What an undo with an exchange comes to. -/
structure TakenBack (stage : Stage) (call : StepCall) (reply : StepReply) (exchange : Exchange) :
    Prop where
  role : role exchange.request = (stage, .compensate)
  named : takes? exchange.request = some (undone call stage.idKey)
  meant : ∀ code, reply.result.outcome ≠ .unclassified code
  done : reply.result.outcome = .ok →
    exchange.Tolerated ∧ reply.result.fragment = Dictionary.empty

theorem TakenBack.of_reads {settle : CallResult → String → StepResult × List LogEntry}
    {request : ServiceRequest} {answer : ServiceReply} (what : String) (coded : Coded answer)
    (isRole : CreateOrder.role request = (stage, .compensate))
    (named : takes? request = some (undone call stage.idKey))
    (reads : ∀ result id, (settle result id).1 = toStepResult result what Dictionary.empty ∨
      (settle result id).1 = .ok ∧
        Exchange.Tolerated ⟨request, .answered result id⟩) :
    TakenBack stage call (readReply settle answer) ⟨request, answer⟩ := by
  cases answer with
  | threw | threwOther =>
    refine ⟨isRole, named, ?_, ?_⟩
    · intro code outcome
      cases outcome
    · intro outcome
      cases outcome
  | answered result id =>
    have coded : result.outcome = StatusCode.classify result.code := coded
    have result_eq : (readReply settle (.answered result id)).result = (settle result id).1 := rfl
    rcases reads result id with plain | ⟨tolerant, tolerated⟩
    · refine ⟨isRole, named, ?_, ?_⟩ <;> rw [result_eq, plain, toStepResult_outcome coded]
      · intro code
        rw [coded]
        exact classify_ne_unclassified _ _
      · intro outcome
        exact ⟨.ok outcome, toStepResult_fragment outcome _ _⟩
    · refine ⟨isRole, named, ?_, ?_⟩ <;> rw [result_eq, tolerant]
      · intro code outcome
        cases outcome
      · intro outcome
        exact ⟨tolerated, rfl⟩

/-- The undo of a rejected step and that of a confirmation do nothing; any other undo makes one
exchange. -/
theorem Stage.compensate_yields (backward : call.phase = .compensate)
    (yields : (stage.plan call).Yields reply said) :
    (said = [] ∧ (stage = .confirm ∨ call.rejected = true) ∧ reply.result = .ok) ∨
    ∃ exchange, said = [exchange] ∧ call.rejected = false ∧
      TakenBack stage call reply exchange := by
  cases stage with
  | reserve =>
    simp only [Stage.plan, backward, releaseInventory] at yields
    split at yields
    · rename_i rejected
      cases yields
      exact .inl ⟨rfl, .inr rejected, rfl⟩
    · rename_i applied
      cases yields with
      | asked request settle answer coded =>
        refine .inr ⟨_, rfl, by simpa using applied, .of_reads "release inventory" coded rfl rfl ?_⟩
        intro result id
        split
        · rename_i code
          exact .inr ⟨rfl, .released _ _ rfl (congrArg some code)⟩
        · exact .inl rfl
  | charge =>
    simp only [Stage.plan, backward, refundPayment] at yields
    split at yields
    · rename_i rejected
      cases yields
      exact .inl ⟨rfl, .inr rejected, rfl⟩
    · rename_i applied
      cases yields with
      | asked request settle answer coded =>
        refine .inr ⟨_, rfl, by simpa using applied, .of_reads "refund payment" coded rfl rfl ?_⟩
        intro result id
        split
        · rename_i code
          exact .inr ⟨rfl, .refunded _ _ _ rfl (congrArg some code)⟩
        · split
          · rename_i untaken
            refine .inr ⟨rfl, .untaken call.key refundReason
              (IdempotencyKey.execute call.executionId call.index) ?_ (congrArg some untaken.2)⟩
            simp only [undone, untaken.1, if_true]
          · exact .inl rfl
  | confirm =>
    simp only [Stage.plan, backward] at yields
    cases yields
    exact .inl ⟨rfl, .inl rfl, rfl⟩

/-! ## The exchanges of many calls -/

theorem Talk.nil_inv (talk : Talk [] exchanges) : exchanges = [] := by
  generalize whole : ([] : List CallMade) = calls at talk
  cases talk with
  | silent => rfl
  | next before went => simp at whole

theorem Talk.concat_inv (talk : Talk (calls ++ [c]) exchanges) :
    ∃ earlier said stage, exchanges = earlier ++ said ∧ Talk calls earlier ∧ Went c stage said := by
  generalize whole : calls ++ [c] = made at talk
  cases talk with
  | silent => simp at whole
  | @next calls' earlier said c' stage before went =>
    obtain ⟨rfl, last⟩ := List.append_inj' whole rfl
    cases last
    exact ⟨earlier, said, stage, rfl, before, went⟩

theorem Talk.singleton_inv (talk : Talk [c] exchanges) : ∃ stage, Went c stage exchanges := by
  obtain ⟨earlier, said, stage, rfl, before, went⟩ := Talk.concat_inv (show Talk ([] ++ [c]) exchanges from talk)
  rw [before.nil_inv]
  exact ⟨stage, went⟩

/-- The exchanges of a decision come after those of the calls before it. -/
theorem Talk.split {d : SagaDefinition} {base : Execution} {made : List CallMade} {t : Transition}
    (decides : Decides d base made t) (talk : Talk (calls ++ made) exchanges) :
    ∃ earlier said, exchanges = earlier ++ said ∧ Talk calls earlier ∧ Talk made said := by
  have idle (nothing : made = []) :
      ∃ earlier said, exchanges = earlier ++ said ∧ Talk calls earlier ∧ Talk made said := by
    subst nothing
    rw [List.append_nil] at talk
    exact ⟨exchanges, [], (List.append_nil _).symm, talk, .silent⟩
  cases decides with
  | begin | cancel | complete | finish => exact idle rfl
  | execute | compensate =>
    obtain ⟨earlier, said, stage, split, before, went⟩ := talk.concat_inv
    exact ⟨earlier, said, split, before, .next .silent went⟩

theorem Went.meant (went : Went c stage said) : ¬c.Unclassified := by
  rintro ⟨code, outcome⟩
  cases phase : c.call.phase with
  | execute =>
    rcases Stage.execute_yields phase went.yields with ⟨-, -, terminal⟩ | ⟨exchange, -, forwarded⟩
    · rw [terminal] at outcome
      cases outcome
    · exact forwarded.meant code (forwarded.outcome.symm.trans outcome)
  | compensate =>
    rcases Stage.compensate_yields phase went.yields with ⟨-, -, done⟩ | ⟨exchange, -, -, taken⟩
    · rw [done] at outcome
      cases outcome
    · exact taken.meant code outcome

theorem Talk.meant (talk : Talk calls exchanges) : ∀ c ∈ calls, ¬c.Unclassified := by
  induction talk with
  | silent => simp
  | next before went ih =>
    intro c inside
    rcases List.mem_append.1 inside with old | last
    · exact ih c old
    · cases List.mem_singleton.1 last
      exact went.meant

end

end SagaEngine.CreateOrder
