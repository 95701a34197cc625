import SagaEngine.Proofs.Persistence
/-!
# One advance

An owner calls at most one step, stores what the reply leads to, and gives its lease
back once it has accounted for the call. Main statements: `settle_ensures`,
`callStep_ensures`, `advanceHeld_ensures` and `advance_ensures`.
-/

namespace SagaEngine

section

variable {e : Engine} {me : Actor} {x : String} {d : SagaDefinition} {base row : Execution}
  {t : Transition} {j j' j'' : Journal} {v v' : View} {a : Attempt} {seen : Option Execution}

/-! ## Settling an advance -/

theorem report_ensures (own : (v.journal.attempt me).written.getLast? = some row)
    (terminal : row.status.isTerminal = true) :
    Ensures (contract e me) (fun r v' => r = .ok () ∧ Idles e me v.journal v'.journal)
      (Engine.report row) v := by
  have told (v₁ : View) (idles : Idles e me v.journal v₁.journal) :
      Ensures (contract e me) (fun r v' => r = .ok () ∧ Idles e me v.journal v'.journal)
        (Action.ask (.completed row)) v₁ :=
    Ensures.completed (idles.attempt ▸ own) terminal fun v₂ idles₂ => ⟨rfl, idles.idle idles₂⟩
  rw [Engine.report]
  split
  · rename_i failed
    refine Ensures.bind (Ensures.alert own failed ?_)
    intro v₁ idles
    refine Ensures.bind (Ensures.log ?_)
    rintro v₂ idles₂ -
    exact told v₂ (idles.idle idles₂)
  · refine Ensures.bind (Ensures.log ?_)
    rintro v₁ idles -
    exact told v₁ idles

/-- What became of an advance that stored a transition or tried to. -/
def Settled (e : Engine) (me : Actor) (x : String) (base : Execution) (onSuccess : Advanced)
    (j j' : Journal) (r : Except Failure Advanced) : Prop :=
  (∃ row, row.id = x ∧ Wrote e me j j' row ∧
      (r = .ok .terminal ∧ row.status.isTerminal = true ∨ r = .ok onSuccess)) ∨
    r = .ok .abandoned ∧ Idles e me j j' ∧ j'.Overtaken x base

theorem settle_ensures (fits : e.Fits) (lawful : Lawful e v.journal)
    (ready : Ready e me x d base t (v.journal.attempt me)) (onSuccess : Advanced) :
    Ensures (contract e me) (fun r v' => Settled e me x base onSuccess v.journal v'.journal r)
      (Engine.settle base t onSuccess) v := by
  refine Ensures.bind ((persist_ensures fits lawful ready).mono ?_)
  rintro r v₁ (⟨row, rfl, id, wrote⟩ | ⟨rfl, idles, overtaken⟩)
  · dsimp only [Engine.finish]
    split
    · rename_i terminal
      have own : (v₁.journal.attempt me).written.getLast? = some row := by
        rw [wrote.attempt]
        simp [Attempt.after]
      refine Ensures.bind ((report_ensures own terminal).mono ?_)
      rintro r v₂ ⟨rfl, idles⟩
      have start : Idles e me v.journal v.journal := ⟨lawful, List.suffix_refl _, rfl⟩
      exact .inl ⟨row, id, wrote.extend start idles, .inl ⟨rfl, terminal⟩⟩
    · exact .inl ⟨row, id, wrote, .inr rfl⟩
  · exact .inr ⟨rfl, idles, overtaken⟩

/-! ## Step calls -/

/-- A step was called, and nothing else happened that the journal tells about the owner. -/
def Called (e : Engine) (me : Actor) (j j' : Journal) (made : CallMade) : Prop :=
  Onward e me j j' { j.attempt me with calls := [made] }

theorem Called.holding {made : CallMade} (called : Called e me j j' made)
    (holding : Holding e me x d base (j.attempt me)) : Holding e me x d base (j'.attempt me) := by
  rw [called.attempt]
  exact ⟨holding.driven, holding.held, holding.read, holding.unwritten, holding.known⟩

theorem Called.held {made : CallMade} (called : Called e me j j' made) :
    (j'.attempt me).held = (j.attempt me).held := by
  rw [called.attempt]

theorem callStep_ensures {call : StepCall} (holding : Holding e me x d base (v.journal.attempt me))
    (uncalled : (v.journal.attempt me).calls = []) (asks : AsksFor d base call) :
    Ensures (contract e me)
      (fun r v' => ∃ reply : StepReply, r = .ok reply.result ∧
        Called e me v.journal v'.journal ⟨call, reply⟩)
      (Engine.callStep d base call) v := by
  obtain ⟨lease, held⟩ := holding.held
  refine Ensures.bind (Ensures.aside rfl ?_)
  rintro span v₁ idles -
  have held₁ : (v₁.journal.attempt me).held = some lease := idles.attempt ▸ held
  refine Ensures.bind (Ensures.call holding.driven held₁
    (idles.attempt ▸ holding.read) (idles.attempt ▸ uncalled) (idles.attempt ▸ holding.unwritten)
    holding.known asks ?_)
  intro reply v₂ called
  have called : Called e me v.journal v₂.journal ⟨call, reply⟩ := by
    have onward := idles.trans called
    exact ⟨onward.lawful, onward.later, idles.attempt ▸ onward.attempt⟩
  have closing (v₃ : View) (idles₃ : Idles e me v₂.journal v₃.journal) :
      Ensures (contract e me)
        (fun r v' => ∃ reply' : StepReply, r = .ok reply'.result ∧
          Called e me v.journal v'.journal ⟨call, reply'⟩)
        (do
          Action.log (.debug (Engine.returnedLine call.phase)
            [.execution base.id, .text "step" call.step,
              .text "outcome" reply.result.outcome.label])
          Action.ask (.closeSpan span)
          return reply.result) v₃ := by
    refine Ensures.bind (Ensures.log ?_)
    rintro v₄ idles₄ -
    refine Ensures.bind (Ensures.aside rfl ?_)
    rintro - v₅ idles₅ -
    exact ⟨reply, rfl, called.idle (idles₃.idle (idles₄.idle idles₅))⟩
  dsimp only
  split
  · refine Ensures.bind (Ensures.aside rfl ?_)
    rintro - v₃ idles₃ -
    exact closing v₃ idles₃
  · exact closing v₂ ⟨called.lawful, List.suffix_refl _, rfl⟩

theorem invoke_ensures {phase : Phase} {step : String} {context : Context}
    (holding : Holding e me x d base (v.journal.attempt me))
    (uncalled : (v.journal.attempt me).calls = [])
    (decoded : Context.ofBlob base.context = .ok context)
    (asks : AsksFor d base (plannedCall base phase step context)) :
    Ensures (contract e me)
      (fun r v' => ∃ reply : StepReply, r = .ok reply.result ∧
        Called e me v.journal v'.journal ⟨plannedCall base phase step context, reply⟩)
      (Engine.invoke d base step phase) v := by
  rw [Engine.invoke, decoded]
  exact callStep_ensures holding uncalled asks

/-! ## Moving forward and backward -/

/-- The operation goes on with the execution. -/
def Advanced.goesOn : Advanced → Bool
  | .progressed => true
  | .retryAfter _ => true
  | _ => false

/-- What an advance came to: a row was committed, and the execution goes on or is finished; or
none was, since somebody else made progress, the reply has no meaning or the execution was
finished before. -/
inductive Verdict (me : Actor) (x : String) (base : Execution) (j j' : Journal) : Advanced → Prop
  | moved {advanced : Advanced} (written : (j'.attempt me).written ≠ [])
      (grown : (j.history x).length < (j'.history x).length) (goesOn : advanced.goesOn = true) :
      Verdict me x base j j' advanced
  | finished (written : (j'.attempt me).written ≠ []) (row : Execution)
      (finished : j'.Finished x row) : Verdict me x base j j' .terminal
  | overtaken (unwritten : (j'.attempt me).written = []) (overtaken : j'.Overtaken x base) :
      Verdict me x base j j' .abandoned
  | meaningless (unwritten : (j'.attempt me).written = []) (c : CallMade)
      (made : c ∈ (j'.attempt me).calls) (unclassified : c.Unclassified) :
      Verdict me x base j j' .abandoned
  | rested (uncalled : (j'.attempt me).calls = []) (terminal : base.status.isTerminal = true)
      (finished : j'.Finished x base) : Verdict me x base j j' .terminal

/-- What an owner leaves behind when it is about to give its lease back. -/
structure Concludes (e : Engine) (me : Actor) (x : String) (base : Execution) (j j' : Journal)
    (advanced : Advanced) : Prop where
  lawful : Lawful e j'
  later : j <:+ j'
  held : (j'.attempt me).held = (j.attempt me).held
  read : (j'.attempt me).base = some base
  verdict : Verdict me x base j j' advanced

theorem Verdict.extend {advanced : Advanced} (verdict : Verdict me x base j' j'' advanced)
    (later : j <:+ j') : Verdict me x base j j'' advanced := by
  cases verdict with
  | moved written grown goesOn =>
    exact .moved written (Nat.lt_of_le_of_lt (history_suffix x later).length_le grown) goesOn
  | finished written row finished => exact .finished written row finished
  | overtaken unwritten overtaken => exact .overtaken unwritten overtaken
  | meaningless unwritten c made unclassified => exact .meaningless unwritten c made unclassified
  | rested uncalled terminal finished => exact .rested uncalled terminal finished

theorem Concludes.extend {advanced : Advanced} (concludes : Concludes e me x base j' j'' advanced)
    (later : j <:+ j') (held : (j'.attempt me).held = (j.attempt me).held) :
    Concludes e me x base j j'' advanced :=
  { concludes with
    later := later.trans concludes.later
    held := concludes.held.trans held
    verdict := concludes.verdict.extend later }

theorem Concludes.accounted {advanced : Advanced}
    (concludes : Concludes e me x base j j' advanced) : j'.Accounted x (j'.attempt me) := by
  intro called
  cases concludes.verdict with
  | moved written => exact .inl written
  | finished written => exact .inl written
  | overtaken _ overtaken => exact .inr (.inl ⟨base, concludes.read, overtaken⟩)
  | meaningless _ c made unclassified => exact .inr (.inr ⟨c, made, unclassified⟩)
  | rested uncalled => exact absurd uncalled called

theorem Wrote.written (wrote : Wrote e me j j' row) : (j'.attempt me).written ≠ [] := by
  rw [wrote.attempt]
  simp [Attempt.after]

theorem Settled.concludes {r : Except Failure Advanced} {onSuccess : Advanced}
    (settled : Settled e me x base onSuccess j j' r)
    (holding : Holding e me x d base (j.attempt me)) (fits : e.Fits)
    (goesOn : onSuccess.goesOn = true) :
    ∃ advanced, r = .ok advanced ∧ Concludes e me x base j j' advanced := by
  rcases settled with ⟨row, id, wrote, result⟩ | ⟨result, idles, overtaken⟩
  · have concludes {advanced : Advanced} (verdict : Verdict me x base j j' advanced) :
        Concludes e me x base j j' advanced := by
      refine ⟨wrote.lawful, wrote.later, ?_, ?_, verdict⟩
      · rw [wrote.attempt]
        rfl
      · rw [wrote.attempt]
        exact holding.read
    rcases result with ⟨result, terminal⟩ | result
    · exact ⟨_, result, concludes (.finished wrote.written row (wrote.finished id fits terminal))⟩
    · exact ⟨_, result, concludes (.moved wrote.written (wrote.grows id) goesOn)⟩
  · exact ⟨_, result, idles.lawful, idles.later, congrArg Attempt.held idles.attempt,
      idles.attempt ▸ holding.read, .overtaken (idles.attempt ▸ holding.unwritten) overtaken⟩

theorem stepName_eq_ok {index : Int} (low : 0 ≤ index) (high : index < d.stepCount) :
    ∃ step, Engine.stepName d index = .ok step := by
  have isStep := (d.stepAt?_isSome_iff index).2 ⟨low, high⟩
  obtain ⟨step, named⟩ := Option.isSome_iff_exists.1 isStep
  exact ⟨step, by rw [Engine.stepName, named]⟩

theorem WellFormed.decoded (formed : WellFormed d row) :
    ∃ context, Context.ofBlob row.context = .ok context := by
  obtain ⟨values, written⟩ := formed.readable
  exact ⟨values, by rw [written, Context.ofBlob_toBlob]⟩

theorem Called.settles {made : CallMade} (called : Called e me v.journal v'.journal made)
    (fits : e.Fits) (holding : Holding e me x d base (v.journal.attempt me))
    (decides : Decides d base [made] t) {onSuccess : Advanced}
    (goesOn : onSuccess.goesOn = true) :
    Ensures (contract e me)
      (fun r v'' => ∃ advanced, r = .ok advanced ∧
        Concludes e me x base v.journal v''.journal advanced)
      (Engine.settle base t onSuccess) v' := by
  have ready : Ready e me x d base t (v'.journal.attempt me) :=
    ⟨called.holding holding, by rw [called.attempt]; exact decides⟩
  apply (settle_ensures fits called.lawful ready onSuccess).mono
  intro r v'' settled
  obtain ⟨advanced, result, concludes⟩ := settled.concludes (called.holding holding) fits goesOn
  exact ⟨advanced, result, concludes.extend called.later called.held⟩

theorem Called.idle_settles {made : CallMade} (called : Called e me v.journal v'.journal made)
    (fits : e.Fits) (holding : Holding e me x d base (v.journal.attempt me))
    (decides : Decides d base [made] t) {onSuccess : Advanced}
    (goesOn : onSuccess.goesOn = true) {entry : LogEntry} :
    Ensures (contract e me)
      (fun r v'' => ∃ advanced, r = .ok advanced ∧
        Concludes e me x base v.journal v''.journal advanced)
      (do
        Action.log entry
        Engine.settle base t onSuccess) v' := by
  refine Ensures.bind (Ensures.log ?_)
  rintro v'' idles -
  have later : Called e me v.journal v''.journal made := Onward.idle called idles
  exact later.settles fits holding decides goesOn

theorem executeStep_ensures (fits : e.Fits) (formed : WellFormed d base)
    (holding : Holding e me x d base (v.journal.attempt me))
    (uncalled : (v.journal.attempt me).calls = []) (status : base.status = .inProgress)
    (requested : base.cancelRequested = false) (isStep : base.stepIndex < base.totalSteps) :
    Ensures (contract e me)
      (fun r v' => ∃ advanced, r = .ok advanced ∧
        Concludes e me x base v.journal v'.journal advanced)
      (Engine.executeStep d base) v := by
  have place := formed.place
  simp only [Execution.position, status, Position.InPlace] at place
  obtain ⟨step, named⟩ := stepName_eq_ok place.1 place.2.1
  obtain ⟨context, decoded⟩ := formed.decoded
  have asks : AsksFor d base (plannedCall base .execute step context) :=
    .execute status requested isStep step named context decoded
  rw [Engine.executeStep, named]
  refine Ensures.bind (Ensures.ofExcept ?_)
  refine Ensures.bind ((invoke_ensures holding uncalled decoded asks).mono ?_)
  rintro r v₁ ⟨reply, rfl, called⟩
  have decides {t : Transition} (follows : afterExecute? d base step reply.result = some t) :
      Decides d base [⟨plannedCall base .execute step context, reply⟩] t :=
    .execute status requested isStep step named context decoded reply t follows
  dsimp only
  split
  · rename_i outcome
    exact called.settles fits holding (decides (by simp [afterExecute?, outcome])) rfl
  · rename_i outcome
    split
    · rename_i spent
      exact called.idle_settles fits holding (decides (by simp [afterExecute?, outcome, spent])) rfl
    · rename_i left
      exact called.idle_settles fits holding (decides (by simp [afterExecute?, outcome, left])) rfl
  · rename_i outcome
    exact called.idle_settles fits holding (decides (by simp [afterExecute?, outcome])) rfl
  · rename_i code outcome
    have made : (v₁.journal.attempt me).calls =
        [⟨plannedCall base .execute step context, reply⟩] := by
      rw [called.attempt]
    exact ⟨.abandoned, rfl, called.lawful, called.later, called.held,
      (called.holding holding).read,
      .meaningless (called.holding holding).unwritten _ (made ▸ List.mem_singleton.2 rfl) ⟨code, outcome⟩⟩

theorem undoStep_ensures (fits : e.Fits) (formed : WellFormed d base)
    (holding : Holding e me x d base (v.journal.attempt me))
    (uncalled : (v.journal.attempt me).calls = []) (status : base.status = .compensating)
    (isStep : 0 ≤ base.stepIndex) :
    Ensures (contract e me)
      (fun r v' => ∃ advanced, r = .ok advanced ∧
        Concludes e me x base v.journal v'.journal advanced)
      (Engine.undoStep d base) v := by
  have place := formed.place
  simp only [Execution.position, status, Position.InPlace] at place
  obtain ⟨step, named⟩ := stepName_eq_ok isStep place.2.1
  obtain ⟨context, decoded⟩ := formed.decoded
  have asks : AsksFor d base (plannedCall base .compensate step context) :=
    .compensate status isStep step named context decoded
  rw [Engine.undoStep, named]
  refine Ensures.bind (Ensures.ofExcept ?_)
  refine Ensures.bind ((invoke_ensures holding uncalled decoded asks).mono ?_)
  rintro r v₁ ⟨reply, rfl, called⟩
  have decides := Decides.compensate status isStep step named context decoded reply
  rw [afterCompensate] at decides
  dsimp only
  split
  · rename_i outcome
    rw [if_pos outcome] at decides
    exact called.settles fits holding decides rfl
  · rename_i failed
    rw [if_neg failed] at decides
    split
    · rename_i again
      rw [if_pos again] at decides
      exact called.idle_settles fits holding decides rfl
    · rename_i final
      rw [if_neg final] at decides
      exact called.idle_settles fits holding decides rfl

theorem Holding.settles (holding : Holding e me x d base (v.journal.attempt me)) (fits : e.Fits)
    (lawful : Lawful e v.journal) (uncalled : (v.journal.attempt me).calls = [])
    (decides : Decides d base [] t) {onSuccess : Advanced} (goesOn : onSuccess.goesOn = true) :
    Ensures (contract e me)
      (fun r v' => ∃ advanced, r = .ok advanced ∧
        Concludes e me x base v.journal v'.journal advanced)
      (Engine.settle base t onSuccess) v := by
  have ready : Ready e me x d base t (v.journal.attempt me) := ⟨holding, uncalled ▸ decides⟩
  exact (settle_ensures fits lawful ready onSuccess).mono fun r v' settled =>
    settled.concludes holding fits goesOn

theorem stepForward_ensures (fits : e.Fits) (lawful : Lawful e v.journal)
    (formed : WellFormed d base) (holding : Holding e me x d base (v.journal.attempt me))
    (uncalled : (v.journal.attempt me).calls = []) (status : base.status = .inProgress) :
    Ensures (contract e me)
      (fun r v' => ∃ advanced, r = .ok advanced ∧
        Concludes e me x base v.journal v'.journal advanced)
      (Engine.stepForward d base) v := by
  rw [Engine.stepForward]
  split
  · rename_i requested
    refine Ensures.bind (Ensures.log ?_)
    rintro v₁ idles -
    have holding₁ : Holding e me x d base (v₁.journal.attempt me) := idles.attempt ▸ holding
    refine (holding₁.settles fits idles.lawful (idles.attempt ▸ uncalled)
      (.cancel status requested) rfl).mono ?_
    rintro r v' ⟨advanced, result, concludes⟩
    exact ⟨advanced, result,
      concludes.extend idles.later (congrArg Attempt.held idles.attempt)⟩
  · rename_i unasked
    have requested : base.cancelRequested = false := by simpa using unasked
    split
    · rename_i noStep
      exact holding.settles fits lawful uncalled (.complete status requested noStep) rfl
    · rename_i isStep
      exact executeStep_ensures fits formed holding uncalled status requested (by omega)

theorem stepBackward_ensures (fits : e.Fits) (lawful : Lawful e v.journal)
    (formed : WellFormed d base) (holding : Holding e me x d base (v.journal.attempt me))
    (uncalled : (v.journal.attempt me).calls = []) (status : base.status = .compensating) :
    Ensures (contract e me)
      (fun r v' => ∃ advanced, r = .ok advanced ∧
        Concludes e me x base v.journal v'.journal advanced)
      (Engine.stepBackward d base) v := by
  rw [Engine.stepBackward]
  split
  · rename_i noStep
    exact holding.settles fits lawful uncalled (.finish status noStep) rfl
  · rename_i isStep
    exact undoStep_ensures fits formed holding uncalled status (by omega)

theorem advanceHeld_ensures (fits : e.Fits) {lease : Lease}
    (driven : me.operation.driven? = some x) (owned : v.journal.OwnedBy e d x)
    (present : v.journal.history x ≠ [])
    (fresh : v.journal.attempt me = { leased := true, held := some lease }) :
    Ensures (contract e me)
      (fun r v' => ∃ advanced base, r = .ok advanced ∧
        Concludes e me x base v.journal v'.journal advanced)
      (Engine.advanceHeld d x) v := by
  refine Ensures.bind ((getStatus_ensures (Operation.target?_of_driven? driven)).mono ?_)
  rintro r v₁ (⟨base, rfl, sees⟩ | ⟨rfl, sees⟩)
  · have lawful := sees.onward.lawful
    have attempt : v₁.journal.attempt me =
        { leased := true, held := some lease, base := some base } := by
      rw [sees.onward.attempt, fresh]
      rfl
    have inside := sees.mem
    obtain ⟨first, firstMem⟩ := List.exists_mem_of_ne_nil _ present
    have owned₁ : v₁.journal.OwnedBy e d x :=
      lawful.ownedBy_of_known ((history_suffix x sees.onward.later).subset firstMem)
        (owned.known first firstMem)
    have known := owned₁.known base inside
    have formed := owned₁.wellFormed (fits.of_definitionOf known) inside
    have holding : Holding e me x d base (v₁.journal.attempt me) := by
      rw [attempt]
      exact ⟨driven, ⟨lease, rfl⟩, rfl, rfl, known⟩
    have uncalled : (v₁.journal.attempt me).calls = [] := by rw [attempt]
    have held : (v₁.journal.attempt me).held = (v.journal.attempt me).held := by
      rw [attempt, fresh]
    have done {r : Except Failure Advanced} {v' : View}
        (concluded : ∃ advanced, r = .ok advanced ∧
          Concludes e me x base v₁.journal v'.journal advanced) :
        ∃ advanced base, r = .ok advanced ∧
          Concludes e me x base v.journal v'.journal advanced := by
      obtain ⟨advanced, result, concludes⟩ := concluded
      exact ⟨advanced, base, result, concludes.extend sees.onward.later held⟩
    have resting (terminal : base.status.isTerminal = true) :
        Concludes e me x base v.journal v₁.journal .terminal :=
      ⟨lawful, sees.onward.later, held, holding.read,
        .rested uncalled terminal (sees.finished fits terminal)⟩
    dsimp only
    cases status : base.status with
    | started =>
      exact (holding.settles fits lawful uncalled (.begin status) rfl).mono fun r v' => done
    | inProgress =>
      exact (stepForward_ensures fits lawful formed holding uncalled status).mono fun r v' => done
    | compensating =>
      exact (stepBackward_ensures fits lawful formed holding uncalled status).mono
        fun r v' => done
    | compensated => exact ⟨.terminal, base, rfl, resting (by rw [status]; rfl)⟩
    | completed => exact ⟨.terminal, base, rfl, resting (by rw [status]; rfl)⟩
    | failed => exact ⟨.terminal, base, rfl, resting (by rw [status]; rfl)⟩
  · exact absurd sees.nothing present

/-! ## Whole operations -/

/-- An actor that may ask for a lease: it holds none and has stored what the last one was for. -/
structure Attempt.Free (a : Attempt) : Prop where
  held : a.held = none
  settled : a.leased = true → a.written ≠ []

/-- Why an actor gave an execution up: somebody else held the lease, somebody else made progress
while the actor held it, or a reply had no meaning. -/
inductive Journal.GaveUp (j : Journal) (me : Actor) (x : String) : Prop
  | refused (k : Journal) (earlier : ⟨me, .acquire x, none, []⟩ :: k <:+ j)
  | overtaken (k : Journal) (base : Execution) (earlier : k <:+ j)
      (held : (k.attempt me).held ≠ none) (read : (k.attempt me).base = some base)
      (unwritten : (k.attempt me).written = []) (overtaken : k.Overtaken x base)
  | meaningless (k : Journal) (c : CallMade) (earlier : k <:+ j) (made : c ∈ (k.attempt me).calls)
      (unclassified : c.Unclassified)

theorem Journal.GaveUp.mono (gaveUp : j.GaveUp me x) (later : j <:+ j') : j'.GaveUp me x := by
  cases gaveUp with
  | refused k earlier => exact .refused k (earlier.trans later)
  | overtaken k base earlier held read unwritten overtaken =>
    exact .overtaken k base (earlier.trans later) held read unwritten overtaken
  | meaningless k c earlier made unclassified =>
    exact .meaningless k c (earlier.trans later) made unclassified

/-- What an owner that got a lease and stored nothing may have met: somebody else made progress,
or the reply has no meaning. -/
structure Journal.Lost (j : Journal) (me : Actor) (x : String) : Prop where
  unwritten : (j.attempt me).written = []
  reason : (∃ base, (j.attempt me).base = some base ∧ j.Overtaken x base) ∨
    ∃ c ∈ (j.attempt me).calls, c.Unclassified

/-- What is known of an actor after an advance. -/
structure Advances (e : Engine) (me : Actor) (x : String) (j j' : Journal) (advanced : Advanced) :
    Prop where
  lawful : Lawful e j'
  later : j <:+ j'
  held : (j'.attempt me).held = none
  moved : advanced.goesOn = true → (j'.attempt me).written ≠ [] ∧
    (j.history x).length < (j'.history x).length
  finished : advanced = .terminal → ∃ row, j'.Finished x row
  gaveUp : advanced = .abandoned → j'.GaveUp me x
  verdict : ∀ base, (j'.attempt me).leased = true → (j'.attempt me).base = some base →
    base.status.isTerminal = false → (j'.attempt me).written = [] → advanced = .abandoned
  lost : advanced = .abandoned → (j.attempt me).leased = false → (j'.attempt me).leased = true →
    j'.Lost me x

/-- An actor that stored nothing and is as free as before. -/
theorem Advances.of_free {advanced : Advanced} (lawful : Lawful e j') (later : j <:+ j')
    (free : (j'.attempt me).Free) (same : (j'.attempt me).leased = (j.attempt me).leased)
    (stays : advanced.goesOn = false)
    (finished : advanced = .terminal → ∃ row, j'.Finished x row)
    (gaveUp : advanced = .abandoned → j'.GaveUp me x) : Advances e me x j j' advanced := by
  refine ⟨lawful, later, free.held, ?_, finished, gaveUp, ?_, ?_⟩
  · intro goesOn
    rw [stays] at goesOn
    cases goesOn
  · intro base leased _ _ unwritten
    exact absurd unwritten (free.settled leased)
  · intro _ before leased
    rw [same, before] at leased
    cases leased

/-- What led up to a lease does not count, whoever gave an execution up while it held one. -/
theorem Advances.after {advanced : Advanced} (advances : Advances e me x j' j'' advanced)
    (before : j <:+ j') (lost : advanced = .abandoned → j''.Lost me x) :
    Advances e me x j j'' advanced := by
  refine { advances with
    later := before.trans advances.later
    moved := ?_
    lost := fun abandoned _ _ => lost abandoned }
  intro goesOn
  obtain ⟨written, grown⟩ := advances.moved goesOn
  exact ⟨written, Nat.lt_of_le_of_lt (history_suffix x before).length_le grown⟩

theorem Sees.free (sees : Sees e me x j j' seen) (free : (j.attempt me).Free) :
    (j'.attempt me).Free := by
  rw [sees.onward.attempt]
  cases seen with
  | none => exact free
  | some row => exact ⟨free.held, free.settled⟩

theorem Journal.Accounted.mono (accounted : j.Accounted x a) (lawful : Lawful e j')
    (fits : e.Fits) (later : j <:+ j') (inside : ∀ base, a.base = some base → base ∈ j.history x) :
    j'.Accounted x a := by
  intro called
  rcases accounted called with written | ⟨base, read, overtaken⟩ | unclassified
  · exact .inl written
  · exact .inr (.inl ⟨base, read, overtaken.mono lawful fits later (inside base read)⟩)
  · exact .inr (.inr unclassified)

theorem Concludes.release {lease : Lease} {advanced : Advanced}
    (concludes : Concludes e me x base j v.journal advanced) (fits : e.Fits)
    (driven : me.operation.driven? = some x) (held : (j.attempt me).held = some lease)
    {post : Except Failure Unit → View → Prop}
    (released : ∀ v' : View, Advances e me x j v'.journal advanced →
      (advanced = .abandoned → v'.journal.Lost me x) → post (.ok ()) v') :
    Ensures (contract e me) post (Action.ask (.release lease)) v := by
  have inside (first : Execution) (read : (v.journal.attempt me).base = some first) :
      first ∈ v.journal.history x :=
    concludes.lawful.base_mem (Operation.target?_of_driven? driven) read
  have holds : (v.journal.attempt me).held = some lease := concludes.held.trans held
  refine Ensures.release driven holds ?_ ?_
  · intro k idles
    exact concludes.accounted.mono idles.lawful fits idles.later inside
  · intro v' onward
    -- The lease is the only thing that changes, so each field is read off the verdict.
    have longer := (history_suffix x onward.later).length_le
    have lost (abandoned : advanced = .abandoned) : v'.journal.Lost me x := by
      have calls : (v'.journal.attempt me).calls = (v.journal.attempt me).calls := by
        rw [onward.attempt]
      have written : (v'.journal.attempt me).written = (v.journal.attempt me).written := by
        rw [onward.attempt]
      have read : (v'.journal.attempt me).base = some base := by
        rw [onward.attempt]
        exact concludes.read
      cases concludes.verdict with
      | moved _ _ goesOn => rw [abandoned] at goesOn; cases goesOn
      | overtaken unwritten overtaken =>
        have still := overtaken.mono onward.lawful fits onward.later (inside base concludes.read)
        exact ⟨written.trans unwritten, .inl ⟨base, read, still⟩⟩
      | meaningless unwritten c made unclassified =>
        exact ⟨written.trans unwritten, .inr ⟨c, calls ▸ made, unclassified⟩⟩
      | finished | rested => cases abandoned
    refine released v' ⟨onward.lawful, concludes.later.trans onward.later, ?_, ?_, ?_, ?_, ?_,
      fun abandoned _ _ => lost abandoned⟩ lost
    · rw [onward.attempt]
    · intro goesOn
      rw [onward.attempt]
      cases concludes.verdict with
      | moved written grown => exact ⟨written, by omega⟩
      | finished | overtaken | meaningless | rested => cases goesOn
    · intro terminal
      cases concludes.verdict with
      | moved _ _ goesOn => rw [terminal] at goesOn; cases goesOn
      | finished _ row finished => exact ⟨row, finished.mono onward.lawful fits onward.later⟩
      | rested _ _ finished => exact ⟨base, finished.mono onward.lawful fits onward.later⟩
      | overtaken | meaningless => cases terminal
    · intro abandoned
      cases concludes.verdict with
      | moved _ _ goesOn => rw [abandoned] at goesOn; cases goesOn
      | overtaken unwritten overtaken =>
        exact .overtaken v.journal base onward.later (by simp [holds]) concludes.read unwritten
          overtaken
      | meaningless _ c made unclassified =>
        exact .meaningless v.journal c onward.later made unclassified
      | finished | rested => cases abandoned
    · intro first leased read active unwritten
      rw [onward.attempt] at read unwritten
      cases concludes.verdict with
      | moved written => exact absurd unwritten written
      | finished written => exact absurd unwritten written
      | overtaken | meaningless => rfl
      | rested _ terminal =>
        have same : base = first := Option.some.inj (concludes.read.symm.trans read)
        rw [same, active] at terminal
        cases terminal

theorem Sees.leased (sees : Sees e me x j j' seen) :
    (j'.attempt me).leased = (j.attempt me).leased := by
  rw [sees.onward.attempt]
  cases seen <;> rfl

theorem advance_ensures (fits : e.Fits) (driven : me.operation.driven? = some x)
    (free : (v.journal.attempt me).Free)
    (once : me.operation = .advance x → (v.journal.attempt me).leased = false) :
    Ensures (contract e me)
      (fun r v' => (∃ advanced, r = .ok advanced ∧
          Advances e me x v.journal v'.journal advanced) ∨
        r = .error (.executionMissing x) ∧ Sees e me x v.journal v'.journal none)
      (e.advance x) v := by
  refine Ensures.bind ((getStatus_ensures (Operation.target?_of_driven? driven)).mono ?_)
  rintro r v₁ (⟨row, rfl, sees⟩ | ⟨rfl, sees⟩)
  · have lawful := sees.onward.lawful
    have free₁ := sees.free free
    have inside := sees.mem
    obtain ⟨d, owned⟩ := lawful.ownedBy x (List.ne_nil_of_mem inside)
    dsimp only
    split
    · rename_i terminal
      refine .inl ⟨.terminal, rfl, .of_free lawful sees.onward.later free₁ sees.leased rfl ?_ ?_⟩
      · intro _
        exact ⟨row, sees.finished fits terminal⟩
      · intro abandoned
        cases abandoned
    · rw [owned.known row inside]
      refine Ensures.bind (Ensures.ofExcept ?_)
      refine Ensures.bind (Ensures.acquire driven free₁.held free₁.settled
        (fun advances => sees.leased.trans (once advances)) ?_ ?_)
      · intro k' v₂ idles journal
        refine Ensures.bind (Ensures.log ?_)
        rintro v₃ idles₃ -
        have idle := idles.idle idles₃
        have free₃ : (v₃.journal.attempt me).Free := idle.attempt ▸ free₁
        have later := sees.onward.later.trans idle.later
        have leased := (congrArg Attempt.leased idle.attempt).trans sees.leased
        refine .inl ⟨.abandoned, rfl, .of_free idle.lawful later free₃ leased rfl ?_ ?_⟩
        · intro terminal
          cases terminal
        · intro _
          exact .refused k' (journal ▸ idles₃.later)
      · intro lease v₂ onward
        have inside₂ := (history_suffix x onward.later).subset inside
        have owned₂ := onward.lawful.ownedBy_of_known inside₂ (owned.known row inside)
        refine Ensures.ensuring ((advanceHeld_ensures fits driven owned₂
          (List.ne_nil_of_mem inside₂) onward.attempt).mono ?_)
        rintro r v₃ ⟨advanced, base, rfl, concludes⟩
        have held : (v₂.journal.attempt me).held = some lease := by rw [onward.attempt]
        apply concludes.release fits driven held
        intro v₄ advances lost
        exact .inl ⟨advanced, rfl, advances.after (sees.onward.later.trans onward.later) lost⟩
  · exact .inr ⟨rfl, sees⟩

end

end SagaEngine
