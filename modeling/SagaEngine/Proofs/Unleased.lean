import SagaEngine.Proofs.Cluster
import SagaEngine.Proofs.SingleFlight
/-!
# Nobody keeps a lease

Whatever others do meanwhile and however an operation or the work of a worker ends, its actor holds
no lease any more. Between two advances it is free to ask for the next one. Main statements:
`advance_frees`, `program_unleased` and `shift_ensures`.
-/

namespace SagaEngine

/-- At its end the program leaves its actor without a lease. -/
abbrev Yields {α : Type} (e : Engine) (me : Actor) (p : Action α) (v : View) : Prop :=
  Ensures (contract e me) (fun _ v' => (v'.journal.attempt me).held = none) p v

/-- An actor that moves an execution forward holds no lease. -/
def Unleased (me : Actor) (v : View) : Prop :=
  me.operation.driven? ≠ none → (v.journal.attempt me).held = none

/-- What a worker does, as a task. -/
def Worker.shift (p : Action Unit) : Action Operation.Result := do
  p
  return .resumed

section

variable {e : Engine} {me : Actor} {x : String} {v : View} {j j' : Journal}
  {seen : Option Execution}

theorem Sees.held (sees : Sees e me x j j' seen) : (j'.attempt me).held = (j.attempt me).held := by
  rw [sees.onward.attempt]
  cases seen <;> rfl

theorem Idles.held (idles : Idles e me j j') (held : (j.attempt me).held = none) :
    (j'.attempt me).held = none := (congrArg Attempt.held idles.attempt).trans held

/-- After an advance that goes on, the next lease may be asked for. -/
theorem advance_frees (fits : e.Fits) (driven : me.operation.driven? = some x)
    (repeats : me.operation ≠ .advance x) (free : (v.journal.attempt me).Free) :
    Ensures (contract e me)
      (fun r v' => (v'.journal.attempt me).held = none ∧
        ∀ advanced, r = .ok advanced → advanced.goesOn = true → (v'.journal.attempt me).Free)
      (e.advance x) v := by
  have once (advances : me.operation = .advance x) : (v.journal.attempt me).leased = false :=
    absurd advances repeats
  refine (advance_ensures fits driven free once).mono ?_
  rintro r v₁ (⟨advanced, rfl, advances⟩ | ⟨rfl, sees⟩)
  · refine ⟨advances.held, fun _ same goesOn => ?_⟩
    cases same
    exact ⟨advances.held, fun _ => (advances.moved goesOn).1⟩
  · exact ⟨(sees.free free).held, nofun⟩

/-! ## Operations -/

theorem getStatus_yields (driven : me.operation.driven? = some x)
    (held : (v.journal.attempt me).held = none) : Yields e me (Engine.getStatus x) v := by
  refine (getStatus_ensures (Operation.target?_of_driven? driven)).mono ?_
  rintro r v' (⟨row, rfl, sees⟩ | ⟨rfl, sees⟩) <;> exact sees.held.trans held

theorem driveWithin_yields (fits : e.Fits) (driven : me.operation.driven? = some x)
    (repeats : me.operation ≠ .advance x) (moves : Nat) (free : (v.journal.attempt me).Free) :
    Yields e me (e.driveWithin x moves) v := by
  induction moves generalizing v with
  | zero => exact free.held
  | succ moves ih =>
    refine Ensures.bind ((advance_frees fits driven repeats free).mono ?_)
    rintro (failure | advanced) v₁ ⟨held, frees⟩
    · exact held
    · cases advanced with
      | progressed => exact ih (frees _ rfl rfl)
      | retryAfter delay =>
        refine Ensures.bind (Ensures.aside rfl ?_)
        rintro - v₂ idles -
        exact ih (idles.attempt ▸ frees _ rfl rfl)
      | terminal | abandoned => exact held

theorem drive_yields (fits : e.Fits) (driven : me.operation.driven? = some x)
    (repeats : me.operation ≠ .advance x) (free : (v.journal.attempt me).Free) :
    Yields e me (e.drive x) v := by
  refine Ensures.bind ((driveWithin_yields fits driven repeats e.patience free).mono ?_)
  rintro (failure | value) v₁ held
  · exact held
  · exact getStatus_yields driven held

theorem resume_yields (fits : e.Fits) (driven : me.operation.driven? = some x)
    (repeats : me.operation ≠ .advance x) (free : (v.journal.attempt me).Free) :
    Yields e me (e.resume x) v := by
  refine Ensures.bind ((getStatus_ensures (Operation.target?_of_driven? driven)).mono ?_)
  rintro r v₁ (⟨row, rfl, sees⟩ | ⟨rfl, sees⟩)
  · have free₁ := sees.free free
    dsimp only
    split
    · exact Ensures.log fun v₂ idles _ => idles.held free₁.held
    · refine Ensures.bind (Ensures.ofExcept ?_)
      cases e.definitionOf row with
      | error failure => exact free₁.held
      | ok d =>
        refine Ensures.bind (Ensures.log ?_)
        intro v₂ idles₂ _
        refine Ensures.bind (Ensures.aside rfl ?_)
        intro taken v₃ idles₃ _
        have free₃ : (v₃.journal.attempt me).Free := (idles₂.idle idles₃).attempt ▸ free₁
        dsimp only
        split
        · exact free₃.held
        · refine Ensures.bind ((drive_yields fits driven repeats free₃).mono ?_)
          rintro (failure | value) v₄ held <;> exact held
  · exact sees.held.trans free.held

theorem program_yields (fits : e.Fits) (driven : me.operation.driven? = some x)
    (fresh : v.journal.attempt me = {}) : Yields e me (me.operation.program e) v := by
  have free : (v.journal.attempt me).Free := by
    rw [fresh]
    exact ⟨rfl, nofun⟩
  have last {α : Type} {p : Action α} (result : α → Operation.Result) (yields : Yields e me p v) :
      Yields e me (p >>= fun value => return result value) v := by
    refine Ensures.bind (yields.mono ?_)
    rintro (failure | value) v₁ held <;> exact held
  cases operation : me.operation with
  | start | cancel =>
    rw [operation] at driven
    cases driven
  | advance y =>
    obtain rfl : y = x := Option.some.inj (by rw [← driven, operation]; rfl)
    refine last _ ((advance_ensures fits driven free fun _ => by rw [fresh]).mono ?_)
    rintro r v₁ (⟨advanced, rfl, advances⟩ | ⟨rfl, sees⟩)
    · exact advances.held
    · exact sees.held.trans free.held
  | drive y =>
    obtain rfl : y = x := Option.some.inj (by rw [← driven, operation]; rfl)
    exact last _ (drive_yields fits driven (by simp [operation]) free)
  | resume y =>
    obtain rfl : y = x := Option.some.inj (by rw [← driven, operation]; rfl)
    exact last _ (resume_yields fits driven (by simp [operation]) free)

theorem program_unleased (fits : e.Fits) (lawful : Lawful e v.journal)
    (fresh : v.journal.attempt me = {}) :
    Ensures (contract e me) (fun _ => Unleased me) (me.operation.program e) v := by
  cases driven : me.operation.driven? with
  | none => exact (program_ensures fits lawful fresh).mono fun _ _ _ drives => absurd driven drives
  | some x => exact (program_yields fits driven fresh).mono fun _ _ held _ => held

theorem unleased_stable (v v' : View) (drift : (contract e me).drifts v v')
    (unleased : Unleased me v) : Unleased me v' :=
  fun drives => (idles_of_drift drift).held (unleased drives)

/-! ## Workers -/

theorem Ensures.handOff {q : Request} {post : Except Failure (Response q) → View → Prop}
    (off : q.isHandOff = true)
    (answered : ∀ answer v', Idles e me v.journal v'.journal → post (.ok answer) v') :
    Ensures (contract e me) post (Action.ask q) v := by
  apply Ensures.request
  intro v₁ answer s' idles opened serves
  have nothing : installs v₁.store q answer = [] := by
    cases q <;> first | rfl | cases off
  have quiet : q.isQuiet = true := by
    cases q <;> first | rfl | cases off
  have permitted : Permitted e v₁.journal ⟨me, q, answer, []⟩ := .quiet me q answer quiet
  have own := idles.own permitted
  rw [after_quiet _ answer quiet] at own
  rw [nothing]
  exact ⟨permitted, answered _ _ own⟩

theorem advanceWithin_yields (fits : e.Fits) (driven : me.operation.driven? = some x)
    (repeats : me.operation ≠ .advance x) (moves : Nat) (free : (v.journal.attempt me).Free) :
    Yields e me (Worker.advanceWithin e x moves) v := by
  induction moves generalizing v with
  | zero => exact free.held
  | succ moves ih =>
    refine Ensures.bind ((advance_frees fits driven repeats free).mono ?_)
    rintro (failure | advanced) v₁ ⟨held, frees⟩
    · exact held
    · cases advanced with
      | progressed => exact ih (frees _ rfl rfl)
      | retryAfter delay =>
        exact Ensures.bind (Ensures.handOff rfl fun _ v₂ idles => idles.held held)
      | terminal | abandoned => exact held

/-- A worker does not fail, and holds no lease at its end. -/
theorem process_ensures (fits : e.Fits) (driven : me.operation.driven? = some x)
    (repeats : me.operation ≠ .advance x) (free : (v.journal.attempt me).Free) :
    Ensures (contract e me) (fun r v' => r = .ok () ∧ (v'.journal.attempt me).held = none)
      (Worker.process e x) v := by
  have finishes (v₁ : View) (held : (v₁.journal.attempt me).held = none) :
      Ensures (contract e me) (fun r v' => r = .ok () ∧ (v'.journal.attempt me).held = none)
        (Action.ask (.finished x)) v₁ :=
    Ensures.handOff rfl fun _ v₂ idles => ⟨rfl, idles.held held⟩
  refine Ensures.bind (Ensures.attempt
    ((advanceWithin_yields fits driven repeats e.patience free).mono ?_))
  intro r v₁ held
  rcases r with failure | handed
  · refine Ensures.bind (Ensures.log fun v₂ idles _ => ?_)
    exact finishes v₂ (idles.held held)
  · cases handed with
    | true => exact ⟨rfl, held⟩
    | false => exact finishes v₁ held

theorem shift_ensures (fits : e.Fits) (drives : me.operation = .drive x)
    (free : (v.journal.attempt me).Free) :
    Ensures (contract e me)
      (fun r v' => Finishes me r (v'.journal.attempt me) ∧ (v'.journal.attempt me).held = none)
      (Worker.shift (Worker.process e x)) v := by
  have driven : me.operation.driven? = some x := by rw [drives]; rfl
  refine Ensures.bind ((process_ensures fits driven (by simp [drives]) free).mono ?_)
  rintro r v' ⟨rfl, held⟩
  exact ⟨.of_sane (sane_ok _) (by simp [drives]), held⟩

end

end SagaEngine
