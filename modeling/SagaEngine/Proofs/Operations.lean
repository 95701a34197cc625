import SagaEngine.Proofs.Advance
/-!
# Whole operations

One statement for each operation of the engine, against everything that other actors
may do meanwhile. A drive repeats advances until the execution is finished or given up;
a resume drives unless the execution is finished; a cancel marks a row that is not
finished; a start inserts a row under a new name. Main statements: `drive_ensures`,
`resume_ensures`, `cancelWithin_ensures`, `start_ensures` and `program_ensures`.
-/

namespace SagaEngine

section

variable {e : Engine} {me : Actor} {x : String} {d : SagaDefinition} {base row : Execution}
  {t : Transition} {j j' j'' : Journal} {v v' : View} {a : Attempt} {seen : Option Execution}

/-! ## Driving -/

/-- A failure that no operation on a lawful journal ends in: a move that is not allowed, a step
that does not exist, or a context that cannot be read. -/
def Failure.isFault : Failure → Bool
  | .illegalTransition .. => true
  | .stepOutOfRange => true
  | .undecodable _ => true
  | _ => false

def Sane {α : Type} (r : Except Failure α) : Prop :=
  ∀ failure, r = .error failure → failure.isFault = false

theorem sane_ok {α : Type} (value : α) : Sane (.ok value : Except Failure α) :=
  fun _ impossible => nomatch impossible

theorem sane_error {α : Type} {failure : Failure} (ordinary : failure.isFault = false) :
    Sane (.error failure : Except Failure α) := by
  rintro _ ⟨⟩
  exact ordinary

/-- What a drive came to: the execution is finished or given up, it was moved as often as allowed,
or it does not exist. -/
inductive Drove (me : Actor) (x : String) (moves : Nat) (j j' : Journal) :
    Except Failure (Option Execution) → Prop
  | finished (row : Execution) (finished : j'.Finished x row) :
      Drove me x moves j j' (.ok (some row))
  | gaveUp (seen : Option Execution) (gaveUp : j'.GaveUp me x) : Drove me x moves j j' (.ok seen)
  | endless (moved : (j.history x).length + moves ≤ (j'.history x).length) :
      Drove me x moves j j' (.error (.endless x))
  | missing (nothing : j.history x = []) : Drove me x moves j j' (.error (.executionMissing x))

theorem Drove.sane {moves : Nat} {r : Except Failure (Option Execution)}
    (drove : Drove me x moves j j' r) : Sane r := by
  cases drove with
  | finished | gaveUp => exact sane_ok _
  | endless | missing => exact sane_error rfl

theorem Drove.extend {moves : Nat} {r : Except Failure (Option Execution)}
    (drove : Drove me x moves j' j'' r)
    (moved : (j.history x).length < (j'.history x).length) : Drove me x (moves + 1) j j'' r := by
  cases drove with
  | finished row finished => exact .finished row finished
  | gaveUp seen gaveUp => exact .gaveUp seen gaveUp
  | endless far => exact .endless (by omega)
  | missing nothing =>
    rw [nothing] at moved
    cases moved

theorem driveWithin_ensures (fits : e.Fits) (driven : me.operation.driven? = some x)
    (repeats : me.operation ≠ .advance x) (moves : Nat) (lawful : Lawful e v.journal)
    (free : (v.journal.attempt me).Free) :
    Ensures (contract e me)
      (fun r v' => Lawful e v'.journal ∧ v.journal <:+ v'.journal ∧
        ∃ seen, Drove me x moves v.journal v'.journal (r.map fun _ => seen))
      (e.driveWithin x moves) v := by
  -- Every advance that goes on has committed a row, which is what `endless` counts.
  induction moves generalizing v with
  | zero => exact ⟨lawful, List.suffix_refl _, none, .endless (Nat.le_refl _)⟩
  | succ moves ih =>
    have once (advances : me.operation = .advance x) : (v.journal.attempt me).leased = false :=
      absurd advances repeats
    refine Ensures.bind ((advance_ensures fits driven free once).mono ?_)
    rintro r v₁ (⟨advanced, rfl, advances⟩ | ⟨rfl, sees⟩)
    · have again (v₂ : View) (goesOn : advanced.goesOn = true)
          (idles : Idles e me v₁.journal v₂.journal) :
          Ensures (contract e me)
            (fun r v' => Lawful e v'.journal ∧ v.journal <:+ v'.journal ∧
              ∃ seen, Drove me x (moves + 1) v.journal v'.journal (r.map fun _ => seen))
            (e.driveWithin x moves) v₂ := by
        obtain ⟨written, grown⟩ := advances.moved goesOn
        have free₂ : (v₂.journal.attempt me).Free := by
          rw [idles.attempt]
          exact ⟨advances.held, fun _ => written⟩
        have later := advances.later.trans idles.later
        have longer := (history_suffix x idles.later).length_le
        apply (ih idles.lawful free₂).mono
        rintro r v₃ ⟨lawful₃, later₃, seen, drove⟩
        exact ⟨lawful₃, later.trans later₃, seen, drove.extend (by omega)⟩
      have stay : Idles e me v₁.journal v₁.journal := ⟨advances.lawful, List.suffix_refl _, rfl⟩
      dsimp only
      split
      · exact again v₁ rfl stay
      · refine Ensures.bind (Ensures.aside rfl ?_)
        rintro - v₂ idles -
        exact again v₂ rfl idles
      · rename_i notProgressed notRetry
        refine ⟨advances.lawful, advances.later, ?_⟩
        cases verdict : advanced with
        | progressed => exact absurd verdict notProgressed
        | retryAfter delay => exact absurd verdict (notRetry delay)
        | terminal =>
          obtain ⟨row, finished⟩ := advances.finished verdict
          exact ⟨some row, .finished row finished⟩
        | abandoned => exact ⟨none, .gaveUp none (advances.gaveUp verdict)⟩
    · exact ⟨sees.onward.lawful, sees.onward.later, none, .missing sees.nothing⟩

/-- A drive answers with the last row of the execution, unless it gave the execution up. -/
theorem drive_ensures (fits : e.Fits) (driven : me.operation.driven? = some x)
    (repeats : me.operation ≠ .advance x) (lawful : Lawful e v.journal) (free : (v.journal.attempt me).Free) :
    Ensures (contract e me)
      (fun r v' => Drove me x e.patience v.journal v'.journal (r.map some)) (e.drive x) v := by
  refine Ensures.bind ((driveWithin_ensures fits driven repeats e.patience lawful free).mono ?_)
  rintro (failure | value) v₁ ⟨-, later, seen, drove⟩
  · exact drove
  · have drove : Drove me x e.patience v.journal v₁.journal (.ok seen) := drove
    refine (getStatus_ensures (Operation.target?_of_driven? driven)).mono ?_
    rintro r v₂ (⟨row, rfl, sees⟩ | ⟨rfl, sees⟩)
    · obtain ⟨k, lower, upper, found⟩ := sees.between
      cases drove with
      | finished last finished =>
        have same : last = row := by
          have found' := (finished.mono (sees.onward.lawful.suffix upper) fits lower).record
          exact Option.some.inj (found'.symm.trans found)
        exact .finished row (same ▸ finished.mono sees.onward.lawful fits (lower.trans upper))
      | gaveUp _ gaveUp => exact .gaveUp _ (gaveUp.mono (lower.trans upper))
    · have nothing := history_suffix x later
      rw [sees.nothing, List.suffix_nil] at nothing
      exact .missing nothing

/-- What a resume came to: the execution is finished, given up or handed to somebody else, it was
moved as often as allowed, or it does not exist. -/
inductive Resumed (me : Actor) (x : String) (moves : Nat) (j j' : Journal) :
    Except Failure Unit → Prop
  | finished (row : Execution) (finished : j'.Finished x row) : Resumed me x moves j j' (.ok ())
  | gaveUp (gaveUp : j'.GaveUp me x) : Resumed me x moves j j' (.ok ())
  | handed (k : Journal) (earlier : ⟨me, .dispatch x, true, []⟩ :: k <:+ j') :
      Resumed me x moves j j' (.ok ())
  | endless (moved : (j.history x).length + moves ≤ (j'.history x).length) :
      Resumed me x moves j j' (.error (.endless x))
  | missing (nothing : j.history x = []) : Resumed me x moves j j' (.error (.executionMissing x))

theorem Resumed.sane {moves : Nat} {r : Except Failure Unit} (resumed : Resumed me x moves j j' r) :
    Sane r := by
  cases resumed with
  | finished | gaveUp | handed => exact sane_ok _
  | endless | missing => exact sane_error rfl

theorem Drove.resumed {moves : Nat} {r : Except Failure Execution}
    (drove : Drove me x moves j' j'' (r.map some)) (later : j <:+ j') :
    Resumed me x moves j j'' (r.map fun _ => ()) := by
  have longer := (history_suffix x later).length_le
  cases r with
  | ok row =>
    cases drove with
    | finished _ finished => exact .finished row finished
    | gaveUp _ gaveUp => exact .gaveUp gaveUp
  | error failure =>
    cases drove with
    | endless moved => exact .endless (by omega)
    | missing nothing =>
      have none := history_suffix x later
      rw [nothing, List.suffix_nil] at none
      exact .missing none

theorem resume_ensures (fits : e.Fits) (driven : me.operation.driven? = some x)
    (repeats : me.operation ≠ .advance x) (free : (v.journal.attempt me).Free) :
    Ensures (contract e me) (fun r v' => Resumed me x e.patience v.journal v'.journal r)
      (e.resume x) v := by
  refine Ensures.bind ((getStatus_ensures (Operation.target?_of_driven? driven)).mono ?_)
  rintro r v₁ (⟨row, rfl, sees⟩ | ⟨rfl, sees⟩)
  · have lawful := sees.onward.lawful
    have inside := sees.mem
    obtain ⟨d, owned⟩ := lawful.ownedBy x (List.ne_nil_of_mem inside)
    dsimp only
    split
    · rename_i terminal
      apply Ensures.log
      rintro v₂ idles -
      exact .finished row ((sees.finished fits terminal).mono idles.lawful fits idles.later)
    · rw [owned.known row inside]
      refine Ensures.bind (Ensures.ofExcept ?_)
      refine Ensures.bind (Ensures.log ?_)
      rintro v₂ idles₂ -
      refine Ensures.bind (Ensures.request ?_)
      rintro v₃ taken s' idles₃ - -
      have permitted : Permitted e v₃.journal ⟨me, .dispatch x, taken, []⟩ := .quiet me _ _ rfl
      refine ⟨permitted, ?_⟩
      have idles := idles₂.idle (idles₃.own permitted)
      dsimp only
      split
      · rename_i handed
        subst handed
        exact .handed _ (List.suffix_refl _)
      · refine Ensures.bind ((drive_ensures fits driven repeats idles.lawful
          (idles.attempt ▸ sees.free free)).mono ?_)
        have later := sees.onward.later.trans idles.later
        rintro (failure | value) v₄ drove
        · exact drove.resumed later
        · exact drove.resumed later
  · exact .missing sees.nothing

/-! ## Cancelling and starting -/

theorem mayMark (cancels : me.operation = .cancel x) (owned : j.OwnedBy e d x) (fits : d.Fits)
    (inside : row ∈ j.history x) (active : row.status = .started ∨ row.status = .inProgress)
    (unasked : row.cancelRequested = false) (now : Nat) :
    MayReplace e me x j row (row.marked now) := by
  intro tx k old idles found version
  have inside' := (history_suffix x idles.later).subset inside
  have owned' := idles.lawful.ownedBy_of_known inside' (owned.known row inside)
  have latest : old = row := owned'.record_eq_of_version fits inside' found version
  subst latest
  exact .cancelled me x tx old now cancels found active unasked

/-- What a try to record a cancel request came to: a row with a request was committed, or the
actor has committed nothing. -/
inductive Recorded (e : Engine) (me : Actor) (x : String) (j j' : Journal) :
    Except Failure Bool → Prop
  | marked (row : Execution) (inside : row ∈ j'.history x) (asked : row.cancelRequested = true) :
      Recorded e me x j j' (.ok true)
  | raced (idles : Idles e me j j') : Recorded e me x j j' (.ok false)
  | refused (failure : Failure) (ordinary : failure.isFault = false) (idles : Idles e me j j') :
      Recorded e me x j j' (.error failure)

theorem recordCancel_ensures (cancels : me.operation = .cancel x) (fits : e.Fits)
    (lawful : Lawful e v.journal) (inside : row ∈ v.journal.history x)
    (active : row.status = .started ∨ row.status = .inProgress)
    (unasked : row.cancelRequested = false) :
    Ensures (contract e me) (fun r v' => Recorded e me x v.journal v'.journal r)
      (Engine.recordCancel x row) v := by
  refine Ensures.bind (Ensures.aside rfl ?_)
  rintro now v₁ idles₁ -
  apply Ensures.transaction
  intro tx v₂ idles₂ unwritten
  refine Ensures.bind (Ensures.update unwritten ?_ ?_ ?_)
  · rintro v₃ idles₃ - v₄ idles₄
    exact .refused _ rfl (idles₁.idle (idles₂.idle (idles₃.idle idles₄)))
  · rintro v₃ old idles₃ - - v₄ idles₄
    exact .raced (idles₁.idle (idles₂.idle (idles₃.idle idles₄)))
  · intro v₃ idles₃ pending
    have idles : Idles e me v.journal v₃.journal := idles₁.idle (idles₂.idle idles₃)
    refine Ensures.bind (Ensures.ofExcept ?_)
    refine Ensures.bind (Ensures.commit pending ?_ ?_ ?_)
    · rintro v₄ failure idles₄ v₅ idles₅
      exact .refused _ rfl (idles.idle (idles₄.idle idles₅))
    · intro k idles₄ current
      obtain ⟨d, owned⟩ := lawful.ownedBy x (List.ne_nil_of_mem inside)
      have small := fits.of_definitionOf (owned.known row inside)
      have may := mayMark cancels owned small inside active unasked now
      obtain ⟨old, found, version⟩ := stale?_eq_none current
      exact may tx k old (idles.idle idles₄) (id_of_mem_history inside ▸ found) version
    · intro k v₄ idles₄ journal _
      have id : row.id = x := id_of_mem_history inside
      have committed : (row.marked now).replacing row ∈ v₄.journal.history x := by
        have installs := history_cons_one (x := x)
          ⟨me, .commit tx, .ok (), [(row.marked now).replacing row]⟩ k rfl
        rw [journal]
        exact (installs.trans (if_pos id)) ▸ List.mem_cons_self
      refine Ensures.bind (Ensures.log ?_)
      rintro v₅ idles₅ - v₆ idles₆
      have later := idles₅.later.trans idles₆.later
      exact .marked _ ((history_suffix x later).subset committed) rfl

/-- What a cancel came to: a row of the execution has a request on it, or the actor has committed
nothing. -/
inductive Cancelled (me : Actor) (x : String) (j : Journal) : Except Failure Unit → Prop
  | marked (row : Execution) (inside : row ∈ j.history x) (asked : row.cancelRequested = true) :
      Cancelled me x j (.ok ())
  | refused (failure : Failure) (ordinary : failure.isFault = false)
      (unwritten : (j.attempt me).written = []) : Cancelled me x j (.error failure)

theorem Sees.written (sees : Sees e me x j j' seen) :
    (j'.attempt me).written = (j.attempt me).written := by
  rw [sees.onward.attempt]
  cases seen <;> rfl

theorem cancelWithin_ensures (cancels : me.operation = .cancel x) (fits : e.Fits) (tries : Nat)
    (unwritten : (v.journal.attempt me).written = []) :
    Ensures (contract e me) (fun r v' => Cancelled me x v'.journal r)
      (Engine.cancelWithin x tries) v := by
  have target : me.operation.target? = some x := by rw [cancels]; rfl
  induction tries generalizing v with
  | zero => exact .refused _ rfl unwritten
  | succ tries ih =>
    refine Ensures.bind ((getStatus_ensures target).mono ?_)
    rintro r v₁ (⟨row, rfl, sees⟩ | ⟨rfl, sees⟩)
    · have unwritten₁ := sees.written.trans unwritten
      dsimp only
      split
      · exact .refused _ rfl unwritten₁
      · rename_i active
        split
        · rename_i asked
          exact .marked row sees.mem asked
        · rename_i unasked
          have unasked : row.cancelRequested = false := by simpa using unasked
          have active : row.status = .started ∨ row.status = .inProgress := by
            by_cases started : row.status = .started
            · exact .inl started
            · by_cases running : row.status = .inProgress
              · exact .inr running
              · exact absurd ⟨started, running⟩ active
          have inside := sees.mem
          refine Ensures.bind ((recordCancel_ensures cancels fits sees.onward.lawful inside active
            unasked).mono ?_)
          rintro r v₂ recorded
          cases recorded with
          | marked row inside asked => exact .marked row inside asked
          | raced idles => exact ih ((congrArg Attempt.written idles.attempt).trans unwritten₁)
          | refused failure ordinary idles =>
            exact .refused failure ordinary
              ((congrArg Attempt.written idles.attempt).trans unwritten₁)
    · exact .refused _ rfl (sees.written.trans unwritten)

theorem Cancelled.sane {r : Except Failure Unit} (cancelled : Cancelled me x j r) : Sane r := by
  cases cancelled with
  | marked => exact sane_ok _
  | refused failure ordinary => exact sane_error ordinary

theorem start_ensures {sagaType : String} {context : Context}
    (starts : me.operation = .start sagaType context) :
    Ensures (contract e me) (fun r _ => Sane r) (e.start sagaType context) v := by
  rw [Engine.start]
  cases known : e.definition sagaType with
  | error failure =>
    have unknown : failure = .unregistered sagaType := by
      rw [Engine.definition] at known
      split at known <;> cases known
      rfl
    subst unknown
    exact sane_error rfl
  | ok d =>
    refine Ensures.bind (Ensures.ofExcept ?_)
    refine Ensures.bind (Ensures.aside rfl ?_)
    rintro id v₁ idles₁ -
    refine Ensures.bind (Ensures.aside rfl ?_)
    rintro now v₂ idles₂ -
    refine Ensures.bind (Ensures.transaction ?_)
    intro tx v₃ idles₃ unwritten
    refine Ensures.bind (Ensures.insert unwritten ?_ ?_)
    · rintro v₄ - v₅ -
      exact sane_error rfl
    · intro v₄ idles₄ pending
      refine Ensures.bind (Ensures.ofExcept ?_)
      refine Ensures.commit pending ?_ ?_ ?_
      · rintro v₅ failure - v₆ -
        exact sane_error rfl
      · intro k idles₅ current
        have free : k.record id = none := by
          cases found : k.record id with
          | none => rfl
          | some old =>
            simp_all [Journal.stale?, MemoryStore.staleWrite?, Journal.record, Engine.newRow]
        exact .created me tx sagaType context id d now starts known free
      · rintro k v₅ - - - v₆ -
        refine Ensures.bind (Ensures.log ?_)
        rintro v₇ - -
        refine Ensures.bind (Ensures.aside rfl ?_)
        rintro taken v₈ - -
        exact sane_ok _

/-! ## Every operation -/

inductive Operation.Result where
  | started (executionId : String)
  | advanced (advanced : Advanced)
  | driven (row : Execution)
  | resumed
  | cancelled
  deriving DecidableEq

def Operation.program (e : Engine) : Operation → Action Operation.Result
  | start sagaType context => do return .started (← e.start sagaType context)
  | advance x => do return .advanced (← e.advance x)
  | drive x => do return .driven (← e.drive x)
  | resume x => do
    e.resume x
    return .resumed
  | cancel x => do
    Engine.cancel x
    return .cancelled

/-- How an operation may end: not in a fault, and an advance that stored nothing of what it
was to store has abandoned the execution. -/
structure Finishes (me : Actor) (r : Except Failure Operation.Result) (a : Attempt) : Prop where
  sane : Sane r
  verdict : ∀ x base, me.operation = .advance x → a.leased = true → a.base = some base →
    base.status.isTerminal = false → a.written = [] → r = .ok (.advanced .abandoned)

theorem Finishes.of_sane {r : Except Failure Operation.Result} (sane : Sane r)
    (other : ∀ x, me.operation ≠ .advance x) : Finishes me r a :=
  ⟨sane, fun x _ advances => absurd advances (other x)⟩

theorem Ensures.program {α : Type} {p : Action α} {result : α → Operation.Result}
    (sane : Ensures (contract e me) (fun r _ => Sane r) p v)
    (other : ∀ x, me.operation ≠ .advance x) :
    Ensures (contract e me) (fun r v' => Finishes me r (v'.journal.attempt me))
      (p >>= fun value => return result value) v := by
  refine Ensures.bind (sane.mono ?_)
  rintro (failure | value) v' sane
  · exact .of_sane (sane_error (sane failure rfl)) other
  · exact .of_sane (sane_ok _) other

/-- Every operation keeps to the contract and ends as it may. -/
theorem program_ensures (fits : e.Fits) (lawful : Lawful e v.journal)
    (fresh : v.journal.attempt me = {}) :
    Ensures (contract e me) (fun r v' => Finishes me r (v'.journal.attempt me))
      (me.operation.program e) v := by
  have free : (v.journal.attempt me).Free := by
    rw [fresh]
    exact ⟨rfl, fun leased => nomatch leased⟩
  cases operation : me.operation with
  | start sagaType context => exact (start_ensures operation).program (by simp [operation])
  | advance x =>
    have driven : me.operation.driven? = some x := by rw [operation]; rfl
    have once (_ : me.operation = .advance x) : (v.journal.attempt me).leased = false := by
      rw [fresh]
    refine Ensures.bind ((advance_ensures fits driven free once).mono ?_)
    rintro r v' (⟨advanced, rfl, advances⟩ | ⟨rfl, sees⟩)
    · refine ⟨sane_ok _, ?_⟩
      intro y base _ leased read active unwritten
      rw [advances.verdict base leased read active unwritten]
    · refine ⟨sane_error rfl, ?_⟩
      intro y base _ leased _ _ unwritten
      exact absurd unwritten ((sees.free free).settled leased)
  | drive x =>
    have driven : me.operation.driven? = some x := by rw [operation]; rfl
    have sane : Ensures (contract e me) (fun r _ => Sane r) (e.drive x) v := by
      apply (drive_ensures fits driven (by simp [operation]) lawful free).mono
      rintro (failure | value) v' drove
      · exact sane_error (drove.sane failure rfl)
      · exact sane_ok _
    exact sane.program (by simp [operation])
  | resume x =>
    have driven : me.operation.driven? = some x := by rw [operation]; rfl
    have resumes := resume_ensures fits driven (by simp [operation]) free
    exact (resumes.mono fun r v' => Resumed.sane).program (by simp [operation])
  | cancel x =>
    have unwritten : (v.journal.attempt me).written = [] := by rw [fresh]
    have cancels := cancelWithin_ensures operation fits Engine.writeAttempts unwritten
    exact (cancels.mono fun r v' => Cancelled.sane).program (by simp [operation])

end

end SagaEngine
