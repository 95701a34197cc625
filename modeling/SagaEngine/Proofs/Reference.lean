import SagaEngine.Proofs.Lineage
/-!
# The reference run of a saga

The steps are called one after another, each in a block of attempts. If a block does
not succeed, the steps are undone from there downwards, each in a block of attempts.
The rows of an owner that saw no cancel request follow such a run. Main statements:
`Move.trails` and `Lineage.trails`.
-/

namespace SagaEngine

/-- The calls of one block: attempts that may be repeated, and the last one. -/
def block (phase : Phase) (index : Nat) (failed : Nat) (last : Outcome) : List CallMark :=
  List.replicate failed ⟨phase, index, .retryable⟩ ++ [⟨phase, index, last⟩]

/-- A block does not succeed: its last call was rejected, or the budget is spent. -/
def EndsBadly (budget failed : Nat) (last : Outcome) : Prop :=
  last = .terminal ∧ failed < budget ∨ last = .retryable ∧ failed + 1 = budget

/-- The calls of the first steps, all of which succeed. -/
inductive Forward (budget : Nat) : Nat → List CallMark → Prop
  | none : Forward budget 0 []
  | step {index failed : Nat} {calls : List CallMark} (before : Forward budget index calls)
      (left : failed < budget) :
      Forward budget (index + 1) (calls ++ block .execute index failed .ok)

/-- The undos of the steps from the top down to an index, all of which succeed. -/
inductive Backward (budget top : Nat) : Nat → List CallMark → Prop
  | none : Backward budget top (top + 1) []
  | step {index failed : Nat} {calls : List CallMark}
      (before : Backward budget top (index + 1) calls) (left : failed < budget) :
      Backward budget top index (calls ++ block .compensate index failed .ok)

/-- The calls up to a step that does not succeed, and the undos from there down to an index. -/
inductive Turned (steps budget index : Nat) : List CallMark → Prop
  | intro {top failed : Nat} {last : Outcome} {calls undos : List CallMark} (inRange : top < steps)
      (forward : Forward budget top calls) (bad : EndsBadly budget failed last)
      (backward : Backward budget top index undos) :
      Turned steps budget index (calls ++ block .execute top failed last ++ undos)

/-- How a run ends. A run that fails does so at a step, after some attempts to undo it. -/
inductive ReferenceEnd where
  | completed
  | compensated
  | failed (index attempts : Nat)
  deriving DecidableEq, Repr

def ReferenceEnd.position (steps : Nat) : ReferenceEnd → Position
  | completed => ⟨.completed, steps, 0⟩
  | compensated => ⟨.compensated, -1, 0⟩
  | failed index attempts => ⟨.failed, index, attempts⟩

/-- The calls of a whole run and how it ends. -/
inductive ReferenceRun (steps budget : Nat) : List CallMark → ReferenceEnd → Prop
  | completed {calls : List CallMark} (forward : Forward budget steps calls) :
      ReferenceRun steps budget calls .completed
  | compensated {calls : List CallMark} (turned : Turned steps budget 0 calls) :
      ReferenceRun steps budget calls .compensated
  | failed {index failed : Nat} {last : Outcome} {calls : List CallMark}
      (turned : Turned steps budget (index + 1) calls) (bad : EndsBadly budget failed last) :
      ReferenceRun steps budget (calls ++ block .compensate index failed last)
        (.failed index (failed + 1))

/-- The calls so far are those of a run that has come to a position. -/
def Position.Trails (steps budget : Nat) (p : Position) (marks : List CallMark) : Prop :=
  match p.status with
  | .started => marks = []
  | .inProgress => ∃ (index : Nat) (calls : List CallMark), p.index = index ∧
      Forward budget index calls ∧
      marks = calls ++ List.replicate p.retries ⟨.execute, index, .retryable⟩
  | .compensating => ∃ (index : Nat) (calls : List CallMark), p.index = index ∧
      Turned steps budget (index + 1) calls ∧
      marks = calls ++ List.replicate p.retries ⟨.compensate, index, .retryable⟩
  | _ => ∃ ending : ReferenceEnd, ReferenceRun steps budget marks ending ∧ p = ending.position steps

section

variable {steps budget : Nat} {p q : Position} {marks made : List CallMark} {calls : List CallMark}

theorem concat_replicate (calls : List CallMark) (retries : Nat) (phase : Phase) (index : Nat)
    (last : Outcome) :
    calls ++ List.replicate retries ⟨phase, index, .retryable⟩ ++ [⟨phase, index, last⟩] =
      calls ++ block phase index retries last := List.append_assoc ..

theorem Turned.step {index failed : Nat} (turned : Turned steps budget (index + 1) calls)
    (left : failed < budget) :
    Turned steps budget index (calls ++ block .compensate index failed .ok) := by
  cases turned with
  | intro inRange forward bad backward =>
    rw [List.append_assoc]
    exact .intro inRange forward bad (backward.step left)

/-- Every move that no cancel request brought about continues the run. -/
theorem Move.trails (move : Move steps budget false p made q) (place : p.InPlace steps budget)
    (classified : ∀ m ∈ made, ∀ code, m.outcome ≠ .unclassified code)
    (trails : p.Trails steps budget marks) : q.Trails steps budget (marks ++ made) := by
  cases move with
  | begun index retries =>
    obtain ⟨rfl, rfl⟩ : index = 0 ∧ retries = 0 := place
    have none : marks = [] := trails
    subst none
    exact ⟨0, [], rfl, .none, rfl⟩
  | cancelled index retries seen => cases seen
  | stepped index retries more =>
    obtain ⟨k, calls, rfl, forward, rfl⟩ := trails
    have left : retries < budget := place.2.2
    refine ⟨k + 1, _, rfl, forward.step left, ?_⟩
    rw [← concat_replicate]
    simp
  | completed index retries last =>
    obtain ⟨k, calls, rfl, forward, rfl⟩ := trails
    have left : retries < budget := place.2.2
    have all : k + 1 = steps := by omega
    refine ⟨.completed, ?_, ?_⟩
    · rw [concat_replicate]
      exact .completed (all ▸ forward.step left)
    · rw [← all]
      rfl
  | repeated phase index retries left =>
    cases phase with
    | execute =>
      obtain ⟨k, calls, rfl, forward, rfl⟩ := trails
      exact ⟨k, calls, rfl, forward, by rw [List.replicate_succ', List.append_assoc]⟩
    | compensate =>
      obtain ⟨k, calls, rfl, turned, rfl⟩ := trails
      exact ⟨k, calls, rfl, turned, by rw [List.replicate_succ', List.append_assoc]⟩
  | turned index retries outcome final =>
    obtain ⟨k, calls, rfl, forward, rfl⟩ := trails
    have left : retries < budget := place.2.2
    have inRange : (k : Int) < steps := place.2.1
    have bad : EndsBadly budget retries outcome := by
      rcases final with terminal | ⟨retryable, spent⟩
      · exact .inl ⟨terminal, left⟩
      · exact .inr ⟨retryable, by omega⟩
    refine ⟨k, _, rfl, .intro (by omega) forward bad .none, ?_⟩
    rw [concat_replicate]
    simp
  | undone index retries more =>
    obtain ⟨k, calls, rfl, turned, rfl⟩ := trails
    have left : retries < budget := place.2.2
    obtain ⟨below, rfl⟩ : ∃ below, k = below + 1 := ⟨k - 1, by omega⟩
    refine ⟨below, _, by show ((below + 1 : Nat) : Int) - 1 = below; omega, turned.step left, ?_⟩
    rw [concat_replicate]
    simp
  | compensated index retries last =>
    obtain ⟨k, calls, rfl, turned, rfl⟩ := trails
    have left : retries < budget := place.2.2
    obtain rfl : k = 0 := by omega
    refine ⟨.compensated, ?_, rfl⟩
    rw [concat_replicate]
    exact .compensated (turned.step left)
  | nothingLeft index retries below =>
    obtain ⟨k, calls, rfl, -, -⟩ := trails
    omega
  | gaveUp index retries outcome failed final atStep =>
    obtain ⟨k, calls, rfl, turned, rfl⟩ := trails
    have left : retries < budget := place.2.2
    have bad : EndsBadly budget retries outcome := by
      cases outcome with
      | ok => exact absurd rfl failed
      | terminal => exact .inl ⟨rfl, left⟩
      | retryable => exact .inr ⟨rfl, by have := final rfl; omega⟩
      | unclassified code => exact absurd rfl (classified _ List.mem_cons_self code)
    refine ⟨.failed k (retries + 1), ?_, rfl⟩
    rw [concat_replicate]
    exact .failed turned bad

/-- The stored calls of an owner that saw no cancel request are those of a run that has come to
where the latest row stands. -/
theorem Lineage.trails {d : SagaDefinition} {rows : List Execution} {calls : List CallMade}
    (lineage : Lineage d rows calls) (fits : d.Fits)
    (unasked : ∀ row ∈ rows, row.cancelRequested = false)
    (classified : ∀ c ∈ calls, ∀ code, c.mark.outcome ≠ .unclassified code) :
    ∀ row ∈ rows.head?,
      row.position.Trails d.stepCount d.retry.maxAttempts (calls.map CallMade.mark) := by
  induction lineage with
  | created id sagaType context now =>
    rintro row ⟨⟩
    rfl
  | cancelled now before active open_ ih =>
    have asked := unasked _ List.mem_cons_self
    cases asked
  | @decided old base changed earlier calls made t now before read same decides next ih =>
    rintro row ⟨⟩
    have formed := before.wellFormed fits
    have stores := decides.stores_of_next fits (formed _ List.mem_cons_self) (formed _ read)
      same next
    have move := stores.move
    rw [unasked base (List.mem_cons_of_mem _ read)] at move
    have trails := ih (fun row inside => unasked row (List.mem_cons_of_mem _ inside))
      (fun c inside => classified c (List.mem_append_left _ inside)) old rfl
    rw [List.map_append]
    refine move.trails (formed _ List.mem_cons_self).place ?_ trails
    intro m inside code
    obtain ⟨c, member, rfl⟩ := List.mem_map.1 inside
    exact classified c (List.mem_append_right _ member) code

/-- The calls of a finished execution are those of a whole run. -/
theorem Position.Trails.run (trails : p.Trails steps budget marks)
    (terminal : p.status.isTerminal = true) :
    ∃ ending : ReferenceEnd,
      ReferenceRun steps budget marks ending ∧ p = ending.position steps := by
  obtain ⟨status, index, retries⟩ := p
  cases status with
  | started | inProgress | compensating => cases terminal
  | completed | compensated | failed => exact trails

end

end SagaEngine
