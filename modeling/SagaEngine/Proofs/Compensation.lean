import SagaEngine.Proofs.Exclusion
/-!
# Which steps are undone

In a compensated execution every step that was called is undone after its last call,
unless a cancel request was seen between two attempts of a step: such a step is passed
over. Main statements: `Move.coverage` and `compensated_undoes_iff`.
-/

namespace SagaEngine

/-- The step at an index was called forward. -/
def ExecutedIn (marks : List CallMark) (i : Int) : Prop :=
  ∃ m ∈ marks, m.phase = .execute ∧ m.index = i

/-- The undo of the step at an index succeeded, and the step was not called forward later. -/
def UndoneIn (marks : List CallMark) (i : Int) : Prop :=
  ∃ before after, marks = before ++ ⟨.compensate, i, .ok⟩ :: after ∧ ¬ExecutedIn after i

/-- A cancel request is seen after an attempt that failed: the execution turns back to the step
before. -/
structure Position.PassesOver (p q : Position) : Prop where
  running : p.status = .inProgress
  turned : q.status = .compensating
  index : q.index = p.index - 1
  attempted : 0 < p.retries

/-- A cancel request was seen between two attempts of a step. -/
def CancelledInRetry (rows : List Execution) : Prop :=
  ∃ newer new old older, rows = newer ++ new :: old :: older ∧
    old.position.PassesOver new.position

/-- What the calls so far have to do with where an execution stands; `amiss` says that a step was
passed over. -/
def Position.Covers (p : Position) (marks : List CallMark) (amiss : Prop) : Prop :=
  match p.status with
  | .started => ¬amiss ∧ marks = []
  | .inProgress => ¬amiss ∧
      (∀ m ∈ marks, m.phase = .execute ∧ 0 ≤ m.index ∧ m.index ≤ p.index) ∧
      (ExecutedIn marks p.index ↔ 0 < p.retries)
  | .completed => True
  | .failed => True
  | _ => (∀ i, ExecutedIn marks i → 0 ≤ i) ∧
      (amiss → ∃ i, p.index < i ∧ ExecutedIn marks i ∧ ¬UndoneIn marks i) ∧
      (¬amiss → ∀ i, p.index < i → ExecutedIn marks i → UndoneIn marks i)

section

variable {marks : List CallMark} {m : CallMark} {i : Int} {amiss : Prop} {steps budget : Nat}
  {cancelSeen : Bool} {p q : Position} {made : List CallMark}

/-! ## One more call -/

theorem executed_concat : ExecutedIn (marks ++ [m]) i ↔
    ExecutedIn marks i ∨ m.phase = .execute ∧ m.index = i := by
  simp only [ExecutedIn, List.mem_append, List.mem_singleton]
  constructor
  · rintro ⟨m', old | rfl, is⟩
    · exact .inl ⟨m', old, is⟩
    · exact .inr is
  · rintro (⟨m', old, is⟩ | is)
    · exact ⟨m', .inl old, is⟩
    · exact ⟨m, .inr rfl, is⟩

/-- A call that is the last one of its step, with one more call behind it. -/
theorem last_concat {final : CallMark} :
    (∃ before after, marks ++ [m] = before ++ final :: after ∧ ¬ExecutedIn after i) ↔
      m = final ∨ (∃ before after, marks = before ++ final :: after ∧ ¬ExecutedIn after i) ∧
        ¬(m.phase = .execute ∧ m.index = i) := by
  constructor
  · rintro ⟨before, after, split, clean⟩
    rcases List.eq_nil_or_concat after with rfl | ⟨after, last, rfl⟩
    · have ends := List.append_inj_right' split rfl
      exact .inl (List.cons.inj ends).1
    · rw [List.concat_eq_append, ← List.cons_append, ← List.append_assoc] at split
      have ends : m = last := by simpa using List.append_inj_right' split rfl
      have front := List.append_inj_left' split rfl
      rw [List.concat_eq_append, executed_concat, not_or] at clean
      exact .inr ⟨⟨before, after, front, clean.1⟩, ends ▸ clean.2⟩
  · rintro (rfl | ⟨⟨before, after, split, clean⟩, other⟩)
    · exact ⟨marks, [], rfl, by simp [ExecutedIn]⟩
    · refine ⟨before, after ++ [m], by simp [split], ?_⟩
      rw [executed_concat, not_or]
      exact ⟨clean, other⟩

theorem undone_concat : UndoneIn (marks ++ [m]) i ↔
    m = ⟨.compensate, i, .ok⟩ ∨ UndoneIn marks i ∧ ¬(m.phase = .execute ∧ m.index = i) :=
  last_concat

theorem executed_concat_undo {outcome : Outcome} {index : Int} :
    ExecutedIn (marks ++ [⟨.compensate, index, outcome⟩]) i ↔ ExecutedIn marks i := by
  simp [executed_concat]

theorem not_undone_of_forward (forward : ∀ m ∈ marks, m.phase = .execute) : ¬UndoneIn marks i := by
  rintro ⟨before, after, rfl, -⟩
  have impossible := forward ⟨.compensate, i, .ok⟩ (by simp)
  cases impossible

/-! ## One more move -/

namespace Position

theorem covers_congr {amiss' : Prop} (covers : p.Covers marks amiss) (same : amiss ↔ amiss') :
    p.Covers marks amiss' := propext same ▸ covers

theorem not_passesOver_self : ¬p.PassesOver p := by
  intro passes
  have running := passes.running
  rw [passes.turned] at running
  cases running

/-- A call of the undo that did not succeed leaves open what was open. -/
theorem covers_undo {index : Int} {retries : Nat} {outcome : Outcome} (failed : outcome ≠ .ok)
    (retries' : Nat) (covers : Covers ⟨.compensating, index, retries⟩ marks amiss) :
    Covers ⟨.compensating, index, retries'⟩ (marks ++ [⟨.compensate, index, outcome⟩]) amiss := by
  obtain ⟨low, passed, undone⟩ := covers
  have same (i : Int) :
      UndoneIn (marks ++ [⟨.compensate, index, outcome⟩]) i ↔ UndoneIn marks i := by
    simp [undone_concat, failed]
  refine ⟨fun i executed => low i (executed_concat_undo.1 executed), ?_, ?_⟩
  · intro bad
    obtain ⟨i, above, executed, missed⟩ := passed bad
    exact ⟨i, above, executed_concat_undo.2 executed, mt (same i).1 missed⟩
  · intro good i above executed
    exact (same i).2 (undone good i above (executed_concat_undo.1 executed))

theorem covers_undone {status : Status} {index : Int} {retries : Nat}
    (status' : status = .compensating ∨ status = .compensated)
    (covers : Covers ⟨.compensating, index, retries⟩ marks amiss) :
    Covers ⟨status, index - 1, 0⟩ (marks ++ [⟨.compensate, index, .ok⟩]) amiss := by
  obtain ⟨low, passed, undone⟩ := covers
  have same (i : Int) (other : i ≠ index) :
      UndoneIn (marks ++ [⟨.compensate, index, .ok⟩]) i ↔ UndoneIn marks i := by
    simp [undone_concat, Ne.symm other]
  have result : (∀ i, ExecutedIn (marks ++ [⟨.compensate, index, .ok⟩]) i → 0 ≤ i) ∧
      (amiss → ∃ i, index - 1 < i ∧ ExecutedIn (marks ++ [⟨.compensate, index, .ok⟩]) i ∧
        ¬UndoneIn (marks ++ [⟨.compensate, index, .ok⟩]) i) ∧
      (¬amiss → ∀ i, index - 1 < i → ExecutedIn (marks ++ [⟨.compensate, index, .ok⟩]) i →
        UndoneIn (marks ++ [⟨.compensate, index, .ok⟩]) i) := by
    refine ⟨fun i executed => low i (executed_concat_undo.1 executed), ?_, ?_⟩
    · intro bad
      obtain ⟨i, above, executed, missed⟩ := passed bad
      have above : index < i := above
      exact ⟨i, by omega, executed_concat_undo.2 executed, mt (same i (by omega)).1 missed⟩
    · intro good i above executed
      by_cases here : i = index
      · exact undone_concat.2 (.inl (here ▸ rfl))
      · have above' : index < i := by omega
        exact (same i here).2 (undone good i above' (executed_concat_undo.1 executed))
  rcases status' with rfl | rfl <;> exact result

/-- A forward call, after which the execution is still at a step that is not called less. -/
theorem covers_forward {index next : Int} {retries retries' : Nat} {outcome : Outcome}
    (covers : Covers ⟨.inProgress, index, retries⟩ marks amiss) (notNegative : 0 ≤ index)
    (moves : next = index + 1 ∧ retries' = 0 ∨ next = index ∧ 0 < retries') :
    Covers ⟨.inProgress, next, retries'⟩ (marks ++ [⟨.execute, index, outcome⟩]) amiss := by
  obtain ⟨fine, forward, attempted⟩ := covers
  refine ⟨fine, ?_, ?_⟩
  · intro m inside
    rcases List.mem_append.1 inside with old | new
    · obtain ⟨phase, low, high⟩ := forward m old
      have high : m.index ≤ index := high
      exact ⟨phase, low, by show m.index ≤ next; omega⟩
    · cases List.mem_singleton.1 new
      exact ⟨rfl, notNegative, by show index ≤ next; omega⟩
  · show ExecutedIn _ next ↔ 0 < retries'
    rw [executed_concat]
    rcases moves with ⟨rfl, rfl⟩ | ⟨rfl, again⟩
    · have notYet : ¬ExecutedIn marks (index + 1) := by
        rintro ⟨m, inside, -, same⟩
        have high : m.index ≤ index := (forward m inside).2.2
        omega
      have apart : index ≠ index + 1 := by omega
      simp [notYet, apart]
    · simp [again]

end Position

/-- Every move keeps what the calls have to do with where an execution stands. -/
theorem Move.coverage (move : Move steps budget cancelSeen p made q)
    (place : p.InPlace steps budget) (covers : p.Covers marks amiss) :
    q.Covers (marks ++ made) (amiss ∨ p.PassesOver q) := by
  have fine (same : ¬p.PassesOver q) (kept : q.Covers (marks ++ made) amiss) :
      q.Covers (marks ++ made) (amiss ∨ p.PassesOver q) :=
    Position.covers_congr kept (by simp [same])
  cases move with
  | begun index retries =>
    apply fine (fun passes => nomatch passes.running)
    obtain ⟨good, rfl⟩ := covers
    obtain ⟨rfl, rfl⟩ : index = 0 ∧ retries = 0 := place
    exact ⟨good, by simp, by simp [ExecutedIn]⟩
  | cancelled index retries seen =>
    -- The walk back starts below the step at the index, which was called exactly if attempts
    -- were counted.
    obtain ⟨good, forward, attempted⟩ := covers
    have attempted : ExecutedIn marks index ↔ 0 < retries := attempted
    rw [List.append_nil]
    refine ⟨fun i ⟨m, inside, _, same⟩ => same ▸ (forward m inside).2.1, ?_, ?_⟩
    · rintro (bad | passes)
      · exact absurd bad good
      · have again : 0 < retries := passes.attempted
        refine ⟨index, ?_, attempted.2 again, ?_⟩
        · show index - 1 < index
          omega
        · exact not_undone_of_forward fun m inside => (forward m inside).1
    · intro notPassed i above ⟨m, inside, phase, same⟩
      have above : index - 1 < i := above
      have high : m.index ≤ index := (forward m inside).2.2
      have here : i = index := by omega
      have again := attempted.1 ⟨m, inside, phase, same.trans here⟩
      exact absurd (.inr ⟨rfl, rfl, rfl, again⟩) notPassed
  | stepped index retries more =>
    apply fine (fun passes => nomatch passes.turned)
    exact Position.covers_forward covers place.1 (.inl ⟨rfl, rfl⟩)
  | completed index retries last => trivial
  | repeated phase index retries left =>
    cases phase with
    | execute =>
      apply fine (fun passes => nomatch passes.turned)
      exact Position.covers_forward covers place.1 (.inr ⟨rfl, Nat.succ_pos _⟩)
    | compensate =>
      apply fine (fun passes => nomatch passes.running)
      exact Position.covers_undo (by simp) _ covers
  | turned index retries outcome final =>
    have same : ¬Position.PassesOver ⟨.inProgress, index, retries⟩ ⟨.compensating, index, 0⟩ := by
      intro passes
      have index' : index = index - 1 := passes.index
      omega
    apply fine same
    obtain ⟨good, forward, attempted⟩ := covers
    have inRange (m : CallMark) (inside : m ∈ marks ++ [⟨.execute, index, outcome⟩]) :
        0 ≤ m.index ∧ m.index ≤ index := by
      rcases List.mem_append.1 inside with old | new
      · exact (forward m old).2
      · cases List.mem_singleton.1 new
        exact ⟨place.1, Int.le_refl _⟩
    refine ⟨fun i ⟨m, inside, _, same⟩ => same ▸ (inRange m inside).1,
      fun bad => absurd bad good, ?_⟩
    intro _ i above ⟨m, inside, _, same⟩
    have above : index < i := above
    have high := (inRange m inside).2
    omega
  | undone index retries more =>
    apply fine (fun passes => nomatch passes.running)
    exact Position.covers_undone (.inl rfl) covers
  | compensated index retries last =>
    apply fine (fun passes => nomatch passes.running)
    exact Position.covers_undone (.inr rfl) covers
  | nothingLeft index retries below =>
    apply fine (fun passes => nomatch passes.running)
    have low : -1 ≤ index := place.1
    obtain rfl : index = -1 := by omega
    rw [List.append_nil]
    exact covers
  | gaveUp index retries outcome failed final atStep => trivial

/-! ## Whole runs -/

theorem cancelledInRetry_cons {new old : Execution} {older : List Execution} :
    CancelledInRetry (new :: old :: older) ↔
      CancelledInRetry (old :: older) ∨ old.position.PassesOver new.position := by
  constructor
  · rintro ⟨newer, new', old', older', split, passes⟩
    cases newer with
    | nil =>
      cases split
      exact .inr passes
    | cons first newer => exact .inl ⟨newer, new', old', older', (List.cons.inj split).2, passes⟩
  · rintro (⟨newer, new', old', older', split, passes⟩ | passes)
    · exact ⟨new :: newer, new', old', older', congrArg (new :: ·) split, passes⟩
    · exact ⟨[], new, old, older, rfl, passes⟩

theorem not_cancelledInRetry_singleton (row : Execution) : ¬CancelledInRetry [row] := by
  rintro ⟨newer, new, old, older, split, -⟩
  have lengths := congrArg List.length split
  simp at lengths
  omega

theorem Lineage.coverage {d : SagaDefinition} {rows : List Execution} {calls : List CallMade}
    (lineage : Lineage d rows calls) (fits : d.Fits) :
    ∀ row ∈ rows.head?, row.position.Covers (calls.map CallMade.mark) (CancelledInRetry rows) := by
  induction lineage with
  | created id sagaType context now =>
    rintro row ⟨⟩
    exact ⟨not_cancelledInRetry_singleton _, rfl⟩
  | @cancelled old earlier calls now before active unasked ih =>
    rintro row ⟨⟩
    have here : ((old.marked now).replacing old).position = old.position := rfl
    rw [here]
    apply Position.covers_congr (ih old rfl)
    rw [cancelledInRetry_cons, here]
    exact ⟨.inl, fun both => both.resolve_right Position.not_passesOver_self⟩
  | @decided old base changed earlier calls made t now before read same decides next ih =>
    rintro row ⟨⟩
    have here : ((changed.stamped now).replacing old).position = changed.position := rfl
    have formed := before.wellFormed fits
    have stores := decides.stores_of_next fits (formed _ List.mem_cons_self) (formed _ read)
      same next
    rw [here, List.map_append]
    have covers := stores.move.coverage (formed _ List.mem_cons_self).place (ih old rfl)
    apply Position.covers_congr covers
    rw [cancelledInRetry_cons, here]

/-- However starts, advances, drives, resumes and cancels interleave on an execution whose leases
exclude each other: once it is compensated, every step that was called is undone after its last
call exactly if no cancel request was seen between two attempts of a step. -/
theorem compensated_undoes_iff {e : Engine} {σ : Cluster} {x : String} {row : Execution}
    (fits : e.Fits) (reachable : Reachable e σ) (exclusive : σ.journal.Exclusive x)
    (classified : σ.journal.Classified x) (latest : σ.rows.get? x = some row)
    (status : row.status = .compensated) :
    (∀ i, ExecutedIn ((σ.journal.calls x).map CallMade.mark) i →
      UndoneIn ((σ.journal.calls x).map CallMade.mark) i) ↔
    ¬CancelledInRetry (σ.journal.history x) := by
  have consistent := reachable_consistent reachable fits
  have lawful := consistent.lawful
  have found : σ.journal.record x = some row := by
    rw [← latest, consistent.rows]
    rfl
  obtain ⟨older, history⟩ := history_eq_cons_of_record found
  obtain ⟨calls, booked⟩ := lawful.booked exclusive classified
  obtain ⟨d, known, lineage⟩ := booked.lineage history
  have small := fits.of_definitionOf (known row List.mem_cons_self)
  have made : σ.journal.calls x = calls :=
    booked.made_of_terminal lawful exclusive ⟨found, by rw [status]; rfl⟩
  have place := (lineage.wellFormed small row List.mem_cons_self).place
  have covers := lineage.coverage small row rfl
  rw [made, history]
  simp only [Execution.position, Position.InPlace, Position.Covers, status] at place covers
  obtain ⟨low, passed, undone⟩ := covers
  constructor
  · intro all bad
    obtain ⟨i, above, executed, missed⟩ := passed bad
    exact missed (all i executed)
  · intro good i executed
    have notNegative := low i executed
    exact undone good i (by omega) executed

/-- A step whose budget is spent is undone. -/
theorem compensated_undoes_iff_busy :
    let σ := Sample.run Sample.busy [.start "order" Dictionary.empty, .drive "x"]
    (∀ i, ExecutedIn ((σ.journal.calls "x").map CallMade.mark) i →
      UndoneIn ((σ.journal.calls "x").map CallMade.mark) i) ↔
    ¬CancelledInRetry (σ.journal.history "x") := by
  have row : ∃ row, (Sample.run Sample.busy [.start "order" Dictionary.empty, .drive "x"]).rows.get?
      "x" = some row ∧ row.status = .compensated := by
    have status : ((Sample.run Sample.busy
        [.start "order" Dictionary.empty, .drive "x"]).rows.get? "x").map (·.status) =
          some .compensated := by decide +kernel
    exact Option.map_eq_some_iff.1 status
  obtain ⟨row, latest, status⟩ := row
  exact compensated_undoes_iff Sample.engine_fits (Sample.run_reachable _ _) (by decide +kernel)
    (by decide +kernel) latest status

/-- A step that was called once and is passed over when the cancel request is seen: the execution
is compensated, and the step is not undone. -/
theorem cancelled_in_retry_not_undone :
    let σ := Sample.run Sample.busy [.start "order" Dictionary.empty, .advance "x", .advance "x",
      .cancel "x", .advance "x", .advance "x"]
    Reachable Sample.engine σ ∧ σ.journal.Exclusive "x" ∧ σ.journal.Classified "x" ∧
      (σ.rows.get? "x").map (·.status) = some .compensated ∧
      ExecutedIn ((σ.journal.calls "x").map CallMade.mark) 0 ∧
      ¬UndoneIn ((σ.journal.calls "x").map CallMade.mark) 0 := by
  have made : ((Sample.run Sample.busy [.start "order" Dictionary.empty, .advance "x",
      .advance "x", .cancel "x", .advance "x", .advance "x"]).journal.calls "x").map
        CallMade.mark = [⟨.execute, 0, .retryable⟩] := by decide +kernel
  refine ⟨Sample.run_reachable _ _, by decide +kernel, by decide +kernel, by decide +kernel, ?_, ?_⟩
  · rw [made]
    exact ⟨_, List.mem_cons_self, rfl, rfl⟩
  · rw [made]
    exact not_undone_of_forward (by simp)

end

end SagaEngine
