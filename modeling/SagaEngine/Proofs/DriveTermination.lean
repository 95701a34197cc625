import SagaEngine.Proofs.Cluster
import SagaEngine.Proofs.LoneAdvance
/-!
# A drive comes to an end

The loop of a drive has no counter. Where nobody else writes, each advance that goes on stores a
row with fewer advances left, whatever the row says and however a step call comes back, so that the
loop ends after as many of them as are left on the row that it found. An execution that came about
by a start is finished then. Main statements: `Drives.run`, `drives_of_found` and
`drive_terminates`.
-/

namespace SagaEngine

/-- Every step reply has one of the outcomes that there are. -/
def SoleWriter.Meant {σ : Type} (w : SoleWriter σ) : Prop :=
  ∀ sagaType call s code, (w.office (.call sagaType call) s).1.result.outcome ≠ .unclassified code

/-- The loop of a drive and how many advances it makes. -/
inductive Drives {σ : Type} (answer : (q : Request) → σ → Response q × σ) (e : Engine)
    (x : String) : Nat → σ → Except Failure Unit → σ → Prop
  | ended {s s' : σ} {advanced : Advanced}
      (advances : (e.advance x).run answer s = (.ok advanced, s'))
      (stays : advanced.goesOn = false) : Drives answer e x 1 s (.ok ()) s'
  | failed {s s' : σ} {failure : Failure}
      (advances : (e.advance x).run answer s = (.error failure, s')) :
      Drives answer e x 1 s (.error failure) s'
  | progressed {n : Nat} {s s₁ s' : σ} {r : Except Failure Unit}
      (advances : (e.advance x).run answer s = (.ok .progressed, s₁))
      (rest : Drives answer e x n s₁ r s') : Drives answer e x (n + 1) s r s'
  | slept {n : Nat} {s s₁ s' : σ} {r : Except Failure Unit} {delay : Int}
      (advances : (e.advance x).run answer s = (.ok (.retryAfter delay), s₁))
      (rest : Drives answer e x n (answer (.sleep delay) s₁).2 r s') :
      Drives answer e x (n + 1) s r s'

section

variable {σ : Type} {e : Engine} {d : SagaDefinition} {x : String} {row : Execution} {s s' : σ}
  {n : Nat} {r : Except Failure Unit}

theorem driveWithin_succ (answer : (q : Request) → σ → Response q × σ) (k : Nat) :
    (e.driveWithin x (k + 1)).run answer s =
      match (e.advance x).run answer s with
      | (.ok .progressed, s₁) => (e.driveWithin x k).run answer s₁
      | (.ok (.retryAfter delay), s₁) =>
        (e.driveWithin x k).run answer (answer (.sleep delay) s₁).2
      | (.ok _, s₁) => (.ok (), s₁)
      | (.error failure, s₁) => (.error failure, s₁) := by
  show (Program.bind (e.advance x) _).run answer s = _
  rw [Program.run_bind]
  rcases (e.advance x).run answer s with ⟨failure | (_ | _ | _ | _), s₁⟩ <;> rfl

/-- The bound on the number of advances does not matter once it is large enough. -/
theorem Drives.run {answer : (q : Request) → σ → Response q × σ}
    (drives : Drives answer e x n s r s') {k : Nat} (enough : n ≤ k) :
    (e.driveWithin x k).run answer s = (r, s') := by
  induction drives generalizing k with
  | @ended s s' advanced advances stays =>
    obtain ⟨k, rfl⟩ := Nat.exists_eq_add_of_le' enough
    rw [driveWithin_succ, advances]
    cases advanced with
    | progressed | retryAfter => cases stays
    | terminal | abandoned => rfl
  | failed advances =>
    obtain ⟨k, rfl⟩ := Nat.exists_eq_add_of_le' enough
    rw [driveWithin_succ, advances]
  | @progressed n _ _ _ _ advances rest ih =>
    obtain ⟨k, rfl⟩ := Nat.exists_eq_add_of_le' enough
    rw [← Nat.add_assoc, driveWithin_succ, advances]
    exact ih (by omega)
  | @slept n _ _ _ _ _ advances rest ih =>
    obtain ⟨k, rfl⟩ := Nat.exists_eq_add_of_le' enough
    rw [← Nat.add_assoc, driveWithin_succ, advances]
    exact ih (by omega)

variable (w : SoleWriter σ)

theorem SoleWriter.means (meant : w.Meant) (q : Request) (s : σ) : q.IsMeant (w.answer q s).1 := by
  cases q with
  | call sagaType call => exact meant sagaType call s
  | _ => trivial

theorem advance_turns (found : (w.view s).rows.get? x = some row)
    (known : e.definitionOf row = .ok d) :
    Turns d x row (w.Meant ∧ (w.view s).Free x)
        (w.view ((e.advance x).run w.answer s).2).rows ((e.advance x).run w.answer s).1 ∧
      ((w.view s).Free x → (w.view ((e.advance x).run w.answer s).2).Free x) :=
  run_of_ensures (w.handles x) w.means (Premises.advances e found known)

theorem stored_known {t : Transition} {current changed : Execution} (now : Nat)
    (becomes : row.Becomes current) (next : t.next current = .ok changed)
    (known : e.definitionOf row = .ok d) :
    e.definitionOf ((changed.stamped now).replacing current) = .ok d :=
  (definitionOf_congr ((origin_of_stored next now).trans becomes.origin)).2 known

theorem Chooses.wellFormed {t : Transition} {current changed : Execution}
    (chooses : Chooses d row t) (fits : d.Fits) (becomes : row.Becomes current)
    (next : t.next current = .ok changed) (now : Nat) (formed : WellFormed d row) :
    WellFormed d ((changed.stamped now).replacing current) := by
  obtain ⟨made, decides⟩ := chooses.decides formed
  have formed' := formed.becomes becomes
  have stores := decides.stores_of_next fits formed' formed becomes.progress.symm next
  exact stores.wellFormed formed' now

/-- The loop takes no more advances than are left on the row, and ends in a fair environment with
a finished execution if it found one that an execution can have. -/
theorem drives_of_found (fits : d.Fits) (found : (w.view s).rows.get? x = some row)
    (known : e.definitionOf row = .ok d) :
    ∃ n r s', n ≤ row.movesLeft d ∧ Drives w.answer e x n s r s' ∧
      (WellFormed d row → w.Meant ∧ (w.view s).Free x → r = .ok () ∧
        ∃ last, last.status.isTerminal = true ∧ (w.view s').rows.get? x = some last) := by
  induction left : row.movesLeft d using Nat.strongRecOn generalizing row s with
  | ind left' ih =>
    have positive : 0 < row.movesLeft d := Position.movesLeft_pos ..
    obtain ⟨turns, free⟩ := advance_turns w found known
    rcases advances : (e.advance x).run w.answer s with ⟨result, s₁⟩
    rw [advances] at turns free
    dsimp only at turns free
    cases turns with
    | rested found₁ terminal =>
      refine ⟨1, _, s₁, by omega, .ended advances rfl, ?_⟩
      intro _ _
      exact ⟨rfl, row, terminal, found₁⟩
    | failed failure malformed =>
      refine ⟨1, _, s₁, by omega, .failed advances, ?_⟩
      intro formed
      exact absurd formed (malformed fits)
    | gaveUp unfair =>
      refine ⟨1, _, s₁, by omega, .ended advances rfl, ?_⟩
      intro _ fair
      exact absurd fair unfair
    | @moved t current changed onSuccess now chooses becomes next goesOn found₁ =>
      by_cases terminal : changed.status.isTerminal = true
      · rw [if_pos terminal] at advances
        refine ⟨1, _, s₁, by omega, .ended advances rfl, ?_⟩
        intro _ _
        exact ⟨rfl, (changed.stamped now).replacing current, terminal, found₁⟩
      · rw [if_neg terminal] at advances
        have total : current.totalSteps = d.stepCount :=
          (congrArg Execution.Origin.totalSteps becomes.origin).trans (definitionOf_eq_ok.1 known).2
        have less : changed.movesLeft d < row.movesLeft d :=
          chooses.movesLeft_lt fits becomes.progress.symm total next (by simpa using terminal)
        have fewer : ((changed.stamped now).replacing current).movesLeft d < row.movesLeft d := less
        have known₁ := stored_known now becomes next known
        -- whatever time goes by before the next advance, the loop goes on from the stored row
        have goes {s₂ : σ} (rests : (w.view s₁).Rests (w.view s₂)) :
            ∃ n r s', n + 1 ≤ left' ∧ Drives w.answer e x n s₂ r s' ∧
              (WellFormed d row → w.Meant ∧ (w.view s).Free x → r = .ok () ∧
                ∃ last, last.status.isTerminal = true ∧ (w.view s').rows.get? x = some last) := by
          obtain ⟨n, r, s', few, drives, finished⟩ :=
            ih _ (left ▸ fewer) (rests.rows ▸ found₁) known₁ rfl
          refine ⟨n, r, s', by omega, drives, ?_⟩
          intro formed fair
          exact finished (chooses.wellFormed fits becomes next now formed)
            ⟨fair.1, rests.toLater.free (free fair.2)⟩
        cases onSuccess with
        | progressed =>
          obtain ⟨n, r, s', few, drives, finished⟩ := goes (.refl _)
          exact ⟨n + 1, r, s', few, .progressed advances drives, finished⟩
        | retryAfter delay =>
          have rests := (w.handles x (.sleep delay) s₁).rests_of_aside rfl
          obtain ⟨n, r, s', few, drives, finished⟩ := goes rests
          exact ⟨n + 1, r, s', few, .slept advances drives, finished⟩
        | terminal | abandoned => cases goesOn

theorem Reachable.wellFormed {c : Cluster} (reachable : Reachable e c) (fits : e.Fits)
    (found : c.rows.get? x = some row) (known : e.definitionOf row = .ok d) : WellFormed d row := by
  have consistent := reachable_consistent reachable fits
  have inside : row ∈ c.journal.history x := by
    apply mem_history_of_record
    rw [consistent.rows] at found
    exact found
  exact (consistent.lawful.ownedBy_of_known inside known).wellFormed (fits.of_definitionOf known)
    inside

/-- Where nobody else writes, a drive of a stored execution ends after a bounded number of advances,
whatever its row says and whatever the steps do. If the row came about by a start and nobody holds a
lease of it, the drive answers with the row of a finished execution. -/
theorem drive_terminates (fits : e.Fits) (found : (w.view s).rows.get? x = some row)
    (known : e.definitionOf row = .ok d) :
    ∃ n r s', n ≤ 2 + 2 * d.stepCount * d.retry.maxAttempts ∧ Drives w.answer e x n s r s' ∧
      (∀ k, n ≤ k → (e.driveWithin x k).run w.answer s = (r, s')) ∧
      ((∃ c, Reachable e c ∧ c.rows.get? x = some row) → w.Meant → (w.view s).Free x →
        r = .ok () ∧ ∃ last, last.status.isTerminal = true ∧
          (w.view s').rows.get? x = some last ∧
          ((Engine.getStatus x).run w.answer s').1 = .ok last ∧
          (n ≤ e.patience → ((e.drive x).run w.answer s).1 = .ok last)) := by
  obtain ⟨n, r, s', few, drives, finished⟩ :=
    drives_of_found w (fits.of_definitionOf known) found known
  refine ⟨n, r, s', Nat.le_trans few (Position.movesLeft_le ..), drives, fun k => drives.run, ?_⟩
  rintro ⟨c, reachable, recorded⟩ meant free
  obtain ⟨rfl, last, terminal, found'⟩ :=
    finished (reachable.wellFormed fits recorded known) ⟨meant, free⟩
  have status := run_of_ensures (s := s') (w.handles x) w.means (Premises.statuses x x (w.view s'))
  rw [found'] at status
  refine ⟨rfl, last, terminal, found', status.2, fun patient => ?_⟩
  show ((Program.bind (e.driveWithin x e.patience) _).run w.answer s).1 = _
  rw [Program.run_bind, drives.run patient]
  exact status.2

end

theorem Serves.keyed {s s' : MemoryStore} {q : Request} {answer : Response q}
    (serves : Serves s q answer s') (keyed : RowMap.Keyed s.committed) :
    RowMap.Keyed s'.committed := by
  rw [serves.committed]
  generalize s.committed = rows at keyed
  induction installs s q answer generalizing rows with
  | nil => exact keyed
  | cons row later ih => exact ih (rows.insert row.id row) (keyed.put (w := .insert row))

/-- The premises after a request of the store. -/
def Premises.served (v : Premises) (q : Request) (answer : Response q) {s' : MemoryStore}
    (serves : Serves v.store q answer s') : Response q × Premises :=
  (answer, ⟨s'.committed, s'.transactions, v.leases, v.clock, serves.keyed v.keyed⟩)

namespace Sample

/-- A store, a table of leases and a clock that stands still. -/
def office : (q : Request) → Premises → Response q × Premises
  | .begin, v => v.served .begin _ ⟨rfl, rfl⟩
  | .insert tx row, v => v.served (.insert tx row) _ ⟨rfl, rfl⟩
  | .find tx x, v => v.served (.find tx x) _ ⟨rfl, rfl⟩
  | .update tx row expected, v => v.served (.update tx row expected) _ ⟨rfl, rfl⟩
  | .listByStatus tx status limit, v => v.served (.listByStatus tx status limit) _ ⟨rfl, rfl⟩
  | .listStale tx query, v => v.served (.listStale tx query) _ ⟨rfl, rfl⟩
  | .commit tx, v => v.served (.commit tx) _ ⟨rfl, rfl⟩
  | .drop tx, v => v.served (.drop tx) () rfl
  | .acquire x, v =>
    let lease : Lease := ⟨"lease", x, "owner", v.clock + 30000⟩
    let granted := v.leases.tryInsert lease v.clock
    (granted.map fun _ => lease, { v with leases := granted.getD v.leases })
  | .release lease, v => ((), { v with leases := v.leases.remove lease.executionId lease.leaseId })
  | q, v => (host busy [] q, v)

/-- Every step call asks for its own execution to be cancelled. -/
def quitter : SoleWriter Premises where
  office := office
  view := id
  cancels _ call _ := [call.executionId]
  serves q v := by
    cases q with
    | begin | insert | find | update | listByStatus | listStale | commit => exact ⟨rfl, rfl⟩
    | _ => rfl
  leases q v := by
    cases q with
    | acquire x => exact ⟨_, rfl, rfl, rfl⟩
    | _ => rfl
  onward q v := by
    cases q with
    | _ => exact Int.le_refl v.clock

def accepted : Execution := Engine.newRow "x" definition "order" Dictionary.empty 0

def unshared : Premises :=
  { rows := Dictionary.empty.insert "x" accepted
    opened := {}
    leases := Dictionary.empty
    clock := 0
    keyed := RowMap.keyed_empty.put (w := .insert accepted) }

end Sample

/-- A step that is always busy and asks for its execution to be cancelled. -/
theorem drive_terminates_busy :
    ∃ n s' last, n ≤ 6 ∧ Drives Sample.quitter.answer Sample.engine "x" n Sample.unshared (.ok ()) s' ∧
      last.status.isTerminal = true ∧
      ((Sample.engine.drive "x").run Sample.quitter.answer Sample.unshared).1 = .ok last := by
  have recorded : (Sample.run Sample.busy [.start "order" Dictionary.empty]).rows.get? "x" =
      some Sample.accepted := by
    decide +kernel
  have known : Sample.engine.definitionOf Sample.accepted = .ok Sample.definition :=
    definitionOf_eq_ok.2 ⟨rfl, rfl⟩
  have meant : Sample.quitter.Meant := by
    rintro sagaType ⟨phase, step, x, index, context, rejected⟩ v code outcome
    cases phase <;> cases outcome
  obtain ⟨n, r, s', few, drives, -, finished⟩ := drive_terminates Sample.quitter Sample.engine_fits
    (s := Sample.unshared) (x := "x") rfl known
  obtain ⟨rfl, last, terminal, -, -, answers⟩ :=
    finished ⟨_, Sample.run_reachable _ _, recorded⟩ meant rfl
  have patient : n ≤ Sample.engine.patience := Nat.le_trans few (by decide)
  exact ⟨n, s', last, few, drives, terminal, answers patient⟩

end SagaEngine
