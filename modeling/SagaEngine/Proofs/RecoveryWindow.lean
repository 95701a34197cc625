import SagaEngine.Config.Resolution
import SagaEngine.Config.Validation
import SagaEngine.Proofs.Durations
import SagaEngine.Proofs.RecoverySweep
/-!
# The time between a resume and an alert

A sweep resumes what did not move for a while and alerts what is too old. The two ages are checked
against each other only where both were given, and an age that was not given, or given as zero, is
a built-in one. `LeavesWindow` is what an accepted configuration has to keep beyond the check.
Main statements: `recovery_window_iff` and `stale_age_past_alert`.
-/

namespace SagaEngine

/-- An execution may be resumed before it is alerted. -/
def RecoveryOptions.HasWindow (o : RecoveryOptions) : Prop :=
  0 ≤ o.staleAfter ∧ o.staleAfter < o.alertAfter

namespace RecoverySettings

/-- The ages are texts of durations whose nanoseconds fit a word. -/
def Carried (r : RecoverySettings) : Prop :=
  Duration.Carried r.staleAfter ∧ Duration.Carried r.alertAfter

/-- The first age is not negative, and an age that is given alone is on the right side of the
built-in value of the other one. -/
def LeavesWindow (r : RecoverySettings) : Prop :=
  match Duration.given r.staleAfter, Duration.given r.alertAfter with
  | some stale, some _ => 0 ≤ stale.comparedMillis
  | some stale, none => 0 ≤ stale.comparedMillis ∧ stale.comparedMillis < 1800000
  | none, some alert => 60000 < alert.comparedMillis
  | none, none => True

theorem compared_of_no_fault {r : RecoverySettings} (passed : r.fault? = none)
    {stale alert : Duration} (first : Duration.given r.staleAfter = some stale)
    (second : Duration.given r.alertAfter = some alert) :
    stale.comparedMillis < alert.comparedMillis := by
  have given_stale := Option.eq_some_of_filter_eq_some first
  have given_alert := Option.eq_some_of_filter_eq_some second
  simp only [fault?, given_stale, given_alert] at passed
  split at passed
  · cases passed
  · omega

end RecoverySettings

namespace RuntimeSettings

variable {s : RuntimeSettings}

theorem no_fault_of_accepted (accepted : s.validate = .ok ()) : s.fault? = none := by
  unfold validate at accepted
  cases fault : s.fault? with
  | none => rfl
  | some broken => rw [fault] at accepted; cases accepted

theorem recovery_of_accepted (accepted : s.validate = .ok ()) :
    s.recoveryOrEmpty.fault? = none := by
  have passed := no_fault_of_accepted accepted
  unfold fault? at passed
  exact (Option.or_eq_none_iff.1 (Option.or_eq_none_iff.1 passed).2).1

theorem collaborator_of_accepted (accepted : s.validate = .ok ()) {name : String}
    {c : CollaboratorSettings} (named : (name, c) ∈ s.collaboratorsOrEmpty.named) :
    c.fault? name = none := by
  have passed := no_fault_of_accepted accepted
  unfold fault? at passed
  simp only [Option.or_eq_none_iff, List.findSome?_eq_none_iff] at passed
  obtain ⟨-, -, -, each⟩ := passed
  exact each (name, c) named

theorem hasWindow_iff (accepted : s.validate = .ok ()) (carried : s.recoveryOrEmpty.Carried) :
    s.recoveryOptions.HasWindow ↔ s.recoveryOrEmpty.LeavesWindow := by
  have passed := recovery_of_accepted accepted
  have stale : s.recoveryOptions.staleAfter = _ := Duration.resolve_of_carried carried.1 60000
  have alert : s.recoveryOptions.alertAfter = _ := Duration.resolve_of_carried carried.2 1800000
  rw [RecoveryOptions.HasWindow, RecoverySettings.LeavesWindow, stale, alert]
  cases first : Duration.given s.recoveryOrEmpty.staleAfter with
  | none =>
    cases second : Duration.given s.recoveryOrEmpty.alertAfter with
    | none => simp
    | some alert => simp
  | some stale =>
    cases second : Duration.given s.recoveryOrEmpty.alertAfter with
    | none => simp
    | some alert =>
      have later := RecoverySettings.compared_of_no_fault passed first second
      simp [later]

theorem inRange_of_hasWindow (carried : s.recoveryOrEmpty.Carried)
    (window : s.recoveryOptions.HasWindow) : Sweep.InRange s.recoveryOptions := by
  obtain ⟨low, later⟩ := window
  have high : s.recoveryOptions.alertAfter < 0x8000000000000000 :=
    Duration.resolve_lt carried.2 (show (1800000 : Int) < 0x8000000000000000 by decide)
  exact ⟨⟨low, by omega⟩, ⟨by omega, high⟩⟩

end RuntimeSettings

namespace Sweep

section

variable {σ : Type} {w : Surroundings σ} {e : Engine} {o : RecoveryOptions} {now : Nat}
  {rows : List Execution} {s s' : σ} {stats stats' : SweepStats} {row : Execution}
  {alerted : List String}

/-- The time since an execution was created, in milliseconds. -/
def age (now : Nat) (row : Execution) : Int := now - row.createdAt

theorem isTooOld_eq (window : o.HasWindow) (now : Nat) (row : Execution) :
    isTooOld o now row = decide (o.alertAfter ≤ age now row) := by
  obtain ⟨low, later⟩ := window
  rw [Bool.eq_iff_iff]
  simp only [isTooOld, decide_eq_true_eq]
  unfold age
  omega

/-- An execution that is as it was created is due from the first age on. -/
theorem isDue_iff_of_unmoved (window : o.HasWindow)
    (active : row.status ∈ [Status.started, .inProgress, .compensating])
    (unmoved : row.updatedAt = row.createdAt) (fresh : row.id ∉ alerted) (now : Nat) :
    isDue o now alerted row = true ↔ o.staleAfter < age now row := by
  obtain ⟨low, -⟩ := window
  simp only [isDue, age, active, fresh, unmoved, decide_eq_true_eq, not_false_eq_true, and_true,
    true_and]
  omega

theorem Handles.tally (handles : Handles w e o now rows s stats stats' s') :
    stats'.resumed + stats'.failed =
        stats.resumed + stats.failed + rows.countP (!isTooOld o now ·) ∧
      stats'.alerted = stats.alerted + rows.countP (isTooOld o now) := by
  induction handles with
  | done => exact ⟨rfl, rfl⟩
  | look q looks rest ih => exact ih
  | alerts row old rest ih =>
    rw [List.countP_cons_of_neg (by simp [old]), List.countP_cons_of_pos old]
    simp only at ih
    omega
  | resumes row young ran rest ih | fails row failure young ran rest ih =>
    rw [List.countP_cons_of_pos (by simp [young]), List.countP_cons_of_neg (by simp [young])]
    simp only at ih
    omega

/-- Of its batch a sweep hands over to be resumed what is younger than the second age. -/
theorem once_tally (range : InRange o) (window : o.HasWindow)
    (room : o.batchLimit + (w.alerted s).length < 0x10000000000000000) (now : Nat) :
    ∃ stats s', (once e o now).run w.answer s = (.ok stats, s') ∧
      stats.resumed + stats.failed = (batch o now (w.rows (w.listing s)) (w.alerted s)).countP
        (fun row => age now row < o.alertAfter) ∧
      stats.alerted = (batch o now (w.rows (w.listing s)) (w.alerted s)).countP
        (fun row => o.alertAfter ≤ age now row) := by
  obtain ⟨s₁, stats, s₂, s', ran, -, handled, -⟩ := once_run (e := e) range room now
  obtain ⟨resumed, alerted⟩ := handled.tally
  refine ⟨stats, s', ran, ?_, ?_⟩
  · rw [resumed, List.countP_congr (fun row _ => ?_)]
    · exact Nat.zero_add _
    · simp [isTooOld_eq window]
  · rw [alerted, List.countP_congr (fun row _ => ?_)]
    · exact Nat.zero_add _
    · simp [isTooOld_eq window]

/-- Some moment is late enough for a resume and too early for an alert, unless the ages are only a
millisecond apart. -/
theorem exists_between_iff (window : o.HasWindow)
    (active : row.status ∈ [Status.started, .inProgress, .compensating])
    (unmoved : row.updatedAt = row.createdAt) (fresh : row.id ∉ alerted) :
    (∃ now, isDue o now alerted row = true ∧ isTooOld o now row = false) ↔
      o.staleAfter + 1 < o.alertAfter := by
  simp only [isDue_iff_of_unmoved window active unmoved fresh, isTooOld_eq window,
    decide_eq_false_iff_not]
  obtain ⟨low, later⟩ := window
  unfold age
  constructor
  · rintro ⟨now, due, young⟩
    omega
  · intro apart
    exact ⟨row.createdAt + (o.staleAfter + 1).toNat, by omega, by omega⟩

end

end Sweep

/-- An accepted configuration resolves to ages in the right order exactly if it leaves a window
beyond the check. Then every sweep resumes what it handles below the second age and alerts the
rest, and an execution that never moved is due above the first one. -/
theorem recovery_window_iff {s : RuntimeSettings} (accepted : s.validate = .ok ())
    (carried : s.recoveryOrEmpty.Carried) :
    (s.recoveryOptions.HasWindow ↔ s.recoveryOrEmpty.LeavesWindow) ∧
    (s.recoveryOrEmpty.LeavesWindow →
      (∀ {σ : Type} (w : Sweep.Surroundings σ) (e : Engine) (state : σ) (now : Nat),
        s.recoveryOptions.batchLimit + (w.alerted state).length < 0x10000000000000000 →
        ∃ stats state',
          (Sweep.once e s.recoveryOptions now).run w.answer state = (.ok stats, state') ∧
          stats.resumed + stats.failed =
            (Sweep.batch s.recoveryOptions now (w.rows (w.listing state)) (w.alerted state)).countP
              (fun row => Sweep.age now row < s.recoveryOptions.alertAfter) ∧
          stats.alerted =
            (Sweep.batch s.recoveryOptions now (w.rows (w.listing state)) (w.alerted state)).countP
              (fun row => s.recoveryOptions.alertAfter ≤ Sweep.age now row)) ∧
      ∀ row alerted, row.status ∈ [Status.started, .inProgress, .compensating] →
        row.updatedAt = row.createdAt → row.id ∉ alerted →
        (∀ now, Sweep.isDue s.recoveryOptions now alerted row = true ↔
          s.recoveryOptions.staleAfter < Sweep.age now row) ∧
        ((∃ now, Sweep.isDue s.recoveryOptions now alerted row = true ∧
            Sweep.isTooOld s.recoveryOptions now row = false) ↔
          s.recoveryOptions.staleAfter + 1 < s.recoveryOptions.alertAfter)) := by
  have ordered := RuntimeSettings.hasWindow_iff accepted carried
  refine ⟨ordered, fun leaves => ?_⟩
  have window := ordered.2 leaves
  have range := RuntimeSettings.inRange_of_hasWindow carried window
  constructor
  · intro σ w e state now room
    exact Sweep.once_tally range window room now
  · intro row alerted active unmoved fresh
    exact ⟨Sweep.isDue_iff_of_unmoved window active unmoved fresh,
      Sweep.exists_between_iff window active unmoved fresh⟩

/-- Settings with both ages, one of them with a fraction of a second. -/
def Sample.minutes : RuntimeSettings :=
  { recovery := some { staleAfter := some ⟨120, 0⟩, alertAfter := some ⟨3600, 500000000⟩ } }

theorem recovery_window_iff_minutes :
    Sample.minutes.validate = .ok () ∧ Sample.minutes.recoveryOrEmpty.Carried ∧
      Sample.minutes.recoveryOptions.HasWindow := by
  have carried : Sample.minutes.recoveryOrEmpty.Carried := by
    constructor
    · rintro _ ⟨⟩
      exact ⟨⟨"120s", by decide⟩, by decide, by decide⟩
    · rintro _ ⟨⟩
      exact ⟨⟨"3600.5s", by decide⟩, by decide, by decide⟩
  have leaves : Sample.minutes.recoveryOrEmpty.LeavesWindow := by
    show (0 : Int) ≤ 120000
    decide
  exact ⟨rfl, carried, (recovery_window_iff rfl carried).1.2 leaves⟩

/-- Settings that give the first age alone, and a long one. -/
def Sample.patient : RuntimeSettings := { recovery := some { staleAfter := some ⟨3600, 0⟩ } }

/-- An hour before the resume is accepted, and the alert comes after half an hour as ever: whatever
did not move since it was created is too old before it is due. -/
theorem stale_age_past_alert :
    Sample.patient.validate = .ok () ∧ Sample.patient.recoveryOrEmpty.Carried ∧
      ¬Sample.patient.recoveryOptions.HasWindow ∧
      ∀ now alerted row, row.updatedAt = row.createdAt →
        Sweep.isDue Sample.patient.recoveryOptions now alerted row = true →
        Sweep.isTooOld Sample.patient.recoveryOptions now row = true := by
  have stale : Sample.patient.recoveryOptions.staleAfter = 3600000 := by decide
  have alert : Sample.patient.recoveryOptions.alertAfter = 1800000 := rfl
  refine ⟨rfl, ⟨?_, ?_⟩, ?_, ?_⟩
  · rintro _ ⟨⟩
    exact ⟨⟨"3600s", by decide⟩, by decide, by decide⟩
  · rintro _ ⟨⟩
  · rintro ⟨-, later⟩
    omega
  · intro now alerted row unmoved due
    simp only [Sweep.isDue, Sweep.isTooOld, decide_eq_true_eq, stale, alert] at due ⊢
    omega

end SagaEngine
