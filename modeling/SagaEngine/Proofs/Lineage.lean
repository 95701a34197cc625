import SagaEngine.Proofs.Decision
import SagaEngine.Proofs.VersionedRows
/-!
# The rows of a single owner

The committed rows of one execution as one owner makes them: the accepted row, then
cancel marks and decisions, each stored on the row before it. A decision was taken
on a row with the progress of the latest one, which a cancel mark may have followed.
Every row is well-formed and follows the rows before it in one strict order, so no
progress comes back, and a version counts the rows. Main statements:
`Lineage.wellFormed`, `Lineage.follows` and `Lineage.version_eq`.
-/

namespace SagaEngine

/-- A row under the version after the one it replaces. -/
def Execution.replacing (changed row : Execution) : Execution :=
  { changed with version := wrapWord64 (row.version + 1) }

/-- A row with a cancel request on it. -/
def Execution.marked (row : Execution) (now : Nat) : Execution :=
  { row with cancelRequested := true, updatedAt := now }

/-- The committed rows of one execution, latest first, and the calls whose results they
store, oldest first. -/
inductive Lineage (d : SagaDefinition) : List Execution → List CallMade → Prop
  | created (id sagaType : String) (context : Context) (now : Nat) :
      Lineage d [Engine.newRow id d sagaType context now] []
  | cancelled {row : Execution} {earlier : List Execution} {calls : List CallMade} (now : Nat)
      (before : Lineage d (row :: earlier) calls)
      (active : row.status = .started ∨ row.status = .inProgress)
      (unasked : row.cancelRequested = false) :
      Lineage d ((row.marked now).replacing row :: row :: earlier) calls
  | decided {row base changed : Execution} {earlier : List Execution}
      {calls made : List CallMade} {t : Transition} (now : Nat)
      (before : Lineage d (row :: earlier) calls)
      (read : base ∈ row :: earlier) (same : base.progress = row.progress)
      (decides : Decides d base made t) (next : t.next row = .ok changed) :
      Lineage d ((changed.stamped now).replacing row :: row :: earlier) (calls ++ made)

def Execution.rank (d : SagaDefinition) (row : Execution) : Nat :=
  row.position.rank d.stepCount d.retry.maxAttempts

def Execution.asked (row : Execution) : Nat := if row.cancelRequested then 1 else 0

/-- A row comes after another one of the same execution: it has made progress, or it has the
same progress and the cancel request is new. -/
structure Follows (d : SagaDefinition) (later earlier : Execution) : Prop where
  origin : later.origin = earlier.origin
  asked : earlier.asked ≤ later.asked
  ahead : earlier.rank d < later.rank d ∨
    later.progress = earlier.progress ∧ earlier.asked < later.asked

section

variable {d : SagaDefinition} {row base changed later earlier : Execution}
  {rows : List Execution} {calls made : List CallMade} {t : Transition} {now : Nat}

theorem Execution.rank_eq_of_progress_eq (same : later.progress = earlier.progress) :
    later.rank d = earlier.rank d := by
  simp only [Execution.progress, Execution.Progress.mk.injEq] at same
  obtain ⟨status, index, retries, _⟩ := same
  rw [Execution.rank, Execution.rank, Execution.position, Execution.position, status, index,
    retries]

theorem Execution.asked_le (row : Execution) : row.asked ≤ 1 := by
  rw [Execution.asked]
  split <;> omega

namespace Follows

theorem trans {middle : Execution} (first : Follows d later middle)
    (second : Follows d middle earlier) : Follows d later earlier := by
  refine ⟨first.origin.trans second.origin, Nat.le_trans second.asked first.asked, ?_⟩
  rcases first.ahead with up | ⟨same, mark⟩
  · rcases second.ahead with up' | ⟨same', mark'⟩
    · exact .inl (Nat.lt_trans up' up)
    · exact .inl (Execution.rank_eq_of_progress_eq same' ▸ up)
  · rcases second.ahead with up' | ⟨same', mark'⟩
    · exact .inl (Execution.rank_eq_of_progress_eq same ▸ up')
    · have := later.asked_le
      omega

theorem rank_le (follows : Follows d later earlier) : earlier.rank d ≤ later.rank d := by
  rcases follows.ahead with up | ⟨same, _⟩
  · omega
  · exact Nat.le_of_eq (Execution.rank_eq_of_progress_eq same).symm

/-- Between two rows with the same progress nothing but a cancel request happened. -/
theorem asked_of_same (follows : Follows d later earlier)
    (same : later.progress = earlier.progress) :
    earlier.cancelRequested = false ∧ later.cancelRequested = true := by
  rcases follows.ahead with up | ⟨_, mark⟩
  · rw [Execution.rank_eq_of_progress_eq same] at up
    omega
  · simp only [Execution.asked] at mark
    cases h : earlier.cancelRequested <;> cases h' : later.cancelRequested <;> simp_all

theorem weight_lt (follows : Follows d later earlier) :
    earlier.rank d + earlier.asked < later.rank d + later.asked := by
  have mono := follows.asked
  rcases follows.ahead with up | ⟨same, mark⟩
  · omega
  · rw [Execution.rank_eq_of_progress_eq same]
    omega

end Follows

/-! ## Every row is well-formed -/

theorem newRow_wellFormed (d : SagaDefinition) (id sagaType : String) (context : Context)
    (now : Nat) : WellFormed d (Engine.newRow id d sagaType context now) :=
  ⟨rfl, ⟨rfl, rfl⟩, ⟨context, rfl⟩⟩

theorem WellFormed.marked (formed : WellFormed d row) (now : Nat) :
    WellFormed d ((row.marked now).replacing row) :=
  ⟨formed.steps, formed.place, formed.readable⟩

theorem Stores.wellFormed {cancelSeen : Bool} (stores : Stores d cancelSeen row made t changed)
    (formed : WellFormed d row) (now : Nat) :
    WellFormed d ((changed.stamped now).replacing row) := by
  have frame := stores.frame
  simp only [Execution.frame, Execution.Frame.mk.injEq] at frame
  exact
    { steps := frame.2.2.1.trans formed.steps
      place := stores.move.inPlace d.stepCount_pos d.attempts_pos formed.place
      readable := stores.readable }

/-- A decision on one of the rows is stored on the latest one. -/
theorem Decides.stores_of_next (decides : Decides d base made t) (fits : d.Fits)
    (formed : WellFormed d row) (readFormed : WellFormed d base)
    (same : base.progress = row.progress) (next : t.next row = .ok changed) :
    Stores d base.cancelRequested row made t changed := by
  have total : base.totalSteps = row.totalSteps := readFormed.steps.trans formed.steps.symm
  obtain ⟨stored, stores⟩ := decides.stores fits formed same total
  have unique : stored = changed := by
    have both := stores.next.symm.trans next
    exact Except.ok.inj both
  exact unique ▸ stores

namespace Lineage

theorem wellFormed (lineage : Lineage d rows calls) (fits : d.Fits) :
    ∀ row ∈ rows, WellFormed d row := by
  induction lineage with
  | created id sagaType context now =>
    intro row inside
    cases List.mem_singleton.1 inside
    exact newRow_wellFormed d id sagaType context now
  | cancelled now before active unasked ih =>
    intro row inside
    rcases List.mem_cons.1 inside with rfl | old
    · exact (ih _ List.mem_cons_self).marked now
    · exact ih row old
  | decided now before read same decides next ih =>
    intro row inside
    rcases List.mem_cons.1 inside with rfl | old
    · have formed := ih _ List.mem_cons_self
      exact (decides.stores_of_next fits formed (ih _ read) same next).wellFormed formed now
    · exact ih row old

end Lineage

/-! ## Every row follows the ones before it -/

theorem marked_follows (unasked : row.cancelRequested = false) (now : Nat) :
    Follows d ((row.marked now).replacing row) row := by
  refine ⟨rfl, ?_, .inr ⟨rfl, ?_⟩⟩ <;>
    simp [Execution.asked, Execution.marked, Execution.replacing, unasked]

theorem Stores.follows {cancelSeen : Bool} (stores : Stores d cancelSeen row made t changed)
    (formed : WellFormed d row) (now : Nat) :
    Follows d ((changed.stamped now).replacing row) row := by
  have frame := stores.frame
  simp only [Execution.frame, Execution.Frame.mk.injEq] at frame
  obtain ⟨id, sagaType, totalSteps, cancelRequested, createdAt, _⟩ := frame
  refine ⟨?_, ?_, .inl (stores.move.rank_lt formed.place)⟩
  · simp [Execution.origin, Execution.replacing, Execution.stamped, id, sagaType, totalSteps,
      createdAt]
  · simp [Execution.asked, Execution.replacing, Execution.stamped, cancelRequested]

theorem pairwise_cons_follows {new : Execution} {earlier : List Execution}
    (ordered : (row :: earlier).Pairwise (Follows d)) (follows : Follows d new row) :
    (new :: row :: earlier).Pairwise (Follows d) := by
  refine List.pairwise_cons.2 ⟨?_, ordered⟩
  intro old inside
  rcases List.mem_cons.1 inside with rfl | old'
  · exact follows
  · exact follows.trans ((List.pairwise_cons.1 ordered).1 old old')

namespace Lineage

theorem follows (lineage : Lineage d rows calls) (fits : d.Fits) :
    rows.Pairwise (Follows d) := by
  induction lineage with
  | created => exact List.pairwise_singleton _ _
  | cancelled now before active unasked ih =>
    exact pairwise_cons_follows ih (marked_follows unasked now)
  | decided now before read same decides next ih =>
    have formed := before.wellFormed fits
    have stores := decides.stores_of_next fits (formed _ List.mem_cons_self) (formed _ read)
      same next
    exact pairwise_cons_follows ih (stores.follows (formed _ List.mem_cons_self) now)

end Lineage

/-! ## Versions count the rows -/

theorem length_le_weight {earlier : List Execution}
    (ordered : (row :: earlier).Pairwise (Follows d)) :
    earlier.length ≤ row.rank d + row.asked := by
  induction earlier generalizing row with
  | nil => exact Nat.zero_le _
  | cons old earlier ih =>
    obtain ⟨above, ordered⟩ := List.pairwise_cons.1 ordered
    have up := (above old List.mem_cons_self).weight_lt
    have rest := ih ordered
    rw [List.length_cons]
    omega

/-- A row cannot be so far on that the next version would not fit into its word. -/
theorem weight_lt_word (fits : d.Fits) (formed : WellFormed d row) :
    row.rank d + row.asked + 2 < 0x10000000000000000 := by
  -- Steps and attempts fit into 31 and 32 bits, so no rank reaches 64 bits.
  have rank := row.position.rank_le formed.place
  have asked := row.asked_le
  have forward : d.stepCount * d.retry.maxAttempts ≤ (0x80000000 - 1) * (0x100000000 - 1) :=
    Nat.mul_le_mul (by have := fits.steps; omega) (by have := fits.attempts; omega)
  have backward : (d.stepCount + 1) * d.retry.maxAttempts ≤ 0x80000000 * (0x100000000 - 1) :=
    Nat.mul_le_mul (by have := fits.steps; omega) (by have := fits.attempts; omega)
  rw [Execution.rank]
  omega

namespace Lineage

theorem ne_nil (lineage : Lineage d rows calls) : rows ≠ [] := by
  cases lineage <;> exact List.cons_ne_nil _ _

theorem dropLatest (lineage : Lineage d (later :: row :: rows) calls) :
    ∃ calls, Lineage d (row :: rows) calls := by
  cases lineage with
  | cancelled now before => exact ⟨_, before⟩
  | decided now before => exact ⟨_, before⟩

theorem suffix {newer : List Execution} (lineage : Lineage d (newer ++ row :: rows) calls) :
    ∃ calls, Lineage d (row :: rows) calls := by
  induction newer generalizing calls with
  | nil => exact ⟨calls, lineage⟩
  | cons first newer ih =>
    cases newer with
    | nil => exact lineage.dropLatest
    | cons second newer =>
      obtain ⟨calls, before⟩ := dropLatest (List.cons_append ▸ lineage)
      exact ih before

theorem version_head (lineage : Lineage d rows calls) (fits : d.Fits) :
    ∀ row ∈ rows.head?, row.version = rows.length := by
  have next (row : Execution) (earlier : List Execution) (calls : List CallMade)
      (before : Lineage d (row :: earlier) calls) (version : row.version = earlier.length + 1) :
      wrapWord64 (row.version + 1) = earlier.length + 2 := by
    have long := length_le_weight (before.follows fits)
    have room := weight_lt_word fits (before.wellFormed fits row List.mem_cons_self)
    rw [wrapWord64]
    omega
  induction lineage with
  | created =>
    intro row isHead
    cases isHead
    rfl
  | cancelled now before active unasked ih =>
    intro row isHead
    cases isHead
    exact next _ _ _ before (ih _ rfl)
  | decided now before read same decides stored ih =>
    intro row isHead
    cases isHead
    exact next _ _ _ before (ih _ rfl)

/-- The version of a row is its place among the committed rows. -/
theorem version_eq {newer : List Execution} (lineage : Lineage d (newer ++ row :: rows) calls)
    (fits : d.Fits) : row.version = rows.length + 1 := by
  obtain ⟨calls, before⟩ := lineage.suffix
  exact before.version_head fits row rfl

theorem eq_of_version_eq (lineage : Lineage d rows calls) (fits : d.Fits)
    (memRow : row ∈ rows) (memBase : base ∈ rows) (version : row.version = base.version) :
    row = base := by
  obtain ⟨newer, older, rfl⟩ := List.append_of_mem memRow
  obtain ⟨newer', older', split⟩ := List.append_of_mem memBase
  have place := lineage.version_eq fits
  have place' := (split ▸ lineage).version_eq fits
  have lengths : older.length = older'.length := by omega
  have suffixes : (row :: older) = base :: older' := by
    exact (List.append_inj' split (by simp [lengths])).2
  exact (List.cons.inj suffixes).1

end Lineage

end

end SagaEngine
