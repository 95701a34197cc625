import SagaEngine.Proofs.VersionedRows
import SagaEngine.Store.ExecutionTable
/-!
# Executions in a table

A table keeps executions in an encoding of its own. Rows that survive it, as long as
their texts and numbers fit, are found, changed and listed there as in a map of the
rows themselves. Main statements: `TableRow.toExecution_ofExecution` for one row, and
`RowMap.table_insert`, `RowMap.table_changeIf` and `RowMap.table_oldest` for the
statements on a table.
-/

namespace SagaEngine

/-! ## A dictionary of encoded values -/

namespace Dictionary

variable {β : Type u} {γ : Type v}

/-- The same keys with other values. -/
def map (d : Dictionary β) (f : β → γ) : Dictionary γ :=
  ⟨d.entries.map fun e => (e.1, f e.2), List.pairwise_map.2 d.ascending⟩

theorem get?_map (d : Dictionary β) (f : β → γ) (x : String) :
    (d.map f).get? x = (d.get? x).map f := by
  simp only [get?, map, List.find?_map, Option.map_map]
  rfl

theorem values_map (d : Dictionary β) (f : β → γ) : (d.map f).values = d.values.map f := by
  simp only [values, map, List.map_map]
  rfl

theorem map_insert (d : Dictionary β) (f : β → γ) (x : String) (value : β) :
    (d.insert x value).map f = (d.map f).insert x (f value) := by
  apply ext_get?
  intro y
  rw [get?_map, get?_insert, get?_insert, get?_map]
  split <;> rfl

end Dictionary

/-! ## Rows that survive the encoding -/

/-- The texts of a row have no zero code and its numbers fit into the words of the table. -/
structure Execution.Storable (row : Execution) : Prop where
  texts : ∀ s ∈ [row.id, row.sagaType, row.context, row.lastError, row.failedStep,
    row.failureReason], '\x00' ∉ s.toList
  steps : ∀ n ∈ [row.stepIndex, row.totalSteps], -0x80000000 ≤ n ∧ n < 0x80000000
  retries : row.retryCount < 0x100000000
  times : ∀ n ∈ [row.createdAt, row.updatedAt, row.completedAt], n < 0x8000000000000000
  version : row.version < 0x8000000000000000

instance (row : Execution) : Decidable row.Storable :=
  decidable_of_iff
    ((∀ s ∈ [row.id, row.sagaType, row.context, row.lastError, row.failedStep,
        row.failureReason], '\x00' ∉ s.toList) ∧
      (∀ n ∈ [row.stepIndex, row.totalSteps], -0x80000000 ≤ n ∧ n < 0x80000000) ∧
      row.retryCount < 0x100000000 ∧
      (∀ n ∈ [row.createdAt, row.updatedAt, row.completedAt], n < 0x8000000000000000) ∧
      row.version < 0x8000000000000000)
    ⟨fun ⟨texts, steps, retries, times, version⟩ => ⟨texts, steps, retries, times, version⟩,
      fun ⟨texts, steps, retries, times, version⟩ => ⟨texts, steps, retries, times, version⟩⟩

/-- A limit is an unsigned word, and there are no more rows than signed words can count if it is
none of these. -/
def Limitable (limit count : Nat) : Prop :=
  limit < 0x8000000000000000 ∨ limit < 0x10000000000000000 ∧ count < 0x8000000000000000

instance (limit count : Nat) : Decidable (Limitable limit count) :=
  inferInstanceAs (Decidable (_ ∨ _))

theorem Limitable.mono {limit count fewer : Nat} (room : Limitable limit count)
    (le : fewer ≤ count) : Limitable limit fewer := by
  rw [Limitable] at *
  omega

namespace TableRow

variable {row old : Execution}

theorem text_eq {s : String} (plain : '\x00' ∉ s.toList) : text s = s :=
  (untilZero_eq_self_iff s).2 plain

/-- The encoding of a row without its cuts. -/
theorem ofExecution_eq (storable : row.Storable) :
    ofExecution row =
      { id := row.id
        sagaType := row.sagaType
        status := row.status.name
        stepIndex := row.stepIndex
        totalSteps := row.totalSteps
        context := row.context
        retryCount := wrapSigned32 row.retryCount
        lastError := row.lastError
        failedStep := row.failedStep
        failureReason := row.failureReason
        cancelRequested := row.cancelRequested
        createdAt := row.createdAt
        updatedAt := row.updatedAt
        completedAt := row.completedAt
        version := row.version } := by
  have texts := fun s inside => text_eq (storable.texts s inside)
  have steps := fun n inside => wrapSigned32_of_inRange (storable.steps n inside).1
    (storable.steps n inside).2
  have times := fun n inside => wrapSigned64_of_lt (storable.times n inside)
  simp only [List.forall_mem_cons, List.not_mem_nil, false_implies, implies_true, and_true]
    at texts steps times
  simp only [ofExecution, texts, steps, times, wrapSigned64_of_lt storable.version]

/-- A row comes back as it was stored. -/
theorem toExecution_ofExecution (storable : row.Storable) :
    (ofExecution row).toExecution = .ok row := by
  have retries : wrapWord32 (wrapSigned32 row.retryCount) = row.retryCount :=
    (wrapWord32_wrapSigned32 _).trans (wrapWord32_of_inRange storable.retries)
  have word {n : Nat} (small : n < 0x8000000000000000) : wrapWord64 n = n :=
    wrapWord64_of_inRange (by omega)
  have times := fun n inside => word (storable.times n inside)
  have capped : min (row.version : Int) maxWord = row.version := by
    have small := storable.version
    rw [maxWord]
    omega
  simp only [List.forall_mem_cons, List.not_mem_nil, false_implies, implies_true, and_true] at times
  rw [ofExecution_eq storable]
  simp only [toExecution, Status.ofName?_name, retries, times, capped, word storable.version]

/-- A change of a row that keeps its origin comes to the row with the next version. -/
theorem change_ofExecution {new : Execution} (storable : old.Storable) (storable' : new.Storable)
    (origin : new.origin = old.origin) (next : new.version = old.version + 1) (version : Nat) :
    (ofExecution old).change (ofExecution { new with version }) = ofExecution new := by
  simp only [Execution.origin, Execution.Origin.mk.injEq] at origin
  obtain ⟨id, sagaType, totalSteps, createdAt⟩ := origin
  -- all that a change takes from the old row is its origin and its version
  have others : (ofExecution old).change (ofExecution { new with version }) =
      { ofExecution new with
        id := (ofExecution old).id
        sagaType := (ofExecution old).sagaType
        totalSteps := (ofExecution old).totalSteps
        createdAt := (ofExecution old).createdAt
        version := (ofExecution old).version + 1 } := rfl
  rw [others, ofExecution_eq storable', ofExecution_eq storable, id, sagaType, totalSteps,
    createdAt, next, Int.natCast_add, Int.natCast_one]

/-- No two statuses share a name. -/
theorem status_mem_names {statuses : List Status} :
    (ofExecution row).status ∈ statuses.map Status.name ↔ row.status ∈ statuses := by
  have injective : Function.Injective Status.name := by
    intro s t same
    rw [← Option.some.injEq, ← Status.ofName?_name, same, Status.ofName?_name]
  exact List.mem_map_of_injective injective

theorem isOlder_ofExecution (storable : row.Storable) (storable' : old.Storable) :
    (ofExecution row).isOlder (ofExecution old) = row.isOlder old := by
  rw [ofExecution_eq storable, ofExecution_eq storable']
  simp only [isOlder, Execution.isOlder, Int.natCast_inj, Int.ofNat_lt]

/-- A limit that is read as no limit is not reached either. -/
theorem oldest_eq {rows : List TableRow} {limit : Nat} (room : Limitable limit rows.length) :
    oldest rows limit = (rows.mergeSort isOlder).take limit := by
  rw [oldest]
  by_cases small : limit < 0x8000000000000000
  · rw [wrapSigned64_of_lt small, if_neg (by omega)]
    rfl
  · -- as a signed word the limit is negative, and then every row is wanted
    obtain ⟨word, few⟩ := room.resolve_left small
    have negative : wrapSigned64 limit < 0 := by
      rw [wrapSigned64, Int.bmod_def]
      omega
    rw [if_pos negative, List.take_of_length_le (by rw [List.length_mergeSort]; omega)]

theorem mapM_toExecution {rows : List Execution} (storable : ∀ row ∈ rows, row.Storable) :
    (rows.map ofExecution).mapM toExecution = .ok rows := by
  induction rows with
  | nil => rfl
  | cons row rows ih =>
    obtain ⟨first, others⟩ := List.forall_mem_cons.1 storable
    rw [List.map_cons, List.mapM_cons, toExecution_ofExecution first, ih others]
    rfl

end TableRow

/-! ## The statements on a table -/

/-- What a write hands to the table survives the encoding, and an update that is accepted keeps
the origin of its row. -/
structure RowWrite.Fits (w : RowWrite) (rows : RowMap) : Prop where
  id : '\x00' ∉ w.id.toList
  base : ∀ expected ∈ w.base, expected < 0x8000000000000000
  stored : w.declined? rows = none →
    w.row.Storable ∧ ∀ old ∈ rows.get? w.id, w.row.origin = old.origin

/-- The version that an update stores is the next one. -/
theorem RowWrite.Fits.version_eq {row : Execution} {expected : Nat} {rows : RowMap}
    (fits : (RowWrite.update row expected).Fits rows) :
    (RowWrite.update row expected).row.version = expected + 1 := by
  have small : expected < 0x8000000000000000 := fits.base expected rfl
  exact wrapWord64_of_inRange (n := expected + 1) (by omega)

instance (w : RowWrite) (rows : RowMap) : Decidable (w.Fits rows) :=
  decidable_of_iff
    ('\x00' ∉ w.id.toList ∧ (∀ expected ∈ w.base, expected < 0x8000000000000000) ∧
      (w.declined? rows = none →
        w.row.Storable ∧ ∀ old ∈ rows.get? w.id, w.row.origin = old.origin))
    ⟨fun ⟨id, base, stored⟩ => ⟨id, base, stored⟩, fun ⟨id, base, stored⟩ => ⟨id, base, stored⟩⟩

namespace RowMap

variable {rows : RowMap} {row : Execution} {x : String} {w : RowWrite}

/-- Every row stands under its id and survives the encoding. -/
structure Storable (rows : RowMap) : Prop where
  keyed : rows.Keyed
  each : ∀ x row, rows.get? x = some row → row.Storable

/-- The table in which some rows are kept. -/
def table (rows : RowMap) : ExecutionTable := { rows := rows.map TableRow.ofExecution }

theorem storable_empty : Storable Dictionary.empty := ⟨keyed_empty, fun _ _ found => nomatch found⟩

theorem Storable.write (storable : rows.Storable) (fits : w.Fits rows) :
    (rows.write w).Storable := by
  rw [RowMap.write]
  split
  · rename_i accepted
    refine ⟨storable.keyed.put, ?_⟩
    intro x row found
    rw [get?_put] at found
    split at found
    · cases found
      exact (fits.stored accepted).1
    · exact storable.each x row found
  · exact storable

theorem get?_table (rows : RowMap) (x : String) :
    rows.table.rows.get? x = (rows.get? x).map TableRow.ofExecution := rows.get?_map _ x

theorem table_put (rows : RowMap) (w : RowWrite) :
    (rows.put w).table = { rows := rows.table.rows.insert w.id (.ofExecution w.row) } :=
  congrArg (fun rows => { rows : ExecutionTable }) (rows.map_insert _ w.id w.row)

/-- An insert finds the id taken or adds the row. -/
theorem table_insert (plain : '\x00' ∉ row.id.toList) :
    rows.table.insert (.ofExecution row) =
      match rows.get? row.id with
      | some _ => .error .uniqueId
      | none => .ok (rows.put (.insert row)).table := by
  have id : (TableRow.ofExecution row).id = row.id := TableRow.text_eq plain
  have bar : rows.table.shape.insertBar = none := rfl
  rw [ExecutionTable.insert, bar, Dictionary.contains, id, get?_table, table_put]
  cases rows.get? row.id <;> rfl

/-- An update changes the row that has the expected version, or nothing. -/
theorem table_changeIf {expected : Nat} (storable : rows.Storable)
    (fits : (RowWrite.update row expected).Fits rows) :
    rows.table.changeIf (TableRow.ofExecution row).id
        (fun old => old.version = wrapSigned64 expected)
        (fun old => old.change (.ofExecution row)) =
      .ok (match (RowWrite.update row expected).declined? rows with
        | some _ => none
        | none => some (rows.put (.update row expected)).table) := by
  have next := fits.version_eq
  obtain ⟨plain, room, fits⟩ := fits
  have id : (TableRow.ofExecution row).id = row.id := TableRow.text_eq plain
  have room : expected < 0x8000000000000000 := room expected rfl
  have shown : (RowWrite.update row expected).declined? rows =
      (RowWrite.update row expected).declinedBy? (rows.get? row.id) := rfl
  have same : (RowWrite.update row expected).id = row.id := rfl
  rw [shown] at fits ⊢
  rw [same] at fits
  rw [ExecutionTable.changeIf, id, get?_table]
  cases found : rows.get? row.id with
  | none => rfl
  | some old =>
    rw [found] at fits
    have survives := storable.each _ _ found
    have version : (TableRow.ofExecution old).version = old.version :=
      congrArg TableRow.version (TableRow.ofExecution_eq survives)
    have bar : rows.table.shape.updateBar = none := rfl
    by_cases current : old.version = expected
    · have accepted : (RowWrite.update row expected).declinedBy? (some old) = none := if_pos current
      obtain ⟨survives', origin⟩ := fits accepted
      have changed : (TableRow.ofExecution old).change (.ofExecution row) =
          .ofExecution (RowWrite.update row expected).row :=
        TableRow.change_ofExecution survives survives' (origin old rfl) (by rw [next, current])
          row.version
      have changes :
          decide ((TableRow.ofExecution old).version = wrapSigned64 expected) = true := by
        rw [version, wrapSigned64_of_lt room, current, decide_eq_true rfl]
      simp only [Option.map_some, changes, bar, accepted, changed, Bool.not_true,
        Bool.false_eq_true, if_false]
      rw [table_put]
      rfl
    · have declined : (RowWrite.update row expected).declinedBy? (some old) = some .conflict :=
        if_neg current
      have stays :
          decide ((TableRow.ofExecution old).version = wrapSigned64 expected) = false := by
        rw [version, wrapSigned64_of_lt room, decide_eq_false_iff_not, Int.natCast_inj]
        exact current
      simp only [Option.map_some, stays, declined, Bool.not_false, if_true]

/-- The table gives the rows of a listing in the same order. -/
theorem table_oldest {condition : Execution → Bool} {condition' : TableRow → Bool} {limit : Nat}
    (storable : rows.Storable)
    (same : ∀ row : Execution, row.Storable → condition' (.ofExecution row) = condition row)
    (room : Limitable limit rows.size) :
    (TableRow.oldest (rows.table.rows.values.filter condition') limit).mapM TableRow.toExecution =
      .ok (rows.oldest condition limit) := by
  have each : ∀ row ∈ rows.values.filter condition, row.Storable := fun row inside =>
    storable.each _ _ ((mem_values storable.keyed).1 (List.mem_of_mem_filter inside))
  have kept : rows.table.rows.values.filter condition' =
      (rows.values.filter condition).map TableRow.ofExecution := by
    have values : rows.table.rows.values = rows.values.map TableRow.ofExecution :=
      rows.values_map _
    rw [values, List.filter_map]
    refine congrArg _ (List.filter_congr fun row inside => same row ?_)
    exact storable.each _ _ ((mem_values storable.keyed).1 inside)
  have sorted : ((rows.values.filter condition).map TableRow.ofExecution).mergeSort
      TableRow.isOlder =
        (Execution.oldestFirst (rows.values.filter condition)).map TableRow.ofExecution := by
    refine (List.map_mergeSort ?_).symm
    intro a inside b inside'
    exact (TableRow.isOlder_ofExecution (each a inside) (each b inside')).symm
  have few : ((rows.values.filter condition).map TableRow.ofExecution).length ≤ rows.size := by
    rw [List.length_map]
    exact Nat.le_trans (List.length_filter_le _ _) (Nat.le_of_eq (List.length_map _))
  rw [kept, TableRow.oldest_eq (room.mono few), sorted, ← List.map_take]
  apply TableRow.mapM_toExecution
  intro row inside
  exact each row ((List.mergeSort_perm _ _).subset (List.mem_of_mem_take inside))

end RowMap

/-- What a question hands to the table survives the encoding. -/
def RowQuery.Fits (q : RowQuery) (rows : RowMap) : Prop :=
  match q with
  | .find x => '\x00' ∉ x.toList
  | .inStatus _ limit => Limitable limit rows.size
  | .stale q => q.updatedBefore < 0x8000000000000000 ∧ Limitable q.limit rows.size

instance (q : RowQuery) (rows : RowMap) : Decidable (q.Fits rows) :=
  match q with
  | .find x => inferInstanceAs (Decidable ('\x00' ∉ x.toList))
  | .inStatus _ limit => inferInstanceAs (Decidable (Limitable limit rows.size))
  | .stale q => inferInstanceAs (Decidable (q.updatedBefore < 0x8000000000000000 ∧ _))

end SagaEngine
