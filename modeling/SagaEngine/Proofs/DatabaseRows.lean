import SagaEngine.Proofs.DatabaseSession
import SagaEngine.Proofs.TableStore
/-!
# The rows that a transaction of a database sees

Inside a transaction of a database the four kinds of statement are answered as a map
of rows would answer them, and leave the table of that map. Main statements:
`Inside.insert`, `Inside.update`, `Inside.find?` and `Inside.list`.
-/

namespace SagaEngine.Database

variable {d : Database} {c tx : Nat} {committed rows : RowMap} {row : Execution}

theorem Inside.insert (inside : d.Inside c tx committed.table rows.table)
    (fits : (RowWrite.insert row).Fits rows) :
    ∃ answer d', d.insert tx row = (answer, d') ∧
      ((answer.mapError Refusal.code).map fun _ => row.version) =
        (RowWrite.insert row).answer rows ∧
      d'.Inside c tx committed.table (rows.write (.insert row)).table := by
  obtain ⟨d', inside', written⟩ := inside.write_eq fun table =>
    (table.insert (.ofExecution row)).map fun changed => (TableChange.replaced changed, ())
  have inserted : rows.table.insert (.ofExecution row) = _ := RowMap.table_insert fits.id
  have shown : (RowWrite.insert row).declined? rows =
      (RowWrite.insert row).declinedBy? (rows.get? row.id) := rfl
  rw [inserted] at written
  rw [Database.insert, inside.connectionOf, written, RowWrite.answer, RowMap.write, shown]
  cases rows.get? row.id with
  | some stored => exact ⟨_, _, rfl, rfl, inside'⟩
  | none => exact ⟨_, _, rfl, rfl, inside'.carryOut rfl⟩

theorem Inside.find? (inside : d.Inside c tx committed.table rows.table)
    (storable : rows.Storable) {x : String} (plain : '\x00' ∉ x.toList) :
    ∃ d', d.find? tx x = (.ok (rows.get? x), d') ∧
      d'.Inside c tx committed.table rows.table := by
  obtain ⟨d', inside', answered⟩ : ∃ d', d'.Inside c tx committed.table rows.table ∧
      d.find? tx x = (_, d') := by
    rw [Database.find?, inside.connectionOf]
    exact inside.read_eq _ _ _
  refine ⟨d', ?_, inside'⟩
  rw [answered, TableRow.text_eq plain, RowMap.get?_table]
  cases found : rows.get? x with
  | none => rfl
  | some row =>
    simp only [Option.map_some, TableRow.toExecution_ofExecution (storable.each _ _ found)]
    rfl

theorem Inside.update {expected : Nat} (inside : d.Inside c tx committed.table rows.table)
    (storable : rows.Storable) (fits : (RowWrite.update row expected).Fits rows) :
    ∃ answer d', d.update tx row expected = (.ok answer, d') ∧
      answer.mapError Refusal.code = (RowWrite.update row expected).answer rows ∧
      d'.Inside c tx committed.table (rows.write (.update row expected)).table := by
  obtain ⟨d', inside', written⟩ := inside.write_eq fun table =>
    (table.changeIf (TableRow.ofExecution row).id (fun old => old.version = wrapSigned64 expected)
      (fun old => old.change (.ofExecution row))).map fun changed =>
        (TableChange.ofOption changed, changed.isSome)
  rw [RowMap.table_changeIf storable fits] at written
  have shown : (RowWrite.update row expected).declined? rows =
      (RowWrite.update row expected).declinedBy? (rows.get? row.id) := rfl
  rw [Database.update, inside.connectionOf, RowWrite.answer, RowMap.write]
  cases declined : (RowWrite.update row expected).declined? rows with
  | none =>
    rw [declined] at written
    rw [written]
    exact ⟨_, _, rfl, rfl, inside'.carryOut rfl⟩
  | some code =>
    -- nothing was changed: a second look tells a missing row from one that moved past
    obtain ⟨d'', looked, inside''⟩ := inside'.find? storable fits.id
    have looked : d'.find? tx row.id = (.ok (rows.get? row.id), d'') := looked
    rw [declined] at written
    have unchanged : _ = ((.ok false, d') : Except SqlFault Bool × Database) := written
    rw [unchanged]
    rw [shown] at declined
    cases found : rows.get? row.id with
    | none =>
      rw [found] at declined looked
      cases declined
      exact ⟨.error (.missing row.id), d'', by simp only [looked], rfl, inside''⟩
    | some old =>
      rw [found] at declined looked
      simp only [RowWrite.declinedBy?] at declined
      split at declined
      · cases declined
      · cases declined
        exact ⟨.error (.movedPast row.id expected), d'', by simp only [looked], rfl, inside''⟩

/-- A listing gives the rows that satisfy a condition, whatever table they are kept in. -/
theorem Inside.list (inside : d.Inside c tx committed.table rows.table) (storable : rows.Storable)
    {statuses : List Status} {condition : Execution → Bool} {condition' : TableRow → Bool}
    {limit : Nat} (same : ∀ row : Execution, row.Storable →
      (row.status ∈ statuses && condition' (.ofExecution row)) = condition row)
    (room : Limitable limit rows.size) :
    ∃ d', d.list tx statuses condition' limit = (.ok (rows.oldest condition limit), d') ∧
      d'.Inside c tx committed.table rows.table := by
  obtain ⟨d', inside', answered⟩ : ∃ d', d'.Inside c tx committed.table rows.table ∧
      d.list tx statuses condition' limit = (_, d') := by
    rw [Database.list, inside.connectionOf]
    exact inside.read_eq _ _ _
  refine ⟨d', ?_, inside'⟩
  rw [answered, RowMap.table_oldest storable ?_ room]
  intro row storable
  simp only [TableRow.status_mem_names, same row storable]

theorem Inside.listByStatus (inside : d.Inside c tx committed.table rows.table)
    (storable : rows.Storable) {status : Status} {limit : Nat}
    (fits : (RowQuery.inStatus status limit).Fits rows) :
    ∃ d', d.listByStatus tx status limit =
        (.ok ((RowQuery.inStatus status limit).answer rows), d') ∧
      d'.Inside c tx committed.table rows.table := by
  refine inside.list storable (fun row _ => ?_) fits
  simp

theorem Inside.listStale (inside : d.Inside c tx committed.table rows.table)
    (storable : rows.Storable) {q : StaleQuery} (fits : (RowQuery.stale q).Fits rows) :
    ∃ d', d.listStale tx q = (.ok ((RowQuery.stale q).answer rows), d') ∧
      d'.Inside c tx committed.table rows.table := by
  obtain ⟨before, room⟩ := fits
  rw [Database.listStale]
  cases unasked : q.statuses.isEmpty with
  | true =>
    have nothing : (RowQuery.stale q).answer rows = [] := by
      simp [RowQuery.answer, RowMap.oldest, Execution.oldestFirst, List.isEmpty_iff.1 unasked]
    exact ⟨d, by rw [nothing]; rfl, inside⟩
  | false =>
    refine inside.list storable (fun row storable => ?_) room
    have updated : (TableRow.ofExecution row).updatedAt = row.updatedAt :=
      congrArg TableRow.updatedAt (TableRow.ofExecution_eq storable)
    simp only [updated, wrapSigned64_of_lt before, Int.ofNat_lt, Bool.and_comm]

end SagaEngine.Database
