import SagaEngine.Proofs.SharedTable
/-!
# One writer on a shared file

Others write to the file as long as the writer has no transaction under way, and wait from its
begin on until its commit. So what it has read in a transaction is still so at the commit. Main
statements: `Holds.intruded`, `Holds.update`, `Holds.connect` and `Sharing.inDatabase`.
-/

namespace SagaEngine

namespace Database

variable {d d' : Database} {b c tx : Nat} {table now : ExecutionTable}

/-- A row that the table keeps under a name has that flag. -/
def Flags (now : ExecutionTable) (x : String) (row : Execution) : Prop :=
  ∃ kept, now.rows.get? (TableRow.text x) = some kept ∧ kept.cancelRequested = row.cancelRequested

/-- What is known of a file and of a connection at a stage of one writer on it. -/
def Holds (c : Nat) (d : Database) : Hold → Prop
  | .free => ∃ table, d.Shared c table ∧ d.writer = none
  | .fresh tx => ∃ table, d.Shared c table ∧ d.Inside c tx table table ∧ tx < d.sessions.next
  | .wrote tx x row n => ∃ table now, d.Shared c table ∧ d.Inside c tx table now ∧
      tx < d.sessions.next ∧ now.Legible ∧ Flags now x row ∧
      HasVersion ((Store.database d c).row? x) n
  | .ended tx => ∃ table, d.Shared c table ∧ d.writer = none ∧ tx < d.sessions.next ∧
      d.sessions.get? tx = some ⟨c, true⟩

theorem Holds.intruded {h : Hold} (holds : d.Holds c h) (i : Intrusion) :
    ∃ d', (Store.database d c).intruded i = .database d' c ∧ d'.Holds c h := by
  -- with the file free the intrusion is carried out, and otherwise it waits
  have waits (inside : ∃ tx table now, d.Inside c tx table now) :
      ∃ d', (Store.database d c).intruded i = .database d' c ∧ d'.Holds c h := by
    obtain ⟨tx, table, now, inside⟩ := inside
    exact ⟨d, inside.refuses i, holds⟩
  have enters {table : ExecutionTable} (shared : d.Shared c table) (free : d.writer = none) :
      ∃ d' table', (Store.database d c).intruded i = .database d' c ∧ d'.Shared c table' ∧
        d'.writer = none ∧ d.sessions.next ≤ d'.sessions.next ∧
        ∀ tx, tx < d.sessions.next → d'.sessions.get? tx = d.sessions.get? tx := by
    by_cases admitted : (Store.database d c).admits i.connection
    · have opened : (d.connections.get? i.connection).isSome :=
        (Bool.and_eq_true_iff.1 admitted).1
      obtain ⟨d', table', performed, shared, free, beside⟩ := shared.perform free opened i.work
      refine ⟨d', table', ?_, shared, free, beside.next, fun tx old =>
        beside.sessions tx (Nat.ne_of_lt old)⟩
      rw [Store.intruded, if_pos admitted]
      simp only [performed, Store.through]
    · exact ⟨d, table, if_neg admitted, shared, free, Nat.le_refl _, fun _ _ => rfl⟩
  cases h with
  | free =>
    obtain ⟨table, shared, free⟩ := holds
    obtain ⟨d', table', intruded, shared, free, -⟩ := enters shared free
    exact ⟨d', intruded, table', shared, free⟩
  | fresh tx =>
    obtain ⟨table, -, inside, -⟩ := holds
    exact waits ⟨tx, table, table, inside⟩
  | wrote tx x row n =>
    obtain ⟨table, now, -, inside, -⟩ := holds
    exact waits ⟨tx, table, now, inside⟩
  | ended tx =>
    obtain ⟨table, shared, free, old, session⟩ := holds
    obtain ⟨d', table', intruded, shared, free, next, same⟩ := enters shared free
    exact ⟨d', intruded, table', shared, free, Nat.lt_of_lt_of_le old next,
      (same tx old).trans session⟩

theorem Holds.begin (holds : d.Holds c .free) :
    ∃ tx d', d.begin c = (.ok tx, d') ∧ d'.committed = d.committed ∧ d'.Holds c (.fresh tx) := by
  obtain ⟨table, shared, free⟩ := holds
  obtain ⟨tx, d', begun, inside⟩ := (shared.idle free shared.present).begin
  obtain ⟨beside, next⟩ := d.begin_beside c
  rw [begun] at beside next
  refine ⟨tx, d', begun, inside.committed.trans shared.committed.symm, table, ?_, inside, ?_⟩
  · exact shared.beside beside inside.toServes shared.plain shared.legible
  · exact (next tx rfl).2 ▸ Nat.lt_succ_self tx

theorem Shared.row? (shared : d.Shared c table) (x : String) :
    (Store.database d c).row? x =
      (table.rows.get? (TableRow.text x)).bind fun row => row.toExecution.toOption := by
  rw [Store.row?, shared.committed]
  rfl

theorem toExecution_of_legible (legible : table.Legible) {id : String} {row : TableRow}
    (found : table.rows.get? id = some row) :
    ∃ e, row.toExecution = .ok e ∧ e.id = id ∧ e.cancelRequested = row.cancelRequested ∧
      e.version = wrapWord64 (min row.version TableRow.maxWord) := by
  obtain ⟨named, ⟨status, known⟩, -⟩ := legible id row found
  rw [TableRow.toExecution, known]
  exact ⟨_, rfl, named, rfl, rfl⟩

theorem row?_congr (committed : d'.committed = d.committed) (x : String) :
    (Store.database d' c).row? x = (Store.database d c).row? x := by
  rw [Store.row?, Store.row?, committed]

theorem Holds.find? (holds : d.Holds c (.fresh tx)) (x : String) :
    (∀ row, (Store.database d c).row? x = some row →
        row.id = TableRow.text x ∧ row.version < 0x10000000000000000) ∧
      ∃ d', d.find? tx x = (.ok ((Store.database d c).row? x), d') ∧
        d'.committed = d.committed ∧ d'.Holds c (.fresh tx) := by
  obtain ⟨table, shared, inside, old⟩ := holds
  obtain ⟨d', looked, inside', beside⟩ := inside.find_beside x
  have committed : d'.committed = d.committed := inside'.committed.trans shared.committed.symm
  have holds' : d'.Holds c (.fresh tx) := ⟨table,
    shared.beside beside inside'.toServes shared.plain shared.legible, inside',
    Nat.lt_of_lt_of_le old beside.next⟩
  rw [shared.row?]
  cases found : table.rows.get? (TableRow.text x) with
  | none =>
    rw [found] at looked
    exact ⟨nofun, d', looked, committed, holds'⟩
  | some row =>
    obtain ⟨e, read, named, -, version⟩ := toExecution_of_legible shared.legible found
    have decoded : ((some row).bind fun row => row.toExecution.toOption) = some e := by
      rw [Option.bind_some, read]
      rfl
    rw [found] at looked
    simp only [read] at looked
    rw [decoded]
    refine ⟨?_, d', looked, committed, holds'⟩
    rintro _ ⟨⟩
    refine ⟨named, ?_⟩
    rw [version, wrapWord64]
    omega

/-- Below the largest word a version is read as it is compared. -/
theorem version_eq_iff {version : Int} {n : Nat} (low : -0x8000000000000000 ≤ version)
    (high : version ≤ TableRow.maxWord) (small : n < 0x10000000000000000) :
    wrapWord64 (min version TableRow.maxWord) = n ↔ version = wrapSigned64 n := by
  rw [TableRow.maxWord] at *
  rw [wrapWord64, wrapSigned64, Int.bmod_def, Int.min_eq_left high]
  constructor
  · intro same
    split <;> omega
  · intro same
    split at same <;> omega

theorem Shared.has_iff (shared : d.Shared c table) {x : String} {n : Nat} {row : TableRow}
    (found : table.rows.get? (TableRow.text x) = some row) (small : n < 0x10000000000000000)
    (counted : (Store.database d c).Counted x) :
    HasVersion ((Store.database d c).row? x) n ↔ row.version = wrapSigned64 n := by
  obtain ⟨e, read, -, -, version⟩ := toExecution_of_legible shared.legible found
  have shown : (Store.database d c).row? x = some e := by
    rw [shared.row?, found, Option.bind_some, read]
    rfl
  have low := (shared.legible _ row found).2.2
  have high := counted table shared.committed row found
  rw [← version_eq_iff low high small, ← version]
  constructor
  · intro ⟨e', shown', same⟩
    cases shown.symm.trans shown'
    exact same
  · intro same
    exact ⟨e, shown, same⟩

theorem Inside.update_done {row : Execution} {n : Nat} {kept : TableRow}
    (inside : d.Inside c tx table now) (plain : now.shape = {})
    (found : now.rows.get? (TableRow.ofExecution row).id = some kept)
    (same : kept.version = wrapSigned64 n) :
    ∃ d', d.update tx row n = (.ok (.ok (wrapWord64 (n + 1))), d') ∧
      d'.Inside c tx table { now with
        rows := now.rows.insert (TableRow.ofExecution row).id
          (kept.change (.ofExecution row)) } := by
  obtain ⟨d₁, inside₁, written⟩ := inside.write_eq fun table : ExecutionTable =>
    (table.changeIf (TableRow.ofExecution row).id (fun old => old.version = wrapSigned64 n)
      (fun old => old.change (.ofExecution row))).map fun changed =>
        (TableChange.ofOption changed, changed.isSome)
  rw [ExecutionTable.changeIf_done plain found (decide_eq_true same)] at written
  rw [Database.update, inside.connectionOf, written]
  exact ⟨_, rfl, inside₁.carryOut inside.shape⟩

theorem Inside.update_declined {row : Execution} {n : Nat} (inside : d.Inside c tx table now)
    (legible : now.Legible)
    (fails : ∀ kept, now.rows.get? (TableRow.ofExecution row).id = some kept →
      kept.version ≠ wrapSigned64 n) :
    ∃ refusal d', d.update tx row n = (.ok (.error refusal), d') ∧ d'.Inside c tx table now ∧
      refusal.code = if now.rows.get? (TableRow.ofExecution row).id = none then .notFound
        else .conflict := by
  obtain ⟨d₁, inside₁, written⟩ := inside.write_eq fun table : ExecutionTable =>
    (table.changeIf (TableRow.ofExecution row).id (fun old => old.version = wrapSigned64 n)
      (fun old => old.change (.ofExecution row))).map fun changed =>
        (TableChange.ofOption changed, changed.isSome)
  rw [ExecutionTable.changeIf_stays fun kept found => decide_eq_false (fails kept found)] at written
  have unchanged : _ = ((.ok false, d₁) : Except SqlFault Bool × Database) := written
  obtain ⟨d₂, looked, inside₂, -⟩ := inside₁.find_beside row.id
  have key : (TableRow.ofExecution row).id = TableRow.text row.id := rfl
  rw [Database.update, inside.connectionOf, unchanged]
  dsimp only
  rw [key]
  cases found : now.rows.get? (TableRow.text row.id) with
  | none =>
    rw [found] at looked
    rw [looked]
    exact ⟨.missing row.id, d₂, rfl, inside₂, rfl⟩
  | some kept =>
    obtain ⟨e, read, -⟩ := toExecution_of_legible legible found
    rw [found] at looked
    simp only [read] at looked
    rw [looked]
    exact ⟨.movedPast row.id n, d₂, rfl, inside₂, rfl⟩

theorem Shared.declines (shared : d.Shared c table) {x : String} {n : Nat} {refusal : Refusal}
    (small : n < 0x10000000000000000) (counted : (Store.database d c).Counted x)
    (fails : ∀ kept, table.rows.get? (TableRow.text x) = some kept →
      kept.version ≠ wrapSigned64 n)
    (code : refusal.code =
      if table.rows.get? (TableRow.text x) = none then .notFound else .conflict) :
    Declines ((Store.database d c).row? x) n refusal := by
  rw [shared.row?]
  cases found : table.rows.get? (TableRow.text x) with
  | none =>
    rw [if_pos found] at code
    exact .inl ⟨rfl, code⟩
  | some kept =>
    obtain ⟨e, read, -⟩ := toExecution_of_legible shared.legible found
    have has := shared.has_iff found small counted
    rw [shared.row?, found] at has
    rw [if_neg (by simp [found])] at code
    refine .inr ⟨?_, ?_, code⟩
    · rw [Option.bind_some, read]
      exact Option.some_ne_none e
    · rw [has]
      exact fails kept found

theorem Holds.update {x : String} {n : Nat} {row : Execution} (holds : d.Holds c (.fresh tx))
    (named : row.id = TableRow.text x) (small : n < 0x10000000000000000)
    (counted : (Store.database d c).Counted x) :
    ∃ answer d', d.update tx row n = (.ok answer, d') ∧ d'.committed = d.committed ∧
      match answer with
      | .error refusal => Declines ((Store.database d c).row? x) n refusal ∧ d'.Holds c (.fresh tx)
      | .ok _ => HasVersion ((Store.database d c).row? x) n ∧ d'.Holds c (.wrote tx x row n) := by
  obtain ⟨table, shared, inside, old⟩ := holds
  have key : (TableRow.ofExecution row).id = TableRow.text x := by
    show TableRow.text row.id = TableRow.text x
    rw [named]
    exact untilZero_idem x
  obtain ⟨_, d', now, updated, inside', legible, beside⟩ :=
    inside.update_beside shared.legible row n
  have committed : d'.committed = d.committed := inside'.committed.trans shared.committed.symm
  have old' : tx < d'.sessions.next := Nat.lt_of_lt_of_le old beside.next
  have shared' : d'.Shared c table :=
    shared.beside beside inside'.toServes shared.plain shared.legible
  by_cases same : ∃ kept, table.rows.get? (TableRow.text x) = some kept ∧
      kept.version = wrapSigned64 n
  · obtain ⟨kept, found, same⟩ := same
    have has := (shared.has_iff found small counted).2 same
    obtain ⟨d'', done, inside''⟩ := inside.update_done shared.plain (key ▸ found) same
    obtain rfl : d'' = d' := congrArg Prod.snd (done.symm.trans updated)
    -- the table of the transaction is the one that the update made
    have made := Option.some.inj (inside'.contents.symm.trans inside''.contents)
    refine ⟨_, d'', done, committed, has, table, now, shared', inside', old', legible, ?_, ?_⟩
    · rw [Flags, made, key]
      exact ⟨_, Dictionary.get?_insert_self .., rfl⟩
    · rwa [row?_congr committed]
  · have fails : ∀ kept, table.rows.get? (TableRow.text x) = some kept →
        kept.version ≠ wrapSigned64 n := fun kept found version => same ⟨kept, found, version⟩
    obtain ⟨refusal, d'', declined, inside'', code⟩ :=
      inside.update_declined shared.legible (key ▸ fails)
    obtain rfl : d'' = d' := congrArg Prod.snd (declined.symm.trans updated)
    rw [key] at code
    exact ⟨.error refusal, d'', declined, committed, shared.declines small counted fails code,
      table, shared', inside'', old'⟩

/-- The commit of a transaction, of which others see the rows. -/
theorem Shared.commit (shared : d.Shared c table) (inside : d.Inside c tx table now)
    (old : tx < d.sessions.next) (legible : now.Legible) :
    ∃ d', d.commit tx = (.ok (), d') ∧ d'.committed = some now ∧ d'.Holds c (.ended tx) := by
  have beside := d.commit_beside c tx
  obtain ⟨d', done, idle, session⟩ := inside.commit
  rw [done] at beside
  have shared' := shared.beside beside idle.toServes (inside.shape.trans shared.plain) legible
  exact ⟨d', done, idle.committed, now, shared', idle.writer,
    Nat.lt_of_lt_of_le old beside.next, session⟩

theorem Shared.drop (shared : d.Shared c table) (inside : d.Inside c tx table now) :
    (d.drop tx).2.committed = d.committed ∧ (d.drop tx).2.Holds c .free := by
  have beside := drop_beside inside.session
  obtain ⟨d', dropped, idle⟩ := inside.drop
  rw [dropped] at beside ⊢
  exact ⟨idle.committed.trans shared.committed.symm, table,
    shared.beside beside idle.toServes shared.plain shared.legible, idle.writer⟩

theorem Holds.drop {h : Hold} (holds : d.Holds c h) (opened : h.tx? = some tx) :
    (d.drop tx).2.committed = d.committed ∧ (d.drop tx).2.Holds c .free := by
  cases h with
  | free => cases opened
  | fresh tx =>
    cases opened
    obtain ⟨table, shared, inside, -⟩ := holds
    exact shared.drop inside
  | wrote tx x row n =>
    cases opened
    obtain ⟨table, now, shared, inside, -⟩ := holds
    exact shared.drop inside
  | ended tx =>
    cases opened
    obtain ⟨table, shared, free, -, session⟩ := holds
    have beside := drop_beside session
    obtain ⟨d', dropped, idle⟩ := (shared.idle free shared.present).drop session
    rw [dropped] at beside ⊢
    exact ⟨idle.committed.trans shared.committed.symm, table,
      shared.beside beside idle.toServes shared.plain shared.legible, idle.writer⟩

/-! ## Connections to a shared file -/

/-- A new file with a table in it is shared by the one connection to it. -/
theorem connect_holds (path : String) (usesLog : Bool) :
    ∃ c d, ({ path, usesLog } : Database).connect true = (.ok c, d) ∧ d.Holds c .free := by
  have legible : ExecutionTable.Legible {} := by
    intro id row found
    cases found
  have served (b : Nat) (only known : Connection)
      (able : only.readOnly = false ∧ only.known = some (some {}))
      (found : Numbered.get? (Numbered.set (Numbered.add {} {}).2 0 only) b = some known) :
      known.readOnly = false ∧ known.known = some (some {}) := by
    rw [Numbered.get?_set, Numbered.get?_add] at found
    split at found
    · cases found
      exact able
    · cases found
  cases usesLog
  · exact ⟨_, _, rfl, {}, ⟨rfl, rfl, rfl, legible, fun b known => served b _ known ⟨rfl, rfl⟩,
      rfl⟩, rfl⟩
  · exact ⟨_, _, rfl, {}, ⟨rfl, rfl, rfl, legible, fun b known => served b _ known ⟨rfl, rfl⟩,
      rfl⟩, rfl⟩

/-- A file as it is after somebody else has connected to it. -/
def joined (d : Database) : Database :=
  { d with
    connections := (d.connections.add { hasRead := !d.blank, known := some (some {}) }).2
    blank := d.blank && !d.usesLog }

theorem Shared.connect (shared : d.Shared c table) (free : d.writer = none) :
    d.connect true = (.ok d.connections.next, d.joined) := by
  have shape : d.committed.map (·.shape) = some {} := by
    rw [shared.committed, Option.map_some, shared.plain]
  have created : d.joined.createTable d.connections.next = (.ok (), d.joined) := by
    have seen : d.joined.contents d.connections.next = some table := by
      rw [contents, show d.joined.writer = none from free]
      exact shared.committed
    rw [createTable, seen]
  rw [Database.connect, if_neg (by simp [shared.sound]), shape]
  dsimp only
  rw [if_pos rfl]
  split
  · rename_i made
    cases made.symm.trans created
    rfl
  · rename_i made
    cases made.symm.trans created

/-- One more connection to a file that is shared. -/
theorem Holds.connect (free : d.Holds c .free) :
    ∃ b d', d.connect true = (.ok b, d') ∧ d'.Holds c .free ∧ d'.Holds b .free := by
  obtain ⟨table, shared, writer⟩ := free
  have connections (b : Nat) : d.joined.connections.get? b =
      if b = d.connections.next then some { hasRead := !d.blank, known := some (some {}) }
      else d.connections.get? b := Numbered.get?_add _ b _
  have served : ∀ b known, d.joined.connections.get? b = some known →
      known.readOnly = false ∧ known.known = some (some {}) := by
    intro b known found
    rw [connections] at found
    split at found
    · cases found
      exact ⟨rfl, rfl⟩
    · exact shared.served b known found
  have joins (b : Nat) (present : (d.joined.connections.get? b).isSome) :
      d.joined.Holds b .free :=
    ⟨table, ⟨shared.sound, shared.committed, shared.plain, shared.legible, served, present⟩, writer⟩
  refine ⟨_, d.joined, shared.connect writer, joins c ?_, joins _ ?_⟩
  · rw [connections]
    split
    · rfl
    · exact shared.present
  · rw [connections, if_pos rfl]
    rfl

end Database

/-- The rows behind a connection to a file. -/
def Sharing.inDatabase (c : Nat) : Sharing Store.shared where
  holds h s := ∃ d, s = .database d c ∧ d.Holds c h
  reads x row := row.id = TableRow.text x ∧ row.version < 0x10000000000000000
  alone := True
  intruded := by
    rintro h _ i ⟨d, rfl, holds⟩
    exact holds.intruded i
  begins := by
    rintro _ ⟨d, rfl, free⟩
    obtain ⟨tx, d', begun, keeps, fresh⟩ := free.begin
    have begun : (Store.database d c).begin = (.ok tx, .database d' c) := by
      rw [Store.begin, begun]
    exact ⟨tx, _, begun, keeps, d', rfl, fresh⟩
  finds := by
    rintro _ tx x ⟨d, rfl, fresh⟩
    obtain ⟨reads, d', found, keeps, fresh⟩ := fresh.find? x
    have found : (Store.database d c).find? tx x =
        (.ok ((Store.database d c).row? x), .database d' c) := by
      rw [Store.find?, found]
    exact ⟨reads, _, found, keeps, d', rfl, fresh⟩
  ends := by
    rintro _ tx ⟨d, rfl, table, shared, inside, old⟩
    obtain ⟨d', done, committed, ended⟩ := shared.commit inside old shared.legible
    have done : (Store.database d c).commit tx = (.ok (), .database d' c) := by
      rw [Store.commit, done]
    exact ⟨_, done, committed.trans shared.committed.symm, d', rfl, ended⟩
  updates := by
    rintro _ tx x seen row ⟨d, rfl, fresh⟩ ⟨named, small⟩ same counted
    obtain ⟨answer, d', updated, keeps, after⟩ := fresh.update (same.trans named) small counted
    have updated : (Store.database d c).update tx row seen.version =
        (.ok answer, .database d' c) := by
      rw [Store.update, updated]
    refine ⟨answer, _, updated, keeps, ?_⟩
    cases answer with
    | error refusal => exact ⟨after.1, d', rfl, after.2⟩
    | ok version => exact ⟨after.1, d', rfl, after.2⟩
  commits := by
    rintro _ tx x row n ⟨d, rfl, table, now, shared, inside, old, legible, ⟨kept, found, flag⟩, -⟩ -
    obtain ⟨d', done, committed, ended⟩ := shared.commit inside old legible
    obtain ⟨e, read, -, same, -⟩ := Database.toExecution_of_legible legible found
    have done : (Store.database d c).commit tx = (.ok (), .database d' c) := by
      rw [Store.commit, done]
    have stored : (Store.database d' c).row? x = some e := by
      rw [Store.row?, committed, Option.bind_some, found, Option.bind_some, read]
      rfl
    exact ⟨_, done, ⟨d', rfl, ended⟩, e, stored, same.trans flag⟩
  loses := by
    rintro _ tx x row n ⟨d, rfl, table, now, -, -, -, -, -, has⟩ lacks
    exact absurd has lacks
  waits := by
    rintro _ tx x row n - ⟨d, rfl, table, now, -, -, -, -, -, has⟩
    exact has
  drops := by
    rintro h _ tx ⟨d, rfl, holds⟩ opened
    obtain ⟨keeps, free⟩ := holds.drop opened
    exact ⟨keeps, _, rfl, free⟩

end SagaEngine
