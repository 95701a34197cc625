import SagaEngine.Proofs.SharedRows
/-!
# A table that others write to

Every connection to a file may write to it, but only one at a time. A statement of one connection
changes nothing that another one remembers, and nothing of another transaction; while a transaction
is under way nobody else can begin one. Main statements: `Shared.perform` and `Inside.refuses`.
-/

namespace SagaEngine

/-- The rows stand under their own ids, in statuses by their names, with versions that are not below
the smallest word. -/
def ExecutionTable.Legible (table : ExecutionTable) : Prop :=
  ∀ id row, table.rows.get? id = some row → row.id = id ∧
    (∃ status, Status.ofName? row.status = some status) ∧ -0x8000000000000000 ≤ row.version

namespace Database

/-- A sound file whose connections may all write to it and know the table in it; `c` is one of
them. -/
structure Shared (d : Database) (c : Nat) (table : ExecutionTable) : Prop where
  sound : d.damaged = false
  committed : d.committed = some table
  plain : table.shape = {}
  legible : table.Legible
  served : ∀ b known, d.connections.get? b = some known →
    known.readOnly = false ∧ known.known = some (some {})
  present : (d.connections.get? c).isSome

/-- What a transaction on a connection leaves alone: the other connections and the other
transactions. -/
structure Beside (b tx : Nat) (d d' : Database) : Prop where
  connections : ∀ other, other ≠ b → d'.connections.get? other = d.connections.get? other
  present : (d.connections.get? b).isSome → (d'.connections.get? b).isSome
  sessions : ∀ other, other ≠ tx → d'.sessions.get? other = d.sessions.get? other
  next : d.sessions.next ≤ d'.sessions.next

section

variable {d d' d'' : Database} {b c tx : Nat} {table now : ExecutionTable} {α : Type}

/-! ## What a statement leaves alone -/

theorem Beside.refl (b tx : Nat) (d : Database) : Beside b tx d d :=
  ⟨fun _ _ => rfl, id, fun _ _ => rfl, Nat.le_refl _⟩

theorem Beside.trans (first : Beside b tx d d') (second : Beside b tx d' d'') :
    Beside b tx d d'' where
  connections other apart := (second.connections other apart).trans (first.connections other apart)
  present before := second.present (first.present before)
  sessions other apart := (second.sessions other apart).trans (first.sessions other apart)
  next := Nat.le_trans first.next second.next

/-- Neither the connections nor the transactions are touched. -/
theorem Beside.of_same (connections : d'.connections = d.connections)
    (sessions : d'.sessions = d.sessions) : Beside b tx d d' := by
  refine ⟨fun other _ => ?_, fun before => ?_, fun other _ => ?_, ?_⟩
  · rw [connections]
  · rwa [connections]
  · rw [sessions]
  · exact Nat.le_of_eq (congrArg Numbered.next sessions.symm)

theorem remember_beside (d : Database) (b tx : Nat) (known : Option (Option TableShape)) :
    Beside b tx d (d.remember b known) := by
  refine ⟨fun other apart => ?_, fun _ => ?_, fun _ _ => rfl, Nat.le_refl _⟩
  · rw [remember, Numbered.get?_set, if_neg apart]
  · rw [remember, Numbered.get?_set, if_pos rfl]
    rfl

theorem prepare_beside (d : Database) (b tx : Nat) : Beside b tx d (d.prepare b).2 := by
  unfold prepare
  split
  · exact .refl b tx d
  · split
    · exact .refl b tx d
    · exact d.remember_beside b tx _
  · split
    · exact .refl b tx d
    · exact d.remember_beside b tx _

theorem setContents_beside (d : Database) (b tx : Nat) (table : Option ExecutionTable) :
    Beside b tx d (d.setContents b table) := by
  unfold setContents
  split
  · split
    · exact .of_same rfl rfl
    · exact .of_same rfl rfl
  · exact .of_same rfl rfl

theorem carryOut_beside (d : Database) (b tx : Nat) (change : TableChange) :
    Beside b tx d (d.carryOut b change) := by
  cases change with
  | kept => exact .refl b tx d
  | replaced table => exact (d.setContents_beside b tx _).trans (remember_beside _ b tx _)
  | dropped => exact (d.setContents_beside b tx _).trans (remember_beside _ b tx _)

theorem read_beside (d : Database) (b tx : Nat) (preparing stepping : SqlFault → StoreFailure)
    (query : ExecutionTable → Except StoreFailure α) :
    Beside b tx d (d.read b preparing stepping query).2 := by
  have prepared := d.prepare_beside b tx
  unfold read
  generalize d.prepare b = result at prepared ⊢
  obtain ⟨_ | _, d₁⟩ := result
  · exact prepared
  · dsimp only at prepared ⊢
    cases d₁.readFault? b with
    | some fault => exact prepared
    | none =>
      have noted := prepared.trans (d₁.remember_beside b tx (some (d₁.seenShape b)))
      dsimp only
      split
      · exact noted
      · exact noted

theorem write_beside (d : Database) (b tx : Nat)
    (statement : ExecutionTable → Except SqlFault (TableChange × α)) :
    Beside b tx d (d.write b statement).2 := by
  have prepared := d.prepare_beside b tx
  unfold write
  generalize d.prepare b = result at prepared ⊢
  obtain ⟨_ | _, d₁⟩ := result
  · exact prepared
  · dsimp only at prepared ⊢
    cases d₁.writeFault? b with
    | some fault => exact prepared
    | none =>
      have noted := prepared.trans (d₁.remember_beside b tx (some (d₁.seenShape b)))
      generalize d₁.remember b (some (d₁.seenShape b)) = d₂ at noted ⊢
      dsimp only
      split
      · exact noted
      · split
        · exact noted
        · exact noted.trans (d₂.carryOut_beside b tx _)

/-- A transaction is opened under the next number. -/
theorem begin_beside (d : Database) (b : Nat) :
    Beside b d.sessions.next d (d.begin b).2 ∧
      ∀ tx, (d.begin b).1 = .ok tx →
        tx = d.sessions.next ∧ (d.begin b).2.sessions.next = tx + 1 := by
  unfold begin
  split
  · exact ⟨.refl b _ d, nofun⟩
  · have noted := d.remember_beside b d.sessions.next (d.connection b).known
    refine ⟨⟨noted.connections, noted.present, fun other apart => ?_, Nat.le_succ _⟩, ?_⟩
    · show (d.sessions.add ⟨b, false⟩).2.get? other = _
      rw [Numbered.get?_add, if_neg apart]
    · intro tx opened
      cases opened
      exact ⟨rfl, rfl⟩

theorem endSession_beside (d : Database) (b tx : Nat) : Beside b tx d (d.endSession tx) := by
  refine ⟨fun _ _ => rfl, id, fun other apart => ?_, Nat.le_refl _⟩
  rw [endSession, Numbered.get?_set, if_neg apart]

theorem commit_beside (d : Database) (b tx : Nat) : Beside b tx d (d.commit tx).2 := by
  refine (d.endSession_beside b tx).trans ?_
  show Beside b tx _ ((d.endSession tx).commitConnection (d.connectionOf tx)).2
  unfold commitConnection
  split
  · split
    · dsimp only
      split
      · exact .of_same rfl rfl
      · exact .of_same rfl rfl
    · exact .refl b tx _
  · exact .refl b tx _

theorem rollbackConnection_beside (d : Database) (b tx : Nat) :
    Beside b tx d (d.rollbackConnection b).2 := by
  have freed : Beside b tx d { d with writer := none } := .of_same rfl rfl
  unfold rollbackConnection
  split
  · split
    · dsimp only
      split
      · exact freed.trans (remember_beside _ b tx none)
      · exact freed
    · exact .refl b tx d
  · exact .refl b tx d

theorem erase_beside (d : Database) (b tx : Nat) :
    Beside b tx d { d with sessions := d.sessions.erase tx } := by
  refine ⟨fun _ _ => rfl, id, fun other apart => ?_, Nat.le_refl _⟩
  show (d.sessions.erase tx).get? other = _
  rw [Numbered.get?_erase, if_neg apart]

theorem drop_beside {ended : Bool} (session : d.sessions.get? tx = some ⟨b, ended⟩) :
    Beside b tx d (d.drop tx).2 := by
  have rolled := d.rollbackConnection_beside b tx
  simp only [drop, session]
  split
  · exact d.erase_beside b tx
  · generalize d.rollbackConnection b = result at rolled ⊢
    obtain ⟨_ | _, d₁⟩ := result
    · exact rolled.trans (d₁.erase_beside b tx)
    · exact rolled.trans (d₁.erase_beside b tx)

/-! ## A shared file -/

theorem connection_of_get? {known : Connection} (found : d.connections.get? b = some known) :
    d.connection b = known := by
  rw [connection, found]
  rfl

theorem Shared.serves (shared : d.Shared c table) (opened : (d.connections.get? b).isSome) :
    d.Serves b table := by
  obtain ⟨known, found⟩ := Option.isSome_iff_exists.1 opened
  obtain ⟨writable, known⟩ := shared.served b known found
  refine ⟨shared.sound, ?_, ?_, shared.committed⟩
  · rw [connection_of_get? found]
    exact writable
  · rw [connection_of_get? found, known, shared.plain]

theorem Shared.idle (shared : d.Shared c table) (free : d.writer = none)
    (opened : (d.connections.get? b).isSome) : d.Idle b table :=
  ⟨shared.serves opened, free⟩

/-- Others still find the file as it was, apart from the rows. -/
theorem Shared.beside (shared : d.Shared c table) (beside : Beside b tx d d')
    (serves : d'.Serves b now) (plain : now.shape = {}) (legible : now.Legible) :
    d'.Shared c now where
  sound := serves.sound
  committed := serves.committed
  plain := plain
  legible := legible
  served other known found := by
    by_cases own : other = b
    · rw [own] at found
      rw [← connection_of_get? found, serves.known, plain]
      exact ⟨serves.writable, rfl⟩
    · rw [beside.connections other own] at found
      exact shared.served other known found
  present := by
    by_cases own : c = b
    · rw [own]
      exact beside.present (own ▸ shared.present)
    · rw [beside.connections c own]
      exact shared.present

/-! ## Somebody's transaction -/

theorem Inside.read_beside (inside : d.Inside b tx table now)
    (preparing stepping : SqlFault → StoreFailure)
    (query : ExecutionTable → Except StoreFailure α) :
    ∃ d', d.read b preparing stepping query = (query now, d') ∧ d'.Inside b tx table now ∧
      Beside b tx d d' := by
  have beside := d.read_beside b tx preparing stepping query
  obtain ⟨d', inside, answered⟩ := inside.read_eq preparing stepping query
  rw [answered] at beside
  exact ⟨d', answered, inside, beside⟩

/-- What a statement makes of a table stays legible, if it makes anything of it. -/
def Careful (statement : ExecutionTable → Except SqlFault (TableChange × α)) : Prop :=
  ∀ table change answer, table.Legible → statement table = .ok (change, answer) →
    change = .kept ∨ ∃ next, change = .replaced next ∧ next.shape = table.shape ∧ next.Legible

theorem Inside.write_beside (inside : d.Inside b tx table now) (legible : now.Legible)
    {statement : ExecutionTable → Except SqlFault (TableChange × α)}
    (careful : Careful statement) :
    ∃ answer d' now', d.write b statement = (answer, d') ∧ d'.Inside b tx table now' ∧
      now'.Legible ∧ Beside b tx d d' := by
  have beside := d.write_beside b tx statement
  obtain ⟨d', inside', written⟩ := inside.write_eq statement
  rw [written] at beside ⊢
  cases result : statement now with
  | error fault =>
    rw [result] at beside
    exact ⟨_, d', now, rfl, inside', legible, beside⟩
  | ok done =>
    obtain ⟨change, answer⟩ := done
    rw [result] at beside
    rcases careful now change answer legible result with rfl | ⟨next, rfl, shape, legible⟩
    · exact ⟨_, d', now, rfl, inside', legible, beside⟩
    · exact ⟨_, _, next, rfl, inside'.carryOut (shape.trans inside.shape), legible, beside⟩

end

end Database

/-! ## Statements on a legible table -/

namespace ExecutionTable

variable {table : ExecutionTable} {e : Execution}

theorem ofName?_status (e : Execution) :
    ∃ status, Status.ofName? (TableRow.ofExecution e).status = some status :=
  ⟨e.status, Status.ofName?_name e.status⟩

theorem le_version_ofExecution (e : Execution) :
    -0x8000000000000000 ≤ (TableRow.ofExecution e).version := by
  simp only [TableRow.ofExecution]
  exact Int.le_bmod (by decide)

theorem Legible.put (legible : table.Legible) {id : String} {row : TableRow} (named : row.id = id)
    (status : ∃ status, Status.ofName? row.status = some status)
    (low : -0x8000000000000000 ≤ row.version) :
    ({ table with rows := table.rows.insert id row } : ExecutionTable).Legible := by
  intro x row' found
  rw [Dictionary.get?_insert] at found
  split at found
  · rename_i here
    cases found
    exact ⟨named.trans here.symm, status, low⟩
  · exact legible x row' found

theorem insert_careful (e : Execution) :
    Database.Careful fun table : ExecutionTable =>
      (table.insert (.ofExecution e)).map fun changed => (TableChange.replaced changed, ()) := by
  intro table change answer legible done
  simp only [insert] at done
  split at done
  · cases done
  · split at done
    · cases done
    · cases done
      exact .inr ⟨_, rfl, rfl, legible.put rfl (ofName?_status e) (le_version_ofExecution e)⟩

theorem changeIf_careful (e : Execution) (expected : Nat) :
    Database.Careful fun table : ExecutionTable =>
      (table.changeIf (TableRow.ofExecution e).id
        (fun old => old.version = wrapSigned64 expected)
        (fun old => old.change (.ofExecution e))).map fun changed =>
          (TableChange.ofOption changed, changed.isSome) := by
  intro table change answer legible done
  simp only [changeIf] at done
  split at done
  · cases done
    exact .inl rfl
  · rename_i old found
    split at done
    · cases done
      exact .inl rfl
    · split at done
      · cases done
      · cases done
        obtain ⟨named, -, low⟩ := legible _ old found
        have status : ∃ status,
            Status.ofName? (old.change (.ofExecution e)).status = some status := ofName?_status e
        have raised : (old.change (.ofExecution e)).version = old.version + 1 := rfl
        exact .inr ⟨_, rfl, rfl, legible.put named status (by rw [raised]; omega)⟩

theorem changeIf_stays {id : String} {condition : TableRow → Bool} {change : TableRow → TableRow}
    (fails : ∀ row, table.rows.get? id = some row → condition row = false) :
    table.changeIf id condition change = .ok none := by
  rw [changeIf]
  cases found : table.rows.get? id with
  | none => rfl
  | some row =>
    dsimp only
    rw [fails row found]
    rfl

theorem changeIf_done {id : String} {condition : TableRow → Bool} {change : TableRow → TableRow}
    {row : TableRow} (plain : table.shape = {}) (found : table.rows.get? id = some row)
    (holds : condition row = true) :
    table.changeIf id condition change =
      .ok (some { table with rows := table.rows.insert id (change row) }) := by
  rw [changeIf, found]
  dsimp only
  rw [holds, plain]
  rfl

end ExecutionTable

/-! ## Whole transactions -/

namespace Database

variable {d d' : Database} {b c tx : Nat} {table now : ExecutionTable}

theorem Inside.find_beside (inside : d.Inside b tx table now) (x : String) :
    ∃ d', d.find? tx x = (match now.rows.get? (TableRow.text x) with
        | none => .ok none
        | some row => row.toExecution.map some, d') ∧
      d'.Inside b tx table now ∧ Beside b tx d d' := by
  rw [Database.find?, inside.connectionOf]
  exact inside.read_beside _ _ _

theorem Inside.list_beside (inside : d.Inside b tx table now) (statuses : List Status)
    (condition : TableRow → Bool) (limit : Nat) :
    ∃ answer d', d.list tx statuses condition limit = (answer, d') ∧
      d'.Inside b tx table now ∧ Beside b tx d d' := by
  rw [Database.list, inside.connectionOf]
  exact ⟨_, inside.read_beside _ _ _⟩

theorem Inside.update_beside (inside : d.Inside b tx table now) (legible : now.Legible)
    (row : Execution) (expected : Nat) :
    ∃ answer d' now', d.update tx row expected = (answer, d') ∧ d'.Inside b tx table now' ∧
      now'.Legible ∧ Beside b tx d d' := by
  obtain ⟨answer, d₁, now₁, written, inside₁, legible₁, beside₁⟩ :=
    inside.write_beside legible (ExecutionTable.changeIf_careful row expected)
  rw [Database.update, inside.connectionOf, written]
  rcases answer with fault | _ | _
  · exact ⟨_, d₁, now₁, rfl, inside₁, legible₁, beside₁⟩
  · obtain ⟨d₂, looked, inside₂, beside₂⟩ := inside₁.find_beside row.id
    dsimp only
    rcases found : d₁.find? tx row.id with ⟨_ | _ | _, d'⟩
    all_goals
      obtain rfl : d' = d₂ := congrArg Prod.snd (found.symm.trans looked)
      exact ⟨_, d', now₁, rfl, inside₂, legible₁, beside₁.trans beside₂⟩
  · exact ⟨_, d₁, now₁, rfl, inside₁, legible₁, beside₁⟩

/-- One command of somebody's transaction. -/
theorem Inside.execute_beside (inside : d.Inside b tx table now) (legible : now.Legible)
    (command : RowCommand) :
    ∃ d' now', ((Store.database d b).execute tx command).2 = .database d' b ∧
      d'.Inside b tx table now' ∧ now'.Legible ∧ Beside b tx d d' := by
  cases command with
  | write w =>
    cases w with
    | insert row =>
      obtain ⟨answer, d', now', written, inside', legible', beside⟩ :=
        inside.write_beside legible (ExecutionTable.insert_careful row)
      refine ⟨d', now', ?_, inside', legible', beside⟩
      simp only [Store.execute, Store.write, Store.insert, Database.insert, inside.connectionOf,
        written]
    | update row expected =>
      obtain ⟨answer, d', now', updated, inside', legible', beside⟩ :=
        inside.update_beside legible row expected
      refine ⟨d', now', ?_, inside', legible', beside⟩
      simp only [Store.execute, Store.write, Store.update, updated]
      cases answer <;> rfl
  | read q =>
    have asked (d' : Database) (inside' : d'.Inside b tx table now) (beside : Beside b tx d d')
        (same : ((Store.database d b).read tx q).2 = .database d' b) :
        ∃ d' now', ((Store.database d b).read tx q).2 = .database d' b ∧
          d'.Inside b tx table now' ∧ now'.Legible ∧ Beside b tx d d' :=
      ⟨d', now, same, inside', legible, beside⟩
    cases q with
    | find x =>
      obtain ⟨d', looked, inside', beside⟩ := inside.find_beside x
      refine asked d' inside' beside ?_
      simp only [Store.read, Store.find?, looked]
    | inStatus status limit =>
      obtain ⟨answer, d', listed, inside', beside⟩ :=
        inside.list_beside [status] (fun _ => true) limit
      refine asked d' inside' beside ?_
      simp only [Store.read, Store.listByStatus, Database.listByStatus, listed]
    | stale q =>
      obtain ⟨answer, d', listed, inside', beside⟩ := inside.list_beside q.statuses
        (fun row => row.updatedAt < wrapSigned64 q.updatedBefore) q.limit
      by_cases unasked : q.statuses.isEmpty
      · refine asked d inside (.refl b tx d) ?_
        simp only [Store.read, Store.listStale, Database.listStale, unasked, if_true]
      · refine asked d' inside' beside ?_
        simp only [Store.read, Store.listStale, Database.listStale, unasked, Bool.false_eq_true,
          if_false, listed]

theorem Inside.finish_beside (inside : d.Inside b tx table now) (ending : WorkEnd) :
    ∃ d', ((Store.database d b).finish tx ending).2.2 = .database d' b ∧ Beside b tx d d' ∧
      (d'.Idle b now ∨ d'.Idle b table) := by
  cases ending with
  | commit =>
    obtain ⟨d₁, done, idle, session⟩ := inside.commit
    obtain ⟨d₂, dropped, idle⟩ := idle.drop session
    have first := d.commit_beside b tx
    have second := drop_beside session
    rw [done] at first
    rw [dropped] at second
    refine ⟨d₂, ?_, first.trans second, .inl idle⟩
    simp only [Store.finish, Store.commit, Store.drop, done, dropped]
  | rollback =>
    obtain ⟨d₁, undone, idle, session⟩ := inside.rollback
    obtain ⟨d₂, dropped, idle⟩ := idle.drop session
    have first := (d.endSession_beside b tx).trans (rollbackConnection_beside _ b tx)
    have second := drop_beside session
    have same : ((d.endSession tx).rollbackConnection b).2 = d₁ := by
      rw [← inside.connectionOf]
      exact congrArg Prod.snd undone
    rw [same] at first
    rw [dropped] at second
    refine ⟨d₂, ?_, first.trans second, .inr idle⟩
    simp only [Store.finish, Store.rollback, Store.drop, undone, dropped]
  | drop =>
    obtain ⟨d₁, dropped, idle⟩ := inside.drop
    have beside := drop_beside inside.session
    rw [dropped] at beside
    refine ⟨d₁, ?_, beside, .inr idle⟩
    simp only [Store.finish, Store.drop, dropped]

/-- A whole transaction of somebody else leaves a shared file shared, with other rows. -/
theorem Shared.perform (shared : d.Shared c table) (free : d.writer = none)
    (opened : (d.connections.get? b).isSome) (work : Work) :
    ∃ d' table', ((Store.database d b).perform work).2 = .database d' b ∧ d'.Shared c table' ∧
      d'.writer = none ∧ Beside b d.sessions.next d d' := by
  obtain ⟨tx, d₁, begun, inside⟩ := (shared.idle free opened).begin
  obtain ⟨beside, next⟩ := d.begin_beside b
  rw [begun] at beside next
  obtain rfl : tx = d.sessions.next := (next tx rfl).1
  have start : ∃ d' now, Store.database d₁ b = .database d' b ∧
      d'.Inside b d.sessions.next table now ∧ now.Legible ∧ Beside b d.sessions.next d d' :=
    ⟨d₁, table, rfl, inside, shared.legible, beside⟩
  obtain ⟨d₂, now, ran, inside, legible, beside⟩ := answers_keeps
    (Store.execute d.sessions.next)
    (fun s => ∃ d' now, s = .database d' b ∧ d'.Inside b d.sessions.next table now ∧
      now.Legible ∧ Beside b d.sessions.next d d')
    start (fun s command before => by
      obtain ⟨d₂, now, rfl, inside, legible, beside⟩ := before
      obtain ⟨d₃, now', executed, inside, legible, later⟩ := inside.execute_beside legible command
      exact ⟨d₃, now', executed, inside, legible, beside.trans later⟩) work.commands
  obtain ⟨d₃, finished, later, idle⟩ := inside.finish_beside work.ending
  have performed : ((Store.database d b).perform work).2 = .database d₃ b := by
    rw [← finished, ← ran]
    simp only [Store.perform, Store.begin, begun]
  have beside := beside.trans later
  rcases idle with idle | idle
  · have plain : now.shape = {} := inside.shape.trans shared.plain
    exact ⟨d₃, now, performed, shared.beside beside idle.toServes plain legible, idle.writer,
      beside⟩
  · exact ⟨d₃, table, performed, shared.beside beside idle.toServes shared.plain shared.legible,
      idle.writer, beside⟩

theorem hasOpenSession_of_get? (session : d.sessions.get? tx = some ⟨c, false⟩) :
    d.hasOpenSession c = true := by
  obtain ⟨entry, found, same⟩ := Option.map_eq_some_iff.1 session
  have inside := List.mem_of_find?_eq_some found
  exact List.any_eq_true.2 ⟨entry, inside, by simp [same]⟩

/-- While a transaction is under way nobody else is let in. -/
theorem Inside.refuses (inside : d.Inside c tx table now) (i : Intrusion) :
    (Store.database d c).intruded i = .database d c := by
  rw [Store.intruded]
  split
  · rename_i admitted
    have apart : c ≠ i.connection := by
      rintro rfl
      simp [Store.admits, hasOpenSession_of_get? inside.session] at admitted
    obtain ⟨changed, writer, -⟩ := inside.writer
    have refused : ∃ fault, d.writeFault? i.connection = some fault := by
      unfold writeFault?
      split
      · exact ⟨_, rfl⟩
      · have locked : (d.writer.isNone || d.isWriting i.connection) = false := by
          simp [isWriting, writer, apart]
        rw [locked]
        cases d.readFault? i.connection with
        | some fault => exact ⟨fault, rfl⟩
        | none => exact ⟨.locked, rfl⟩
    obtain ⟨fault, refused⟩ := refused
    have begun : d.begin i.connection = (.error (.running d.path fault), d) := by
      rw [Database.begin, refused]
    simp only [Store.perform, Store.begin, begun]
    rfl
  · rfl

end Database

end SagaEngine
