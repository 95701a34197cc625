import SagaEngine.Store.Database
/-!
# A database with one transaction at a time

A sound file, a connection that may write to it, and at most one transaction on it.
Inside the transaction every statement works on its own table; a commit makes this
table the committed one, and any other end leaves the committed table as it was. Main
statements: `Idle.begin`, `Inside.read_eq`, `Inside.write_eq`, `Inside.commit`,
`Inside.rollback` and `Inside.drop`.
-/

namespace SagaEngine.Database

/-- A connection may write to a sound file and knows the table in it. -/
structure Serves (d : Database) (c : Nat) (table : ExecutionTable) : Prop where
  sound : d.damaged = false
  writable : (d.connection c).readOnly = false
  known : (d.connection c).known = some (some table.shape)
  committed : d.committed = some table

/-- No transaction is under way. -/
structure Idle (d : Database) (c : Nat) (table : ExecutionTable) : Prop
    extends d.Serves c table where
  writer : d.writer = none

/-- A transaction of the connection is under way, which leaves the table as `now`. -/
structure Working (d : Database) (c : Nat) (table now : ExecutionTable) : Prop
    extends d.Serves c table where
  shape : now.shape = table.shape
  writer : ∃ changed, d.writer = some ⟨c, some now, changed⟩ ∧ (changed = false → now = table)

/-- That transaction is `tx`. -/
structure Inside (d : Database) (c tx : Nat) (table now : ExecutionTable) : Prop
    extends d.Working c table now where
  session : d.sessions.get? tx = some ⟨c, false⟩

variable {d : Database} {c tx : Nat} {table now : ExecutionTable}

theorem connection_remember (d : Database) (c : Nat) (known : Option (Option TableShape)) :
    (d.remember c known).connection c = { d.connection c with hasRead := true, known } := by
  rw [connection, remember, Numbered.get?_set, if_pos rfl]
  rfl

theorem Serves.remember (serves : d.Serves c table) {shape : TableShape}
    (same : shape = table.shape) : (d.remember c (some (some shape))).Serves c table := by
  refine ⟨serves.sound, ?_, ?_, serves.committed⟩
  · rw [connection_remember]
    exact serves.writable
  · rw [connection_remember, same]

theorem Serves.readFault? (serves : d.Serves c table) : d.readFault? c = none := by
  rw [Database.readFault?, serves.sound]
  rfl

theorem Serves.prepare (serves : d.Serves c table) : d.prepare c = (.ok table.shape, d) := by
  rw [Database.prepare, serves.known]

theorem Serves.forget (serves : d.Serves c table) :
    ({ d with writer := none } : Database).Idle c table :=
  ⟨⟨serves.sound, serves.writable, serves.known, serves.committed⟩, rfl⟩

/-! ## Statements inside a transaction -/

theorem Inside.connectionOf (inside : d.Inside c tx table now) : d.connectionOf tx = c := by
  rw [Database.connectionOf, inside.session]
  rfl

theorem Working.isWriting (working : d.Working c table now) : d.isWriting c = true := by
  obtain ⟨changed, writer, -⟩ := working.writer
  rw [Database.isWriting, writer]
  exact decide_eq_true rfl

theorem Working.contents (working : d.Working c table now) : d.contents c = some now := by
  obtain ⟨changed, writer, -⟩ := working.writer
  rw [Database.contents, writer]
  exact if_pos rfl

theorem Working.seenShape (working : d.Working c table now) : d.seenShape c = some now.shape := by
  rw [Database.seenShape, working.contents]
  rfl

theorem Inside.remember (inside : d.Inside c tx table now) {shape : TableShape}
    (same : shape = table.shape) : (d.remember c (some (some shape))).Inside c tx table now :=
  ⟨⟨inside.toServes.remember same, inside.shape, inside.writer⟩, inside.session⟩

/-- A statement that reads is asked of the transaction's own table. -/
theorem Inside.read_eq (inside : d.Inside c tx table now) {α : Type}
    (preparing stepping : SqlFault → StoreFailure)
    (query : ExecutionTable → Except StoreFailure α) :
    ∃ d', d'.Inside c tx table now ∧ d.read c preparing stepping query = (query now, d') := by
  have inside' := inside.remember inside.shape
  refine ⟨_, inside', ?_⟩
  rw [Database.read, inside.prepare]
  simp only [inside.readFault?, inside.seenShape, inside'.contents]

/-- A statement that writes changes the transaction's own table, or nothing. -/
theorem Inside.write_eq (inside : d.Inside c tx table now) {α : Type}
    (statement : ExecutionTable → Except SqlFault (TableChange × α)) :
    ∃ d', d'.Inside c tx table now ∧ d.write c statement =
      match statement now with
      | .error fault => (.error fault, d')
      | .ok (change, answer) => (.ok answer, d'.carryOut c change) := by
  have free : d.writeFault? c = none := by
    rw [writeFault?, inside.writable, inside.readFault?, inside.isWriting, Bool.or_true]
    rfl
  have inside' := inside.remember inside.shape
  refine ⟨_, inside', ?_⟩
  rw [Database.write, inside.prepare]
  simp only [free, inside.seenShape, inside'.contents]
  cases statement now <;> rfl

theorem Inside.carryOut (inside : d.Inside c tx table now) {now' : ExecutionTable}
    (shape : now'.shape = table.shape) :
    (d.carryOut c (.replaced now')).Inside c tx table now' := by
  obtain ⟨changed, writer, -⟩ := inside.writer
  have own : d.setContents c (some now') = { d with writer := some ⟨c, some now', true⟩ } := by
    rw [setContents, writer]
    exact if_pos rfl
  have serves : ({ d with writer := some ⟨c, some now', true⟩ } : Database).Serves c table :=
    ⟨inside.sound, inside.writable, inside.known, inside.committed⟩
  rw [Database.carryOut, own]
  exact ⟨⟨serves.remember shape, shape, ⟨true, rfl, nofun⟩⟩, inside.session⟩

/-! ## Opening and ending a transaction -/

theorem Idle.begin (idle : d.Idle c table) :
    ∃ tx d', d.begin c = (.ok tx, d') ∧ d'.Inside c tx table table := by
  have free : d.writeFault? c = none := by
    rw [writeFault?, idle.writable, idle.readFault?, idle.writer]
    rfl
  have serves := idle.toServes.remember rfl
  rw [← idle.known] at serves
  refine ⟨d.sessions.next, { d.remember c (d.connection c).known with
    sessions := (d.sessions.add ⟨c, false⟩).2, writer := some (d.pendingFor c) }, ?_, ?_⟩
  · rw [Database.begin, free]
    rfl
  · -- on a blank file the opening itself counts as a change, but the table is the same
    have writer : some (d.pendingFor c) = some ⟨c, some table, d.blank⟩ := by
      rw [pendingFor, idle.committed]
    have session : (d.sessions.add ⟨c, false⟩).2.get? d.sessions.next = some ⟨c, false⟩ := by
      rw [Numbered.get?_add, if_pos rfl]
    exact ⟨⟨⟨serves.sound, serves.writable, serves.known, serves.committed⟩, rfl,
      ⟨d.blank, writer, fun _ => rfl⟩⟩, session⟩

theorem Inside.endSession (inside : d.Inside c tx table now) :
    (d.endSession tx).Working c table now ∧
      (d.endSession tx).sessions.get? tx = some ⟨c, true⟩ := by
  refine ⟨⟨⟨inside.sound, inside.writable, inside.known, inside.committed⟩, inside.shape,
    inside.writer⟩, ?_⟩
  rw [Database.endSession, Numbered.get?_set, if_pos rfl, inside.connectionOf]

theorem Working.commitConnection (working : d.Working c table now) :
    ∃ d', d.commitConnection c = (.ok (), d') ∧ d'.Idle c now ∧ d'.sessions = d.sessions := by
  obtain ⟨changed, writer, unchanged⟩ := working.writer
  have commits : d.commitConnection c =
      (.ok (), if changed then ({ d with writer := none } : Database).install (some now)
        else { d with writer := none }) := by
    rw [Database.commitConnection, writer]
    exact if_pos rfl
  cases changed with
  | true =>
    have known : (d.connection c).known = some (some now.shape) := by
      rw [working.shape]
      exact working.known
    exact ⟨_, commits, ⟨⟨rfl, working.writable, known, rfl⟩, rfl⟩, rfl⟩
  | false =>
    rw [unchanged rfl]
    exact ⟨_, commits, working.toServes.forget, rfl⟩

/-- The shape of the table is the same as before, so that the connection still knows it. -/
theorem Working.rollbackConnection (working : d.Working c table now) :
    d.rollbackConnection c = (.ok (), { d with writer := none }) := by
  obtain ⟨changed, writer, -⟩ := working.writer
  have shapes : (some now).map (·.shape) = d.committed.map (·.shape) := by
    rw [working.committed, Option.map_some, Option.map_some, working.shape]
  rw [Database.rollbackConnection, writer]
  simp only [shapes, ne_eq, not_true_eq_false, if_true, if_false]

/-- A commit installs the table of the transaction. -/
theorem Inside.commit (inside : d.Inside c tx table now) :
    ∃ d', d.commit tx = (.ok (), d') ∧ d'.Idle c now ∧ d'.sessions.get? tx = some ⟨c, true⟩ := by
  obtain ⟨working, session⟩ := inside.endSession
  obtain ⟨d', commits, idle, sessions⟩ := working.commitConnection
  refine ⟨d', ?_, idle, by rw [sessions, session]⟩
  rw [Database.commit, inside.connectionOf, commits]
  rfl

/-- A rollback leaves the committed table as it was. -/
theorem Inside.rollback (inside : d.Inside c tx table now) :
    ∃ d', d.rollback tx = (.ok (), d') ∧ d'.Idle c table ∧
      d'.sessions.get? tx = some ⟨c, true⟩ := by
  obtain ⟨working, session⟩ := inside.endSession
  refine ⟨_, ?_, working.toServes.forget, session⟩
  rw [Database.rollback, inside.connectionOf, working.rollbackConnection]
  rfl

/-- Dropping a transaction that has ended does nothing more. -/
theorem Idle.drop (idle : d.Idle c table) (session : d.sessions.get? tx = some ⟨c, true⟩) :
    ∃ d', d.drop tx = (none, d') ∧ d'.Idle c table := by
  refine ⟨{ d with sessions := d.sessions.erase tx }, ?_,
    ⟨⟨idle.sound, idle.writable, idle.known, idle.committed⟩, idle.writer⟩⟩
  rw [Database.drop, session]
  rfl

/-- Dropping one that has not leaves the committed table as it was. -/
theorem Inside.drop (inside : d.Inside c tx table now) :
    ∃ d', d.drop tx = (none, d') ∧ d'.Idle c table := by
  have idle := inside.toServes.forget
  refine ⟨{ d with writer := none, sessions := d.sessions.erase tx }, ?_,
    ⟨⟨idle.sound, idle.writable, idle.known, idle.committed⟩, rfl⟩⟩
  rw [Database.drop, inside.session]
  simp only [inside.rollbackConnection, Bool.false_eq_true, if_false]

/-- A new file with a table in it. -/
theorem connect_idle (path : String) (usesLog : Bool) :
    ∃ c d, ({ path, usesLog } : Database).connect true = (.ok c, d) ∧ d.Idle c {} := by
  cases usesLog
  · exact ⟨_, _, rfl, ⟨rfl, rfl, rfl, rfl⟩, rfl⟩
  · exact ⟨_, _, rfl, ⟨rfl, rfl, rfl, rfl⟩, rfl⟩

end SagaEngine.Database
