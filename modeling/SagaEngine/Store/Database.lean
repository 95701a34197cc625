import SagaEngine.Numbered
import SagaEngine.Store.ExecutionTable
import SagaEngine.Store.Memory
import SagaEngine.Telemetry.Log
/-!
# The store in a database file

One file with one table, and any number of connections to it. At most one
connection is inside a transaction; until that ends, its changes are its own and
every other connection can read the committed table but not write. Outside a
transaction each statement commits by itself.

A connection remembers the shape of the table. A statement is prepared against
what is remembered and looks at the file only when it runs, so a table that is
gone, or one that came to be, is noticed in the one place or in the other.

A file can be damaged. That is noticed by everyone who has to read it, but not
inside a transaction, which goes on from what it has read. Where a log of changes is
kept beside the file, a connection that has read the file goes on from that too, and
nobody notices while there are changes in the log.
-/

namespace SagaEngine

/-- What a connection remembers: whether it refuses writes, whether it has read the
file since there was something in it, and the shape of the table as it read it last,
if it did. The inner `none` means that there was no table. -/
structure Connection where
  readOnly : Bool := false
  hasRead : Bool := false
  known : Option (Option TableShape) := none
  deriving DecidableEq, Repr, Inhabited

/-- A transaction by its connection; an ended one only passes statements on. -/
structure Session where
  connection : Nat
  ended : Bool := false
  deriving DecidableEq, Repr, Inhabited

/-- What a transaction has done so far: the connection inside it, the table as it
leaves it, and whether it changed anything. -/
structure PendingTable where
  connection : Nat
  table : Option ExecutionTable
  changed : Bool := false
  deriving Inhabited

/-- A database file: the committed table, the transaction that is under way, the
connections and the transactions. `usesLog` says whether committed changes go to
a log first, `logged` whether there are any in it; a blank file is one that nothing
was written to. -/
structure Database where
  path : String
  usesLog : Bool := false
  committed : Option ExecutionTable := none
  writer : Option PendingTable := none
  logged : Bool := false
  blank : Bool := true
  damaged : Bool := false
  connections : Numbered Connection := {}
  sessions : Numbered Session := {}
  deriving Inhabited

namespace Database

/-! ## What a connection sees and remembers -/

/-- What a connection remembers. -/
def connection (d : Database) (c : Nat) : Connection := (d.connections.get? c).getD {}

/-- Replaces what a connection that has read the file remembers of the table. -/
def remember (d : Database) (c : Nat) (known : Option (Option TableShape)) : Database :=
  { d with connections := d.connections.set c { d.connection c with hasRead := true, known } }

/-- Whether a connection is inside a transaction. -/
def isWriting (d : Database) (c : Nat) : Bool := d.writer.any (fun w => w.connection = c)

/-- The table that a connection sees. -/
def contents (d : Database) (c : Nat) : Option ExecutionTable :=
  match d.writer with
  | some w => if w.connection = c then w.table else d.committed
  | none => d.committed

/-- The shape of the table that a connection sees. -/
def seenShape (d : Database) (c : Nat) : Option TableShape := (d.contents c).map (·.shape)

/-- Makes a table the committed one. What is damaged is whole again after that. -/
def install (d : Database) (table : Option ExecutionTable) : Database :=
  { d with committed := table, logged := d.usesLog, blank := false, damaged := false }

/-- Replaces the table: inside a transaction for its connection alone. -/
def setContents (d : Database) (c : Nat) (table : Option ExecutionTable) : Database :=
  match d.writer with
  | some w =>
    if w.connection = c then { d with writer := some { w with table, changed := true } }
    else d.install table
  | none => d.install table

/-- Carries out what a statement of a connection does to the table. -/
def carryOut (d : Database) (c : Nat) : TableChange → Database
  | .kept => d
  | .replaced table => (d.setContents c (some table)).remember c (some (some table.shape))
  | .dropped => (d.setContents c none).remember c (some none)

/-! ## Statements -/

/-- Whether a connection goes on from what it has read of the file. -/
def goesOn (d : Database) (c : Nat) : Bool :=
  d.isWriting c || (d.usesLog && (d.connection c).hasRead)

/-- Why a connection cannot look at the file now. -/
def readFault? (d : Database) (c : Nat) : Option SqlFault :=
  if d.damaged && !d.goesOn c then some .notADatabase else none

/-- Why a connection may not write now. -/
def writeFault? (d : Database) (c : Nat) : Option SqlFault :=
  if (d.connection c).readOnly then some .readOnly
  else (d.readFault? c).or
    (if d.writer.isNone || d.isWriting c then none else some .locked)

/-- Prepares a statement on the table: against the shape that is remembered, unless
there is none and the file has to be looked at. -/
def prepare (d : Database) (c : Nat) : Except SqlFault TableShape × Database :=
  match (d.connection c).known with
  | some (some shape) => (.ok shape, d)
  | some none => if (d.readFault? c).isSome then (.error .noTable, d) else reread
  | none =>
    match d.readFault? c with
    | some fault => (.error fault, d)
    | none => reread
where
  reread : Except SqlFault TableShape × Database :=
    let known := d.seenShape c
    (match known with
      | some shape => .ok shape
      | none => .error .noTable, d.remember c (some known))

/-- Runs a statement that reads. `preparing` and `stepping` say how a fault is
reported before the statement runs and while it does. -/
def read (d : Database) (c : Nat) (preparing stepping : SqlFault → StoreFailure)
    (query : ExecutionTable → Except StoreFailure α) : Except StoreFailure α × Database :=
  match d.prepare c with
  | (.error fault, d) => (.error (preparing fault), d)
  | (.ok _, d) =>
    match d.readFault? c with
    | some fault => (.error (stepping fault), d)
    | none =>
      let d := d.remember c (some (d.seenShape c))
      match d.contents c with
      | some table => (query table, d)
      | none => (.error (stepping .noTable), d)

/-- Runs a statement that writes. -/
def write (d : Database) (c : Nat)
    (statement : ExecutionTable → Except SqlFault (TableChange × α)) :
    Except SqlFault α × Database :=
  match d.prepare c with
  | (.error fault, d) => (.error fault, d)
  | (.ok _, d) =>
    match d.writeFault? c with
    | some fault => (.error fault, d)
    | none =>
      let d := d.remember c (some (d.seenShape c))
      match d.contents c with
      | none => (.error .noTable, d)
      | some table =>
        match statement table with
        | .error fault => (.error fault, d)
        | .ok (change, answer) => (.ok answer, d.carryOut c change)

/-! ## Connections -/

/-- Creates the table where there is none. -/
def createTable (d : Database) (c : Nat) : Except SqlFault Unit × Database :=
  match d.contents c with
  | some _ => (.ok (), d)
  | none =>
    match d.writeFault? c with
    | some fault => (.error fault, d)
    | none => (.ok (), d.carryOut c (.replaced {}))

/-- Opens a connection, on request with the table created. -/
def connect (d : Database) (withTable : Bool) : Except StoreFailure Nat × Database :=
  if d.damaged then (.error (.running d.path .notADatabase), d)
  else
    let known := some (d.committed.map (·.shape))
    let (c, connections) := d.connections.add { hasRead := !d.blank, known }
    let opened := { d with connections, blank := d.blank && !d.usesLog }
    if withTable then
      match opened.createTable c with
      | (.ok _, d) => (.ok c, d)
      | (.error fault, _) => (.error (.running d.path fault), d)
    else (.ok c, opened)

/-- Closes the connections that nobody goes on using and that no transaction is
on. With the last of them the log is emptied into the file. -/
def closeUnused (d : Database) (inUse : Nat → Bool) : Database :=
  let connections := d.connections.filter fun c =>
    inUse c || d.sessions.entries.any (fun s => s.2.connection = c)
  { d with connections, logged := d.logged && !connections.entries.isEmpty }

/-! ## Transactions -/

/-- A transaction that has just been opened; one on a blank file writes to it. -/
def pendingFor (d : Database) (c : Nat) : PendingTable where
  connection := c
  table := d.committed
  changed := d.blank

/-- Opens a transaction on a connection. -/
def begin (d : Database) (c : Nat) : Except StoreFailure Nat × Database :=
  match d.writeFault? c with
  | some fault => (.error (.running d.path fault), d)
  | none =>
    let (tx, sessions) := d.sessions.add { connection := c }
    let d := d.remember c (d.connection c).known
    (.ok tx, { d with sessions, writer := some (d.pendingFor c) })

def connectionOf (d : Database) (tx : Nat) : Nat :=
  ((d.sessions.get? tx).map (·.connection)).getD 0

/-- Marks a transaction as ended. -/
def endSession (d : Database) (tx : Nat) : Database :=
  { d with sessions := d.sessions.set tx ⟨d.connectionOf tx, true⟩ }

/-- Whether a connection has a transaction that was begun and not ended. -/
def hasOpenSession (d : Database) (c : Nat) : Bool :=
  d.sessions.entries.any fun s => s.2.connection = c && !s.2.ended

/-- Makes the changes of a connection's transaction the committed table. -/
def commitConnection (d : Database) (c : Nat) : Except SqlFault Unit × Database :=
  match d.writer with
  | some w =>
    if w.connection = c then
      let d := { d with writer := none }
      (.ok (), if w.changed then d.install w.table else d)
    else (.error .nothingToCommit, d)
  | none => (.error .nothingToCommit, d)

/-- Forgets the changes of a connection's transaction; if they changed the shape of
the table, also what the connection remembers of it. -/
def rollbackConnection (d : Database) (c : Nat) : Except SqlFault Unit × Database :=
  match d.writer with
  | some w =>
    if w.connection = c then
      let reshaped := w.table.map (·.shape) ≠ d.committed.map (·.shape)
      let d := { d with writer := none }
      (.ok (), if reshaped then d.remember c none else d)
    else (.error .nothingToRollBack, d)
  | none => (.error .nothingToRollBack, d)

def named (d : Database) (answer : Except SqlFault Unit × Database) :
    Except StoreFailure Unit × Database :=
  (answer.1.mapError (.running d.path), answer.2)

def commit (d : Database) (tx : Nat) : Except StoreFailure Unit × Database :=
  d.named ((d.endSession tx).commitConnection (d.connectionOf tx))

/-- Rolls a transaction back. -/
def rollback (d : Database) (tx : Nat) : Except StoreFailure Unit × Database :=
  d.named ((d.endSession tx).rollbackConnection (d.connectionOf tx))

/-- Closes a transaction, rolling it back if it has not ended; a line is logged if
that fails. -/
def drop (d : Database) (tx : Nat) : Option LogEntry × Database :=
  let forget (d : Database) : Database := { d with sessions := d.sessions.erase tx }
  match d.sessions.get? tx with
  | none => (none, d)
  | some session =>
    if session.ended then (none, forget d)
    else
      match d.rollbackConnection session.connection with
      | (.ok _, d) => (none, forget d)
      | (.error fault, d) =>
        (some (.warn "sqlite execution transaction left open" [.text "error" fault.message]),
          forget d)

/-! ## Rows -/

/-- Adds a row. -/
def insert (d : Database) (tx : Nat) (e : Execution) : Except Refusal Unit × Database :=
  let (answer, d) := d.write (d.connectionOf tx) fun table =>
    (table.insert (.ofExecution e)).map fun changed => (.replaced changed, ())
  (answer.mapError .sql, d)

def find? (d : Database) (tx : Nat) (executionId : String) :
    Except StoreFailure (Option Execution) × Database :=
  d.read (d.connectionOf tx) .preparing .reading fun table =>
    match table.rows.get? (TableRow.text executionId) with
    | none => .ok none
    | some row => row.toExecution.map some

/-- Changes a row whose version is the expected one. -/
def update (d : Database) (tx : Nat) (e : Execution) (expected : Nat) :
    Except StoreFailure (Except Refusal Nat) × Database :=
  let new := TableRow.ofExecution e
  let (answer, d) := d.write (d.connectionOf tx) fun table =>
    (table.changeIf new.id (fun old => old.version = wrapSigned64 expected)
      (fun old => old.change new)).map fun changed => (.ofOption changed, changed.isSome)
  match answer with
  | .error fault => (.ok (.error (.sql fault)), d)
  | .ok true => (.ok (.ok (wrapWord64 (expected + 1))), d)
  | .ok false =>
    match d.find? tx e.id with
    | (.error failure, d) => (.error failure, d)
    | (.ok none, d) => (.ok (.error (.missing e.id)), d)
    | (.ok (some _), d) => (.ok (.error (.movedPast e.id expected)), d)

/-- The rows of some statuses that satisfy a condition, oldest first. -/
def list (d : Database) (tx : Nat) (statuses : List Status) (condition : TableRow → Bool)
    (limit : Nat) : Except StoreFailure (List Execution) × Database :=
  d.read (d.connectionOf tx) .preparing .listing fun table =>
    (TableRow.oldest (table.rows.values.filter (fun row =>
      row.status ∈ statuses.map Status.name && condition row)) limit).mapM TableRow.toExecution

/-- The rows in a status, oldest first. -/
def listByStatus (d : Database) (tx : Nat) (status : Status) (limit : Nat) :
    Except StoreFailure (List Execution) × Database :=
  d.list tx [status] (fun _ => true) limit

/-- The rows that a sweep asks for, oldest first. -/
def listStale (d : Database) (tx : Nat) (q : StaleQuery) :
    Except StoreFailure (List Execution) × Database :=
  if q.statuses.isEmpty then (.ok [], d)
  else d.list tx q.statuses (fun row => row.updatedAt < wrapSigned64 q.updatedBefore) q.limit

end Database

end SagaEngine
