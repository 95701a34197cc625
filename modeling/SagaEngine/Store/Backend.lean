import SagaEngine.Store.Database
/-!
# The execution store

The operations that every store offers, over its two forms: rows in memory, and
one connection to a database file. A database server as the store is left out.
-/

namespace SagaEngine

/-- A store of executions. -/
inductive Store where
  | memory (rows : MemoryStore)
  | database (file : Database) (connection : Nat)
  deriving Inhabited

namespace Store

def inMemory : Store := .memory {}

/-- An empty database of its own, at a path. -/
def inDatabase (path : String) : Store :=
  match ({ path } : Database).connect true with
  | (.ok c, d) => .database d c
  | (.error _, d) => .database d 0

/-- Opens a transaction. -/
def begin : Store → Except StoreFailure Nat × Store
  | .memory s => let (tx, s) := s.begin; (.ok tx, .memory s)
  | .database d c => let (tx, d) := d.begin c; (tx, .database d c)

def commit (tx : Nat) : Store → Except StoreFailure Unit × Store
  | .memory s => let (answer, s) := s.commit tx; (answer, .memory s)
  | .database d c => let (answer, d) := d.commit tx; (answer, .database d c)

/-- Rolls a transaction back. -/
def rollback (tx : Nat) : Store → Except StoreFailure Unit × Store
  | .memory s => (.ok (), .memory (s.rollback tx))
  | .database d c => let (answer, d) := d.rollback tx; (answer, .database d c)

/-- Closes a transaction. -/
def drop (tx : Nat) : Store → Option LogEntry × Store
  | .memory s => (none, .memory (s.drop tx))
  | .database d c => let (line, d) := d.drop tx; (line, .database d c)

def insert (tx : Nat) (row : Execution) : Store → Except Refusal Unit × Store
  | .memory s => let (answer, s) := s.insert tx row; (answer, .memory s)
  | .database d c => let (answer, d) := d.insert tx row; (answer, .database d c)

def find? (tx : Nat) (executionId : String) :
    Store → Except StoreFailure (Option Execution) × Store
  | .memory s => (.ok (s.find? tx executionId), .memory s)
  | .database d c => let (answer, d) := d.find? tx executionId; (answer, .database d c)

/-- Changes a row whose version is the expected one; the answer is its new version. -/
def update (tx : Nat) (row : Execution) (expected : Nat) :
    Store → Except StoreFailure (Except Refusal Nat) × Store
  | .memory s => let (answer, s) := s.update tx row expected; (.ok answer, .memory s)
  | .database d c => let (answer, d) := d.update tx row expected; (answer, .database d c)

/-- The rows in a status, oldest first. -/
def listByStatus (tx : Nat) (status : Status) (limit : Nat) :
    Store → Except StoreFailure (List Execution) × Store
  | .memory s => (.ok (s.listByStatus tx status limit), .memory s)
  | .database d c => let (answer, d) := d.listByStatus tx status limit; (answer, .database d c)

/-- The rows that a sweep asks for, oldest first. -/
def listStale (tx : Nat) (q : StaleQuery) : Store → Except StoreFailure (List Execution) × Store
  | .memory s => (.ok (s.listStale tx q), .memory s)
  | .database d c => let (answer, d) := d.listStale tx q; (answer, .database d c)

end Store

end SagaEngine
