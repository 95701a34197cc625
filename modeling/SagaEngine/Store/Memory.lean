import SagaEngine.Dictionary
import SagaEngine.Numbered
import SagaEngine.Saga.Execution
import SagaEngine.Store.BucketOrder
import SagaEngine.Store.Result
import SagaEngine.Time.Duration
/-!
# The store in memory

Committed rows, and for every open transaction the writes it has collected. A
read falls through to the committed rows unless the transaction wrote the row
itself. A commit checks every collected write against the version it was based
on before it installs any of them, so transactions that touch different rows
never meet.
-/

namespace SagaEngine

/-- Which rows a sweep asks for: in one of the statuses and last updated strictly
before a time. -/
structure StaleQuery where
  statuses : List Status
  updatedBefore : Nat
  limit : Nat := 100
  deriving DecidableEq, Repr, Inhabited

/-- A collected write: the new row, and the version that it replaces unless the
row is new. -/
structure PendingWrite where
  row : Execution
  base : Option Nat
  deriving DecidableEq, Repr, Inhabited

/-- The writes of a transaction, one for each row, in the order in which they are
checked. -/
abbrev PendingWrites := List PendingWrite

namespace PendingWrites

def find? (writes : PendingWrites) (executionId : String) : Option PendingWrite :=
  List.find? (fun w => w.row.id = executionId) writes

/-- Adds the first write to a row. -/
def add (writes : PendingWrites) (write : PendingWrite) : PendingWrites :=
  BucketOrder.add (fun w => BucketOrder.hashOf w.row.id) write writes

/-- Replaces the row of a write and keeps the version it is based on. -/
def replace (writes : PendingWrites) (row : Execution) : PendingWrites :=
  writes.map fun w => if w.row.id = row.id then { w with row } else w

end PendingWrites

/-- The rows in order of age. -/
def Execution.oldestFirst (rows : List Execution) : List Execution :=
  rows.mergeSort Execution.isOlder

/-- Committed rows and the writes of the transactions that are open. -/
structure MemoryStore where
  committed : Dictionary Execution := Dictionary.empty
  transactions : Numbered PendingWrites := {}
  deriving Inhabited

namespace MemoryStore

/-- Opens a transaction. -/
def begin (s : MemoryStore) : Nat × MemoryStore :=
  let (tx, transactions) := s.transactions.add []
  (tx, { s with transactions })

def writes (s : MemoryStore) (tx : Nat) : PendingWrites := (s.transactions.get? tx).getD []

/-- Replaces the collected writes of a transaction. -/
def setWrites (s : MemoryStore) (tx : Nat) (writes : PendingWrites) : MemoryStore :=
  { s with transactions := s.transactions.set tx writes }

/-- The row that a transaction sees. -/
def find? (s : MemoryStore) (tx : Nat) (executionId : String) : Option Execution :=
  match (s.writes tx).find? executionId with
  | some write => some write.row
  | none => s.committed.get? executionId

/-- All rows that a transaction sees. -/
def visible (s : MemoryStore) (tx : Nat) : List Execution :=
  let writes := s.writes tx
  s.committed.values.filter (fun row => (writes.find? row.id).isNone) ++ writes.map (·.row)

/-- Collects a new row. -/
def insert (s : MemoryStore) (tx : Nat) (row : Execution) : Except Refusal Unit × MemoryStore :=
  match s.find? tx row.id with
  | some _ => (.error (.taken row.id), s)
  | none => (.ok (), s.setWrites tx ((s.writes tx).add ⟨row, none⟩))

/-- Collects a change to a row whose version is the expected one, and gives it the
next version. -/
def update (s : MemoryStore) (tx : Nat) (row : Execution) (expected : Nat) :
    Except Refusal Nat × MemoryStore :=
  match s.find? tx row.id with
  | none => (.error (.missing row.id), s)
  | some current =>
    if current.version ≠ expected then
      (.error (.versionDiffers row.id current.version expected), s)
    else
      let version := wrapWord64 (expected + 1)
      let row := { row with version }
      let writes := s.writes tx
      match writes.find? row.id with
      | some _ => (.ok version, s.setWrites tx (writes.replace row))
      | none => (.ok version, s.setWrites tx (writes.add ⟨row, some expected⟩))

/-- The rows in a status, oldest first. -/
def listByStatus (s : MemoryStore) (tx : Nat) (status : Status) (limit : Nat) : List Execution :=
  (Execution.oldestFirst ((s.visible tx).filter (fun row => row.status = status))).take limit

/-- The rows that a sweep asks for, oldest first. -/
def listStale (s : MemoryStore) (tx : Nat) (q : StaleQuery) : List Execution :=
  (Execution.oldestFirst ((s.visible tx).filter (fun row =>
    row.updatedAt < q.updatedBefore && row.status ∈ q.statuses))).take q.limit

/-- Why a collected write can no longer be installed. -/
def staleWrite? (s : MemoryStore) (w : PendingWrite) : Option StoreFailure :=
  match w.base, s.committed.get? w.row.id with
  | none, some _ => some (.insertedConcurrently w.row.id)
  | none, none => none
  | some base, some row =>
    if row.version = base then none else some (.modifiedConcurrently w.row.id)
  | some _, none => some (.modifiedConcurrently w.row.id)

/-- Installs every collected write, or none of them. -/
def commit (s : MemoryStore) (tx : Nat) : Except StoreFailure Unit × MemoryStore :=
  let writes := s.writes tx
  match writes.findSome? s.staleWrite? with
  | some failure => (.error failure, s)
  | none =>
    let committed := writes.foldl (fun rows w => rows.insert w.row.id w.row) s.committed
    (.ok (), { s with committed }.setWrites tx [])

/-- Forgets the collected writes. -/
def rollback (s : MemoryStore) (tx : Nat) : MemoryStore := s.setWrites tx []

/-- Closes a transaction; what it has not committed is lost. -/
def drop (s : MemoryStore) (tx : Nat) : MemoryStore :=
  { s with transactions := s.transactions.erase tx }

end MemoryStore

end SagaEngine
