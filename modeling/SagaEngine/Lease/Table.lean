import SagaEngine.Dictionary
/-!
# Leases

An exclusive, time-bounded claim on one execution. A lease that has expired
counts as released. Releasing names the lease, so a late release never ends the
claim of a successor. Times are milliseconds.
-/

namespace SagaEngine

/-- A claim on an execution. -/
structure Lease where
  leaseId : String
  executionId : String
  owner : String
  expiresAt : Int
  deriving DecidableEq, Repr, Inhabited

/-- Whether a claim has run out. -/
def Lease.isExpired (l : Lease) (now : Int) : Bool := l.expiresAt ≤ now

/-- The latest lease of each execution. -/
abbrev LeaseTable := Dictionary Lease

namespace LeaseTable

/-- Grants a lease unless another one is in force. -/
def tryInsert (t : LeaseTable) (l : Lease) (now : Int) : Option LeaseTable :=
  match t.get? l.executionId with
  | some held => if held.isExpired now then some (t.insert l.executionId l) else none
  | none => some (t.insert l.executionId l)

/-- Drops a lease if it is the one held. -/
def remove (t : LeaseTable) (executionId leaseId : String) : LeaseTable :=
  match t.get? executionId with
  | some held => if held.leaseId = leaseId then t.erase executionId else t
  | none => t

/-- Whether a lease is in force; an expired one is forgotten. -/
def hasActive (t : LeaseTable) (executionId : String) (now : Int) : Bool × LeaseTable :=
  match t.get? executionId with
  | some held => if held.isExpired now then (false, t.erase executionId) else (true, t)
  | none => (false, t)

end LeaseTable

/-- A table whose leases all live equally long and carry fresh ids. -/
structure LeaseManager where
  ttl : Int := 30000
  table : LeaseTable := Dictionary.empty
  issued : Nat := 0
  deriving Inhabited

namespace LeaseManager

/-- The id of the `n`-th lease that was asked for. -/
def leaseId (n : Nat) : String := "lease-" ++ toString n

/-- Claims an execution for an owner, if nobody holds it. -/
def tryAcquire (m : LeaseManager) (executionId owner : String) (now : Int) :
    Option Lease × LeaseManager :=
  let lease : Lease := ⟨leaseId m.issued, executionId, owner, now + m.ttl⟩
  match m.table.tryInsert lease now with
  | some table => (some lease, { m with table, issued := m.issued + 1 })
  | none => (none, { m with issued := m.issued + 1 })

/-- Ends a claim, if it is still the one held. -/
def release (m : LeaseManager) (l : Lease) : LeaseManager :=
  { m with table := m.table.remove l.executionId l.leaseId }

/-- Whether an execution is claimed. -/
def isHeld (m : LeaseManager) (executionId : String) (now : Int) : Bool × LeaseManager :=
  let (held, table) := m.table.hasActive executionId now
  (held, { m with table })

end LeaseManager

end SagaEngine
