import SagaEngine.Lease.Table
/-!
# Leases kept by name

A holder keeps the leases it was granted under names. Storing a lease under a
name releases the one that was there, after the new one was granted.
-/

namespace SagaEngine

/-- The leases that a holder keeps. -/
abbrev Holdings := Dictionary Lease

namespace Holdings

/-- Claims an execution and keeps the lease under a name. -/
def acquire (kept : Holdings) (m : LeaseManager) (name executionId owner : String) (now : Int) :
    Option Lease × Holdings × LeaseManager :=
  match m.tryAcquire executionId owner now with
  | (none, m) => (none, kept, m)
  | (some lease, m) =>
    let m := match kept.get? name with
      | some earlier => m.release earlier
      | none => m
    (some lease, kept.insert name lease, m)

/-- Releases the lease of a name and forgets it; says whether there was one. -/
def release (kept : Holdings) (m : LeaseManager) (name : String) :
    Bool × Holdings × LeaseManager :=
  match kept.get? name with
  | some lease => (true, kept.erase name, m.release lease)
  | none => (false, kept, m)

/-- Releases the lease of a name but keeps it; says whether there was one. -/
def releaseKept (kept : Holdings) (m : LeaseManager) (name : String) : Bool × LeaseManager :=
  match kept.get? name with
  | some lease => (true, m.release lease)
  | none => (false, m)

end Holdings

end SagaEngine
