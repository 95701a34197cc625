import SagaEngine.Lease.Table
import Mathlib.Data.List.Nodup
/-!
# Leases exclude each other

What a run of lease operations granted and has not released since is read off the log
of their answers alone. The table keeps one slot for each execution, which a take-over
overwrites and a question about an expired lease empties; it answers every question as
the log does. Main statement: `lease_exclusion`.
-/

namespace SagaEngine

namespace LeaseTable

variable (t : LeaseTable)

/-- The lease of an execution that has not run out. -/
def active (x : String) (now : Int) : Option Lease := (t.get? x).filter (!·.isExpired now)

theorem active_later {x : String} {now later : Int} (le : now ≤ later)
    (free : t.active x now = none) : t.active x later = none := by
  simp only [active, Option.filter_eq_none_iff, Lease.isExpired, Bool.not_eq_true,
    Bool.not_eq_false', decide_eq_true_eq] at free ⊢
  intro l found
  have expired : l.expiresAt ≤ now := free l found
  omega

theorem tryInsert_eq (l : Lease) (now : Int) :
    t.tryInsert l now =
      if t.active l.executionId now = none then some (t.insert l.executionId l) else none := by
  unfold tryInsert active
  cases t.get? l.executionId with
  | none => rfl
  | some held => by_cases expired : held.isExpired now <;> simp [expired]

theorem hasActive_fst (x : String) (now : Int) :
    (t.hasActive x now).1 = (t.active x now).isSome := by
  unfold hasActive active
  cases t.get? x with
  | none => rfl
  | some held => by_cases expired : held.isExpired now <;> simp [expired]

theorem get?_hasActive (x y : String) (now : Int) :
    (t.hasActive x now).2.get? y = if y = x then t.active x now else t.get? y := by
  unfold hasActive active
  by_cases same : y = x
  · subst same
    cases found : t.get? y with
    | none => simpa using found
    | some held =>
      by_cases expired : held.isExpired now <;>
        simp [expired, found, Dictionary.get?_erase, Option.filter]
  · cases t.get? x with
    | none => simp [same]
    | some held =>
      by_cases expired : held.isExpired now <;> simp [same, expired, Dictionary.get?_erase]

theorem get?_remove (x leaseId y : String) :
    (t.remove x leaseId).get? y =
      if y = x then (t.get? x).filter (·.leaseId ≠ leaseId) else t.get? y := by
  unfold remove
  by_cases same : y = x
  · subst same
    cases found : t.get? y with
    | none => simpa using found
    | some held =>
      by_cases named : held.leaseId = leaseId <;>
        simp [named, found, Dictionary.get?_erase, Option.filter]
  · cases t.get? x with
    | none => simp [same]
    | some held =>
      by_cases named : held.leaseId = leaseId <;> simp [named, same, Dictionary.get?_erase]

/-- Forgetting an expired lease changes nothing from then on. -/
theorem active_hasActive (x y : String) {now later : Int} (le : now ≤ later) :
    (t.hasActive x now).2.active y later = t.active y later := by
  rw [active, get?_hasActive]
  split
  case isFalse => rfl
  case isTrue same =>
    subst same
    cases held : t.active y now with
    | none => simp [t.active_later le held]
    | some l =>
      obtain ⟨found, -⟩ := Option.filter_eq_some_iff.1 held
      simp [active, found]

theorem active_remove (x leaseId y : String) (now : Int) :
    (t.remove x leaseId).active y now =
      if y = x then (t.active y now).filter (·.leaseId ≠ leaseId) else t.active y now := by
  rw [active, get?_remove]
  split
  case isTrue same =>
    rw [same, active, Option.filter_filter, Option.filter_filter]
    simp only [Bool.and_comm]
  case isFalse => rfl

end LeaseTable

/-- What callers do with leases: through the manager, or with its table directly. -/
inductive LeaseOperation
  | tryAcquire (executionId owner : String)
  | tryInsert (lease : Lease)
  | isHeld (executionId : String)
  | hasActive (executionId : String)
  | release (lease : Lease)
  | remove (executionId leaseId : String)
  deriving DecidableEq, Repr

/-- What an operation answers. -/
inductive LeaseAnswer
  | lease (granted : Option Lease)
  | held (answer : Bool)
  | done
  deriving DecidableEq, Repr

/-- An operation, the clock reading that it used, and its answer. -/
structure LeaseEvent where
  operation : LeaseOperation
  now : Int
  answer : LeaseAnswer
  deriving DecidableEq, Repr

/-- The execution that an operation is about. -/
def LeaseOperation.subject : LeaseOperation → String
  | .tryAcquire x _ | .isHeld x | .hasActive x | .remove x _ => x
  | .tryInsert l | .release l => l.executionId

/-- Whether an operation names a lease in order to end it. -/
def LeaseOperation.ends (l : Lease) : LeaseOperation → Bool
  | .release named => l.executionId = named.executionId ∧ l.leaseId = named.leaseId
  | .remove x leaseId => l.executionId = x ∧ l.leaseId = leaseId
  | _ => false

/-- The lease that an answer hands out. -/
def LeaseAnswer.granted : LeaseAnswer → Option Lease
  | .lease granted => granted
  | _ => none

/-- Every lease that was handed out, the latest first. -/
def granted (log : List LeaseEvent) : List Lease := log.filterMap (·.answer.granted)

/-- The leases that were handed out and not released since, the latest first. -/
def outstanding : List LeaseEvent → List Lease
  | [] => []
  | ev :: log =>
    ev.answer.granted.toList ++ (outstanding log).filter fun l => !ev.operation.ends l

/-- The leases of an execution that were handed out, not released and have not run out. -/
def inForce (log : List LeaseEvent) (x : String) (now : Int) : List Lease :=
  (outstanding log).filter fun l => l.executionId = x ∧ ¬l.isExpired now

/-- Carries out an operation at a clock reading. -/
def LeaseManager.perform (m : LeaseManager) (now : Int) :
    LeaseOperation → LeaseAnswer × LeaseManager
  | .tryAcquire x owner =>
    let (lease, m) := m.tryAcquire x owner now
    (.lease lease, m)
  | .tryInsert l =>
    match m.table.tryInsert l now with
    | some table => (.lease (some l), { m with table })
    | none => (.lease none, m)
  | .isHeld x =>
    let (held, m) := m.isHeld x now
    (.held held, m)
  | .hasActive x =>
    let (held, table) := m.table.hasActive x now
    (.held held, { m with table })
  | .release l => (.done, m.release l)
  | .remove x leaseId => (.done, { m with table := m.table.remove x leaseId })

/-- A manager and the log of what it was asked, the latest first. The clock never goes
back; the numbers that lease ids are made of come from elsewhere and may be any. -/
inductive LeaseRun (ttl : Int) : List LeaseEvent → LeaseManager → Prop
  | start : LeaseRun ttl [] { ttl }
  | numbered {log m} (run : LeaseRun ttl log m) (n : Nat) : LeaseRun ttl log { m with issued := n }
  | perform {log m} (run : LeaseRun ttl log m) (operation : LeaseOperation) (now : Int)
      (clock : ∀ ev ∈ log, ev.now ≤ now) :
      LeaseRun ttl (⟨operation, now, (m.perform now operation).1⟩ :: log)
        (m.perform now operation).2

namespace LeaseManager

variable (m : LeaseManager)

theorem tryAcquire_fst (x owner : String) (now : Int) :
    (m.tryAcquire x owner now).1 =
      if m.table.active x now = none then some ⟨leaseId m.issued, x, owner, now + m.ttl⟩
      else none := by
  by_cases free : m.table.active x now = none <;>
    simp [tryAcquire, LeaseTable.tryInsert_eq, free]

theorem isHeld_fst (x : String) (now : Int) : (m.isHeld x now).1 = (m.table.active x now).isSome :=
  m.table.hasActive_fst x now

theorem perform_tryAcquire (x owner : String) (now : Int) :
    (m.perform now (.tryAcquire x owner)).1 =
        (m.perform now (.tryInsert ⟨leaseId m.issued, x, owner, now + m.ttl⟩)).1 ∧
      (m.perform now (.tryAcquire x owner)).2.table =
        (m.perform now (.tryInsert ⟨leaseId m.issued, x, owner, now + m.ttl⟩)).2.table := by
  by_cases free : m.table.active x now = none <;>
    simp [perform, tryAcquire, LeaseTable.tryInsert_eq, free]

theorem perform_tryInsert (l : Lease) (now : Int) :
    m.perform now (.tryInsert l) =
      if m.table.active l.executionId now = none then
        (.lease (some l), { m with table := m.table.insert l.executionId l })
      else (.lease none, m) := by
  by_cases free : m.table.active l.executionId now = none <;>
    simp [perform, LeaseTable.tryInsert_eq, free]

@[simp] theorem perform_ttl (operation : LeaseOperation) (now : Int) :
    (m.perform now operation).2.ttl = m.ttl := by
  cases operation with
  | tryAcquire x owner =>
    by_cases free : m.table.active x now = none <;>
      simp [perform, tryAcquire, LeaseTable.tryInsert_eq, free]
  | tryInsert l => rw [perform_tryInsert]; split <;> rfl
  | _ => rfl

theorem perform_other {operation : LeaseOperation} {y : String} (other : y ≠ operation.subject)
    (now : Int) : (m.perform now operation).2.table.get? y = m.table.get? y := by
  have insert (l : Lease) (other : y ≠ l.executionId) :
      (m.perform now (.tryInsert l)).2.table.get? y = m.table.get? y := by
    rw [perform_tryInsert]
    split
    · exact Dictionary.get?_insert_of_ne _ _ other
    · rfl
  cases operation with
  | tryAcquire x owner =>
    rw [(m.perform_tryAcquire x owner now).2]
    exact insert _ other
  | tryInsert l => exact insert l other
  | isHeld x => exact (m.table.get?_hasActive x y now).trans (if_neg other)
  | hasActive x => exact (m.table.get?_hasActive x y now).trans (if_neg other)
  | release l => exact (m.table.get?_remove l.executionId l.leaseId y).trans (if_neg other)
  | remove x leaseId => exact (m.table.get?_remove x leaseId y).trans (if_neg other)

theorem perform_congr {m m' : LeaseManager} {operation : LeaseOperation} (ttl : m.ttl = m'.ttl)
    (issued : m.issued = m'.issued)
    (slot : m.table.get? operation.subject = m'.table.get? operation.subject) (now : Int) :
    (m.perform now operation).1 = (m'.perform now operation).1 ∧
      (m.perform now operation).2.table.get? operation.subject =
        (m'.perform now operation).2.table.get? operation.subject := by
  have insert (l : Lease) (slot : m.table.get? l.executionId = m'.table.get? l.executionId) :
      (m.perform now (.tryInsert l)).1 = (m'.perform now (.tryInsert l)).1 ∧
        (m.perform now (.tryInsert l)).2.table.get? l.executionId =
          (m'.perform now (.tryInsert l)).2.table.get? l.executionId := by
    have active : m.table.active l.executionId now = m'.table.active l.executionId now :=
      congrArg _ slot
    rw [perform_tryInsert, perform_tryInsert, active]
    split
    · simp
    · exact ⟨rfl, slot⟩
  have question (x : String) (slot : m.table.get? x = m'.table.get? x) :
      (m.perform now (.hasActive x)).1 = (m'.perform now (.hasActive x)).1 ∧
        (m.perform now (.hasActive x)).2.table.get? x =
          (m'.perform now (.hasActive x)).2.table.get? x := by
    simp [perform, LeaseTable.hasActive_fst, LeaseTable.get?_hasActive, LeaseTable.active, slot]
  have remove (x leaseId : String) (slot : m.table.get? x = m'.table.get? x) :
      (m.table.remove x leaseId).get? x = (m'.table.remove x leaseId).get? x := by
    rw [LeaseTable.get?_remove, LeaseTable.get?_remove, slot]
  cases operation with
  | tryAcquire x owner =>
    rw [(m.perform_tryAcquire x owner now).1, (m.perform_tryAcquire x owner now).2,
      (m'.perform_tryAcquire x owner now).1, (m'.perform_tryAcquire x owner now).2, ttl, issued]
    exact insert _ slot
  | tryInsert l => exact insert l slot
  | isHeld x => exact question x slot
  | hasActive x => exact question x slot
  | release l => exact ⟨rfl, remove l.executionId l.leaseId slot⟩
  | remove x leaseId => exact ⟨rfl, remove x leaseId slot⟩

/-- What an operation does to the lease in force: it adds the one that it hands out and takes
away the one that it ends. -/
theorem perform_active {x : String} {now later : Int} (operation : LeaseOperation)
    (le : now ≤ later) (keyed : ∀ l ∈ m.table.active x later, l.executionId = x) :
    ((m.perform now operation).2.table.active x later).toList =
      ((m.perform now operation).1.granted.toList.filter
        fun l => l.executionId = x ∧ ¬l.isExpired later) ++
        (m.table.active x later).toList.filter fun l => !operation.ends l := by
  have insert (l : Lease) :
      ((m.perform now (.tryInsert l)).2.table.active x later).toList =
        ((m.perform now (.tryInsert l)).1.granted.toList.filter
          fun l => l.executionId = x ∧ ¬l.isExpired later) ++
          (m.table.active x later).toList := by
    rw [perform_tryInsert]
    split
    case isFalse => rfl
    case isTrue free =>
      by_cases same : x = l.executionId
      -- A slot that was free at the earlier time holds nothing in force at the later one.
      · have gone := LeaseTable.active_later _ le free
        rw [same, gone]
        by_cases expired : l.isExpired later <;>
          simp [LeaseTable.active, LeaseAnswer.granted, expired, Option.filter]
      · simp [LeaseTable.active, LeaseAnswer.granted, Dictionary.get?_insert_of_ne _ _ same,
          Ne.symm same]
  have remove (x' leaseId : String) :
      ((m.table.remove x' leaseId).active x later).toList =
        (m.table.active x later).toList.filter
          fun l => !LeaseOperation.ends l (.remove x' leaseId) := by
    rw [LeaseTable.active_remove]
    cases held : m.table.active x later with
    | none => simp
    | some l =>
      obtain rfl : l.executionId = x := keyed l held
      by_cases same : l.executionId = x' <;> by_cases named : l.leaseId = leaseId <;>
        simp [LeaseOperation.ends, same, named, Option.filter]
  have keep (l : List Lease) : (l.filter fun _ => !false) = l :=
    List.filter_eq_self.2 fun _ _ => rfl
  cases operation with
  | tryAcquire x' owner =>
    rw [(m.perform_tryAcquire x' owner now).1, (m.perform_tryAcquire x' owner now).2, insert]
    exact congrArg _ (keep _).symm
  | tryInsert l => exact (insert l).trans (congrArg _ (keep _).symm)
  | isHeld x' =>
    exact (congrArg Option.toList (m.table.active_hasActive x' x le)).trans (keep _).symm
  | hasActive x' =>
    exact (congrArg Option.toList (m.table.active_hasActive x' x le)).trans (keep _).symm
  | release l => exact remove l.executionId l.leaseId
  | remove x' leaseId => exact remove x' leaseId

end LeaseManager

section

variable {ttl now later : Int} {log : List LeaseEvent} {m : LeaseManager} {x y : String} {l : Lease}

theorem inForce_cons (ev : LeaseEvent) (log : List LeaseEvent) (x : String) (now : Int) :
    inForce (ev :: log) x now =
      (ev.answer.granted.toList.filter fun l => l.executionId = x ∧ ¬l.isExpired now) ++
        (inForce log x now).filter fun l => !ev.operation.ends l := by
  simp only [inForce, outstanding, List.filter_append, List.filter_filter, Bool.and_comm]

theorem outstanding_subset (log : List LeaseEvent) : ∀ l ∈ outstanding log, l ∈ granted log := by
  induction log with
  | nil => simp [outstanding]
  | cons ev log ih =>
    intro l inside
    simp only [outstanding, List.mem_append, Option.mem_toList, List.mem_filter] at inside
    rw [granted, List.mem_filterMap]
    rcases inside with here | ⟨older, -⟩
    · exact ⟨ev, List.mem_cons_self .., here⟩
    · obtain ⟨ev', among, given⟩ := List.mem_filterMap.1 (ih l older)
      exact ⟨ev', List.mem_cons_of_mem _ among, given⟩

/-- The slot of an execution holds what the log says is in force. -/
theorem LeaseRun.inForce_eq (run : LeaseRun ttl log m) (clock : ∀ ev ∈ log, ev.now ≤ now)
    (x : String) : inForce log x now = (m.table.active x now).toList := by
  induction run generalizing now with
  | start => rfl
  | numbered run n ih => exact ih clock
  | @perform log m run operation t earlier ih =>
    have le : t ≤ now := clock _ (List.mem_cons_self ..)
    have before : inForce log x now = (m.table.active x now).toList :=
      ih fun ev among => Int.le_trans (earlier ev among) le
    have keyed (l : Lease) (held : l ∈ m.table.active x now) : l.executionId = x := by
      have inside : l ∈ inForce log x now := by
        rw [before]
        exact Option.mem_toList.2 held
      exact (of_decide_eq_true (List.mem_filter.1 inside).2).1
    rw [inForce_cons, before]
    exact (m.perform_active operation le keyed).symm

theorem LeaseRun.active_iff (run : LeaseRun ttl log m) (clock : ∀ ev ∈ log, ev.now ≤ now)
    (x : String) : (m.table.active x now).isSome = true ↔ inForce log x now ≠ [] := by
  rw [run.inForce_eq clock, Ne, Option.toList_eq_nil_iff, Option.isSome_iff_ne_none]

theorem LeaseRun.ttl_eq (run : LeaseRun ttl log m) : m.ttl = ttl := by
  induction run with
  | start => rfl
  | numbered run n ih => exact ih
  | perform run operation now clock ih => exact (LeaseManager.perform_ttl ..).trans ih

/-- As long as no two leases carry the same id, a release takes away the lease that it names. -/
theorem inForce_release (distinct : ((granted log).map (·.leaseId)).Nodup) (given : l ∈ granted log)
    (t : Int) : inForce (⟨.release l, t, .done⟩ :: log) x now =
      (inForce log x now).filter (· ≠ l) := by
  rw [inForce_cons]
  refine List.filter_congr fun other inside => ?_
  have among : other ∈ granted log := outstanding_subset log other (List.mem_filter.1 inside).1
  have same : other = l ↔ other.executionId = l.executionId ∧ other.leaseId = l.leaseId :=
    ⟨by rintro rfl; exact ⟨rfl, rfl⟩, fun h => List.inj_on_of_nodup_map distinct among given h.2⟩
  simp [LeaseOperation.ends, same]

/-- The operations on one execution would have been answered the same had there been no others. -/
theorem LeaseRun.alone (run : LeaseRun ttl log m) (y : String) :
    ∃ m', LeaseRun ttl (log.filter (·.operation.subject = y)) m' ∧
      m'.table.get? y = m.table.get? y := by
  induction run with
  | start => exact ⟨_, .start, rfl⟩
  | numbered run n ih => exact ih
  | @perform log m run operation t earlier ih =>
    obtain ⟨m', run', slot⟩ := ih
    by_cases about : operation.subject = y
    · have slots : m.table.get? operation.subject = m'.table.get? operation.subject := by
        rw [about]
        exact slot.symm
      -- The other manager may have issued fewer ids, so it is given the same number first.
      have same := @LeaseManager.perform_congr m { m' with issued := m.issued } operation
        (run.ttl_eq.trans run'.ttl_eq.symm) rfl slots t
      have next := (run'.numbered m.issued).perform operation t
        fun ev among => earlier ev (List.mem_filter.1 among).1
      rw [← same.1] at next
      rw [List.filter_cons_of_pos (by simpa using about)]
      exact ⟨_, next, by rw [← about]; exact same.2.symm⟩
    · rw [List.filter_cons_of_neg (by simpa using about)]
      exact ⟨m', run', slot.trans (m.perform_other (Ne.symm about) t).symm⟩

end

/-- At every moment at most one lease of an execution is in force, and every question is answered
as if by looking for it: a claim succeeds exactly if there is none, and `isHeld` says whether there
is one. A release, however late, takes away nothing but its own lease, and the answers about
an execution would be the same if nobody had asked about another one. -/
theorem lease_exclusion {ttl now : Int} {log : List LeaseEvent} {m : LeaseManager}
    (run : LeaseRun ttl log m) (clock : ∀ ev ∈ log, ev.now ≤ now)
    (distinct : ((granted log).map (·.leaseId)).Nodup) :
    (∀ x, (inForce log x now).length ≤ 1) ∧
      (∀ x owner, (m.tryAcquire x owner now).1 =
        if inForce log x now = [] then some ⟨LeaseManager.leaseId m.issued, x, owner, now + ttl⟩
        else none) ∧
      (∀ l, (m.table.tryInsert l now).isSome ↔ inForce log l.executionId now = []) ∧
      (∀ x, (m.isHeld x now).1 = true ↔ inForce log x now ≠ []) ∧
      (∀ x, (m.table.hasActive x now).1 = true ↔ inForce log x now ≠ []) ∧
      (∀ l ∈ granted log, ∀ x later, now ≤ later →
        (((m.release l).isHeld x later).1 = true ↔ ∃ other ∈ inForce log x later, other ≠ l)) ∧
      ∀ y, ∃ alone, LeaseRun ttl (log.filter (·.operation.subject = y)) alone ∧
        alone.table.get? y = m.table.get? y := by
  have free_iff (x : String) : m.table.active x now = none ↔ inForce log x now = [] := by
    rw [run.inForce_eq clock, Option.toList_eq_nil_iff]
  refine ⟨fun x => ?_, fun x owner => ?_, fun l => ?_, fun x => ?_, fun x => ?_, ?_, run.alone⟩
  · rw [run.inForce_eq clock]
    exact Option.length_toList_le
  · simp only [m.tryAcquire_fst, run.ttl_eq, free_iff]
  · rw [LeaseTable.tryInsert_eq, ← free_iff]
    by_cases free : m.table.active l.executionId now = none <;> simp [free]
  · rw [m.isHeld_fst]
    exact run.active_iff clock x
  · rw [LeaseTable.hasActive_fst]
    exact run.active_iff clock x
  · intro l given x later le
    have clock' : ∀ ev ∈ (⟨.release l, now, .done⟩ : LeaseEvent) :: log, ev.now ≤ later := by
      intro ev among
      rcases List.mem_cons.1 among with rfl | older
      · exact le
      · exact Int.le_trans (clock ev older) le
    have released := (run.perform (.release l) now clock).active_iff clock' x
    rw [LeaseManager.isHeld_fst]
    refine released.trans ?_
    change inForce (⟨.release l, now, .done⟩ :: log) x later ≠ [] ↔ _
    rw [inForce_release distinct given, Ne, List.filter_eq_nil_iff]
    simp

/-- A worker claims an execution for ten milliseconds, another one takes it over when they have
passed, and the first one then lets go of its own lease: the second one still holds the
execution. -/
theorem lease_exclusion_late : ∃ log m, LeaseRun 10 log m ∧
    granted log = [⟨"lease-1", "x", "b", 20⟩, ⟨"lease-0", "x", "a", 10⟩] ∧
    (m.isHeld "x" 12).1 = true ∧
    ((m.release ⟨"lease-0", "x", "a", 10⟩).isHeld "x" 12).1 = true := by
  have fresh : LeaseRun 10 [] { ttl := 10 } := .start
  have run := (fresh.perform (.tryAcquire "x" "a") 0 (by simp)).perform (.tryAcquire "x" "b") 10
    (by simp)
  refine ⟨_, _, run, by decide +kernel, ?_⟩
  obtain ⟨-, -, -, held, -, released, -⟩ :=
    lease_exclusion run (show ∀ ev : LeaseEvent, ev ∈ _ → ev.now ≤ 12 by simp) (by decide +kernel)
  exact ⟨(held "x").2 (by decide +kernel),
    (released _ (by decide +kernel) "x" 12 (Int.le_refl _)).2
      ⟨⟨"lease-1", "x", "b", 20⟩, by decide +kernel, by decide +kernel⟩⟩

end SagaEngine
