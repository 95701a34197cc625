import SagaEngine.Proofs.BackendParity
import SagaEngine.Proofs.Interference
import SagaEngine.Proofs.SharedStore
import SagaEngine.Proofs.TransactionStages
/-!
# Rows that others write to

Between two requests of one writer others carry out whole transactions. In memory they may do so
while a transaction of the writer is open; they leave its collected writes alone, and only its
commit notices. A database lets nobody in who is not alone on the file, so what a transaction has
read there is still so when it commits. Main statements: `perform_beside`, `Holds.update` and
`Sharing.inMemory`.
-/

namespace SagaEngine

/-- A whole transaction of somebody else. To a database it comes on a connection. -/
structure Intrusion where
  connection : Nat
  work : Work
  deriving DecidableEq, Repr

namespace Store

/-- The store as it is reached on a connection. -/
def through (b : Nat) : Store → Store
  | memory m => .memory m
  | database d _ => .database d b

/-- The connection is open, and no transaction on it is under way. -/
def admits (b : Nat) : Store → Bool
  | memory _ => true
  | database d _ => (d.connections.get? b).isSome && !d.hasOpenSession b

/-- The store after a transaction of somebody else, which waits if it is not let in. -/
def intruded (s : Store) (i : Intrusion) : Store :=
  if s.admits i.connection then
    match s with
    | memory m => ((memory m).perform i.work).2
    | database d c => (((database d i.connection).perform i.work).2).through c
  else s

/-- The committed row of an execution, unless its status is no status. -/
def row? (x : String) : Store → Option Execution
  | memory m => m.committed.get? x
  | database d _ =>
    d.committed.bind fun table =>
      (table.rows.get? (TableRow.text x)).bind fun row => row.toExecution.toOption

/-- The version of the row was not raised past the largest word. -/
def Counted (x : String) : Store → Prop
  | memory _ => True
  | database d _ => ∀ table ∈ d.committed, ∀ row ∈ table.rows.get? (TableRow.text x),
      row.version ≤ TableRow.maxWord

instance (x : String) : (s : Store) → Decidable (s.Counted x)
  | memory _ => inferInstanceAs (Decidable True)
  | database d _ => inferInstanceAs (Decidable (∀ table ∈ d.committed,
      ∀ row ∈ table.rows.get? (TableRow.text x), row.version ≤ TableRow.maxWord))

/-- The stores of executions, as others write to them. -/
def shared : SharedStore Store where
  Other := Intrusion
  intruded := intruded
  begin := begin
  find? := find?
  update := update
  commit := commit
  drop tx s := (s.drop tx).2
  row? := row?
  Keeps := Keeps
  keeps_refl := .refl
  Counted := Counted

end Store

theorem answers_keeps {σ α β : Type} (step : σ → α → β × σ) (kept : σ → Prop) {s : σ}
    (start : kept s) (next : ∀ s a, kept s → kept (step s a).2) (as : List α) :
    kept (answers step s as).2 := by
  induction as generalizing s with
  | nil => exact start
  | cons a as ih => exact ih (next s a start)

/-! ## Rows in memory -/

namespace MemoryStore

/-- What a transaction leaves alone: the collected writes of every other one. -/
structure Beside (tx : Nat) (m m' : MemoryStore) : Prop where
  next : m.transactions.next ≤ m'.transactions.next
  writes : ∀ other, other ≠ tx → m'.writes other = m.writes other

section

variable {m m' m'' : MemoryStore} {tx : Nat} {row : Execution} {x : String} {n : Nat}

theorem Beside.refl (tx : Nat) (m : MemoryStore) : Beside tx m m := ⟨Nat.le_refl _, fun _ _ => rfl⟩

theorem Beside.trans (first : Beside tx m m') (second : Beside tx m' m'') : Beside tx m m'' :=
  ⟨Nat.le_trans first.next second.next, fun other apart =>
    (second.writes other apart).trans (first.writes other apart)⟩

theorem setWrites_beside (m : MemoryStore) (tx : Nat) (writes : PendingWrites) :
    Beside tx m (m.setWrites tx writes) := by
  refine ⟨Nat.le_refl _, fun other apart => ?_⟩
  rw [get?_writes_setWrites, if_neg apart]

theorem drop_beside (m : MemoryStore) (tx : Nat) : Beside tx m (m.drop tx) := by
  refine ⟨Nat.le_refl _, fun other apart => ?_⟩
  rw [writes, drop, Numbered.get?_erase, if_neg apart]
  rfl

theorem begin_beside (m : MemoryStore) : Beside m.begin.1 m m.begin.2 := by
  refine ⟨Nat.le_succ _, fun other apart => ?_⟩
  rw [writes_begin]
  exact if_neg apart

theorem write_beside (m : MemoryStore) (tx : Nat) (w : RowWrite) :
    Beside tx m (m.write tx w).2 := by
  cases w with
  | insert row =>
    simp only [write, insert]
    split
    · exact .refl tx m
    · exact m.setWrites_beside tx _
  | update row expected =>
    simp only [write, update]
    split
    · exact .refl tx m
    · split
      · exact .refl tx m
      · split
        · exact m.setWrites_beside tx _
        · exact m.setWrites_beside tx _

theorem commit_beside (m : MemoryStore) (tx : Nat) : Beside tx m (m.commit tx).2 := by
  simp only [commit]
  split
  · exact .refl tx m
  · exact ⟨Nat.le_refl _, (setWrites_beside _ tx []).writes⟩

/-- One command of somebody's transaction. -/
theorem Sees.execute_beside {now : RowMap} (sees : m.Sees tx now) (command : RowCommand) :
    ∃ m', ((Store.memory m).execute tx command).2 = .memory m' ∧ Beside tx m m' ∧
      ∃ now', m'.Sees tx now' := by
  cases command with
  | write w =>
    obtain ⟨-, -, sees⟩ := sees.write w
    exact ⟨(m.write tx w).2, by cases w <;> rfl, m.write_beside tx w, _, sees⟩
  | read q => exact ⟨m, by cases q <;> rfl, .refl tx m, now, sees⟩

theorem Sees.finish_beside {now : RowMap} (sees : m.Sees tx now) (ending : WorkEnd) :
    ∃ m', ((Store.memory m).finish tx ending).2.2 = .memory m' ∧ Beside tx m m' ∧
      RowMap.Keyed m'.committed := by
  cases ending with
  | commit =>
    obtain ⟨-, committed, keyed⟩ := sees.commit
    exact ⟨(m.commit tx).2.drop tx, rfl, (m.commit_beside tx).trans (drop_beside _ tx),
      committed ▸ keyed⟩
  | rollback =>
    exact ⟨(m.rollback tx).drop tx, rfl, (m.setWrites_beside tx []).trans (drop_beside _ tx),
      sees.keyed⟩
  | drop => exact ⟨m.drop tx, rfl, m.drop_beside tx, sees.keyed⟩

/-- A whole transaction leaves every transaction alone that was open before. -/
theorem perform_beside (keyed : RowMap.Keyed m.committed) (work : Work) :
    ∃ m', ((Store.memory m).perform work).2 = .memory m' ∧ RowMap.Keyed m'.committed ∧
      Beside m.transactions.next m m' := by
  have start : ∃ m', Store.memory m.begin.2 = .memory m' ∧
      Beside m.begin.1 m m' ∧ ∃ now, m'.Sees m.begin.1 now :=
    ⟨m.begin.2, rfl, m.begin_beside, m.committed, .begin keyed⟩
  obtain ⟨m₁, ran, beside, now, sees⟩ := answers_keeps (Store.execute m.begin.1)
    (fun s => ∃ m', s = .memory m' ∧ Beside m.begin.1 m m' ∧ ∃ now, m'.Sees m.begin.1 now)
    start (fun s command before => by
      obtain ⟨m₁, rfl, beside, now, sees⟩ := before
      obtain ⟨m₂, executed, later, seen⟩ := sees.execute_beside command
      exact ⟨m₂, executed, beside.trans later, seen⟩) work.commands
  obtain ⟨m₂, finished, later, keyed⟩ := sees.finish_beside work.ending
  refine ⟨m₂, ?_, keyed, beside.trans later⟩
  rw [← finished, ← ran]
  rfl

/-- What is known of the rows in memory at a stage of one writer. -/
def Holds (m : MemoryStore) : Hold → Prop
  | .free => RowMap.Keyed m.committed
  | .fresh tx => RowMap.Keyed m.committed ∧ tx < m.transactions.next ∧ m.writes tx = []
  | .wrote tx x row n => RowMap.Keyed m.committed ∧ tx < m.transactions.next ∧ row.id = x ∧
      ∃ version, m.writes tx = [⟨{ row with version }, some n⟩]
  | .ended _ => RowMap.Keyed m.committed

theorem Holds.keyed {h : Hold} (holds : m.Holds h) : RowMap.Keyed m.committed := by
  cases h with
  | free => exact holds
  | fresh => exact holds.1
  | wrote => exact holds.1
  | ended => exact holds

theorem Holds.beside {h : Hold} (holds : m.Holds h) (keyed : RowMap.Keyed m'.committed)
    (beside : Beside m.transactions.next m m') : m'.Holds h := by
  have spared {tx : Nat} (old : tx < m.transactions.next) : m'.writes tx = m.writes tx :=
    beside.writes tx (Nat.ne_of_lt old)
  cases h with
  | free => exact keyed
  | fresh tx =>
    obtain ⟨-, old, nothing⟩ := holds
    exact ⟨keyed, Nat.lt_of_lt_of_le old beside.next, (spared old).trans nothing⟩
  | wrote tx x row n =>
    obtain ⟨-, old, named, version, own⟩ := holds
    exact ⟨keyed, Nat.lt_of_lt_of_le old beside.next, named, version, (spared old).trans own⟩
  | ended => exact keyed

theorem Holds.find? (fresh : m.Holds (.fresh tx)) (x : String) :
    m.find? tx x = m.committed.get? x := by
  rw [MemoryStore.find?, fresh.2.2]
  rfl

theorem Holds.update (fresh : m.Holds (.fresh tx)) (named : row.id = x) :
    ∃ answer m', m.update tx row n = (answer, m') ∧ m'.committed = m.committed ∧
      match answer with
      | .error refusal => Declines (m.committed.get? x) n refusal ∧ m'.Holds (.fresh tx)
      | .ok _ => HasVersion (m.committed.get? x) n ∧ m'.Holds (.wrote tx x row n) := by
  obtain ⟨keyed, old, nothing⟩ := fresh
  have seen : m.find? tx row.id = m.committed.get? x := by
    rw [Holds.find? ⟨keyed, old, nothing⟩, named]
  rw [MemoryStore.update, seen]
  cases m.committed.get? x with
  | none => exact ⟨_, m, rfl, rfl, .inl ⟨rfl, rfl⟩, keyed, old, nothing⟩
  | some current =>
    dsimp only
    by_cases same : current.version = n
    · have fresh : PendingWrites.find? (m.writes tx) row.id = none := by
        rw [nothing]
        rfl
      rw [if_neg (not_not.2 same), fresh]
      refine ⟨_, _, rfl, rfl, ⟨current, rfl, same⟩, keyed, old, named, wrapWord64 (n + 1), ?_⟩
      rw [get?_writes_setWrites, if_pos rfl, nothing, add_nil]
    · rw [if_pos same]
      refine ⟨_, m, rfl, rfl, .inr ⟨Option.some_ne_none current, ?_, rfl⟩, keyed, old, nothing⟩
      rwa [hasVersion_some]

/-- The commit finds its write stale if the row has another version by then. -/
theorem Holds.stale? (wrote : m.Holds (.wrote tx x row n)) :
    ((m.writes tx).findSome? m.staleWrite? = none ↔ HasVersion (m.committed.get? x) n) ∧
      ∀ failure, (m.writes tx).findSome? m.staleWrite? = some failure →
        failure.kind = .conflict := by
  obtain ⟨-, -, rfl, version, own⟩ := wrote
  rw [own, List.findSome?_singleton, staleWrite?]
  dsimp only
  cases m.committed.get? row.id with
  | none =>
    constructor
    · simp
    · intro failure stale
      cases stale
      rfl
  | some current =>
    dsimp only
    rw [hasVersion_some]
    by_cases same : current.version = n
    · rw [if_pos same]
      exact ⟨⟨fun _ => same, fun _ => rfl⟩, fun _ stale => by cases stale⟩
    · rw [if_neg same]
      constructor
      · simp [same]
      · intro failure stale
        cases stale
        rfl

end

end MemoryStore

/-- The rows in memory. -/
def Sharing.inMemory : Sharing Store.shared where
  holds h s := ∃ m, s = .memory m ∧ m.Holds h
  reads x row := row.id = x
  alone := False
  intruded := by
    rintro h _ i ⟨m, rfl, holds⟩
    obtain ⟨m', performed, keyed, beside⟩ := m.perform_beside holds.keyed i.work
    exact ⟨m', performed, holds.beside keyed beside⟩
  begins := by
    rintro _ ⟨m, rfl, keyed⟩
    refine ⟨m.begin.1, .memory m.begin.2, rfl, rfl, m.begin.2, rfl, keyed, Nat.lt_succ_self _, ?_⟩
    rw [MemoryStore.writes_begin]
    exact if_pos rfl
  finds := by
    rintro _ tx x ⟨m, rfl, fresh⟩
    refine ⟨fun row found => fresh.keyed x row found, .memory m, ?_, rfl, m, rfl, fresh⟩
    show (Store.memory m).find? tx x = _
    rw [Store.find?, fresh.find?]
    rfl
  ends := by
    rintro _ tx ⟨m, rfl, keyed, old, nothing⟩
    refine ⟨.memory (m.setWrites tx []), ?_, rfl, _, rfl, keyed⟩
    show (Store.memory m).commit tx = _
    rw [Store.commit, MemoryStore.commit, nothing]
    rfl
  updates := by
    rintro _ tx x seen row ⟨m, rfl, fresh⟩ reads same -
    obtain ⟨answer, m', updated, keeps, after⟩ := fresh.update (n := seen.version)
      (same.trans reads)
    have updated : (Store.memory m).update tx row seen.version = (.ok answer, .memory m') := by
      rw [Store.update, updated]
    refine ⟨answer, .memory m', updated, keeps, ?_⟩
    cases answer with
    | error refusal => exact ⟨after.1, m', rfl, after.2⟩
    | ok version => exact ⟨after.1, m', rfl, after.2⟩
  commits := by
    rintro _ tx x row n ⟨m, rfl, wrote⟩ has
    have fresh := wrote.stale?.1.2 has
    obtain ⟨keyed, old, rfl, version, own⟩ := wrote
    let m' := { m with committed := m.committed.insert row.id { row with version } }
    have ends : (Store.memory m).commit tx = (.ok (), .memory (m'.setWrites tx [])) := by
      rw [Store.commit, MemoryStore.commit, fresh, own]
      rfl
    refine ⟨_, ends, ⟨_, rfl, ?_⟩, { row with version }, Dictionary.get?_insert_self .., rfl⟩
    exact keyed.put (w := .insert { row with version })
  loses := by
    rintro _ tx x row n ⟨m, rfl, wrote⟩ lacks
    obtain ⟨fresh, conflict⟩ := wrote.stale?
    obtain ⟨failure, found⟩ := Option.ne_none_iff_exists'.1 (mt fresh.1 lacks)
    refine ⟨failure, .memory m, ?_, conflict failure found, rfl, m, rfl, wrote⟩
    show (Store.memory m).commit tx = _
    rw [Store.commit, MemoryStore.commit, found]
  waits := by
    intro _ _ _ _ _ alone
    exact alone.elim
  drops := by
    rintro h _ tx ⟨m, rfl, holds⟩ -
    exact ⟨rfl, m.drop tx, rfl, holds.keyed⟩

end SagaEngine
