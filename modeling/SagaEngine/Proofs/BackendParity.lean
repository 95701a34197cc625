import SagaEngine.Proofs.CollectedWrites
import SagaEngine.Proofs.DatabaseRows
import SagaEngine.Store.Backend
/-!
# Both backends are one store

Transactions are opened one at a time, and each of them carries out any writes and
questions before it is committed, rolled back or dropped. What they are answered is
written down for a map of rows. A store that keeps step with the map through the
opening of a transaction, through one command and through its end gives the same
answers to any transactions; the rows in memory and the rows in a database both do.
Main statements: `Implementation.run` and `backends_agree`.
-/

namespace SagaEngine

/-! ## Transactions and their answers -/

/-- What a transaction can ask for. -/
inductive RowCommand where
  | write (w : RowWrite)
  | read (q : RowQuery)
  deriving DecidableEq, Repr

/-- How a transaction comes to its end. -/
inductive WorkEnd where
  | commit
  | rollback
  | drop
  deriving DecidableEq, Repr

structure Work where
  commands : List RowCommand
  ending : WorkEnd
  deriving DecidableEq, Repr

inductive RowReply where
  | written (answer : Except WriteCode Nat)
  | rows (found : List Execution)
  | failed (failure : StoreFailure)

def RowReply.ofRows : Except StoreFailure (List Execution) → RowReply
  | .ok found => rows found
  | .error failure => failed failure

/-- What a whole transaction is answered: its replies, how it ended, and the line that is
logged when it is closed. -/
structure WorkOutcome where
  replies : List RowReply
  ended : Except StoreFailure Unit
  line : Option LogEntry

section

variable {σ τ α β : Type}

/-- Takes one step after another and collects the answers. -/
def answers (step : σ → α → β × σ) (s : σ) : List α → List β × σ
  | [] => ([], s)
  | a :: as =>
    let (b, s) := step s a
    let (bs, s) := answers step s as
    (b :: bs, s)

/-- A condition holds before every step. -/
def Along (step : σ → α → β × σ) (fits : α → σ → Prop) (s : σ) : List α → Prop
  | [] => True
  | a :: as => fits a s ∧ Along step fits (step s a).2 as

instance decidableAlong (step : σ → α → β × σ) (fits : α → σ → Prop)
    [∀ a s, Decidable (fits a s)] : ∀ s as, Decidable (Along step fits s as)
  | _, [] => inferInstanceAs (Decidable True)
  | s, a :: as =>
    have := decidableAlong step fits (step s a).2 as
    inferInstanceAs (Decidable (fits a s ∧ Along step fits (step s a).2 as))

/-- The same answer, and states that belong together. -/
def Agree (rel : σ → τ → Prop) (left : β × σ) (right : β × τ) : Prop :=
  left.1 = right.1 ∧ rel left.2 right.2

/-- Steps that keep two states together give the same answers. -/
theorem answers_agree {step : σ → α → β × σ} {step' : τ → α → β × τ} {rel : σ → τ → Prop}
    {fits : α → τ → Prop} {s : σ} {t : τ} {as : List α} (start : rel s t)
    (along : Along step' fits t as)
    (next : ∀ s t a, rel s t → fits a t → Agree rel (step s a) (step' t a)) :
    Agree rel (answers step s as) (answers step' t as) := by
  induction as generalizing s t with
  | nil => exact ⟨rfl, start⟩
  | cons a as ih =>
    obtain ⟨fits, along⟩ := along
    obtain ⟨same, together⟩ := next s t a start fits
    obtain ⟨same', together'⟩ := ih together along
    refine ⟨?_, together'⟩
    simp only [answers, same, same']

end

namespace Store

def write (tx : Nat) (s : Store) : RowWrite → RowReply × Store
  | .insert row =>
    let (answer, s) := s.insert tx row
    (.written ((answer.mapError Refusal.code).map fun _ => row.version), s)
  | .update row expected =>
    match s.update tx row expected with
    | (.ok answer, s) => (.written (answer.mapError Refusal.code), s)
    | (.error failure, s) => (.failed failure, s)

def read (tx : Nat) (s : Store) : RowQuery → RowReply × Store
  | .find x =>
    let (answer, s) := s.find? tx x
    (.ofRows (answer.map Option.toList), s)
  | .inStatus status limit =>
    let (answer, s) := s.listByStatus tx status limit
    (.ofRows answer, s)
  | .stale q =>
    let (answer, s) := s.listStale tx q
    (.ofRows answer, s)

def execute (tx : Nat) (s : Store) : RowCommand → RowReply × Store
  | .write w => s.write tx w
  | .read q => s.read tx q

/-- Ends a transaction and closes it. -/
def finish (tx : Nat) (s : Store) (ending : WorkEnd) :
    Except StoreFailure Unit × Option LogEntry × Store :=
  let (ended, s) := match ending with
    | .commit => s.commit tx
    | .rollback => s.rollback tx
    | .drop => (.ok (), s)
  (ended, s.drop tx)

def perform (s : Store) (work : Work) : Except StoreFailure WorkOutcome × Store :=
  match s.begin with
  | (.error failure, s) => (.error failure, s)
  | (.ok tx, s) =>
    let (replies, s) := answers (execute tx) s work.commands
    let (ended, line, s) := s.finish tx work.ending
    (.ok ⟨replies, ended, line⟩, s)

def run (s : Store) (works : List Work) : List (Except StoreFailure WorkOutcome) × Store :=
  answers perform s works

end Store

/-! ## The map of rows -/

namespace RowMap

def execute (rows : RowMap) : RowCommand → RowReply × RowMap
  | .write w => (.written (w.answer rows), rows.write w)
  | .read q => (.rows (q.answer rows), rows)

/-- The committed rows after a transaction. -/
def leave (rows now : RowMap) : WorkEnd → RowMap
  | .commit => now
  | .rollback => rows
  | .drop => rows

def perform (rows : RowMap) (work : Work) : Except StoreFailure WorkOutcome × RowMap :=
  let (replies, now) := answers execute rows work.commands
  (.ok ⟨replies, .ok (), none⟩, rows.leave now work.ending)

def run (rows : RowMap) (works : List Work) : List (Except StoreFailure WorkOutcome) × RowMap :=
  answers perform rows works

end RowMap

def RowCommand.Fits (command : RowCommand) (rows : RowMap) : Prop :=
  match command with
  | .write w => w.Fits rows
  | .read q => q.Fits rows

instance (command : RowCommand) (rows : RowMap) : Decidable (command.Fits rows) :=
  match command with
  | .write w => inferInstanceAs (Decidable (w.Fits rows))
  | .read q => inferInstanceAs (Decidable (q.Fits rows))

def Work.Fits (work : Work) (rows : RowMap) : Prop :=
  Along RowMap.execute RowCommand.Fits rows work.commands

instance (work : Work) (rows : RowMap) : Decidable (work.Fits rows) :=
  decidableAlong _ _ _ _

/-- Whatever the transactions hand to a store survives the encoding of a table. -/
def Admissible (works : List Work) : Prop :=
  Along RowMap.perform Work.Fits Dictionary.empty works

instance (works : List Work) : Decidable (Admissible works) := decidableAlong _ _ _ _

/-! ## Stores that keep step with a map -/

/-- Stores that stand for a map of rows: what they are between two transactions and inside one
that began with some committed rows, and how each part of a transaction keeps step. -/
structure Implementation where
  idle : Store → RowMap → Prop
  inside : Nat → RowMap → Store → RowMap → Prop
  begins {s : Store} {rows : RowMap} : idle s rows →
    ∃ tx s', s.begin = (.ok tx, s') ∧ inside tx rows s' rows
  executes {s : Store} {rows now : RowMap} {tx : Nat} {command : RowCommand} :
    inside tx rows s now → command.Fits now →
      Agree (inside tx rows) (s.execute tx command) (now.execute command)
  finishes {s : Store} {rows now : RowMap} {tx : Nat} (ending : WorkEnd) : inside tx rows s now →
    ∃ s', s.finish tx ending = (.ok (), none, s') ∧ idle s' (rows.leave now ending)

namespace Implementation

variable (i : Implementation) {s : Store} {rows : RowMap}

/-- A whole transaction keeps step. -/
theorem perform (idle : i.idle s rows) {work : Work} (fits : work.Fits rows) :
    Agree i.idle (s.perform work) (rows.perform work) := by
  obtain ⟨tx, s₁, begun, inside⟩ := i.begins idle
  -- the commands keep step by induction, and then only the end of the transaction is left
  have together : Agree (i.inside tx rows) (answers (Store.execute tx) s₁ work.commands)
      (answers RowMap.execute rows work.commands) :=
    answers_agree inside fits fun _ _ _ inside fits => i.executes inside fits
  obtain ⟨s₂, finished, idle⟩ := i.finishes work.ending together.2
  have performed : s.perform work = (.ok ⟨(answers RowMap.execute rows work.commands).1, .ok (),
      none⟩, s₂) := by
    simp only [Store.perform, begun, finished, together.1]
  rw [performed]
  exact ⟨rfl, idle⟩

/-- So does any sequence of transactions. -/
theorem run (idle : i.idle s rows) {works : List Work}
    (fits : Along RowMap.perform Work.Fits rows works) :
    Agree i.idle (s.run works) (rows.run works) := by
  rw [Store.run, RowMap.run]
  exact answers_agree idle fits fun _ _ _ idle fits => i.perform idle fits

end Implementation

/-! ## The rows in memory -/

/-- A transaction in memory has collected the writes that lead from the committed rows to those
that it sees. -/
structure MemoryStore.Sees (m : MemoryStore) (tx : Nat) (now : RowMap) : Prop where
  keyed : RowMap.Keyed m.committed
  own : ∃ ws, Collects (m.writes tx) ws ∧ RowMap.Accepts m.committed ws ∧
    now = RowMap.putAll m.committed ws

namespace MemoryStore

variable {m : MemoryStore} {tx : Nat} {now : RowMap}

theorem Sees.write (sees : m.Sees tx now) (w : RowWrite) :
    (m.write tx w).1 = w.answer now ∧ (m.write tx w).2.committed = m.committed ∧
      (m.write tx w).2.Sees tx (now.write w) := by
  obtain ⟨ws, collects, accepts, rfl⟩ := sees.own
  rw [RowWrite.answer, RowMap.write]
  cases declined : w.declined? (RowMap.putAll m.committed ws) with
  | some code =>
    rw [write_declined collects declined]
    exact ⟨rfl, rfl, sees⟩
  | none =>
    obtain ⟨written, collects'⟩ := write_accepted collects declined
    have own : (m.setWrites tx (m.collect tx w)).writes tx = m.collect tx w := by
      rw [get?_writes_setWrites, if_pos rfl]
    rw [written]
    refine ⟨rfl, rfl, sees.keyed, ws ++ [w], by rwa [own], ?_, ?_⟩
    · exact RowMap.accepts_concat.2 ⟨accepts, declined⟩
    · exact RowMap.putAll_concat.symm

theorem Sees.read (sees : m.Sees tx now) (q : RowQuery) : m.read tx q = q.answer now := by
  obtain ⟨ws, collects, -, rfl⟩ := sees.own
  exact read_eq collects sees.keyed q

theorem Sees.commit (sees : m.Sees tx now) :
    (m.commit tx).1 = .ok () ∧ (m.commit tx).2.committed = now ∧ now.Keyed := by
  obtain ⟨ws, collects, accepts, rfl⟩ := sees.own
  rw [commit_accepted collects accepts]
  exact ⟨rfl, rfl, sees.keyed.putAll⟩

theorem Sees.begin (keyed : RowMap.Keyed m.committed) : m.begin.2.Sees m.begin.1 m.committed := by
  have fresh : m.begin.2.writes m.begin.1 = [] := (m.writes_begin _).trans (if_pos rfl)
  exact ⟨keyed, [], fresh ▸ .nothing, trivial, rfl⟩

theorem Sees.execute (sees : m.Sees tx now) (command : RowCommand) :
    ∃ m', (Store.memory m).execute tx command = ((now.execute command).1, .memory m') ∧
      m'.committed = m.committed ∧ m'.Sees tx (now.execute command).2 := by
  cases command with
  | write w =>
    obtain ⟨same, committed, sees⟩ := sees.write w
    have written : (Store.memory m).write tx w =
        (.written (m.write tx w).1, .memory (m.write tx w).2) := by
      cases w <;> rfl
    rw [Store.execute, written, same]
    exact ⟨_, rfl, committed, sees⟩
  | read q =>
    have asked : (Store.memory m).read tx q = (.rows (m.read tx q), .memory m) := by
      cases q <;> rfl
    rw [Store.execute, asked, sees.read]
    exact ⟨m, rfl, rfl, sees⟩

theorem Sees.finish (sees : m.Sees tx now) (ending : WorkEnd) :
    ∃ m', (Store.memory m).finish tx ending = (.ok (), none, .memory m') ∧
      m'.committed = RowMap.leave m.committed now ending ∧ RowMap.Keyed m'.committed := by
  cases ending with
  | commit =>
    obtain ⟨done, committed, keyed⟩ := sees.commit
    refine ⟨(m.commit tx).2.drop tx, ?_, committed, committed ▸ keyed⟩
    simp only [Store.finish, Store.commit, Store.drop, done]
  | rollback => exact ⟨_, rfl, rfl, sees.keyed⟩
  | drop => exact ⟨_, rfl, rfl, sees.keyed⟩

end MemoryStore

def Implementation.inMemory : Implementation where
  idle s rows := ∃ m, s = .memory m ∧ m.committed = rows ∧ RowMap.Keyed m.committed
  inside tx rows s now := ∃ m, s = .memory m ∧ m.committed = rows ∧ m.Sees tx now
  begins := by
    rintro _ _ ⟨m, rfl, rfl, keyed⟩
    exact ⟨_, _, rfl, m.begin.2, rfl, rfl, .begin keyed⟩
  executes := by
    rintro _ _ _ _ command ⟨m, rfl, rfl, sees⟩ -
    obtain ⟨m', executed, same, sees⟩ := sees.execute command
    rw [executed]
    exact ⟨rfl, m', rfl, same, sees⟩
  finishes := by
    rintro _ _ _ _ ending ⟨m, rfl, rfl, sees⟩
    obtain ⟨m', finished, same, keyed⟩ := sees.finish ending
    exact ⟨_, finished, m', rfl, same, keyed⟩

/-! ## The rows in a database -/

namespace Database

variable {d : Database} {c tx : Nat} {committed now : RowMap}

theorem Inside.execute (inside : d.Inside c tx committed.table now.table) (storable : now.Storable)
    {command : RowCommand} (fits : command.Fits now) :
    ∃ d', (Store.database d c).execute tx command = ((now.execute command).1, .database d' c) ∧
      d'.Inside c tx committed.table (now.execute command).2.table := by
  cases command with
  | write w =>
    cases w with
    | insert row =>
      obtain ⟨answer, d', written, same, inside⟩ := inside.insert fits
      refine ⟨d', ?_, inside⟩
      simp only [Store.execute, Store.write, Store.insert, written, same, RowMap.execute]
    | update row expected =>
      obtain ⟨answer, d', written, same, inside⟩ := inside.update storable fits
      refine ⟨d', ?_, inside⟩
      simp only [Store.execute, Store.write, Store.update, written, same, RowMap.execute]
  | read q =>
    have fits : q.Fits now := fits
    cases q with
    | find x =>
      obtain ⟨d', found, inside⟩ := inside.find? storable fits
      refine ⟨d', ?_, inside⟩
      simp only [Store.execute, Store.read, Store.find?, found]
      rfl
    | inStatus status limit =>
      obtain ⟨d', listed, inside⟩ := inside.listByStatus storable fits
      refine ⟨d', ?_, inside⟩
      simp only [Store.execute, Store.read, Store.listByStatus, listed]
      rfl
    | stale q =>
      obtain ⟨d', listed, inside⟩ := inside.listStale storable fits
      refine ⟨d', ?_, inside⟩
      simp only [Store.execute, Store.read, Store.listStale, listed]
      rfl

theorem Inside.finish (inside : d.Inside c tx committed.table now.table) (ending : WorkEnd) :
    ∃ d', (Store.database d c).finish tx ending = (.ok (), none, .database d' c) ∧
      d'.Idle c (committed.leave now ending).table := by
  cases ending with
  | commit =>
    obtain ⟨d', done, idle, session⟩ := inside.commit
    obtain ⟨d'', dropped, idle⟩ := idle.drop session
    refine ⟨d'', ?_, idle⟩
    simp only [Store.finish, Store.commit, Store.drop, done, dropped]
  | rollback =>
    obtain ⟨d', undone, idle, session⟩ := inside.rollback
    obtain ⟨d'', dropped, idle⟩ := idle.drop session
    refine ⟨d'', ?_, idle⟩
    simp only [Store.finish, Store.rollback, Store.drop, undone, dropped]
  | drop =>
    obtain ⟨d', dropped, idle⟩ := inside.drop
    refine ⟨d', ?_, idle⟩
    simp only [Store.finish, Store.drop, dropped]

end Database

theorem RowMap.Storable.execute {rows : RowMap} (storable : rows.Storable) {command : RowCommand}
    (fits : command.Fits rows) : (rows.execute command).2.Storable := by
  cases command with
  | write w => exact storable.write fits
  | read q => exact storable

theorem RowMap.Storable.leave {rows now : RowMap} (storable : rows.Storable)
    (storable' : now.Storable) (ending : WorkEnd) : (rows.leave now ending).Storable := by
  cases ending with
  | commit => exact storable'
  | rollback => exact storable
  | drop => exact storable

def Implementation.inDatabase (c : Nat) : Implementation where
  idle s rows := rows.Storable ∧ ∃ d, s = .database d c ∧ d.Idle c rows.table
  inside tx rows s now := rows.Storable ∧ now.Storable ∧
    ∃ d, s = .database d c ∧ d.Inside c tx rows.table now.table
  begins := by
    rintro _ _ ⟨storable, d, rfl, idle⟩
    obtain ⟨tx, d', begun, inside⟩ := idle.begin
    refine ⟨tx, .database d' c, ?_, storable, storable, d', rfl, inside⟩
    simp only [Store.begin, begun]
  executes := by
    rintro _ _ _ _ command ⟨storable, storable', d, rfl, inside⟩ fits
    obtain ⟨d', executed, inside⟩ := inside.execute storable' fits
    rw [executed]
    exact ⟨rfl, storable, storable'.execute fits, d', rfl, inside⟩
  finishes := by
    rintro _ _ _ _ ending ⟨storable, storable', d, rfl, inside⟩
    obtain ⟨d', finished, idle⟩ := inside.finish ending
    exact ⟨_, finished, storable.leave storable' ending, d', rfl, idle⟩

/-- Any transactions, opened one at a time, are answered by the rows in memory and by a new
database as by a map of rows. -/
theorem backends_agree (path : String) (usesLog : Bool) :
    ∃ c d, ({ path, usesLog } : Database).connect true = (.ok c, d) ∧
      ∀ works, Admissible works →
        (Store.inMemory.run works).1 = (RowMap.run Dictionary.empty works).1 ∧
        ((Store.database d c).run works).1 = (RowMap.run Dictionary.empty works).1 := by
  obtain ⟨c, d, opened, idle⟩ := Database.connect_idle path usesLog
  refine ⟨c, d, opened, fun works fits => ⟨?_, ?_⟩⟩
  · exact (Implementation.inMemory.run ⟨{}, rfl, rfl, RowMap.keyed_empty⟩ fits).1
  · exact ((Implementation.inDatabase c).run ⟨RowMap.storable_empty, d, rfl, idle⟩ fits).1

/-- One row written twice, a declined write in between, a limit that a signed word cannot hold,
and transactions of all three ends. -/
theorem backends_agree_row_written_twice :
    let row : Execution := { id := "x", updatedAt := 5, version := 1 }
    let started : Execution := { row with status := .inProgress }
    let works : List Work :=
      [⟨[.write (.insert row), .write (.insert row), .write (.update started 1),
          .write (.update row 1), .read (.inStatus .inProgress 0x8000000000000000)], .commit⟩,
        ⟨[.write (.update row 2), .read (.find "x")], .drop⟩,
        ⟨[.read (.stale { statuses := [.inProgress], updatedBefore := 6 }),
          .write (.update { row with id := "y" } 1)], .rollback⟩]
    Admissible works ∧ ∃ c d,
      ({ path := "saga.db", usesLog := true } : Database).connect true = (.ok c, d) ∧
        (Store.inMemory.run works).1 = (RowMap.run Dictionary.empty works).1 ∧
        ((Store.database d c).run works).1 = (RowMap.run Dictionary.empty works).1 := by
  intro row started works
  have fits : Admissible works := by decide +kernel
  obtain ⟨c, d, opened, agree⟩ := backends_agree "saga.db" true
  exact ⟨fits, c, d, opened, agree works fits⟩

end SagaEngine
