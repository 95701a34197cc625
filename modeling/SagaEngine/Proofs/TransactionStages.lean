import SagaEngine.Store.Backend
/-!
# How far a transaction has come

A transaction has written nothing at first; then it collects writes, and a commit ends it. What the
stage says of the store is all that it takes to know what a request does to the stored rows: they
change by a commit after a write, and by nothing else. Dropping a transaction closes it from any
stage. All this holds of both forms of the store and of whatever is in them. Main statements:
`At.clean_of_begin`, `At.written_of_insert`, `At.written_of_update`, `At.ended_of_commit` and
`At.closed_of_drop`.
-/

namespace SagaEngine

inductive Stage where
  | clean
  | written
  | ended
  deriving DecidableEq, Repr

namespace Database

/-- Only what the connections remember differs. -/
structure Alike (d d' : Database) : Prop where
  sessions : d'.sessions = d.sessions
  writer : d'.writer = d.writer
  committed : d'.committed = d.committed

/-- At most the table of a transaction that is under way differs. -/
structure Aside (d d' : Database) (c : Nat) : Prop where
  sessions : d'.sessions = d.sessions
  writer : ∃ table changed, d'.writer = some ⟨c, table, changed⟩
  committed : d'.committed = d.committed

section

variable {d d' d'' : Database} {c tx : Nat} {α : Type}

theorem Alike.refl (d : Database) : Alike d d := ⟨rfl, rfl, rfl⟩

theorem Alike.trans (first : Alike d d') (second : Alike d' d'') : Alike d d'' :=
  ⟨second.sessions.trans first.sessions, second.writer.trans first.writer,
    second.committed.trans first.committed⟩

theorem Alike.aside (alike : Alike d d')
    (own : ∃ table changed, d.writer = some ⟨c, table, changed⟩) : Aside d d' c :=
  ⟨alike.sessions, by rwa [alike.writer], alike.committed⟩

theorem Aside.trans (first : Aside d d' c) (second : Aside d' d'' c) : Aside d d'' c :=
  ⟨second.sessions.trans first.sessions, second.writer, second.committed.trans first.committed⟩

theorem remember_alike (d : Database) (c : Nat) (known : Option (Option TableShape)) :
    Alike d (d.remember c known) := ⟨rfl, rfl, rfl⟩

theorem prepare_alike (d : Database) (c : Nat) : Alike d (d.prepare c).2 := by
  unfold prepare
  split
  · exact .refl d
  · split
    · exact .refl d
    · exact d.remember_alike c _
  · split
    · exact .refl d
    · exact d.remember_alike c _

theorem read_alike (d : Database) (c : Nat) (preparing stepping : SqlFault → StoreFailure)
    (query : ExecutionTable → Except StoreFailure α) :
    Alike d (d.read c preparing stepping query).2 := by
  have prepared := d.prepare_alike c
  unfold read
  generalize d.prepare c = result at prepared ⊢
  obtain ⟨_ | _, d₁⟩ := result
  · exact prepared
  · dsimp only at prepared ⊢
    cases d₁.readFault? c with
    | some fault => exact prepared
    | none =>
      have noted := prepared.trans (d₁.remember_alike c (some (d₁.seenShape c)))
      dsimp only
      split
      · exact noted
      · exact noted

theorem carryOut_aside (own : ∃ table changed, d.writer = some ⟨c, table, changed⟩)
    (change : TableChange) : Aside d (d.carryOut c change) c := by
  obtain ⟨table, changed, writer⟩ := own
  cases change with
  | kept => exact (Alike.refl d).aside ⟨table, changed, writer⟩
  | replaced new =>
    simp only [carryOut, setContents, writer, if_true]
    exact ⟨rfl, ⟨some new, true, rfl⟩, rfl⟩
  | dropped =>
    simp only [carryOut, setContents, writer, if_true]
    exact ⟨rfl, ⟨none, true, rfl⟩, rfl⟩

/-- A statement inside a transaction changes its own table at most. -/
theorem write_aside (own : ∃ table changed, d.writer = some ⟨c, table, changed⟩)
    (statement : ExecutionTable → Except SqlFault (TableChange × α)) :
    Aside d (d.write c statement).2 c := by
  have prepared := d.prepare_alike c
  unfold write
  generalize d.prepare c = result at prepared ⊢
  obtain ⟨_ | _, d₁⟩ := result
  · exact prepared.aside own
  · dsimp only at prepared ⊢
    cases d₁.writeFault? c with
    | some fault => exact prepared.aside own
    | none =>
      have noted := prepared.trans (d₁.remember_alike c (some (d₁.seenShape c)))
      generalize d₁.remember c (some (d₁.seenShape c)) = d₂ at noted ⊢
      dsimp only
      split
      · exact noted.aside own
      · split
        · exact noted.aside own
        · exact (noted.aside own).trans (carryOut_aside (by rwa [noted.writer]) _)

theorem update_aside (own : ∃ table changed, d.writer = some ⟨d.connectionOf tx, table, changed⟩)
    (row : Execution) (expected : Nat) :
    Aside d (d.update tx row expected).2 (d.connectionOf tx) := by
  unfold update
  dsimp only
  generalize written : d.write (d.connectionOf tx) _ = result
  have aside := congrArg Prod.snd written ▸ write_aside own _
  obtain ⟨answer, d₁⟩ := result
  rcases answer with fault | _ | _
  · exact aside
  · have looked : Alike d₁ (d₁.find? tx row.id).2 := d₁.read_alike ..
    have both := aside.trans (looked.aside aside.writer)
    dsimp only
    rcases found : d₁.find? tx row.id with ⟨_ | _ | _, d₂⟩
    all_goals
      rw [show d₂ = (d₁.find? tx row.id).2 by rw [found]]
      exact both
  · exact aside

end

end Database

namespace Store

/-- The stored rows are the same. -/
def Keeps : Store → Store → Prop
  | memory s, memory s' => s'.committed = s.committed
  | database d _, database d' _ => d'.committed = d.committed
  | _, _ => False

/-- What the store knows of a transaction at a stage. -/
def At (tx : Nat) : Stage → Store → Prop
  | .clean, memory s => s.writes tx = []
  | _, memory _ => True
  | .clean, database d c =>
    d.sessions.get? tx = some ⟨c, false⟩ ∧ ∃ changed, d.writer = some ⟨c, d.committed, changed⟩
  | .written, database d c =>
    d.sessions.get? tx = some ⟨c, false⟩ ∧ ∃ table changed, d.writer = some ⟨c, table, changed⟩
  | .ended, database d c => d.sessions.get? tx = some ⟨c, true⟩ ∧ d.writer = none

/-- Nothing is left of a transaction. -/
def Closed (tx : Nat) : Store → Prop
  | memory s => s.transactions.get? tx = none
  | database d c => d.sessions.get? tx = none ∧ d.isWriting c = false

variable {s s' : Store} {tx : Nat} {stage : Stage}

theorem Keeps.refl (s : Store) : Keeps s s := by
  cases s <;> rfl

theorem Keeps.trans {s'' : Store} (first : Keeps s s') (second : Keeps s' s'') : Keeps s s'' := by
  cases s <;> cases s' <;> cases s'' <;>
    first | exact Eq.trans second first | exact first.elim | exact second.elim

theorem At.clean_of_begin {answer : Except StoreFailure Nat} (begun : s.begin = (answer, s')) :
    Keeps s s' ∧ ∀ tx, answer = .ok tx → At tx .clean s' := by
  cases s with
  | memory s =>
    cases begun
    refine ⟨rfl, ?_⟩
    rintro _ ⟨⟩
    show ((s.transactions.add []).2.get? s.transactions.next).getD [] = []
    rw [Numbered.get?_add, if_pos rfl]
    rfl
  | database d c =>
    simp only [begin, Database.begin] at begun
    split at begun
    · cases begun
      refine ⟨rfl, ?_⟩
      intro tx opened
      cases opened
    · cases begun
      refine ⟨rfl, ?_⟩
      rintro _ ⟨⟩
      refine ⟨?_, d.blank, rfl⟩
      show (d.sessions.add ⟨c, false⟩).2.get? d.sessions.next = some ⟨c, false⟩
      rw [Numbered.get?_add, if_pos rfl]

/-- Reading moves a transaction nowhere. -/
theorem At.of_alike {d d' : Database} {c : Nat} (alike : d.Alike d')
    (here : At tx stage (.database d c)) :
    Keeps (.database d c) (.database d' c) ∧ At tx stage (.database d' c) := by
  refine ⟨alike.committed, ?_⟩
  cases stage with
  | clean | written | ended =>
    simp only [At, alike.sessions, alike.writer, alike.committed] at here ⊢
    exact here

theorem At.of_find (here : At tx stage s) (x : String) :
    Keeps s (s.find? tx x).2 ∧ At tx stage (s.find? tx x).2 := by
  cases s with
  | memory s => exact ⟨rfl, here⟩
  | database d c => exact here.of_alike (d.read_alike ..)

theorem At.of_listByStatus (here : At tx stage s) (status : Status) (limit : Nat) :
    Keeps s (s.listByStatus tx status limit).2 ∧
      At tx stage (s.listByStatus tx status limit).2 := by
  cases s with
  | memory s => exact ⟨rfl, here⟩
  | database d c => exact here.of_alike (d.read_alike ..)

theorem At.of_listStale (here : At tx stage s) (q : StaleQuery) :
    Keeps s (s.listStale tx q).2 ∧ At tx stage (s.listStale tx q).2 := by
  cases s with
  | memory s => exact ⟨rfl, here⟩
  | database d c =>
    simp only [listStale, Database.listStale]
    split
    · exact ⟨rfl, here⟩
    · exact here.of_alike (d.read_alike ..)

theorem At.written (here : At tx stage s) (going : stage ≠ .ended) : At tx .written s := by
  cases s with
  | memory s => trivial
  | database d c =>
    cases stage with
    | clean =>
      obtain ⟨session, changed, writer⟩ := here
      exact ⟨session, d.committed, changed, writer⟩
    | written => exact here
    | ended => exact absurd rfl going

theorem At.of_aside {d d' : Database} {c : Nat} (aside : d.Aside d' c)
    (here : At tx .written (.database d c)) :
    Keeps (.database d c) (.database d' c) ∧ At tx .written (.database d' c) := by
  obtain ⟨session, -⟩ := here
  exact ⟨aside.committed, aside.sessions ▸ session, aside.writer⟩

theorem connectionOf_of_session {d : Database} {c : Nat} {ended : Bool}
    (session : d.sessions.get? tx = some ⟨c, ended⟩) : d.connectionOf tx = c := by
  rw [Database.connectionOf, session]
  rfl

theorem At.written_of_insert (here : At tx .written s) (row : Execution) :
    Keeps s (s.insert tx row).2 ∧ At tx .written (s.insert tx row).2 := by
  cases s with
  | memory s =>
    refine ⟨?_, trivial⟩
    show (s.insert tx row).2.committed = s.committed
    unfold MemoryStore.insert
    split <;> rfl
  | database d c =>
    refine here.of_aside ?_
    rw [← connectionOf_of_session here.1]
    exact Database.write_aside (by rw [connectionOf_of_session here.1]; exact here.2) _

theorem At.written_of_update (here : At tx .written s) (row : Execution) (expected : Nat) :
    Keeps s (s.update tx row expected).2 ∧ At tx .written (s.update tx row expected).2 := by
  cases s with
  | memory s =>
    refine ⟨?_, trivial⟩
    show (s.update tx row expected).2.committed = s.committed
    unfold MemoryStore.update
    split
    · rfl
    · split
      · rfl
      · dsimp only
        split <;> rfl
  | database d c =>
    refine here.of_aside ?_
    have own := here.2
    rw [← connectionOf_of_session here.1] at own ⊢
    exact Database.update_aside own row expected

theorem At.ended_of_commit (here : At tx stage s) (going : stage ≠ .ended)
    {answer : Except StoreFailure Unit} (committed : s.commit tx = (answer, s')) :
    (stage = .clean → Keeps s s') ∧
      match answer with
      | .ok _ => At tx .ended s'
      | .error _ => Keeps s s' ∧ At tx stage s' := by
  cases s with
  | memory s =>
    simp only [commit, MemoryStore.commit] at committed
    split at committed
    · cases committed
      exact ⟨fun _ => rfl, rfl, here⟩
    · cases committed
      refine ⟨?_, trivial⟩
      rintro rfl
      show (s.writes tx).foldl _ s.committed = s.committed
      rw [show s.writes tx = [] from here]
      rfl
  | database d c =>
    obtain ⟨session, table, changed, writer⟩ := here.written going
    have connection := connectionOf_of_session session
    simp only [commit, Database.commit, Database.named, connection, Database.commitConnection,
      Database.endSession, writer, if_true] at committed
    have ended : (d.sessions.set tx ⟨c, true⟩).get? tx = some ⟨c, true⟩ := by
      rw [Numbered.get?_set, if_pos rfl]
    cases committed
    refine ⟨?_, ?_⟩
    · rintro rfl
      obtain ⟨-, _, same⟩ := here
      rw [writer] at same
      cases same
      cases changed <;> rfl
    · cases changed <;> exact ⟨ended, rfl⟩

theorem At.closed_of_drop (here : At tx stage s) :
    Keeps s (s.drop tx).2 ∧ Closed tx (s.drop tx).2 := by
  cases s with
  | memory s =>
    refine ⟨rfl, ?_⟩
    show (s.transactions.erase tx).get? tx = none
    rw [Numbered.get?_erase, if_pos rfl]
  | database d c =>
    have erased : (d.sessions.erase tx).get? tx = none := by
      rw [Numbered.get?_erase, if_pos rfl]
    cases stage with
    | ended =>
      obtain ⟨session, writer⟩ := here
      simp only [drop, Database.drop, session, if_true]
      refine ⟨rfl, erased, ?_⟩
      show d.writer.any _ = false
      rw [writer]
      rfl
    | clean | written =>
      obtain ⟨session, table, changed, writer⟩ := here.written (by decide)
      simp only [drop, Database.drop, session, Database.rollbackConnection, writer, if_true,
        Bool.false_eq_true, if_false]
      split <;> exact ⟨rfl, erased, rfl⟩

end Store

end SagaEngine
