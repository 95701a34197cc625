import SagaEngine.Proofs.CollectedWrites
/-!
# Transactions in the order of their commits

Any number of transactions of the store in memory, whose operations interleave. The
committed rows are always those of the committed transactions, one after another,
and each of them succeeds again when it runs alone in that order. A transaction sees
these rows and its own writes. Main statements: `Logged.next`, `replays` and
`transactions_serialise`.
-/

namespace SagaEngine.MemoryStore

inductive Operation where
  | begin
  | write (tx : Nat) (w : RowWrite)
  | read (tx : Nat) (q : RowQuery)
  | commit (tx : Nat)
  | rollback (tx : Nat)
  | drop (tx : Nat)
  deriving DecidableEq, Repr

namespace Operation

def perform (s : MemoryStore) : Operation → MemoryStore
  | begin => s.begin.2
  | write tx w => (s.write tx w).2
  | read _ _ => s
  | commit tx => (s.commit tx).2
  | rollback tx => s.rollback tx
  | drop tx => s.drop tx

/-- Whether nothing that a transaction has written is left to be committed by it. -/
def closes (s : MemoryStore) (tx : Nat) : Operation → Bool
  | begin => tx = s.transactions.next
  | commit tx' => tx = tx' ∧ (s.commit tx').1.isOk
  | rollback tx' => tx = tx'
  | drop tx' => tx = tx'
  | _ => false

/-- The write of a transaction that succeeds. -/
def write? (s : MemoryStore) (tx : Nat) : Operation → Option RowWrite
  | write tx' w => if tx = tx' ∧ (s.write tx' w).1.isOk then some w else none
  | _ => none

end Operation

/-- The store after some operations, latest first. -/
def after : List Operation → MemoryStore
  | [] => {}
  | op :: earlier => op.perform (after earlier)

/-- The successful writes of a transaction that it has not committed. -/
def pending (tx : Nat) : List Operation → List RowWrite
  | [] => []
  | op :: earlier =>
    if op.closes (after earlier) tx then []
    else pending tx earlier ++ (op.write? (after earlier) tx).toList

/-- The transaction that an operation commits, as its successful writes. -/
def Operation.commits (earlier : List Operation) : Operation → List (List RowWrite)
  | commit tx => if ((after earlier).commit tx).1.isOk then [pending tx earlier] else []
  | _ => []

/-- The committed transactions in the order of their commits. -/
def log : List Operation → List (List RowWrite)
  | [] => []
  | op :: earlier => log earlier ++ op.commits earlier

/-! ## Replaying -/

/-- Carries out a write, which has to succeed. -/
def writeAlone? (tx : Nat) (s : MemoryStore) (w : RowWrite) : Option MemoryStore :=
  match s.write tx w with
  | (.ok _, s) => some s
  | (.error _, _) => none

/-- Carries out a transaction whose writes and whose commit have to succeed. -/
def runAlone? (s : MemoryStore) (ws : List RowWrite) : Option MemoryStore := do
  let (tx, s) := s.begin
  let s ← ws.foldlM (writeAlone? tx) s
  match s.commit tx with
  | (.ok _, s) => some s
  | (.error _, _) => none

def replay? (s : MemoryStore) (log : List (List RowWrite)) : Option MemoryStore :=
  log.foldlM runAlone? s

section

variable {s s' : MemoryStore} {tx tx' : Nat} {ws ws' : List RowWrite} {w : RowWrite}
  {log : List (List RowWrite)} {earlier : List Operation} {op : Operation}

theorem foldlM_writeAlone? (collects : Collects (s.writes tx) ws')
    (accepts : (RowMap.putAll s.committed ws').Accepts ws) :
    ∃ s', ws.foldlM (writeAlone? tx) s = some s' ∧ s'.committed = s.committed ∧
      Collects (s'.writes tx) (ws' ++ ws) := by
  induction ws generalizing s ws' with
  | nil => exact ⟨s, rfl, rfl, by rwa [List.append_nil]⟩
  | cons w ws ih =>
    obtain ⟨accepted, accepts⟩ := accepts
    obtain ⟨answered, collects⟩ := write_accepted collects accepted
    have own : (s.setWrites tx (s.collect tx w)).writes tx = s.collect tx w := by
      rw [get?_writes_setWrites, if_pos rfl]
    rw [← own] at collects
    rw [← RowMap.putAll_concat] at accepts
    obtain ⟨s', ran, committed, collects⟩ := ih collects accepts
    refine ⟨s', ?_, committed, by rwa [List.append_assoc] at collects⟩
    rw [List.foldlM_cons, writeAlone?, answered]
    exact ran

theorem runAlone?_eq (accepts : RowMap.Accepts s.committed ws) :
    ∃ s', s.runAlone? ws = some s' ∧ s'.committed = RowMap.putAll s.committed ws := by
  have none : s.begin.2.writes s.begin.1 = [] := (writes_begin s _).trans (if_pos rfl)
  have fresh : Collects (s.begin.2.writes s.begin.1) [] := none ▸ .nothing
  obtain ⟨s', ran, committed, collects⟩ := foldlM_writeAlone? fresh accepts
  have committed : s'.committed = s.committed := committed
  have ends := commit_accepted collects (by rw [committed]; exact accepts)
  refine ⟨(s'.commit s.begin.1).2, ?_, ?_⟩
  · rw [runAlone?]
    simp only [ran, Option.bind_eq_bind, Option.bind_some]
    rw [ends]
  · rw [ends, ← committed]
    rfl

theorem replays (accepts : RowMap.Accepts s.committed log.flatten) :
    ∃ s', s.replay? log = some s' ∧ s'.committed = RowMap.putAll s.committed log.flatten := by
  induction log generalizing s with
  | nil => exact ⟨s, rfl, rfl⟩
  | cons ws log ih =>
    rw [List.flatten_cons, RowMap.accepts_append] at accepts
    obtain ⟨s₁, ran, committed⟩ := runAlone?_eq accepts.1
    obtain ⟨s', ran', committed'⟩ := ih (s := s₁) (committed ▸ accepts.2)
    refine ⟨s', ?_, ?_⟩
    · rw [replay?, List.foldlM_cons, ran]
      exact ran'
    · rw [committed', committed, List.flatten_cons, RowMap.putAll_append]

end

/-! ## What the operations keep -/

/-- What the store holds has to do with the log and with the writes that are not committed. -/
structure Logged (ops : List Operation) : Prop where
  collects : ∀ tx, Collects ((after ops).writes tx) (pending tx ops)
  committed : (after ops).committed = RowMap.putAll Dictionary.empty (log ops).flatten
  accepts : RowMap.Accepts Dictionary.empty (log ops).flatten

section

variable {ops : List Operation} {op : Operation} {tx tx' : Nat} {w : RowWrite}

theorem Logged.keyed (logged : Logged ops) : RowMap.Keyed (after ops).committed := by
  rw [logged.committed]
  exact RowMap.keyed_empty.putAll

/-- An operation that installs nothing and writes nothing. -/
theorem Logged.quiet (logged : Logged ops) (committed : (after (op :: ops)).committed =
      (after ops).committed) (silent : log (op :: ops) = log ops)
    (writes : ∀ tx, (after (op :: ops)).writes tx =
      if op.closes (after ops) tx then [] else (after ops).writes tx)
    (unwritten : ∀ tx, op.write? (after ops) tx = none) : Logged (op :: ops) := by
  refine ⟨?_, ?_, ?_⟩
  · intro tx
    rw [writes, pending, unwritten]
    split
    · exact .nothing
    · rw [Option.toList_none, List.append_nil]
      exact logged.collects tx
  · rw [committed, silent]
    exact logged.committed
  · rw [silent]
    exact logged.accepts

theorem Logged.written (logged : Logged ops) (tx : Nat) (w : RowWrite) :
    Logged (.write tx w :: ops) := by
  have silent : log (.write tx w :: ops) = log ops := List.append_nil _
  cases declined : w.declined? (RowMap.putAll (after ops).committed (pending tx ops)) with
  | some code =>
    -- a declined write leaves no trace, neither in the store nor among the pending writes
    have answered := write_declined (logged.collects tx) declined
    have same : after (.write tx w :: ops) = after ops := congrArg Prod.snd answered
    refine logged.quiet (congrArg MemoryStore.committed same) silent
      (fun tx' => by rw [same]; rfl) ?_
    intro tx'
    simp [Operation.write?, answered, Except.isOk, Except.toBool]
  | none =>
    obtain ⟨answered, collects⟩ := write_accepted (logged.collects tx) declined
    have same : after (.write tx w :: ops) = (after ops).setWrites tx ((after ops).collect tx w) :=
      congrArg Prod.snd answered
    refine ⟨?_, by rw [same, silent]; exact logged.committed, silent ▸ logged.accepts⟩
    intro tx'
    rw [same, get?_writes_setWrites]
    by_cases own : tx' = tx
    · subst own
      have more : pending tx' (.write tx' w :: ops) = pending tx' ops ++ [w] := by
        simp [pending, Operation.closes, Operation.write?, answered, Except.isOk, Except.toBool]
      rw [if_pos rfl, more]
      exact collects
    · have none : pending tx' (.write tx w :: ops) = pending tx' ops := by
        simp [pending, Operation.closes, Operation.write?, own]
      rw [if_neg own, none]
      exact logged.collects tx'

theorem Logged.committing (logged : Logged ops) (tx : Nat) : Logged (.commit tx :: ops) := by
  by_cases accepts : RowMap.Accepts (after ops).committed (pending tx ops)
  · have ends := commit_accepted (logged.collects tx) accepts
    have same : after (.commit tx :: ops) = _ := congrArg Prod.snd ends
    have grown : log (.commit tx :: ops) = log ops ++ [pending tx ops] := by
      simp [log, Operation.commits, ends, Except.isOk, Except.toBool]
    have all : (log (.commit tx :: ops)).flatten = (log ops).flatten ++ pending tx ops := by
      rw [grown, List.flatten_append, List.flatten_singleton]
    refine ⟨?_, ?_, ?_⟩
    · intro tx'
      have closes : pending tx' (.commit tx :: ops) = if tx' = tx then [] else pending tx' ops := by
        simp [pending, Operation.closes, Operation.write?, ends, Except.isOk, Except.toBool]
      rw [same, closes, get?_writes_setWrites]
      by_cases own : tx' = tx
      · rw [if_pos own, if_pos own]
        exact .nothing
      · rw [if_neg own, if_neg own]
        exact logged.collects tx'
    · rw [same, all, RowMap.putAll_append, ← logged.committed]
      rfl
    · rw [all, RowMap.accepts_append, ← logged.committed]
      exact ⟨logged.accepts, accepts⟩
  · obtain ⟨failure, ends, -⟩ := commit_declined (logged.collects tx) accepts
    have same : after (.commit tx :: ops) = after ops := congrArg Prod.snd ends
    refine logged.quiet (congrArg MemoryStore.committed same) ?_ ?_ fun _ => rfl
    · simp [log, Operation.commits, ends, Except.isOk, Except.toBool]
    · intro tx'
      simp [same, Operation.closes, ends, Except.isOk, Except.toBool]

theorem writes_drop (s : MemoryStore) (tx tx' : Nat) :
    (s.drop tx).writes tx' = if tx' = tx then [] else s.writes tx' := by
  simp only [writes, drop, Numbered.get?_erase]
  split <;> rfl

/-- Every operation keeps the store in step with the log. -/
theorem Logged.next (logged : Logged ops) (op : Operation) : Logged (op :: ops) := by
  cases op with
  | begin =>
    refine logged.quiet rfl (List.append_nil _) ?_ fun _ => rfl
    intro tx
    rw [after, Operation.perform, writes_begin]
    simp only [Operation.closes, decide_eq_true_eq]
  | write tx w => exact logged.written tx w
  | read tx q => exact logged.quiet rfl (List.append_nil _) (fun _ => rfl) fun _ => rfl
  | commit tx => exact logged.committing tx
  | rollback tx =>
    refine logged.quiet rfl (List.append_nil _) ?_ fun _ => rfl
    intro tx'
    rw [after, Operation.perform, rollback, get?_writes_setWrites]
    simp only [Operation.closes, decide_eq_true_eq]
  | drop tx =>
    refine logged.quiet rfl (List.append_nil _) ?_ fun _ => rfl
    intro tx'
    rw [after, Operation.perform, writes_drop]
    simp only [Operation.closes, decide_eq_true_eq]

theorem logged (ops : List Operation) : Logged ops := by
  induction ops with
  | nil => exact ⟨fun _ => .nothing, rfl, trivial⟩
  | cons op ops ih => exact ih.next op

theorem committed_eq_of_silent (silent : log (op :: ops) = log ops) :
    (after (op :: ops)).committed = (after ops).committed := by
  rw [(logged (op :: ops)).committed, (logged ops).committed, silent]

theorem log_append (later earlier : List Operation) :
    ∃ newer, log (later ++ earlier) = log earlier ++ newer := by
  induction later with
  | nil => exact ⟨[], (List.append_nil _).symm⟩
  | cons op later ih =>
    obtain ⟨newer, grown⟩ := ih
    rw [List.cons_append, log, grown, List.append_assoc]
    exact ⟨_, rfl⟩

/-- What holds of the store after some operations, latest first. -/
structure Serialises (ops : List Operation) : Prop where
  /-- The committed transactions run again on an empty store, one after another. -/
  replays : ∃ s', replay? {} (log ops) = some s' ∧ s'.committed = (after ops).committed
  /-- A transaction sees the committed rows under its own writes. -/
  reads : ∀ tx q, (after ops).read tx q =
    q.answer (RowMap.putAll (after ops).committed (pending tx ops))
  /-- No other transaction sees a write. -/
  isolated : ∀ tx tx' w q, tx' ≠ tx → ((after ops).write tx' w).2.read tx q = (after ops).read tx q
  /-- A commit installs what the transaction sees, if the committed rows still accept each of its
  writes. -/
  commits : ∀ tx, RowMap.Accepts (after ops).committed (pending tx ops) →
    ((after ops).commit tx).1 = .ok () ∧
      ∀ x, ((after ops).commit tx).2.committed.get? x = (after ops).find? tx x
  /-- A commit is a conflict and changes nothing, if they do not accept one of them. -/
  conflicts : ∀ tx, ¬RowMap.Accepts (after ops).committed (pending tx ops) →
    ∃ failure, (after ops).commit tx = (.error failure, after ops) ∧ failure.kind = .conflict
  /-- Nothing but a commit changes the committed rows. -/
  others : ∀ op : Operation, (∀ tx, op ≠ .commit tx) →
    (op.perform (after ops)).committed = (after ops).committed
  /-- The version of a committed row is never lowered, and raised by each commit that updates it. -/
  versions : ∀ later earlier, ops = later ++ earlier → ∃ newer, log ops = log earlier ++ newer ∧
    (RowMap.Unwrapped newer.flatten → ∀ x row, (after earlier).committed.get? x = some row →
      ∃ row', (after ops).committed.get? x = some row' ∧ row.version ≤ row'.version ∧
        ((∃ w ∈ newer.flatten, w.id = x) → row.version < row'.version))

/-- Whatever transactions are open at once and however their operations interleave: commits are
atomic, and the store is the one that the committed transactions leave when they run alone in the
order of their commits. -/
theorem transactions_serialise (ops : List Operation) : Serialises ops := by
  have ok := logged ops
  refine ⟨?_, ?_, ?_, ?_, ?_, ?_, ?_⟩
  · obtain ⟨s', ran, committed⟩ := replays (s := {}) ok.accepts
    exact ⟨s', ran, committed.trans ok.committed.symm⟩
  · exact fun tx q => read_eq (ok.collects tx) ok.keyed q
  · intro tx tx' w q other
    have ok' := ok.next (.write tx' w)
    have silent : log (.write tx' w :: ops) = log ops := List.append_nil _
    have committed := committed_eq_of_silent silent
    have same : pending tx (.write tx' w :: ops) = pending tx ops := by
      simp [pending, Operation.closes, Operation.write?, Ne.symm other]
    have seen := read_eq (ok'.collects tx) ok'.keyed q
    rw [committed, same, ← read_eq (ok.collects tx) ok.keyed q] at seen
    exact seen
  · intro tx accepts
    rw [commit_accepted (ok.collects tx) accepts]
    exact ⟨rfl, fun x => (find?_eq (ok.collects tx) x).symm⟩
  · exact fun tx declines => commit_declined (ok.collects tx) declines
  · intro op other
    have silent : log (op :: ops) = log ops := by
      cases op with
      | commit tx => exact absurd rfl (other tx)
      | _ => exact List.append_nil _
    exact committed_eq_of_silent silent
  · rintro later earlier rfl
    obtain ⟨newer, grown⟩ := log_append later earlier
    refine ⟨newer, grown, ?_⟩
    intro unwrapped x row found
    have accepts := ok.accepts
    have committed := ok.committed
    rw [grown, List.flatten_append] at accepts committed
    rw [RowMap.putAll_append, ← (logged earlier).committed] at committed
    rw [RowMap.accepts_append, ← (logged earlier).committed] at accepts
    rw [committed]
    exact accepts.2.version_le unwrapped found

/-- Of two transactions that update the same version of a row, the second one to commit fails. -/
example :
    let row : Execution := { id := "x", version := 1 }
    let ops : List Operation := [.commit 2, .commit 1, .write 2 (.update row 1),
      .write 1 (.update row 1), .begin, .begin, .commit 0, .write 0 (.insert row), .begin]
    log ops = [[.insert row], [.update row 1]] ∧
      ((after ops).committed.get? "x").map (·.version) = some 2 := by
  decide +kernel

end

end SagaEngine.MemoryStore
