import Mathlib.Data.List.Perm.Subperm
import SagaEngine.Proofs.Cluster
import SagaEngine.Proofs.Rule
import SagaEngine.Proofs.VersionedRows
import SagaEngine.Proofs.Vocabulary
/-!
# What a recovery sweep handles

A sweep asks for a page that is wider than its batch by the number of alerts so far, and passes
over what was alerted. Alerted rows may stand anywhere in the page: there are too few of them to
push a row out of the batch. The rows may be any whenever the store is asked; only the memory of
the scanner is its own. Main statements: `widened_page`, `handleAll_run` and `sweep_exact`.
-/

namespace SagaEngine

/-! ## Pages -/

/-- A page that is wider by the number of excluded keys has as many others as the batch takes. -/
theorem widened_page {α β : Type} [DecidableEq β] {key : α → β} {rows : List α}
    (distinct : (rows.map key).Nodup) (excluded : List β) (batch : Nat) :
    ((rows.take (batch + excluded.length)).filter (key · ∉ excluded)).take batch =
      (rows.filter (key · ∉ excluded)).take batch := by
  by_cases short : rows.length ≤ batch + excluded.length
  · rw [List.take_of_length_le short]
  -- A full page has at most one place for each excluded key, which leaves enough for the batch.
  · have few : ((rows.take (batch + excluded.length)).filter (key · ∈ excluded)).length ≤
        excluded.length := by
      have keys :
          (((rows.take (batch + excluded.length)).filter (key · ∈ excluded)).map key).Nodup :=
        distinct.sublist ((List.filter_sublist.trans (List.take_sublist ..)).map key)
      have inside : ((rows.take (batch + excluded.length)).filter (key · ∈ excluded)).map key ⊆
          excluded := by
        intro k listed
        obtain ⟨row, chosen, rfl⟩ := List.mem_map.1 listed
        exact of_decide_eq_true (List.mem_filter.1 chosen).2
      simpa using (keys.subperm inside).length_le
    have enough :
        batch ≤ ((rows.take (batch + excluded.length)).filter (key · ∉ excluded)).length := by
      have both := List.length_eq_length_filter_add (l := rows.take (batch + excluded.length))
        (fun row => decide (key row ∈ excluded))
      rw [List.length_take, Nat.min_eq_left (by omega)] at both
      simp only [decide_not] at *
      omega
    conv_rhs => rw [← List.take_append_drop (batch + excluded.length) rows, List.filter_append]
    exact (List.take_append_of_le_length enough).symm

theorem oldestFirst_filter {rows : List Execution} (distinct : (rows.map (·.id)).Nodup)
    (condition : Execution → Bool) :
    (Execution.oldestFirst rows).filter condition =
      Execution.oldestFirst (rows.filter condition) := by
  have sorted (rows : List Execution) := List.pairwise_mergeSort Execution.isOlder_trans
    Execution.isOlder_total rows
  have perm : ((Execution.oldestFirst rows).filter condition).Perm
      (Execution.oldestFirst (rows.filter condition)) :=
    ((List.mergeSort_perm rows _).filter condition).trans (List.mergeSort_perm _ _).symm
  refine perm.eq_of_pairwise ?_ ((sorted rows).filter _) (sorted _)
  intro a b inside inside' first second
  have inside := (List.mergeSort_perm rows _).subset (List.mem_filter.1 inside).1
  have inside' := (List.mem_filter.1 ((List.mergeSort_perm _ _).subset inside')).1
  exact List.inj_on_of_nodup_map distinct inside inside' (Execution.eq_id_of_isOlder first second)

/-- Rows in order of age: by the time of the last change, and by id among those of one time. -/
theorem oldestFirst_pairwise {rows : List Execution} (distinct : (rows.map (·.id)).Nodup) :
    (Execution.oldestFirst rows).Pairwise fun a b =>
      a.updatedAt < b.updatedAt ∨ a.updatedAt = b.updatedAt ∧ a.id < b.id := by
  have sorted := List.pairwise_mergeSort Execution.isOlder_trans Execution.isOlder_total rows
  have different : (Execution.oldestFirst rows).Pairwise fun a b => a.id ≠ b.id :=
    List.pairwise_map.1 (((List.mergeSort_perm rows _).map _).nodup_iff.2 distinct)
  refine (sorted.and different).imp ?_
  rintro a b ⟨older, differ⟩
  simp only [Execution.isOlder] at older
  split at older
  · rename_i same
    exact .inr ⟨same, Std.lt_of_le_of_ne (of_decide_eq_true older) differ⟩
  · exact .inl (of_decide_eq_true older)

/-! ## What a scanner runs in -/

/-- The request only looks: at the store, or at what was alerted so far. -/
def Request.isLook : Request → Bool
  | .alertedCount | .wasAlerted _ => true
  | q => q.isRead

namespace Sweep

open SagaEngine.Action

/-- Every request is answered, in any way that depends on a state. The memory of alerts is the
scanner's own, and its reading is answered by a store that may hold any rows at any time. -/
structure Surroundings (σ : Type) where
  answer : (q : Request) → σ → Response q × σ
  alerted : σ → List String
  rows : σ → RowMap
  opened : σ → Numbered PendingWrites
  counted : ∀ s, (answer .alertedCount s).1 = (alerted s).length
  remembered : ∀ x s, (answer (.wasAlerted x) s).1 = decide (x ∈ alerted s)
  marked : ∀ x s, alerted (answer (.markAlerted x) s).2 =
    if x ∈ alerted s then alerted s else x :: alerted s
  kept : ∀ q s, (∀ x, q ≠ .markAlerted x) → alerted (answer q s).2 = alerted s
  keyed : ∀ s, (rows s).Keyed
  serves : ∀ q s, q.isRead = true → ∃ s',
    Serves ⟨rows s, opened s⟩ q (answer q s).1 s' ∧ opened (answer q s).2 = s'.transactions

namespace Surroundings

variable {σ : Type} (w : Surroundings σ)

/-- From one state to a later one by looking only. -/
inductive Looks : σ → σ → Prop
  | done (s : σ) : Looks s s
  | look {s s' : σ} (q : Request) (looks : q.isLook = true) (rest : Looks (w.answer q s).2 s') :
      Looks s s'

/-- The moment at which a sweep that starts now lists the rows. -/
def listing (s : σ) : σ := (w.answer .begin (w.answer .alertedCount s).2).2

end Surroundings

/-- The execution is active, did not change for too long and is not among the alerted ones. -/
def isDue (o : RecoveryOptions) (now : Nat) (alerted : List String) (row : Execution) : Bool :=
  row.status ∈ [Status.started, .inProgress, .compensating] ∧
    (row.updatedAt : Int) < max 0 (now - o.staleAfter) ∧ row.id ∉ alerted

/-- The execution was created too long ago to be resumed. -/
def isTooOld (o : RecoveryOptions) (now : Nat) (row : Execution) : Bool :=
  row.createdAt ≤ now ∧ o.alertAfter ≤ (now : Int) - row.createdAt

/-- What a sweep is to handle: the first due rows, in order of age. -/
def batch (o : RecoveryOptions) (now : Nat) (rows : RowMap) (alerted : List String) :
    List Execution := rows.oldest (isDue o now alerted) o.batchLimit

/-- What the sweeps at some times alert if they list these rows, the latest first. -/
def alertedBy (o : RecoveryOptions) : List (Nat × RowMap) → List String
  | [] => []
  | (now, rows) :: past =>
    (((batch o now rows (alertedBy o past)).filter (isTooOld o now)).map (·.id)).reverse ++
      alertedBy o past

/-- The rows are handled one after another: those that are too old are remembered and alerted, the
others are resumed once, whether that fails or not. Nothing else is done in between but looking. -/
inductive Handles {σ : Type} (w : Surroundings σ) (e : Engine) (o : RecoveryOptions) (now : Nat) :
    List Execution → σ → SweepStats → SweepStats → σ → Prop
  | done (s : σ) (stats : SweepStats) : Handles w e o now [] s stats stats s
  | look {rows : List Execution} {s s' : σ} {stats stats' : SweepStats} (q : Request)
      (looks : q.isLook = true) (rest : Handles w e o now rows (w.answer q s).2 stats stats' s') :
      Handles w e o now rows s stats stats' s'
  | alerts {rows : List Execution} {s s' : σ} {stats stats' : SweepStats} (row : Execution)
      (old : isTooOld o now row = true)
      (rest : Handles w e o now rows
        (w.answer (.alert (overdueAlert now row)) (w.answer (.markAlerted row.id) s).2).2
        { stats with alerted := stats.alerted + 1 } stats' s') :
      Handles w e o now (row :: rows) s stats stats' s'
  | resumes {rows : List Execution} {s s₁ s' : σ} {stats stats' : SweepStats} (row : Execution)
      (young : isTooOld o now row = false) (ran : (e.resume row.id).run w.answer s = (.ok (), s₁))
      (rest : Handles w e o now rows s₁ { stats with resumed := stats.resumed + 1 } stats' s') :
      Handles w e o now (row :: rows) s stats stats' s'
  | fails {rows : List Execution} {s s₁ s' : σ} {stats stats' : SweepStats} (row : Execution)
      (failure : Failure) (young : isTooOld o now row = false)
      (ran : (e.resume row.id).run w.answer s = (.error failure, s₁))
      (rest : Handles w e o now rows s₁ { stats with failed := stats.failed + 1 } stats' s') :
      Handles w e o now (row :: rows) s stats stats' s'

/-- Sweeps of one scanner, from its start on, and the rows that each of them listed, the latest
first. In between anything may happen that leaves the memory of the scanner alone. -/
inductive Sweeps {σ : Type} (w : Surroundings σ) (e : Engine) (o : RecoveryOptions) :
    List (Nat × RowMap) → σ → Prop
  | start (s : σ) (fresh : w.alerted s = []) : Sweeps w e o [] s
  | meanwhile {past : List (Nat × RowMap)} {s s' : σ} (sweeps : Sweeps w e o past s)
      (same : w.alerted s' = w.alerted s) : Sweeps w e o past s'
  | sweep {past : List (Nat × RowMap)} {s : σ} (sweeps : Sweeps w e o past s) (now : Nat) :
      Sweeps w e o ((now, w.rows (w.listing s)) :: past) ((once e o now).run w.answer s).2

section

variable {σ : Type} {w : Surroundings σ} {e : Engine} {o : RecoveryOptions} {now : Nat}
  {rows : List Execution} {s s' s'' : σ} {stats stats' : SweepStats} {x : String}
  {past : List (Nat × RowMap)}

namespace Surroundings

theorem alerted_look (w : Surroundings σ) {q : Request} (looks : q.isLook = true) (s : σ) :
    w.alerted (w.answer q s).2 = w.alerted s := by
  refine w.kept q s ?_
  rintro x rfl
  cases looks

theorem Looks.alerted (looks : w.Looks s s') : w.alerted s' = w.alerted s := by
  induction looks with
  | done => rfl
  | look q look rest ih => exact ih.trans (w.alerted_look look _)

theorem Looks.trans (first : w.Looks s s') (second : w.Looks s' s'') : w.Looks s s'' := by
  induction first with
  | done => exact second
  | look q look rest ih => exact .look q look (ih second)

theorem transaction_begin (s : σ) : ∃ tx, (w.answer .begin s).1 = .ok tx ∧
    ∀ rows, MemoryStore.writes ⟨rows, w.opened (w.answer .begin s).2⟩ tx = [] := by
  obtain ⟨_, ⟨answered, rfl⟩, opened⟩ := w.serves .begin s rfl
  refine ⟨_, answered, fun rows => ?_⟩
  rw [opened]
  show ((Numbered.add (w.opened s) []).2.get? (w.opened s).next).getD [] = []
  rw [Numbered.get?_add, if_pos rfl]
  rfl

theorem listing_answer {tx : Nat}
    (unwritten : ∀ rows, MemoryStore.writes ⟨rows, w.opened s⟩ tx = []) (q : StaleQuery) :
    (w.answer (.listStale tx q) s).1 = .ok ((RowQuery.stale q).answer (w.rows s)) ∧
      w.opened (w.answer (.listStale tx q) s).2 = w.opened s := by
  obtain ⟨_, ⟨answered, rfl⟩, opened⟩ := w.serves (.listStale tx q) s rfl
  refine ⟨?_, opened⟩
  have seen : MemoryStore.visible ⟨w.rows s, w.opened s⟩ tx = (w.rows s).values := by
    rw [MemoryStore.visible, unwritten]
    simp [PendingWrites.find?]
  rw [answered, MemoryStore.listStale, seen]
  rfl

theorem commit_answer {tx : Nat}
    (unwritten : ∀ rows, MemoryStore.writes ⟨rows, w.opened s⟩ tx = []) :
    (w.answer (.commit tx) s).1 = .ok () := by
  obtain ⟨_, ⟨answered, rfl⟩, -⟩ := w.serves (.commit tx) s rfl
  rw [answered, MemoryStore.commit, unwritten]
  rfl

end Surroundings

/-- A sweep finds the rows that are stale at the moment of its listing. -/
theorem find_run (q : StaleQuery) (s : σ) : ∃ s', (find q).run w.answer s =
    (.ok ((RowQuery.stale q).answer (w.rows (w.answer .begin s).2)), s') ∧ w.Looks s s' := by
  obtain ⟨tx, begun, unwritten⟩ := w.transaction_begin s
  obtain ⟨listed, opened⟩ := Surroundings.listing_answer unwritten q
  rw [← opened] at unwritten
  have committed := Surroundings.commit_answer unwritten
  refine ⟨(w.answer (.drop tx) (w.answer (.commit tx)
    (w.answer (.listStale tx q) (w.answer .begin s).2).2).2).2, ?_, .look .begin rfl <|
    .look (.listStale tx q) rfl <| .look (.commit tx) rfl <| .look (.drop tx) rfl <| .done _⟩
  simp only [find, withTransaction, commit, answered, ask, Program.question, bind, Program.bind,
    Program.run, Program.ensuring, Program.ofExcept, Except.mapError, pure, begun, listed,
    committed]

theorem resume_alerted (e : Engine) (x : String) (s : σ) :
    w.alerted ((e.resume x).run w.answer s).2 = w.alerted s := by
  refine (resume_only e x).run (fun s' => w.alerted s' = w.alerted s) ?_ rfl
  intro q s' resumes same
  refine (w.kept q s' ?_).trans same
  rintro x rfl
  cases resumes

/-- The ages are durations, in milliseconds, and no numbers below zero. -/
structure InRange (o : RecoveryOptions) : Prop where
  stale : 0 ≤ o.staleAfter ∧ o.staleAfter < 0x8000000000000000
  alert : 0 ≤ o.alertAfter ∧ o.alertAfter < 0x8000000000000000

theorem wrapWord64_of_duration {n : Int} (low : 0 ≤ n) (high : n < 0x8000000000000000) :
    (wrapWord64 n : Int) = n := by
  rw [wrapWord64]
  omega

theorem InRange.isOverdue_eq (range : InRange o) (now : Nat) (row : Execution) :
    isOverdue o now row = isTooOld o now row := by
  have age := wrapWord64_of_duration range.alert.1 range.alert.2
  rw [Bool.eq_iff_iff]
  simp only [isOverdue, isTooOld, Bool.and_eq_true, decide_eq_true_eq]
  omega

theorem InRange.updatedBefore_eq (range : InRange o) (now n : Nat) :
    ((query o now n).updatedBefore : Int) = max 0 (now - o.staleAfter) := by
  have age := wrapWord64_of_duration range.stale.1 range.stale.2
  simp only [query]
  omega

theorem filter_distinct {rows : RowMap} (keyed : rows.Keyed) (condition : Execution → Bool) :
    ((rows.values.filter condition).map (·.id)).Nodup :=
  (RowMap.values_distinct keyed).sublist (List.filter_sublist.map _)

theorem oldestFirst_distinct {rows : RowMap} (keyed : rows.Keyed) (condition : Execution → Bool) :
    ((Execution.oldestFirst (rows.values.filter condition)).map (·.id)).Nodup :=
  ((List.mergeSort_perm _ _).map _).nodup_iff.2 (filter_distinct keyed condition)

theorem stale_distinct {rows : RowMap} (keyed : rows.Keyed) (q : StaleQuery) :
    (((RowQuery.stale q).answer rows).map (·.id)).Nodup :=
  (oldestFirst_distinct keyed _).sublist ((List.take_sublist ..).map _)

/-- The page of a sweep, less what was alerted, starts with what the sweep is to handle. -/
theorem InRange.page (range : InRange o) {rows : RowMap} (keyed : rows.Keyed)
    {alerted : List String} (room : o.batchLimit + alerted.length < 0x10000000000000000)
    (now : Nat) :
    (((RowQuery.stale (query o now alerted.length)).answer rows).filter (·.id ∉ alerted)).take
      o.batchLimit = batch o now rows alerted := by
  have limit : (query o now alerted.length).limit = o.batchLimit + alerted.length := by
    have fits := wrapWord64_of_inRange room
    exact_mod_cast fits
  have before := range.updatedBefore_eq now alerted.length
  rw [RowQuery.answer, RowMap.oldest, limit, widened_page (oldestFirst_distinct keyed _),
    oldestFirst_filter (filter_distinct keyed _), List.filter_filter, batch, RowMap.oldest]
  congr 2
  refine List.filter_congr fun row _ => ?_
  have old : row.updatedAt < (query o now alerted.length).updatedBefore ↔
      (row.updatedAt : Int) < max 0 (now - o.staleAfter) := by omega
  have active : row.status ∈ (query o now alerted.length).statuses ↔
      row.status ∈ [Status.started, .inProgress, .compensating] := Iff.rfl
  rw [Bool.eq_iff_iff]
  simp only [isDue, Bool.and_eq_true, decide_eq_true_eq, old, active]
  tauto

/-- One row is alerted or resumed, and what is alerted is remembered. -/
theorem handle_run (e : Engine) (now : Nat) (range : InRange o) (row : Execution)
    (fresh : row.id ∉ w.alerted s) (stats : SweepStats) :
    ∃ stats' s', (handle e o now row stats).run w.answer s = (.ok stats', s') ∧
      w.alerted s' = (if isTooOld o now row then [row.id] else []) ++ w.alerted s ∧
      ∀ rows stats'' s'', Handles w e o now rows s' stats' stats'' s'' →
        Handles w e o now (row :: rows) s stats stats'' s'' := by
  rw [handle, range.isOverdue_eq now row]
  by_cases old : isTooOld o now row = true
  · rw [if_pos old, if_pos old]
    refine ⟨_, _, rfl, ?_, fun rows stats'' s'' rest => .alerts row old rest⟩
    rw [w.kept _ _ (by rintro x ⟨⟩), w.marked, if_neg fresh]
    rfl
  · rw [if_neg old, if_neg old]
    have young : isTooOld o now row = false := Bool.eq_false_iff.2 old
    have still := resume_alerted (w := w) e row.id s
    rcases ran : (e.resume row.id).run w.answer s with ⟨failure | ⟨⟩, s₁⟩
    all_goals
      rw [ran] at still
      simp only [bind, Program.run_bind, Program.run_attempt, ran]
    · exact ⟨_, _, rfl, (w.kept _ _ (by rintro x ⟨⟩)).trans still, fun rows stats'' s'' rest =>
        .fails row failure young ran (.look (.log _) rfl rest)⟩
    · exact ⟨_, _, rfl, still, fun rows stats'' s'' rest => .resumes row young ran rest⟩

/-- The rows of a page are handled in order, except those that were alerted before, until the batch
is full. -/
theorem handleAll_run (e : Engine) (now : Nat) (range : InRange o)
    (distinct : (rows.map (·.id)).Nodup) (left : Nat) (s : σ) (stats : SweepStats) :
    ∃ stats' s', (handleAll e o now rows left stats).run w.answer s = (.ok stats', s') ∧
      Handles w e o now ((rows.filter (·.id ∉ w.alerted s)).take left) s stats stats' s' := by
  induction rows generalizing left s stats with
  | nil => exact ⟨stats, s, rfl, by rw [List.filter_nil, List.take_nil]; exact .done s stats⟩
  | cons row rows ih =>
    obtain ⟨absent, distinct⟩ := List.nodup_cons.1 distinct
    cases left with
    | zero => exact ⟨stats, s, rfl, by rw [List.take_zero]; exact .done s stats⟩
    | succ left =>
      have known := w.remembered row.id s
      have same : w.alerted (w.answer (.wasAlerted row.id) s).2 = w.alerted s :=
        w.kept _ _ (by rintro x ⟨⟩)
      have asks (p q : Action SweepStats) :
          (do if ← ask (.wasAlerted row.id) then p else q).run w.answer s =
            (if row.id ∈ w.alerted s then p else q).run w.answer
              (w.answer (.wasAlerted row.id) s).2 := by
        show (if (w.answer (.wasAlerted row.id) s).1 = true then p else q).run _ _ = _
        simp only [known, decide_eq_true_eq]
      rw [handleAll, asks]
      by_cases before : row.id ∈ w.alerted s
      · obtain ⟨stats', s', ran, handled⟩ :=
          ih distinct (left + 1) (w.answer (.wasAlerted row.id) s).2 stats
        refine ⟨stats', s', by rw [if_pos before]; exact ran, ?_⟩
        rw [List.filter_cons_of_neg (by simpa using before), ← same]
        exact .look (.wasAlerted row.id) rfl handled
      · rw [← same] at before
        obtain ⟨stats₁, s₁, ran₁, alerted, handles⟩ := handle_run e now range row before stats
        rw [same] at before
        obtain ⟨stats', s', ran, handled⟩ := ih distinct left s₁ stats₁
        -- The row is not among the later ones, so its own alert makes no difference to them.
        have others : rows.filter (·.id ∉ w.alerted s₁) = rows.filter (·.id ∉ w.alerted s) := by
          refine List.filter_congr fun other inside => ?_
          have differs : other.id ≠ row.id := fun mine =>
            absent (List.mem_map.2 ⟨other, inside, mine⟩)
          rw [alerted, same]
          split <;> simp [differs]
        refine ⟨stats', s', ?_, ?_⟩
        · rw [if_neg before]
          show ((handle e o now row stats).bind _).run _ _ = _
          rw [Program.run_bind, ran₁]
          exact ran
        · rw [List.filter_cons_of_pos (by simpa using before), List.take_succ_cons, ← others]
          exact .look (.wasAlerted row.id) rfl (handles _ _ _ handled)

namespace Handles

theorem counted (handles : Handles w e o now rows s stats stats' s') :
    stats'.resumed + stats'.alerted + stats'.failed =
      stats.resumed + stats.alerted + stats.failed + rows.length := by
  induction handles with
  | done => rfl
  | look q looks rest ih => exact ih
  | alerts row old rest ih | resumes row young ran rest ih | fails row failure young ran rest ih =>
    simp only [List.length_cons] at ih ⊢
    omega

theorem remembers (handles : Handles w e o now rows s stats stats' s')
    (distinct : (rows.map (·.id)).Nodup) (fresh : ∀ row ∈ rows, row.id ∉ w.alerted s) :
    w.alerted s' = ((rows.filter (isTooOld o now)).map (·.id)).reverse ++ w.alerted s := by
  induction handles with
  | done => rfl
  | @look rows s s' stats stats' q looks rest ih =>
    have same := w.alerted_look looks s
    exact (ih distinct (by simpa only [same] using fresh)).trans (by rw [same])
  | @alerts rows s s' stats stats' row old rest ih =>
    obtain ⟨absent, distinct⟩ := List.nodup_cons.1 distinct
    have marked : w.alerted (w.answer (.alert (overdueAlert now row))
        (w.answer (.markAlerted row.id) s).2).2 = row.id :: w.alerted s := by
      rw [w.kept _ _ (by rintro x ⟨⟩), w.marked, if_neg (fresh row List.mem_cons_self)]
    have fresh' (other : Execution) (inside : other ∈ rows) :
        other.id ∉ w.alerted (w.answer (.alert (overdueAlert now row))
          (w.answer (.markAlerted row.id) s).2).2 := by
      rw [marked, List.mem_cons, not_or]
      exact ⟨fun mine => absent (List.mem_map.2 ⟨other, inside, mine⟩),
        fresh other (List.mem_cons_of_mem _ inside)⟩
    rw [ih distinct fresh', marked, List.filter_cons_of_pos old]
    simp
  | @resumes rows s s₁ s' stats stats' row young ran rest ih
  | @fails rows s s₁ s' stats stats' row failure young ran rest ih =>
    have same := resume_alerted (w := w) e row.id s
    rw [ran] at same
    obtain ⟨-, distinct⟩ := List.nodup_cons.1 distinct
    have fresh' : ∀ other ∈ _, _ := fun other inside => fresh other (List.mem_cons_of_mem _ inside)
    rw [ih distinct (same ▸ fresh'), same, List.filter_cons_of_neg (by simp [young])]

end Handles

theorem report_run (found : List Execution) (stats : SweepStats) (s : σ) : ∃ s',
    (do
      if !found.isEmpty then
        log (line found.length stats)
      return stats : Action SweepStats).run w.answer s = (.ok stats, s') ∧ w.Looks s s' := by
  split
  · exact ⟨_, rfl, .look (.log _) rfl (.done _)⟩
  · exact ⟨_, rfl, .done _⟩

/-- A sweep with room for the alerts so far handles what it is to handle. -/
theorem once_run (range : InRange o)
    (room : o.batchLimit + (w.alerted s).length < 0x10000000000000000) (now : Nat) :
    ∃ s₁ stats s₂ s', (once e o now).run w.answer s = (.ok stats, s') ∧ w.Looks s s₁ ∧
      Handles w e o now (batch o now (w.rows (w.listing s)) (w.alerted s)) s₁ {} stats s₂ ∧
      w.Looks s₂ s' := by
  have count := w.counted s
  obtain ⟨s₁, found, looked⟩ := find_run (w := w) (query o now (w.alerted s).length)
    (w.answer .alertedCount s).2
  change _ = (Except.ok ((RowQuery.stale _).answer (w.rows (w.listing s))), s₁) at found
  have looks : w.Looks s s₁ := .look .alertedCount rfl looked
  have keyed := w.keyed (w.listing s)
  obtain ⟨stats, s₂, ran, handled⟩ := handleAll_run (w := w) e now range
    (stale_distinct keyed (query o now (w.alerted s).length)) o.batchLimit s₁ {}
  rw [looks.alerted, range.page keyed room now] at handled
  obtain ⟨s', reported, last⟩ := report_run (w := w)
    ((RowQuery.stale (query o now (w.alerted s).length)).answer (w.rows (w.listing s))) stats s₂
  refine ⟨s₁, stats, s₂, s', ?_, looks, handled, last⟩
  show ((find (query o now (w.answer .alertedCount s).1)).bind _).run _ _ = _
  rw [count, Program.run_bind, found]
  show ((handleAll e o now _ o.batchLimit {}).bind _).run _ _ = _
  rw [Program.run_bind, ran]
  exact reported

theorem alertedBy_length_le (o : RecoveryOptions) (now : Nat) (rows : RowMap)
    (past : List (Nat × RowMap)) :
    (alertedBy o past).length ≤ (alertedBy o ((now, rows) :: past)).length := by
  rw [alertedBy, List.length_append]
  omega

theorem batch_distinct {rows : RowMap} (keyed : rows.Keyed) (alerted : List String) :
    ((batch o now rows alerted).map (·.id)).Nodup :=
  (oldestFirst_distinct keyed _).sublist ((List.take_sublist ..).map _)

theorem mem_batch {rows : RowMap} {alerted : List String} {row : Execution}
    (inside : row ∈ batch o now rows alerted) : isDue o now alerted row = true := by
  have sorted := (List.mergeSort_perm _ _).subset (List.mem_of_mem_take inside)
  exact (List.mem_filter.1 sorted).2

theorem batch_fresh {rows : RowMap} {alerted : List String} {row : Execution}
    (inside : row ∈ batch o now rows alerted) : row.id ∉ alerted := by
  have due := mem_batch inside
  simp only [isDue, decide_eq_true_eq] at due
  exact due.2.2

theorem Sweeps.alerted (sweeps : Sweeps w e o past s) (range : InRange o)
    (room : o.batchLimit + (alertedBy o past).length < 0x10000000000000000) :
    w.alerted s = alertedBy o past := by
  induction sweeps with
  | start s fresh => exact fresh
  | meanwhile sweeps same ih => exact same.trans (ih room)
  | @sweep past s sweeps now ih =>
    have longer := alertedBy_length_le o now (w.rows (w.listing s)) past
    have known := ih (by omega)
    obtain ⟨s₁, stats, s₂, s', ran, first, handled, last⟩ :=
      once_run (w := w) (e := e) (s := s) range (by rw [known]; omega) now
    have remembered := handled.remembers (batch_distinct (w.keyed _) _)
      (by rw [first.alerted]; exact fun row => batch_fresh)
    rw [ran, last.alerted, remembered, first.alerted, known]
    rfl

theorem Sweeps.keyed (sweeps : Sweeps w e o past s) : ∀ listed ∈ past, listed.2.Keyed := by
  induction sweeps with
  | start => simp
  | meanwhile sweeps same ih => exact ih
  | sweep sweeps now ih => exact List.forall_mem_cons.2 ⟨w.keyed _, ih⟩

theorem alertedBy_nodup (o : RecoveryOptions) (keyed : ∀ listed ∈ past, listed.2.Keyed) :
    (alertedBy o past).Nodup := by
  induction past with
  | nil => exact List.nodup_nil
  | cons listed past ih =>
    obtain ⟨now, rows⟩ := listed
    obtain ⟨here, earlier⟩ := List.forall_mem_cons.1 keyed
    refine List.nodup_append.2 ⟨List.nodup_reverse.2 ?_, ih earlier, ?_⟩
    · exact (batch_distinct here _).sublist (List.filter_sublist.map _)
    · rintro x new _ old rfl
      obtain ⟨row, chosen, rfl⟩ := List.mem_map.1 (List.mem_reverse.1 new)
      exact batch_fresh (List.mem_filter.1 chosen).1 old

theorem batch_pairwise {rows : RowMap} (keyed : rows.Keyed) (alerted : List String) :
    (batch o now rows alerted).Pairwise fun a b =>
      a.updatedAt < b.updatedAt ∨ a.updatedAt = b.updatedAt ∧ a.id < b.id :=
  (oldestFirst_pairwise (filter_distinct keyed _)).sublist (List.take_sublist ..)

end

end Sweep

/-- Whatever the store holds whenever it is asked, a sweep handles the first of the executions that
are active, unchanged for too long and not alerted by the scanner before, in order of age, and it
goes on to the end of its batch. Every one of them is alerted if it is too old and resumed once
otherwise, and counted; over all sweeps of the scanner no execution is alerted twice. -/
theorem sweep_exact {σ : Type} (w : Sweep.Surroundings σ) (e : Engine) {o : RecoveryOptions}
    (range : Sweep.InRange o) {past : List (Nat × RowMap)} {s : σ}
    (sweeps : Sweep.Sweeps w e o past s)
    (room : o.batchLimit + (Sweep.alertedBy o past).length < 0x10000000000000000) (now : Nat) :
    ∃ s₁ stats s₂ s', (Sweep.once e o now).run w.answer s = (.ok stats, s') ∧ w.Looks s s₁ ∧
      Sweep.Handles w e o now (Sweep.batch o now (w.rows (w.listing s)) (Sweep.alertedBy o past))
        s₁ {} stats s₂ ∧
      w.Looks s₂ s' ∧
      (Sweep.batch o now (w.rows (w.listing s)) (Sweep.alertedBy o past)).Pairwise (fun a b =>
        a.updatedAt < b.updatedAt ∨ a.updatedAt = b.updatedAt ∧ a.id < b.id) ∧
      stats.resumed + stats.alerted + stats.failed =
        (Sweep.batch o now (w.rows (w.listing s)) (Sweep.alertedBy o past)).length ∧
      (Sweep.alertedBy o ((now, w.rows (w.listing s)) :: past)).Nodup := by
  have known := sweeps.alerted range room
  rw [← known] at room ⊢
  obtain ⟨s₁, stats, s₂, s', ran, first, handled, last⟩ := Sweep.once_run (e := e) range room now
  refine ⟨s₁, stats, s₂, s', ran, first, handled, last, Sweep.batch_pairwise (w.keyed _) _, ?_,
    Sweep.alertedBy_nodup o (sweeps.sweep now).keyed⟩
  simpa using handled.counted

namespace Sample

/-- An execution that did not move for half an hour. -/
def overdue : Execution :=
  { id := "stuck", sagaType := "order", status := .inProgress, version := 1 }

/-- A scanner on a store with one row, which stays as it is. -/
def scanner : Sweep.Surroundings (List String × Numbered PendingWrites) where
  answer q s :=
    match q with
    | .alertedCount => (s.1.length, s)
    | .wasAlerted x => (decide (x ∈ s.1), s)
    | .markAlerted x => ((), (if x ∈ s.1 then s.1 else x :: s.1, s.2))
    | q =>
      let (answer, store) := serve ⟨Dictionary.empty.insert "stuck" overdue, s.2⟩ q (host busy [] q)
      (answer, s.1, store.transactions)
  alerted s := s.1
  rows _ := Dictionary.empty.insert "stuck" overdue
  opened s := s.2
  counted _ := rfl
  remembered _ _ := rfl
  marked _ _ := rfl
  kept q s other := by
    cases q with
    | markAlerted x => exact absurd rfl (other x)
    | _ => rfl
  keyed _ x row found := by
    rw [Dictionary.get?_insert] at found
    split at found
    · cases found
      exact (‹x = "stuck"›).symm
    · cases found
  serves q s read := by
    cases q with
    | alertedCount | wasAlerted | markAlerted => cases read
    | _ => exact ⟨_, serve_serves _ _ (host busy [] _), rfl⟩

end Sample

/-- The stuck execution is alerted by the first sweep and left alone by the second one. -/
theorem sweep_exact_again : ∃ stats stats' s' s'',
    (Sweep.once Sample.engine {} 2000000).run Sample.scanner.answer ([], {}) = (.ok stats, s') ∧
      stats.resumed + stats.alerted + stats.failed = 1 ∧
      (Sweep.once Sample.engine {} 2060000).run Sample.scanner.answer s' = (.ok stats', s'') ∧
      stats'.resumed + stats'.alerted + stats'.failed = 0 := by
  have range : Sweep.InRange {} := ⟨by decide, by decide⟩
  have fresh : Sweep.Sweeps Sample.scanner Sample.engine {} [] ([], {}) := .start _ rfl
  obtain ⟨_, stats, _, s', ran, -, -, -, -, count, -⟩ :=
    sweep_exact Sample.scanner Sample.engine range fresh (by decide) 2000000
  have second := fresh.sweep 2000000
  rw [ran] at second
  obtain ⟨_, stats', _, s'', ran', -, -, -, -, count', -⟩ :=
    sweep_exact Sample.scanner Sample.engine range second (by decide +kernel) 2060000
  refine ⟨stats, stats', s', s'', ran, count.trans (by decide +kernel), ran', count'.trans ?_⟩
  show (Sweep.batch {} 2060000 (Dictionary.empty.insert "stuck" Sample.overdue)
    (Sweep.alertedBy {} [(2000000, Dictionary.empty.insert "stuck" Sample.overdue)])).length = 0
  decide +kernel

end SagaEngine
