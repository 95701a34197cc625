import SagaEngine.Proofs.Pace
import SagaEngine.Proofs.Workshop
/-!
# The delays that the queue waits for

An execution that workers only move on is handled by one worker after another. Each of them keeps
the pace: what it is due to wait for it leaves to the queue, and nothing is due when the next one
begins. So the queue was told of the delays that the rows of the execution owe, in order. Main
statements: `Paced.work` and `Run.paced`.
-/

namespace SagaEngine

/-- The delay with which an execution goes back to the queue. -/
def PoolEvent.requeued? (x : String) : PoolEvent → Option Int
  | .answer _ (.requeue y delay) => if y = x then some delay else none
  | _ => none

/-- The delays with which an execution went back to the queue, oldest first. -/
def requeues (x : String) (log : List PoolEvent) : List Int :=
  (log.filterMap (·.requeued? x)).reverse

theorem requeues_cons (x : String) (ev : PoolEvent) (log : List PoolEvent) :
    requeues x (ev :: log) = requeues x log ++ (ev.requeued? x).toList := by
  cases found : ev.requeued? x <;> simp [requeues, found]

theorem Account.logged {d : SagaDefinition} {x : String} {j : Journal} {log : List PoolEvent}
    {due : Option Int} {ev : PoolEvent} (account : Account d x j (requeues x log) due)
    (other : ev.requeued? x = none) : Account d x j (requeues x (ev :: log)) due := by
  rw [requeues_cons, other, Option.toList_none, List.append_nil]
  exact account

/-- A worker waits for nothing but what it puts its execution back with. -/
theorem HandsOver.requeued {x : String} {q : Request} {next : Response q → Action Unit}
    (hands : HandsOver x (Program.ask q next)) (w : Nat) (y : String) :
    (PoolEvent.answer w q).requeued? y = if x = y then q.wait? else none := by
  cases hands with
  | requeues delay => rfl
  | finishes => exact (ite_self none).symm
  | moves _ _ move later =>
    have hurried : q.wait? = none := by cases q <;> first | rfl | cases move
    have stays : (PoolEvent.answer w q).requeued? y = none := by
      cases q <;> first | rfl | cases move
    rw [hurried, stays, ite_self]

namespace Workshop

open Worker (shift)

variable {e : Engine} {n : Nat} {σ σ' : Workshop} {x : String} {d : SagaDefinition}

/-- The execution follows a definition, is driven by workers only, and is not cancelled. -/
structure LeftToWorkers (e : Engine) (d : SagaDefinition) (x : String) (σ : Workshop) : Prop where
  known : ∀ row ∈ σ.cluster.journal.history x, e.definitionOf row = .ok d
  driven : ∀ task ∈ σ.cluster.tasks, task.actor.operation.driven? = some x →
    task.actor.number ∈ σ.staff
  uncancelled : ∀ task ∈ σ.cluster.tasks, task.actor.operation ≠ .cancel x

/-- What the rows of an execution owe was waited for in the queue, but for what is due now: a worker
that handles the execution goes on by that, and nothing is due otherwise. -/
structure Paced (e : Engine) (d : SagaDefinition) (x : String) (σ : Workshop) (due : Option Int) :
    Prop where
  account : Account d x σ.cluster.journal (requeues x σ.log) due
  handled : ∀ w p, σ.pool.workers[w]? = some (some ⟨x, p⟩) → ∃ me opened,
    σ.cluster.tasks[σ.desk w]? = some ⟨me, opened, shift p⟩ ∧
      Ensures (Pace.contract e d x) (fun _ s => s.note = none) p ⟨opened, due⟩
  idle : (∀ w, ¬σ.pool.handles w x) → due = none

theorem LeftToWorkers.before (left : LeftToWorkers e d x σ') (consistent : Consistent e σ.cluster)
    (step : Step e σ σ') : LeftToWorkers e d x σ := by
  have kept (task : Running) (inside : task ∈ σ.cluster.tasks) :
      ∃ task' ∈ σ'.cluster.tasks, task'.actor = task.actor := by
    obtain ⟨k, found⟩ := List.mem_iff_getElem?.1 inside
    have served {i : Nat} {other : Running} {q : Request} {answer : Response q} {s' : MemoryStore}
        {rest : Action Operation.Result} (running : σ.cluster.tasks[i]? = some other) :
        ∃ task' ∈ (σ.cluster.answered i other q answer s' rest).tasks,
          task'.actor = task.actor := by
      by_cases same : i = k
      · subst same
        rw [running] at found
        cases found
        exact ⟨_, List.mem_set (List.getElem?_eq_some_iff.1 running).1 _, rfl⟩
      · exact ⟨task, List.mem_of_getElem? (getElem?_answered found same), rfl⟩
    cases step with
    | begin | take => exact ⟨task, List.mem_append_left _ inside, rfl⟩
    | answer i me opened q next answer s' running => exact served running
    | work w now x me opened q next answer s' busy running => exact served running
    | _ => exact ⟨task, inside, rfl⟩
  refine ⟨fun row old => left.known row ((history_suffix x step.journal).subset old),
    fun task inside driven => ?_, fun task inside => ?_⟩
  · obtain ⟨task', inside', same⟩ := kept task inside
    obtain ⟨k, found⟩ := List.mem_iff_getElem?.1 inside
    have small := (List.getElem?_eq_some_iff.1 found).1
    rw [← consistent.numbered k task found] at small
    have hired := left.driven task' inside' (same ▸ driven)
    rw [same] at hired
    exact step.staff_before small hired
  · obtain ⟨task', inside', same⟩ := kept task inside
    exact same ▸ left.uncancelled task' inside'

theorem LeftToWorkers.possible (left : LeftToWorkers e d x σ) (consistent : Consistent e σ.cluster)
    (fits : e.Fits) : Pace.Possible e d x σ.cluster.rows := by
  rw [consistent.rows]
  exact Pace.possible consistent.lawful fits left.known

theorem LeftToWorkers.undriven (left : LeftToWorkers e d x σ) (consistent : Consistent e σ.cluster)
    {i : Nat} {task : Running} (found : σ.cluster.tasks[i]? = some task) (byHand : i ∉ σ.staff) :
    task.actor.operation.driven? ≠ some x := by
  intro driven
  have hired := left.driven task (List.mem_of_getElem? found) driven
  rw [consistent.numbered i task found] at hired
  exact byHand hired

theorem Paced.byHand {due : Option Int} (paced : Paced e d x σ due) (sound : Sound e σ)
    (left : LeftToWorkers e d x σ) {i : Nat} {me : Actor} {opened : Numbered PendingWrites}
    {q : Request} {next : Response q → Action Operation.Result} {answer : Response q}
    {s' : MemoryStore} (running : σ.cluster.tasks[i]? = some ⟨me, opened, Program.ask q next⟩)
    (byHand : i ∉ σ.staff) (serves : Serves ⟨σ.cluster.rows, opened⟩ q answer s') :
    Paced e d x { σ with
      cluster := σ.cluster.answered i ⟨me, opened, Program.ask q next⟩ q answer s' (next answer) }
      due := by
  have lawful := (sound.answered running serves).1.lawful
  refine ⟨?_, fun w p busy => ?_, paced.idle⟩
  · cases lawful with
    | next before permitted =>
      exact paced.account.foreign before permitted (left.undriven sound.consistent running byHand)
        (left.uncancelled _ (List.mem_of_getElem? running))
  · obtain ⟨me', opened', found, goesOn⟩ := paced.handled w p busy
    have differs : i ≠ σ.desk w := fun same => byHand (same ▸ (sound.manned w x p busy).1)
    exact ⟨me', opened', getElem?_answered found differs, goesOn⟩

theorem Paced.take {due : Option Int} (paced : Paced e d x σ due) (pool : σ.pool.Sound)
    (fits : d.Fits) {w : Nat} {now : Int} {y : String} (free : σ.pool.workers[w]? = some none)
    (told : (σ.pool.queue.dequeue now).1 = .item y) :
    Paced e d x
      { cluster := σ.cluster.enlist (.drive y) (shift (Worker.process e y))
        pool := σ.pool.take e w now
        desk := fun k => if k = w then σ.cluster.tasks.length else σ.desk k
        staff := σ.cluster.tasks.length :: σ.staff
        log := .dequeue w (σ.pool.queue.dequeue now).1 :: σ.log } due := by
  have workers := σ.pool.take_item (e := e) (w := w) told
  have inRange := (List.getElem?_eq_some_iff.1 free).1
  have taken : (σ.pool.take e w now).handles w y := by
    refine ⟨Worker.process e y, ?_⟩
    rw [workers, List.getElem?_set_self inRange]
  have still {k : Nat} (handles : σ.pool.handles k x) :
      k ≠ w ∧ (σ.pool.take e w now).handles k x := by
    obtain ⟨p, busy⟩ := handles
    obtain ⟨other, busy'⟩ := Pool.busy_take (e := e) free told busy
    exact ⟨other, p, busy'⟩
  refine ⟨?_, fun k p busy => ?_, fun nobody => ?_⟩
  · exact paced.account.logged rfl
  · have busy : (σ.pool.workers.set w _)[k]? = some (some ⟨x, p⟩) := workers ▸ busy
    rcases Pool.busy_set busy with ⟨rfl, same⟩ | ⟨other, busy⟩
    · cases same
      have undue : due = none := paced.idle fun k' handles => by
        obtain ⟨other, handles⟩ := still handles
        exact other ((pool.step (.dequeue _ k now free)).alone handles taken)
      refine ⟨⟨σ.cluster.tasks.length, .drive x⟩, {}, by simp [Cluster.enlist], ?_⟩
      rw [undue]
      refine (process_paced fits {}).mono ?_
      rintro (failure | value) s noted <;> exact noted
    · obtain ⟨me, opened, found, goesOn⟩ := paced.handled k p busy
      refine ⟨me, opened, ?_, goesOn⟩
      simp only [if_neg other]
      exact getElem?_enlist found
  · exact paced.idle fun k handles => nobody k (still handles).2

/-- What a worker does to an execution goes into its account; other executions stay as they are. -/
theorem Paced.work {due : Option Int} (paced : Paced e d x σ due) (sound : Sound e σ)
    (pool : σ.pool.Sound) (fits : e.Fits) (left : LeftToWorkers e d x σ) {w : Nat} {now : Int}
    {y : String} {me : Actor} {opened : Numbered PendingWrites} {q : Request}
    {next : Response q → Action Unit} {answer : Response q} {s' : MemoryStore}
    (busy : σ.pool.workers[w]? = some (some ⟨y, Program.ask q next⟩))
    (running : σ.cluster.tasks[σ.desk w]? = some ⟨me, opened, shift (Program.ask q next)⟩)
    (serves : Serves ⟨σ.cluster.rows, opened⟩ q answer s') :
    ∃ due', Paced e d x { σ with
      cluster := σ.cluster.answered (σ.desk w) ⟨me, opened, shift (Program.ask q next)⟩ q answer s'
        (shift (next answer))
      pool := ⟨σ.pool.queue.serve now q, σ.pool.workers.set w (Handling.further y (next answer))⟩
      log := .answer w q :: σ.log } due' := by
  have hands := pool.hands w _ busy
  have further := hands.next answer
  have inside := (List.getElem?_eq_some_iff.1 busy).1
  have inRange := (List.getElem?_eq_some_iff.1 running).1
  have waited : requeues x (.answer w q :: σ.log) =
      requeues x σ.log ++ (if y = x then q.wait? else none).toList := by
    rw [requeues_cons, hands.requeued]
  -- On another execution the worker does nothing that the account of this one shows.
  by_cases same : y = x
  · subst same
    rw [if_pos rfl] at waited
    obtain ⟨me', opened', found, goesOn⟩ := paced.handled w _ busy
    rw [running] at found
    cases Option.some.inj found
    obtain ⟨due', rest, account⟩ :=
      paced.account.step me goesOn (left.possible sound.consistent fits) serves
    refine ⟨due', waited ▸ account, fun k p busy' => ?_, fun nobody => ?_⟩
    · rcases Pool.busy_set busy' with ⟨rfl, same⟩ | ⟨other, busy'⟩
      · rcases further with goesOn | ⟨-, ended⟩
        · rw [goesOn] at same
          cases same
          refine ⟨me, s'.transactions, ?_, rest⟩
          rw [Cluster.answered, List.getElem?_set_self inRange]
        · rw [ended] at same
          cases same
      · exact absurd (pool.alone ⟨p, busy'⟩ ⟨_, busy⟩) other
    · rcases further with goesOn | ⟨ended, -⟩
      · refine absurd ⟨next answer, ?_⟩ (nobody w)
        rw [List.getElem?_set_self inside, goesOn]
      · rw [ended] at rest
        exact rest
  · rw [if_neg same] at waited
    have lawful := (sound.answered running serves).1.lawful
    have mine : me = ⟨σ.desk w, .drive y⟩ := sound.at_desk busy running
    refine ⟨due, ?_, fun k p busy' => ?_, fun nobody => ?_⟩
    · show Account d x _ (requeues x (.answer w q :: σ.log)) due
      rw [waited, Option.toList_none, List.append_nil]
      cases lawful with
      | next before permitted =>
        refine paced.account.foreign before permitted ?_ ?_ <;> simp [mine, Operation.driven?, same]
    · rcases Pool.busy_set busy' with ⟨rfl, ours⟩ | ⟨other, busy'⟩
      · rcases further with goesOn | ⟨-, ended⟩
        · rw [goesOn] at ours
          cases ours
          exact absurd rfl same
        · rw [ended] at ours
          cases ours
      · obtain ⟨me', opened', found, goesOn⟩ := paced.handled k p busy'
        exact ⟨me', opened', getElem?_answered found (sound.desk_ne pool busy busy' other), goesOn⟩
    · refine paced.idle fun k handles => ?_
      obtain ⟨p, busy'⟩ := handles
      refine nobody k ⟨p, ?_⟩
      have other : w ≠ k := by
        rintro rfl
        rw [busy] at busy'
        cases busy'
        exact same rfl
      rw [List.getElem?_set_ne other]
      exact busy'

/-- As long as an execution is left to the workers, it is handled at its pace. -/
theorem Run.paced (run : Run e n σ) (fits : e.Fits) (small : d.Fits)
    (left : LeftToWorkers e d x σ) : ∃ due, Paced e d x σ due := by
  induction run with
  | start =>
    refine ⟨none, ⟨rfl, .inl rfl⟩, fun w p busy => ?_, fun _ => rfl⟩
    simp [Pool.idle, List.getElem?_replicate] at busy
  | @step σ σ' run step ih =>
    have sound := run.sound fits
    have pool := run.pool.sound
    have before := left.before sound.consistent step
    obtain ⟨due, paced⟩ := ih before
    cases step with
    | begin operation =>
      refine ⟨due, paced.account, fun w p busy => ?_, paced.idle⟩
      obtain ⟨me, opened, found, goesOn⟩ := paced.handled w p busy
      exact ⟨me, opened, getElem?_enlist found, goesOn⟩
    | answer i me opened q next answer s' running byHand serves =>
      exact ⟨due, paced.byHand sound before running byHand serves⟩
    | enqueue y =>
      exact ⟨due, paced.account.logged rfl, paced.handled, paced.idle⟩
    | wait w now free told =>
      have workers := σ.pool.take_nothing (e := e) (w := w) told
      refine ⟨due, ?_, fun k p busy => paced.handled k p (workers ▸ busy), fun nobody => ?_⟩
      · exact paced.account.logged rfl
      · refine paced.idle fun k handles => ?_
        obtain ⟨p, busy⟩ := handles
        exact nobody k ⟨p, workers.symm ▸ busy⟩
    | take w now y free told => exact ⟨due, paced.take pool small free told⟩
    | work w now y me opened q next answer s' busy running serves =>
      exact paced.work sound pool fits before busy running serves

end Workshop

end SagaEngine
