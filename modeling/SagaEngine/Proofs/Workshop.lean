import SagaEngine.Proofs.Exclusion
import SagaEngine.Proofs.Unleased
/-!
# A workshop

Any number of operations that are run by hand and a pool of workers, all at once on one store. What
a worker does with an execution that it took is one more task of the cluster, and whenever a
request of a worker is answered, the queue and the store serve it together. Workers need no lease
to keep out of each other's way: the queue hands an execution to one of them at a time, and
none of them keeps a lease for longer. Main statements: `Run.sound`, `Run.exclusive` and
`Sound.apart_of_turns`.
-/

namespace SagaEngine

open Relation

/-- The operations and the pool, the task that each worker is at, all tasks of workers so far, and
what happened to the pool, latest first. -/
structure Workshop where
  cluster : Cluster := {}
  pool : Pool
  desk : Nat → Nat := fun _ => 0
  staff : List Nat := []
  log : List PoolEvent := []

/-- One actor did nothing any more once the other one had begun. -/
def Journal.Precedes (j : Journal) (me other : Actor) : Prop :=
  ∃ newer older, j = newer ++ older ∧ (∀ ev ∈ older, ev.actor ≠ other) ∧
    ∀ ev ∈ newer, ev.actor ≠ me

/-- The cluster after a request of a task was answered. -/
def Cluster.answered (σ : Cluster) (i : Nat) (task : Running) (q : Request) (answer : Response q)
    (s' : MemoryStore) (rest : Action Operation.Result) : Cluster where
  rows := s'.committed
  journal := ⟨task.actor, q, answer, installs ⟨σ.rows, task.opened⟩ q answer⟩ :: σ.journal
  tasks := σ.tasks.set i ⟨task.actor, s'.transactions, rest⟩

/-- The cluster with one more task, under the name of an operation. -/
def Cluster.enlist (σ : Cluster) (operation : Operation) (rest : Action Operation.Result) :
    Cluster :=
  { σ with tasks := σ.tasks ++ [{ actor := ⟨σ.tasks.length, operation⟩, rest }] }

theorem event_split {newest k newer older : Journal} {ev : Event}
    (split : newer ++ older = newest ++ ev :: k) :
    (∃ front, older = front ++ ev :: k) ∨
      ∃ mid, k = mid ++ older ∧ newer = newest ++ ev :: mid := by
  rcases List.append_eq_append_iff.1 split with ⟨mid, -, rest⟩ | ⟨mid, halves, rest⟩
  · exact .inl ⟨mid, rest⟩
  · rcases List.cons_eq_append_iff.1 rest with ⟨-, whole⟩ | ⟨mid, rfl, behind⟩
    · exact .inl ⟨[], whole⟩
    · exact .inr ⟨mid, behind, halves⟩

theorem Journal.Precedes.unbegun {j newest k : Journal} {me other : Actor} {ev : Event}
    (precedes : j.Precedes me other) (split : j = newest ++ ev :: k) (its : ev.actor = me) :
    ∀ ev ∈ k, ev.actor ≠ other := by
  obtain ⟨newer, older, rfl, unbegun, gone⟩ := precedes
  rcases event_split split with ⟨front, rfl⟩ | ⟨mid, -, rfl⟩
  · exact fun ev inside => unbegun ev (by simp [inside])
  · exact absurd its (gone ev (by simp))

/-- What the first one did, it had done when the other one did anything. -/
theorem Journal.Precedes.attempt {j newest k : Journal} {me other : Actor} {ev : Event}
    (precedes : j.Precedes me other) (split : j = newest ++ ev :: k) (its : ev.actor = other) :
    k.attempt me = j.attempt me := by
  obtain ⟨newer, older, rfl, unbegun, gone⟩ := precedes
  rcases event_split split with ⟨front, rfl⟩ | ⟨mid, rfl, rfl⟩
  · exact absurd its (unbegun ev (by simp))
  · rw [attempt_others gone]
    exact attempt_others fun ev inside => gone ev (by simp [inside])

namespace Workshop

open Worker (shift)

/-- One step of a workshop: an operation is begun by hand, or has a request answered; somebody
enqueues an execution; an idle worker asks for work, in vain or not; or a worker has a request
answered, by the store and by the queue. What a worker does goes under a drive of the execution. -/
inductive Step (e : Engine) (σ : Workshop) : Workshop → Prop
  | begin (operation : Operation) : Step e σ
      { σ with cluster := σ.cluster.enlist operation (operation.program e) }
  | answer (i : Nat) (me : Actor) (opened : Numbered PendingWrites) (q : Request)
      (next : Response q → Action Operation.Result) (answer : Response q) (s' : MemoryStore)
      (running : σ.cluster.tasks[i]? = some ⟨me, opened, Program.ask q next⟩) (byHand : i ∉ σ.staff)
      (serves : Serves ⟨σ.cluster.rows, opened⟩ q answer s') : Step e σ
      { σ with
        cluster := σ.cluster.answered i ⟨me, opened, Program.ask q next⟩ q answer s' (next answer) }
  | enqueue (x : String) : Step e σ
      { σ with
        pool := { σ.pool with queue := (σ.pool.queue.enqueue x).2 }
        log := .enqueue x :: σ.log }
  | wait (w : Nat) (now : Int) (free : σ.pool.workers[w]? = some none)
      (told : ∀ x, (σ.pool.queue.dequeue now).1 ≠ .item x) : Step e σ
      { σ with
        pool := σ.pool.take e w now
        log := .dequeue w (σ.pool.queue.dequeue now).1 :: σ.log }
  | take (w : Nat) (now : Int) (x : String) (free : σ.pool.workers[w]? = some none)
      (told : (σ.pool.queue.dequeue now).1 = .item x) : Step e σ
      { cluster := σ.cluster.enlist (.drive x) (shift (Worker.process e x))
        pool := σ.pool.take e w now
        desk := fun k => if k = w then σ.cluster.tasks.length else σ.desk k
        staff := σ.cluster.tasks.length :: σ.staff
        log := .dequeue w (σ.pool.queue.dequeue now).1 :: σ.log }
  | work (w : Nat) (now : Int) (x : String) (me : Actor) (opened : Numbered PendingWrites)
      (q : Request) (next : Response q → Action Unit) (answer : Response q) (s' : MemoryStore)
      (busy : σ.pool.workers[w]? = some (some ⟨x, Program.ask q next⟩))
      (running : σ.cluster.tasks[σ.desk w]? = some ⟨me, opened, shift (Program.ask q next)⟩)
      (serves : Serves ⟨σ.cluster.rows, opened⟩ q answer s') : Step e σ
      { σ with
        cluster := σ.cluster.answered (σ.desk w) ⟨me, opened, shift (Program.ask q next)⟩ q answer
          s' (shift (next answer))
        pool := ⟨σ.pool.queue.serve now q,
          σ.pool.workers.set w (Handling.further x (next answer))⟩
        log := .answer w q :: σ.log }

/-- A workshop of some number of workers, which comes about from an empty store. -/
inductive Run (e : Engine) (n : Nat) : Workshop → Prop
  | start : Run e n { pool := .idle n }
  | step {σ σ' : Workshop} (run : Run e n σ) (step : Step e σ σ') : Run e n σ'

end Workshop

theorem HandsOver.next {x : String} {q : Request} {next : Response q → Action Unit}
    (hands : HandsOver x (Program.ask q next)) (answer : Response q) :
    Handling.further x (next answer) = some ⟨x, next answer⟩ ∨
      next answer = .done () ∧ Handling.further x (next answer) = none := by
  cases hands with
  | requeues delay next ends =>
    have ended : next answer = .done () := ends
    exact .inr ⟨ended, by rw [ended]; rfl⟩
  | finishes next ends =>
    have ended : next answer = .done () := ends
    exact .inr ⟨ended, by rw [ended]; rfl⟩
  | moves _ next move later => exact .inl (later answer).further

namespace Pool

variable {e : Engine} {p : Pool} {w : Nat} {now : Int} {x : String}

theorem take_item (told : (p.queue.dequeue now).1 = .item x) :
    (p.take e w now).workers = p.workers.set w (some ⟨x, Worker.process e x⟩) := by
  rw [take]
  split
  case h_1 y queue same =>
    rw [same] at told
    cases told
    rfl
  case h_2 others same =>
    rw [same] at told
    exact (others x told).elim

theorem take_nothing (told : ∀ x, (p.queue.dequeue now).1 ≠ .item x) :
    (p.take e w now).workers = p.workers := by
  rw [take]
  split
  case h_1 y queue same => exact absurd (congrArg Prod.fst same) (told y)
  case h_2 => rfl

theorem busy_take (free : p.workers[w]? = some none) (told : (p.queue.dequeue now).1 = .item x)
    {k : Nat} {y : String} {work : Action Unit}
    (busy : p.workers[k]? = some (some ⟨y, work⟩)) :
    k ≠ w ∧ (p.take e w now).workers[k]? = some (some ⟨y, work⟩) := by
  have other : k ≠ w := by
    rintro rfl
    rw [free] at busy
    cases busy
  rw [take_item told, List.getElem?_set_ne (Ne.symm other)]
  exact ⟨other, busy⟩

theorem busy_set {h : Option Handling} {k : Nat} {y : String} {work : Action Unit}
    (busy : (p.workers.set w h)[k]? = some (some ⟨y, work⟩)) :
    k = w ∧ h = some ⟨y, work⟩ ∨ k ≠ w ∧ p.workers[k]? = some (some ⟨y, work⟩) := by
  rw [List.getElem?_set] at busy
  split at busy
  · rename_i mine
    split at busy
    · exact .inl ⟨mine.symm, Option.some.inj busy⟩
    · cases busy
  · rename_i other
    exact .inr ⟨Ne.symm other, busy⟩

end Pool

namespace Workshop

open Worker (shift)

variable {e : Engine} {n : Nat} {σ σ' : Workshop} {x : String} {d : SagaDefinition}

/-! ## What holds of every workshop -/

/-- What happens to the pool of a workshop happens to a pool. -/
theorem Run.pool (run : Run e n σ) : Pool.Run e n σ.log σ.pool := by
  induction run with
  | start => exact .start
  | step run step ih =>
    cases step with
    | begin | answer => exact ih
    | enqueue x => exact ih.step (.enqueue _ x)
    | wait w now free told => exact ih.step (.dequeue _ w now free)
    | take w now x free told => exact ih.step (.dequeue _ w now free)
    | work w now x me opened q next answer s' busy =>
      exact ih.step (.answer _ w now x q next answer busy)

/-- The cluster is consistent. A busy worker is at the task that runs what it has to do, every other
task of a worker has come to its end, and none of them holds a lease then. -/
structure Sound (e : Engine) (σ : Workshop) : Prop where
  consistent : Consistent e σ.cluster
  manned : ∀ w x p, σ.pool.workers[w]? = some (some ⟨x, p⟩) → σ.desk w ∈ σ.staff ∧
    ∃ opened, σ.cluster.tasks[σ.desk w]? = some ⟨⟨σ.desk w, .drive x⟩, opened, shift p⟩
  retired : ∀ i ∈ σ.staff,
    (∃ w x p, σ.pool.workers[w]? = some (some ⟨x, p⟩) ∧ σ.desk w = i) ∨
      ∃ me opened, σ.cluster.tasks[i]? = some ⟨me, opened, .done .resumed⟩
  unleased : ∀ task ∈ σ.cluster.tasks, Ensures (contract e task.actor)
    (fun _ => Unleased task.actor) task.rest ⟨σ.cluster.journal, task.opened⟩

theorem Sound.inside (sound : Sound e σ) {i : Nat} (hired : i ∈ σ.staff) :
    i < σ.cluster.tasks.length := by
  rcases sound.retired i hired with ⟨w, x, p, busy, rfl⟩ | ⟨me, opened, found⟩
  · obtain ⟨-, opened, found⟩ := sound.manned w x p busy
    exact (List.getElem?_eq_some_iff.1 found).1
  · exact (List.getElem?_eq_some_iff.1 found).1

theorem sound_start (e : Engine) (n : Nat) : Sound e { pool := .idle n } where
  consistent := initial_consistent e
  manned w x p busy := by simp [Pool.idle, List.getElem?_replicate] at busy
  retired i hired := by cases hired
  unleased task inside := by cases inside

theorem getElem?_enlist {σ : Cluster} {operation : Operation} {rest : Action Operation.Result}
    {i : Nat} {task : Running} (found : σ.tasks[i]? = some task) :
    (σ.enlist operation rest).tasks[i]? = some task := by
  rw [Cluster.enlist, List.getElem?_append_left (List.getElem?_eq_some_iff.1 found).1]
  exact found

theorem getElem?_answered {σ : Cluster} {i k : Nat} {task other : Running} {q : Request}
    {answer : Response q} {s' : MemoryStore} {rest : Action Operation.Result}
    (found : σ.tasks[k]? = some other) (differs : i ≠ k) :
    (σ.answered i task q answer s' rest).tasks[k]? = some other := by
  rw [Cluster.answered, List.getElem?_set_ne differs]
  exact found

theorem Sound.answered (sound : Sound e σ) {i : Nat} {me : Actor} {opened : Numbered PendingWrites}
    {q : Request} {next : Response q → Action Operation.Result} {answer : Response q}
    {s' : MemoryStore} (running : σ.cluster.tasks[i]? = some ⟨me, opened, Program.ask q next⟩)
    (serves : Serves ⟨σ.cluster.rows, opened⟩ q answer s') :
    let σ' := σ.cluster.answered i ⟨me, opened, Program.ask q next⟩ q answer s' (next answer)
    Consistent e σ' ∧ ∀ task ∈ σ'.tasks, Ensures (contract e task.actor)
      (fun _ => Unleased task.actor) task.rest ⟨σ'.journal, task.opened⟩ := by
  refine ⟨answer_consistent sound.consistent running serves, ?_⟩
  exact (answer_ensures (fun me _ => Unleased me) (fun _ _ => unleased_stable)
    sound.consistent.lawful sound.consistent.rows sound.consistent.numbered sound.unleased running
    serves).2

theorem Sound.begin (sound : Sound e σ) (fits : e.Fits) (operation : Operation) :
    Sound e { σ with cluster := σ.cluster.enlist operation (operation.program e) } where
  consistent := begin_consistent sound.consistent fits operation
  manned w x p busy := by
    obtain ⟨hired, opened, found⟩ := sound.manned w x p busy
    exact ⟨hired, opened, getElem?_enlist found⟩
  retired i hired := by
    rcases sound.retired i hired with busy | ⟨me, opened, found⟩
    · exact .inl busy
    · exact .inr ⟨me, opened, getElem?_enlist found⟩
  unleased task inside := by
    rcases List.mem_append.1 inside with old | new
    · exact sound.unleased task old
    · cases List.mem_singleton.1 new
      exact program_unleased fits sound.consistent.lawful (sound.consistent.unused operation)

theorem Sound.byHand (sound : Sound e σ) {i : Nat} {me : Actor} {opened : Numbered PendingWrites}
    {q : Request} {next : Response q → Action Operation.Result} {answer : Response q}
    {s' : MemoryStore} (running : σ.cluster.tasks[i]? = some ⟨me, opened, Program.ask q next⟩)
    (byHand : i ∉ σ.staff) (serves : Serves ⟨σ.cluster.rows, opened⟩ q answer s') :
    Sound e { σ with
      cluster := σ.cluster.answered i ⟨me, opened, Program.ask q next⟩ q answer s' (next answer)
    } := by
  obtain ⟨consistent, unleased⟩ := sound.answered running serves
  have other {k : Nat} (hired : k ∈ σ.staff) : i ≠ k := fun same => byHand (same ▸ hired)
  refine ⟨consistent, fun w x p busy => ?_, fun k hired => ?_, unleased⟩
  · obtain ⟨hired, opened', found⟩ := sound.manned w x p busy
    exact ⟨hired, opened', getElem?_answered found (other hired)⟩
  · rcases sound.retired k hired with busy | ⟨me', opened', found⟩
    · exact .inl busy
    · exact .inr ⟨me', opened', getElem?_answered found (other hired)⟩

theorem Sound.take (sound : Sound e σ) (fits : e.Fits) {w : Nat} {now : Int}
    (free : σ.pool.workers[w]? = some none) (told : (σ.pool.queue.dequeue now).1 = .item x)
    (log : List PoolEvent) :
    Sound e
      { cluster := σ.cluster.enlist (.drive x) (shift (Worker.process e x))
        pool := σ.pool.take e w now
        desk := fun k => if k = w then σ.cluster.tasks.length else σ.desk k
        staff := σ.cluster.tasks.length :: σ.staff
        log } := by
  have consistent := sound.consistent
  have ensures : Ensures (contract e ⟨σ.cluster.tasks.length, .drive x⟩) _
      (shift (Worker.process e x)) ⟨σ.cluster.journal, {}⟩ :=
    shift_ensures fits rfl (consistent.free _)
  have latest :
      (σ.cluster.enlist (.drive x) (shift (Worker.process e x))).tasks[σ.cluster.tasks.length]? =
        some ⟨⟨σ.cluster.tasks.length, .drive x⟩, {}, shift (Worker.process e x)⟩ := by
    simp [Cluster.enlist]
  have workers := σ.pool.take_item (e := e) (w := w) told
  refine ⟨enlist_consistent consistent _ (ensures.mono fun _ _ both => both.1), ?_, ?_, ?_⟩
  · intro k y p busy
    have busy : (σ.pool.workers.set w _)[k]? = some (some ⟨y, p⟩) := workers ▸ busy
    rcases Pool.busy_set busy with ⟨rfl, same⟩ | ⟨other, busy⟩
    · cases same
      simp only [if_true]
      exact ⟨List.mem_cons_self, {}, latest⟩
    · obtain ⟨hired, opened, found⟩ := sound.manned k y p busy
      simp only [if_neg other]
      exact ⟨List.mem_cons_of_mem _ hired, opened, getElem?_enlist found⟩
  · intro i hired
    rcases List.mem_cons.1 hired with rfl | old
    · refine .inl ⟨w, x, Worker.process e x, ?_, if_pos rfl⟩
      rw [workers, List.getElem?_set_self (List.getElem?_eq_some_iff.1 free).1]
    · rcases sound.retired i old with ⟨k, y, p, busy, rfl⟩ | ⟨me, opened, found⟩
      · obtain ⟨other, busy⟩ := Pool.busy_take (e := e) free told busy
        exact .inl ⟨k, y, p, busy, if_neg other⟩
      · exact .inr ⟨me, opened, getElem?_enlist found⟩
  · intro task inside
    rcases List.mem_append.1 inside with old | new
    · exact sound.unleased task old
    · cases List.mem_singleton.1 new
      exact ensures.mono fun _ _ ⟨_, held⟩ _ => held

theorem Sound.at_desk (sound : Sound e σ) {w : Nat} {p : Action Unit} {task : Running}
    (busy : σ.pool.workers[w]? = some (some ⟨x, p⟩))
    (running : σ.cluster.tasks[σ.desk w]? = some task) : task.actor = ⟨σ.desk w, .drive x⟩ := by
  obtain ⟨-, opened, found⟩ := sound.manned w x p busy
  exact congrArg Running.actor (Option.some.inj (running.symm.trans found))

theorem Sound.desk_ne (sound : Sound e σ) (pool : σ.pool.Sound) {w k : Nat} {x y : String}
    {p p' : Action Unit} (busy : σ.pool.workers[w]? = some (some ⟨x, p⟩))
    (busy' : σ.pool.workers[k]? = some (some ⟨y, p'⟩)) (other : k ≠ w) : σ.desk w ≠ σ.desk k := by
  intro same
  obtain ⟨-, opened, found⟩ := sound.manned w x p busy
  -- Two workers at one task handle the same execution.
  rw [same] at found
  have actor := sound.at_desk busy' found
  obtain rfl : x = y := Operation.drive.inj (Actor.mk.inj actor).2
  exact other (pool.alone ⟨p', busy'⟩ ⟨p, busy⟩)

theorem Sound.work (sound : Sound e σ) (pool : σ.pool.Sound) {w : Nat} {me : Actor}
    {opened : Numbered PendingWrites} {q : Request} {next : Response q → Action Unit}
    {answer : Response q} {s' : MemoryStore}
    (busy : σ.pool.workers[w]? = some (some ⟨x, Program.ask q next⟩))
    (running : σ.cluster.tasks[σ.desk w]? = some ⟨me, opened, shift (Program.ask q next)⟩)
    (serves : Serves ⟨σ.cluster.rows, opened⟩ q answer s') (queue : DispatchQueue)
    (log : List PoolEvent) :
    Sound e { σ with
      cluster := σ.cluster.answered (σ.desk w) ⟨me, opened, shift (Program.ask q next)⟩ q answer s'
        (shift (next answer))
      pool := ⟨queue, σ.pool.workers.set w (Handling.further x (next answer))⟩
      log } := by
  obtain ⟨consistent, unleased⟩ := sound.answered running serves
  obtain ⟨hired, -⟩ := sound.manned w x _ busy
  have mine : me = ⟨σ.desk w, .drive x⟩ := sound.at_desk busy running
  have inRange := (List.getElem?_eq_some_iff.1 running).1
  have further := (pool.hands w _ busy).next answer
  have inside := (List.getElem?_eq_some_iff.1 busy).1
  refine ⟨consistent, fun k y p busy' => ?_, fun i hired' => ?_, unleased⟩
  · rcases Pool.busy_set busy' with ⟨rfl, same⟩ | ⟨other, busy'⟩
    · rcases further with goesOn | ⟨-, ended⟩
      · rw [goesOn] at same
        cases same
        refine ⟨hired, s'.transactions, ?_⟩
        rw [Cluster.answered, List.getElem?_set_self inRange, mine]
      · rw [ended] at same
        cases same
    · obtain ⟨hired', opened', found⟩ := sound.manned k y p busy'
      exact ⟨hired', opened', getElem?_answered found (sound.desk_ne pool busy busy' other)⟩
  · rcases sound.retired i hired' with ⟨k, y, p, busy', rfl⟩ | ⟨me', opened', found⟩
    · by_cases same : k = w
      · subst same
        rcases further with goesOn | ⟨ended, -⟩
        · refine .inl ⟨k, x, next answer, ?_, rfl⟩
          rw [List.getElem?_set_self inside, goesOn]
        · refine .inr ⟨me, s'.transactions, ?_⟩
          rw [Cluster.answered, List.getElem?_set_self inRange, ended]
          rfl
      · refine .inl ⟨k, y, p, ?_, rfl⟩
        rw [List.getElem?_set_ne (Ne.symm same)]
        exact busy'
    · refine .inr ⟨me', opened', getElem?_answered found ?_⟩
      rintro rfl
      rw [running] at found
      cases found

theorem Sound.step (sound : Sound e σ) (pool : σ.pool.Sound) (fits : e.Fits) (step : Step e σ σ') :
    Sound e σ' := by
  cases step with
  | begin operation => exact sound.begin fits operation
  | answer i me opened q next answer s' running byHand serves =>
    exact sound.byHand running byHand serves
  | enqueue x => exact ⟨sound.consistent, sound.manned, sound.retired, sound.unleased⟩
  | wait w now free told =>
    have workers := σ.pool.take_nothing (e := e) (w := w) told
    refine ⟨sound.consistent, fun k x p busy => sound.manned k x p (workers ▸ busy), ?_,
      sound.unleased⟩
    intro i hired
    rcases sound.retired i hired with ⟨k, x, p, busy, same⟩ | ended
    · exact .inl ⟨k, x, p, workers.symm ▸ busy, same⟩
    · exact .inr ended
  | take w now x free told => exact sound.take fits free told _
  | work w now x me opened q next answer s' busy running serves =>
    exact sound.work pool busy running serves _ _

theorem Run.sound (run : Run e n σ) (fits : e.Fits) : Sound e σ := by
  induction run with
  | start => exact sound_start e n
  | step run step ih => exact ih.step run.pool.sound fits step

/-! ## Workers exclude each other -/

/-- Nobody got a lease on the execution while somebody held one, which is what the lease manager
sees to; of two workers this is not asked. -/
def Apart (σ : Workshop) (x : String) : Prop :=
  ∀ (me : Actor) (lease : Lease) (k : Journal),
    ⟨me, .acquire x, some lease, []⟩ :: k <:+ σ.cluster.journal →
    ∀ other : Actor, other.operation.driven? = some x → (k.attempt other).held ≠ none →
      me.number ∈ σ.staff ∧ other.number ∈ σ.staff

theorem Step.journal (step : Step e σ σ') : σ.cluster.journal <:+ σ'.cluster.journal := by
  cases step with
  | answer | work => exact List.suffix_cons _ _
  | _ => exact List.suffix_refl _

/-- Who is one of the workers' tasks later and did something before was one of them before. -/
theorem Step.staff_before (step : Step e σ σ') {i : Nat} (small : i < σ.cluster.tasks.length)
    (hired : i ∈ σ'.staff) : i ∈ σ.staff := by
  cases step with
  | take w now x free told =>
    rcases List.mem_cons.1 hired with rfl | old
    · exact absurd small (Nat.lt_irrefl _)
    · exact old
  | _ => exact hired

theorem exists_of_held {k : Journal} {other : Actor} (held : (k.attempt other).held ≠ none) :
    ∃ ev ∈ k, ev.actor = other := by
  by_contra stranger
  exact held (held_of_stranger fun ev inside same => stranger ⟨ev, inside, same⟩)

theorem Apart.before (apart : σ'.Apart x) (consistent : Consistent e σ.cluster)
    (step : Step e σ σ') : σ.Apart x := by
  intro me lease k earlier other driven held
  obtain ⟨hired, hired'⟩ := apart me lease k (earlier.trans step.journal) other driven held
  have small (ev : Event) (inside : ev ∈ ⟨me, .acquire x, some lease, []⟩ :: k) :
      ev.actor.number < σ.cluster.tasks.length := consistent.number_lt (earlier.subset inside)
  obtain ⟨ev, inside, rfl⟩ := exists_of_held held
  exact ⟨step.staff_before (small _ List.mem_cons_self) hired,
    step.staff_before (small ev (List.mem_cons_of_mem _ inside)) hired'⟩

/-- A worker's task that holds a lease on an execution is that of a worker that handles it. -/
theorem Sound.holder (sound : Sound e σ) {other : Actor} (driven : other.operation.driven? = some x)
    (hired : other.number ∈ σ.staff) (held : (σ.cluster.journal.attempt other).held ≠ none) :
    ∃ w, σ.pool.handles w x ∧ σ.desk w = other.number ∧ other = ⟨σ.desk w, .drive x⟩ := by
  obtain ⟨ev, inside, same⟩ := exists_of_held held
  obtain ⟨task, member, isActor⟩ := sound.consistent.known ev inside
  obtain rfl : task.actor = other := isActor.trans same
  obtain ⟨i, found⟩ := List.mem_iff_getElem?.1 member
  have number := sound.consistent.numbered i task found
  rcases sound.retired _ hired with ⟨w, y, p, busy, desk⟩ | ⟨me, opened, ended⟩
  · obtain ⟨-, opened, found'⟩ := sound.manned w y p busy
    rw [desk, number, found] at found'
    have actor : task.actor = ⟨i, .drive y⟩ := congrArg Running.actor (Option.some.inj found')
    obtain rfl : y = x := by
      rw [actor] at driven
      exact Option.some.inj driven
    exact ⟨w, ⟨p, busy⟩, desk, by rw [desk, number]; exact actor⟩
  · rw [number, found] at ended
    cases Option.some.inj ended
    exact absurd (sound.unleased _ member (by simp [driven])) held

theorem apart_of_exclusive (exclusive : σ.cluster.journal.Exclusive x) : σ.Apart x :=
  fun me lease k earlier other driven held =>
    absurd (exclusive me lease k earlier other driven) held

/-- Who moves the execution on one after another, each to its end, gets no lease while another one
holds it; workers may do so at the same time. -/
theorem Sound.apart_of_turns (sound : Sound e σ)
    (turns : ∀ task ∈ σ.cluster.tasks, ∀ task' ∈ σ.cluster.tasks,
      task.actor.operation.driven? = some x → task'.actor.operation.driven? = some x →
      task.actor.number < task'.actor.number →
      task.actor.number ∈ σ.staff ∧ task'.actor.number ∈ σ.staff ∨
        task.result? ≠ none ∧ σ.cluster.journal.Precedes task.actor task'.actor) :
    σ.Apart x := by
  intro me lease k earlier other driven held
  obtain ⟨drives, free⟩ := (sound.consistent.lawful.suffix earlier).of_granted
  obtain ⟨ev, old, rfl⟩ := exists_of_held held
  obtain ⟨task, member, rfl⟩ := sound.consistent.known _ (earlier.subset List.mem_cons_self)
  obtain ⟨task', member', same⟩ :=
    sound.consistent.known ev (earlier.subset (List.mem_cons_of_mem _ old))
  rw [← same] at driven held ⊢
  obtain ⟨newest, split⟩ := earlier
  have differ : task.actor.number ≠ task'.actor.number := by
    intro equal
    obtain ⟨i, found⟩ := List.mem_iff_getElem?.1 member
    obtain ⟨i', found'⟩ := List.mem_iff_getElem?.1 member'
    rw [sound.consistent.numbered i _ found, sound.consistent.numbered i' _ found'] at equal
    rw [equal, found'] at found
    exact held (Option.some.inj found ▸ free)
  -- Who came first has ended, and so holds nothing, or is a worker as the other one is.
  rcases Nat.lt_or_gt_of_ne differ with first | second
  · rcases turns task member task' member' drives driven first with staff | ⟨-, precedes⟩
    · exact staff
    · exact absurd same.symm (precedes.unbegun split.symm rfl ev old)
  · rcases turns task' member' task member driven drives second with staff | ⟨ended, precedes⟩
    · exact ⟨staff.2, staff.1⟩
    · obtain ⟨r, result⟩ := Option.ne_none_iff_exists'.1 ended
      have unleased := Running.ends result (sound.unleased task' member')
      rw [precedes.attempt split.symm rfl] at held
      exact absurd (unleased (by rw [driven]; exact Option.some_ne_none x)) held

/-- A worker that gets a lease is the only one that handles the execution. -/
theorem Run.exclusive (run : Run e n σ) (fits : e.Fits) (apart : σ.Apart x) :
    σ.cluster.journal.Exclusive x := by
  induction run with
  | start => exact exclusive_nil x
  | @step σ σ' run step ih =>
    have sound := run.sound fits
    have before := ih (apart.before sound.consistent step)
    have after := (sound.step run.pool.sound fits step).consistent.lawful
    cases step with
    | answer i me opened q next answer s' running byHand serves =>
      refine exclusive_cons.2 ⟨before, fun grants ev' inside driven => ?_⟩
      obtain ⟨me', lease, same⟩ := Event.grants_iff.1 grants
      by_contra held
      have hired := (apart me' lease _ (by rw [← same]; exact List.suffix_refl _) _ driven held).1
      obtain rfl : me = me' := congrArg Event.actor same
      rw [sound.consistent.numbered i _ running] at hired
      exact byHand hired
    | work w now y me opened q next answer s' busy running serves =>
      refine exclusive_cons.2 ⟨before, fun grants ev' inside driven => ?_⟩
      obtain ⟨me', lease, same⟩ := Event.grants_iff.1 grants
      by_contra held
      have hired := (apart me' lease _ (by rw [← same]; exact List.suffix_refl _) _ driven held).2
      obtain rfl : me = me' := congrArg Event.actor same
      obtain ⟨k, ⟨p, busy'⟩, -, actor⟩ := sound.holder driven hired held
      have mine : me = ⟨σ.desk w, .drive y⟩ := sound.at_desk busy running
      have granted : Lawful e (⟨me, .acquire x, some lease, []⟩ :: σ.cluster.journal) :=
        same ▸ after
      obtain ⟨driven', free⟩ := granted.of_granted
      -- Both workers handle the execution, so they are one, at one task.
      rw [mine] at driven'
      obtain rfl : y = x := Option.some.inj driven'
      obtain rfl : k = w := run.pool.sound.alone ⟨p, busy'⟩ ⟨_, busy⟩
      rw [actor, ← mine] at held
      exact held free
    | _ => exact before

end Workshop

end SagaEngine
