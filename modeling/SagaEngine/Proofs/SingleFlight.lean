import SagaEngine.Dispatch.Queue
import SagaEngine.Proofs.Vocabulary
import Mathlib.Data.List.Perm.Basic
/-!
# Single flight

The queue hands an id to one worker at a time: an id in flight is ready, waits for its due
time, or is held by a worker, and in one of these places only. That the queue may put a
delayed id back without a check is due to the workers: whatever an advance comes to, a worker
hands the execution over exactly once, at the end. Main statements: `process_handsOver` and
`single_flight`.
-/

namespace SagaEngine

namespace DispatchQueue

variable {q q' : DispatchQueue} {held held' : List String} {x : String} {now : Int}

/-- The ids that wait for a worker, now or later. -/
def waiting (q : DispatchQueue) : List String := q.ready ++ q.delayed.map (·.executionId)

/-- The ids in flight are those that wait and those that are held, and none of them twice. -/
structure SingleFlight (q : DispatchQueue) (held : List String) : Prop where
  opened : q.closed = false
  places : q.inFlight.Perm (q.waiting ++ held)
  once : (q.waiting ++ held).Nodup

theorem insertDelayed_perm (d : Delayed) (waiting : List Delayed) :
    (insertDelayed d waiting).Perm (d :: waiting) := by
  induction waiting with
  | nil => exact .refl _
  | cons head rest ih =>
    rw [insertDelayed]
    split
    · exact .refl _
    · exact (ih.cons head).trans (.swap ..)

theorem waiting_promote (q : DispatchQueue) (now : Int) : (q.promote now).waiting = q.waiting := by
  simp only [waiting, promote, List.append_assoc, ← List.map_append,
    List.takeWhile_append_dropWhile]

theorem dequeue_cases (opened : q.closed = false) (now : Int) :
    (∃ x, (q.dequeue now).1 = .item x ∧ q.waiting = x :: (q.dequeue now).2.waiting) ∨
      ((∀ x, (q.dequeue now).1 ≠ .item x) ∧ (q.dequeue now).2.waiting = q.waiting) := by
  rw [dequeue, if_neg (by simp [opened]), ← waiting_promote q now]
  dsimp only
  cases ready : (q.promote now).ready with
  | cons x rest => exact .inl ⟨x, rfl, by simp [waiting, ready]⟩
  | nil =>
    cases delayed : (q.promote now).delayed with
    | cons next _ => exact .inr ⟨by simp, rfl⟩
    | nil => exact .inr ⟨by simp, rfl⟩

theorem dequeue_due {d : Delayed} {rest : List Delayed} (opened : q.closed = false)
    (ready : q.ready = []) (delayed : q.delayed = d :: rest) (reached : d.due ≤ now) :
    (q.dequeue now).1 = .item d.executionId := by
  simp [dequeue, promote, opened, ready, delayed, reached]

theorem mem_markInFlight {ids : List String} {x y : String} :
    y ∈ markInFlight ids x ↔ y = x ∨ y ∈ ids := by
  rw [markInFlight]
  split
  case isTrue known => exact ⟨.inr, fun h => h.elim (fun same => same ▸ known) id⟩
  case isFalse => rw [List.mem_append, List.mem_singleton, or_comm]

theorem mem_enqueue (opened : q.closed = false) {x y : String} :
    y ∈ (q.enqueue x).2.inFlight ↔ y = x ∨ y ∈ q.inFlight := by
  by_cases known : x ∈ q.inFlight
  · have refused : (q.enqueue x).2 = q := by simp [enqueue, opened, known]
    rw [refused]
    exact ⟨.inr, fun h => h.elim (fun same => same ▸ known) id⟩
  · have accepted : (q.enqueue x).2.inFlight = markInFlight q.inFlight x := by
      simp [enqueue, opened, known]
    rw [accepted, mem_markInFlight]

theorem mem_enqueueAfter {y : String} (flying : y ∈ q.inFlight) (x : String) (delay now : Int) :
    y ∈ (q.enqueueAfter x delay now).inFlight := by
  rw [enqueueAfter]
  split
  · exact flying
  · exact mem_markInFlight.2 (.inr flying)

theorem dequeue_fields (q : DispatchQueue) (now : Int) :
    (q.dequeue now).2.closed = q.closed ∧ (q.dequeue now).2.inFlight = q.inFlight := by
  rw [dequeue]
  split
  · exact ⟨rfl, rfl⟩
  · dsimp only
    split
    · exact ⟨rfl, rfl⟩
    · split <;> exact ⟨rfl, rfl⟩

namespace SingleFlight

theorem start : SingleFlight {} [] := ⟨rfl, .refl _, List.nodup_nil⟩

theorem mem_iff (single : SingleFlight q held) :
    x ∈ q.inFlight ↔ x ∈ q.waiting ∨ x ∈ held := by
  rw [single.places.mem_iff, List.mem_append]

theorem reorder (single : SingleFlight q held) (same : held.Perm held') : SingleFlight q held' :=
  ⟨single.opened, single.places.trans (same.append_left _),
    (same.append_left q.waiting).nodup_iff.1 single.once⟩

theorem accepts_iff (single : SingleFlight q held) :
    (q.enqueue x).1 = true ↔ x ∉ q.inFlight := by
  by_cases known : x ∈ q.inFlight <;> simp [enqueue, single.opened, known]

theorem enqueue (single : SingleFlight q held) (x : String) :
    SingleFlight (q.enqueue x).2 held := by
  by_cases known : x ∈ q.inFlight
  · have refused : (q.enqueue x).2 = q := by simp [DispatchQueue.enqueue, single.opened, known]
    rwa [refused]
  · have accepted : (q.enqueue x).2 =
        { q with ready := q.ready ++ [x], inFlight := q.inFlight ++ [x] } := by
      simp [DispatchQueue.enqueue, single.opened, known, markInFlight]
    have moved : (q.enqueue x).2.waiting.Perm (x :: q.waiting) := by
      simp only [accepted, waiting, List.append_assoc]
      exact List.perm_middle
    have fresh : x ∉ q.waiting ++ held := fun inside => known (single.places.mem_iff.2 inside)
    have places := (moved.append_right held)
    have once := places.nodup_iff.2 (List.nodup_cons.2 ⟨fresh, single.once⟩)
    refine ⟨by rw [accepted]; exact single.opened, ?_, once⟩
    refine List.Perm.trans ?_ places.symm
    rw [accepted]
    exact (List.perm_append_singleton x q.inFlight).trans (single.places.cons x)

theorem dequeue (single : SingleFlight q held) (now : Int) :
    match (q.dequeue now).1 with
    | .item x => SingleFlight (q.dequeue now).2 (x :: held)
    | _ => SingleFlight (q.dequeue now).2 held := by
  obtain ⟨closed, inFlight⟩ := dequeue_fields q now
  rcases dequeue_cases single.opened now with ⟨x, told, waits⟩ | ⟨told, waits⟩
  · have places : (q.waiting ++ held).Perm ((q.dequeue now).2.waiting ++ x :: held) := by
      rw [waits]
      exact List.perm_middle.symm
    simp only [told]
    exact ⟨closed.trans single.opened, inFlight ▸ single.places.trans places,
      places.nodup_iff.1 single.once⟩
  · have same : SingleFlight (q.dequeue now).2 held :=
      ⟨closed.trans single.opened, by rw [inFlight, waits]; exact single.places,
        by rw [waits]; exact single.once⟩
    split
    · exact absurd ‹_› (told _)
    · exact same

theorem requeue (single : SingleFlight q (x :: held)) (delay now : Int) :
    SingleFlight (q.enqueueAfter x delay now) held := by
  have known : x ∈ q.inFlight := single.mem_iff.2 (.inr List.mem_cons_self)
  have back : q.enqueueAfter x delay now =
      { q with delayed := insertDelayed ⟨now + delay, x⟩ q.delayed } := by
    simp [enqueueAfter, single.opened, markInFlight, known]
  have places : (q.waiting ++ x :: held).Perm ((q.enqueueAfter x delay now).waiting ++ held) := by
    have moved : ((insertDelayed ⟨now + delay, x⟩ q.delayed).map (·.executionId)).Perm
        (x :: q.delayed.map (·.executionId)) := (insertDelayed_perm _ _).map _
    have waits : (q.enqueueAfter x delay now).waiting.Perm (x :: q.waiting) := by
      rw [back]
      exact (moved.append_left q.ready).trans List.perm_middle
    exact List.perm_middle.trans (waits.symm.append_right held)
  refine ⟨by rw [back]; exact single.opened, ?_, places.nodup_iff.1 single.once⟩
  exact List.Perm.trans (by rw [back]; exact single.places) places

theorem finished (single : SingleFlight q (x :: held)) : SingleFlight (q.done x) held := by
  -- Nothing else in flight carries the id, so taking it out of the list takes out one entry.
  have split := single.places.trans List.perm_middle
  have once := List.perm_middle.nodup_iff.1 single.once
  obtain ⟨absent, rest⟩ := List.nodup_cons.1 once
  refine ⟨single.opened, ?_, rest⟩
  have others := split.filter fun id => id ≠ x
  rw [List.filter_cons_of_neg (by simp)] at others
  refine others.trans (List.Perm.of_eq (List.filter_eq_self.2 fun id inside => ?_))
  simpa using fun same : id = x => absent (same ▸ inside)

end SingleFlight

end DispatchQueue

/-! ## Workers -/

/-- The request hands an execution back to the queue, or takes it out. -/
def Request.isHandOff : Request → Bool
  | .requeue .. | .finished _ => true
  | _ => false

/-- Whatever it is answered, the program hands the execution over exactly once, at its end. -/
inductive HandsOver (x : String) : Action Unit → Prop
  | requeues (delay : Int) (next : Unit → Action Unit) (ends : next () = .done ()) :
      HandsOver x (Program.ask (.requeue x delay) next)
  | finishes (next : Unit → Action Unit) (ends : next () = .done ()) :
      HandsOver x (Program.ask (.finished x) next)
  | moves (q : Request) (next : Response q → Action Unit) (move : q.isMove = true)
      (later : ∀ answer, HandsOver x (next answer)) : HandsOver x (Program.ask q next)

namespace HandsOver

variable {x : String} {α : Type}

theorem requeue (x : String) (delay : Int) (after : Action Unit) (ends : after = .done ()) :
    HandsOver x (Action.ask (.requeue x delay) >>= fun _ => after) := .requeues delay _ ends

theorem finish (x : String) : HandsOver x (Action.ask (.finished x)) := .finishes _ rfl

theorem attempt {p : Action α} {rest : Except Failure α → Action Unit} (moves : Moves p)
    (ends : ∀ r, HandsOver x (rest r)) : HandsOver x (p.attempt >>= rest) := by
  induction p with
  | done | failed => exact ends _
  | ask q next ih => exact .moves q _ moves.1 fun answer => ih answer (moves.2 answer)

end HandsOver

/-- Whatever the advances come to, the execution goes back to the queue, or what follows hands it
over. -/
theorem advanceWithin_handsOver (e : Engine) {x : String} {rest : Except Failure Bool → Action Unit}
    (requeued : rest (.ok true) = .done ()) (stopped : HandsOver x (rest (.ok false)))
    (failed : ∀ failure, HandsOver x (rest (.error failure))) (moves : Nat) :
    HandsOver x ((Worker.advanceWithin e x moves).attempt >>= rest) := by
  induction moves with
  | zero => exact failed _
  | succ moves ih =>
    rw [Worker.advanceWithin, Program.attempt_bind, bind_assoc]
    refine .attempt (advance_only e x) fun r => ?_
    rcases r with failure | advanced
    · exact failed failure
    · cases advanced with
      | progressed => exact ih
      | retryAfter delay => exact .requeues delay _ requeued
      | terminal => exact stopped
      | abandoned => exact stopped

/-- A worker hands over what it took, with a delay or for good. -/
theorem process_handsOver (e : Engine) (x : String) : HandsOver x (Worker.process e x) :=
  advanceWithin_handsOver e rfl (.finish x) (fun _ => .moves _ _ rfl fun _ => .finish x) e.patience

/-! ## The pool -/

/-- What a worker is busy with: an execution that it took, and the rest of its program. -/
structure Handling where
  executionId : String
  rest : Action Unit

/-- A worker goes on with its program, or asks for more work. -/
def Handling.further (x : String) : Action Unit → Option Handling
  | Program.ask q next => some ⟨x, Program.ask q next⟩
  | _ => none

theorem HandsOver.further {x : String} {p : Action Unit} (hands : HandsOver x p) :
    Handling.further x p = some ⟨x, p⟩ := by
  cases hands <;> rfl

/-- The queue and the workers; a worker that handles nothing is idle. -/
structure Pool where
  queue : DispatchQueue := {}
  workers : List (Option Handling)

/-- What happens to a pool: somebody enqueues an id, an idle worker asks for work, or a request of
a busy worker is answered. -/
inductive PoolEvent
  | enqueue (executionId : String)
  | dequeue (worker : Nat) (told : Dequeued)
  | answer (worker : Nat) (request : Request)

namespace PoolEvent

/-- The worker takes an id from the queue. -/
def takes (i : Nat) : PoolEvent → Bool
  | .dequeue worker (.item _) => worker = i
  | _ => false

/-- The worker hands over what it took. -/
def handsOver (i : Nat) : PoolEvent → Bool
  | .answer worker q => worker = i ∧ q.isHandOff
  | _ => false

end PoolEvent

/-- What a request of a worker does to the queue. -/
def DispatchQueue.serve (queue : DispatchQueue) (now : Int) : Request → DispatchQueue
  | .requeue x delay => queue.enqueueAfter x delay now
  | .finished x => queue.done x
  | _ => queue

theorem DispatchQueue.serve_move {q : Request} (move : q.isMove = true) (queue : DispatchQueue)
    (now : Int) : queue.serve now q = queue := by
  cases q <;> first | rfl | cases move

namespace Pool

/-- A number of idle workers and nothing to do. -/
def idle (n : Nat) : Pool := { workers := List.replicate n none }

/-- The ids that a worker took and did not hand over yet. -/
def held (p : Pool) : List String := p.workers.filterMap (·.map Handling.executionId)

def handles (p : Pool) (i : Nat) (x : String) : Prop :=
  ∃ rest, p.workers[i]? = some (some ⟨x, rest⟩)

def isBusy (p : Pool) (i : Nat) : Bool := p.workers[i]?.join.isSome

/-- A worker asks for work and starts with what it gets. -/
def take (p : Pool) (e : Engine) (i : Nat) (now : Int) : Pool :=
  match p.queue.dequeue now with
  | (.item x, queue) => ⟨queue, p.workers.set i (some ⟨x, Worker.process e x⟩)⟩
  | (_, queue) => { p with queue }

/-- One step of a pool. What a worker asks for may be answered in any way, so its moves may come
to anything. -/
inductive Step (e : Engine) : Pool → PoolEvent → Pool → Prop
  | enqueue (p : Pool) (x : String) :
      Step e p (.enqueue x) { p with queue := (p.queue.enqueue x).2 }
  | dequeue (p : Pool) (i : Nat) (now : Int) (free : p.workers[i]? = some none) :
      Step e p (.dequeue i (p.queue.dequeue now).1) (p.take e i now)
  | answer (p : Pool) (i : Nat) (now : Int) (x : String) (q : Request)
      (next : Response q → Action Unit) (answer : Response q)
      (busy : p.workers[i]? = some (some ⟨x, Program.ask q next⟩)) :
      Step e p (.answer i q)
        ⟨p.queue.serve now q, p.workers.set i (Handling.further x (next answer))⟩

/-- A pool of some number of workers after the events, the latest first. -/
inductive Run (e : Engine) (n : Nat) : List PoolEvent → Pool → Prop
  | start : Run e n [] (idle n)
  | step {log p ev p'} (run : Run e n log p) (step : Step e p ev p') : Run e n (ev :: log) p'

section

variable {e : Engine} {n i j : Nat} {p p' : Pool} {ev : PoolEvent} {log : List PoolEvent}
  {x : String}

theorem held_set {w : Option Handling} (found : p.workers[i]? = some w) :
    ∃ others, p.held.Perm ((w.map Handling.executionId).toList ++ others) ∧
      ∀ queue w', (held ⟨queue, p.workers.set i w'⟩).Perm
        ((w'.map Handling.executionId).toList ++ others) := by
  obtain ⟨inside, rfl⟩ := List.getElem?_eq_some_iff.1 found
  have around (w' : Option Handling) :
      ((p.workers.take i ++ w' :: p.workers.drop (i + 1)).filterMap
        (·.map Handling.executionId)).Perm
        ((w'.map Handling.executionId).toList ++
          (p.workers.take i ++ p.workers.drop (i + 1)).filterMap (·.map Handling.executionId)) := by
    cases w' with
    | none => simp
    | some h =>
      simp only [List.filterMap_append, List.filterMap_cons, Option.map_some]
      exact List.perm_middle
  refine ⟨(p.workers.take i ++ p.workers.drop (i + 1)).filterMap (·.map Handling.executionId), ?_,
    fun queue w' => ?_⟩
  · have whole := around p.workers[i]
    rwa [List.getElem_cons_drop, List.take_append_drop] at whole
  · rw [held, List.set_eq_take_append_cons_drop, if_pos inside]
    exact around w'

theorem held_busy {rest : Action Unit} (busy : p.workers[i]? = some (some ⟨x, rest⟩)) :
    ∃ others, p.held.Perm (x :: others) ∧ ∀ queue w', (held ⟨queue, p.workers.set i w'⟩).Perm
      ((w'.map Handling.executionId).toList ++ others) := held_set busy

/-- Every id in flight is in one place, and every busy worker will hand over what it holds. -/
structure Sound (p : Pool) : Prop where
  single : p.queue.SingleFlight p.held
  hands : ∀ (i : Nat) (h : Handling), p.workers[i]? = some (some h) → HandsOver h.executionId h.rest

theorem sound_idle (n : Nat) : (idle n).Sound := by
  refine ⟨?_, ?_⟩
  · have nothing : (idle n).held = [] := by simp [held, idle]
    rw [nothing]
    exact .start
  · intro i h busy
    simp [idle, List.getElem?_replicate] at busy

theorem hands_set (sound : p.Sound) {w : Option Handling}
    (mine : ∀ h ∈ w, HandsOver h.executionId h.rest) (j : Nat) (h : Handling)
    (busy : (p.workers.set i w)[j]? = some (some h)) : HandsOver h.executionId h.rest := by
  rw [List.getElem?_set] at busy
  split at busy
  · split at busy
    · exact mine h (Option.some.inj busy)
    · cases busy
  · exact sound.hands j h busy

theorem Sound.step (sound : p.Sound) (step : Step e p ev p') : p'.Sound := by
  cases step with
  | enqueue x => exact ⟨sound.single.enqueue x, sound.hands⟩
  | dequeue i now free =>
    have next := sound.single.dequeue now
    rw [take]
    split
    case h_1 x queue told =>
      obtain ⟨others, before, after⟩ := held_set free
      rw [told] at next
      refine ⟨next.reorder ?_, hands_set sound ?_⟩
      · exact (before.cons x).trans (after queue (some ⟨x, Worker.process e x⟩)).symm
      · rintro _ ⟨⟩
        exact process_handsOver e x
    case h_2 queue others told =>
      rw [told] at next
      split at next
      case h_1 x same => exact (others x same).elim
      case h_2 => exact ⟨next, sound.hands⟩
  | answer i now x q next answer busy =>
    obtain ⟨others, before, after⟩ := held_busy busy
    have single := sound.single.reorder before
    have hands : HandsOver x (Program.ask q next) := sound.hands i _ busy
    cases hands with
    | requeues delay next ends =>
      rw [show next answer = .done () from ends]
      exact ⟨(single.requeue delay now).reorder (after _ none).symm, hands_set sound nofun⟩
    | finishes next ends =>
      rw [show next answer = .done () from ends]
      exact ⟨single.finished.reorder (after _ none).symm, hands_set sound nofun⟩
    | moves _ next move later =>
      rw [(later answer).further, DispatchQueue.serve_move move]
      exact ⟨single.reorder (after _ (some ⟨x, next answer⟩)).symm,
        hands_set sound (by rintro _ ⟨⟩; exact later answer)⟩

theorem Run.sound (run : Run e n log p) : p.Sound := by
  induction run with
  | start => exact sound_idle n
  | step run step ih => exact ih.step step

/-- An id leaves the flight only when a worker that holds it is done with it. -/
theorem Sound.kept (sound : p.Sound) (step : Step e p ev p') (flying : x ∈ p.queue.inFlight) :
    x ∈ p'.queue.inFlight ∨ ∃ i, p.handles i x ∧ ev = .answer i (.finished x) := by
  cases step with
  | enqueue y => exact .inl ((DispatchQueue.mem_enqueue sound.single.opened).2 (.inr flying))
  | dequeue i now free =>
    refine .inl ?_
    have same : (p.take e i now).queue.inFlight = p.queue.inFlight := by
      rw [← (DispatchQueue.dequeue_fields p.queue now).2, take]
      split <;> rename_i told <;> rw [told]
    exact same ▸ flying
  | answer i now y q next answer busy =>
    have hands : HandsOver y (Program.ask q next) := sound.hands i _ busy
    cases hands with
    | requeues delay next ends => exact .inl (DispatchQueue.mem_enqueueAfter flying y delay now)
    | finishes next ends =>
      by_cases same : x = y
      · subst same
        exact .inr ⟨i, ⟨_, busy⟩, rfl⟩
      · exact .inl (List.mem_filter.2 ⟨flying, by simpa using same⟩)
    | moves _ next move later =>
      rw [DispatchQueue.serve_move move]
      exact .inl flying

theorem Sound.alone (sound : p.Sound) (first : p.handles i x) (second : p.handles j x) : i = j := by
  obtain ⟨rest, busy⟩ := first
  obtain ⟨rest', busy'⟩ := second
  by_contra differ
  -- Without the first worker the id would still be held, by the second one.
  obtain ⟨others, before, after⟩ := held_busy busy
  have once : (x :: others).Nodup :=
    before.nodup_iff.1 ((List.nodup_append.1 sound.single.once).2.1)
  have inside : x ∈ held ⟨p.queue, p.workers.set i none⟩ := by
    refine List.mem_filterMap.2 ⟨some ⟨x, rest'⟩, List.mem_of_getElem? (i := j) ?_, rfl⟩
    rw [List.getElem?_set_ne differ]
    exact busy'
  exact (List.nodup_cons.1 once).1 ((after p.queue none).mem_iff.1 inside)

theorem isBusy_set {w : Option Handling} (found : p.workers[j]? = some w) (queue : DispatchQueue)
    (w' : Option Handling) (i : Nat) :
    isBusy ⟨queue, p.workers.set j w'⟩ i = if i = j then w'.isSome else p.isBusy i := by
  obtain ⟨inside, -⟩ := List.getElem?_eq_some_iff.1 found
  by_cases mine : i = j
  · subst mine
    simp [isBusy, inside]
  · simp [isBusy, mine, Ne.symm mine]

/-- A worker gets busy by taking an id and free by handing it over. -/
theorem Sound.balance (sound : p.Sound) (step : Step e p ev p') (i : Nat) :
    (ev.handsOver i).toNat + (p'.isBusy i).toNat = (p.isBusy i).toNat + (ev.takes i).toNat := by
  cases step with
  | enqueue x => simp [PoolEvent.handsOver, PoolEvent.takes, isBusy]
  | dequeue j now free =>
    rw [take]
    split
    case h_1 x queue told =>
      rw [told, isBusy_set free]
      by_cases mine : i = j
      · subst mine
        simp [PoolEvent.handsOver, PoolEvent.takes, isBusy, free]
      · simp [PoolEvent.handsOver, PoolEvent.takes, mine, Ne.symm mine]
    case h_2 told queue others took =>
      have none : (PoolEvent.dequeue j told).takes i = false := by
        cases told with
        | item x => exact (others x rfl).elim
        | _ => rfl
      rw [took, none]
      simp [PoolEvent.handsOver, isBusy]
  | answer j now x q next answer busy =>
    have hands : HandsOver x (Program.ask q next) := sound.hands j _ busy
    have before : p.isBusy j = true := by simp [isBusy, busy]
    rw [isBusy_set busy]
    have ended (off : q.isHandOff = true) (free : Handling.further x (next answer) = none) :
        ((PoolEvent.answer j q).handsOver i).toNat +
            (if i = j then (Handling.further x (next answer)).isSome else p.isBusy i).toNat =
          (p.isBusy i).toNat + ((PoolEvent.answer j q).takes i).toNat := by
      by_cases mine : i = j
      · subst mine
        simp [PoolEvent.handsOver, PoolEvent.takes, off, free, before]
      · simp [PoolEvent.handsOver, PoolEvent.takes, mine, Ne.symm mine]
    cases hands with
    | requeues delay next ends => exact ended rfl (congrArg (Handling.further x) ends)
    | finishes next ends => exact ended rfl (congrArg (Handling.further x) ends)
    | moves _ next move later =>
      have keeps : q.isHandOff = false := by cases q <;> first | rfl | cases move
      rw [(later answer).further]
      by_cases mine : i = j
      · subst mine
        simp [PoolEvent.handsOver, PoolEvent.takes, keeps, before]
      · simp [PoolEvent.handsOver, PoolEvent.takes, mine, Ne.symm mine]

/-- A worker has handed over what it took before, once, and not yet what it is busy with. -/
theorem Run.balanced (run : Run e n log p) (i : Nat) :
    log.countP (·.handsOver i) + (p.isBusy i).toNat = log.countP (·.takes i) := by
  induction run with
  | start =>
    have free : (idle n).isBusy i = false := by
      by_cases inside : i < n <;> simp [isBusy, idle, inside]
    simp [free]
  | @step log p ev p' run step ih =>
    have balance := run.sound.balance step i
    have count (b : Bool) : (if b = true then 1 else 0) = b.toNat := by cases b <;> rfl
    rw [List.countP_cons, List.countP_cons, count, count]
    omega

end

end Pool

/-- The ids in flight are those that are ready, delayed or held by a worker, and every one of them
is in one place only. So an id is accepted if it is in none of these places, two workers never
hold the same one, it stays in flight until a worker that holds it is done, and for everything that
a worker takes it hands over once, whatever its moves come to. -/
theorem single_flight {e : Engine} {n : Nat} {log : List PoolEvent} {p : Pool}
    (run : Pool.Run e n log p) :
    (p.queue.inFlight.Perm (p.queue.ready ++ p.queue.delayed.map (·.executionId) ++ p.held) ∧
        (p.queue.ready ++ p.queue.delayed.map (·.executionId) ++ p.held).Nodup) ∧
      (∀ x, (p.queue.enqueue x).1 = true ↔
        x ∉ p.queue.ready ∧ (∀ d ∈ p.queue.delayed, d.executionId ≠ x) ∧ x ∉ p.held) ∧
      (∀ i j x, p.handles i x → p.handles j x → i = j) ∧
      (∀ x, x ∈ (p.queue.enqueue x).2.inFlight) ∧
      (∀ ev p' x, Pool.Step e p ev p' → x ∈ p.queue.inFlight →
        x ∈ p'.queue.inFlight ∨ ∃ i, p.handles i x ∧ ev = .answer i (.finished x)) ∧
      (∀ i, log.countP (·.handsOver i) + (p.isBusy i).toNat = log.countP (·.takes i)) ∧
      ∀ x, HandsOver x (Worker.process e x) := by
  obtain ⟨single, hands⟩ := run.sound
  refine ⟨⟨single.places, single.once⟩, fun x => ?_, fun i j x => run.sound.alone,
    fun x => (DispatchQueue.mem_enqueue single.opened).2 (.inl rfl),
    fun ev p' x step => run.sound.kept step, run.balanced, process_handsOver e⟩
  rw [single.accepts_iff, single.mem_iff, DispatchQueue.waiting]
  simp only [List.mem_append, List.mem_map, not_or, not_exists, not_and, and_assoc, ne_eq]

/-- One of two workers took the only id, which is then refused by the queue. -/
theorem single_flight_taken : ∃ log p, Pool.Run ⟨{ frozen := true }, 1, rfl⟩ 2 log p ∧
    p.held = ["x"] ∧ (p.queue.enqueue "x").1 = false := by
  have run := Pool.Run.start (e := ⟨{ frozen := true }, 1, rfl⟩) (n := 2)
  have run := (run.step (.enqueue _ "x")).step (.dequeue _ 0 0 rfl)
  refine ⟨_, _, run, rfl, Bool.eq_false_iff.2 fun accepted => ?_⟩
  exact (((single_flight run).2.1 "x").1 accepted).2.2 List.mem_cons_self

end SagaEngine
