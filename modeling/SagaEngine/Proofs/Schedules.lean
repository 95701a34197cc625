import SagaEngine.Proofs.CrashRecovery
import SagaEngine.Proofs.Requeues
/-!
# Schedules

What an execution comes to does not depend on who moves it on and when: as long as the step results
depend on the call only, an execution that nobody cancels makes the calls and stores the rows that
it makes and stores when it is driven alone, whatever the others do, and workers let the queue wait
for the delays for which a drive sleeps. Main statements: `Lineage.course`, `Account.run` and
`schedule_agrees_with_drive`.
-/

namespace SagaEngine

/-- A row accepted at another time. -/
def Execution.created (row : Execution) (createdAt : Nat) : Execution := { row with createdAt }

/-- A row apart from all the times on it, that of its acceptance included. -/
def Execution.undated (row : Execution) : Execution := (row.created 0).timeless

/-- A ledger of an execution that was accepted at another time. -/
def Ledger.created (l : Ledger) (createdAt : Nat) : Ledger :=
  ⟨l.rows.map (·.created createdAt), l.calls⟩

namespace Event

/-- The call of a step, and the type of the saga that the step belongs to. -/
def typedCall? : Event → Option (String × CallMade)
  | ⟨_, .call sagaType call, reply, _⟩ => some (sagaType, ⟨call, reply⟩)
  | _ => none

/-- The delay for which an actor slept. -/
def slept? (me : Actor) : Event → Option Int
  | ⟨actor, .sleep delay, _, _⟩ => if actor = me then some delay else none
  | _ => none

end Event

/-- The steps reply to every call in one way, given by the call. -/
def Journal.Replies (j : Journal) (steps : String → StepCall → StepReply) : Prop :=
  ∀ ev ∈ j, ∀ made ∈ ev.typedCall?, made.2.reply = steps made.1 made.2.call

/-- The delays for which an actor slept, oldest first. -/
def Journal.sleeps (me : Actor) (j : Journal) : List Int := (j.filterMap (·.slept? me)).reverse

section

variable {e : Engine} {d : SagaDefinition} {x : String} {n : Nat} {l l' : Ledger}
  {row changed : Execution} {rows : List Execution} {calls : List CallMade} {c : CallMade}
  {t : Transition} {j : Journal} {me : Actor} {host : Host}

/-! ## The time of acceptance -/

theorem Transition.apply_created (t : Transition) (row : Execution) (createdAt : Nat) :
    t.apply (row.created createdAt) = (t.apply row).map (·.created createdAt) := by
  cases t with
  | stepDone fragment | stepUndone fragment =>
    simp only [apply, Execution.created]
    cases mergedBlob row.context fragment <;> rfl
  | _ => rfl

theorem Transition.next_created (next : t.next row = .ok changed) (createdAt : Nat) :
    t.next (row.created createdAt) = .ok (changed.created createdAt) := by
  have applied := apply_of_next next
  rw [Transition.next, applied] at next
  rw [Transition.next, apply_created, applied]
  dsimp only at next
  split at next
  · cases next
  · rename_i legal
    exact if_neg legal

/-- Nothing but the time on the rows depends on when an execution was accepted. -/
theorem Course.created {steps : StepCall → StepReply} (course : Course d steps n l l')
    (createdAt : Nat) : Course d steps n (l.created createdAt) (l'.created createdAt) := by
  induction course with
  | stay l => exact .stay _
  | stored now decides replies next rest ih =>
    exact .stored now (decides.alike rfl rfl rfl rfl) replies
      (Transition.next_created next createdAt) ih
  | lost asks rest ih => exact .lost (asks.alike rfl rfl rfl rfl) ih

theorem Repeats.eq_of_zero {more : List CallMade} (repeats : Repeats 0 calls more) :
    calls = more := by
  generalize none : 0 = n at repeats
  induction repeats with
  | nil => rfl
  | once c rest ih => rw [ih none]
  | again => cases none

/-- Two courses without lost calls, from rows that differ in times only. -/
theorem Course.same {steps : StepCall → StepReply} {first : Execution}
    (course : Course d steps 0 ⟨[first], []⟩ l) (course' : Course d steps 0 ⟨[row], []⟩ l')
    (same : first.undated = row.undated) (ended : l.Ended) (ended' : l'.Ended) :
    l.calls = l'.calls ∧ l.rows.map (·.undated) = l'.rows.map (·.undated) := by
  have still (l : Ledger) (ended : l.Ended) : (l.created 0).Ended := by
    obtain ⟨row, isHead, terminal⟩ := ended
    refine ⟨row.created 0, ?_, terminal⟩
    rw [Ledger.created, List.head?_map, isHead]
    rfl
  obtain ⟨rows, calls, more, made, made', repeats⟩ := (course.created 0).agree (course'.created 0)
    (congrArg (fun row => [row]) same) (still l ended) (still l' ended')
  refine ⟨?_, ?_⟩
  · rw [← repeats.eq_of_zero] at made'
    exact made.trans made'.symm
  · simp only [Ledger.created, List.map_map] at rows
    exact rows

/-! ## Rows of a single owner as a course -/

/-- Without cancel requests every decision was taken on the latest row. -/
theorem Lineage.course {steps : StepCall → StepReply} (lineage : Lineage d rows calls)
    (fits : d.Fits) (unasked : ∀ row ∈ rows, row.cancelRequested = false)
    (replied : ∀ c ∈ calls, c.reply = steps c.call) :
    ∃ first, rows.getLast? = some first ∧ Course d steps 0 ⟨[first], []⟩ ⟨rows, calls⟩ := by
  induction lineage with
  | created id sagaType context now => exact ⟨_, rfl, .stay _⟩
  | cancelled now before active none ih =>
    have asked := unasked _ List.mem_cons_self
    cases asked
  | @decided row base changed earlier calls made t now before read same decides next ih =>
    obtain ⟨first, last, course⟩ := ih (fun row old => unasked row (List.mem_cons_of_mem _ old))
      fun c old => replied c (List.mem_append_left _ old)
    have latest : base = row := by
      rcases List.mem_cons.1 read with here | older
      · exact here
      · have follows := List.rel_of_pairwise_cons (before.follows fits) older
        have asked := (follows.asked_of_same same.symm).2
        rw [unasked row (List.mem_cons_of_mem _ List.mem_cons_self)] at asked
        cases asked
    subst latest
    have stored : Course d steps 0 ⟨base :: earlier, calls⟩
        ⟨(changed.stamped now).replacing base :: base :: earlier, calls ++ made⟩ :=
      .stored now decides (fun c new => replied c (List.mem_append_right _ new)) next (.stay _)
    exact ⟨first, List.getLast?_cons_cons.trans last, course.trans stored⟩

/-! ## Replies -/

theorem Event.call?_of_typedCall? {ev : Event} : ev.call? = ev.typedCall?.map (·.2) := by
  obtain ⟨actor, q, answer, installed⟩ := ev
  cases q <;> rfl

theorem Lawful.typed (lawful : Lawful e j) (known : ∀ row ∈ j.history x, e.definitionOf row = .ok d)
    (made : c ∈ j.calls x) : ∃ ev ∈ j, ev.typedCall? = some (d.sagaType, c) := by
  induction lawful with
  | start => cases made
  | @next j ev before permitted ih =>
    have known' (row : Execution) (old : row ∈ j.history x) : e.definitionOf row = .ok d :=
      known row ((history_suffix x (List.suffix_cons ev j)).subset old)
    rcases List.mem_append.1 made with old | new
    · obtain ⟨ev', inside, typed⟩ := ih known' old
      exact ⟨ev', List.mem_cons_of_mem _ inside, typed⟩
    · obtain ⟨is, about⟩ := List.mem_filter.1 new
      refine ⟨ev, List.mem_cons_self, ?_⟩
      have is := Option.mem_toList.1 is
      cases permitted with
      | quiet me q answer quiet =>
        cases q with
        | call => cases quiet
        | _ => cases is
      | called me y lease base d' call reply driven held read first unwritten isKnown asks =>
        cases is
        have inside := before.base_mem (Operation.target?_of_driven? driven) read
        have id := id_of_mem_history inside
        obtain rfl : y = x := id.symm.trans (asks.executionId.symm.trans (of_decide_eq_true about))
        obtain rfl : d' = d := Except.ok.inj (isKnown.symm.trans (known' base inside))
        rfl
      | _ => cases is

theorem Lawful.replied {steps : String → StepCall → StepReply} (lawful : Lawful e j)
    (known : ∀ row ∈ j.history x, e.definitionOf row = .ok d) (replies : j.Replies steps)
    (made : c ∈ j.calls x) : c.reply = steps d.sagaType c.call := by
  obtain ⟨ev, inside, typed⟩ := lawful.typed known made
  exact replies ev inside _ typed

/-! ## What a drive sleeps for -/

theorem Journal.sleeps_cons (me : Actor) {q : Request} (answer : Response q)
    (installed : List Execution) (j : Journal) (drives : q.isDrive = true) :
    Journal.sleeps me (⟨me, q, answer, installed⟩ :: j) = j.sleeps me ++ q.wait?.toList := by
  cases q with
  | requeue => cases drives
  | sleep delay => simp [sleeps, Event.slept?, Request.wait?]
  | _ => simp [sleeps, Event.slept?, Request.wait?]

theorem Journal.sleeps_of_stranger (stranger : ∀ ev ∈ j, ev.actor ≠ me) : j.sleeps me = [] := by
  have nothing : j.filterMap (·.slept? me) = [] := by
    apply List.filterMap_eq_nil_iff.2
    intro ev inside
    have other := stranger ev inside
    obtain ⟨actor, q, answer, installed⟩ := ev
    cases q with
    | sleep delay => exact if_neg other
    | _ => rfl
  rw [sleeps, nothing, List.reverse_nil]

theorem run_later {α : Type} (host : Host) (me : Actor) (p : Action α) (w : HostState) :
    w.journal <:+ (p.run (host.answer me) w).2.journal := by
  induction p generalizing w with
  | done | failed => exact List.suffix_refl _
  | ask q next ih => exact (List.suffix_cons _ w.journal).trans (ih _ (host.answer me q w).2)

/-- A program that keeps the pace sleeps for what the execution owes. -/
theorem Account.run {α : Type} {p : Action α} {post : Except Failure α → Noted (Option Int) → Prop}
    {w : HostState} {due : Option Int} (host : Host) (drives : p.Only (·.isDrive = true))
    (paced : Ensures (Pace.contract e d x) post p ⟨w.store.transactions, due⟩)
    (rows : w.store.committed = w.journal.rows)
    (account : Account d x w.journal (w.journal.sleeps me) due)
    (possible : ∀ k : Journal, k <:+ (p.run (host.answer me) w).2.journal →
      Pace.Possible e d x k.rows) :
    ∃ s, post (p.run (host.answer me) w).1 s ∧
      Account d x (p.run (host.answer me) w).2.journal
        ((p.run (host.answer me) w).2.journal.sleeps me) s.note := by
  induction p generalizing w due with
  | done value => exact ⟨_, paced, account⟩
  | failed failure => exact ⟨_, paced, account⟩
  | ask q next ih =>
    have serves := serve_serves w.store q (host w.journal q)
    have may : Pace.Possible e d x w.store.committed := by
      rw [rows]
      exact possible w.journal (run_later host me _ w)
    obtain ⟨due', rest, account'⟩ := account.step me paced may serves
    rw [← Journal.sleeps_cons me _ _ _ drives.1] at account'
    have committed := serves.committed
    rw [rows] at committed
    exact ih _ (w := (host.answer me q w).2) (drives.2 _) rest committed account' possible

/-! ## An execution that was run to its end -/

/-- Under exclusive leases and without cancel requests, an execution came to its end without the
loss of a call. -/
theorem Lawful.course {steps : String → StepCall → StepReply} (lawful : Lawful e j) (fits : d.Fits)
    (exclusive : j.Exclusive x) (uncancelled : ∀ ev ∈ j, ev.actor.operation ≠ .cancel x)
    (known : ∀ row ∈ j.history x, e.definitionOf row = .ok d) (replies : j.Replies steps)
    (classified : ∀ sagaType call code, (steps sagaType call).result.outcome ≠ .unclassified code)
    (finished : j.Finished x row) :
    ∃ first, (j.history x).getLast? = some first ∧
      Course d (steps d.sagaType) 0 ⟨[first], []⟩ (j.ledger x) := by
  have replied (c : CallMade) (made : c ∈ j.calls x) : c.reply = steps d.sagaType c.call :=
    lawful.replied known replies made
  have meant : j.Classified x := by
    rintro c made ⟨code, outcome⟩
    rw [replied c made] at outcome
    exact classified _ _ _ outcome
  obtain ⟨calls, booked⟩ := lawful.booked exclusive meant
  have made := booked.made_of_terminal lawful exclusive finished
  obtain ⟨older, history⟩ := history_eq_cons_of_record finished.record
  obtain ⟨d', known', lineage⟩ := booked.lineage history
  rw [← history] at known' lineage
  have inside := mem_history_of_record finished.record
  obtain rfl : d' = d := Except.ok.inj ((known' row inside).symm.trans (known row inside))
  rw [Journal.ledger, made]
  exact lineage.course fits (lawful.unasked uncancelled) (made ▸ replied)

theorem Lawful.untouched (lawful : Lawful e j) (accepted : j.history x = [row])
    (known : e.definitionOf row = .ok d) (foreign : ∀ ev ∈ j, ev.actor.operation.driven? ≠ some x) :
    j.ledger x = ⟨[row], []⟩ ∧ d.owed row = none := by
  have lawful' : Lawful e (j ++ []) := (List.append_nil j).symm ▸ lawful
  have uncalled := lawful'.calls_others foreign
  rw [List.append_nil] at uncalled
  have inside : row ∈ j.history x := by rw [accepted]; exact List.mem_singleton.2 rfl
  obtain ⟨calls, lineage⟩ := (lawful.ownedBy_of_known inside known).lineage
  rw [accepted] at lineage
  refine ⟨by rw [Journal.ledger, accepted, uncalled]; rfl, ?_⟩
  cases lineage
  exact SagaDefinition.owed_of_zero rfl

end

section

variable {e : Engine} {d : SagaDefinition} {x : String} {n : Nat} {σ : Workshop} {τ : Cluster}
  {row final : Execution} {host : Host} {steps : String → StepCall → StepReply}

theorem perform_paced (host : Host) (fits : e.Fits) (reachable : Reachable e τ)
    (accepted : τ.journal.history x = [row]) (known : e.definitionOf row = .ok d)
    (owed : d.owed row = none) :
    Account d x (τ.perform e host (.drive x)).journal
      ((τ.perform e host (.drive x)).journal.sleeps ⟨τ.tasks.length, .drive x⟩) none := by
  have consistent := reachable_consistent reachable fits
  obtain ⟨r, performed⟩ := perform_drive host fits reachable x
  have lawful := performed.lawful
  have small := fits.of_definitionOf known
  obtain ⟨own, split, -⟩ := performed.own
  have inside : row ∈ (τ.perform e host (.drive x)).journal.history x := by
    apply (history_suffix x ⟨own, split.symm⟩).subset
    rw [accepted]
    exact List.mem_singleton.2 rfl
  have knownAll := (lawful.ownedBy_of_known inside known).known
  have paced : Calm e d x ((Operation.drive x).program e) :=
    .bind (drive_paced small) fun _ => .done _ rfl
  have drives : ((Operation.drive x).program e).Only (·.isDrive = true) :=
    .bind (drive_only e x) fun _ => trivial
  have asleep : τ.journal.sleeps ⟨τ.tasks.length, .drive x⟩ = [] :=
    Journal.sleeps_of_stranger (consistent.fresh _)
  have start : Account d x τ.journal (τ.journal.sleeps ⟨τ.tasks.length, .drive x⟩) none := by
    refine ⟨?_, .inl rfl⟩
    rw [accepted, asleep, List.reverse_singleton, List.filterMap_cons, owed]
    rfl
  obtain ⟨s, calm, account⟩ := start.run (w := ⟨⟨τ.rows, {}⟩, τ.journal⟩) host drives (paced {})
    consistent.rows fun k earlier => Pace.possible (lawful.suffix earlier) fits
      fun row old => knownAll row ((history_suffix x earlier).subset old)
  rw [calm, Option.bind_fun_none] at account
  exact account

theorem owed_undated (rows : List Execution) :
    (rows.map (·.undated)).reverse.filterMap d.owed = rows.reverse.filterMap d.owed := by
  rw [← List.map_reverse, List.filterMap_map]
  rfl

/-- Whoever moves an execution on that nobody cancels, and whenever, it is the same as if one drive
had done it alone: the same calls in the same order, the same rows but for the times on them, and
if only workers did it, the delays of which the queue was told are those for which the drive
sleeps. -/
theorem schedule_agrees_with_drive (fits : e.Fits) (patient : 0x10000000000000000 ≤ e.patience)
    (classified : ∀ sagaType call code, (steps sagaType call).result.outcome ≠ .unclassified code)
    (run : Workshop.Run e n σ) (replies : σ.cluster.journal.Replies steps)
    (uncancelled : ∀ task ∈ σ.cluster.tasks, task.actor.operation ≠ .cancel x)
    (apart : σ.Apart x) (stored : σ.cluster.rows.get? x = some final)
    (terminal : final.status.isTerminal = true)
    (reachable : Reachable e τ) (accepted : τ.journal.history x = [row])
    (untouched : ∀ task ∈ τ.tasks, task.actor.operation.target? ≠ some x)
    (alike : (σ.cluster.journal.history x).getLast?.map (·.undated) = some row.undated)
    (recovers : Recovers host (.drive x) x steps) :
    let τ' := τ.perform e host (.drive x)
    σ.cluster.journal.calls x = τ'.journal.calls x ∧
      (σ.cluster.journal.history x).map (·.undated) = (τ'.journal.history x).map (·.undated) ∧
      ((∀ task ∈ σ.cluster.tasks, task.actor.operation.driven? = some x →
          task.actor.number ∈ σ.staff) →
        requeues x σ.log = τ'.journal.sleeps ⟨τ.tasks.length, .drive x⟩) := by
  intro τ'
  -- The schedule comes to its end on one course from the first row on.
  have sound := run.sound fits
  have lawful := sound.consistent.lawful
  rw [sound.consistent.rows] at stored
  have finished : σ.cluster.journal.Finished x final := ⟨stored, terminal⟩
  have inside := mem_history_of_record stored
  obtain ⟨d, owned⟩ := lawful.ownedBy x (List.ne_nil_of_mem inside)
  have small := fits.of_definitionOf (owned.known final inside)
  have others (ev : Event) (old : ev ∈ σ.cluster.journal) : ev.actor.operation ≠ .cancel x := by
    obtain ⟨task, member, same⟩ := sound.consistent.known ev old
    exact same ▸ uncancelled task member
  obtain ⟨first, last, course⟩ := lawful.course small (run.exclusive fits apart) others owned.known
    replies classified finished
  -- So does the drive, from a first row that differs in times only.
  have same : first.undated = row.undated := by
    rw [last] at alike
    exact Option.some.inj alike
  have known : e.definitionOf row = .ok d := by
    show e.definitionOf row.undated = .ok d
    rw [← same]
    exact owned.known first (List.mem_of_getLast? last)
  have consistent := reachable_consistent reachable fits
  have foreign (ev : Event) (old : ev ∈ τ.journal) : ev.actor.operation.driven? ≠ some x := by
    obtain ⟨task, member, isActor⟩ := consistent.known ev old
    intro driven
    exact untouched task member (Operation.target?_of_driven? (isActor ▸ driven))
  obtain ⟨ledger, owed⟩ := consistent.lawful.untouched accepted known foreign
  have present : row ∈ τ.journal.history x := by rw [accepted]; exact List.mem_singleton.2 rfl
  obtain ⟨-, final', finished', course'⟩ :=
    perform_course fits patient reachable present known classified recovers
  rw [ledger] at course'
  obtain ⟨calls, rows⟩ := course.same course' same finished.ended finished'.ended
  refine ⟨calls, rows, fun driven => ?_⟩
  -- What was waited for can be read off the rows.
  obtain ⟨due, paced⟩ := run.paced fits small ⟨owned.known, driven, uncancelled⟩
  have settled : due = none := by
    refine paced.account.settled fun row isHead => ?_
    rw [← record_eq_head?, finished.record] at isHead
    cases isHead
    exact terminal
  subst settled
  have rows : (σ.cluster.journal.history x).map (·.undated) =
      (τ'.journal.history x).map (·.undated) := rows
  have waited := paced.account.owed
  have slept := (perform_paced host fits reachable accepted known owed).owed
  rw [Option.toList_none, List.append_nil] at waited slept
  rw [← waited, ← slept, ← owed_undated, rows, owed_undated]

/-! ## A small workshop -/

namespace Workshop

/-- The workshop after a worker did what it has to do while nobody else did anything. -/
def finish (host : Host) (now : Int) (w : Nat) (x : String) : Action Unit → Workshop → Workshop
  | Program.ask q next, σ =>
    match σ.cluster.tasks[σ.desk w]? with
    | some task =>
      let served := serve ⟨σ.cluster.rows, task.opened⟩ q (host σ.cluster.journal q)
      finish host now w x (next served.1)
        { σ with
          cluster := σ.cluster.answered (σ.desk w) task q served.1 served.2
            (Worker.shift (next served.1))
          pool := ⟨σ.pool.queue.serve now q,
            σ.pool.workers.set w (Handling.further x (next served.1))⟩
          log := .answer w q :: σ.log }
    | none => σ
  | _, σ => σ

/-- The workshop after an idle worker took an execution from the queue and did what it had to. -/
def shift (e : Engine) (host : Host) (now : Int) (w : Nat) (x : String) (σ : Workshop) : Workshop :=
  finish host now w x (Worker.process e x)
    { cluster := σ.cluster.enlist (.drive x) (Worker.shift (Worker.process e x))
      pool := σ.pool.take e w now
      desk := fun k => if k = w then σ.cluster.tasks.length else σ.desk k
      staff := σ.cluster.tasks.length :: σ.staff
      log := .dequeue w (σ.pool.queue.dequeue now).1 :: σ.log }

theorem Run.finish (run : Run e n σ) (fits : e.Fits) (host : Host) (now : Int) {w : Nat}
    {p : Action Unit} (busy : σ.pool.workers[w]? = some (some ⟨x, p⟩)) :
    Run e n (σ.finish host now w x p) := by
  induction p generalizing σ with
  | done | failed => exact run
  | ask q next ih =>
    obtain ⟨-, opened, running⟩ := (run.sound fits).manned w x _ busy
    have inside := (List.getElem?_eq_some_iff.1 busy).1
    have hands : HandsOver x (Program.ask q next) := run.pool.sound.hands w _ busy
    have serves := serve_serves ⟨σ.cluster.rows, opened⟩ q (host σ.cluster.journal q)
    rw [Workshop.finish, running]
    have worked := run.step (.work w now x _ opened q next _ _ busy running serves)
    rcases hands.next (serve ⟨σ.cluster.rows, opened⟩ q (host σ.cluster.journal q)).1 with
      goesOn | ⟨ended, -⟩
    · exact ih _ worked ((List.getElem?_set_self inside).trans (congrArg some goesOn))
    · show Run e n (Workshop.finish host now w x (next _) _)
      rw [congrArg (Workshop.finish host now w x) ended]
      exact worked

theorem Run.shift (run : Run e n σ) (fits : e.Fits) (host : Host) {now : Int} {w : Nat}
    (free : σ.pool.workers[w]? = some none) (told : (σ.pool.queue.dequeue now).1 = .item x) :
    Run e n (σ.shift e host now w x) := by
  have taken := run.step (.take w now x free told)
  refine taken.finish fits host now ?_
  show (σ.pool.take e w now).workers[w]? = _
  rw [Pool.take_item told, List.getElem?_set_self (List.getElem?_eq_some_iff.1 free).1]

theorem run_of_reachable (reachable : Reachable e τ) (n : Nat) :
    Run e n { cluster := τ, pool := .idle n } := by
  induction reachable with
  | initial => exact .start
  | next before step ih =>
    cases step with
    | begin operation => exact ih.step (.begin operation)
    | answer i me opened q next answer s' running serves =>
      exact ih.step (.answer i me opened q next answer s' running List.not_mem_nil serves)

end Workshop

namespace Sample

/-- Two idle workers and an execution that waits for one of them. -/
def queued : Workshop where
  cluster := Sample.run busy [.start "order" Dictionary.empty]
  pool := { Pool.idle 2 with queue := (DispatchQueue.enqueue {} "x").2 }
  log := [.enqueue "x"]

/-- The first worker made the first attempt. -/
def tried : Workshop := queued.shift engine (Sample.host busy) 0 0 "x"

/-- The other worker did the rest when the delay was over. -/
def worked : Workshop :=
  tried.shift engine (Sample.host busy) ((tried.pool.queue.delayed.map (·.due)).headD 0) 1 "x"

theorem worked_run : Workshop.Run engine 2 worked := by
  have accepted := Workshop.run_of_reachable
    (Sample.run_reachable busy [.start "order" Dictionary.empty]) 2
  have first : Workshop.Run engine 2 tried :=
    (accepted.step (.enqueue "x")).shift engine_fits _ rfl rfl
  have ids : tried.pool.queue.delayed.map (·.executionId) = ["x"] := by decide +kernel
  obtain ⟨d, delayed, same⟩ := List.map_eq_singleton_iff.1 ids
  have idle : tried.pool.workers[1]?.map (·.isNone) = some true := by decide +kernel
  obtain ⟨h, free, none⟩ := Option.map_eq_some_iff.1 idle
  obtain rfl := Option.isNone_iff_eq_none.1 none
  refine first.shift engine_fits _ free ?_
  rw [delayed, ← same]
  exact DispatchQueue.dequeue_due (by decide +kernel) (by decide +kernel) delayed (Int.le_refl _)

end Sample

/-- Two workers make the three calls of a drive, and the queue waits once. -/
theorem schedule_agrees_with_drive_busy :
    let τ := (Sample.run Sample.busy [.start "order" Dictionary.empty]).perform Sample.engine
      (Sample.host Sample.busy) (.drive "x")
    Workshop.Run Sample.engine 2 Sample.worked ∧
      (Sample.worked.cluster.journal.calls "x").length = 3 ∧
      (requeues "x" Sample.worked.log).length = 1 ∧
      Sample.worked.cluster.journal.calls "x" = τ.journal.calls "x" ∧
      (Sample.worked.cluster.journal.history "x").map (·.undated) =
        (τ.journal.history "x").map (·.undated) ∧
      requeues "x" Sample.worked.log = τ.journal.sleeps ⟨1, .drive "x"⟩ := by
  intro τ
  have run := Sample.worked_run
  have driven : ∀ task ∈ Sample.worked.cluster.tasks,
      task.actor.operation.driven? = some "x" → task.actor.number ∈ Sample.worked.staff := by
    decide +kernel
  have accepted : (Sample.run Sample.busy [.start "order" Dictionary.empty]).journal.history "x" =
      [Engine.newRow "x" Sample.definition "order" Dictionary.empty 0] := by decide +kernel
  have ended : (Sample.worked.cluster.rows.get? "x").map (·.status) = some .compensated := by
    decide +kernel
  obtain ⟨final, stored, status⟩ := Option.map_eq_some_iff.1 ended
  have classified (sagaType : String) (call : StepCall) (code : Nat) :
      (Sample.busy [] call).result.outcome ≠ .unclassified code := by
    rw [Sample.busy]
    cases call.phase <;> simp [StepReply.result, StepResult.retryable, StepResult.ok]
  have recovers : Recovers (Sample.host Sample.busy) (.drive "x") "x" fun _ call =>
      Sample.busy [] call :=
    ⟨.inl rfl, fun _ _ _ => rfl, fun _ => Option.some_ne_none _⟩
  have replies : Sample.worked.cluster.journal.Replies fun _ call => Sample.busy [] call := by
    unfold Journal.Replies
    decide +kernel
  have apart : Sample.worked.Apart "x" :=
    (run.sound Sample.engine_fits).apart_of_turns fun task inside task' inside' drives drives' _ =>
      .inl ⟨driven task inside drives, driven task' inside' drives'⟩
  obtain ⟨calls, rows, delays⟩ := schedule_agrees_with_drive Sample.engine_fits (by decide +kernel)
    classified run replies (by decide +kernel) apart stored (by rw [status]; rfl)
    (Sample.run_reachable Sample.busy [.start "order" Dictionary.empty]) accepted
    (by decide +kernel) (by decide +kernel) recovers
  exact ⟨run, by decide +kernel, by decide +kernel, calls, rows, delays driven⟩

end

end SagaEngine
