import Mathlib.Logic.Relation
import SagaEngine.Proofs.Operations
/-!
# Any number of operations at once

A cluster is the committed rows, the journal and the operations that were begun, each
with the transactions that it opened and what is left of its program. In one step an
operation is begun, or one running operation has its next request answered: by the
store in memory, which answers each request as a whole, or, for everything else, in
any way. An operation that runs inside a step call is one that is begun and answered
while the call waits for its reply; one that is never answered again has crashed.
Main statements: `reachable_consistent` and, for operations that run alone,
`perform_reachable`.
-/

namespace SagaEngine

structure Running where
  actor : Actor
  opened : Numbered PendingWrites := {}
  rest : Action Operation.Result

/-- The committed rows, what happened so far and the operations that were begun. -/
structure Cluster where
  rows : Dictionary Execution := Dictionary.empty
  journal : Journal := []
  tasks : List Running := []

/-- One step of a cluster. -/
inductive Step (e : Engine) (σ : Cluster) : Cluster → Prop
  | begin (operation : Operation) :
      Step e σ { σ with tasks := σ.tasks ++
        [{ actor := ⟨σ.tasks.length, operation⟩, rest := operation.program e }] }
  | answer (i : Nat) (me : Actor) (opened : Numbered PendingWrites) (q : Request)
      (next : Response q → Action Operation.Result) (answer : Response q) (s' : MemoryStore)
      (running : σ.tasks[i]? = some ⟨me, opened, Program.ask q next⟩)
      (serves : Serves ⟨σ.rows, opened⟩ q answer s') :
      Step e σ
        { rows := s'.committed
          journal := ⟨me, q, answer, installs ⟨σ.rows, opened⟩ q answer⟩ :: σ.journal
          tasks := σ.tasks.set i ⟨me, s'.transactions, next answer⟩ }

/-- The clusters that come about from an empty store. -/
inductive Reachable (e : Engine) : Cluster → Prop
  | initial : Reachable e {}
  | next {σ σ' : Cluster} (before : Reachable e σ) (step : Step e σ σ') : Reachable e σ'

/-- One cluster comes about from another one. -/
abbrev Leads (e : Engine) : Cluster → Cluster → Prop := Relation.ReflTransGen (Step e)

/-- What holds of every reachable cluster. -/
structure Consistent (e : Engine) (σ : Cluster) : Prop where
  lawful : Lawful e σ.journal
  rows : σ.rows = σ.journal.rows
  numbered : ∀ (i : Nat) (task : Running), σ.tasks[i]? = some task → task.actor.number = i
  known : ∀ ev ∈ σ.journal, ∃ task ∈ σ.tasks, task.actor = ev.actor
  ensures : ∀ task ∈ σ.tasks, Ensures (contract e task.actor)
    (fun r v => Finishes task.actor r (v.journal.attempt task.actor)) task.rest
    ⟨σ.journal, task.opened⟩

section

variable {e : Engine} {σ σ' : Cluster}

theorem initial_consistent (e : Engine) : Consistent e {} where
  lawful := .start
  rows := rfl
  numbered := by simp
  known := by simp
  ensures := by simp

theorem attempt_of_stranger {j : Journal} {me : Actor}
    (stranger : ∀ ev ∈ j, ev.actor.number ≠ me.number) : j.attempt me = {} := by
  have foreign (ev : Event) (inside : ev ∈ j) : ev.actor ≠ me :=
    fun same => stranger ev inside (congrArg Actor.number same)
  have nothing := attempt_others (j := []) foreign
  rw [List.append_nil] at nothing
  exact nothing

theorem Consistent.number_lt (consistent : Consistent e σ) {ev : Event} (inside : ev ∈ σ.journal) :
    ev.actor.number < σ.tasks.length := by
  obtain ⟨task, member, same⟩ := consistent.known ev inside
  obtain ⟨i, found⟩ := List.mem_iff_getElem?.1 member
  have number := consistent.numbered i task found
  have inRange := (List.getElem?_eq_some_iff.1 found).1
  rw [← same, number]
  exact inRange

/-- Nothing has happened yet under the number of the next task. -/
theorem Consistent.unused (consistent : Consistent e σ) (operation : Operation) :
    σ.journal.attempt ⟨σ.tasks.length, operation⟩ = {} :=
  attempt_of_stranger fun _ inside => Nat.ne_of_lt (consistent.number_lt inside)

theorem Consistent.free (consistent : Consistent e σ) (operation : Operation) :
    (σ.journal.attempt ⟨σ.tasks.length, operation⟩).Free := by
  rw [consistent.unused operation]
  exact ⟨rfl, fun leased => nomatch leased⟩

/-- One more task, whatever program it is about to run. -/
theorem enlist_consistent (consistent : Consistent e σ) (operation : Operation)
    {rest : Action Operation.Result}
    (ensures : Ensures (contract e ⟨σ.tasks.length, operation⟩)
      (fun r v => Finishes ⟨σ.tasks.length, operation⟩ r
        (v.journal.attempt ⟨σ.tasks.length, operation⟩)) rest ⟨σ.journal, {}⟩) :
    Consistent e
      { σ with tasks := σ.tasks ++ [{ actor := ⟨σ.tasks.length, operation⟩, rest }] } where
  lawful := consistent.lawful
  rows := consistent.rows
  numbered := by
    intro i task found
    by_cases old : i < σ.tasks.length
    · rw [List.getElem?_append_left old] at found
      exact consistent.numbered i task found
    · rw [List.getElem?_append_right (by omega)] at found
      obtain ⟨new, value⟩ := List.getElem?_eq_some_iff.1 found
      simp only [List.length_singleton] at new
      simp only [List.getElem_singleton] at value
      subst value
      show σ.tasks.length = i
      omega
  known := by
    intro ev inside
    obtain ⟨task, member, same⟩ := consistent.known ev inside
    exact ⟨task, List.mem_append_left _ member, same⟩
  ensures := by
    intro task inside
    rcases List.mem_append.1 inside with old | new
    · exact consistent.ensures task old
    · cases List.mem_singleton.1 new
      exact ensures

theorem begin_consistent (consistent : Consistent e σ) (fits : e.Fits) (operation : Operation) :
    Consistent e { σ with tasks := σ.tasks ++
      [{ actor := ⟨σ.tasks.length, operation⟩, rest := operation.program e }] } := by
  exact enlist_consistent consistent operation
    (program_ensures fits consistent.lawful (consistent.unused operation))

/-- What the tasks ensure they still ensure after one of them had a request answered: it moves on
by its contract, and for the others this is what others do. -/
theorem answer_ensures (post : Actor → Except Failure Operation.Result → View → Prop)
    (stable : ∀ me r v v', (contract e me).drifts v v' → post me r v → post me r v')
    (lawful : Lawful e σ.journal) (rows : σ.rows = σ.journal.rows)
    (numbered : ∀ (i : Nat) (task : Running), σ.tasks[i]? = some task → task.actor.number = i)
    (ensures : ∀ task ∈ σ.tasks, Ensures (contract e task.actor) (post task.actor) task.rest
      ⟨σ.journal, task.opened⟩)
    {i : Nat} {me : Actor} {opened : Numbered PendingWrites} {q : Request}
    {next : Response q → Action Operation.Result} {answer : Response q} {s' : MemoryStore}
    (running : σ.tasks[i]? = some ⟨me, opened, Program.ask q next⟩)
    (serves : Serves ⟨σ.rows, opened⟩ q answer s') :
    Permitted e σ.journal ⟨me, q, answer, installs ⟨σ.rows, opened⟩ q answer⟩ ∧
      ∀ task ∈ σ.tasks.set i ⟨me, s'.transactions, next answer⟩,
        Ensures (contract e task.actor) (post task.actor) task.rest
          ⟨⟨me, q, answer, installs ⟨σ.rows, opened⟩ q answer⟩ :: σ.journal, task.opened⟩ := by
  have number : me.number = i := numbered i _ running
  obtain ⟨inRange, -⟩ := List.getElem?_eq_some_iff.1 running
  have still : (contract e me).drifts ⟨σ.journal, opened⟩ ⟨σ.journal, opened⟩ :=
    ⟨lawful, rfl, [], by simp, rfl⟩
  have served := serves
  rw [rows] at served
  obtain ⟨permitted, rest⟩ := ensures _ (List.mem_of_getElem? running) _ still answer
    ⟨_, s'.transactions⟩ ⟨s', served, rfl, rfl⟩
  have lawful' := lawful.next permitted
  rw [rows]
  refine ⟨permitted, ?_⟩
  intro task inside
  obtain ⟨k, found⟩ := List.mem_iff_getElem?.1 inside
  by_cases same : k = i
  · subst same
    rw [List.getElem?_set_self inRange] at found
    cases found
    exact rest
  · rw [List.getElem?_set_ne (Ne.symm same)] at found
    have other : me ≠ task.actor := by
      intro equal
      have numbered := numbered k task found
      rw [← equal, number] at numbered
      exact same numbered.symm
    have drift : (contract e task.actor).drifts ⟨σ.journal, task.opened⟩
        ⟨⟨me, q, answer, installs ⟨σ.journal.rows, opened⟩ q answer⟩ :: σ.journal, task.opened⟩ := by
      refine ⟨lawful', rfl, [_], ?_, rfl⟩
      intro ev only
      cases List.mem_singleton.1 only
      exact other
    exact (ensures task (List.mem_of_getElem? found)).drift drift fun r => stable _ r _ _ drift

theorem finishes_stable {me : Actor} (r : Except Failure Operation.Result) (v v' : View)
    (drift : (contract e me).drifts v v') (finishes : Finishes me r (v.journal.attempt me)) :
    Finishes me r (v'.journal.attempt me) := by
  rw [(idles_of_drift drift).attempt]
  exact finishes

theorem answer_consistent (consistent : Consistent e σ) {i : Nat} {me : Actor}
    {opened : Numbered PendingWrites} {q : Request} {next : Response q → Action Operation.Result}
    {answer : Response q} {s' : MemoryStore}
    (running : σ.tasks[i]? = some ⟨me, opened, Program.ask q next⟩)
    (serves : Serves ⟨σ.rows, opened⟩ q answer s') :
    Consistent e
      { rows := s'.committed
        journal := ⟨me, q, answer, installs ⟨σ.rows, opened⟩ q answer⟩ :: σ.journal
        tasks := σ.tasks.set i ⟨me, s'.transactions, next answer⟩ } := by
  have number : me.number = i := consistent.numbered i _ running
  obtain ⟨inRange, value⟩ := List.getElem?_eq_some_iff.1 running
  obtain ⟨permitted, ensures⟩ := answer_ensures
    (fun me r v => Finishes me r (v.journal.attempt me)) (fun me => finishes_stable)
    consistent.lawful consistent.rows consistent.numbered consistent.ensures running serves
  refine ⟨consistent.lawful.next permitted, ?_, ?_, ?_, ensures⟩
  · have committed := serves.committed
    rw [consistent.rows] at committed ⊢
    exact committed
  · intro k task found
    by_cases same : k = i
    · subst same
      rw [List.getElem?_set_self inRange] at found
      cases found
      exact number
    · rw [List.getElem?_set_ne (Ne.symm same)] at found
      exact consistent.numbered k task found
  · intro ev inside
    have still (task : Running) (found : task ∈ σ.tasks) :
        ∃ task' ∈ σ.tasks.set i ⟨me, s'.transactions, next answer⟩, task'.actor = task.actor := by
      obtain ⟨k, found⟩ := List.mem_iff_getElem?.1 found
      by_cases same : k = i
      · subst same
        rw [running] at found
        cases found
        exact ⟨_, List.mem_set inRange _, rfl⟩
      · rw [← List.getElem?_set_ne (Ne.symm same)] at found
        exact ⟨task, List.mem_of_getElem? found, rfl⟩
    rcases List.mem_cons.1 inside with rfl | old
    · exact still _ (List.mem_of_getElem? running)
    · obtain ⟨task, found, same⟩ := consistent.known ev old
      obtain ⟨task', found', same'⟩ := still task found
      exact ⟨task', found', same'.trans same⟩

theorem step_consistent (consistent : Consistent e σ) (fits : e.Fits) (step : Step e σ σ') :
    Consistent e σ' := by
  cases step with
  | begin operation => exact begin_consistent consistent fits operation
  | answer i me opened q next answer s' running serves =>
    exact answer_consistent consistent running serves

theorem reachable_consistent (reachable : Reachable e σ) (fits : e.Fits) : Consistent e σ := by
  induction reachable with
  | initial => exact initial_consistent e
  | next before step ih => exact step_consistent ih fits step

/-- What every fresh operation ensures every task of a reachable cluster still ensures. -/
theorem Reachable.ensures {post : Actor → Except Failure Operation.Result → View → Prop}
    (reachable : Reachable e σ) (fits : e.Fits)
    (fresh : ∀ me v, Lawful e v.journal → v.journal.attempt me = {} →
      Ensures (contract e me) (post me) (me.operation.program e) v)
    (stable : ∀ me r v v', (contract e me).drifts v v' → post me r v → post me r v') :
    ∀ task ∈ σ.tasks, Ensures (contract e task.actor) (post task.actor) task.rest
      ⟨σ.journal, task.opened⟩ := by
  induction reachable with
  | initial => simp
  | next before step ih =>
    have consistent := reachable_consistent before fits
    cases step with
    | begin operation =>
      intro task inside
      rcases List.mem_append.1 inside with old | new
      · exact ih task old
      · cases List.mem_singleton.1 new
        exact fresh _ _ consistent.lawful (consistent.unused operation)
    | answer i me opened q next answer s' running serves =>
      exact (answer_ensures post stable consistent.lawful consistent.rows consistent.numbered ih
        running serves).2

theorem Reachable.leads (reachable : Reachable e σ) (leads : Leads e σ σ') : Reachable e σ' := by
  induction leads with
  | refl => exact reachable
  | tail _ step ih => exact ih.next step

theorem Leads.journal (leads : Leads e σ σ') : σ.journal <:+ σ'.journal := by
  induction leads with
  | refl => exact List.suffix_refl _
  | tail _ step ih =>
    cases step with
    | begin operation => exact ih
    | answer => exact ih.trans (List.suffix_cons _ _)

/-! ## One operation after another -/

/-- How everything but the store answers, given what happened so far. -/
abbrev Host := Journal → (q : Request) → Response q

/-- The store and what happened so far, as an operation that runs alone meets them. -/
structure HostState where
  store : MemoryStore
  journal : Journal

/-- The answer of the store in memory to a request, or else the given one. -/
def serve (s : MemoryStore) : (q : Request) → Response q → Response q × MemoryStore
  | .begin, _ => (.ok s.begin.1, s.begin.2)
  | .insert tx row, _ => (.ok (s.insert tx row).1, (s.insert tx row).2)
  | .find tx x, _ => (.ok (s.find? tx x), s)
  | .update tx row expected, _ => (.ok (s.update tx row expected).1, (s.update tx row expected).2)
  | .listByStatus tx status limit, _ => (.ok (s.listByStatus tx status limit), s)
  | .listStale tx query, _ => (.ok (s.listStale tx query), s)
  | .commit tx, _ => s.commit tx
  | .drop tx, answer => (answer, s.drop tx)
  | _, answer => (answer, s)

theorem serve_serves (s : MemoryStore) (q : Request) (given : Response q) :
    Serves s q (serve s q given).1 (serve s q given).2 := by
  cases q <;> first | exact ⟨rfl, rfl⟩ | rfl

def Host.answer (host : Host) (me : Actor) (q : Request) (w : HostState) : Response q × HostState :=
  let (answer, store) := serve w.store q (host w.journal q)
  (answer, ⟨store, ⟨me, q, answer, installs w.store q answer⟩ :: w.journal⟩)

/-- The cluster after one more operation, which runs to its end while nobody else does
anything. -/
def Cluster.perform (e : Engine) (host : Host) (σ : Cluster) (operation : Operation) : Cluster :=
  let me : Actor := ⟨σ.tasks.length, operation⟩
  let (result, w) := (operation.program e).run (host.answer me) ⟨⟨σ.rows, {}⟩, σ.journal⟩
  { rows := w.store.committed
    journal := w.journal
    tasks := σ.tasks ++ [⟨me, w.store.transactions, Program.ofExcept result⟩] }

theorem set_of_getElem? {α : Type} {items : List α} {i : Nat} {item : α}
    (found : items[i]? = some item) : items.set i item = items := by
  obtain ⟨inRange, same⟩ := List.getElem?_eq_some_iff.1 found
  rw [← same, List.set_getElem_self]

theorem run_leads {σ₀ : Cluster} (host : Host) (p : Action Operation.Result)
    (leads : Leads e σ₀ σ) {i : Nat} {me : Actor} {opened : Numbered PendingWrites}
    (running : σ.tasks[i]? = some ⟨me, opened, p⟩) :
    let (result, w) := p.run (host.answer me) ⟨⟨σ.rows, opened⟩, σ.journal⟩
    Leads e σ₀
      { rows := w.store.committed
        journal := w.journal
        tasks := σ.tasks.set i ⟨me, w.store.transactions, Program.ofExcept result⟩ } := by
  induction p generalizing σ opened with
  | done value =>
    show Leads e σ₀ { σ with tasks := σ.tasks.set i ⟨me, opened, .done value⟩ }
    rw [set_of_getElem? running]
    exact leads
  | failed failure =>
    show Leads e σ₀ { σ with tasks := σ.tasks.set i ⟨me, opened, .failed failure⟩ }
    rw [set_of_getElem? running]
    exact leads
  | ask q next ih =>
    have serves := serve_serves ⟨σ.rows, opened⟩ q (host σ.journal q)
    have stepped := leads.tail (Step.answer i me opened q next _ _ running serves)
    obtain ⟨inRange, -⟩ := List.getElem?_eq_some_iff.1 running
    have rest := ih _ stepped (List.getElem?_set_self inRange)
    simp only [List.set_set] at rest
    exact rest

/-- Performing an operation alone is one way in which a cluster goes on. -/
theorem perform_leads (host : Host) (operation : Operation) :
    Leads e σ (σ.perform e host operation) := by
  have begun : Leads e σ _ := .single (.begin operation)
  have last : (σ.tasks ++ [{ actor := ⟨σ.tasks.length, operation⟩, rest := operation.program e }] :
      List Running)[σ.tasks.length]? =
      some ⟨⟨σ.tasks.length, operation⟩, {}, operation.program e⟩ := by simp
  have ran := run_leads host (operation.program e) begun last
  simpa [Cluster.perform] using ran

theorem perform_reachable (host : Host) (reachable : Reachable e σ) (operation : Operation) :
    Reachable e (σ.perform e host operation) := reachable.leads (perform_leads host operation)

theorem performs_reachable (host : Host) (operations : List Operation) :
    Reachable e (operations.foldl (Cluster.perform e host) {}) := by
  have lower (σ : Cluster) (reachable : Reachable e σ) :
      Reachable e (operations.foldl (Cluster.perform e host) σ) := by
    induction operations generalizing σ with
    | nil => exact reachable
    | cons operation operations ih => exact ih _ (perform_reachable host reachable operation)
  exact lower {} .initial

/-- The cluster after a task ran on to its end while nobody else did anything. -/
def Cluster.finish (host : Host) (σ : Cluster) (i : Nat) : Cluster :=
  match σ.tasks[i]? with
  | some ⟨me, opened, rest⟩ =>
    let (result, w) := rest.run (host.answer me) ⟨⟨σ.rows, opened⟩, σ.journal⟩
    { rows := w.store.committed
      journal := w.journal
      tasks := σ.tasks.set i ⟨me, w.store.transactions, Program.ofExcept result⟩ }
  | none => σ

/-- Finishing a task alone is one way in which a cluster goes on. -/
theorem finish_leads (host : Host) (i : Nat) : Leads e σ (σ.finish host i) := by
  rw [Cluster.finish]
  split
  · rename_i me opened rest running
    exact run_leads host rest .refl running
  · exact .refl

/-- The cluster after the next request of a running operation was answered. -/
def Cluster.answer (host : Host) (σ : Cluster) (i : Nat) : Cluster :=
  match σ.tasks[i]? with
  | some ⟨me, opened, Program.ask q next⟩ =>
    let (answer, w) := host.answer me q ⟨⟨σ.rows, opened⟩, σ.journal⟩
    { rows := w.store.committed
      journal := w.journal
      tasks := σ.tasks.set i ⟨me, w.store.transactions, next answer⟩ }
  | _ => σ

theorem answer_step (host : Host) {i : Nat} {me : Actor} {opened : Numbered PendingWrites}
    {q : Request} {next : Response q → Action Operation.Result}
    (running : σ.tasks[i]? = some ⟨me, opened, Program.ask q next⟩) :
    Step e σ (σ.answer host i) := by
  have serves := serve_serves ⟨σ.rows, opened⟩ q (host σ.journal q)
  rw [Cluster.answer, running]
  exact Step.answer i me opened q next _ _ running serves

theorem answer_leads (host : Host) (i : Nat) : Leads e σ (σ.answer host i) := by
  by_cases running : ∃ me opened q next, σ.tasks[i]? = some ⟨me, opened, Program.ask q next⟩
  · obtain ⟨me, opened, q, next, running⟩ := running
    exact .single (answer_step host running)
  · rw [Cluster.answer]
    split
    · rename_i me opened q next found
      exact absurd ⟨me, opened, q, next, found⟩ running
    · exact .refl

theorem answer_journal (host : Host) (σ : Cluster) (i : Nat) :
    σ.journal <:+ (σ.answer host i).journal := by
  rw [Cluster.answer]
  split
  · exact List.suffix_cons _ _
  · exact List.suffix_refl _

def Cluster.answers (host : Host) (i : Nat) : Nat → Cluster → Cluster
  | 0, σ => σ
  | n + 1, σ => answers host i n (σ.answer host i)

theorem answers_leads (host : Host) (i n : Nat) : Leads e σ (σ.answers host i n) := by
  induction n generalizing σ with
  | zero => exact .refl
  | succ n ih => exact (answer_leads host i).trans ih

theorem answers_journal (host : Host) (i n : Nat) (σ : Cluster) :
    σ.journal <:+ (σ.answers host i n).journal := by
  induction n generalizing σ with
  | zero => exact List.suffix_refl _
  | succ n ih => exact (answer_journal host σ i).trans (ih _)

def Cluster.begin (e : Engine) (σ : Cluster) (operation : Operation) : Cluster :=
  { σ with tasks := σ.tasks ++
      [{ actor := ⟨σ.tasks.length, operation⟩, rest := operation.program e }] }

theorem begin_leads (operation : Operation) : Leads e σ (σ.begin e operation) :=
  .single (.begin operation)

def Running.result? (task : Running) : Option (Except Failure Operation.Result) :=
  match task.rest with
  | Program.done value => some (.ok value)
  | Program.failed failure => some (.error failure)
  | Program.ask .. => none

theorem Running.rest_of_result? {task : Running} {value : Operation.Result}
    (ended : task.result? = some (.ok value)) : task.rest = .done value := by
  obtain ⟨actor, opened, rest⟩ := task
  cases rest with
  | done value' =>
    cases ended
    rfl
  | failed failure => cases ended
  | ask q next => cases ended

theorem Running.ends {task : Running} {r : Except Failure Operation.Result}
    {c : Contract Request Response View} {post : Except Failure Operation.Result → View → Prop}
    {v : View} (ended : task.result? = some r) (ensures : Ensures c post task.rest v) : post r v := by
  obtain ⟨actor, opened, rest⟩ := task
  cases rest with
  | done value =>
    cases ended
    exact ensures
  | failed failure =>
    cases ended
    exact ensures
  | ask q next => cases ended

/-- A task that has not ended can have its next request answered. -/
theorem Running.step {task : Running} (host : Host) {i : Nat} (found : σ.tasks[i]? = some task)
    (running : task.result? = none) : Step e σ (σ.answer host i) := by
  obtain ⟨actor, opened, rest⟩ := task
  cases rest with
  | done | failed => cases running
  | ask q next => exact answer_step host found

/-! ## A small engine -/

namespace Sample

/-- A definition with one step and two attempts. -/
def definition : SagaDefinition where
  sagaType := "order"
  steps := ["reserve"]
  retry := { maxAttempts := 2 }
  steps_ne_nil := List.cons_ne_nil _ _
  attempts_pos := by decide

def engine : Engine where
  registry := { definitions := Dictionary.empty.insert "order" definition, frozen := true }
  patience := Engine.defaultPatience
  frozen := rfl

theorem engine_fits : engine.Fits := .of_single ⟨by decide, by decide⟩ rfl

/-- A host with a clock that stands still. It calls the next execution "x", grants every lease and
lets the steps reply as told. -/
def host (reply : Journal → StepCall → StepReply) : Host := fun j q =>
  match q with
  | .now => (0 : Nat)
  | .freshId => "x"
  | .begin => .ok 0
  | .insert .. => .ok (.ok ())
  | .find .. => .ok none
  | .update .. => .ok (.ok 0)
  | .listByStatus .. => .ok []
  | .listStale .. => .ok []
  | .commit _ => .ok ()
  | .drop _ => ()
  | .acquire x => some ⟨"lease", x, "owner", 0⟩
  | .release _ => ()
  | .call _ call => reply j call
  | .openSpan _ => none
  | .failSpan .. => ()
  | .closeSpan _ => ()
  | .log _ => ()
  | .alert _ => ()
  | .completed _ => ()
  | .dispatch _ => true
  | .sleep _ => ()
  | .requeue .. => ()
  | .finished _ => ()
  | .alertedCount => (0 : Nat)
  | .wasAlerted _ => false
  | .markAlerted _ => ()

/-- Steps that are always busy; their undo succeeds. -/
def busy (_ : Journal) (call : StepCall) : StepReply :=
  match call.phase with
  | .execute => .returned (.retryable "busy")
  | .compensate => .returned .ok

/-- The cluster after some operations, one after another. -/
def run (reply : Journal → StepCall → StepReply) (operations : List Operation) : Cluster :=
  operations.foldl (Cluster.perform engine (host reply)) {}

theorem run_reachable (reply : Journal → StepCall → StepReply) (operations : List Operation) :
    Reachable engine (run reply operations) := performs_reachable _ operations

end Sample

end

end SagaEngine
