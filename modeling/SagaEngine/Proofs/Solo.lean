import SagaEngine.Proofs.Exclusion
import SagaEngine.Proofs.RecordInvariant
import SagaEngine.Proofs.Reference
/-!
# A drive that nobody interferes with

An execution that was started and is then driven to its end, while nobody else touches
it, makes the calls of a reference run, and the drive answers with the last row, which
tells how the run ended. Main statements: `Ensures.run`, `Journal.Sole.reference` and
`drive_refines_reference`.
-/

namespace SagaEngine

/-- An event is an answer that a world with this host gave to an actor. -/
def Host.Gave (host : Host) (me : Actor) (ev : Event) : Prop :=
  ∃ (s : MemoryStore) (j : Journal) (q : Request),
    ev = ⟨me, q, (serve s q (host j q)).1, installs s q (serve s q (host j q)).1⟩

def HostState.view (w : HostState) : View := ⟨w.journal, w.store.transactions⟩

section

variable {e : Engine} {σ : Cluster} {j k : Journal} {ev : Event} {me : Actor} {x : String}
  {host : Host} {w : HostState}

/-! ## Running alone -/

/-- A program that runs alone ends as it ensures. -/
theorem Ensures.run {α : Type} (host : Host) {p : Action α} {post : Except Failure α → View → Prop}
    (ensures : Ensures (contract e me) post p w.view) (lawful : Lawful e w.journal)
    (rows : w.store.committed = w.journal.rows) :
    let (r, w') := p.run (host.answer me) w
    post r w'.view ∧ Lawful e w'.journal ∧ w'.store.committed = w'.journal.rows ∧
      ∃ own, w'.journal = own ++ w.journal ∧ ∀ ev ∈ own, host.Gave me ev := by
  -- Nobody else does anything between two requests, so the state before each is the state met.
  induction p generalizing w with
  | done value => exact ⟨ensures, lawful, rows, [], rfl, by simp⟩
  | failed failure => exact ⟨ensures, lawful, rows, [], rfl, by simp⟩
  | ask q next ih =>
    have still : (contract e me).drifts w.view w.view := ⟨lawful, rfl, [], by simp, rfl⟩
    have same : w.view.store = w.store := by
      rw [View.store, HostState.view, ← rows]
    have serves := serve_serves w.store q (host w.journal q)
    have serves' : Serves w.view.store q (serve w.store q (host w.journal q)).1
        (serve w.store q (host w.journal q)).2 := by rw [same]; exact serves
    obtain ⟨permitted, rest⟩ := ensures w.view still (serve w.store q (host w.journal q)).1
      (host.answer me q w).2.view ⟨_, serves', rfl, by rw [same]; rfl⟩
    have permitted : Permitted e w.journal ⟨me, q, (serve w.store q (host w.journal q)).1,
        installs w.store q (serve w.store q (host w.journal q)).1⟩ := by
      have permitted' : Permitted e w.journal ⟨me, q, (serve w.store q (host w.journal q)).1,
        installs w.view.store q (serve w.store q (host w.journal q)).1⟩ := permitted
      rwa [same] at permitted'
    have committed :
        (host.answer me q w).2.store.committed = (host.answer me q w).2.journal.rows := by
      have after := serves.committed
      rw [rows] at after
      exact after
    obtain ⟨ends, lawful', rows', own, journal, gave⟩ :=
      ih _ (w := (host.answer me q w).2) rest (lawful.next permitted) committed
    refine ⟨ends, lawful', rows', own ++ [⟨me, q, (serve w.store q (host w.journal q)).1,
      installs w.store q (serve w.store q (host w.journal q)).1⟩], ?_, ?_⟩
    · rw [List.append_assoc]
      exact journal
    · intro ev inside
      rcases List.mem_append.1 inside with later | first
      · exact gave ev later
      · cases List.mem_singleton.1 first
        exact ⟨w.store, w.journal, q, rfl⟩

/-- A task that runs on alone ends as it ensures. -/
theorem Ensures.finish {post : Except Failure Operation.Result → View → Prop} {i : Nat}
    {task : Running} (host : Host) (lawful : Lawful e σ.journal) (rows : σ.rows = σ.journal.rows)
    (running : σ.tasks[i]? = some task)
    (ensures : Ensures (contract e task.actor) post task.rest ⟨σ.journal, task.opened⟩) :
    ∃ r opened own, post r ⟨(σ.finish host i).journal, opened⟩ ∧
      Lawful e (σ.finish host i).journal ∧ (σ.finish host i).journal = own ++ σ.journal ∧
      ∀ ev ∈ own, host.Gave task.actor ev := by
  obtain ⟨me, opened, rest⟩ := task
  have start : Ensures (contract e me) post rest (HostState.view ⟨⟨σ.rows, opened⟩, σ.journal⟩) :=
    ensures
  have ran := start.run host lawful rows
  rcases out : rest.run (host.answer me) ⟨⟨σ.rows, opened⟩, σ.journal⟩ with ⟨r, w'⟩
  rw [out] at ran
  obtain ⟨ends, lawful', -, own, journal, gave⟩ := ran
  refine ⟨r, w'.store.transactions, own, ?_⟩
  rw [Cluster.finish, running]
  simp only [out]
  exact ⟨ends, lawful', journal, gave⟩

theorem Consistent.fresh (consistent : Consistent e σ) (operation : Operation) :
    ∀ ev ∈ σ.journal, ev.actor ≠ ⟨σ.tasks.length, operation⟩ := by
  intro ev inside same
  have number := congrArg Actor.number same
  exact absurd number (Nat.ne_of_lt (consistent.number_lt inside))

/-- An operation was performed alone. -/
structure Ran (e : Engine) (host : Host) (operation : Operation) (σ σ' : Cluster)
    (r : Except Failure Operation.Result) : Prop where
  result : σ'.tasks.getLast?.bind Running.result? = some r
  lawful : Lawful e σ'.journal
  rows : σ'.rows = σ'.journal.rows
  own : ∃ own, σ'.journal = own ++ σ.journal ∧
    ∀ ev ∈ own, host.Gave ⟨σ.tasks.length, operation⟩ ev

theorem perform_ensures {operation : Operation}
    {post : Except Failure Operation.Result → View → Prop} (host : Host) (fits : e.Fits)
    (reachable : Reachable e σ)
    (ensures : Ensures (contract e ⟨σ.tasks.length, operation⟩) post (operation.program e)
      ⟨σ.journal, {}⟩) :
    ∃ r opened, Ran e host operation σ (σ.perform e host operation) r ∧
      post r ⟨(σ.perform e host operation).journal, opened⟩ := by
  have consistent := reachable_consistent reachable fits
  have start : Ensures (contract e ⟨σ.tasks.length, operation⟩) post (operation.program e)
      (HostState.view ⟨⟨σ.rows, {}⟩, σ.journal⟩) := ensures
  have ran := start.run host consistent.lawful consistent.rows
  rcases out : (operation.program e).run (host.answer ⟨σ.tasks.length, operation⟩)
    ⟨⟨σ.rows, {}⟩, σ.journal⟩ with ⟨r, w'⟩
  rw [out] at ran
  obtain ⟨ends, lawful, rows, own⟩ := ran
  refine ⟨r, w'.store.transactions, ?_⟩
  rw [Cluster.perform, out]
  refine ⟨⟨?_, lawful, rows, own⟩, ends⟩
  rw [List.getLast?_concat]
  cases r <;> rfl

/-! ## An execution that one actor drives -/

/-- No other actor has an operation about an execution that exists. -/
def Journal.Sole (j : Journal) (me : Actor) (x : String) : Prop :=
  ∀ ev ∈ j, ev.actor.operation.target? = some x → ev.actor = me

theorem Journal.Sole.exclusive (sole : j.Sole me x) (lawful : Lawful e j) : j.Exclusive x := by
  intro actor lease k earlier other driven
  have inside (ev : Event) (old : ev ∈ k) : ev ∈ j :=
    earlier.subset (List.mem_cons_of_mem _ old)
  have own : actor = me := by
    apply sole _ (earlier.subset List.mem_cons_self)
    exact Operation.target?_of_driven? (lawful.suffix earlier).of_granted.1
  by_cases same : other = actor
  · exact same ▸ (lawful.suffix earlier).of_granted.2
  · apply held_of_stranger
    rintro ev old rfl
    exact same ((sole ev (inside ev old) (Operation.target?_of_driven? driven)).trans own.symm)

/-- An actor that has recorded a cancel request has done so for good. -/
theorem Permitted.keeps_written (permitted : Permitted e j ev) (cancels : me.operation = .cancel x)
    (written : (j.attempt me).written ≠ []) : (Journal.attempt me (ev :: j)).written ≠ [] := by
  have undriven (y : String) : me.operation.driven? ≠ some y := by
    rw [cancels]
    exact nofun
  by_cases own : ev.actor = me
  · subst own
    rw [attempt_own rfl]
    cases permitted with
    | quiet actor q answer quiet => rwa [after_quiet _ answer quiet]
    | found actor y tx target =>
      cases found : j.record y <;> simpa [Attempt.after, found] using written
    | granted actor y lease driven => exact absurd driven (undriven y)
    | created | cancelled | decided => simp [Attempt.after]
    | _ => exact written
  · rwa [attempt_other own]

/-- Whatever row has a cancel request on it, a cancel has recorded one. -/
theorem Lawful.asked_by {row : Execution} (lawful : Lawful e j) (inside : row ∈ j.history x)
    (asked : row.cancelRequested = true) :
    ∃ ev ∈ j, ev.actor.operation = .cancel x ∧ (j.attempt ev.actor).written ≠ [] := by
  induction lawful generalizing row with
  | start => cases inside
  | @next j ev before permitted ih =>
    have older (row : Execution) (inside : row ∈ j.history x) (asked : row.cancelRequested = true) :
        ∃ ev' ∈ ev :: j, ev'.actor.operation = .cancel x ∧
          (Journal.attempt ev'.actor (ev :: j)).written ≠ [] := by
      obtain ⟨ev', old, cancels, written⟩ := ih inside asked
      exact ⟨ev', List.mem_cons_of_mem _ old, cancels, permitted.keeps_written cancels written⟩
    cases permitted.extends before x with
    | unchanged _ history _ => exact older row (history ▸ inside) asked
    | created me tx sagaType context d now starts known free history =>
      rw [history] at inside
      cases List.mem_singleton.1 inside
      cases asked
    | cancelled me tx old earlier time cancels =>
      refine ⟨_, List.mem_cons_self, cancels, ?_⟩
      rw [attempt_own rfl]
      simp [Attempt.after]
    | decided me tx lease old earlier base changed d t time driven held read unwritten split inside'
        known decides same next history =>
      rw [history] at inside
      rcases List.mem_cons.1 inside with rfl | old'
      · have kept : changed.cancelRequested = old.cancelRequested :=
          congrArg Execution.Frame.cancelRequested (next_frame next)
        exact older old (split ▸ List.mem_cons_self) (kept.symm.trans asked)
      · exact older row (split ▸ old') asked

theorem Lawful.unasked (lawful : Lawful e j) (none : ∀ ev ∈ j, ev.actor.operation ≠ .cancel x) :
    ∀ row ∈ j.history x, row.cancelRequested = false := by
  intro row inside
  cases asked : row.cancelRequested with
  | false => rfl
  | true =>
    obtain ⟨ev, old, cancels, -⟩ := lawful.asked_by inside asked
    exact absurd cancels (none ev old)

theorem Lawful.called_by {c : CallMade} (lawful : Lawful e j) (made : c ∈ j.calls x) :
    ∃ ev ∈ j, ev.call? = some c ∧ ev.actor.operation.driven? = some x := by
  induction lawful with
  | start => cases made
  | @next j ev before permitted ih =>
    have older (made : c ∈ j.calls x) :
        ∃ ev' ∈ ev :: j, ev'.call? = some c ∧ ev'.actor.operation.driven? = some x := by
      obtain ⟨ev', inside, is, driven⟩ := ih made
      exact ⟨ev', List.mem_cons_of_mem _ inside, is, driven⟩
    by_cases driven : ev.actor.operation.driven? = some x
    · rcases List.mem_append.1 made with old | new
      · exact older old
      · have is := Option.mem_toList.1 (List.mem_filter.1 new).1
        exact ⟨ev, List.mem_cons_self, is, driven⟩
    · rw [permitted.calls_foreign before driven] at made
      exact older made

/-- Actors that do not drive an execution call none of its steps. -/
theorem Lawful.calls_others {others : Journal} (lawful : Lawful e (others ++ j))
    (foreign : ∀ ev ∈ others, ev.actor.operation.driven? ≠ some x) :
    Journal.calls x (others ++ j) = j.calls x := by
  induction others with
  | nil => rfl
  | cons ev others ih =>
    cases lawful with
    | next before permitted =>
      have rest := ih before fun ev inside => foreign ev (List.mem_cons_of_mem _ inside)
      exact (permitted.calls_foreign before (foreign ev List.mem_cons_self)).trans rest

theorem CalledOn.mem_calls {c : CallMade} (called : CalledOn me x j c) : c ∈ j.calls x := by
  obtain ⟨k, later, ev, split, is, about, -⟩ := called
  have before : ev :: k <:+ j := ⟨later, split.symm⟩
  apply (calls_sublist x before).subset
  rw [calls_cons_call is about]
  exact List.mem_append_right _ List.mem_cons_self

/-- Who drives an execution alone, with every lease granted and every reply classified, does not
give it up. -/
theorem Journal.Sole.not_gaveUp (sole : j.Sole me x) (lawful : Lawful e j)
    (driven : me.operation.driven? = some x) (classified : j.Classified x)
    (granted : ∀ ev ∈ j, ev ≠ ⟨me, .acquire x, none, []⟩) : ¬j.GaveUp me x := by
  rintro (⟨k, earlier⟩ | ⟨k, base, earlier, held, read, unwritten, row, found, differs⟩ |
    ⟨k, c, earlier, made, unclassified⟩)
  · exact granted _ (earlier.subset List.mem_cons_self) rfl
  · have exclusive := (sole.exclusive lawful).suffix earlier
    obtain ⟨latest, found', same⟩ :=
      (lawful.suffix earlier).current exclusive ⟨driven, held⟩ read unwritten
    rw [found] at found'
    cases found'
    exact differs same.symm
  · rcases (lawful.suffix earlier).calledOn driven with none | ⟨c', one, called⟩
    · rw [none] at made
      cases made
    · rw [one] at made
      cases List.mem_singleton.1 made
      exact (classified.suffix earlier) c called.mem_calls unclassified

theorem Lawful.history_length_lt (lawful : Lawful e j) (fits : e.Fits) (x : String) :
    (j.history x).length < 0x10000000000000000 := by
  cases history : j.history x with
  | nil => decide
  | cons row older =>
    obtain ⟨d, owned⟩ := lawful.ownedBy x (by rw [history]; exact List.cons_ne_nil _ _)
    have inside : row ∈ j.history x := by rw [history]; exact List.mem_cons_self
    have small := fits.of_definitionOf (owned.known row inside)
    obtain ⟨calls, lineage⟩ := owned.lineage
    rw [history] at lineage
    have length := length_le_weight (lineage.follows small)
    have weight := weight_lt_word small (lineage.wellFormed small row List.mem_cons_self)
    rw [List.length_cons]
    omega

/-- An execution that one actor drives to its end, without cancel requests, makes the calls of a
reference run and ends where the run ends. -/
theorem Journal.Sole.reference {row : Execution} (sole : j.Sole me x) (lawful : Lawful e j)
    (fits : e.Fits) (drives : me.operation = .drive x) (classified : j.Classified x)
    (finished : j.Finished x row) :
    ∃ d ending, e.definitionOf row = .ok d ∧
      ReferenceRun d.stepCount d.retry.maxAttempts ((j.calls x).map CallMade.mark) ending ∧
      row.position = ending.position d.stepCount := by
  obtain ⟨older, history⟩ := history_eq_cons_of_record finished.record
  have exclusive := sole.exclusive lawful
  obtain ⟨calls, booked⟩ := lawful.booked exclusive classified
  have made := booked.made_of_terminal lawful exclusive finished
  obtain ⟨d, known, lineage⟩ := booked.lineage history
  have unasked : ∀ row ∈ j.history x, row.cancelRequested = false := by
    apply lawful.unasked
    intro ev inside cancels
    have target : ev.actor.operation.target? = some x := by rw [cancels]; rfl
    rw [sole ev inside target, drives] at cancels
    cases cancels
  have meant : ∀ c ∈ calls, ∀ code, c.reply.result.outcome ≠ .unclassified code :=
    fun c inside code outcome => classified c (made ▸ inside) ⟨code, outcome⟩
  have knownRow := known row List.mem_cons_self
  have trails := lineage.trails (fits.of_definitionOf knownRow) (history ▸ unasked) meant row rfl
  obtain ⟨ending, run, stands⟩ := trails.run finished.terminal
  exact ⟨d, ending, knownRow, made ▸ run, stands⟩

/-! ## The drive -/

/-- A drive of an execution that exists and is not given up ends with its last row. -/
theorem Drove.finished_of_stays {moves : Nat} {r : Except Failure Execution}
    (drove : Drove me x moves j k (r.map some)) (stays : ¬k.GaveUp me x)
    (present : j.history x ≠ []) (short : (k.history x).length < moves) :
    ∃ row, r = .ok row ∧ k.Finished x row := by
  cases r with
  | ok row =>
    cases drove with
    | finished _ finished => exact ⟨row, rfl, finished⟩
    | gaveUp _ gaveUp => exact absurd gaveUp stays
  | error failure =>
    cases drove with
    | endless moved => omega
    | missing nothing => exact absurd nothing present

/-- What performing a drive alone comes to. -/
structure Performed (e : Engine) (host : Host) (x : String) (σ σ' : Cluster)
    (r : Except Failure Execution) : Prop where
  result : σ'.tasks.getLast?.bind Running.result? = some (r.map .driven)
  drove : Drove ⟨σ.tasks.length, .drive x⟩ x e.patience σ.journal σ'.journal (r.map some)
  lawful : Lawful e σ'.journal
  rows : σ'.rows = σ'.journal.rows
  own : ∃ own, σ'.journal = own ++ σ.journal ∧
    ∀ ev ∈ own, host.Gave ⟨σ.tasks.length, .drive x⟩ ev

theorem perform_drive (host : Host) (fits : e.Fits) (reachable : Reachable e σ) (x : String) :
    ∃ r, Performed e host x σ (σ.perform e host (.drive x)) r := by
  have consistent := reachable_consistent reachable fits
  have ensures : Ensures (contract e ⟨σ.tasks.length, .drive x⟩)
      (fun r v' => ∃ r₀ : Except Failure Execution, r = r₀.map .driven ∧
        Drove ⟨σ.tasks.length, .drive x⟩ x e.patience σ.journal v'.journal (r₀.map some))
      ((Operation.drive x).program e) ⟨σ.journal, {}⟩ := by
    refine Ensures.bind ((drive_ensures fits rfl (by simp) consistent.lawful
      (consistent.free _)).mono ?_)
    rintro (failure | row) v' drove
    · exact ⟨.error failure, rfl, drove⟩
    · exact ⟨.ok row, rfl, drove⟩
  obtain ⟨r, opened, ⟨result, lawful, rows, own⟩, r₀, rfl, drove⟩ :=
    perform_ensures host fits reachable ensures
  exact ⟨r₀, result, drove, lawful, rows, own⟩

theorem Host.Gave.actor (gave : host.Gave me ev) : ev.actor = me := by
  obtain ⟨s, j, q, rfl⟩ := gave
  rfl

theorem Host.Gave.replied {c : CallMade} (gave : host.Gave me ev) (is : ev.call? = some c) :
    ∃ j sagaType, ev.request = .call sagaType c.call ∧
      c.reply = host j (.call sagaType c.call) := by
  obtain ⟨s, j, q, rfl⟩ := gave
  cases q with
  | call sagaType call =>
    cases is
    exact ⟨j, sagaType, rfl, rfl⟩
  | _ => cases is

theorem Host.Gave.reply {c : CallMade} (gave : host.Gave me ev) (is : ev.call? = some c) :
    ∃ j sagaType, c.reply = host j (.call sagaType c.call) := by
  obtain ⟨j, sagaType, -, reply⟩ := gave.replied is
  exact ⟨j, sagaType, reply⟩

theorem Host.Gave.lease {answer : Option Lease} {installed : List Execution}
    (gave : host.Gave me ⟨me, .acquire x, answer, installed⟩) :
    ∃ j, answer = host j (.acquire x) := by
  obtain ⟨s, j, q, same⟩ := gave
  simp only [Event.mk.injEq, true_and] at same
  obtain ⟨rfl, answered, -⟩ := same
  exact ⟨j, eq_of_heq answered⟩

/-- An execution that was started and that nobody has touched since is driven to its end by one
drive, whatever its steps reply: the calls are those of a reference run, nothing else is called,
and the drive answers with the last row, which stands where the run ended. -/
theorem drive_refines_reference {first : Execution} (fits : e.Fits)
    (patient : 0x10000000000000000 ≤ e.patience)
    (reachable : Reachable e σ) (accepted : σ.journal.history x = [first])
    (untouched : ∀ task ∈ σ.tasks, task.actor.operation.target? ≠ some x)
    (grants : ∀ j, host j (.acquire x) ≠ none)
    (classified : ∀ j sagaType call code,
      (host j (.call sagaType call)).result.outcome ≠ .unclassified code) :
    let σ' := σ.perform e host (.drive x)
    ∃ d row ending, e.definition first.sagaType = .ok d ∧ σ.journal.StartedWith x d first ∧
      σ'.tasks.getLast?.bind Running.result? = some (.ok (.driven row)) ∧
      σ'.rows.get? x = some row ∧
      ReferenceRun d.stepCount d.retry.maxAttempts ((σ'.journal.calls x).map CallMade.mark) ending ∧
      row.position = ending.position d.stepCount ∧
      ∀ y, y ≠ x → σ'.journal.calls y = σ.journal.calls y := by
  intro σ'
  have consistent := reachable_consistent reachable fits
  obtain ⟨r, result, drove, lawful, rows, own, journal, gave⟩ := perform_drive host fits reachable x
  have foreign (ev : Event) (inside : ev ∈ σ.journal) : ev.actor.operation.target? ≠ some x := by
    obtain ⟨task, member, same⟩ := consistent.known ev inside
    exact same ▸ untouched task member
  have ours (ev : Event) (inside : ev ∈ σ'.journal)
      (target : ev.actor.operation.target? = some x) : ev ∈ own := by
    rw [journal] at inside
    rcases List.mem_append.1 inside with new | old
    · exact new
    · exact absurd target (foreign ev old)
  have sole : σ'.journal.Sole ⟨σ.tasks.length, .drive x⟩ x :=
    fun ev inside target => (gave ev (ours ev inside target)).actor
  have meant : σ'.journal.Classified x := by
    rintro c made ⟨code, outcome⟩
    obtain ⟨ev, inside, is, driven⟩ := lawful.called_by made
    obtain ⟨j, sagaType, reply⟩ :=
      (gave ev (ours ev inside (Operation.target?_of_driven? driven))).reply is
    rw [reply] at outcome
    exact classified j sagaType c.call code outcome
  have granted (ev : Event) (inside : ev ∈ σ'.journal) :
      ev ≠ ⟨⟨σ.tasks.length, .drive x⟩, .acquire x, none, []⟩ := by
    rintro rfl
    obtain ⟨j, refused⟩ := (gave _ (ours _ inside rfl)).lease
    exact grants j refused.symm
  have stays := sole.not_gaveUp lawful rfl meant granted
  have present : σ.journal.history x ≠ [] := by rw [accepted]; exact List.cons_ne_nil _ _
  have short := Nat.lt_of_lt_of_le (lawful.history_length_lt fits x) patient
  obtain ⟨row, rfl, finished⟩ := drove.finished_of_stays stays present short
  obtain ⟨d, ending, known, run, stands⟩ := sole.reference lawful fits rfl meant finished
  obtain ⟨d', first', last, started, known'⟩ := consistent.lawful.startedWith present
  rw [accepted] at last
  cases last
  have same : d' = d := by
    have firstMem : first ∈ σ'.journal.history x := by
      have later : σ.journal <:+ σ'.journal := ⟨own, journal.symm⟩
      apply (history_suffix x later).subset
      rw [accepted]
      exact List.mem_singleton.2 rfl
    have owned := lawful.ownedBy_of_known (mem_history_of_record finished.record) known
    exact Except.ok.inj (known'.symm.trans (definitionOf_eq_ok.1 (owned.known first firstMem)).1)
  subst same
  refine ⟨d', row, ending, known', started, result, ?_, run, stands, ?_⟩
  · rw [rows]
    exact finished.record
  · intro y other
    rw [journal] at lawful ⊢
    apply lawful.calls_others
    intro ev inside
    rw [(gave ev inside).actor]
    intro driven
    exact other (Option.some.inj driven).symm

/-- The only step is called as often as the budget allows and is then undone. -/
theorem drive_refines_reference_busy :
    let σ := (Sample.run Sample.busy [.start "order" Dictionary.empty]).perform Sample.engine
      (Sample.host Sample.busy) (.drive "x")
    ReferenceRun 1 2 ((σ.journal.calls "x").map CallMade.mark) .compensated := by
  have accepted : (Sample.run Sample.busy [.start "order" Dictionary.empty]).journal.history "x" =
      [Engine.newRow "x" Sample.definition "order" Dictionary.empty 0] := by decide +kernel
  have replies (j : Journal) (sagaType : String) (call : StepCall) (code : Nat) :
      (Sample.host Sample.busy j (.call sagaType call)).result.outcome ≠ .unclassified code := by
    show (Sample.busy j call).result.outcome ≠ _
    rw [Sample.busy]
    cases call.phase <;> simp [StepReply.result, StepResult.retryable, StepResult.ok]
  obtain ⟨d, row, ending, known, -, -, found, run, stands, -⟩ :=
    drive_refines_reference Sample.engine_fits
      (by decide +kernel) (Sample.run_reachable _ _) accepted (by decide +kernel)
      (fun _ => Option.some_ne_none _) replies
  have status : (((Sample.run Sample.busy [.start "order" Dictionary.empty]).perform Sample.engine
      (Sample.host Sample.busy) (.drive "x")).rows.get? "x").map (·.status) =
        some .compensated := by decide +kernel
  have registered : Sample.engine.definition "order" = .ok Sample.definition := rfl
  obtain rfl : Sample.definition = d := Except.ok.inj (registered.symm.trans known)
  rw [found] at status
  have ends : (ending.position 1).status = .compensated :=
    stands ▸ Option.some.inj status
  cases ending with
  | compensated => exact run
  | completed | failed => cases ends

end

end SagaEngine
