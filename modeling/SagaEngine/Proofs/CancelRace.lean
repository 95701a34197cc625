import SagaEngine.Proofs.Endings
import SagaEngine.Proofs.Race
/-!
# Cancel requests that race with an advance

An advance reads a row under its lease, calls a step and stores the result. Cancel
requests that are recorded meanwhile make it lose races for the version, but the row
that it reads again differs in nothing that its decision depends on, and one more try
is left, since a cancel request is recorded once. Main statement:
`cancel_race_loses_nothing`.
-/

namespace SagaEngine

/-- The advance with the given number has read a row under its lease in `σ₀` and runs on to `σ`.
Until it stores a row, nobody but cancel requests commits rows of the execution. -/
structure Contest (e : Engine) (x : String) (base : Execution) (i : Nat) (σ₀ σ : Cluster) :
    Prop where
  reachable : Reachable e σ₀
  begun : ∃ task, σ₀.tasks[i]? = some task ∧ task.actor = ⟨i, .advance x⟩
  read : ∃ lease, σ₀.journal.attempt ⟨i, .advance x⟩ =
    { leased := true, held := some lease, base := some base }
  latest : σ₀.rows.get? x = some base
  active : base.status.isTerminal = false
  leads : Leads e σ₀ σ
  cancels : ∀ later ev earlier, σ.journal = later ++ ev :: (earlier ++ σ₀.journal) →
    (Journal.attempt ⟨i, .advance x⟩ (earlier ++ σ₀.journal)).written = [] →
      ∀ row ∈ ev.installed, row.id = x →
        ev.actor = ⟨i, .advance x⟩ ∨ ev.actor.operation = .cancel x
  classified : ∀ c ∈ (σ.journal.attempt ⟨i, .advance x⟩).calls, ¬c.Unclassified

section

variable {e : Engine} {me : Actor} {x : String} {d : SagaDefinition} {base row row' : Execution}
  {j : Journal} {ev : Event} {c : CallMade}

theorem Races.ends {r : Except Failure Operation.Result} (races : Races e me x d base j)
    (advances : me.operation = .advance x) (tells : Tells me r j)
    (active : base.status.isTerminal = false)
    (classified : ∀ c ∈ (j.attempt me).calls, AsksFor d base c.call → ¬c.Unclassified) :
    (∃ advanced, r = .ok (.advanced advanced) ∧ advanced ≠ .abandoned) ∧
      (j.attempt me).written ≠ [] := by
  cases races with
  | waiting latest found same leased read unwritten asked =>
    rcases tells.advanced x base advances leased read active with ⟨_, _, _, written⟩ | lost
    · exact absurd unwritten written
    · rcases lost.reason with ⟨base', read', row, found', differs⟩ | ⟨c, made, unclassified⟩
      · obtain rfl : base' = base := Option.some.inj (read'.symm.trans read)
        obtain rfl : latest = row := Option.some.inj (found.symm.trans found')
        exact absurd (Execution.progress_of_core same) differs
      · exact absurd unclassified (classified c made (asked c made))
  | stored k tx old changed t now earlier before found same next leased read written =>
    have stored : (j.attempt me).written ≠ [] := by
      rw [written]
      exact List.cons_ne_nil _ _
    rcases tells.advanced x base advances leased read active with ⟨advanced, result, stays, _⟩ | lost
    · exact ⟨⟨advanced, result, stays⟩, stored⟩
    · exact absurd lost.unwritten stored

theorem Races.new {me : Actor} (races : Races e me x d base j)
    (written : (j.attempt me).written ≠ []) :
    ∃ new changed old t, (j.attempt me).written = [new] ∧ new ∈ j.history x ∧
      Decides d base (j.attempt me).calls t ∧ t.next old = .ok changed ∧ old.core = base.core ∧
      new.standing = changed.standing := by
  cases races with
  | waiting latest found same leased read unwritten => exact absurd unwritten written
  | stored k tx old changed t now earlier before found same next leased read one decides =>
    refine ⟨_, changed, old, t, one, ?_, decides, next, same, rfl⟩
    apply (history_suffix x earlier).subset
    have id : ((changed.stamped now).replacing old).id = x := by
      have origin := congrArg Execution.Origin.id (origin_of_stored next now)
      exact origin.trans (id_of_mem_history (mem_history_of_record found))
    rw [history_cons_one _ k rfl, if_pos id]
    exact List.mem_cons_self

namespace Contest

variable {i : Nat} {σ₀ σ σ' : Cluster}

theorem known (contest : Contest e x base i σ₀ σ) (fits : e.Fits) :
    ∃ d, e.definitionOf base = .ok d := by
  have consistent := reachable_consistent contest.reachable fits
  have found : σ₀.journal.record x = some base := by
    rw [Journal.record, ← consistent.rows]
    exact contest.latest
  have inside := mem_history_of_record found
  obtain ⟨d, owned⟩ := consistent.lawful.ownedBy x (List.ne_nil_of_mem inside)
  exact ⟨d, owned.known base inside⟩

theorem races₀ (contest : Contest e x base i σ₀ σ) (fits : e.Fits) (d : SagaDefinition) :
    Races e ⟨i, .advance x⟩ x d base σ₀.journal := by
  have consistent := reachable_consistent contest.reachable fits
  have found : σ₀.journal.record x = some base := by
    rw [Journal.record, ← consistent.rows]
    exact contest.latest
  obtain ⟨lease, attempt⟩ := contest.read
  refine .waiting base found rfl ?_ ?_ ?_ ?_ <;> rw [attempt]
  intro c made
  cases made

theorem races (contest : Contest e x base i σ₀ σ) (fits : e.Fits)
    (known : e.definitionOf base = .ok d) : Races e ⟨i, .advance x⟩ x d base σ.journal := by
  have lawful := (reachable_consistent (contest.reachable.leads contest.leads) fits).lawful
  obtain ⟨own, split⟩ := contest.leads.journal
  rw [← split] at lawful ⊢
  apply (contest.races₀ fits d).run rfl known lawful
  intro later ev earlier isOwn
  apply contest.cancels later ev earlier
  rw [← split, isOwn, List.append_assoc, List.cons_append]

/-- The same advance without the cancel requests, against a host that replies as the step did. -/
theorem alone (contest : Contest e x base i σ₀ σ) (fits : e.Fits)
    (known : e.definitionOf base = .ok d) (host : Host)
    (replies : ∀ c ∈ (σ.journal.attempt ⟨i, .advance x⟩).calls, ∀ j sagaType,
      host j (.call sagaType c.call) = c.reply) :
    Races e ⟨i, .advance x⟩ x d base (σ₀.finish host i).journal ∧
      (∃ r, Tells ⟨i, .advance x⟩ r (σ₀.finish host i).journal) ∧
      ∀ c ∈ ((σ₀.finish host i).journal.attempt ⟨i, .advance x⟩).calls,
        ∀ c' ∈ (σ.journal.attempt ⟨i, .advance x⟩).calls, c'.call = c.call → c'.reply = c.reply := by
  have consistent := reachable_consistent contest.reachable fits
  obtain ⟨task, running, actor⟩ := contest.begun
  have ensures := contest.reachable.ensures fits (fun me v => program_tells fits)
    (fun me => tells_stable fits) task (List.mem_of_getElem? running)
  obtain ⟨r, opened, own, tells, lawful, journal, gave⟩ :=
    ensures.finish host consistent.lawful consistent.rows running
  rw [actor] at tells gave
  refine ⟨?_, ⟨r, tells⟩, ?_⟩
  · rw [journal] at lawful ⊢
    apply (contest.races₀ fits d).run rfl known lawful
    intro later ev earlier isOwn _ row _ _
    have inside : ev ∈ own := by simp [isOwn]
    exact .inl (gave ev inside).actor
  · intro c made c' made' same
    obtain ⟨lease, attempt⟩ := contest.read
    rw [journal] at made
    rcases calls_of_own made with old | ⟨ev, inside, is⟩
    · rw [attempt] at old
      cases old
    · obtain ⟨j, sagaType, reply⟩ := (gave ev inside).reply is
      rw [reply, ← same]
      exact (replies c' made' j sagaType).symm

end Contest

/-- The row that a decision is stored on passes its cancel request on. -/
theorem Permitted.stores_asked {new : Execution} (permitted : Permitted e j ev)
    (advances : me.operation = .advance x) (unwritten : (j.attempt me).written = [])
    (written : (Journal.attempt me (ev :: j)).written = [new]) :
    ∃ old, j.record x = some old ∧ new.cancelRequested = old.cancelRequested := by
  have fresh {p : Prop} (empty : (Journal.attempt me (ev :: j)).written = []) : p := by
    rw [empty] at written
    cases written
  by_cases own : ev.actor = me
  · subst own
    have after : Journal.attempt ev.actor (ev :: j) = (j.attempt ev.actor).after ev :=
      attempt_own rfl
    cases permitted with
    | quiet actor q answer quiet =>
      rw [after_quiet _ answer quiet] at after
      exact fresh (after ▸ unwritten)
    | found actor y tx target =>
      apply fresh
      rw [after]
      cases found : j.record y <;> simpa [Attempt.after, found] using unwritten
    | granted => exact fresh (after ▸ rfl)
    | created actor tx sagaType context id d now starts =>
      rw [starts] at advances
      cases advances
    | cancelled actor y tx old now cancels =>
      rw [cancels] at advances
      cases advances
    | decided actor y tx lease old base changed d t now driven held read _ latest known decides same
        next =>
      have driven : actor.operation.driven? = some y := driven
      rw [advances] at driven
      obtain rfl : x = y := Option.some.inj driven
      rw [after] at written
      simp only [Attempt.after, unwritten, List.nil_append, List.cons.injEq, and_true] at written
      refine ⟨old, latest, ?_⟩
      rw [← written]
      exact congrArg Execution.Frame.cancelRequested (next_frame next)
    | _ => exact fresh ((congrArg Attempt.written after).trans unwritten)
  · rw [attempt_other own] at written
    exact fresh ((attempt_other own).symm ▸ unwritten)

theorem Follows.keeps_asked (follows : Follows d row row') (asked : row'.cancelRequested = true) :
    row.cancelRequested = true := by
  have up := follows.asked
  simp only [Execution.asked, asked, if_true] at up
  cases kept : row.cancelRequested with
  | true => rfl
  | false => simp [kept] at up

theorem Journal.OwnedBy.record_asked {latest : Execution} (owned : j.OwnedBy e d x) (fits : d.Fits)
    (inside : row ∈ j.history x) (asked : row.cancelRequested = true)
    (found : j.record x = some latest) : latest.cancelRequested = true := by
  rcases owned.record_follows fits inside found with rfl | follows
  · exact asked
  · exact follows.keeps_asked asked

namespace Contest

variable {i : Nat} {σ₀ σ σ' σ₁ : Cluster}

/-- The cancel requests on the row before the advance stores its own are those on the row that it
has read and those that were recorded since. -/
theorem asked_iff (contest : Contest e x base i σ₀ σ) (fits : e.Fits) {old : Execution}
    (before : Leads e σ₀ σ') (found : σ'.journal.record x = some old)
    (ended : ∀ task ∈ σ'.tasks, task.actor.operation = .cancel x → task.result? ≠ none) :
    old.cancelRequested = true ↔ base.cancelRequested = true ∨ ∃ task ∈ σ'.tasks,
      task.actor.operation = .cancel x ∧ task.result? = some (.ok .cancelled) := by
  have reachable := contest.reachable.leads before
  have consistent := reachable_consistent reachable fits
  have ensures := reachable.ensures fits (fun me v => program_tells fits)
    (fun me => tells_stable fits)
  obtain ⟨d, owned⟩ := consistent.lawful.ownedBy x (List.ne_nil_of_mem (mem_history_of_record found))
  have small := fits.of_definitionOf (owned.known old (mem_history_of_record found))
  constructor
  · intro asked
    obtain ⟨ev, inside, cancels, written⟩ :=
      consistent.lawful.asked_by (mem_history_of_record found) asked
    obtain ⟨task, member, same⟩ := consistent.known ev inside
    rw [← same] at cancels written
    obtain ⟨r, result⟩ := Option.ne_none_iff_exists'.1 (ended task member cancels)
    have tells : Tells task.actor r σ'.journal := Running.ends result (ensures task member)
    rcases tells.cancelled x cancels with ⟨rfl, -⟩ | ⟨-, unwritten⟩
    · exact .inr ⟨task, member, cancels, result⟩
    · exact absurd unwritten written
  · rintro (asked | ⟨task, member, cancels, result⟩)
    · have start := reachable_consistent contest.reachable fits
      have inside : base ∈ σ₀.journal.history x := by
        apply mem_history_of_record
        rw [Journal.record, ← start.rows]
        exact contest.latest
      exact owned.record_asked small ((history_suffix x before.journal).subset inside) asked found
    · have tells : Tells task.actor _ σ'.journal := Running.ends result (ensures task member)
      rcases tells.cancelled x cancels with ⟨-, row, inside, asked⟩ | ⟨⟨failure, refused⟩, -⟩
      · exact owned.record_asked small inside asked found
      · cases refused

theorem stored_asked_iff (contest : Contest e x base i σ₀ σ) (fits : e.Fits) {new : Execution}
    (before : Leads e σ₀ σ') (step : Step e σ' σ₁)
    (unwritten : (σ'.journal.attempt ⟨i, .advance x⟩).written = [])
    (committed : (σ₁.journal.attempt ⟨i, .advance x⟩).written = [new])
    (ended : ∀ task ∈ σ'.tasks, task.actor.operation = .cancel x → task.result? ≠ none) :
    new.cancelRequested = true ↔ base.cancelRequested = true ∨ ∃ task ∈ σ'.tasks,
      task.actor.operation = .cancel x ∧ task.result? = some (.ok .cancelled) := by
  have lawful := (reachable_consistent (contest.reachable.leads (before.tail step)) fits).lawful
  cases step with
  | begin operation =>
    have unwritten' : (σ'.journal.attempt ⟨i, .advance x⟩).written = [new] := committed
    rw [unwritten] at unwritten'
    cases unwritten'
  | answer =>
    cases lawful with
    | next _ permitted =>
      obtain ⟨old, found, passes⟩ := permitted.stores_asked rfl unwritten committed
      rw [passes]
      exact contest.asked_iff fits before found ended

/-- The advance alone decides as the advance raced did, so it stores the same. -/
theorem standing_alone (contest : Contest e x base i σ₀ σ) (fits : e.Fits)
    (known : e.definitionOf base = .ok d) {old changed : Execution} {t : Transition}
    (decides : Decides d base (σ.journal.attempt ⟨i, .advance x⟩).calls t)
    (next : t.next old = .ok changed) (same : old.core = base.core) (host : Host)
    (replies : ∀ c ∈ (σ.journal.attempt ⟨i, .advance x⟩).calls, ∀ j sagaType,
      host j (.call sagaType c.call) = c.reply) :
    ∃ alone, ((σ₀.finish host i).journal.attempt ⟨i, .advance x⟩).written = [alone] ∧
      changed.standing = alone.standing := by
  obtain ⟨alone, ⟨r, tells⟩, alike⟩ := contest.alone fits known host replies
  -- The step that replied to the advance alone is the one that replied to the advance raced.
  have classified (c : CallMade)
      (made : c ∈ ((σ₀.finish host i).journal.attempt ⟨i, .advance x⟩).calls)
      (asks : AsksFor d base c.call) : ¬c.Unclassified := by
    obtain ⟨c', made', call⟩ := asks.exists_made decides
    intro unclassified
    apply contest.classified c' made'
    rw [CallMade.Unclassified, alike c made c' made' call]
    exact unclassified
  obtain ⟨-, written⟩ := alone.ends rfl tells contest.active classified
  obtain ⟨new, changed', old', t', one, -, decides', next', same', standing⟩ := alone.new written
  have replied (c : CallMade) (made : c ∈ (σ.journal.attempt ⟨i, .advance x⟩).calls)
      (c' : CallMade) (made' : c' ∈ ((σ₀.finish host i).journal.attempt ⟨i, .advance x⟩).calls)
      (call : c.call = c'.call) : c.reply = c'.reply := alike c' made' c made call
  obtain ⟨-, rfl⟩ := decides.det decides' replied
  have core := Transition.next_core (same.trans same'.symm) next next'
  refine ⟨new, one, ?_⟩
  rw [standing]
  exact Execution.standing_of_core core

end Contest

/-- No cancel request is ever taken back. -/
theorem Reachable.asked_stays {σ : Cluster} (reachable : Reachable e σ) (fits : e.Fits)
    (x : String) : (σ.journal.history x).Pairwise fun later earlier =>
      earlier.cancelRequested = true → later.cancelRequested = true := by
  have consistent := reachable_consistent reachable fits
  by_cases present : σ.journal.history x = []
  · rw [present]
    exact .nil
  · obtain ⟨d, owned⟩ := consistent.lawful.ownedBy x present
    obtain ⟨calls, lineage⟩ := owned.lineage
    obtain ⟨row, inside⟩ := List.exists_mem_of_ne_nil _ present
    refine (lineage.follows (fits.of_definitionOf (owned.known row inside))).imp ?_
    intro later earlier follows
    exact follows.keeps_asked

/-- An advance that races with cancel requests alone does not give up and commits one row. But for
its bookkeeping, that is the row which the same advance commits without them; it has a cancel
request on it if the row first read had one or if one of the cancels that ended before returned
normally. And no cancel request is ever taken back. -/
theorem cancel_race_loses_nothing (fits : e.Fits) :
    (∀ x base i σ₀ σ, Contest e x base i σ₀ σ → ∀ task ∈ σ.tasks,
      task.actor = ⟨i, .advance x⟩ → ∀ r, task.result? = some r →
        ∃ advanced new, r = .ok (.advanced advanced) ∧ advanced ≠ .abandoned ∧
          (σ.journal.attempt ⟨i, .advance x⟩).written = [new] ∧ new ∈ σ.journal.history x ∧
          (∀ host : Host, (∀ c ∈ (σ.journal.attempt ⟨i, .advance x⟩).calls, ∀ j sagaType,
              host j (.call sagaType c.call) = c.reply) →
            ∃ alone, ((σ₀.finish host i).journal.attempt ⟨i, .advance x⟩).written = [alone] ∧
              new.standing = alone.standing) ∧
          ∀ σ' σ₁, Leads e σ₀ σ' → Step e σ' σ₁ → Leads e σ₁ σ →
            (σ'.journal.attempt ⟨i, .advance x⟩).written = [] →
            (σ₁.journal.attempt ⟨i, .advance x⟩).written = [new] →
            (∀ task ∈ σ'.tasks, task.actor.operation = .cancel x → task.result? ≠ none) →
            (new.cancelRequested = true ↔ base.cancelRequested = true ∨ ∃ task ∈ σ'.tasks,
              task.actor.operation = .cancel x ∧ task.result? = some (.ok .cancelled))) ∧
    ∀ σ x, Reachable e σ → (σ.journal.history x).Pairwise fun later earlier =>
      earlier.cancelRequested = true → later.cancelRequested = true := by
  constructor
  · intro x base i σ₀ σ contest task inside actor r result
    obtain ⟨d, known⟩ := contest.known fits
    have races := contest.races fits known
    have tells : Tells ⟨i, .advance x⟩ r σ.journal := by
      have ensures := (contest.reachable.leads contest.leads).ensures fits
        (fun me v => program_tells fits) (fun me => tells_stable fits) task inside
      have tells : Tells task.actor r σ.journal := Running.ends result ensures
      exact actor ▸ tells
    obtain ⟨⟨advanced, isAdvanced, stays⟩, written⟩ :=
      races.ends rfl tells contest.active fun c made _ => contest.classified c made
    obtain ⟨new, changed, old, t, one, stored, decides, next, same, standing⟩ := races.new written
    refine ⟨advanced, new, isAdvanced, stays, one, stored, ?_, ?_⟩
    · intro host replies
      obtain ⟨alone, written', alike⟩ :=
        contest.standing_alone fits known decides next same host replies
      exact ⟨alone, written', standing.trans alike⟩
    · intro σ' σ₁ before step after unwritten committed ended
      exact contest.stored_asked_iff fits before step unwritten committed ended
  · intro σ x reachable
    exact reachable.asked_stays fits x

namespace Sample

/-- An advance that has read its row and is about to call the step. -/
def reading : Cluster :=
  ((run busy [.start "order" Dictionary.empty, .advance "x"]).begin engine
    (.advance "x")).answers (host busy) 2 7

/-- A cancel that ran while the step was called. -/
def marked : Cluster := (reading.answers (host busy) 2 3).perform engine (host busy) (.cancel "x")

/-- The advance lost its first race and is about to commit its second try. -/
def committing : Cluster := marked.answers (host busy) 2 16

def raced : Cluster := (committing.answer (host busy) 2).answers (host busy) 2 2

theorem reading_reachable : Reachable engine reading :=
  (run_reachable _ _).leads ((begin_leads _).trans (answers_leads _ _ _))

theorem reading_committing : Leads engine reading committing :=
  (answers_leads _ _ _).trans ((perform_leads _ _).trans (answers_leads _ _ _))

theorem committing_cancelled : ∃ task ∈ committing.tasks, task.actor.operation = .cancel "x" ∧
    task.result? = some (.ok .cancelled) := by
  have ended : committing.tasks[3]?.map (fun task =>
      (task.actor.operation, task.result?.bind Except.toOption)) =
        some (.cancel "x", some .cancelled) := by decide +kernel
  obtain ⟨task, found, same⟩ := Option.map_eq_some_iff.1 ended
  obtain ⟨cancels, value⟩ := Prod.mk.inj same
  obtain ⟨r, result, isOk⟩ := Option.bind_eq_some_iff.1 value
  refine ⟨task, List.mem_of_getElem? found, cancels, result.trans ?_⟩
  cases r with
  | error failure => cases isOk
  | ok value =>
    cases isOk
    rfl

theorem reading_raced : Leads engine reading raced :=
  reading_committing.trans ((answer_leads _ _).trans (answers_leads _ _ _))

theorem raced_contest : ∃ base, Contest engine "x" base 2 reading raced := by
  have found : (reading.rows.get? "x").isSome = true := by decide +kernel
  obtain ⟨base, latest⟩ := Option.isSome_iff_exists.1 found
  have read : (reading.journal.attempt ⟨2, .advance "x"⟩) =
      { leased := true, held := some ⟨"lease", "x", "owner", 0⟩, base := reading.rows.get? "x" } := by
    decide +kernel
  have active : (reading.rows.get? "x").all (fun row => !row.status.isTerminal) = true := by
    decide +kernel
  have actor : reading.tasks[2]?.map (·.actor) = some ⟨2, .advance "x"⟩ := by decide +kernel
  have writers : ∀ ev ∈ raced.journal.take (raced.journal.length - reading.journal.length),
      ev.installed = [] ∨ ev.actor = ⟨2, .advance "x"⟩ ∨ ev.actor.operation = .cancel "x" := by
    decide +kernel
  obtain ⟨task, running, isActor⟩ := Option.map_eq_some_iff.1 actor
  refine ⟨base, reading_reachable, ⟨task, running, isActor⟩, ⟨_, latest ▸ read⟩, latest, ?_,
    reading_raced, ?_, by decide +kernel⟩
  · rw [latest] at active
    simpa using active
  · intro later ev earlier split _ row installed _
    have inside : ev ∈ raced.journal.take (raced.journal.length - reading.journal.length) := by
      have own : (later ++ ev :: earlier).length = raced.journal.length - reading.journal.length := by
        simp [split]
        omega
      rw [← own, split, ← List.cons_append, ← List.append_assoc, List.take_left]
      simp
    rcases writers ev inside with none | mine
    · rw [none] at installed
      cases installed
    · exact mine

end Sample

/-- A step that is busy while a cancel request is recorded: its attempt is counted, and the
request is kept. -/
theorem cancel_race_loses_nothing_busy :
    ∃ new alone, (Sample.raced.journal.attempt ⟨2, .advance "x"⟩).written = [new] ∧
      new.cancelRequested = true ∧
      ((Sample.reading.finish (Sample.host Sample.busy) 2).journal.attempt
        ⟨2, .advance "x"⟩).written = [alone] ∧ new.standing = alone.standing := by
  obtain ⟨base, contest⟩ := Sample.raced_contest
  have ended : (Sample.raced.tasks[2]?.bind Running.result?).isSome = true := by decide +kernel
  have actor : Sample.raced.tasks[2]?.map (·.actor) = some ⟨2, .advance "x"⟩ := by decide +kernel
  obtain ⟨r, isResult⟩ := Option.isSome_iff_exists.1 ended
  obtain ⟨task, found, result⟩ := Option.bind_eq_some_iff.1 isResult
  rw [found] at actor
  obtain ⟨advanced, new, -, -, written, -, alone, asked⟩ :=
    (cancel_race_loses_nothing Sample.engine_fits).1 "x" base 2 _ _ contest task
      (List.mem_of_getElem? found) (Option.some.inj actor) r result
  have replies : ∀ c ∈ (Sample.raced.journal.attempt ⟨2, .advance "x"⟩).calls,
      Sample.busy [] c.call = c.reply := by decide +kernel
  obtain ⟨row, one, standing⟩ := alone (Sample.host Sample.busy) fun c made _ _ => replies c made
  have running : (Sample.committing.tasks[2]?.map fun task => task.result?.isNone) = some true := by
    decide +kernel
  obtain ⟨waiting, isWaiting, unended⟩ := Option.map_eq_some_iff.1 running
  have step : Step Sample.engine Sample.committing
      (Sample.committing.answer (Sample.host Sample.busy) 2) :=
    Running.step _ isWaiting (by simpa using unended)
  have committed : ((Sample.committing.answer (Sample.host Sample.busy) 2).journal.attempt
      ⟨2, .advance "x"⟩).written = [new] := by
    rw [← written]
    decide +kernel
  have asked := asked Sample.committing _ Sample.reading_committing step (answers_leads _ _ _)
    (by decide +kernel) committed (by decide +kernel)
  exact ⟨new, row, written, asked.2 (.inr Sample.committing_cancelled), one, standing⟩

end

end SagaEngine
