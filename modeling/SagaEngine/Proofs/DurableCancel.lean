import Mathlib.Data.List.Chain
import SagaEngine.Proofs.CancelRace
/-!
# What a durable cancel request stops

Once a cancel request is on the row of an execution in its forward phase and nobody
still goes by a row without it, no step is called forward again: the execution turns
back at the step it stands at, for the reason that it was cancelled, and is
compensated only after every step below that one was undone. Main statements:
`Journal.Stopped.next` and `durable_cancel_stops_forward`.
-/

namespace SagaEngine

/-- Who holds the lease has read the execution in progress without a cancel request and has stored
nothing since: its forward call is in flight, from the read to the write. -/
structure Journal.CallsForward (j : Journal) (x : String) (me : Actor) (base : Execution) : Prop
    extends j.Holds x me where
  read : (j.attempt me).base = some base
  running : base.status = .inProgress
  unasked : base.cancelRequested = false
  unwritten : (j.attempt me).written = []

def Journal.InFlight (j : Journal) (x : String) : Prop := ∃ me base, j.CallsForward x me base

/-- How one committed row of a cancelled execution comes after another. -/
inductive Withdraws (old new : Execution) : Prop
  | begins (running : old.status = .started) (status : new.status = .inProgress)
      (index : new.stepIndex = old.stepIndex)
  | turns (running : old.status = .inProgress) (status : new.status = .compensating)
      (index : new.stepIndex = old.stepIndex - 1) (reason : new.failureReason = "cancelled")
      (noStep : new.failedStep = "")
  | undoes (running : old.status = .compensating)
      (status : new.status = .compensating ∨ new.status = .compensated ∨ new.status = .failed)
      (reason : new.failureReason = old.failureReason) (step : new.failedStep = old.failedStep)

/-- Where an execution stands that turns back at an index, given the calls since. -/
def Position.TurnsBack (p : Position) (top : Int) (marks : List CallMark) : Prop :=
  match p.status with
  | .started => p.index = top
  | .inProgress => p.index = top
  | .completed => False
  | .failed => True
  | _ => p.index < top ∧ ∀ i, p.index < i → i < top → ⟨.compensate, i, .ok⟩ ∈ marks

section

variable {d : SagaDefinition} {old base changed row : Execution} {made calls : List CallMade}
  {rows : List Execution} {t : Transition} {steps budget : Nat} {cancelSeen : Bool}
  {p q : Position} {marks marks' new : List CallMark} {top : Int}

/-! ## One more move -/

theorem Position.TurnsBack.mono (turns : p.TurnsBack top marks) (more : marks ⊆ marks') :
    p.TurnsBack top marks' := by
  obtain ⟨status, index, retries⟩ := p
  cases status with
  | compensating | compensated => exact ⟨turns.1, fun i above below => more (turns.2 i above below)⟩
  | _ => exact turns

/-- A move that calls no step forward keeps an execution on its way back. -/
theorem Move.turnsBack (move : Move steps budget cancelSeen p new q)
    (place : p.InPlace steps budget) (backward : ∀ m ∈ new, m.phase = .compensate)
    (called : new ⊆ marks) (turns : p.TurnsBack top marks) : q.TurnsBack top marks := by
  have undone {index next : Int} (within : index < top ∧ ∀ i, index < i → i < top →
      ⟨.compensate, i, .ok⟩ ∈ marks) (here : ⟨.compensate, index, .ok⟩ ∈ marks)
      (down : next = index - 1) :
      next < top ∧ ∀ i, next < i → i < top → ⟨.compensate, i, .ok⟩ ∈ marks := by
    refine ⟨by omega, ?_⟩
    intro i above below
    by_cases same : i = index
    · exact same ▸ here
    · exact within.2 i (by omega) below
  cases move with
  | begun index retries => exact turns
  | cancelled index retries seen =>
    have here : index = top := turns
    exact ⟨by show index - 1 < top; omega, fun i (above : index - 1 < i) below => by omega⟩
  | stepped | completed | turned => exact nomatch backward _ List.mem_cons_self
  | repeated phase index retries left =>
    cases phase with
    | execute => exact nomatch backward _ List.mem_cons_self
    | compensate => exact turns
  | undone index retries more => exact undone turns (called List.mem_cons_self) rfl
  | compensated index retries last => exact undone turns (called List.mem_cons_self) rfl
  | nothingLeft index retries below =>
    have low : -1 ≤ index := place.1
    obtain rfl : index = -1 := by omega
    exact turns
  | gaveUp => trivial

theorem Move.backward (move : Move steps budget cancelSeen p new q)
    (status : p.status = .compensating) :
    q.status = .compensating ∨ q.status = .compensated ∨ q.status = .failed := by
  cases move with
  | repeated phase => exact .inl status
  | undone => exact .inl rfl
  | compensated | nothingLeft => exact .inr (.inl rfl)
  | gaveUp => exact .inr (.inr rfl)
  | _ => cases status

theorem Move.forward (move : Move steps budget cancelSeen p new q)
    (status : q.status = .started ∨ q.status = .inProgress) :
    p.status = .started ∨ p.status = .inProgress := by
  cases move with
  | begun => exact .inl rfl
  | stepped => exact .inr rfl
  | repeated phase => exact status
  | _ => rcases status with status | status <;> cases status

theorem Position.rank_lt_of_backward (active : p.status = .started ∨ p.status = .inProgress)
    (place : p.InPlace steps budget) (backward : q.status = .compensating) :
    p.rank steps budget < q.rank steps budget := by
  obtain ⟨status, index, retries⟩ := p
  obtain ⟨status', index', retries'⟩ := q
  cases backward
  rcases active with rfl | rfl
  · simp only [Position.rank]
    omega
  · have room := Position.forward_lt place
    simp only [Position.rank]
    omega

/-! ## What a transition says about the failure -/

theorem Transition.failedStep_of_next (next : t.next old = .ok changed)
    (forward : changed.status = .started ∨ changed.status = .inProgress) :
    changed.failedStep = old.failedStep := by
  have applied := apply_of_next next
  cases t with
  | stepDone fragment | stepUndone fragment =>
    rw [Transition.apply] at applied
    cases merged : Transition.mergedBlob old.context fragment <;> rw [merged] at applied <;>
      cases applied
    rfl
  | budgetSpent | rejected =>
    cases applied
    rcases forward with status | status <;> cases status
  | _ =>
    cases applied
    rfl

/-- Before it turns back, an execution has no failed step. -/
theorem Lineage.blameless (lineage : Lineage d rows calls) (fits : d.Fits) :
    ∀ row ∈ rows.head?, row.status = .started ∨ row.status = .inProgress → row.failedStep = "" := by
  induction lineage with
  | created =>
    rintro row ⟨⟩ -
    rfl
  | @cancelled old earlier calls now before active unasked ih =>
    rintro row ⟨⟩
    exact ih old rfl
  | @decided old base changed earlier calls made t now before read same decides next ih =>
    rintro row ⟨⟩ (forward : changed.status = .started ∨ changed.status = .inProgress)
    have formed := before.wellFormed fits
    have stores := decides.stores_of_next fits (formed _ List.mem_cons_self) (formed _ read)
      same next
    exact (Transition.failedStep_of_next next forward).trans (ih old rfl (stores.move.forward forward))

theorem afterCompensate_keeps {step : String} {result : StepResult}
    (next : (afterCompensate d base step result).next old = .ok changed) :
    changed.failureReason = old.failureReason ∧ changed.failedStep = old.failedStep := by
  have applied := apply_of_next next
  rw [afterCompensate] at applied
  split at applied
  · rw [Transition.apply] at applied
    cases merged : Transition.mergedBlob old.context result.fragment <;> rw [merged] at applied <;>
      cases applied
    exact ⟨rfl, rfl⟩
  split at applied <;> cases applied <;> exact ⟨rfl, rfl⟩

/-- A decision that calls no step forward withdraws the execution. -/
theorem Decides.withdraws (decides : Decides d base made t) (fits : d.Fits)
    (formed : WellFormed d old) (stores : Stores d cancelSeen old made t changed)
    (same : base.progress = old.progress)
    (stopped : ¬(base.status = .inProgress ∧ base.cancelRequested = false))
    (blameless : old.status = .inProgress → old.failedStep = "") : Withdraws old changed := by
  have fields := same
  simp only [Execution.progress, Execution.Progress.mk.injEq] at fields
  obtain ⟨status', index, -, -⟩ := fields
  have place := formed.place
  have applied := apply_of_next stores.next
  cases decides with
  | begin status =>
    cases applied
    exact .begins (status'.symm.trans status) rfl rfl
  | cancel status requested =>
    have running := status'.symm.trans status
    simp only [Execution.position, running, Position.InPlace] at place
    have room := fits.steps
    have down : wrapSigned32 (old.stepIndex - 1) = old.stepIndex - 1 :=
      wrapSigned32_of_inRange (by omega) (by omega)
    cases applied
    exact .turns running rfl down rfl (blameless running)
  | complete status requested | execute status requested =>
    exact absurd ⟨status, requested⟩ stopped
  | finish status =>
    cases applied
    exact .undoes (status'.symm.trans status) (.inr (.inl rfl)) rfl rfl
  | compensate status =>
    have running := status'.symm.trans status
    obtain ⟨reason, step⟩ := afterCompensate_keeps stores.next
    exact .undoes running (stores.move.backward running) reason step

theorem Withdraws.stored (withdraws : Withdraws old changed) (now : Nat) :
    Withdraws old ((changed.stamped now).replacing old) := by
  cases withdraws with
  | begins running status index => exact .begins running status index
  | turns running status index reason noStep => exact .turns running status index reason noStep
  | undoes running status reason step => exact .undoes running status reason step

theorem AsksFor.backward {call : StepCall} (asks : AsksFor d base call)
    (stopped : ¬(base.status = .inProgress ∧ base.cancelRequested = false)) :
    base.status = .compensating ∧ call.phase = .compensate := by
  cases asks with
  | execute status requested => exact absurd ⟨status, requested⟩ stopped
  | compensate status => exact ⟨status, rfl⟩

end

/-! ## A journal without a forward call in flight -/

section

variable {e : Engine} {j newer : Journal} {ev : Event} {me : Actor} {x : String}
  {d : SagaDefinition} {row base : Execution} {older : List Execution} {c : CallMade}

theorem not_inFlight_of_free (free : ∀ ev ∈ j, (j.attempt ev.actor).held = none) :
    ¬j.InFlight x := by
  rintro ⟨me, base, calls⟩
  by_cases occurs : ∃ ev ∈ j, ev.actor = me
  · obtain ⟨ev, inside, rfl⟩ := occurs
    exact calls.held (free ev inside)
  · exact calls.held (held_of_stranger fun ev inside same => occurs ⟨ev, inside, same⟩)

/-- As long as the latest row has a cancel request, no further forward call comes in flight. -/
theorem Permitted.inFlight (permitted : Permitted e j ev)
    (asked : ∀ row, j.record x = some row → row.cancelRequested = true)
    (inFlight : Journal.InFlight (ev :: j) x) : j.InFlight x := by
  obtain ⟨me, base, calls⟩ := inFlight
  rcases permitted.read calls.driven calls.read calls.unwritten with found | ⟨read, unwritten⟩
  · have unasked := calls.unasked
    rw [asked base found] at unasked
    cases unasked
  · rcases permitted.holds calls.toHolds with ⟨lease, rfl⟩ | holds
    · have nothing := calls.read
      rw [attempt_self] at nothing
      cases nothing
    · exact ⟨me, base, holds, read, calls.running, calls.unasked, unwritten⟩

theorem Journal.calls_append (x : String) (newer j : Journal) :
    Journal.calls x (newer ++ j) = Journal.calls x j ++ Journal.calls x newer := by
  induction newer with
  | nil => exact (List.append_nil _).symm
  | cons ev newer ih => rw [List.cons_append, Journal.calls, Journal.calls, ih, List.append_assoc]

/-- An owner that goes by a row on its way back has called its step after every time at which the
latest row was still on its way forward. -/
theorem CalledOn.recent (called : CalledOn me x (newer ++ j) c) (lawful : Lawful e (newer ++ j))
    (fits : e.Fits) (driven : me.operation.driven? = some x) (found : j.record x = some row)
    (active : row.status = .started ∨ row.status = .inProgress)
    (read : (Journal.attempt me (newer ++ j)).base = some base)
    (backward : base.status = .compensating) : c ∈ Journal.calls x newer := by
  obtain ⟨k, later, ev, split, is, about, kept, -⟩ := called
  have within : k <:+ newer ++ j := split ▸ (List.suffix_cons ev k).trans (List.suffix_append _ _)
  rcases List.suffix_or_suffix_of_suffix within (List.suffix_append newer j) with early | late
  · have inside := (lawful.suffix within).base_mem (Operation.target?_of_driven? driven)
      (kept.trans read)
    have inside := (history_suffix x early).subset inside
    obtain ⟨d, owned⟩ :=
      (lawful.suffix (List.suffix_append newer j)).ownedBy x (List.ne_nil_of_mem inside)
    have small := fits.of_definitionOf (owned.known base inside)
    have formed := owned.wellFormed small (mem_history_of_record found)
    have below : row.rank d < base.rank d :=
      Position.rank_lt_of_backward active formed.place backward
    rcases owned.record_follows small inside found with rfl | follows
    · omega
    · have := follows.rank_le
      omega
  · obtain ⟨between, rfl⟩ := late
    have own : newer = later ++ ev :: between := by
      apply (List.append_left_inj j).1
      rw [split, List.append_assoc, List.cons_append]
    rw [own, Journal.calls_append x later (ev :: between), calls_cons_call is about]
    simp

theorem not_callsForward (settled : ¬j.InFlight x) (holds : j.Holds x me)
    (read : (j.attempt me).base = some base) (unwritten : (j.attempt me).written = []) :
    ¬(base.status = .inProgress ∧ base.cancelRequested = false) :=
  fun ⟨running, unasked⟩ => settled ⟨me, base, holds, read, running, unasked, unwritten⟩

/-- Nobody calls a step forward without being in flight. -/
theorem Permitted.backward (permitted : Permitted e j ev) (lawful : Lawful e j)
    (settled : ¬j.InFlight x) (is : ev.call? = some c) (about : c.call.executionId = x) :
    c.call.phase = .compensate := by
  obtain ⟨holds, -, unwritten, base, d, read, -, asks⟩ := permitted.of_call lawful is about
  exact (asks.backward (not_callsForward settled holds read unwritten)).2

/-- What an owner has called on its way back was called since the latest row was on its way
forward. -/
theorem Lawful.calls_recent (lawful : Lawful e (newer ++ j)) (fits : e.Fits)
    (driven : me.operation.driven? = some x) (found : j.record x = some row)
    (active : row.status = .started ∨ row.status = .inProgress)
    (read : (Journal.attempt me (newer ++ j)).base = some base)
    (stopped : ¬(base.status = .inProgress ∧ base.cancelRequested = false)) :
    (Journal.attempt me (newer ++ j)).calls ⊆ Journal.calls x newer := by
  rcases lawful.calledOn driven with none | ⟨c, one, called⟩
  · rw [none]
    exact List.nil_subset _
  · rw [one, List.cons_subset]
    refine ⟨?_, List.nil_subset _⟩
    have ⟨_, _, _, _, _, _, _, base', d, read', asks⟩ := called
    obtain rfl : base = base' := Option.some.inj (read.symm.trans read')
    exact called.recent lawful fits driven found active read (asks.backward stopped).1

/-! ## What the journal shows since -/

/-- What the journal shows of a cancelled execution, since its latest row was the given one and no
forward call was in flight. -/
structure Journal.Stopped (j newer : Journal) (x : String) (row : Execution) : Prop where
  settled : ¬Journal.InFlight (newer ++ j) x
  backward : ∀ c ∈ Journal.calls x newer, c.call.phase = .compensate
  rows : ∃ later older, j.history x = row :: older ∧
    Journal.history x (newer ++ j) = later ++ row :: older ∧
    (later ++ [row]).IsChain (fun new old => Withdraws old new) ∧
    ∀ latest ∈ (later ++ [row]).head?, latest.position.TurnsBack row.stepIndex
      ((Journal.calls x newer).map CallMade.mark)

theorem Journal.Stopped.next (stopped : j.Stopped newer x row) (lawful : Lawful e (newer ++ j))
    (permitted : Permitted e (newer ++ j) ev) (fits : e.Fits)
    (active : row.status = .started ∨ row.status = .inProgress)
    (asked : row.cancelRequested = true) : j.Stopped (ev :: newer) x row := by
  obtain ⟨settled, backward, later, older, before, history, chain, turns⟩ := stopped
  obtain ⟨latest, rest, split⟩ : ∃ latest rest, later ++ [row] = latest :: rest := by
    cases later <;> exact ⟨_, _, rfl⟩
  have turns := turns latest (by rw [split]; rfl)
  have history' : Journal.history x (newer ++ j) = latest :: (rest ++ older) := by
    rw [history, ← List.singleton_append, ← List.append_assoc, split, List.cons_append]
  have inside : row ∈ Journal.history x (newer ++ j) := by simp [history]
  obtain ⟨d, owned⟩ := lawful.ownedBy x (List.ne_nil_of_mem inside)
  have small := fits.of_definitionOf (owned.known row inside)
  have found : Journal.record (newer ++ j) x = some latest := by
    rw [record_eq_head?, history']
    rfl
  have askedLatest := owned.record_asked small inside asked found
  have more : Journal.calls x newer ⊆ Journal.calls x (ev :: newer) := List.subset_append_left _ _
  have settled' : ¬Journal.InFlight (ev :: newer ++ j) x := by
    intro inFlight
    refine settled (permitted.inFlight (fun row found' => ?_) inFlight)
    exact Option.some.inj (found.symm.trans found') ▸ askedLatest
  have backward' : ∀ c ∈ Journal.calls x (ev :: newer), c.call.phase = .compensate := by
    intro c made
    rcases List.mem_append.1 made with old | new
    · exact backward c old
    · obtain ⟨is, about⟩ := List.mem_filter.1 new
      exact permitted.backward lawful settled (Option.mem_toList.1 is) (of_decide_eq_true about)
  cases permitted.extends lawful x with
  | unchanged _ same _ =>
    refine ⟨settled', backward', later, older, before, same.trans history, chain, ?_⟩
    intro latest' isHead
    rw [split] at isHead
    cases isHead
    exact turns.mono (List.map_subset _ more)
  | created me tx sagaType context d now starts known free =>
    rw [free] at inside
    cases inside
  | cancelled me tx old earlier now cancels before' active' unasked =>
    rw [history'] at before'
    cases before'
    rw [askedLatest] at unasked
    cases unasked
  | decided me tx lease old earlier base changed d' t now driven held read unwritten before' inside'
      known decides same next extended =>
    rw [history'] at before'
    cases before'
    have base_mem : base ∈ Journal.history x (newer ++ j) := history' ▸ inside'
    obtain rfl : d' = d := Except.ok.inj (known.symm.trans (owned.known base base_mem))
    have formed := owned.wellFormed small (mem_history_of_record found)
    have stores := decides.stores_of_next small formed (owned.wellFormed small base_mem) same next
    have stopped := not_callsForward settled ⟨driven, by simp [held]⟩ read unwritten
    have started : j.record x = some row := by
      rw [record_eq_head?, before]
      rfl
    have called := lawful.calls_recent fits driven started active read stopped
    refine ⟨settled', backward', (changed.stamped now).replacing latest :: later, older, before,
      ?_, ?_, ?_⟩
    · exact extended.trans (congrArg (_ :: ·) (history'.symm.trans history))
    · rw [List.cons_append, split]
      rw [split] at chain
      obtain ⟨calls, lineage⟩ := owned.lineage
      rw [history'] at lineage
      have withdraws := decides.withdraws small formed stores same stopped
        fun running => lineage.blameless small latest rfl (.inr running)
      exact List.isChain_cons_cons.2 ⟨withdraws.stored now, chain⟩
    · rintro _ ⟨⟩
      apply stores.move.turnsBack formed.place _ _ (turns.mono (List.map_subset _ more))
      · intro m isMark
        obtain ⟨c, made, rfl⟩ := List.mem_map.1 isMark
        exact backward c (called made)
      · exact List.map_subset _ (List.Subset.trans called more)

theorem Lawful.stopped (lawful : Lawful e (newer ++ j)) (fits : e.Fits)
    (found : j.record x = some row) (active : row.status = .started ∨ row.status = .inProgress)
    (asked : row.cancelRequested = true) (settled : ¬j.InFlight x) : j.Stopped newer x row := by
  induction newer with
  | nil =>
    obtain ⟨older, history⟩ := history_eq_cons_of_record found
    refine ⟨settled, (fun c made => nomatch made), [], older, history, history,
      List.isChain_singleton row, ?_⟩
    rintro _ ⟨⟩
    rcases active with status | status <;>
      simp only [Position.TurnsBack, Execution.position, status]
  | cons ev newer ih =>
    cases lawful with
    | next before permitted => exact (ih before).next before permitted fits active asked

/-- A durable cancel request stops the forward phase of an execution that has no forward call in
flight, whatever operations run on from there and however the steps reply. -/
theorem durable_cancel_stops_forward {σ σ' : Cluster} (fits : e.Fits) (reachable : Reachable e σ)
    (latest : σ.rows.get? x = some row)
    (active : row.status = .started ∨ row.status = .inProgress)
    (asked : row.cancelRequested = true) (settled : ¬σ.journal.InFlight x)
    (leads : Leads e σ σ') :
    ∃ newer later older row', σ'.journal = newer ++ σ.journal ∧
      σ.journal.history x = row :: older ∧ σ'.journal.history x = later ++ row :: older ∧
      (∀ c ∈ Journal.calls x newer, c.call.phase = .compensate) ∧
      (later ++ [row]).IsChain (fun new old => Withdraws old new) ∧
      σ'.rows.get? x = some row' ∧ row'.status ≠ .completed ∧
      (row'.status.isTerminal = true → row'.status = .compensated ∨ row'.status = .failed) ∧
      (row'.status = .compensated → ∀ i, 0 ≤ i → i < row.stepIndex →
        ∃ c ∈ Journal.calls x newer, c.mark = ⟨.compensate, i, .ok⟩) := by
  have start := reachable_consistent reachable fits
  have consistent := reachable_consistent (reachable.leads leads) fits
  have lawful := consistent.lawful
  have found : σ.journal.record x = some row := by
    rw [← latest, start.rows]
    rfl
  obtain ⟨newer, journal⟩ := leads.journal
  rw [← journal] at lawful
  obtain ⟨-, backward, later, older, before, history, chain, turns⟩ :=
    lawful.stopped fits found active asked settled
  obtain ⟨row', rest, split⟩ : ∃ row' rest, later ++ [row] = row' :: rest := by
    cases later <;> exact ⟨_, _, rfl⟩
  have turns := turns row' (by rw [split]; rfl)
  have found' : Journal.record (newer ++ σ.journal) x = some row' := by
    rw [record_eq_head?, history, ← List.singleton_append, ← List.append_assoc, split]
    rfl
  have unfinished : row'.status ≠ .completed := by
    intro completed
    simp only [Position.TurnsBack, Execution.position, completed] at turns
  refine ⟨newer, later, older, row', journal.symm, before, journal ▸ history, backward, chain, ?_,
    unfinished, ?_, ?_⟩
  · rw [consistent.rows, ← journal]
    exact found'
  · intro terminal
    cases status : row'.status with
    | compensated => exact .inl rfl
    | failed => exact .inr rfl
    | completed => exact absurd status unfinished
    | _ =>
      rw [status] at terminal
      cases terminal
  · intro compensated i low below
    obtain ⟨d, owned⟩ := lawful.ownedBy x (List.ne_nil_of_mem (mem_history_of_record found'))
    have inside := mem_history_of_record found'
    have place := (owned.wellFormed (fits.of_definitionOf (owned.known row' inside)) inside).place
    simp only [Position.InPlace, Position.TurnsBack, Execution.position, compensated] at turns place
    obtain ⟨c, made, mark⟩ := List.mem_map.1 (turns.2 i (by omega) below)
    exact ⟨c, made, mark⟩

namespace Sample

/-- An engine with a definition of two steps. -/
def pair : Engine where
  registry :=
    { definitions := Dictionary.empty.insert "order"
        { sagaType := "order", steps := ["reserve", "charge"], retry := { maxAttempts := 2 }
          steps_ne_nil := List.cons_ne_nil _ _
          attempts_pos := Nat.succ_pos 1 }
      frozen := true }
  patience := Engine.defaultPatience
  frozen := rfl

theorem pair_fits : pair.Fits := .of_single ⟨by decide, by decide⟩ rfl

/-- Steps that succeed. -/
def willing (_ : Journal) (_ : StepCall) : StepReply := .returned .ok

/-- The second step is next when a cancel request is recorded. -/
def between : Cluster :=
  [.start "order" Dictionary.empty, .advance "x", .advance "x", .cancel "x"].foldl
    (Cluster.perform pair (host willing)) {}

theorem between_reachable : Reachable pair between := performs_reachable _ _

end Sample

/-- A cancel request between two steps: the first one is undone. -/
theorem durable_cancel_stops_forward_between :
    ∃ newer, (Sample.between.perform Sample.pair (Sample.host Sample.willing)
        (.drive "x")).journal = newer ++ Sample.between.journal ∧
      (∀ c ∈ Journal.calls "x" newer, c.call.phase = .compensate) ∧
      ∃ c ∈ Journal.calls "x" newer, c.mark = ⟨.compensate, 0, .ok⟩ := by
  have stands : (Sample.between.rows.get? "x").map (fun row =>
      (row.status, row.stepIndex, row.cancelRequested)) = some (.inProgress, 1, true) := by
    decide +kernel
  obtain ⟨row, latest, stands⟩ := Option.map_eq_some_iff.1 stands
  simp only [Prod.mk.injEq] at stands
  obtain ⟨running, index, asked⟩ := stands
  have free : ∀ ev ∈ Sample.between.journal,
      (Sample.between.journal.attempt ev.actor).held = none := by decide +kernel
  have ends : ((Sample.between.perform Sample.pair (Sample.host Sample.willing)
      (.drive "x")).rows.get? "x").map (·.status) = some .compensated := by decide +kernel
  obtain ⟨newer, _, _, row', journal, -, -, backward, -, found, -, -, undone⟩ :=
    durable_cancel_stops_forward Sample.pair_fits Sample.between_reachable latest (.inr running)
      asked (not_inFlight_of_free free) (perform_leads (Sample.host Sample.willing) (.drive "x"))
  rw [found] at ends
  exact ⟨newer, journal, backward,
    undone (Option.some.inj ends) 0 (by decide) (by rw [index]; decide)⟩

end

end SagaEngine
