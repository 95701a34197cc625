import SagaEngine.Proofs.Compensation
import SagaEngine.Proofs.RecordInvariant
/-!
# What the rejected flag tells

An undo is told that the last forward call of its step was turned down. The engine
keeps this under a reserved key of the context, which the start of an execution and
the fragments of its steps may bind too. The flag is right unless the last one to
bind the key was one of them and its text is the index of the step. Main
statements: `Lineage.marking` and `rejected_flag_truthful_iff`.
-/

namespace SagaEngine

/-- Who bound the reserved key last: the engine, for a step that was turned down, or somebody
else, to any text. -/
inductive Marker where
  | engine (index : Int)
  | caller (text : String)
  deriving DecidableEq, Repr

namespace Marker

def text : Marker → String
  | engine index => toString index
  | caller text => text

def ofCaller (values : Context) : Option Marker :=
  (values.get? Context.rejectedStepKey).map .caller

/-- The marker after a call came back. -/
def next (marker : Option Marker) (c : CallMade) : Option Marker :=
  match c.reply.result.outcome, c.call.phase with
  | .ok, _ => (ofCaller c.reply.result.fragment).or marker
  | .terminal, .execute => some (.engine c.call.index)
  | _, _ => marker

/-- The marker of an execution that was started with a context, after some calls. -/
def ofCalls (context : Context) (calls : List CallMade) : Option Marker :=
  calls.foldl next (ofCaller context)

end Marker

/-- The step at an index was turned down, and it was not called forward later. -/
def RejectedIn (marks : List CallMark) (i : Int) : Prop :=
  ∃ before after, marks = before ++ ⟨.execute, i, .terminal⟩ :: after ∧ ¬ExecutedIn after i

/-- The last one to bind the reserved key was not the engine, and the text is the index of a
step. -/
def Forged (context : Context) (calls : List CallMade) (i : Int) : Prop :=
  Marker.ofCalls context calls = some (.caller (toString i))

instance (context : Context) (calls : List CallMade) (i : Int) :
    Decidable (Forged context calls i) :=
  inferInstanceAs (Decidable (_ = _))

/-- The context that an operation starts an execution with. -/
def Operation.seed? : Operation → Option Context
  | start _ context => some context
  | _ => none

/-- The context that an execution was started with. -/
def Journal.StartedFrom (j : Journal) (x : String) (context : Context) : Prop :=
  ∃ ev ∈ j, ev.actor.operation.seed? = some context ∧ ∃ first ∈ ev.installed, first.id = x

instance (j : Journal) (x : String) (context : Context) : Decidable (j.StartedFrom x context) :=
  inferInstanceAs (Decidable (∃ ev ∈ j, _ ∧ _))

/-- What is stored under the reserved key is the text of a marker. -/
def Execution.Shows (row : Execution) (marker : Option Marker) : Prop :=
  ∃ values : Context, row.context = values.toBlob ∧
    values.get? Context.rejectedStepKey = marker.map Marker.text

/-- What the marker has to do with where an execution stands: the engine marks a step only if it
was turned down, and until the walk back leaves that step the mark stays. -/
def Position.Marks (p : Position) (marks : List CallMark) (marker : Option Marker) : Prop :=
  match p.status with
  | .started => (∀ i, marker ≠ some (.engine i)) ∧ ∀ i, ¬RejectedIn marks i
  | .inProgress => (∀ i, marker ≠ some (.engine i)) ∧ ∀ i, ¬RejectedIn marks i
  | .compensating => (∀ i, marker = some (.engine i) → RejectedIn marks i) ∧
      ∀ i, RejectedIn marks i → p.index ≤ i ∧ (i = p.index → marker = some (.engine i))
  | _ => True

section

variable {d : SagaDefinition} {row base changed : Execution} {rows : List Execution}
  {marks : List CallMark} {m : CallMark} {marker : Option Marker} {c : CallMade}
  {calls made before after : List CallMade} {t : Transition} {context values : Context} {i : Int}

/-! ## One more call -/

theorem rejected_concat : RejectedIn (marks ++ [m]) i ↔
    m = ⟨.execute, i, .terminal⟩ ∨ RejectedIn marks i ∧ ¬(m.phase = .execute ∧ m.index = i) :=
  last_concat

theorem RejectedIn.mem (rejected : RejectedIn marks i) : ⟨.execute, i, .terminal⟩ ∈ marks := by
  obtain ⟨before, after, rfl, -⟩ := rejected
  simp

theorem not_rejected_concat (none : ¬RejectedIn marks i) (other : m.outcome ≠ .terminal) :
    ¬RejectedIn (marks ++ [m]) i := by
  rw [rejected_concat]
  rintro (rfl | ⟨rejected, -⟩)
  · exact other rfl
  · exact none rejected

theorem rejected_concat_undo {outcome : Outcome} {index : Int} :
    RejectedIn (marks ++ [⟨.compensate, index, outcome⟩]) i ↔ RejectedIn marks i := by
  simp [rejected_concat]

namespace Marker

theorem ofCaller_ne_engine (values : Context) (i : Int) : ofCaller values ≠ some (.engine i) := by
  simp [ofCaller]

theorem text_ofCaller (values : Context) :
    (ofCaller values).map text = values.get? Context.rejectedStepKey := by
  cases bound : values.get? Context.rejectedStepKey <;> simp [ofCaller, bound, text]

theorem ofCalls_concat :
    ofCalls context (calls ++ made) = made.foldl next (ofCalls context calls) :=
  List.foldl_append

theorem next_ok (ok : c.reply.result.outcome = .ok) :
    Marker.next marker c = (ofCaller c.reply.result.fragment).or marker := by
  simp only [Marker.next, ok]

theorem next_rejected (phase : c.call.phase = .execute)
    (terminal : c.reply.result.outcome = .terminal) :
    Marker.next marker c = some (.engine c.call.index) := by
  simp only [Marker.next, phase, terminal]

theorem next_retryable (retryable : c.reply.result.outcome = .retryable) :
    Marker.next marker c = marker := by
  simp only [Marker.next, retryable]

/-- A success never binds the key as the engine does. -/
theorem engine_of_ok (ok : c.reply.result.outcome = .ok)
    (is : Marker.next marker c = some (.engine i)) : marker = some (.engine i) := by
  rw [next_ok ok, Option.or_eq_some_iff] at is
  rcases is with caller | ⟨-, kept⟩
  · exact absurd caller (ofCaller_ne_engine _ i)
  · exact kept

end Marker

/-- Every move keeps what the marker has to do with where an execution stands. -/
theorem Move.marking {steps budget : Nat} {cancelSeen : Bool} {p q : Position} {new : List CallMark}
    (move : Move steps budget cancelSeen p new q) (is : made.map CallMade.mark = new)
    (kept : p.Marks marks marker) : q.Marks (marks ++ new) (made.foldl Marker.next marker) := by
  cases move with
  | begun index retries =>
    cases List.map_eq_nil_iff.1 is
    rw [List.append_nil]
    exact kept
  | cancelled index retries seen =>
    cases List.map_eq_nil_iff.1 is
    rw [List.append_nil]
    obtain ⟨notEngine, none⟩ := kept
    exact ⟨fun i is => absurd is (notEngine i), fun i rejected => absurd rejected (none i)⟩
  | stepped index retries more =>
    obtain ⟨c, rfl, mark⟩ := List.map_eq_singleton_iff.1 is
    obtain ⟨notEngine, none⟩ := kept
    exact ⟨fun i is => notEngine i (Marker.engine_of_ok (congrArg CallMark.outcome mark) is),
      fun i => not_rejected_concat (none i) (by simp)⟩
  | repeated phase index retries left =>
    obtain ⟨c, rfl, mark⟩ := List.map_eq_singleton_iff.1 is
    rw [List.foldl_cons, Marker.next_retryable (congrArg CallMark.outcome mark)]
    cases phase with
    | execute =>
      obtain ⟨notEngine, none⟩ := kept
      exact ⟨notEngine, fun i => not_rejected_concat (none i) (by simp)⟩
    | compensate =>
      obtain ⟨sound, complete⟩ := kept
      exact ⟨fun i is => rejected_concat_undo.2 (sound i is),
        fun i rejected => complete i (rejected_concat_undo.1 rejected)⟩
  | turned index retries outcome final =>
    obtain ⟨c, rfl, mark⟩ := List.map_eq_singleton_iff.1 is
    obtain ⟨notEngine, none⟩ := kept
    rw [List.foldl_cons, List.foldl_nil]
    rcases final with rfl | ⟨rfl, -⟩
    · -- The step at the index is the only one that was turned down, and the engine marks it.
      have index' : c.call.index = index := congrArg CallMark.index mark
      rw [Marker.next_rejected (congrArg CallMark.phase mark) (congrArg CallMark.outcome mark),
        index']
      constructor
      · intro i is
        cases is
        exact rejected_concat.2 (.inl rfl)
      · intro i rejected
        rcases rejected_concat.1 rejected with same | ⟨rejected, -⟩
        · cases same
          exact ⟨Int.le_refl _, fun _ => rfl⟩
        · exact absurd rejected (none i)
    · rw [Marker.next_retryable (congrArg CallMark.outcome mark)]
      exact ⟨fun i is => absurd is (notEngine i),
        fun i rejected => absurd rejected (not_rejected_concat (none i) (by simp))⟩
  | undone index retries more =>
    obtain ⟨c, rfl, mark⟩ := List.map_eq_singleton_iff.1 is
    obtain ⟨sound, complete⟩ := kept
    constructor
    · intro i is
      exact rejected_concat_undo.2
        (sound i (Marker.engine_of_ok (congrArg CallMark.outcome mark) is))
    · intro i rejected
      have above : index ≤ i := (complete i (rejected_concat_undo.1 rejected)).1
      refine ⟨by show index - 1 ≤ i; omega, ?_⟩
      intro (here : i = index - 1)
      omega
  | completed | compensated | nothingLeft | gaveUp => trivial

/-! ## What is stored -/

/-- The values after a transition on a row that stands at an index. -/
def Transition.newValues (t : Transition) (index : Int) (values : Context) : Context :=
  match t with
  | .stepDone fragment => values.mergeFragment fragment
  | .stepUndone fragment => values.mergeFragment fragment
  | .rejected .. => values.markRejected index
  | _ => values

theorem Transition.context_of_next (next : t.next row = .ok changed)
    (readable : row.context = values.toBlob) :
    changed.context = (t.newValues row.stepIndex values).toBlob := by
  have applied := apply_of_next next
  cases t with
  | stepDone fragment | stepUndone fragment =>
    rw [Transition.apply, readable, mergedBlob_toBlob] at applied
    cases applied
    rfl
  | rejected step message =>
    cases applied
    exact readable ▸ markedBlob_toBlob values row.stepIndex
  | _ =>
    cases applied
    exact readable

theorem Execution.Shows.merged (shown : values.get? Context.rejectedStepKey = marker.map Marker.text)
    (ok : c.reply.result.outcome = .ok) :
    (values.mergeFragment c.reply.result.fragment).get? Context.rejectedStepKey =
      (Marker.next marker c).map Marker.text := by
  rw [Context.mergeFragment, Dictionary.get?_merge, Marker.next_ok ok, Option.map_or,
    Marker.text_ofCaller, shown]

/-- A decision stores the text of the marker after the calls that led to it. -/
theorem Decides.shows_marker (decides : Decides d base made t)
    (same : base.progress = row.progress) (next : t.next row = .ok changed)
    (unfinished : changed.status.isTerminal = false) (shown : row.Shows marker) :
    changed.Shows (made.foldl Marker.next marker) := by
  obtain ⟨values, readable, shown⟩ := shown
  have index : base.stepIndex = row.stepIndex := congrArg Execution.Progress.stepIndex same
  refine ⟨t.newValues row.stepIndex values, Transition.context_of_next next readable, ?_⟩
  cases decides with
  | execute status requested isStep step named context decoded reply t follows =>
    rw [afterExecute?] at follows
    split at follows
    · rename_i ok
      cases follows
      exact Execution.Shows.merged (c := ⟨_, reply⟩) shown ok
    · rename_i retryable
      rw [List.foldl_cons, Marker.next_retryable retryable]
      split at follows <;> cases follows <;> exact shown
    · rename_i terminal
      cases follows
      rw [List.foldl_cons, Marker.next_rejected rfl terminal]
      simp [Transition.newValues, Context.markRejected, Marker.text, plannedCall, index]
    · cases follows
  | compensate status isStep step named context decoded reply =>
    rw [afterCompensate] at next ⊢
    split
    · rename_i ok
      exact Execution.Shows.merged (c := ⟨_, reply⟩) shown ok
    · rename_i failed
      split
      · rename_i again
        rw [List.foldl_cons, Marker.next_retryable again.1]
        exact shown
      · rename_i final
        rw [if_neg failed, if_neg final] at next
        have applied := apply_of_next next
        cases applied
        cases unfinished
  | _ => exact shown

/-- As long as an execution is not finished, its latest row shows the marker, and the marker fits
to where the execution stands. -/
theorem Lineage.marking (lineage : Lineage d rows calls) (fits : d.Fits)
    (started : ∀ first ∈ rows.getLast?, first.context = context.toBlob) :
    ∀ row ∈ rows.head?, row.position.Marks (calls.map CallMade.mark) (Marker.ofCalls context calls) ∧
      (row.status.isTerminal = false → row.Shows (Marker.ofCalls context calls)) := by
  induction lineage with
  | created id sagaType context' now =>
    rintro row ⟨⟩
    have blob : context'.toBlob = context.toBlob := started _ rfl
    have none (i : Int) : ¬RejectedIn [] i := by simp [RejectedIn]
    exact ⟨⟨Marker.ofCaller_ne_engine context, none⟩,
      fun _ => ⟨context, blob, (Marker.text_ofCaller context).symm⟩⟩
  | @cancelled old earlier calls now before active unasked ih =>
    rintro row ⟨⟩
    exact ih started old rfl
  | @decided old base changed earlier calls made t now before read same decides next ih =>
    rintro row ⟨⟩
    obtain ⟨kept, shows⟩ := ih started old rfl
    have formed := before.wellFormed fits
    have stores := decides.stores_of_next fits (formed _ List.mem_cons_self) (formed _ read)
      same next
    rw [Marker.ofCalls_concat, List.map_append]
    refine ⟨stores.move.marking rfl kept, ?_⟩
    intro (unfinished : changed.status.isTerminal = false)
    have shown : changed.Shows _ :=
      decides.shows_marker same next unfinished (shows stores.move.not_isTerminal)
    exact shown

/-- On an undo the text of the marker is right, unless somebody else bound the key to the index. -/
theorem Position.Marks.right_iff {retries : Nat}
    (kept : Position.Marks ⟨.compensating, i, retries⟩ marks marker) :
    (marker.map Marker.text = some (toString i) ↔ RejectedIn marks i) ↔
      marker ≠ some (.caller (toString i)) := by
  obtain ⟨sound, complete⟩ := kept
  have complete' (rejected : RejectedIn marks i) : marker = some (.engine i) :=
    (complete i rejected).2 rfl
  rcases marker with _ | index | text
  · have notRejected : ¬RejectedIn marks i := fun rejected => nomatch complete' rejected
    simp [notRejected]
  · have same : RejectedIn marks i ↔ index = i := by
      constructor
      · intro rejected
        cases complete' rejected
        rfl
      · rintro rfl
        exact sound index rfl
    have named : (some (Marker.engine index)).map Marker.text = some (toString i) ↔ index = i :=
      Option.some_inj.trans Numeral.toString_inj
    rw [same, named]
    simp
  · have notRejected : ¬RejectedIn marks i := fun rejected => nomatch complete' rejected
    simp [notRejected, Marker.text]

/-! ## Calls and the calls before them -/

/-- The calls before a call are those of the journal at that time. -/
theorem exists_call_event {j : Journal} {x : String}
    (split : Journal.calls x j = before ++ c :: after) :
    ∃ ev k, ev :: k <:+ j ∧ ev.call? = some c ∧ c.call.executionId = x ∧
      Journal.calls x k = before := by
  induction j generalizing after with
  | nil => cases before <;> cases split
  | cons ev j ih =>
    have older (after' : List CallMade) (split : Journal.calls x j = before ++ c :: after') :
        ∃ ev' k, ev' :: k <:+ ev :: j ∧ ev'.call? = some c ∧ c.call.executionId = x ∧
          Journal.calls x k = before := by
      obtain ⟨ev', k, earlier, found⟩ := ih split
      exact ⟨ev', k, earlier.trans (List.suffix_cons ev j), found⟩
    by_cases own : ∃ c', ev.call? = some c' ∧ c'.call.executionId = x
    · obtain ⟨c', is, about⟩ := own
      rw [calls_cons_call is about] at split
      rcases List.eq_nil_or_concat after with rfl | ⟨after', last, rfl⟩
      · obtain ⟨made, same⟩ := List.append_inj' split rfl
        cases same
        exact ⟨ev, j, List.suffix_refl _, is, about, made⟩
      · rw [List.concat_eq_append, ← List.cons_append, ← List.append_assoc] at split
        exact older after' (List.append_inj_left' split rfl)
    · have same : Journal.calls x (ev :: j) = Journal.calls x j := by
        rw [Journal.calls, List.append_right_eq_self, List.filter_eq_nil_iff]
        intro c' is
        simpa using fun about => own ⟨c', Option.mem_toList.1 is, about⟩
      exact older after (same ▸ split)

end

section

variable {e : Engine} {σ : Cluster} {j k : Journal} {x : String} {context : Context}
  {before after : List CallMade} {c : CallMade}

theorem Operation.eq_start_of_seed? {operation : Operation}
    (seed : operation.seed? = some context) :
    ∃ sagaType, operation = .start sagaType context := by
  cases operation with
  | start sagaType context' =>
    cases seed
    exact ⟨sagaType, rfl⟩
  | _ => cases seed

theorem Journal.StartedFrom.first (started : j.StartedFrom x context) (lawful : Lawful e j)
    (later : k <:+ j) : ∀ first ∈ (k.history x).getLast?, first.context = context.toBlob := by
  obtain ⟨start, inside, seed, row, installed, id⟩ := started
  obtain ⟨sagaType, starts⟩ := Operation.eq_start_of_seed? seed
  obtain ⟨last, -, blob⟩ := lawful.first_row inside starts installed id
  obtain ⟨newer, split⟩ := history_suffix x later
  intro first is
  have present : k.history x ≠ [] := List.ne_nil_of_mem (List.mem_of_getLast? is)
  rw [← split, List.getLast?_append_of_ne_nil _ present] at last
  exact Option.some.inj (is.symm.trans last) ▸ blob

/-- However starts, advances, drives, resumes and cancels interleave on an execution whose leases
exclude each other: an undo is told that its step was turned down exactly if the last forward call
of the step was, unless the reserved key was forged. -/
theorem rejected_flag_truthful_iff (fits : e.Fits) (reachable : Reachable e σ)
    (exclusive : σ.journal.Exclusive x) (classified : σ.journal.Classified x)
    (started : σ.journal.StartedFrom x context)
    (made : σ.journal.calls x = before ++ c :: after) (undoes : c.call.phase = .compensate) :
    (c.call.rejected = true ↔ RejectedIn (before.map CallMade.mark) c.call.index) ↔
      ¬Forged context before c.call.index := by
  have lawful := (reachable_consistent reachable fits).lawful
  obtain ⟨ev, k, recent, is, about, rfl⟩ := exists_call_event made
  have earlier : k <:+ σ.journal := (List.suffix_cons ev k).trans recent
  have started := started.first lawful earlier
  have exclusive := exclusive.suffix earlier
  have classified := classified.suffix earlier
  cases lawful.suffix recent with
  | next lawful permitted =>
  -- The caller holds the lease, so nothing is pending and it read the latest progress.
  obtain ⟨holds, first, unwritten, base, d, read, known, asks⟩ := permitted.of_call lawful is about
  obtain ⟨calls, booked⟩ := lawful.booked exclusive classified
  obtain ⟨latest, found, same⟩ := lawful.current exclusive holds read unwritten
  have made' := booked.pending.of_holds lawful exclusive holds unwritten
  rw [first, List.append_nil] at made'
  obtain ⟨older, history⟩ := history_eq_cons_of_record found
  obtain ⟨d', known', lineage⟩ := booked.lineage history
  have small := fits.of_definitionOf (known' latest List.mem_cons_self)
  rw [history] at started
  obtain ⟨kept, shows⟩ := lineage.marking small started latest rfl
  generalize c.call = call at asks undoes ⊢
  cases asks with
  | execute => cases undoes
  | compensate status isStep step named context' decoded =>
    simp only [Execution.progress, Execution.Progress.mk.injEq] at same
    obtain ⟨status', index, -, blob⟩ := same
    have compensating : latest.status = .compensating := status'.symm.trans status
    obtain ⟨values, readable, shown⟩ := shows (by rw [compensating]; rfl)
    rw [blob, readable, Context.ofBlob_toBlob] at decoded
    obtain rfl : values = context' := Except.ok.inj decoded
    have flag : (plannedCall base .compensate step values).rejected = true ↔
        (Marker.ofCalls context calls).map Marker.text = some (toString base.stepIndex) := by
      rw [← shown]
      exact decide_eq_true_iff
    rw [Execution.position, compensating, ← index] at kept
    rw [flag, made']
    exact kept.right_iff

namespace Sample

/-- Steps that are turned down; their undo succeeds. -/
def declined (_ : Journal) (call : StepCall) : StepReply :=
  match call.phase with
  | .execute => .returned (.terminal "declined")
  | .compensate => .returned .ok

/-- A context that binds the reserved key to the index of the first step. -/
def forged : Context := Dictionary.empty.insert Context.rejectedStepKey "0"

end Sample

/-- The undo of a step that was turned down is told so. -/
theorem rejected_flag_truthful_iff_declined :
    let σ := Sample.run Sample.declined [.start "order" Dictionary.empty, .drive "x"]
    ∃ before c after, σ.journal.calls "x" = before ++ c :: after ∧ c.call.phase = .compensate ∧
      (c.call.rejected = true ↔ RejectedIn (before.map CallMade.mark) c.call.index) := by
  have made : ∃ before c after, (Sample.run Sample.declined [.start "order" Dictionary.empty,
      .drive "x"]).journal.calls "x" = before ++ c :: after ∧ c.call.phase = .compensate ∧
        ¬Forged Dictionary.empty before c.call.index :=
    ⟨[⟨⟨.execute, "reserve", "x", 0, Dictionary.empty, false⟩, .returned (.terminal "declined")⟩],
      ⟨⟨.compensate, "reserve", "x", 0, Sample.forged, true⟩, .returned .ok⟩, [],
      by decide +kernel, rfl, by decide +kernel⟩
  obtain ⟨before, c, after, made, undoes, honest⟩ := made
  refine ⟨before, c, after, made, undoes, ?_⟩
  exact (rejected_flag_truthful_iff Sample.engine_fits (Sample.run_reachable _ _)
    (by decide +kernel) (by decide +kernel) (by decide +kernel) made undoes).2 honest

/-- A start with a forged key: the undo of a step that was only ever busy is told that the step
was turned down. -/
theorem busy_step_flagged_rejected :
    let σ := Sample.run Sample.busy [.start "order" Sample.forged, .drive "x"]
    Reachable Sample.engine σ ∧ σ.journal.Exclusive "x" ∧ σ.journal.Classified "x" ∧
      ∃ before c after, σ.journal.calls "x" = before ++ c :: after ∧
        c.call.phase = .compensate ∧ c.call.rejected = true ∧
        ¬RejectedIn (before.map CallMade.mark) c.call.index := by
  refine ⟨Sample.run_reachable _ _, by decide +kernel, by decide +kernel,
    List.replicate 2 ⟨⟨.execute, "reserve", "x", 0, Sample.forged, false⟩,
      .returned (.retryable "busy")⟩,
    ⟨⟨.compensate, "reserve", "x", 0, Sample.forged, true⟩, .returned .ok⟩, [],
    by decide +kernel, rfl, rfl, ?_⟩
  intro rejected
  exact absurd rejected.mem (by decide)

end

end SagaEngine
