import SagaEngine.Proofs.Life
/-!
# Crashes between two requests

An operation that is answered a number of requests and then never again has crashed,
and with it its leases and its open transactions. Operations on the same execution
follow one after another, each against a host of its own and any of them cut off; the
steps reply to a call in one way. Then the last of them ends the execution with the
rows which a single operation stores that is not cut off, and every call lost in a
crash is the one that is made next. Main statement: `crash_recovery_equivalence`.
-/

namespace SagaEngine

/-- An operation and the number of its requests that are answered before it crashes. -/
structure Stint where
  host : Host
  operation : Operation
  requests : Nat

def Cluster.crash (e : Engine) (σ : Cluster) (stint : Stint) : Cluster :=
  (σ.begin e stint.operation).answers stint.host σ.tasks.length stint.requests

/-- An orchestrator of its own drives the execution, or resumes it with nobody to hand it to. -/
structure Recovers (host : Host) (operation : Operation) (x : String)
    (steps : String → StepCall → StepReply) : Prop where
  drives : operation = .drive x ∨ operation = .resume x ∧ ∀ j, host j (.dispatch x) = false
  replies : host.Replies steps
  grants : ∀ j, host j (.acquire x) ≠ none

section

variable {e : Engine} {host : Host} {me : Actor} {x : String} {σ : Cluster} {row : Execution}
  {d : SagaDefinition} {steps : String → StepCall → StepReply} {operation : Operation}
  {stint : Stint} {stints : List Stint}

/-! ## A stint is the life of an actor -/

theorem answer_gave (host : Host) {i : Nat} (mine : σ.tasks[i]?.map (·.actor) = some me) :
    (σ.answer host i).tasks[i]?.map (·.actor) = some me ∧
      ∃ own, (σ.answer host i).journal = own ++ σ.journal ∧ ∀ ev ∈ own, host.Gave me ev := by
  obtain ⟨⟨actor, opened, rest⟩, found, rfl⟩ := Option.map_eq_some_iff.1 mine
  obtain ⟨inRange, -⟩ := List.getElem?_eq_some_iff.1 found
  rw [Cluster.answer, found]
  cases rest with
  | done | failed => exact ⟨mine, [], rfl, by simp⟩
  | ask q next =>
    refine ⟨?_, [⟨actor, q, _, _⟩], rfl, ?_⟩
    · rw [List.getElem?_set_self inRange]
      rfl
    · intro ev only
      cases List.mem_singleton.1 only
      exact ⟨⟨σ.rows, opened⟩, σ.journal, q, rfl⟩

theorem answers_gave {i : Nat} (n : Nat) (mine : σ.tasks[i]?.map (·.actor) = some me) :
    ∃ own, (σ.answers host i n).journal = own ++ σ.journal ∧ ∀ ev ∈ own, host.Gave me ev := by
  induction n generalizing σ with
  | zero => exact ⟨[], rfl, by simp⟩
  | succ n ih =>
    obtain ⟨still, first, split, gave⟩ := answer_gave host mine
    obtain ⟨later, split', gave'⟩ := ih still
    refine ⟨later ++ first, ?_, ?_⟩
    · rw [Cluster.answers, split', split, List.append_assoc]
    · intro ev inside
      rcases List.mem_append.1 inside with new | old
      · exact gave' ev new
      · exact gave ev old

theorem crash_leads (stint : Stint) : Leads e σ (σ.crash e stint) :=
  (begin_leads _).trans (answers_leads _ _ _)

theorem crash_alone (fits : e.Fits) (reachable : Reachable e σ) (stint : Stint) :
    Alone e stint.host ⟨σ.tasks.length, stint.operation⟩ σ.journal (σ.crash e stint).journal where
  lawful := (reachable_consistent (reachable.leads (crash_leads stint)) fits).lawful
  stranger := (reachable_consistent reachable fits).fresh _
  own := answers_gave stint.requests (by simp [Cluster.begin])

theorem Ran.alone {σ' : Cluster} {r : Except Failure Operation.Result}
    (ran : Ran e host operation σ σ' r) (consistent : Consistent e σ) :
    Alone e host ⟨σ.tasks.length, operation⟩ σ.journal σ'.journal :=
  ⟨ran.lawful, consistent.fresh _, ran.own⟩

/-- A crash loses at most one call. -/
theorem crash_course (fits : e.Fits) (reachable : Reachable e σ)
    (present : row ∈ σ.journal.history x) (known : e.definitionOf row = .ok d)
    (driven : stint.operation.driven? = some x) (replies : stint.host.Replies steps) :
    ∃ n ≤ 1, Course d (steps d.sagaType) n (σ.journal.ledger x)
      ((σ.crash e stint).journal.ledger x) := by
  have alone := crash_alone fits reachable stint
  exact (alone.life driven replies present known).course alone.lawful driven

theorem crashes_course (fits : e.Fits) (reachable : Reachable e σ)
    (present : row ∈ σ.journal.history x) (known : e.definitionOf row = .ok d)
    (about : ∀ stint ∈ stints, stint.operation.driven? = some x ∧ stint.host.Replies steps) :
    Reachable e (stints.foldl (Cluster.crash e) σ) ∧
      row ∈ (stints.foldl (Cluster.crash e) σ).journal.history x ∧
      ∃ n ≤ stints.length, Course d (steps d.sagaType) n (σ.journal.ledger x)
        ((stints.foldl (Cluster.crash e) σ).journal.ledger x) := by
  induction stints generalizing σ with
  | nil => exact ⟨reachable, present, 0, Nat.le_refl _, .stay _⟩
  | cons stint stints ih =>
    obtain ⟨driven, replies⟩ := about stint List.mem_cons_self
    have leads := crash_leads (e := e) (σ := σ) stint
    obtain ⟨n, few, first⟩ := crash_course fits reachable present known driven replies
    obtain ⟨reachable', present', m, few', rest⟩ :=
      ih (reachable.leads leads) ((history_suffix x leads.journal).subset present)
        fun stint inside => about stint (List.mem_cons_of_mem _ inside)
    refine ⟨reachable', present', n + m, ?_, first.trans rest⟩
    rw [List.length_cons]
    omega

/-! ## The operation that is not cut off -/

theorem Host.Gave.taken {taken : Bool} {installed : List Execution} {ev : Event}
    (gave : host.Gave me ev) (is : ev = ⟨me, .dispatch x, taken, installed⟩) :
    ∃ j, taken = host j (.dispatch x) := by
  obtain ⟨s, j, q, same⟩ := gave
  rw [same] at is
  simp only [Event.mk.injEq, true_and] at is
  obtain ⟨rfl, answered, -⟩ := is
  exact ⟨j, (eq_of_heq answered).symm⟩

theorem Recovers.driven (recovers : Recovers host operation x steps) :
    operation.driven? = some x := by
  rcases recovers.drives with rfl | ⟨rfl, -⟩ <;> rfl

theorem perform_resume (host : Host) (fits : e.Fits) (reachable : Reachable e σ) (x : String) :
    ∃ r r', Ran e host (.resume x) σ (σ.perform e host (.resume x)) r ∧
      Resumed ⟨σ.tasks.length, .resume x⟩ x e.patience σ.journal
        (σ.perform e host (.resume x)).journal r' := by
  have consistent := reachable_consistent reachable fits
  have ensures : Ensures (contract e ⟨σ.tasks.length, .resume x⟩)
      (fun _ v' => ∃ r, Resumed ⟨σ.tasks.length, .resume x⟩ x e.patience σ.journal v'.journal r)
      ((Operation.resume x).program e) ⟨σ.journal, {}⟩ := by
    refine Ensures.bind ((resume_ensures fits rfl (by simp) (consistent.free _)).mono ?_)
    rintro (failure | done) v' resumed
    · exact ⟨_, resumed⟩
    · exact ⟨_, resumed⟩
  obtain ⟨r, opened, ran, r', resumed⟩ := perform_ensures host fits reachable ensures
  exact ⟨r, r', ran, resumed⟩

/-- Not cut off, the operation ends the execution, if it does not give up. -/
theorem perform_ends (fits : e.Fits) (patient : 0x10000000000000000 ≤ e.patience)
    (reachable : Reachable e σ) (present : σ.journal.history x ≠ [])
    (recovers : Recovers host operation x steps) :
    ∃ r, Ran e host operation σ (σ.perform e host operation) r ∧
      (¬(σ.perform e host operation).journal.GaveUp ⟨σ.tasks.length, operation⟩ x →
        ∃ final, (σ.perform e host operation).journal.Finished x final) := by
  have consistent := reachable_consistent reachable fits
  have short {j : Journal} (lawful : Lawful e j) : (j.history x).length < e.patience :=
    Nat.lt_of_lt_of_le (lawful.history_length_lt fits x) patient
  rcases recovers.drives with rfl | ⟨rfl, alone⟩
  · obtain ⟨r, result, drove, lawful, rows, own⟩ := perform_drive host fits reachable x
    refine ⟨_, ⟨result, lawful, rows, own⟩, ?_⟩
    intro stays
    obtain ⟨final, -, finished⟩ := drove.finished_of_stays stays present (short lawful)
    exact ⟨final, finished⟩
  · obtain ⟨r, r', ran, resumed⟩ := perform_resume host fits reachable x
    refine ⟨r, ran, ?_⟩
    intro stays
    cases resumed with
    | finished final finished => exact ⟨final, finished⟩
    | gaveUp gaveUp => exact absurd gaveUp stays
    | handed k earlier =>
      obtain ⟨own, split, gave⟩ := ran.own
      have inside := earlier.subset List.mem_cons_self
      rw [split] at inside
      rcases List.mem_append.1 inside with new | old
      · obtain ⟨j, taken⟩ := (gave _ new).taken rfl
        rw [alone j] at taken
        cases taken
      · exact absurd rfl (consistent.fresh _ _ old)
    | endless moved =>
      have short := short ran.lawful
      omega
    | missing nothing => exact absurd nothing present

theorem perform_course (fits : e.Fits) (patient : 0x10000000000000000 ≤ e.patience)
    (reachable : Reachable e σ) (present : row ∈ σ.journal.history x)
    (known : e.definitionOf row = .ok d)
    (classified : ∀ sagaType call code, (steps sagaType call).result.outcome ≠ .unclassified code)
    (recovers : Recovers host operation x steps) :
    (σ.perform e host operation).rows = (σ.perform e host operation).journal.rows ∧
      ∃ final, (σ.perform e host operation).journal.Finished x final ∧
        Course d (steps d.sagaType) 0 (σ.journal.ledger x)
          ((σ.perform e host operation).journal.ledger x) := by
  have driven := recovers.driven
  obtain ⟨r, ran, finishes⟩ :=
    perform_ends fits patient reachable (List.ne_nil_of_mem present) recovers
  have alone := ran.alone (reachable_consistent reachable fits)
  obtain ⟨final, finished⟩ := finishes
    (alone.not_gaveUp driven recovers.replies recovers.grants classified present known)
  have life := alone.life driven recovers.replies present known
  exact ⟨ran.rows, final, finished, life.course_of_finished finished⟩

theorem Journal.Finished.ended {j : Journal} (finished : j.Finished x row) :
    (j.ledger x).Ended := by
  obtain ⟨older, history⟩ := history_eq_cons_of_record finished.record
  refine ⟨row, ?_, finished.terminal⟩
  rw [Journal.ledger, history]
  rfl

/-- However often the operations on an execution crash, the last one ends it with the committed
rows of one that does not crash, but for the times on them. The calls are those that are made
without crashes, where some of them are made again; that happens no more often than there are
crashes. -/
theorem crash_recovery_equivalence {first last : Operation} {firstHost lastHost : Host}
    (fits : e.Fits) (patient : 0x10000000000000000 ≤ e.patience) (reachable : Reachable e σ)
    (present : σ.rows.get? x ≠ none)
    (classified : ∀ sagaType call code, (steps sagaType call).result.outcome ≠ .unclassified code)
    (whole : Recovers firstHost first x steps)
    (cut : ∀ stint ∈ stints, stint.operation.driven? = some x ∧ stint.host.Replies steps)
    (recovers : Recovers lastHost last x steps) :
    let τ := σ.perform e firstHost first
    let τ' := (stints.foldl (Cluster.crash e) σ).perform e lastHost last
    (τ'.journal.history x).map (·.timeless) = (τ.journal.history x).map (·.timeless) ∧
      (∃ final final', τ.rows.get? x = some final ∧ τ'.rows.get? x = some final' ∧
        final.status.isTerminal = true ∧ final'.timeless = final.timeless) ∧
      ∃ n ≤ stints.length, Repeats n (τ.journal.calls x) (τ'.journal.calls x) := by
  intro τ τ'
  have consistent := reachable_consistent reachable fits
  obtain ⟨row, found⟩ := Option.ne_none_iff_exists'.1 present
  rw [consistent.rows] at found
  have inside : row ∈ σ.journal.history x := mem_history_of_record found
  obtain ⟨d, owned⟩ := consistent.lawful.ownedBy x (List.ne_nil_of_mem inside)
  have known := owned.known row inside
  obtain ⟨rows, final, finished, course⟩ :=
    perform_course fits patient reachable inside known classified whole
  obtain ⟨reachable', inside', n, few, crashes⟩ := crashes_course fits reachable inside known cut
  obtain ⟨rows', final', finished', course'⟩ :=
    perform_course fits patient reachable' inside' known classified recovers
  obtain ⟨same, calls, more, made, made', repeats⟩ :=
    course.agree (crashes.trans course') rfl finished.ended finished'.ended
  obtain ⟨older, history⟩ := history_eq_cons_of_record finished.record
  obtain ⟨older', history'⟩ := history_eq_cons_of_record finished'.record
  refine ⟨same.symm, ⟨final, final', ?_, ?_, finished.terminal, ?_⟩, n, few, ?_⟩
  · rw [rows]
    exact finished.record
  · rw [rows']
    exact finished'.record
  · have heads := congrArg List.head? same.symm
    simp only [Journal.ledger, history, history', List.map_cons, List.head?_cons,
      Option.some.injEq] at heads
    exact heads
  · have made : τ.journal.calls x = σ.journal.calls x ++ calls := made
    have made' : τ'.journal.calls x = σ.journal.calls x ++ more := made'
    rw [made, made', ← Nat.add_zero n]
    exact repeats.append _

namespace Sample

/-- The host with nobody to hand an execution to. -/
def lone : Host := fun j q =>
  match q with
  | .dispatch _ => false
  | q => Sample.host busy j q

/-- A drive and then an advance, each of which crashes when its step has replied. -/
def crashes : List Stint :=
  [⟨Sample.host busy, .drive "x", 27⟩, ⟨Sample.host busy, .advance "x", 11⟩]

end Sample

/-- The first attempt of the only step is made three times, and it counts once. -/
theorem crash_recovery_equivalence_busy :
    let σ := Sample.run Sample.busy [.start "order" Dictionary.empty]
    let τ := σ.perform Sample.engine (Sample.host Sample.busy) (.drive "x")
    let τ' := (Sample.crashes.foldl (Cluster.crash Sample.engine) σ).perform Sample.engine
      Sample.lone (.resume "x")
    (τ.journal.calls "x").length = 3 ∧ (τ'.journal.calls "x").length = 5 ∧
      (τ'.journal.history "x").map (·.timeless) = (τ.journal.history "x").map (·.timeless) ∧
      ∃ n ≤ 2, Repeats n (τ.journal.calls "x") (τ'.journal.calls "x") := by
  intro σ τ τ'
  have classified (sagaType : String) (call : StepCall) (code : Nat) :
      (Sample.busy [] call).result.outcome ≠ .unclassified code := by
    rw [Sample.busy]
    cases call.phase <;> simp [StepReply.result, StepResult.retryable, StepResult.ok]
  have cut : ∀ stint ∈ Sample.crashes, stint.operation.driven? = some "x" ∧
      stint.host.Replies fun _ call => Sample.busy [] call := by
    simp [Sample.crashes, Operation.driven?, Host.Replies, Sample.host, Sample.busy]
  have whole : Recovers (Sample.host Sample.busy) (.drive "x") "x" fun _ call =>
      Sample.busy [] call :=
    ⟨.inl rfl, fun _ _ _ => rfl, fun _ => Option.some_ne_none _⟩
  have recovers : Recovers Sample.lone (.resume "x") "x" fun _ call => Sample.busy [] call :=
    ⟨.inr ⟨rfl, fun _ => rfl⟩, fun _ _ _ => rfl, fun _ => Option.some_ne_none _⟩
  obtain ⟨rows, -, repeats⟩ := crash_recovery_equivalence Sample.engine_fits (by decide +kernel)
    (Sample.run_reachable Sample.busy [.start "order" Dictionary.empty]) (by decide +kernel)
    classified whole cut recovers
  exact ⟨by decide +kernel, by decide +kernel, rows, repeats⟩

end

end SagaEngine
