import SagaEngine.Proofs.Journal
import SagaEngine.Proofs.Lineage
/-!
# How the operations of an engine conduct themselves

What an event may be, given the journal before it: a read shows the committed row, a
step is called once under a lease and as the row first read asks for it, and a commit
installs an accepted row, a cancel mark or the decision of an owner whose row first
read still has the latest progress. In a lawful journal the rows of every execution
are those of a single owner. Main statements: `Lawful.base_mem`, `Permitted.extends`,
`Lawful.ownedBy` and `Journal.Finished.mono`.
-/

namespace SagaEngine

/-- Every registered definition fits into the words of a row. -/
def Engine.Fits (e : Engine) : Prop :=
  ∀ sagaType d, e.definition sagaType = .ok d → d.Fits

/-- The step call that a row asks for. -/
inductive AsksFor (d : SagaDefinition) (row : Execution) : StepCall → Prop
  | execute (status : row.status = .inProgress) (requested : row.cancelRequested = false)
      (isStep : row.stepIndex < row.totalSteps) (step : String)
      (named : Engine.stepName d row.stepIndex = .ok step) (context : Context)
      (decoded : Context.ofBlob row.context = .ok context) :
      AsksFor d row (plannedCall row .execute step context)
  | compensate (status : row.status = .compensating) (isStep : 0 ≤ row.stepIndex) (step : String)
      (named : Engine.stepName d row.stepIndex = .ok step) (context : Context)
      (decoded : Context.ofBlob row.context = .ok context) :
      AsksFor d row (plannedCall row .compensate step context)

/-- The reply has no meaning for the engine. -/
def CallMade.Unclassified (c : CallMade) : Prop :=
  ∃ code, c.reply.result.outcome = .unclassified code

/-- Somebody else made progress since a row was read. -/
def Journal.Overtaken (j : Journal) (x : String) (base : Execution) : Prop :=
  ∃ row, j.record x = some row ∧ row.progress ≠ base.progress

/-- Why an owner may give a lease back after a call: the result is stored, somebody else made
progress, or the reply has no meaning. -/
def Journal.Accounted (j : Journal) (x : String) (a : Attempt) : Prop :=
  a.calls ≠ [] → a.written ≠ [] ∨ (∃ base, a.base = some base ∧ j.Overtaken x base) ∨
    ∃ c ∈ a.calls, c.Unclassified

/-- What an event may be, given the journal before it. -/
inductive Permitted (e : Engine) (j : Journal) : Event → Prop
  | quiet (me : Actor) (q : Request) (answer : Response q) (quiet : q.isQuiet = true) :
      Permitted e j ⟨me, q, answer, []⟩
  | found (me : Actor) (x : String) (tx : Nat) (target : me.operation.target? = some x) :
      Permitted e j ⟨me, .find tx x, .ok (j.record x), []⟩
  | refused (me : Actor) (x : String) :
      Permitted e j ⟨me, .acquire x, none, []⟩
  | granted (me : Actor) (x : String) (lease : Lease) (driven : me.operation.driven? = some x)
      (free : (j.attempt me).held = none)
      (settled : (j.attempt me).leased = true → (j.attempt me).written ≠ [])
      (once : me.operation = .advance x → (j.attempt me).leased = false) :
      Permitted e j ⟨me, .acquire x, some lease, []⟩
  | released (me : Actor) (x : String) (lease : Lease) (driven : me.operation.driven? = some x)
      (held : (j.attempt me).held = some lease) (accounted : j.Accounted x (j.attempt me)) :
      Permitted e j ⟨me, .release lease, (), []⟩
  | called (me : Actor) (x : String) (lease : Lease) (base : Execution) (d : SagaDefinition)
      (call : StepCall) (reply : StepReply) (driven : me.operation.driven? = some x)
      (held : (j.attempt me).held = some lease) (read : (j.attempt me).base = some base)
      (first : (j.attempt me).calls = []) (unwritten : (j.attempt me).written = [])
      (known : e.definitionOf base = .ok d) (asks : AsksFor d base call) :
      Permitted e j ⟨me, .call d.sagaType call, reply, []⟩
  | created (me : Actor) (tx : Nat) (sagaType : String) (context : Context) (id : String)
      (d : SagaDefinition) (now : Nat) (starts : me.operation = .start sagaType context)
      (known : e.definition sagaType = .ok d) (free : j.record id = none) :
      Permitted e j ⟨me, .commit tx, .ok (), [Engine.newRow id d sagaType context now]⟩
  | cancelled (me : Actor) (x : String) (tx : Nat) (old : Execution) (now : Nat)
      (cancels : me.operation = .cancel x) (latest : j.record x = some old)
      (active : old.status = .started ∨ old.status = .inProgress)
      (unasked : old.cancelRequested = false) :
      Permitted e j ⟨me, .commit tx, .ok (), [(old.marked now).replacing old]⟩
  | decided (me : Actor) (x : String) (tx : Nat) (lease : Lease) (old base changed : Execution)
      (d : SagaDefinition) (t : Transition) (now : Nat) (driven : me.operation.driven? = some x)
      (held : (j.attempt me).held = some lease) (read : (j.attempt me).base = some base)
      (unwritten : (j.attempt me).written = []) (latest : j.record x = some old)
      (known : e.definitionOf base = .ok d) (decides : Decides d base (j.attempt me).calls t)
      (same : base.progress = old.progress) (next : t.next old = .ok changed) :
      Permitted e j ⟨me, .commit tx, .ok (), [(changed.stamped now).replacing old]⟩
  | alerted (me : Actor) (row : Execution) (own : (j.attempt me).written.getLast? = some row)
      (status : row.status = .failed) :
      Permitted e j
        ⟨me, .alert ⟨row.id, row.sagaType, row.status.name, row.lastError⟩, (), []⟩
  | completed (me : Actor) (row : Execution) (own : (j.attempt me).written.getLast? = some row)
      (terminal : row.status.isTerminal = true) :
      Permitted e j ⟨me, .completed row, (), []⟩

/-- Every event was permitted when it happened. -/
inductive Lawful (e : Engine) : Journal → Prop
  | start : Lawful e []
  | next {j : Journal} {ev : Event} (before : Lawful e j) (permitted : Permitted e j ev) :
      Lawful e (ev :: j)

section

variable {e : Engine} {j j' : Journal} {ev : Event} {me : Actor} {x : String}
  {base row : Execution} {d : SagaDefinition} {c : CallMade}

theorem Lawful.suffix (lawful : Lawful e j') (later : j <:+ j') : Lawful e j := by
  obtain ⟨newer, rfl⟩ := later
  induction newer with
  | nil => exact lawful
  | cons ev newer ih =>
    cases lawful with
    | next before permitted => exact ih before

theorem AsksFor.executionId {call : StepCall} (asks : AsksFor d base call) :
    call.executionId = base.id := by
  cases asks <;> rfl

theorem after_find_base (a : Attempt) (tx : Nat) (x : String) (seen : Option Execution) :
    (a.after ⟨me, .find tx x, .ok seen, []⟩).base = a.base.or seen := by
  cases seen with
  | none => exact Option.or_none.symm
  | some row => rfl

theorem Lawful.base_recorded (lawful : Lawful e j) (target : me.operation.target? = some x)
    (read : (j.attempt me).base = some base) : ∃ k : Journal, k <:+ j ∧ k.record x = some base := by
  induction lawful with
  | start => cases read
  | @next j ev before permitted ih =>
    have kept (old : (j.attempt me).base = some base) :
        ∃ k : Journal, k <:+ ev :: j ∧ k.record x = some base := by
      obtain ⟨k, earlier, found⟩ := ih old
      exact ⟨k, earlier.trans (List.suffix_cons ev j), found⟩
    by_cases own : ev.actor = me
    · subst own
      rw [attempt_own rfl] at read
      cases permitted with
      | quiet actor q answer quiet =>
        rw [after_quiet _ answer quiet] at read
        exact kept read
      | found actor y tx target' =>
        obtain rfl : y = x := Option.some.inj (target'.symm.trans target)
        rw [after_find_base, Option.or_eq_some_iff] at read
        rcases read with old | ⟨-, found⟩
        · exact kept old
        · exact ⟨j, List.suffix_cons _ _, found⟩
      | granted => cases read
      | _ => exact kept read
    · rw [attempt_other own] at read
      exact kept read

theorem Lawful.base_mem (lawful : Lawful e j) (target : me.operation.target? = some x)
    (read : (j.attempt me).base = some base) : base ∈ j.history x := by
  obtain ⟨k, earlier, found⟩ := lawful.base_recorded target read
  exact (history_suffix x earlier).subset (mem_history_of_record found)

/-! ## Definitions of rows -/

theorem definitionOf_eq_ok : e.definitionOf row = .ok d ↔
    e.definition row.sagaType = .ok d ∧ row.totalSteps = d.stepCount := by
  rw [Engine.definitionOf]
  split
  · rename_i failure unknown
    simp [unknown]
  · rename_i found known
    rw [known]
    split
    · rename_i steps
      constructor
      · intro same
        cases same
        exact ⟨rfl, steps.symm⟩
      · rintro ⟨same, -⟩
        exact same
    · rename_i differs
      constructor
      · intro impossible
        cases impossible
      · rintro ⟨same, steps⟩
        cases same
        exact absurd steps.symm differs

theorem definitionOf_congr (origin : row.origin = base.origin) :
    e.definitionOf row = .ok d ↔ e.definitionOf base = .ok d := by
  simp only [Execution.origin, Execution.Origin.mk.injEq] at origin
  rw [definitionOf_eq_ok, definitionOf_eq_ok, origin.2.1, origin.2.2.1]

theorem Engine.Fits.of_definitionOf (fits : e.Fits) (known : e.definitionOf row = .ok d) :
    d.Fits :=
  fits _ d (definitionOf_eq_ok.1 known).1

theorem Engine.Fits.of_single {sagaType : String} (small : d.Fits)
    (only : e.registry.definitions = Dictionary.empty.insert sagaType d) : e.Fits := by
  intro sagaType' d' known
  have found : (Dictionary.empty.insert sagaType d).get? sagaType' = some d' := by
    rw [Engine.definition] at known
    split at known <;> cases known
    rw [← only]
    assumption
  rw [Dictionary.get?_insert] at found
  split at found
  · cases found
    exact small
  · cases found

theorem origin_of_next {t : Transition} {changed : Execution} (next : t.next row = .ok changed) :
    changed.origin = row.origin := by
  have frame := next_frame next
  simp only [Execution.frame, Execution.Frame.mk.injEq] at frame
  obtain ⟨id, sagaType, totalSteps, _, createdAt, _⟩ := frame
  simp [Execution.origin, id, sagaType, totalSteps, createdAt]

theorem origin_of_stored {t : Transition} {changed : Execution} (next : t.next row = .ok changed)
    (now : Nat) : ((changed.stamped now).replacing row).origin = row.origin :=
  (origin_of_next next : changed.origin = row.origin)

/-! ## What an owner read and called -/

/-- A call was made by an actor that had read the row that it still goes by. -/
def CalledOn (me : Actor) (x : String) (j : Journal) (c : CallMade) : Prop :=
  ∃ (k later : Journal) (ev : Event), j = later ++ ev :: k ∧ ev.call? = some c ∧
    c.call.executionId = x ∧ (k.attempt me).base = (j.attempt me).base ∧
    ∃ base d, (j.attempt me).base = some base ∧ AsksFor d base c.call

theorem CalledOn.extend (called : CalledOn me x j c) (ev : Event)
    (same : (Journal.attempt me (ev :: j)).base = (j.attempt me).base) :
    CalledOn me x (ev :: j) c := by
  obtain ⟨k, later, call, split, is, about, kept, asked⟩ := called
  exact ⟨k, ev :: later, call, by rw [split]; rfl, is, about, kept.trans same.symm, same ▸ asked⟩

theorem AsksFor.unfinished {call : StepCall} (asks : AsksFor d base call) :
    base.status.isTerminal = false := by
  cases asks with
  | execute status | compensate status => rw [status]; rfl

/-- An owner made at most one call since it got its lease, on the row that it read first. -/
theorem Lawful.calledOn (lawful : Lawful e j) (driven : me.operation.driven? = some x) :
    (j.attempt me).calls = [] ∨ ∃ c, (j.attempt me).calls = [c] ∧ CalledOn me x j c := by
  induction lawful with
  | start => exact .inl rfl
  | @next j ev before permitted ih =>
    have kept (calls : (Journal.attempt me (ev :: j)).calls = (j.attempt me).calls)
        (base : (j.attempt me).calls ≠ [] →
          (Journal.attempt me (ev :: j)).base = (j.attempt me).base) :
        (Journal.attempt me (ev :: j)).calls = [] ∨
          ∃ c, (Journal.attempt me (ev :: j)).calls = [c] ∧ CalledOn me x (ev :: j) c := by
      rcases ih with none | ⟨c, one, called⟩
      · exact .inl (calls.trans none)
      · exact .inr ⟨c, calls.trans one, called.extend ev (base (by simp [one]))⟩
    by_cases own : ev.actor = me
    · subst own
      have after : Journal.attempt ev.actor (ev :: j) = (j.attempt ev.actor).after ev :=
        attempt_own rfl
      cases permitted with
      | quiet actor q answer quiet =>
        rw [after_quiet _ answer quiet] at after
        exact kept (congrArg Attempt.calls after) fun _ => congrArg Attempt.base after
      | found actor y tx target =>
        refine kept ?_ ?_
        · rw [after]
          cases j.record y <;> rfl
        · intro called
          rcases ih with none | ⟨c, -, -, -, -, -, -, -, -, base, d, read, -⟩
          · exact absurd none called
          · rw [after, after_find_base, read, Option.some_or]
      | granted => exact .inl (congrArg Attempt.calls after)
      | called actor y lease base d call reply driven' held read first unwritten known asks =>
        obtain rfl : y = x := Option.some.inj (driven'.symm.trans driven)
        have inside := before.base_mem (Operation.target?_of_driven? driven) read
        refine .inr ⟨⟨call, reply⟩, ?_, j, [], _, rfl, rfl, ?_, ?_, base, d, ?_, asks⟩
        · rw [after]
          simp only [Attempt.after, first, List.nil_append]
        · exact asks.executionId.trans (id_of_mem_history inside)
        · rw [after]
          rfl
        · rw [after]
          exact read
      | _ =>
        exact kept ((congrArg Attempt.calls after).trans rfl) fun _ =>
          (congrArg Attempt.base after).trans rfl
    · have same : Journal.attempt me (ev :: j) = j.attempt me := attempt_other own
      exact kept (congrArg Attempt.calls same) fun _ => congrArg Attempt.base same

/-! ## What an event does to a history -/

theorem history_cons_one (ev : Event) (j : Journal) (installs : ev.installed = [row]) :
    Journal.history x (ev :: j) =
      if row.id = x then row :: j.history x else j.history x := by
  rw [Journal.history, installs]
  by_cases mine : row.id = x <;> simp [mine]

theorem history_cons_none (ev : Event) (j : Journal) (installs : ev.installed = []) :
    Journal.history x (ev :: j) = j.history x := by
  rw [Journal.history, installs]
  rfl

theorem record_cons_none (ev : Event) (j : Journal) (installs : ev.installed = []) :
    Journal.record (ev :: j) x = j.record x := by
  rw [record_eq_head?, record_eq_head?, history_cons_none ev j installs]

/-- What an event does to the history of an execution. -/
inductive Journal.Extends (e : Engine) (j : Journal) (x : String) : Event → Prop
  | unchanged (ev : Event) (history : Journal.history x (ev :: j) = j.history x)
      (idle : ev.actor.operation.driven? = some x → ev.installed = []) : Extends e j x ev
  | created (me : Actor) (tx : Nat) (sagaType : String) (context : Context) (d : SagaDefinition)
      (now : Nat) (starts : me.operation = .start sagaType context)
      (known : e.definition sagaType = .ok d) (free : j.history x = [])
      (history : Journal.history x
        (⟨me, .commit tx, .ok (), [Engine.newRow x d sagaType context now]⟩ :: j) =
          [Engine.newRow x d sagaType context now]) :
      Extends e j x ⟨me, .commit tx, .ok (), [Engine.newRow x d sagaType context now]⟩
  | cancelled (me : Actor) (tx : Nat) (old : Execution) (earlier : List Execution) (now : Nat)
      (cancels : me.operation = .cancel x) (before : j.history x = old :: earlier)
      (active : old.status = .started ∨ old.status = .inProgress)
      (unasked : old.cancelRequested = false)
      (history : Journal.history x
        (⟨me, .commit tx, .ok (), [(old.marked now).replacing old]⟩ :: j) =
          (old.marked now).replacing old :: old :: earlier) :
      Extends e j x ⟨me, .commit tx, .ok (), [(old.marked now).replacing old]⟩
  | decided (me : Actor) (tx : Nat) (lease : Lease) (old : Execution) (earlier : List Execution)
      (base changed : Execution) (d : SagaDefinition) (t : Transition) (now : Nat)
      (driven : me.operation.driven? = some x) (held : (j.attempt me).held = some lease)
      (read : (j.attempt me).base = some base) (unwritten : (j.attempt me).written = [])
      (before : j.history x = old :: earlier) (inside : base ∈ old :: earlier)
      (known : e.definitionOf base = .ok d) (decides : Decides d base (j.attempt me).calls t)
      (same : base.progress = old.progress) (next : t.next old = .ok changed)
      (history : Journal.history x
        (⟨me, .commit tx, .ok (), [(changed.stamped now).replacing old]⟩ :: j) =
          (changed.stamped now).replacing old :: old :: earlier) :
      Extends e j x ⟨me, .commit tx, .ok (), [(changed.stamped now).replacing old]⟩

theorem Permitted.extends (permitted : Permitted e j ev) (lawful : Lawful e j) (x : String) :
    j.Extends e x ev := by
  cases permitted with
  | created me tx sagaType context id d now starts known free =>
    have installs := history_cons_one (x := x)
      ⟨me, .commit tx, .ok (), [Engine.newRow id d sagaType context now]⟩ j rfl
    by_cases mine : id = x
    · subst mine
      have none : j.history id = [] := by
        rw [record_eq_head?] at free
        exact List.head?_eq_none_iff.1 free
      refine .created me tx sagaType context d now starts known none ?_
      rw [installs, none]
      exact if_pos rfl
    · refine .unchanged _ (installs.trans (if_neg mine)) ?_
      intro (driven : me.operation.driven? = some x)
      rw [starts] at driven
      cases driven
  | cancelled me y tx old now cancels latest active unasked =>
    have id : old.id = y := id_of_mem_history (mem_history_of_record latest)
    have installs := history_cons_one (x := x)
      ⟨me, .commit tx, .ok (), [(old.marked now).replacing old]⟩ j rfl
    by_cases mine : y = x
    · subst mine
      obtain ⟨earlier, before⟩ := history_eq_cons_of_record latest
      refine .cancelled me tx old earlier now cancels before active unasked ?_
      rw [installs, before]
      exact if_pos id
    · refine .unchanged _ (installs.trans (if_neg fun same => mine (id.symm.trans same))) ?_
      intro (driven : me.operation.driven? = some x)
      rw [cancels] at driven
      cases driven
  | decided me y tx lease old base changed d t now driven held read unwritten latest known
      decides same next =>
    have id : changed.id = y := (congrArg Execution.Origin.id (origin_of_next next)).trans
      (id_of_mem_history (mem_history_of_record latest))
    have installs := history_cons_one (x := x)
      ⟨me, .commit tx, .ok (), [(changed.stamped now).replacing old]⟩ j rfl
    by_cases mine : y = x
    · subst mine
      have inside := lawful.base_mem (Operation.target?_of_driven? driven) read
      obtain ⟨earlier, before⟩ := history_eq_cons_of_record latest
      refine .decided me tx lease old earlier base changed d t now driven held read unwritten
        before (before ▸ inside) known decides same next ?_
      rw [installs, before]
      exact if_pos id
    · refine .unchanged _ (installs.trans (if_neg fun same => mine (id.symm.trans same))) ?_
      intro (driven' : me.operation.driven? = some x)
      exact absurd (Option.some.inj (driven.symm.trans driven')) mine
  | _ => exact .unchanged _ (history_cons_none _ _ rfl) fun _ => rfl

/-! ## Histories of a single owner -/

/-- The rows of an execution are those of a single owner that follows one registered
definition. -/
structure Journal.OwnedBy (e : Engine) (d : SagaDefinition) (x : String) (j : Journal) : Prop where
  known : ∀ row ∈ j.history x, e.definitionOf row = .ok d
  lineage : ∃ calls, Lineage d (j.history x) calls

theorem Journal.OwnedBy.extend {earlier : List Execution} {old new : Execution}
    (owned : j.OwnedBy e d x) (before : j.history x = old :: earlier)
    (history : Journal.history x (ev :: j) = new :: old :: earlier)
    (origin : new.origin = old.origin)
    (lineage : ∃ calls, Lineage d (new :: old :: earlier) calls) :
    Journal.OwnedBy e d x (ev :: j) := by
  refine ⟨?_, history ▸ lineage⟩
  intro row inside
  rw [history, ← before] at inside
  rcases List.mem_cons.1 inside with rfl | older
  · have oldMem : old ∈ j.history x := before ▸ List.mem_cons_self
    exact (definitionOf_congr origin).2 (owned.known old oldMem)
  · exact owned.known row older

/-- In a lawful journal every execution has the history of a single owner. -/
theorem Lawful.ownedBy (lawful : Lawful e j) (x : String)
    (present : j.history x ≠ []) : ∃ d, j.OwnedBy e d x := by
  induction lawful with
  | start => exact absurd rfl present
  | @next j ev lawful permitted ih =>
    cases permitted.extends lawful x with
    | unchanged _ history _ =>
      obtain ⟨d, known, lineage⟩ := ih (history ▸ present)
      exact ⟨d, history ▸ known, history ▸ lineage⟩
    | created me tx sagaType context d now starts known free history =>
      refine ⟨d, ?_, [], ?_⟩
      · intro row inside
        rw [history] at inside
        cases List.mem_singleton.1 inside
        exact definitionOf_eq_ok.2 ⟨known, rfl⟩
      · rw [history]
        exact .created x sagaType context now
    | cancelled me tx old earlier now cancels before active unasked history =>
      obtain ⟨d, owned⟩ := ih (by rw [before]; exact List.cons_ne_nil _ _)
      obtain ⟨calls, lineage⟩ := owned.lineage
      rw [before] at lineage
      exact ⟨d, owned.extend before history rfl ⟨calls, lineage.cancelled now active unasked⟩⟩
    | decided me tx lease old earlier base changed d' t now driven held read unwritten before
        inside known decides same next history =>
      obtain ⟨d, owned⟩ := ih (by rw [before]; exact List.cons_ne_nil _ _)
      have followed : d' = d :=
        Except.ok.inj (known.symm.trans (owned.known base (before ▸ inside)))
      subst followed
      obtain ⟨calls, lineage⟩ := owned.lineage
      rw [before] at lineage
      exact ⟨d', owned.extend before history (origin_of_stored next now)
        ⟨_, lineage.decided now inside same decides next⟩⟩

theorem Lawful.ownedBy_of_known (lawful : Lawful e j) (inside : row ∈ j.history x)
    (known : e.definitionOf row = .ok d) : j.OwnedBy e d x := by
  obtain ⟨d', owned⟩ := lawful.ownedBy x (List.ne_nil_of_mem inside)
  have same : d' = d := Except.ok.inj ((owned.known row inside).symm.trans known)
  exact same ▸ owned

namespace Journal.OwnedBy

theorem wellFormed (owned : j.OwnedBy e d x) (fits : d.Fits) (inside : row ∈ j.history x) :
    WellFormed d row := by
  obtain ⟨calls, lineage⟩ := owned.lineage
  exact lineage.wellFormed fits row inside

theorem record_follows (owned : j.OwnedBy e d x) (fits : d.Fits) (inside : row ∈ j.history x)
    {latest : Execution} (found : j.record x = some latest) :
    latest = row ∨ Follows d latest row := by
  obtain ⟨calls, lineage⟩ := owned.lineage
  have ordered := lineage.follows fits
  obtain ⟨earlier, history⟩ := history_eq_cons_of_record found
  rw [history] at ordered inside
  rcases List.mem_cons.1 inside with same | older
  · exact .inl same.symm
  · exact .inr ((List.pairwise_cons.1 ordered).1 row older)

theorem record_eq_of_version (owned : j.OwnedBy e d x) (fits : d.Fits)
    (inside : row ∈ j.history x) {latest : Execution} (found : j.record x = some latest)
    (version : latest.version = row.version) : latest = row := by
  obtain ⟨calls, lineage⟩ := owned.lineage
  exact lineage.eq_of_version_eq fits (mem_history_of_record found) inside version

end Journal.OwnedBy

theorem record_of_mem_history (inside : row ∈ j.history x) :
    ∃ latest, j.record x = some latest := by
  rw [record_eq_head?]
  cases h : j.history x with
  | nil => rw [h] at inside; cases inside
  | cons latest earlier => exact ⟨latest, rfl⟩

/-- Progress made by somebody else is never taken back. -/
theorem Journal.Overtaken.mono (overtaken : j.Overtaken x base) (lawful : Lawful e j')
    (fits : e.Fits) (later : j <:+ j') (inside : base ∈ j.history x) : j'.Overtaken x base := by
  obtain ⟨row, found, differs⟩ := overtaken
  have rowMem := (history_suffix x later).subset (mem_history_of_record found)
  obtain ⟨d, owned⟩ := lawful.ownedBy x (List.ne_nil_of_mem rowMem)
  have small := fits.of_definitionOf (owned.known row rowMem)
  obtain ⟨latest, found'⟩ := record_of_mem_history rowMem
  refine ⟨latest, found', ?_⟩
  have before := lawful.suffix later
  have owned' := before.ownedBy_of_known (mem_history_of_record found) (owned.known row rowMem)
  rcases owned'.record_follows small inside found with same | follows
  · exact absurd (congrArg Execution.progress same) differs
  · intro same
    have up : base.rank d < row.rank d := by
      rcases follows.ahead with up | ⟨equal, _⟩
      · exact up
      · exact absurd equal differs
    have back := Execution.rank_eq_of_progress_eq (d := d) same
    rcases owned.record_follows small rowMem found' with equal | further
    · rw [equal] at back
      omega
    · have := further.rank_le
      omega

/-! ## The last row -/

/-- The committed row is a terminal one. -/
structure Journal.Finished (j : Journal) (x : String) (row : Execution) : Prop where
  record : j.record x = some row
  terminal : row.status.isTerminal = true

theorem Lineage.unfinished {new old : Execution} {older : List Execution} {calls : List CallMade}
    (lineage : Lineage d (new :: old :: older) calls) (fits : d.Fits) :
    old.status.isTerminal = false := by
  cases lineage with
  | cancelled now before active => rcases active with status | status <;> rw [status] <;> rfl
  | decided now before read same decides next =>
    have formed := before.wellFormed fits
    have stores := decides.stores_of_next fits (formed _ List.mem_cons_self) (formed _ read)
      same next
    exact stores.move.not_isTerminal

/-- Nothing is committed after a terminal row. -/
theorem Journal.Finished.history_eq (finished : j.Finished x row) (lawful : Lawful e j')
    (fits : e.Fits) (later : j <:+ j') : j'.history x = j.history x := by
  obtain ⟨found, terminal⟩ := finished
  obtain ⟨older, history⟩ := history_eq_cons_of_record found
  obtain ⟨newer, split⟩ := history_suffix x later
  rw [history] at split
  rcases List.eq_nil_or_concat newer with rfl | ⟨front, last, rfl⟩
  · rw [history, ← split]
    rfl
  · have inside : row ∈ j'.history x := by simp [← split]
    obtain ⟨d, owned⟩ := lawful.ownedBy x (List.ne_nil_of_mem inside)
    obtain ⟨calls, lineage⟩ := owned.lineage
    rw [← split, List.concat_eq_append, List.append_assoc] at lineage
    obtain ⟨calls, recent⟩ := lineage.suffix
    have unfinished := recent.unfinished (fits.of_definitionOf (owned.known row inside))
    rw [terminal] at unfinished
    cases unfinished

theorem Journal.Finished.mono (finished : j.Finished x row) (lawful : Lawful e j') (fits : e.Fits)
    (later : j <:+ j') : j'.Finished x row := by
  refine ⟨?_, finished.terminal⟩
  rw [record_eq_head?, finished.history_eq lawful fits later, ← record_eq_head?]
  exact finished.record

end

end SagaEngine
