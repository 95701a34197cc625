import SagaEngine.Engine.Orchestrator
import SagaEngine.Proofs.Decision
/-!
# The journal of an engine

Every answered request of every running operation, latest first, with the rows that
it installed in the store. The committed rows, the history of one execution, the
calls of its steps and what an owner did under its lease are all read off the
journal. Main statements: `record_eq_head?` and `history_suffix`.
-/

namespace SagaEngine

/-- An operation that somebody runs on an engine. -/
inductive Operation where
  | start (sagaType : String) (context : Context)
  | advance (executionId : String)
  | drive (executionId : String)
  | resume (executionId : String)
  | cancel (executionId : String)
  deriving DecidableEq

namespace Operation

/-- The execution that an operation moves forward. -/
def driven? : Operation → Option String
  | advance x => some x
  | drive x => some x
  | resume x => some x
  | _ => none

/-- The execution that an operation is about, if it exists before. -/
def target? : Operation → Option String
  | cancel x => some x
  | operation => operation.driven?

theorem target?_of_driven? {operation : Operation} {x : String}
    (driven : operation.driven? = some x) : operation.target? = some x := by
  cases operation <;> first | exact driven | cases driven

end Operation

/-- One run of an operation, under a number of its own. -/
structure Actor where
  number : Nat
  operation : Operation
  deriving DecidableEq

/-- A request with its answer, and the rows that were committed by it. -/
structure Event where
  actor : Actor
  request : Request
  answer : Response request
  installed : List Execution := []

/-- The events so far, latest first. -/
abbrev Journal := List Event

namespace Event

/-- The committed rows after an event. -/
def install (ev : Event) (rows : Dictionary Execution) : Dictionary Execution :=
  ev.installed.foldl (fun rows row => rows.insert row.id row) rows

def call? : Event → Option CallMade
  | ⟨_, .call _ call, reply, _⟩ => some ⟨call, reply⟩
  | _ => none

end Event

namespace Journal

def rows : Journal → Dictionary Execution
  | [] => Dictionary.empty
  | ev :: earlier => ev.install (rows earlier)

def record (j : Journal) (x : String) : Option Execution := j.rows.get? x

/-- The rows of an execution that were ever committed, latest first. -/
def history (x : String) : Journal → List Execution
  | [] => []
  | ev :: earlier => (ev.installed.filter (fun row => row.id = x)).reverse ++ history x earlier

/-- The step calls of an execution, oldest first. -/
def calls (x : String) : Journal → List CallMade
  | [] => []
  | ev :: earlier =>
    calls x earlier ++ ev.call?.toList.filter (fun made => made.call.executionId = x)

end Journal

/-- What an owner did since it last got a lease: the lease, unless it was given back, the
first row it read, its calls and the rows it committed. -/
structure Attempt where
  leased : Bool := false
  held : Option Lease := none
  base : Option Execution := none
  calls : List CallMade := []
  written : List Execution := []
  deriving DecidableEq

namespace Attempt

/-- What an owner did after one more event of its own. -/
def after (a : Attempt) : Event → Attempt
  | ⟨_, .acquire _, some lease, _⟩ => { leased := true, held := some lease }
  | ⟨_, .release _, _, _⟩ => { a with held := none }
  | ⟨_, .find _ _, .ok (some row), _⟩ => { a with base := a.base.or (some row) }
  | ⟨_, .call _ call, reply, _⟩ => { a with calls := a.calls ++ [⟨call, reply⟩] }
  | ⟨_, .commit _, _, installed⟩ => { a with written := a.written ++ installed }
  | _ => a

end Attempt

def Journal.attempt (me : Actor) : Journal → Attempt
  | [] => {}
  | ev :: earlier => if ev.actor = me then (attempt me earlier).after ev else attempt me earlier

/-- The request changes neither the committed rows nor what the journal tells about an
owner, unless rows are committed by it. -/
def Request.isQuiet : Request → Bool
  | .find .. => false
  | .acquire _ => false
  | .release _ => false
  | .call .. => false
  | .alert _ => false
  | .completed _ => false
  | _ => true

section

variable {me : Actor} {x : String} {j j' : Journal} {ev : Event} {c : CallMade}

/-! ## Rows and histories -/

theorem get?_install (rows : Dictionary Execution) (installed earlier : List Execution)
    (known : rows.get? x = earlier.head?) :
    (installed.foldl (fun rows row => rows.insert row.id row) rows).get? x =
      ((installed.filter (fun row => row.id = x)).reverse ++ earlier).head? := by
  induction installed generalizing rows earlier with
  | nil => simpa using known
  | cons row installed ih =>
    by_cases mine : row.id = x
    · have next := ih (rows.insert row.id row) (row :: earlier) (by simp [mine])
      simpa [mine] using next
    · have other : x ≠ row.id := fun same => mine same.symm
      have next := ih (rows.insert row.id row) earlier
        (by simp [Dictionary.get?_insert, other, known])
      simpa [mine] using next

theorem record_eq_head? (j : Journal) (x : String) : j.record x = (j.history x).head? := by
  induction j with
  | nil => rfl
  | cons ev earlier ih => exact get?_install _ _ _ ih

theorem mem_history_of_record {row : Execution} (found : j.record x = some row) :
    row ∈ j.history x := by
  rw [record_eq_head?] at found
  exact List.mem_of_head? found

theorem history_eq_cons_of_record {row : Execution} (found : j.record x = some row) :
    ∃ earlier, j.history x = row :: earlier := by
  rw [record_eq_head?] at found
  exact List.head?_eq_some_iff.1 found

theorem history_suffix (x : String) (later : j <:+ j') : j.history x <:+ j'.history x := by
  obtain ⟨newer, rfl⟩ := later
  induction newer with
  | nil => exact List.suffix_refl _
  | cons ev newer ih => exact ih.trans (List.suffix_append _ _)

theorem id_of_mem_history {row : Execution} (inside : row ∈ j.history x) : row.id = x := by
  induction j with
  | nil => cases inside
  | cons ev earlier ih =>
    rcases List.mem_append.1 inside with new | old
    · simpa using (List.mem_filter.1 (List.mem_reverse.1 new)).2
    · exact ih old

/-! ## Calls -/

theorem calls_sublist (x : String) (later : j <:+ j') :
    (j.calls x).Sublist (j'.calls x) := by
  obtain ⟨newer, rfl⟩ := later
  induction newer with
  | nil => exact List.Sublist.refl _
  | cons ev newer ih => exact ih.trans (List.sublist_append_left _ _)

theorem calls_cons_call (is : ev.call? = some c) (about : c.call.executionId = x) :
    Journal.calls x (ev :: j) = j.calls x ++ [c] := by
  simp [Journal.calls, is, about]

theorem calls_cons_other (other : ∀ sagaType call, ev.request ≠ .call sagaType call) :
    Journal.calls x (ev :: j) = j.calls x := by
  have none : ev.call? = none := by
    obtain ⟨actor, q, answer, installed⟩ := ev
    cases q with
    | call sagaType call => exact absurd rfl (other sagaType call)
    | _ => rfl
  simp [Journal.calls, none]

theorem not_call_of_quiet {q : Request} (quiet : q.isQuiet = true) (sagaType : String)
    (call : StepCall) : q ≠ .call sagaType call := by
  rintro rfl
  cases quiet

/-! ## What an owner did -/

theorem attempt_self (q : Request) (answer : Response q) (installed : List Execution) :
    Journal.attempt me (⟨me, q, answer, installed⟩ :: j) =
      (j.attempt me).after ⟨me, q, answer, installed⟩ := if_pos rfl

theorem attempt_own (own : ev.actor = me) :
    Journal.attempt me (ev :: j) = (j.attempt me).after ev := by
  rw [Journal.attempt, if_pos own]

theorem attempt_other (other : ev.actor ≠ me) : Journal.attempt me (ev :: j) = j.attempt me := by
  rw [Journal.attempt, if_neg other]

theorem attempt_others {others : Journal} (foreign : ∀ ev ∈ others, ev.actor ≠ me) :
    Journal.attempt me (others ++ j) = j.attempt me := by
  induction others with
  | nil => rfl
  | cons ev others ih =>
    rw [List.cons_append, attempt_other (foreign ev List.mem_cons_self)]
    exact ih fun other inside => foreign other (List.mem_cons_of_mem _ inside)

theorem after_quiet (a : Attempt) {q : Request} (answer : Response q) (quiet : q.isQuiet = true) :
    a.after ⟨me, q, answer, []⟩ = a := by
  cases q with
  | commit tx => simp [Attempt.after]
  | find | acquire | release | call | alert | completed => cases quiet
  | _ => rfl

theorem after_calls (a : Attempt) (made : c ∈ (a.after ev).calls) :
    c ∈ a.calls ∨ ev.call? = some c := by
  obtain ⟨actor, q, answer, installed⟩ := ev
  cases q with
  | call sagaType call =>
    rcases List.mem_append.1 made with old | new
    · exact .inl old
    · cases List.mem_singleton.1 new
      exact .inr rfl
  | acquire y =>
    cases answer with
    | none => exact .inl made
    | some lease => cases made
  | find tx y =>
    rcases answer with failure | _ | row <;> exact .inl made
  | _ => exact .inl made

theorem calls_of_own {own : Journal} (made : c ∈ (Journal.attempt me (own ++ j)).calls) :
    c ∈ (j.attempt me).calls ∨ ∃ ev ∈ own, ev.call? = some c := by
  induction own with
  | nil => exact .inl made
  | cons ev own ih =>
    have older (made : c ∈ (Journal.attempt me (own ++ j)).calls) :
        c ∈ (j.attempt me).calls ∨ ∃ ev' ∈ ev :: own, ev'.call? = some c := by
      rcases ih made with before | ⟨ev', inside, is⟩
      · exact .inl before
      · exact .inr ⟨ev', List.mem_cons_of_mem _ inside, is⟩
    by_cases mine : ev.actor = me
    · rw [List.cons_append, attempt_own mine] at made
      rcases after_calls _ made with before | is
      · exact older before
      · exact .inr ⟨ev, List.mem_cons_self, is⟩
    · rw [List.cons_append, attempt_other mine] at made
      exact older made

end

end SagaEngine
