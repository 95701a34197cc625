import Mathlib.Data.Nat.Pairing
import SagaEngine.Proofs.Cluster
import SagaEngine.Proofs.Rule
/-!
# Operations and sweeps on one store

A fleet is the committed rows, what was served so far and the operations and recovery sweeps
that were begun. A sweep resumes the executions that it finds, one after another, so one
sweep is many operations to the store. What a fleet committed is also what a lawful
journal tells, in which every operation has a number of its own. Main statements:
`Fleet.Reachable.mirrored` and `Fleet.Leads.finished`.
-/

namespace SagaEngine

/-- What somebody runs on an engine: an operation, or a sweep at a time. -/
inductive Job where
  | run (operation : Operation)
  | sweep (options : RecoveryOptions) (now : Nat)

namespace Job

inductive Result where
  | ran (result : Operation.Result)
  | swept (stats : SweepStats)
  deriving DecidableEq

def program (e : Engine) : Job → Action Result
  | run operation => do return .ran (← operation.program e)
  | sweep options now => do return .swept (← Sweep.once e options now)

end Job

/-- A job that was begun, with the transactions that it opened and what is left of it. -/
structure Errand where
  job : Job
  opened : Numbered PendingWrites := {}
  rest : Action Job.Result

/-- A request of an errand with its answer, and the rows that were committed by it. -/
structure Served where
  errand : Nat
  request : Request
  answer : Response request
  installed : List Execution

/-- The committed rows, what was served so far, latest first, and the jobs that were begun. -/
structure Fleet where
  rows : Dictionary Execution := Dictionary.empty
  trace : List Served := []
  errands : List Errand := []

def Errand.result? (errand : Errand) : Option (Except Failure Job.Result) :=
  match errand.rest with
  | Program.done value => some (.ok value)
  | Program.failed failure => some (.error failure)
  | Program.ask .. => none

namespace Fleet

/-- One step of a fleet: a job is begun, or an errand has its next request answered, by the store
in memory or, for everything else, in any way. -/
inductive Step (e : Engine) (φ : Fleet) : Fleet → Prop
  | begin (job : Job) :
      Step e φ { φ with errands := φ.errands ++ [{ job, rest := job.program e }] }
  | answer (i : Nat) (job : Job) (opened : Numbered PendingWrites) (q : Request)
      (next : Response q → Action Job.Result) (answer : Response q) (s' : MemoryStore)
      (running : φ.errands[i]? = some ⟨job, opened, Program.ask q next⟩)
      (serves : Serves ⟨φ.rows, opened⟩ q answer s') :
      Step e φ
        { rows := s'.committed
          trace := ⟨i, q, answer, installs ⟨φ.rows, opened⟩ q answer⟩ :: φ.trace
          errands := φ.errands.set i ⟨job, s'.transactions, next answer⟩ }

/-- One fleet comes about from another one. -/
abbrev Leads (e : Engine) : Fleet → Fleet → Prop := Relation.ReflTransGen (Step e)

/-- The fleets that come about from an empty store. -/
abbrev Reachable (e : Engine) (φ : Fleet) : Prop := Leads e {} φ

end Fleet

/-- The rows of an execution that were ever committed, latest first. -/
def Served.history (x : String) (trace : List Served) : List Execution :=
  trace.flatMap fun served => (served.installed.filter (fun row => row.id = x)).reverse

/-! ## Many operations for one errand -/

/-- An errand and the number of one of its operations make the number of an actor. -/
def Actor.servant (i k : Nat) (operation : Operation) : Actor := ⟨Nat.pair i k, operation⟩

/-- The errand that an actor acts for. -/
def Actor.master (me : Actor) : Nat := (Nat.unpair me.number).1

/-- Whatever others do between the requests, a program commits nothing by a request or somebody
who acts for the errand may make the request. -/
def Delegates {α : Type} (e : Engine) (i : Nat) : Action α → View → Prop
  | Program.ask q next, v =>
    ∀ j : Journal, Lawful e j → (∃ others, (∀ ev ∈ others, ev.actor.master ≠ i) ∧
        j = others ++ v.journal) →
      ∀ answer s', Serves ⟨j.rows, v.opened⟩ q answer s' →
        installs ⟨j.rows, v.opened⟩ q answer = [] ∧
            Delegates e i (next answer) ⟨j, s'.transactions⟩ ∨
          ∃ me : Actor, me.master = i ∧
            Permitted e j ⟨me, q, answer, installs ⟨j.rows, v.opened⟩ q answer⟩ ∧
            Delegates e i (next answer)
              ⟨⟨me, q, answer, installs ⟨j.rows, v.opened⟩ q answer⟩ :: j, s'.transactions⟩
  | _, _ => True

section

variable {e : Engine} {i : Nat} {v v' : View} {α β : Type} {me : Actor} {j j' : Journal}
  {x : String} {row : Execution}

theorem master_servant (i k : Nat) (operation : Operation) :
    (Actor.servant i k operation).master = i := by
  rw [Actor.master, Actor.servant, Nat.unpair_pair]

/-- An errand always has an operation left that has done nothing yet. -/
theorem exists_servant (j : Journal) (i : Nat) (operation : Operation) :
    ∃ k, j.attempt (Actor.servant i k operation) = {} := by
  have bounded : ∃ n, ∀ ev ∈ j, ev.actor.number < n := by
    induction j with
    | nil => exact ⟨0, by simp⟩
    | cons ev j ih =>
      obtain ⟨n, below⟩ := ih
      refine ⟨max n (ev.actor.number + 1), ?_⟩
      intro other inside
      rcases List.mem_cons.1 inside with rfl | old
      · omega
      · have := below other old
        omega
  obtain ⟨n, below⟩ := bounded
  refine ⟨n, attempt_of_stranger ?_⟩
  intro ev inside
  have := below ev inside
  have large := Nat.right_le_pair i n
  show ev.actor.number ≠ Nat.pair i n
  omega

namespace Delegates

theorem of_ensures {p : Action α} {post : Except Failure α → View → Prop}
    (master : me.master = i) (ensures : Ensures (contract e me) post p v) :
    Delegates e i p v := by
  induction p generalizing v with
  | done | failed => trivial
  | ask q next ih =>
    rintro j lawful ⟨others, foreign, rfl⟩ answer s' serves
    have drift : (contract e me).drifts v ⟨others ++ v.journal, v.opened⟩ := by
      refine ⟨lawful, rfl, others, ?_, rfl⟩
      rintro ev inside rfl
      exact foreign ev inside master
    obtain ⟨permitted, rest⟩ := ensures _ drift answer ⟨_, s'.transactions⟩ ⟨s', serves, rfl, rfl⟩
    exact .inr ⟨me, master, permitted, ih answer rest⟩

/-- A program that only reads needs nobody. -/
theorem of_reading {p : Action α} {post : Except Failure α → Noted Unit → Prop}
    (reads : Ensures (Rule.reading.contract fun _ => True) post p ⟨v.opened, ()⟩) :
    Delegates e i p v := by
  induction p generalizing v with
  | done | failed => trivial
  | ask q next ih =>
    intro j lawful _ answer s' serves
    obtain ⟨allowed, rest⟩ := reads _ rfl answer _ ⟨j.rows, s', trivial, serves, rfl⟩
    exact .inl ⟨(allowed j.rows).2, ih answer rest⟩

theorem bind {p : Action α} {f : α → Action β} (lawful : Lawful e v.journal)
    (first : Delegates e i p v)
    (rest : ∀ value v', Lawful e v'.journal → Delegates e i (f value) v') :
    Delegates e i (p >>= f) v := by
  induction p generalizing v with
  | done value => exact rest value v lawful
  | failed failure => trivial
  | ask q next ih =>
    intro j lawful' others answer s' serves
    rcases first j lawful' others answer s' serves with ⟨nothing, first⟩ | ⟨me, master, may, first⟩
    · exact .inl ⟨nothing, ih answer lawful' first⟩
    · exact .inr ⟨me, master, may, ih answer (lawful'.next may) first⟩

theorem attempt {p : Action α} (delegates : Delegates e i p v) : Delegates e i p.attempt v := by
  induction p generalizing v with
  | done | failed => trivial
  | ask q next ih =>
    intro j lawful others answer s' serves
    rcases delegates j lawful others answer s' serves with ⟨nothing, rest⟩ | ⟨me, master, may, rest⟩
    · exact .inl ⟨nothing, ih answer rest⟩
    · exact .inr ⟨me, master, may, ih answer rest⟩

theorem ask {q : Request} (nothing : ∀ s answer, installs s q answer = []) :
    Delegates e i (Action.ask q) v := by
  intro j _ _ answer s' _
  exact .inl ⟨nothing _ answer, trivial⟩

/-- Doing nothing while others do something keeps what an errand delegates. -/
theorem drift {p : Action α} (delegates : Delegates e i p v) {others : Journal}
    (foreign : ∀ ev ∈ others, ev.actor.master ≠ i) :
    Delegates e i p ⟨others ++ v.journal, v.opened⟩ := by
  cases p with
  | done | failed => trivial
  | ask q next =>
    rintro j lawful' ⟨later, foreign', rfl⟩
    refine delegates _ lawful' ⟨later ++ others, ?_, (List.append_assoc _ _ _).symm⟩
    intro ev inside
    rcases List.mem_append.1 inside with new | old
    · exact foreign' ev new
    · exact foreign ev old

end Delegates

/-! ## Every job delegates -/

theorem operation_delegates (fits : e.Fits) (i : Nat) (operation : Operation)
    (lawful : Lawful e v.journal) : Delegates e i (operation.program e) v := by
  obtain ⟨k, fresh⟩ := exists_servant v.journal i operation
  exact .of_ensures (master_servant i k operation) (program_ensures fits lawful fresh)

theorem resume_delegates (fits : e.Fits) (i : Nat) (x : String) :
    Delegates e i (e.resume x) v := by
  obtain ⟨k, fresh⟩ := exists_servant v.journal i (.resume x)
  have free : (v.journal.attempt (Actor.servant i k (.resume x))).Free := by
    rw [fresh]
    exact ⟨rfl, fun leased => nomatch leased⟩
  exact .of_ensures (master_servant i k (.resume x))
    (resume_ensures fits rfl (fun same => nomatch same) free)

theorem handleAll_delegates (fits : e.Fits) (i : Nat) (o : RecoveryOptions) (now : Nat)
    (rows : List Execution) (left : Nat) (stats : SweepStats) (lawful : Lawful e v.journal) :
    Delegates e i (Sweep.handleAll e o now rows left stats) v := by
  induction rows generalizing left stats v with
  | nil => trivial
  | cons row rest ih =>
    cases left with
    | zero => trivial
    | succ left =>
      refine .bind lawful (.ask fun _ _ => rfl) ?_
      intro alerted v₁ lawful₁
      split
      · exact ih _ _ lawful₁
      · refine .bind lawful₁ ?_ fun stats v₂ lawful₂ => ih left stats lawful₂
        rw [Sweep.handle]
        split
        · refine .bind lawful₁ (.ask fun _ _ => rfl) ?_
          intro _ v₂ lawful₂
          refine .bind lawful₂ (.ask fun _ _ => rfl) ?_
          intros
          trivial
        · refine .bind lawful₁ (resume_delegates fits i row.id).attempt ?_
          intro result v₂ lawful₂
          cases result with
          | ok value => trivial
          | error failure =>
            refine .bind lawful₂ (.ask fun _ _ => rfl) ?_
            intros
            trivial

theorem job_delegates (fits : e.Fits) (i : Nat) (job : Job) (lawful : Lawful e v.journal) :
    Delegates e i (job.program e) v := by
  cases job with
  | run operation =>
    refine .bind lawful (operation_delegates fits i operation lawful) ?_
    intros
    trivial
  | sweep options now =>
    refine .bind lawful ?_ fun _ _ _ => trivial
    refine .bind lawful (.ask fun _ _ => rfl) ?_
    intro alerted v₁ lawful₁
    have finds : Ensures (Rule.reading.contract fun _ => True) (fun _ _ => True)
        (Sweep.find (Sweep.query options now alerted)) ⟨v₁.opened, ()⟩ :=
      Ensures.stale fun _ _ _ => trivial
    refine .bind lawful₁ (.of_reading finds) ?_
    · intro found v₂ lawful₂
      refine .bind lawful₂ (handleAll_delegates fits i options now found _ _ lawful₂) ?_
      intro stats v₃ lawful₃
      dsimp only
      split
      · refine .bind lawful₃ (.ask fun _ _ => rfl) ?_
        intros
        trivial
      · trivial

/-! ## What a fleet committed -/

/-- A lawful journal mirrors what a fleet committed, and every errand goes on so. -/
structure Mirrors (e : Engine) (j : Journal) (φ : Fleet) : Prop where
  lawful : Lawful e j
  rows : φ.rows = j.rows
  history : ∀ x, Served.history x φ.trace = j.history x
  delegates : ∀ (i : Nat) (errand : Errand), φ.errands[i]? = some errand →
    Delegates e i errand.rest ⟨j, errand.opened⟩

theorem mirrors_start (e : Engine) : Mirrors e [] {} where
  lawful := .start
  rows := rfl
  history _ := rfl
  delegates := by simp

/-- What a fleet committed after a step is mirrored by a later journal. -/
theorem Mirrors.step {φ φ' : Fleet} (mirrors : Mirrors e j φ) (fits : e.Fits) (step : φ.Step e φ') :
    ∃ j', j <:+ j' ∧ Mirrors e j' φ' := by
  cases step with
  | begin job =>
    refine ⟨j, List.suffix_refl _, mirrors.lawful, mirrors.rows, mirrors.history, ?_⟩
    intro i errand found
    by_cases old : i < φ.errands.length
    · rw [List.getElem?_append_left old] at found
      exact mirrors.delegates i errand found
    · rw [List.getElem?_append_right (by omega)] at found
      cases List.mem_singleton.1 (List.mem_of_getElem? found)
      exact job_delegates fits i job mirrors.lawful
  | answer i job opened q next answer s' running serves =>
    obtain ⟨inRange, -⟩ := List.getElem?_eq_some_iff.1 running
    have committed := serves.committed
    rw [mirrors.rows] at serves committed
    have others (j' : Journal) (later : List Event) (split : j' = later ++ j)
        (foreign : ∀ ev ∈ later, ev.actor.master = i)
        (rest : Delegates e i (next answer) ⟨j', s'.transactions⟩) (k : Nat) (errand : Errand)
        (found : (φ.errands.set i ⟨job, s'.transactions, next answer⟩)[k]? = some errand) :
        Delegates e k errand.rest ⟨j', errand.opened⟩ := by
      by_cases same : k = i
      · subst same
        rw [List.getElem?_set_self inRange] at found
        cases found
        exact rest
      · rw [List.getElem?_set_ne (Ne.symm same)] at found
        subst split
        refine (mirrors.delegates k errand found).drift ?_
        intro ev inside master
        exact same (master.symm.trans (foreign ev inside))
    have current :=
      mirrors.delegates i _ running j mirrors.lawful ⟨[], by simp, rfl⟩ answer s' serves
    rw [mirrors.rows]
    -- Nothing was committed, or the event is one more that the journal has to tell.
    rcases current with ⟨nothing, rest⟩ | ⟨me, master, may, rest⟩
    · rw [nothing] at committed ⊢
      refine ⟨j, List.suffix_refl _, mirrors.lawful, committed, ?_, ?_⟩
      · intro x
        exact mirrors.history x
      · exact others j [] rfl (by simp) rest
    · have lawful := mirrors.lawful.next may
      refine ⟨_, List.suffix_cons _ _, lawful, committed, ?_, ?_⟩
      · intro x
        exact congrArg _ (mirrors.history x)
      · exact others _ [_] rfl (by simpa using master) rest

theorem Mirrors.leads {φ φ' : Fleet} (mirrors : Mirrors e j φ) (fits : e.Fits)
    (leads : φ.Leads e φ') : ∃ j', j <:+ j' ∧ Mirrors e j' φ' := by
  induction leads with
  | refl => exact ⟨j, List.suffix_refl _, mirrors⟩
  | tail _ step ih =>
    obtain ⟨j₁, later₁, mirrors₁⟩ := ih
    obtain ⟨j₂, later₂, mirrors₂⟩ := mirrors₁.step fits step
    exact ⟨j₂, later₁.trans later₂, mirrors₂⟩

theorem Fleet.Reachable.mirrored {φ : Fleet} (reachable : φ.Reachable e) (fits : e.Fits) :
    ∃ j, Mirrors e j φ := by
  obtain ⟨j, -, mirrors⟩ := (mirrors_start e).leads fits reachable
  exact ⟨j, mirrors⟩

/-- Only the last row of an execution is terminal. -/
theorem Mirrors.unfinished {φ : Fleet} (mirrors : Mirrors e j φ) (fits : e.Fits)
    {older : List Execution} (history : Served.history x φ.trace = row :: older) :
    ∀ old ∈ older, old.status.isTerminal = false := by
  intro old inside
  rw [mirrors.history] at history
  have rowMem : row ∈ j.history x := history ▸ List.mem_cons_self
  obtain ⟨d, owned⟩ := mirrors.lawful.ownedBy x (List.ne_nil_of_mem rowMem)
  obtain ⟨calls, lineage⟩ := owned.lineage
  obtain ⟨front, back, rfl⟩ := List.append_of_mem inside
  have small := fits.of_definitionOf (owned.known row rowMem)
  rw [history] at lineage
  rcases List.eq_nil_or_concat front with rfl | ⟨front, last, rfl⟩
  · exact lineage.unfinished small
  · rw [List.concat_eq_append, List.append_assoc, ← List.cons_append] at lineage
    obtain ⟨calls, recent⟩ := lineage.suffix
    exact recent.unfinished small

theorem Mirrors.finished {φ : Fleet} (mirrors : Mirrors e j φ) (found : φ.rows.get? x = some row)
    (terminal : row.status.isTerminal = true) : j.Finished x row :=
  ⟨(congrArg (Dictionary.get? · x) mirrors.rows).symm.trans found, terminal⟩

/-- A terminal row stays the committed one, and nothing else is committed after it. -/
theorem Fleet.Leads.finished {φ φ' : Fleet} (leads : φ.Leads e φ') (reachable : φ.Reachable e)
    (fits : e.Fits) (found : φ.rows.get? x = some row) (terminal : row.status.isTerminal = true) :
    φ'.rows.get? x = some row ∧ Served.history x φ'.trace = Served.history x φ.trace := by
  obtain ⟨j, mirrors⟩ := reachable.mirrored fits
  obtain ⟨j', later, mirrors'⟩ := mirrors.leads fits leads
  have finished := mirrors.finished found terminal
  refine ⟨?_, ?_⟩
  · rw [mirrors'.rows]
    exact (finished.mono mirrors'.lawful fits later).record
  · rw [mirrors.history, mirrors'.history]
    exact finished.history_eq mirrors'.lawful fits later

/-! ## Policies -/

/-- A note on one errand that is taken from what was served. -/
def Served.note {T : Type} (after : T → (q : Request) → Response q → List Execution → T) (first : T)
    (i : Nat) : List Served → T
  | [] => first
  | served :: earlier =>
    if served.errand = i then
      after (note after first i earlier) served.request served.answer served.installed
    else note after first i earlier

/-- The rule that jobs of some kind keep to, the committed rows they may meet and what holds of
the note on such a job at its end. -/
structure Policy (T : Type) where
  about : Job → Prop
  rule : Job → Rule T
  possible : Dictionary Execution → Prop
  first : T
  post : Job → Except Failure Job.Result → T → Prop

namespace Policy

variable {T : Type}

def note (g : Policy T) (job : Job) (i : Nat) (trace : List Served) : T :=
  Served.note (g.rule job).after g.first i trace

/-- The part of a job that is left to do keeps to the policy. -/
def Follows (g : Policy T) (job : Job) (rest : Action Job.Result) (s : Noted T) : Prop :=
  Ensures ((g.rule job).contract g.possible) (fun r s => g.post job r s.note) rest s

def Obeyed (g : Policy T) (e : Engine) : Prop :=
  ∀ job, g.about job → ∀ opened, g.Follows job (job.program e) ⟨opened, g.first⟩

def Keeps (g : Policy T) (φ : Fleet) (i : Nat) : Prop :=
  ∀ errand, φ.errands[i]? = some errand → g.about errand.job →
    g.Follows errand.job errand.rest ⟨errand.opened, g.note errand.job i φ.trace⟩

theorem Follows.ask {g : Policy T} {job : Job} {q : Request}
    {next : Response q → Action Job.Result} {opened : Numbered PendingWrites} {note : T}
    (follows : g.Follows job (Program.ask q next) ⟨opened, note⟩) {rows : Dictionary Execution}
    (may : g.possible rows) {answer : Response q} {s' : MemoryStore}
    (serves : Serves ⟨rows, opened⟩ q answer s') :
    (g.rule job).allows note q answer (installs ⟨rows, opened⟩ q answer) ∧
      g.Follows job (next answer) ⟨s'.transactions,
        (g.rule job).after note q answer (installs ⟨rows, opened⟩ q answer)⟩ := by
  obtain ⟨allowed, rest⟩ := follows _ rfl answer _ ⟨rows, s', may, serves, rfl⟩
  exact ⟨allowed rows, rest⟩

theorem Follows.ends {g : Policy T} {errand : Errand} {note : T} {r : Except Failure Job.Result}
    (follows : g.Follows errand.job errand.rest ⟨errand.opened, note⟩)
    (ended : errand.result? = some r) : g.post errand.job r note := by
  obtain ⟨job, opened, rest⟩ := errand
  cases rest with
  | done value =>
    cases ended
    exact follows
  | failed failure =>
    cases ended
    exact follows
  | ask q next => cases ended

end Policy

theorem note_other {T : Type} {after : T → (q : Request) → Response q → List Execution → T}
    {first : T} {served : Served} {trace : List Served} (other : served.errand ≠ i) :
    Served.note after first i (served :: trace) = Served.note after first i trace :=
  if_neg other

theorem note_others {T : Type} {after : T → (q : Request) → Response q → List Execution → T}
    {first : T} {others trace : List Served} (foreign : ∀ served ∈ others, served.errand ≠ i) :
    Served.note after first i (others ++ trace) = Served.note after first i trace := by
  induction others with
  | nil => rfl
  | cons served others ih =>
    rw [List.cons_append, note_other (foreign served List.mem_cons_self)]
    exact ih fun other inside => foreign other (List.mem_cons_of_mem _ inside)

theorem Fleet.Reachable.served_lt {φ : Fleet} (reachable : φ.Reachable e) :
    ∀ served ∈ φ.trace, served.errand < φ.errands.length := by
  induction reachable with
  | refl => simp
  | tail _ step ih =>
    cases step with
    | begin job =>
      intro served inside
      have := ih served inside
      simp only [List.length_append, List.length_singleton]
      omega
    | answer i job opened q next answer s' running serves =>
      obtain ⟨inRange, -⟩ := List.getElem?_eq_some_iff.1 running
      intro served inside
      rw [List.length_set]
      rcases List.mem_cons.1 inside with rfl | old
      · exact inRange
      · exact ih served old

/-- What a step of a fleet did to one errand: nothing, or the errand was begun or had its next
request answered. -/
inductive Fleet.Moved (e : Engine) (φ φ' : Fleet) (i : Nat) (errand : Errand) : Prop
  | idle (still : φ.errands[i]? = some errand) (others : List Served)
      (foreign : ∀ served ∈ others, served.errand ≠ i) (trace : φ'.trace = others ++ φ.trace)
  | begun (job : Job) (new : i = φ.errands.length) (first : errand = { job, rest := job.program e })
      (trace : φ'.trace = φ.trace)
  | answered (job : Job) (opened : Numbered PendingWrites) (q : Request)
      (next : Response q → Action Job.Result) (answer : Response q) (s' : MemoryStore)
      (running : φ.errands[i]? = some ⟨job, opened, Program.ask q next⟩)
      (serves : Serves ⟨φ.rows, opened⟩ q answer s')
      (later : errand = ⟨job, s'.transactions, next answer⟩)
      (trace : φ'.trace = ⟨i, q, answer, installs ⟨φ.rows, opened⟩ q answer⟩ :: φ.trace)

theorem Fleet.Step.moved {φ φ' : Fleet} {errand : Errand} (step : φ.Step e φ')
    (here : φ'.errands[i]? = some errand) : Fleet.Moved e φ φ' i errand := by
  cases step with
  | begin job =>
    by_cases old : i < φ.errands.length
    · rw [List.getElem?_append_left old] at here
      exact .idle here [] (by simp) rfl
    · have inRange := (List.getElem?_eq_some_iff.1 here).1
      rw [List.length_append, List.length_singleton] at inRange
      rw [List.getElem?_append_right (by omega)] at here
      exact .begun job (by omega) (List.mem_singleton.1 (List.mem_of_getElem? here)) rfl
  | answer k job opened q next answer s' running serves =>
    by_cases same : k = i
    · subst same
      obtain ⟨inRange, -⟩ := List.getElem?_eq_some_iff.1 running
      rw [List.getElem?_set_self inRange] at here
      exact .answered job opened q next answer s' running serves (Option.some.inj here).symm rfl
    · rw [List.getElem?_set_ne same] at here
      exact .idle here [_] (by simpa using same) rfl

/-- An errand keeps to a policy in every step, its own and those of others. -/
theorem Policy.Keeps.step {T : Type} {g : Policy T} {φ φ' : Fleet} (keeps : g.Keeps φ i)
    (obeyed : g.Obeyed e) (reachable : φ.Reachable e) (may : g.possible φ.rows)
    (step : φ.Step e φ') : g.Keeps φ' i := by
  intro errand here about
  cases step.moved here with
  | idle still others foreign trace =>
    rw [note, trace, note_others foreign]
    exact keeps errand still about
  | begun job new first trace =>
    subst first
    have fresh : g.note job i φ.trace = g.first := by
      have foreign (served : Served) (inside : served ∈ φ.trace) : served.errand ≠ i := by
        have := reachable.served_lt served inside
        omega
      rw [note, ← List.append_nil φ.trace, note_others foreign]
      rfl
    rw [trace, fresh]
    exact obeyed job about _
  | answered job opened q next answer s' running serves later trace =>
    subst later
    have noted : g.note job i φ'.trace = (g.rule job).after (g.note job i φ.trace) q answer
        (installs ⟨φ.rows, opened⟩ q answer) := by
      rw [trace]
      exact if_pos rfl
    rw [noted]
    exact ((keeps _ running about).ask may serves).2

/-! ## One answer after another -/

/-- The fleet after the next request of an errand was answered, by the store in memory or else as
given. -/
def Fleet.answer (given : (q : Request) → Response q) (φ : Fleet) (i : Nat) : Fleet :=
  match φ.errands[i]? with
  | some ⟨job, opened, Program.ask q next⟩ =>
    let (answer, s') := serve ⟨φ.rows, opened⟩ q (given q)
    { rows := s'.committed
      trace := ⟨i, q, answer, installs ⟨φ.rows, opened⟩ q answer⟩ :: φ.trace
      errands := φ.errands.set i ⟨job, s'.transactions, next answer⟩ }
  | _ => φ

def Fleet.answers (given : (q : Request) → Response q) (i : Nat) : Nat → Fleet → Fleet
  | 0, φ => φ
  | n + 1, φ => answers given i n (φ.answer given i)

def Fleet.begin (e : Engine) (φ : Fleet) (job : Job) : Fleet :=
  { φ with errands := φ.errands ++ [{ job, rest := job.program e }] }

namespace Fleet

variable {φ : Fleet} {given : (q : Request) → Response q}

theorem begin_leads (φ : Fleet) (job : Job) : φ.Leads e (φ.begin e job) := .single (.begin job)

theorem answer_leads (φ : Fleet) (given : (q : Request) → Response q) (i : Nat) :
    φ.Leads e (φ.answer given i) := by
  rw [Fleet.answer]
  split
  · rename_i job opened q next running
    exact .single (.answer i job opened q next _ _ running (serve_serves _ q (given q)))
  · exact .refl

theorem answers_leads (φ : Fleet) (given : (q : Request) → Response q) (i n : Nat) :
    φ.Leads e (φ.answers given i n) := by
  induction n generalizing φ with
  | zero => exact .refl
  | succ n ih => exact (answer_leads φ given i).trans (ih _)

/-- However the requests of an errand are answered, it comes to its end. -/
theorem exists_answers (φ : Fleet) (given : (q : Request) → Response q) (i : Nat) :
    ∃ n, ∀ errand, (φ.answers given i n).errands[i]? = some errand → errand.result? ≠ none := by
  cases here : φ.errands[i]? with
  | none => exact ⟨0, fun errand found => nomatch here.symm.trans found⟩
  | some errand =>
    obtain ⟨job, opened, rest⟩ := errand
    induction rest generalizing φ opened with
    | done value =>
      refine ⟨0, ?_⟩
      intro errand found
      cases here.symm.trans found
      exact nofun
    | failed failure =>
      refine ⟨0, ?_⟩
      intro errand found
      cases here.symm.trans found
      exact nofun
    | ask q next ih =>
      obtain ⟨inRange, -⟩ := List.getElem?_eq_some_iff.1 here
      have moved : (φ.answer given i).errands[i]? =
          some ⟨job, (serve ⟨φ.rows, opened⟩ q (given q)).2.transactions,
            next (serve ⟨φ.rows, opened⟩ q (given q)).1⟩ := by
        rw [Fleet.answer, here]
        exact List.getElem?_set_self inRange
      obtain ⟨n, ends⟩ := ih _ _ _ moved
      exact ⟨n + 1, ends⟩

end Fleet

end

end SagaEngine
