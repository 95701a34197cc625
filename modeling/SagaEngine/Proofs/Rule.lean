import SagaEngine.Proofs.Interference
import SagaEngine.Recovery.Sweep
/-!
# Rules about single requests

Some properties of a program need no journal: it only reads, or it reports the rows that it
commits. A rule keeps a note on the requests served so far and says which one is allowed
next. Between two requests the committed rows may become any rows that are possible, while
the transactions of a program are its own. Main statements: `Ensures.within`,
`Ensures.load`, `Ensures.stale` and `Ensures.persists`.
-/

namespace SagaEngine

/-- The request changes nothing but what is known about open transactions, unless rows are
committed by it. -/
def Request.isRead : Request → Bool
  | .begin => true
  | .find .. => true
  | .listStale .. => true
  | .commit _ => true
  | .drop _ => true
  | .log _ => true
  | _ => false

/-- A note on the requests of a program and what it allows next, with the rows that a request
commits. Reading is always allowed and never noted. -/
structure Rule (T : Type) where
  after : T → (q : Request) → Response q → List Execution → T
  allows : T → (q : Request) → Response q → List Execution → Prop
  after_read : ∀ note q answer, q.isRead = true → after note q answer [] = note
  allows_read : ∀ note q answer, q.isRead = true → allows note q answer []

/-- The transactions of a program and the note on it. -/
structure Noted (T : Type) where
  opened : Numbered PendingWrites
  note : T

namespace Rule

/-- The contract of a program under a rule, where the committed rows are possible ones whenever
a request is served. -/
def contract {T : Type} (rule : Rule T) (possible : Dictionary Execution → Prop) :
    Contract Request Response (Noted T) where
  drifts s s' := s' = s
  answers s q answer s' := ∃ rows s₁, possible rows ∧ Serves ⟨rows, s.opened⟩ q answer s₁ ∧
    s' = ⟨s₁.transactions, rule.after s.note q answer (installs ⟨rows, s.opened⟩ q answer)⟩
  permits s q answer _ :=
    ∀ rows, rule.allows s.note q answer (installs ⟨rows, s.opened⟩ q answer)
  trans := by
    rintro s₁ s₂ s₃ rfl rfl
    rfl

/-- Nothing but reading. -/
def reading : Rule Unit where
  after _ _ _ _ := ()
  allows _ q _ installed := q.isRead = true ∧ installed = []
  after_read _ _ _ _ := rfl
  allows_read _ _ _ read := ⟨read, rfl⟩

end Rule

section

variable {T α : Type} {rule : Rule T} {possible : Dictionary Execution → Prop}
  {opened : Numbered PendingWrites} {note : T} {x : String}

theorem installs_rows (rows rows' : Dictionary Execution) (q : Request) (answer : Response q) :
    installs ⟨rows, opened⟩ q answer = installs ⟨rows', opened⟩ q answer := by
  cases q with
  | commit tx => cases answer <;> rfl
  | _ => rfl

/-- The writes collected by a transaction of a program. -/
def Noted.writes (s : Noted T) (tx : Nat) : PendingWrites := (s.opened.get? tx).getD []

namespace Ensures

theorem noted {q : Request} {post : Except Failure (Response q) → Noted T → Prop}
    (served : ∀ rows answer s', possible rows → Serves ⟨rows, opened⟩ q answer s' →
      rule.allows note q answer (installs ⟨rows, opened⟩ q answer) ∧
        post (.ok answer)
          ⟨s'.transactions, rule.after note q answer (installs ⟨rows, opened⟩ q answer)⟩) :
    Ensures (rule.contract possible) post (Action.ask q) ⟨opened, note⟩ := by
  apply Ensures.question
  rintro _ rfl answer _ ⟨rows, s', may, serves, rfl⟩
  obtain ⟨allowed, rest⟩ := served rows answer s' may serves
  refine ⟨?_, rest⟩
  intro rows'
  rw [installs_rows rows' rows]
  exact allowed

/-- A request that commits nothing, of which nothing is noted. -/
theorem unnoted {q : Request} {post : Except Failure (Response q) → Noted T → Prop}
    (nothing : ∀ rows answer, installs ⟨rows, opened⟩ q answer = [])
    (allowed : ∀ answer, rule.allows note q answer [])
    (unchanged : ∀ answer, rule.after note q answer [] = note)
    (served : ∀ rows answer s', possible rows → Serves ⟨rows, opened⟩ q answer s' →
      post (.ok answer) ⟨s'.transactions, note⟩) :
    Ensures (rule.contract possible) post (Action.ask q) ⟨opened, note⟩ := by
  apply noted
  intro rows answer s' may serves
  rw [nothing, unchanged]
  exact ⟨allowed answer, served rows answer s' may serves⟩

theorem read {q : Request} {post : Except Failure (Response q) → Noted T → Prop}
    (reads : q.isRead = true) (nothing : ∀ rows answer, installs ⟨rows, opened⟩ q answer = [])
    (served : ∀ rows answer s', possible rows → Serves ⟨rows, opened⟩ q answer s' →
      post (.ok answer) ⟨s'.transactions, note⟩) :
    Ensures (rule.contract possible) post (Action.ask q) ⟨opened, note⟩ :=
  unnoted nothing (fun answer => rule.allows_read note q answer reads)
    (fun answer => rule.after_read note q answer reads) served

theorem line {entry : LogEntry} {post : Except Failure Unit → Noted T → Prop}
    (written : post (.ok ()) ⟨opened, note⟩) :
    Ensures (rule.contract possible) post (Action.log entry) ⟨opened, note⟩ := by
  refine read rfl (fun _ _ => rfl) ?_
  rintro rows answer s' - rfl
  exact written

/-! ## Reading in a transaction -/

theorem within {body : Nat → Action α} {post : Except Failure α → Noted T → Prop}
    (inside : ∀ tx opened, Noted.writes ⟨opened, note⟩ tx = [] →
      Ensures (rule.contract possible) (fun r s => ∀ opened, post r ⟨opened, s.note⟩) (body tx)
        ⟨opened, note⟩) :
    Ensures (rule.contract possible) post (Action.withTransaction body) ⟨opened, note⟩ := by
  refine Ensures.bind (read rfl (fun _ _ => rfl) ?_)
  rintro rows answer s' - ⟨rfl, rfl⟩
  refine Ensures.ensuring ((inside _ _ ?_).mono ?_)
  · show ((opened.add []).2.get? opened.next).getD [] = []
    rw [Numbered.get?_add, if_pos rfl]
    rfl
  · rintro r ⟨opened', note'⟩ closes
    refine read rfl (fun _ _ => rfl) ?_
    intro rows' answer' s' _ _
    exact closes _

theorem commitsNothing {tx : Nat} {post : Except Failure Unit → Noted T → Prop}
    (unwritten : Noted.writes ⟨opened, note⟩ tx = [])
    (committed : ∀ opened, post (.ok ()) ⟨opened, note⟩) :
    Ensures (rule.contract possible) post (Action.commit tx) ⟨opened, note⟩ := by
  have empty (rows : Dictionary Execution) : MemoryStore.writes ⟨rows, opened⟩ tx = [] := unwritten
  have answered (rows : Dictionary Execution) :
      (MemoryStore.commit ⟨rows, opened⟩ tx).1 = .ok () := by
    rw [MemoryStore.commit, empty]
    rfl
  have nothing (rows : Dictionary Execution) (answer : Response (.commit tx)) :
      installs ⟨rows, opened⟩ (.commit tx) answer = [] := by
    cases answer with
    | error failure => rfl
    | ok value => exact congrArg (List.map (·.row)) (empty rows)
  refine Ensures.bind (read rfl nothing ?_)
  rintro rows answer s' - ⟨rfl, rfl⟩
  rw [answered]
  exact committed _

theorem load {post : Except Failure (Option Execution) → Noted T → Prop}
    (loaded : ∀ rows opened, possible rows → post (.ok (rows.get? x)) ⟨opened, note⟩) :
    Ensures (rule.contract possible) post (Engine.load x) ⟨opened, note⟩ := by
  apply within
  intro tx opened unwritten
  refine Ensures.bind (read rfl (fun _ _ => rfl) ?_)
  rintro rows answer s' may ⟨rfl, rfl⟩
  have shown : MemoryStore.find? ⟨rows, opened⟩ tx x = rows.get? x := by
    have empty : MemoryStore.writes ⟨rows, opened⟩ tx = [] := unwritten
    rw [MemoryStore.find?, empty]
    rfl
  rw [shown]
  refine Ensures.bind (Ensures.ofExcept ?_)
  refine Ensures.bind (commitsNothing unwritten ?_)
  intro _ opened'
  exact loaded rows opened' may

theorem status {post : Except Failure Execution → Noted T → Prop}
    (found : ∀ rows row opened, possible rows → rows.get? x = some row →
      post (.ok row) ⟨opened, note⟩)
    (missing : ∀ rows opened, possible rows → rows.get? x = none →
      post (.error (.executionMissing x)) ⟨opened, note⟩) :
    Ensures (rule.contract possible) post (Engine.getStatus x) ⟨opened, note⟩ := by
  refine Ensures.bind (load ?_)
  intro rows opened may
  cases known : rows.get? x with
  | some row => exact found rows row opened may known
  | none => exact missing rows opened may known

theorem stale {q : StaleQuery} {post : Except Failure (List Execution) → Noted T → Prop}
    (found : ∀ rows opened, (∀ row ∈ rows, row.status ∈ q.statuses) →
      post (.ok rows) ⟨opened, note⟩) :
    Ensures (rule.contract possible) post (Sweep.find q) ⟨opened, note⟩ := by
  apply within
  intro tx opened unwritten
  refine Ensures.bind (read rfl (fun _ _ => rfl) ?_)
  rintro rows answer s' - ⟨rfl, rfl⟩
  refine Ensures.bind (Ensures.ofExcept ?_)
  refine Ensures.bind (commitsNothing unwritten ?_)
  intro _ opened'
  refine found _ opened' ?_
  intro row listed
  have sorted := List.mem_mergeSort.1 (List.mem_of_mem_take listed)
  have chosen := (List.mem_filter.1 sorted).2
  simp only [Bool.and_eq_true, decide_eq_true_eq] at chosen
  exact chosen.2

end Ensures

/-! ## Storing a transition -/

/-- With this note the request is allowed as long as nothing is committed by it, and not noted. -/
def Rule.Ignores (rule : Rule T) (note : T) (q : Request) : Prop :=
  ∀ answer, rule.allows note q answer [] ∧ rule.after note q answer [] = note

/-- With this note a row of some kind may be stored, of which another note is made. A try that
stores nothing is not noted. -/
structure Rule.Lets (rule : Rule T) (note : T) (kind : Execution → Prop) (stored : Execution → T) :
    Prop where
  now : rule.Ignores note .now
  update : ∀ tx row expected, rule.Ignores note (.update tx row expected)
  stores : ∀ tx row, kind row → rule.allows note (.commit tx) (.ok ()) [row] ∧
    rule.after note (.commit tx) (.ok ()) [row] = stored row

/-- What is noted of a write that may have stored a row. -/
def Noted.Of (note : T) (kind : Execution → Prop) (stored : Execution → T) (s : Noted T) :
    Except Failure (Option Execution) → Prop
  | .ok (some row) => s.note = stored row ∧ kind row
  | _ => s.note = note

def Engine.Written.row? : Engine.Written → Option Execution
  | .stored row => some row
  | _ => none

namespace Ensures

variable {kind : Execution → Prop} {stored : Execution → T}

theorem ignored {q : Request} {post : Except Failure (Response q) → Noted T → Prop}
    (ignores : rule.Ignores note q) (nothing : ∀ s answer, installs s q answer = [])
    (answered : ∀ answer opened, post (.ok answer) ⟨opened, note⟩) :
    Ensures (rule.contract possible) post (Action.ask q) ⟨opened, note⟩ := by
  refine unnoted (fun _ answer => nothing _ answer) (fun answer => (ignores answer).1)
    (fun answer => (ignores answer).2) ?_
  intro rows answer s' _ _
  exact answered answer _

theorem writes_set (note : T) (tx : Nat) (writes : PendingWrites) :
    Noted.writes ⟨opened.set tx writes, note⟩ tx = writes := by
  rw [Noted.writes, Numbered.get?_set, if_pos rfl]
  rfl

theorem updates {tx expected : Nat} {row : Execution}
    {post : Except Failure (Response (.update tx row expected)) → Noted T → Prop}
    (ignores : rule.Ignores note (.update tx row expected))
    (unwritten : Noted.writes ⟨opened, note⟩ tx = [])
    (declined : ∀ refusal, post (.ok (.ok (.error refusal))) ⟨opened, note⟩)
    (accepted : ∀ version opened w, w.row = { row with version } →
      Noted.writes ⟨opened, note⟩ tx = [w] → post (.ok (.ok (.ok version))) ⟨opened, note⟩) :
    Ensures (rule.contract possible) post (Action.ask (.update tx row expected))
      ⟨opened, note⟩ := by
  refine unnoted (fun _ _ => rfl) (fun answer => (ignores answer).1)
    (fun answer => (ignores answer).2) ?_
  rintro rows answer s' - ⟨rfl, rfl⟩
  have empty : MemoryStore.writes ⟨rows, opened⟩ tx = [] := unwritten
  rw [MemoryStore.update]
  split
  · exact declined _
  · split
    · exact declined _
    · rw [empty]
      refine accepted _ _ ⟨{ row with version := wrapWord64 (expected + 1) }, some expected⟩ rfl ?_
      show Noted.writes ⟨opened.set tx (PendingWrites.add [] _), note⟩ tx = _
      rw [writes_set, add_nil]

theorem commits {tx : Nat} {w : PendingWrite}
    {post : Except Failure (Response (.commit tx)) → Noted T → Prop}
    (lets : rule.Lets note kind stored) (mayStore : kind w.row)
    (pending : Noted.writes ⟨opened, note⟩ tx = [w])
    (lost : ∀ failure opened, post (.ok (.error failure)) ⟨opened, note⟩)
    (committed : ∀ opened, post (.ok (.ok ())) ⟨opened, stored w.row⟩) :
    Ensures (rule.contract possible) post (Action.ask (.commit tx)) ⟨opened, note⟩ := by
  apply noted
  intro rows answer s' _ _
  have one : MemoryStore.writes ⟨rows, opened⟩ tx = [w] := pending
  cases answer with
  | error failure =>
    have nothing : installs ⟨rows, opened⟩ (.commit tx) (.error failure) = [] := rfl
    rw [nothing, rule.after_read note (.commit tx) (.error failure) rfl]
    exact ⟨rule.allows_read _ _ _ rfl, lost failure _⟩
  | ok value =>
    have installed : installs ⟨rows, opened⟩ (.commit tx) (.ok value) = [w.row] :=
      congrArg (List.map PendingWrite.row) one
    obtain ⟨allowed, after⟩ := lets.stores tx w.row mayStore
    rw [installed]
    refine ⟨allowed, ?_⟩
    rw [after]
    exact committed _

theorem writesOnce (lets : rule.Lets note kind stored) {base row : Execution}
    (kinds : ∀ version, kind { row with version }) :
    Ensures (rule.contract possible)
      (fun r s => s.Of note kind stored (r.map Engine.Written.row?))
      (Engine.writeOnce base row) ⟨opened, note⟩ := by
  apply within
  intro tx opened unwritten
  refine Ensures.bind (updates (lets.update _ _ _) unwritten ?_ ?_)
  · intro refusal
    dsimp only
    split
    · refine Ensures.bind (line ?_)
      intro _
      rfl
    · intro _
      rfl
    · intro _
      rfl
  · intro version opened₁ w written pending
    have mayStore : kind w.row := written ▸ kinds version
    refine Ensures.bind (commits lets mayStore pending ?_ ?_)
    · intro failure opened₂
      dsimp only
      split
      · refine Ensures.bind (line ?_)
        intro _
        rfl
      · intro _
        rfl
    · intro opened₂ _
      rw [written] at mayStore ⊢
      exact ⟨rfl, mayStore⟩

/-- A transition is stored on the row that was read, or on a newer one with the same progress; a
try that lost the race has stored nothing. -/
theorem persists (lets : rule.Lets note kind stored) {t : Transition} (good : Execution → Prop)
    (again : ∀ base rows fresh, good base → possible rows → rows.get? base.id = some fresh →
      fresh.progress = base.progress → good fresh)
    (kinds : ∀ base changed now version, good base → t.next base = .ok changed →
      kind { changed.stamped now with version })
    (tries : Nat) {base : Execution} (fine : good base) :
    Ensures (rule.contract possible) (fun r s => s.Of note kind stored r)
      (Engine.persistWithin t tries base) ⟨opened, note⟩ := by
  have abandons (id : String) (opened : Numbered PendingWrites) :
      Ensures (rule.contract possible) (fun r s => s.Of note kind stored r) (Engine.abandon id)
        ⟨opened, note⟩ := Ensures.bind (line rfl)
  induction tries generalizing base opened with
  | zero => rfl
  | succ tries ih =>
    refine Ensures.bind (Ensures.ofExcept ?_)
    cases next : t.next base with
    | error failure => rfl
    | ok changed =>
      refine Ensures.bind (ignored lets.now (fun _ _ => rfl) ?_)
      intro now opened₁
      refine Ensures.bind ((writesOnce lets fun version => kinds base changed now version fine
        next).mono ?_)
      rintro (failure | written) ⟨opened₂, noted⟩ (written' : Noted.Of _ _ _ _ _)
      · exact written'
      · cases written with
        | stored row => exact written'
        | vanished => exact written'
        | outrun =>
          cases written'
          refine Ensures.bind (load ?_)
          intro rows opened₃ may
          dsimp only
          split
          · exact abandons base.id opened₃
          · rename_i fresh found
            split
            · rename_i same
              refine ih (again base rows fresh fine may found ?_)
              simpa [Execution.sameProgress] using same
            · exact abandons base.id opened₃

end Ensures

end

end SagaEngine
