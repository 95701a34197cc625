import SagaEngine.Proofs.Conduct
import SagaEngine.Proofs.Contract
/-!
# One actor among others

What an actor sees is the journal and the transactions that it opened itself. The
store in memory answers its requests, one at a time and each as a whole; everything
else may be answered in any way. Between two requests other actors may do whatever
is lawful, but no other actor uses its transactions. Main statements:
`Ensures.transaction`, `Ensures.find`, `Ensures.commitOne` and `Ensures.release`.
-/

namespace SagaEngine

/-- How the store in memory answers a request. What is not about the store may be answered
in any way. -/
def Serves (s : MemoryStore) : (q : Request) → Response q → MemoryStore → Prop
  | .begin, answer, s' => answer = .ok s.begin.1 ∧ s' = s.begin.2
  | .insert tx row, answer, s' => answer = .ok (s.insert tx row).1 ∧ s' = (s.insert tx row).2
  | .find tx x, answer, s' => answer = .ok (s.find? tx x) ∧ s' = s
  | .update tx row expected, answer, s' =>
    answer = .ok (s.update tx row expected).1 ∧ s' = (s.update tx row expected).2
  | .listByStatus tx status limit, answer, s' =>
    answer = .ok (s.listByStatus tx status limit) ∧ s' = s
  | .listStale tx query, answer, s' => answer = .ok (s.listStale tx query) ∧ s' = s
  | .commit tx, answer, s' => answer = (s.commit tx).1 ∧ s' = (s.commit tx).2
  | .drop tx, _, s' => s' = s.drop tx
  | _, _, s' => s' = s

/-- The rows that a request commits. -/
def installs (s : MemoryStore) : (q : Request) → Response q → List Execution
  | .commit tx, .ok _ => (s.writes tx).map (·.row)
  | _, _ => []

/-- What an actor sees. -/
structure View where
  journal : Journal
  opened : Numbered PendingWrites

namespace View

def store (v : View) : MemoryStore := ⟨v.journal.rows, v.opened⟩

def writes (v : View) (tx : Nat) : PendingWrites := v.store.writes tx

end View

/-- The contract of an actor on an engine. -/
def contract (e : Engine) (me : Actor) : Contract Request Response View where
  drifts v v' := Lawful e v'.journal ∧ v'.opened = v.opened ∧
    ∃ others, (∀ ev ∈ others, ev.actor ≠ me) ∧ v'.journal = others ++ v.journal
  answers v q answer v' := ∃ s', Serves v.store q answer s' ∧ v'.opened = s'.transactions ∧
    v'.journal = ⟨me, q, answer, installs v.store q answer⟩ :: v.journal
  permits v q answer _ := Permitted e v.journal ⟨me, q, answer, installs v.store q answer⟩
  trans := by
    rintro v₁ v₂ v₃ ⟨_, opened, others, foreign, journal⟩ ⟨lawful, opened', others', foreign',
      journal'⟩
    refine ⟨lawful, opened'.trans opened, others' ++ others, ?_, ?_⟩
    · intro ev inside
      rcases List.mem_append.1 inside with new | old
      · exact foreign' ev new
      · exact foreign ev old
    · rw [journal', journal, List.append_assoc]

/-- From one journal on to a later one, in which the actor's own attempt is known. -/
structure Onward (e : Engine) (me : Actor) (j j' : Journal) (a : Attempt) : Prop where
  lawful : Lawful e j'
  later : j <:+ j'
  attempt : j'.attempt me = a

/-- The actor did nothing that the journal tells about it. -/
abbrev Idles (e : Engine) (me : Actor) (j j' : Journal) : Prop :=
  Onward e me j j' (j.attempt me)

section

variable {e : Engine} {me : Actor} {x : String} {j j' j'' : Journal} {v v' : View}
  {a b : Attempt} {α : Type}

namespace Onward

theorem trans (first : Onward e me j j' a) (second : Onward e me j' j'' b) :
    Onward e me j j'' b :=
  ⟨second.lawful, first.later.trans second.later, second.attempt⟩

theorem idle (first : Onward e me j j' a) (second : Idles e me j' j'') :
    Onward e me j j'' a :=
  ⟨second.lawful, first.later.trans second.later, second.attempt.trans first.attempt⟩

theorem own (first : Onward e me j j' a) {q : Request} {answer : Response q}
    {installed : List Execution} (permitted : Permitted e j' ⟨me, q, answer, installed⟩) :
    Onward e me j (⟨me, q, answer, installed⟩ :: j') (a.after ⟨me, q, answer, installed⟩) := by
  refine ⟨first.lawful.next permitted, first.later.trans (List.suffix_cons _ _),
    (attempt_own rfl).trans ?_⟩
  rw [first.attempt]

end Onward

theorem idles_of_drift (drift : (contract e me).drifts v v') : Idles e me v.journal v'.journal := by
  obtain ⟨lawful, _, others, foreign, journal⟩ := drift
  refine ⟨lawful, ⟨others, journal.symm⟩, ?_⟩
  rw [journal]
  exact attempt_others foreign

/-- The committed rows after a request are those that the journal tells. -/
theorem Serves.committed {s s' : MemoryStore} {q : Request} {answer : Response q}
    (serves : Serves s q answer s') :
    s'.committed = (installs s q answer).foldl (fun rows row => rows.insert row.id row)
      s.committed := by
  cases q with
  | commit tx =>
    obtain ⟨answered, next⟩ := serves
    subst answered next
    rw [MemoryStore.commit]
    split <;> simp [installs, List.foldl_map, MemoryStore.setWrites]
  | insert tx row =>
    obtain ⟨-, rfl⟩ := serves
    rw [MemoryStore.insert]
    split <;> rfl
  | update tx row expected =>
    obtain ⟨-, rfl⟩ := serves
    rw [MemoryStore.update]
    split
    · rfl
    · split
      · rfl
      · dsimp only
        split <;> rfl
  | begin | find | listByStatus | listStale =>
    obtain ⟨-, rfl⟩ := serves
    rfl
  | _ =>
    cases serves
    rfl

/-! ## Requests -/

theorem Ensures.request {q : Request} {post : Except Failure (Response q) → View → Prop}
    (answered : ∀ (v₁ : View) answer s', Idles e me v.journal v₁.journal →
      v₁.opened = v.opened → Serves v₁.store q answer s' →
      Permitted e v₁.journal ⟨me, q, answer, installs v₁.store q answer⟩ ∧
        post (.ok answer)
          ⟨⟨me, q, answer, installs v₁.store q answer⟩ :: v₁.journal, s'.transactions⟩) :
    Ensures (contract e me) post (Action.ask q) v := by
  apply Ensures.question
  rintro v₁ drift answer ⟨journal, opened⟩ ⟨s', serves, opened', journal'⟩
  cases opened'
  cases journal'
  exact answered v₁ answer s' (idles_of_drift drift) drift.2.1 serves

/-- The request is about neither the store nor the leases nor the step calls, and nobody is
told of a row. -/
def Request.isAside : Request → Bool
  | .now => true
  | .freshId => true
  | .openSpan _ => true
  | .failSpan .. => true
  | .closeSpan _ => true
  | .log _ => true
  | .dispatch _ => true
  | .sleep _ => true
  | _ => false

def Request.isCall : Request → Bool
  | .call .. => true
  | _ => false

theorem Ensures.aside {q : Request} {post : Except Failure (Response q) → View → Prop}
    (aside : q.isAside = true)
    (answered : ∀ answer v', Idles e me v.journal v'.journal → v'.opened = v.opened →
      post (.ok answer) v') :
    Ensures (contract e me) post (Action.ask q) v := by
  apply Ensures.request
  intro v₁ answer s' idles opened serves
  have nothing : installs v₁.store q answer = [] := by
    cases q <;> first | rfl | cases aside
  have same : s' = v₁.store := by
    cases q <;> first | exact serves | cases aside
  have quiet : q.isQuiet = true := by
    cases q <;> first | rfl | cases aside
  have permitted : Permitted e v₁.journal ⟨me, q, answer, []⟩ := .quiet me q answer quiet
  rw [nothing]
  refine ⟨permitted, answered _ _ ?_ ?_⟩
  · have own := idles.own permitted
    rwa [after_quiet _ answer quiet] at own
  · rw [same]
    exact opened

theorem Ensures.log {entry : LogEntry} {post : Except Failure Unit → View → Prop}
    (written : ∀ v', Idles e me v.journal v'.journal → v'.opened = v.opened → post (.ok ()) v') :
    Ensures (contract e me) post (Action.log entry) v :=
  Ensures.aside rfl fun _ => written

/-! ## Transactions -/

theorem Ensures.transaction {body : Nat → Action α} {post : Except Failure α → View → Prop}
    (inside : ∀ (tx : Nat) (v' : View), Idles e me v.journal v'.journal → v'.writes tx = [] →
      Ensures (contract e me)
        (fun r v'' => ∀ v₃ : View, Idles e me v''.journal v₃.journal → post r v₃) (body tx) v') :
    Ensures (contract e me) post (Action.withTransaction body) v := by
  refine Ensures.bind (Ensures.request ?_)
  rintro v₁ answer s' idles opened ⟨rfl, rfl⟩
  have permitted : Permitted e v₁.journal ⟨me, .begin, .ok v₁.store.begin.1, []⟩ :=
    .quiet me .begin _ rfl
  refine ⟨permitted, ?_⟩
  refine Ensures.ensuring ((inside _ _ (idles.own permitted) ?_).mono ?_)
  · have empty : (v₁.opened.add []).2.get? v₁.opened.next = some [] := by
      rw [Numbered.get?_add, if_pos rfl]
    exact congrArg (Option.getD · []) empty
  · intro r v₂ closes
    apply Ensures.request
    intro v₃ answer s' idles' _ _
    have permitted' : Permitted e v₃.journal ⟨me, .drop v₁.store.begin.1, answer, []⟩ :=
      .quiet me _ _ rfl
    exact ⟨permitted', closes _ (idles'.own permitted')⟩

/-- What is known after a row was read: it was the committed one at some point. -/
structure Sees (e : Engine) (me : Actor) (x : String) (j j' : Journal) (seen : Option Execution) :
    Prop where
  onward : Onward e me j j' ((j.attempt me).after ⟨me, .find 0 x, .ok seen, []⟩)
  between : ∃ k : Journal, j <:+ k ∧ k <:+ j' ∧ k.record x = seen

theorem Ensures.find {tx : Nat} {post : Except Failure (Response (.find tx x)) → View → Prop}
    (target : me.operation.target? = some x) (unwritten : v.writes tx = [])
    (seen : ∀ seen (v' : View), Sees e me x v.journal v'.journal seen → v'.writes tx = [] →
      post (.ok (.ok seen)) v') :
    Ensures (contract e me) post (Action.ask (.find tx x)) v := by
  apply Ensures.request
  rintro v₁ answer s' idles opened ⟨rfl, rfl⟩
  have same : v₁.writes tx = v.writes tx := by
    rw [View.writes, View.writes, MemoryStore.writes, MemoryStore.writes, View.store, View.store,
      opened]
  have shown : v₁.store.find? tx x = v₁.journal.record x := by
    have empty : v₁.store.writes tx = [] := same.trans unwritten
    rw [MemoryStore.find?, empty]
    rfl
  rw [shown]
  have permitted : Permitted e v₁.journal ⟨me, .find tx x, .ok (v₁.journal.record x), []⟩ :=
    .found me x tx target
  refine ⟨permitted, seen _ _ ⟨?_, v₁.journal, idles.later, List.suffix_cons _ _, rfl⟩ ?_⟩
  · have own := idles.own permitted
    refine ⟨own.lawful, own.later, own.attempt.trans ?_⟩
    cases v₁.journal.record x <;> rfl
  · exact same.trans unwritten

/-- Why a collected write can no longer be installed on the committed rows. -/
def Journal.stale? (j : Journal) (w : PendingWrite) : Option StoreFailure :=
  MemoryStore.staleWrite? { committed := j.rows } w

theorem writes_of_opened {v₁ : View} (opened : v₁.opened = v.opened) (tx : Nat) :
    v₁.writes tx = v.writes tx := by
  rw [View.writes, View.writes, MemoryStore.writes, MemoryStore.writes, View.store, View.store,
    opened]

theorem writes_setWrites (s : MemoryStore) (tx : Nat) (writes : PendingWrites) (j : Journal) :
    View.writes ⟨j, (s.setWrites tx writes).transactions⟩ tx = writes := by
  have set : (s.transactions.set tx writes).get? tx = some writes := by
    rw [Numbered.get?_set, if_pos rfl]
  exact congrArg (Option.getD · []) set

theorem Ensures.commitNothing {tx : Nat} {post : Except Failure Unit → View → Prop}
    (unwritten : v.writes tx = [])
    (committed : ∀ v' : View, Idles e me v.journal v'.journal → post (.ok ()) v') :
    Ensures (contract e me) post (Action.commit tx) v := by
  refine Ensures.bind (Ensures.request ?_)
  rintro v₁ answer s' idles opened ⟨rfl, rfl⟩
  have empty : v₁.store.writes tx = [] := (writes_of_opened opened tx).trans unwritten
  have answered : (v₁.store.commit tx).1 = .ok () := by
    rw [MemoryStore.commit, empty]
    rfl
  have nothing : installs v₁.store (.commit tx) (v₁.store.commit tx).1 = [] := by
    rw [answered, installs, empty]
    rfl
  rw [nothing, answered]
  have permitted : Permitted e v₁.journal ⟨me, .commit tx, .ok (), []⟩ := .quiet me _ _ rfl
  refine ⟨permitted, committed _ ?_⟩
  have own := idles.own permitted
  rwa [after_quiet _ (q := .commit tx) (.ok ()) rfl] at own

/-- Committing a transaction with one write: it is installed, unless the row it was based on
is not the committed one any more. -/
theorem Ensures.commitOne {tx : Nat} {w : PendingWrite}
    {post : Except Failure (Response (.commit tx)) → View → Prop} (pending : v.writes tx = [w])
    (stale : ∀ (k : Journal) (v' : View) failure, v.journal <:+ k → k <:+ v'.journal →
      k.stale? w = some failure → Idles e me v.journal v'.journal → post (.ok (.error failure)) v')
    (current : ∀ k : Journal, Idles e me v.journal k → k.stale? w = none →
      Permitted e k ⟨me, .commit tx, .ok (), [w.row]⟩)
    (stored : ∀ (k : Journal) (v' : View), Idles e me v.journal k →
      v'.journal = ⟨me, .commit tx, .ok (), [w.row]⟩ :: k → Lawful e v'.journal →
      post (.ok (.ok ())) v') :
    Ensures (contract e me) post (Action.ask (.commit tx)) v := by
  apply Ensures.request
  rintro v₁ answer s' idles opened ⟨rfl, rfl⟩
  have one : v₁.store.writes tx = [w] := (writes_of_opened opened tx).trans pending
  have checks : (v₁.store.writes tx).findSome? v₁.store.staleWrite? = v₁.journal.stale? w := by
    have same : v₁.store.staleWrite? w = v₁.journal.stale? w := rfl
    rw [one, List.findSome?_cons, same]
    cases v₁.journal.stale? w <;> rfl
  cases h : v₁.journal.stale? w with
  | some failure =>
    have answered : (v₁.store.commit tx).1 = .error failure := by
      rw [MemoryStore.commit, checks, h]
    have nothing : installs v₁.store (.commit tx) (v₁.store.commit tx).1 = [] := by
      rw [answered]
      rfl
    rw [nothing, answered]
    have permitted : Permitted e v₁.journal ⟨me, .commit tx, .error failure, []⟩ :=
      .quiet me _ _ rfl
    refine ⟨permitted, stale v₁.journal _ failure idles.later (List.suffix_cons _ _) h ?_⟩
    have own := idles.own permitted
    rwa [after_quiet _ (q := .commit tx) (.error failure) rfl] at own
  | none =>
    have answered : (v₁.store.commit tx).1 = .ok () := by
      rw [MemoryStore.commit, checks, h]
    have installed : installs v₁.store (.commit tx) (v₁.store.commit tx).1 = [w.row] := by
      rw [answered, installs, one]
      rfl
    rw [installed, answered]
    have permitted := current v₁.journal idles h
    exact ⟨permitted, stored v₁.journal _ idles rfl (idles.lawful.next permitted)⟩

/-- The same where a lost race ends the operation. -/
theorem Ensures.commit {tx : Nat} {w : PendingWrite} {post : Except Failure Unit → View → Prop}
    (pending : v.writes tx = [w])
    (stale : ∀ (v' : View) failure, Idles e me v.journal v'.journal →
      post (.error (.store failure)) v')
    (current : ∀ k : Journal, Idles e me v.journal k → k.stale? w = none →
      Permitted e k ⟨me, .commit tx, .ok (), [w.row]⟩)
    (stored : ∀ (k : Journal) (v' : View), Idles e me v.journal k →
      v'.journal = ⟨me, .commit tx, .ok (), [w.row]⟩ :: k → Lawful e v'.journal →
      post (.ok ()) v') :
    Ensures (contract e me) post (Action.commit tx) v := by
  refine Ensures.bind (Ensures.commitOne pending ?_ current stored)
  intro k v' failure _ _ _ idles
  exact stale v' failure idles

theorem add_nil (w : PendingWrite) : PendingWrites.add [] w = [w] := by
  rw [PendingWrites.add, BucketOrder.add]
  split <;> rfl

theorem Ensures.update {tx expected : Nat} {row : Execution}
    {post : Except Failure (Response (.update tx row expected)) → View → Prop}
    (unwritten : v.writes tx = [])
    (missing : ∀ v' : View, Idles e me v.journal v'.journal →
      (∃ k : Journal, v.journal <:+ k ∧ k.record row.id = none) →
      post (.ok (.ok (.error (.missing row.id)))) v')
    (differs : ∀ (v' : View) (old : Execution), Idles e me v.journal v'.journal →
      (∃ k : Journal, v.journal <:+ k ∧ k <:+ v'.journal ∧ k.record row.id = some old) →
      old.version ≠ expected →
      post (.ok (.ok (.error (.versionDiffers row.id old.version expected)))) v')
    (accepted : ∀ v' : View, Idles e me v.journal v'.journal →
      v'.writes tx = [⟨{ row with version := wrapWord64 (expected + 1) }, some expected⟩] →
      post (.ok (.ok (.ok (wrapWord64 (expected + 1))))) v') :
    Ensures (contract e me) post (Action.ask (.update tx row expected)) v := by
  apply Ensures.request
  rintro v₁ answer s' idles opened ⟨rfl, rfl⟩
  have empty : v₁.store.writes tx = [] := (writes_of_opened opened tx).trans unwritten
  have shown : v₁.store.find? tx row.id = v₁.journal.record row.id := by
    rw [MemoryStore.find?, empty]
    rfl
  have permitted answer : Permitted e v₁.journal ⟨me, .update tx row expected, answer, []⟩ :=
    .quiet me _ _ rfl
  refine ⟨permitted _, ?_⟩
  have own answer := idles.own (permitted answer)
  cases found : v₁.journal.record row.id with
  | none =>
    have result : v₁.store.update tx row expected = (.error (.missing row.id), v₁.store) := by
      rw [MemoryStore.update, shown, found]
    rw [result]
    exact missing _ (own _) ⟨v₁.journal, idles.later, found⟩
  | some old =>
    by_cases version : old.version = expected
    · have result : v₁.store.update tx row expected = (.ok (wrapWord64 (expected + 1)),
          v₁.store.setWrites tx
            [⟨{ row with version := wrapWord64 (expected + 1) }, some expected⟩]) := by
        rw [MemoryStore.update, shown, found]
        simp only [version, ne_eq, not_true_eq_false, if_false, empty]
        exact congrArg (fun writes => (_, v₁.store.setWrites tx writes)) (add_nil _)
      rw [result]
      exact accepted _ (own _) (writes_setWrites _ _ _ _)
    · have result : v₁.store.update tx row expected =
          (.error (.versionDiffers row.id old.version expected), v₁.store) := by
        rw [MemoryStore.update, shown, found]
        simp only [ne_eq, version, not_false_eq_true, if_true]
      rw [result]
      exact differs _ old (own _) ⟨v₁.journal, idles.later, List.suffix_cons _ _, found⟩ version

theorem Ensures.insert {tx : Nat} {row : Execution}
    {post : Except Failure (Response (.insert tx row)) → View → Prop}
    (unwritten : v.writes tx = [])
    (taken : ∀ v' : View, Idles e me v.journal v'.journal →
      post (.ok (.ok (.error (.taken row.id)))) v')
    (accepted : ∀ v' : View, Idles e me v.journal v'.journal → v'.writes tx = [⟨row, none⟩] →
      post (.ok (.ok (.ok ()))) v') :
    Ensures (contract e me) post (Action.ask (.insert tx row)) v := by
  apply Ensures.request
  rintro v₁ answer s' idles opened ⟨rfl, rfl⟩
  have empty : v₁.store.writes tx = [] := (writes_of_opened opened tx).trans unwritten
  have permitted answer : Permitted e v₁.journal ⟨me, .insert tx row, answer, []⟩ :=
    .quiet me _ _ rfl
  refine ⟨permitted _, ?_⟩
  have own answer := idles.own (permitted answer)
  cases found : v₁.store.find? tx row.id with
  | some old =>
    have result : v₁.store.insert tx row = (.error (.taken row.id), v₁.store) := by
      rw [MemoryStore.insert, found]
    rw [result]
    exact taken _ (own _)
  | none =>
    have result : v₁.store.insert tx row = (.ok (), v₁.store.setWrites tx [⟨row, none⟩]) := by
      rw [MemoryStore.insert, found, empty, add_nil]
    rw [result]
    exact accepted _ (own _) (writes_setWrites _ _ _ _)

/-! ## Leases, step calls and observers -/

theorem Ensures.acquire {post : Except Failure (Option Lease) → View → Prop}
    (driven : me.operation.driven? = some x) (free : (v.journal.attempt me).held = none)
    (settled : (v.journal.attempt me).leased = true → (v.journal.attempt me).written ≠ [])
    (once : me.operation = .advance x → (v.journal.attempt me).leased = false)
    (refused : ∀ (k : Journal) (v' : View), Idles e me v.journal v'.journal →
      v'.journal = ⟨me, .acquire x, none, []⟩ :: k → post (.ok none) v')
    (granted : ∀ lease (v' : View),
      Onward e me v.journal v'.journal { leased := true, held := some lease } →
      post (.ok (some lease)) v') :
    Ensures (contract e me) post (Action.ask (.acquire x)) v := by
  apply Ensures.request
  rintro v₁ answer s' idles - -
  cases answer with
  | none =>
    have permitted : Permitted e v₁.journal ⟨me, .acquire x, none, []⟩ := .refused me x
    exact ⟨permitted, refused v₁.journal _ (idles.own permitted) rfl⟩
  | some lease =>
    have permitted : Permitted e v₁.journal ⟨me, .acquire x, some lease, []⟩ :=
      .granted me x lease driven (idles.attempt ▸ free) (idles.attempt ▸ settled)
        (idles.attempt ▸ once)
    exact ⟨permitted, granted lease _ (idles.own permitted)⟩

theorem Ensures.release {lease : Lease} {post : Except Failure Unit → View → Prop}
    (driven : me.operation.driven? = some x) (held : (v.journal.attempt me).held = some lease)
    (accounted : ∀ k : Journal, Idles e me v.journal k → k.Accounted x (v.journal.attempt me))
    (released : ∀ v' : View,
      Onward e me v.journal v'.journal { v.journal.attempt me with held := none } →
      post (.ok ()) v') :
    Ensures (contract e me) post (Action.ask (.release lease)) v := by
  apply Ensures.request
  rintro v₁ answer s' idles - -
  have permitted : Permitted e v₁.journal ⟨me, .release lease, (), []⟩ :=
    .released me x lease driven (idles.attempt ▸ held) (idles.attempt ▸ accounted _ idles)
  exact ⟨permitted, released _ (idles.own permitted)⟩

/-- Calling a step as the row read first asks for it. -/
theorem Ensures.call {lease : Lease} {base : Execution} {d : SagaDefinition} {call : StepCall}
    {post : Except Failure StepReply → View → Prop} (driven : me.operation.driven? = some x)
    (held : (v.journal.attempt me).held = some lease)
    (read : (v.journal.attempt me).base = some base)
    (first : (v.journal.attempt me).calls = []) (unwritten : (v.journal.attempt me).written = [])
    (known : e.definitionOf base = .ok d) (asks : AsksFor d base call)
    (replied : ∀ reply (v' : View),
      Onward e me v.journal v'.journal { v.journal.attempt me with calls := [⟨call, reply⟩] } →
      post (.ok reply) v') :
    Ensures (contract e me) post (Action.ask (.call d.sagaType call)) v := by
  apply Ensures.request
  rintro v₁ reply s' idles - -
  have permitted : Permitted e v₁.journal ⟨me, .call d.sagaType call, reply, []⟩ :=
    .called me x lease base d call reply driven (idles.attempt ▸ held) (idles.attempt ▸ read)
      (idles.attempt ▸ first) (idles.attempt ▸ unwritten) known asks
  have own := idles.own permitted
  refine ⟨permitted, replied reply _ ⟨own.lawful, own.later, own.attempt.trans ?_⟩⟩
  simp only [Attempt.after, first, List.nil_append]

theorem Ensures.alert {row : Execution} {post : Except Failure Unit → View → Prop}
    (own : (v.journal.attempt me).written.getLast? = some row) (status : row.status = .failed)
    (raised : ∀ v' : View, Idles e me v.journal v'.journal → post (.ok ()) v') :
    Ensures (contract e me) post
      (Action.ask (.alert ⟨row.id, row.sagaType, row.status.name, row.lastError⟩)) v := by
  apply Ensures.request
  rintro v₁ answer s' idles - -
  have permitted : Permitted e v₁.journal
      ⟨me, .alert ⟨row.id, row.sagaType, row.status.name, row.lastError⟩, (), []⟩ :=
    .alerted me row (idles.attempt ▸ own) status
  exact ⟨permitted, raised _ (idles.own permitted)⟩

theorem Ensures.completed {row : Execution} {post : Except Failure Unit → View → Prop}
    (own : (v.journal.attempt me).written.getLast? = some row)
    (terminal : row.status.isTerminal = true)
    (told : ∀ v' : View, Idles e me v.journal v'.journal → post (.ok ()) v') :
    Ensures (contract e me) post (Action.ask (.completed row)) v := by
  apply Ensures.request
  rintro v₁ answer s' idles - -
  have permitted : Permitted e v₁.journal ⟨me, .completed row, (), []⟩ :=
    .completed me row (idles.attempt ▸ own) terminal
  exact ⟨permitted, told _ (idles.own permitted)⟩

end

end SagaEngine
