import SagaEngine.Proofs.CollectedWrites
import SagaEngine.Proofs.Interference
import SagaEngine.Proofs.LeaseExclusion
/-!
# Where nobody else writes

An engine whose rows nobody else changes still meets one write that is not its own: a step may ask
for cancellations while it is called. All that this does to a row is to mark it, once. Main
statements: `cancel_marks`, `SoleWriter.handles` and `SoleWriter.run_of_ensures`.
-/

namespace SagaEngine

/-- What an engine works on: the committed rows and the open transactions, the leases and the
time. -/
structure Premises where
  rows : RowMap
  opened : Numbered PendingWrites
  leases : LeaseTable
  clock : Int
  keyed : rows.Keyed

def Premises.store (v : Premises) : MemoryStore := ⟨v.rows, v.opened⟩

/-- The row is still the same, or a cancel request was marked on it. -/
inductive Execution.Becomes (row : Execution) : Execution → Prop
  | same : row.Becomes row
  | marked (now : Nat) (active : row.status = .started ∨ row.status = .inProgress)
      (unasked : row.cancelRequested = false) : row.Becomes ((row.marked now).replacing row)

/-- A stored row is still there, but for a mark. -/
def RowMap.Marks (x : String) (rows rows' : RowMap) : Prop :=
  ∀ row, rows.get? x = some row → ∃ row', rows'.get? x = some row' ∧ row.Becomes row'

/-- How a table of leases answers: it grants a lease of the execution asked for, unless another one
is in force. -/
def LeaseTable.Answers (t : LeaseTable) (now : Int) : (q : Request) → Response q → LeaseTable → Prop
  | .acquire x, answer, t' => ∃ lease : Lease, lease.executionId = x ∧
      answer = (t.tryInsert lease now).map (fun _ => lease) ∧ t' = (t.tryInsert lease now).getD t
  | .release lease, _, t' => t' = t.remove lease.executionId lease.leaseId
  | _, _, t' => t' = t

/-- The reply to a step call has one of the outcomes that there are. -/
def Request.IsMeant : (q : Request) → Response q → Prop
  | .call .., reply => ∀ code, reply.result.outcome ≠ .unclassified code
  | _, _ => True

/-- How a request is dealt with. The row of `x` is all that is known after a step call. -/
structure Premises.Handles (x : String) (v : Premises) (q : Request) (answer : Response q)
    (v' : Premises) : Prop where
  serves : q.isCall = false → Serves v.store q answer v'.store
  marks : q.isCall = true → v.rows.Marks x v'.rows
  leases : v.leases.Answers v.clock q answer v'.leases
  onward : v.clock ≤ v'.clock

/-- An environment in which nobody else writes. Every request is answered at an office, and during
a step call some executions may be cancelled there. -/
structure SoleWriter (σ : Type) where
  office : (q : Request) → σ → Response q × σ
  view : σ → Premises
  cancels : String → StepCall → σ → List String
  serves : ∀ q s, Serves (view s).store q (office q s).1 (view (office q s).2).store
  leases : ∀ q s, (view s).leases.Answers (view s).clock q (office q s).1
    (view (office q s).2).leases
  onward : ∀ q s, (view s).clock ≤ (view (office q s).2).clock

namespace SoleWriter

variable {σ : Type} (w : SoleWriter σ)

def cancel (s : σ) (x : String) : σ := ((Engine.cancel x).run w.office s).2

def answer : (q : Request) → σ → Response q × σ
  | .call sagaType call, s =>
    ((w.office (.call sagaType call) s).1,
      (w.cancels sagaType call s).foldl w.cancel (w.office (.call sagaType call) s).2)
  | q, s => w.office q s

end SoleWriter

namespace Execution

variable {row row' row'' : Execution}

theorem Becomes.progress (becomes : row.Becomes row') : row'.progress = row.progress := by
  cases becomes <;> rfl

theorem Becomes.origin (becomes : row.Becomes row') : row'.origin = row.origin := by
  cases becomes <;> rfl

theorem Becomes.trans (first : row.Becomes row') (second : row'.Becomes row'') :
    row.Becomes row'' := by
  cases first with
  | same => exact second
  | marked now active unasked =>
    cases second with
    | same => exact .marked now active unasked
    | marked _ _ again => cases again

/-- A version is not given twice in a row. -/
theorem wrapWord64_succ_ne (n : Nat) : wrapWord64 (n + 1) ≠ n := by
  unfold wrapWord64
  omega

theorem Becomes.eq_of_version (becomes : row.Becomes row') (same : row'.version = row.version) :
    row' = row := by
  cases becomes with
  | same => rfl
  | marked => exact absurd same (wrapWord64_succ_ne row.version)

end Execution

namespace RowMap

variable {x : String} {rows rows' rows'' : RowMap}

theorem Marks.of_same (same : rows'.get? x = rows.get? x) : rows.Marks x rows' := by
  intro row found
  exact ⟨row, same.trans found, .same⟩

theorem Marks.trans (first : rows.Marks x rows') (second : rows'.Marks x rows'') :
    rows.Marks x rows'' := by
  intro row found
  obtain ⟨row', found', becomes⟩ := first row found
  obtain ⟨row'', found'', becomes'⟩ := second row' found'
  exact ⟨row'', found'', becomes.trans becomes'⟩

end RowMap

namespace LeaseTable

variable {t t' : LeaseTable} {x : String} {now : Int}

theorem Answers.granted_or_held {answer : Option Lease}
    (answers : t.Answers now (.acquire x) answer t') :
    (t.active x now = none ∧
        ∃ lease : Lease, lease.executionId = x ∧ answer = some lease ∧ t' = t.insert x lease) ∨
      t.active x now ≠ none ∧ answer = none ∧ t' = t := by
  obtain ⟨lease, rfl, answered, next⟩ := answers
  rw [tryInsert_eq] at answered next
  by_cases free : t.active lease.executionId now = none
  · rw [if_pos free] at answered next
    exact .inl ⟨free, lease, rfl, answered, next⟩
  · rw [if_neg free] at answered next
    exact .inr ⟨free, answered, next⟩

/-- A lease that is released is gone. -/
theorem Answers.get?_released {lease : Lease} (held : t.get? lease.executionId = some lease)
    (answers : t.Answers now (.release lease) () t') : t'.get? lease.executionId = none := by
  rw [show t' = t.remove lease.executionId lease.leaseId from answers, get?_remove, if_pos rfl,
    held]
  simp

end LeaseTable

namespace Premises

/-- The leases are the same after some time. -/
structure Later (v v' : Premises) : Prop where
  leases : v'.leases = v.leases
  onward : v.clock ≤ v'.clock

/-- Nothing but time went by. -/
structure Rests (v v' : Premises) : Prop extends Later v v' where
  rows : v'.rows = v.rows

/-- One row was stored. -/
structure Puts (v v' : Premises) (row : Execution) : Prop extends Later v v' where
  rows : v'.rows = v.rows.insert row.id row

/-- How a program relies on what it works on. -/
def terms (x : String) (meant : Prop) : Contract Request Response Premises where
  drifts v v' := v' = v
  answers v q answer v' := Handles x v q answer v' ∧ (meant → q.IsMeant answer)
  permits _ _ _ _ := True
  trans := by
    rintro v₁ v₂ v₃ rfl rfl
    rfl

variable {x y : String} {meant : Prop} {v v' v'' : Premises} {α : Type}
  {row base current : Execution}

theorem Later.refl (v : Premises) : Later v v := ⟨rfl, Int.le_refl _⟩

theorem Later.trans (first : Later v v') (second : Later v' v'') : Later v v'' :=
  ⟨second.leases.trans first.leases, Int.le_trans first.onward second.onward⟩

theorem Rests.refl (v : Premises) : Rests v v := ⟨.refl v, rfl⟩

theorem Rests.trans (first : Rests v v') (second : Rests v' v'') : Rests v v'' :=
  ⟨first.toLater.trans second.toLater, second.rows.trans first.rows⟩

theorem Puts.between {u : Premises} (stores : Puts v v' row) (before : Rests u v)
    (after : Rests v' v'') : Puts u v'' row :=
  ⟨before.toLater.trans (stores.toLater.trans after.toLater),
    after.rows.trans (before.rows ▸ stores.rows)⟩

/-! ## Requests -/

theorem Handles.rests {q : Request} {answer : Response q} (handles : Handles x v q answer v')
    (leases : v'.leases = v.leases) {s : MemoryStore} (store : v'.store = s)
    (rows : s.committed = v.rows) : Rests v v' :=
  ⟨⟨leases, handles.onward⟩, (congrArg MemoryStore.committed store).trans rows⟩

theorem asks {q : Request} {post : Except Failure (Response q) → Premises → Prop}
    (answered : ∀ answer v', Handles x v q answer v' → (meant → q.IsMeant answer) →
      post (.ok answer) v') :
    Ensures (terms x meant) post (Action.ask q) v := by
  apply Ensures.question
  rintro _ rfl answer v' ⟨handles, means⟩
  exact ⟨trivial, answered answer v' handles means⟩

theorem Handles.rests_of_aside {q : Request} {answer : Response q}
    (handles : Handles x v q answer v') (aside : q.isAside = true) : Rests v v' := by
  have serves := handles.serves
  have leases := handles.leases
  cases q with
  | now | freshId | openSpan | failSpan | closeSpan | log | dispatch | sleep =>
    exact handles.rests leases (serves rfl) rfl
  | _ => cases aside

theorem asksAside {q : Request} {post : Except Failure (Response q) → Premises → Prop}
    (aside : q.isAside = true) (answered : ∀ answer v', Rests v v' → post (.ok answer) v') :
    Ensures (terms x meant) post (Action.ask q) v :=
  asks fun answer v' handles _ => answered answer v' (handles.rests_of_aside aside)

theorem writesLine {entry : LogEntry} {post : Except Failure Unit → Premises → Prop}
    (written : ∀ v', Rests v v' → post (.ok ()) v') :
    Ensures (terms x meant) post (Action.log entry) v :=
  asksAside rfl fun _ => written

/-! ## Transactions -/

theorem bracket {body : Nat → Action α} {post : Except Failure α → Premises → Prop}
    (inside : ∀ tx v₁, Rests v v₁ → v₁.store.writes tx = [] →
      Ensures (terms x meant) (fun r v₂ => ∀ v₃, Rests v₂ v₃ → post r v₃) (body tx) v₁) :
    Ensures (terms x meant) post (Action.withTransaction body) v := by
  refine Ensures.bind (asks fun answer v₁ handles _ => ?_)
  obtain ⟨rfl, begun⟩ := handles.serves rfl
  have rests : Rests v v₁ := handles.rests handles.leases begun rfl
  have fresh : v₁.store.writes v.store.begin.1 = [] := by
    rw [begun, MemoryStore.writes_begin]
    exact if_pos rfl
  refine Ensures.ensuring ((inside _ v₁ rests fresh).mono ?_)
  intro r v₂ closes
  refine asks fun answer v₃ handles _ => ?_
  have dropped : v₃.store = v₂.store.drop v.store.begin.1 := handles.serves rfl
  exact closes v₃ (handles.rests handles.leases dropped rfl)

theorem commitsNothing {tx : Nat} {post : Except Failure Unit → Premises → Prop}
    (unwritten : v.store.writes tx = []) (committed : ∀ v', Rests v v' → post (.ok ()) v') :
    Ensures (terms x meant) post (Action.commit tx) v := by
  have nothing : v.store.commit tx = (.ok (), v.store.setWrites tx []) := by
    rw [MemoryStore.commit, unwritten]
    rfl
  refine Ensures.bind (asks fun answer v' handles _ => ?_)
  obtain ⟨rfl, same⟩ := handles.serves rfl
  rw [nothing] at same ⊢
  exact committed v' (handles.rests handles.leases same rfl)

theorem loads (x y : String) (v : Premises) :
    Ensures (terms x meant) (fun r v' => r = .ok (v.rows.get? y) ∧ Rests v v')
      (Engine.load y) v := by
  refine bracket fun tx v₁ rests unwritten => ?_
  refine Ensures.bind (asks fun answer v₂ handles _ => ?_)
  obtain ⟨rfl, same⟩ := handles.serves rfl
  have seen : v₁.store.find? tx y = v.rows.get? y := by
    rw [MemoryStore.find?, unwritten, ← rests.rows]
    rfl
  rw [seen]
  have still : Rests v₁ v₂ := handles.rests handles.leases same rfl
  refine Ensures.bind (Ensures.ofExcept (Ensures.bind (commitsNothing ?_ fun v₃ rests₃ => ?_)))
  · rw [same]
    exact unwritten
  · exact fun v₄ rests₄ => ⟨rfl, (rests.trans still).trans (rests₃.trans rests₄)⟩

theorem statuses (x y : String) (v : Premises) :
    Ensures (terms x meant)
      (fun r v' => Rests v v' ∧ match v.rows.get? y with
        | some row => r = .ok row
        | none => r = .error (.executionMissing y)) (Engine.getStatus y) v := by
  refine Ensures.bind ((loads x y v).mono ?_)
  rintro r v' ⟨rfl, rests⟩
  cases found : v.rows.get? y with
  | none => exact ⟨rests, rfl⟩
  | some row => exact ⟨rests, rfl⟩

theorem updates {tx expected : Nat}
    {post : Except Failure (Response (.update tx row expected)) → Premises → Prop}
    (unwritten : v.store.writes tx = []) (found : v.rows.get? row.id = some current)
    (differs : ∀ v', current.version ≠ expected → Rests v v' →
      post (.ok (.ok (.error (.versionDiffers row.id current.version expected)))) v')
    (accepted : ∀ v', current.version = expected → Rests v v' →
      v'.store.writes tx = [⟨{ row with version := wrapWord64 (expected + 1) }, some expected⟩] →
      post (.ok (.ok (.ok (wrapWord64 (expected + 1))))) v') :
    Ensures (terms x meant) post (Action.ask (.update tx row expected)) v := by
  have shown : v.store.find? tx row.id = some current := by
    rw [MemoryStore.find?, unwritten]
    exact found
  refine asks fun answer v' handles _ => ?_
  obtain ⟨rfl, next⟩ := handles.serves rfl
  by_cases same : current.version = expected
  · have result : v.store.update tx row expected = (.ok (wrapWord64 (expected + 1)),
        v.store.setWrites tx
          [⟨{ row with version := wrapWord64 (expected + 1) }, some expected⟩]) := by
      rw [MemoryStore.update, shown]
      simp only [same, ne_eq, not_true_eq_false, if_false, unwritten]
      exact congrArg (fun writes => (_, v.store.setWrites tx writes)) (add_nil _)
    rw [result] at next ⊢
    refine accepted v' same (handles.rests handles.leases next rfl) ?_
    rw [next, MemoryStore.get?_writes_setWrites, if_pos rfl]
  · have result : v.store.update tx row expected =
        (.error (.versionDiffers row.id current.version expected), v.store) := by
      rw [MemoryStore.update, shown]
      simp only [same, ne_eq, not_false_eq_true, if_true]
    rw [result] at next ⊢
    exact differs v' same (handles.rests handles.leases next rfl)

theorem commitsOne {tx expected : Nat}
    {post : Except Failure (Response (.commit tx)) → Premises → Prop}
    (pending : v.store.writes tx = [⟨row, some expected⟩])
    (found : v.rows.get? row.id = some current) (level : current.version = expected)
    (stored : ∀ v', Puts v v' row → post (.ok (.ok ())) v') :
    Ensures (terms x meant) post (Action.ask (.commit tx)) v := by
  have current : v.store.staleWrite? ⟨row, some expected⟩ = none := by
    have found' : v.store.committed.get? row.id = some current := found
    simp only [MemoryStore.staleWrite?, found', level, if_true]
  refine asks fun answer v' handles _ => ?_
  obtain ⟨rfl, next⟩ := handles.serves rfl
  have result : v.store.commit tx =
      (.ok (), { v.store with committed := v.rows.insert row.id row }.setWrites tx []) := by
    rw [MemoryStore.commit, pending, List.findSome?_cons, current]
    rfl
  rw [result] at next ⊢
  exact stored v' ⟨⟨handles.leases, handles.onward⟩, congrArg MemoryStore.committed next⟩

theorem writesOnce (found : v.rows.get? row.id = some current) :
    Ensures (terms x meant)
      (fun r v' =>
        current.version = base.version ∧ r = .ok (.stored (row.replacing base)) ∧
            Puts v v' (row.replacing base) ∨
          current.version ≠ base.version ∧ r = .ok .outrun ∧ Rests v v')
      (Engine.writeOnce base row) v := by
  refine bracket fun tx v₁ rests unwritten => ?_
  refine Ensures.bind (updates unwritten (rests.rows ▸ found) ?_ ?_)
  · intro v₂ differs rests₂
    exact fun v₃ rests₃ => .inr ⟨differs, rfl, rests.trans (rests₂.trans rests₃)⟩
  · intro v₂ level rests₂ pending
    have found₂ : v₂.rows.get? row.id = some current := rests₂.rows ▸ rests.rows ▸ found
    refine Ensures.bind (commitsOne pending found₂ level fun v₃ stores => ?_)
    exact fun v₄ rests₄ => .inl ⟨level, rfl, stores.between (rests.trans rests₂) rests₄⟩

/-! ## Cancellations -/

theorem recordsCancel (found : v.rows.get? y = some row) :
    Ensures (terms x meant)
      (fun r v' => ∃ now, r = .ok true ∧ Puts v v' ((row.marked now).replacing row))
      (Engine.recordCancel y row) v := by
  have own : v.rows.get? row.id = some row := by rwa [v.keyed y row found]
  refine Ensures.bind (asksAside rfl fun now v₁ rests => ?_)
  refine bracket fun tx v₂ rests₂ unwritten => ?_
  have before := rests.trans rests₂
  have own₂ : v₂.rows.get? row.id = some row := by rw [before.rows, own]
  refine Ensures.bind (updates unwritten own₂ ?_ ?_)
  · intro v₃ differs
    exact absurd rfl differs
  · intro v₃ _ rests₃ pending
    have own₃ : v₃.rows.get? row.id = some row := by rw [rests₃.rows, own₂]
    refine Ensures.bind (Ensures.ofExcept (Ensures.bind (Ensures.bind
      (commitsOne pending own₃ rfl ?_))))
    intro v₄ stores
    refine Ensures.ofExcept (Ensures.bind (writesLine fun v₅ rests₅ => ?_))
    intro v₆ rests₆
    exact ⟨now, rfl, stores.between (before.trans rests₃) (rests₅.trans rests₆)⟩

/-- Whatever comes of a request to cancel an execution, all that it does to a row is to mark it. -/
theorem cancel_marks (x y : String) (v : Premises) :
    Ensures (terms x meant)
      (fun _ v' => v.rows.Marks x v'.rows ∧ Later v v')
      (Engine.cancel y) v := by
  have idle {v' : Premises} (rests : Rests v v') :
      v.rows.Marks x v'.rows ∧ Later v v' :=
    ⟨.of_same (congrArg (Dictionary.get? · x) rests.rows), rests.toLater⟩
  refine Ensures.bind ((statuses x y v).mono ?_)
  rintro r v₁ ⟨rests, seen⟩
  cases found : v.rows.get? y with
  | none =>
    rw [found] at seen
    subst seen
    exact idle rests
  | some row =>
    rw [found] at seen
    subst seen
    dsimp only
    split
    · exact idle rests
    · rename_i active
      split
      · exact idle rests
      · rename_i unasked
        refine Ensures.bind ((recordsCancel (rests.rows ▸ found)).mono ?_)
        rintro r v₂ ⟨now, rfl, stores⟩
        have stored := stores.between rests (Rests.refl v₂)
        refine ⟨?_, stored.toLater⟩
        rw [stored.rows]
        intro old known
        have id : row.id = y := v.keyed y row found
        by_cases own : x = y
        · subst own
          obtain rfl : row = old := Option.some.inj (found.symm.trans known)
          refine ⟨_, ?_, .marked now ?_ ?_⟩
          · exact id ▸ Dictionary.get?_insert_self ..
          · by_contra neither
            exact active (not_or.1 neither)
          · simpa using unasked
        · refine ⟨old, ?_, .same⟩
          have other : x ≠ ((row.marked now).replacing row).id := id ▸ own
          rw [Dictionary.get?_insert_of_ne _ _ other]
          exact known

end Premises

section

variable {σ α : Type} {x : String} {meant : Prop}

/-- What a program ensures holds after it was run where every request is dealt with. -/
theorem run_of_ensures {answer : (q : Request) → σ → Response q × σ} {view : σ → Premises}
    {p : Action α} {post : Except Failure α → Premises → Prop} {s : σ}
    (handles : ∀ q s, (view s).Handles x q (answer q s).1 (view (answer q s).2))
    (means : meant → ∀ (q : Request) s, q.IsMeant (answer q s).1)
    (ensures : Ensures (Premises.terms x meant) post p (view s)) :
    post (p.run answer s).1 (view (p.run answer s).2) := by
  induction p generalizing s with
  | done value => exact ensures
  | failed failure => exact ensures
  | ask q next ih =>
    have answered := ensures (view s) rfl (answer q s).1 (view (answer q s).2)
      ⟨handles q s, fun holds => means holds q s⟩
    exact ih (answer q s).1 (s := (answer q s).2) answered.2

namespace SoleWriter

variable (w : SoleWriter σ)

theorem office_handles (x : String) (q : Request) (s : σ) :
    (w.view s).Handles x q (w.office q s).1 (w.view (w.office q s).2) := by
  have serves := w.serves q s
  refine ⟨fun _ => serves, fun isCall => ?_, w.leases q s, w.onward q s⟩
  cases q with
  | call sagaType call =>
    have same : (w.view (w.office (.call sagaType call) s).2).store = (w.view s).store := serves
    exact .of_same (congrArg (fun store => store.committed.get? x) same)
  | _ => cases isCall

theorem cancel_marks (x : String) (s : σ) (y : String) :
    (w.view s).rows.Marks x (w.view (w.cancel s y)).rows ∧
      (w.view s).Later (w.view (w.cancel s y)) :=
  run_of_ensures (w.office_handles x) False.elim (Premises.cancel_marks x y (w.view s))

theorem cancels_mark (x : String) (asked : List String) (s : σ) :
    (w.view s).rows.Marks x (w.view (asked.foldl w.cancel s)).rows ∧
      (w.view s).Later (w.view (asked.foldl w.cancel s)) := by
  induction asked generalizing s with
  | nil => exact ⟨.of_same rfl, .refl _⟩
  | cons y asked ih =>
    obtain ⟨marks, later⟩ := w.cancel_marks x s y
    obtain ⟨marks', later'⟩ := ih (w.cancel s y)
    exact ⟨marks.trans marks', later.trans later'⟩

theorem handles (x : String) (q : Request) (s : σ) :
    (w.view s).Handles x q (w.answer q s).1 (w.view (w.answer q s).2) := by
  cases q with
  | call sagaType call =>
    have office := w.office_handles x (.call sagaType call) s
    obtain ⟨marks, later⟩ := w.cancels_mark x (w.cancels sagaType call s)
      (w.office (.call sagaType call) s).2
    refine ⟨?_, fun _ => (office.marks rfl).trans marks, later.leases.trans office.leases,
      Int.le_trans office.onward later.onward⟩
    intro other
    cases other
  | _ => exact w.office_handles x _ s

end SoleWriter

end

end SagaEngine
