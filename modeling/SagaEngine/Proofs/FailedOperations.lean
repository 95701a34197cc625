import SagaEngine.Proofs.Cluster
import SagaEngine.Proofs.Custody
import SagaEngine.Proofs.Duty
import SagaEngine.Proofs.LeaseExclusion
/-!
# What a failed operation leaves behind

An operation may fail at any request and in between, with a transaction open or a lease held. The
store may hold anything, in either of its forms, and may fail to serve any request; a step call may
do anything to it. A failed operation has changed no stored row by its own requests, has reported
nothing, has closed every transaction that it opened and released every lease that it was granted.
Main statement: `failed_operation_harmless`.
-/

namespace SagaEngine

/-! ## What an operation runs in -/

/-- The store carries a request out, or something goes wrong and nothing is done. -/
def Store.Deals (s : Store) : (q : Request) → Response q → Store → Prop
  | .begin, answer, s' => s.begin = (answer, s') ∨ (∃ failure, answer = .error failure) ∧ s' = s
  | .insert tx row, answer, s' =>
    ((s.insert tx row).2 = s' ∧ answer = .ok (s.insert tx row).1) ∨ s' = s
  | .find tx x, answer, s' => s.find? tx x = (answer, s') ∨ s' = s
  | .update tx row expected, answer, s' => s.update tx row expected = (answer, s') ∨ s' = s
  | .listByStatus tx status limit, answer, s' =>
    s.listByStatus tx status limit = (answer, s') ∨ s' = s
  | .listStale tx query, answer, s' => s.listStale tx query = (answer, s') ∨ s' = s
  | .commit tx, answer, s' =>
    s.commit tx = (answer, s') ∨ (∃ failure, answer = .error failure) ∧ s' = s
  | .drop tx, _, s' => s' = (s.drop tx).2
  | _, _, s' => s' = s

namespace Request

/-- The transaction that a request has opened. -/
def opens? : (q : Request) → Response q → Option Nat
  | .begin, .ok tx => some tx
  | _, _ => none

/-- The lease that a request was granted. -/
def grants? : (q : Request) → Response q → Option Lease
  | .acquire _, lease => lease
  | _, _ => none

end Request

/-- Every request is answered in some way that depends on a state. In it there is a store, which
only step calls may change at will, and a table of leases, from which a released lease is taken. -/
structure Setting (σ : Type) where
  answer : (q : Request) → σ → Response q × σ
  store : σ → Store
  leases : σ → LeaseTable
  deals : ∀ q s, q.isCall = false → (store s).Deals q (answer q s).1 (store (answer q s).2)
  releases : ∀ lease s, leases (answer (.release lease) s).2 =
    (leases s).remove lease.executionId lease.leaseId

/-- One request of a run with its answer, and the states around it. -/
structure Visit (σ : Type) where
  question : Request
  answer : Response question
  before : σ
  after : σ

/-- The requests of a run, in order. -/
def Program.visits {α σ : Type} (answer : (q : Request) → σ → Response q × σ) :
    Action α → σ → List (Visit σ)
  | Program.done _, _ => []
  | Program.failed _, _ => []
  | Program.ask q next, s =>
    ⟨q, (answer q s).1, s, (answer q s).2⟩ :: (next (answer q s).1).visits answer (answer q s).2

/-- The requests change no stored row, apart from what is done inside a step call, and report
nothing; each transaction that they open is closed and each lease that they are granted is given
back by a later one. -/
structure Harmless {σ : Type} (w : Setting σ) (visits : List (Visit σ)) : Prop where
  kept : ∀ v ∈ visits, v.question.isCall = false → (w.store v.before).Keeps (w.store v.after)
  silent : ∀ v ∈ visits, v.question.isReport = false
  closed : ∀ v later, v :: later <:+ visits → ∀ tx, v.question.opens? v.answer = some tx →
    ∃ u ∈ later, u.question = .drop tx ∧ (w.store u.after).Closed tx
  released : ∀ v later, v :: later <:+ visits → ∀ lease, v.question.grants? v.answer = some lease →
    ∃ u ∈ later, u.question = .release lease ∧
      ∀ held, (w.leases u.after).get? lease.executionId = some held →
        held.leaseId ≠ lease.leaseId

namespace Custody

/-- The requests of a run keep to the custody from one state to another. -/
inductive Follows {σ : Type} (w : Setting σ) :
    Custody → σ → List (Visit σ) → Custody → σ → Prop
  | done (m : Custody) (s : σ) : Follows w m s [] m s
  | ask {m m' : Custody} {s s' : σ} {visits : List (Visit σ)} (q : Request) (allowed : m.Allows q)
      (rest : Follows w (m.after q (w.answer q s).1) (w.answer q s).2 visits m' s') :
      Follows w m s (⟨q, (w.answer q s).1, s, (w.answer q s).2⟩ :: visits) m' s'

/-- The store knows the transaction that is open, at its stage. -/
def Sound {σ : Type} (w : Setting σ) (m : Custody) (s : σ) : Prop :=
  ∀ tx stage, m.tx = some (tx, stage) → (w.store s).At tx stage

section

variable {σ α : Type} {w : Setting σ} {m m' : Custody} {s s' : σ} {visits : List (Visit σ)}
  {q : Request} {queued : Prop}

theorem follows_of_ensures {p : Action α} {post : Except Failure α → Custody → Prop}
    (taken : queued → ∀ (q : Request) s, q.IsTaken (w.answer q s).1)
    (ensures : Ensures (terms queued) post p m) :
    ∃ m', Follows w m s (p.visits w.answer s) m' (p.run w.answer s).2 ∧
      post (p.run w.answer s).1 m' := by
  induction p generalizing m s with
  | done value => exact ⟨m, .done m s, ensures⟩
  | failed failure => exact ⟨m, .done m s, ensures⟩
  | ask q next ih =>
    obtain ⟨allowed, rest⟩ := ensures m rfl (w.answer q s).1 _ ⟨rfl, fun queue => taken queue q s⟩
    obtain ⟨m', follows, ends⟩ := ih (w.answer q s).1 (s := (w.answer q s).2) rest
    exact ⟨m', .ask q allowed follows, ends⟩

/-! ## What one request does -/

theorem stored_after (q : Request) (answer : Response q)
    (unstored : (m.after q answer).stored = false) : m.stored = false := by
  cases q with
  | begin | acquire => cases answer <;> exact unstored
  | commit tx =>
    cases answer with
    | error => exact unstored
    | ok value => exact (Bool.or_eq_false_iff.1 unstored).1
  | _ => exact unstored

theorem called_after (q : Request) (answer : Response q)
    (uncalled : (m.after q answer).called = false) : m.called = false ∧ q.isCall = false := by
  cases q with
  | begin | acquire | commit => cases answer <;> exact ⟨uncalled, rfl⟩
  | call => cases uncalled
  | _ => exact ⟨uncalled, rfl⟩

theorem sound_of_free (free : m.tx = none) (s : σ) : Sound w m s := by
  intro tx stage opened
  rw [free] at opened
  cases opened

theorem sound_of_at {tx : Nat} {stage : Stage} (opened : m.tx = some (tx, stage))
    (here : (w.store s).At tx stage) : Sound w m s := by
  intro tx' stage' opened'
  rw [opened] at opened'
  cases opened'
  exact here

theorem sound_of_same (sound : Sound w m s) (same : w.store s' = w.store s) : Sound w m s' := by
  intro tx stage opened
  rw [same]
  exact sound tx stage opened

/-- A request inside a transaction that is carried out, or not at all. -/
theorem sound_of_dealt {tx : Nat} {stage : Stage} {next : Store}
    (opened : m'.tx = some (tx, stage)) (here : (w.store s).At tx stage)
    (moved : (w.store s).Keeps next ∧ next.At tx stage)
    (dealt : next = w.store s' ∨ w.store s' = w.store s) :
    (w.store s).Keeps (w.store s') ∧ Sound w m' s' := by
  rcases dealt with rfl | same
  · exact ⟨moved.1, sound_of_at opened moved.2⟩
  · rw [same]
    exact ⟨.refl _, sound_of_at opened (same ▸ here)⟩

/-- A request changes no stored row unless it stores one, and the custody stays sound. -/
theorem sound_after (allowed : m.Allows q) (sound : Sound w m s) :
    (q.isCall = false → (m.after q (w.answer q s).1).stored = false →
      (w.store s).Keeps (w.store (w.answer q s).2)) ∧
    Sound w (m.after q (w.answer q s).1) (w.answer q s).2 := by
  have deals := w.deals q s
  generalize w.answer q s = result at deals ⊢
  obtain ⟨answer, s'⟩ := result
  dsimp only at deals ⊢
  have unchanged (same : w.store s' = w.store s) : (w.store s).Keeps (w.store s') := by
    rw [same]
    exact .refl _
  cases q with
  | begin =>
    rcases deals rfl with begun | ⟨⟨failure, rfl⟩, same⟩
    · obtain ⟨keeps, opened⟩ := Store.At.clean_of_begin begun
      refine ⟨fun _ _ => keeps, ?_⟩
      cases answer with
      | error => exact sound_of_free allowed s'
      | ok tx => exact sound_of_at rfl (opened tx rfl)
    · exact ⟨fun _ _ => unchanged same, sound_of_free allowed s'⟩
  | insert tx row =>
    obtain ⟨stage, opened, going⟩ := allowed
    have here := (sound tx stage opened).written going
    have opened' : (m.after (.insert tx row) answer).tx = some (tx, .written) := rfl
    obtain ⟨keeps, sound'⟩ := sound_of_dealt opened' here (here.written_of_insert row)
      ((deals rfl).imp_left And.left)
    exact ⟨fun _ _ => keeps, sound'⟩
  | update tx row expected =>
    obtain ⟨stage, opened, going⟩ := allowed
    have here := (sound tx stage opened).written going
    have opened' : (m.after (.update tx row expected) answer).tx = some (tx, .written) := rfl
    obtain ⟨keeps, sound'⟩ := sound_of_dealt opened' here (here.written_of_update row expected)
      ((deals rfl).imp_left (congrArg Prod.snd))
    exact ⟨fun _ _ => keeps, sound'⟩
  | find tx x =>
    obtain ⟨stage, opened, -⟩ := allowed
    have here := sound tx stage opened
    obtain ⟨keeps, sound'⟩ := sound_of_dealt opened here (here.of_find x)
      ((deals rfl).imp_left (congrArg Prod.snd))
    exact ⟨fun _ _ => keeps, sound'⟩
  | listByStatus tx status limit =>
    obtain ⟨stage, opened, -⟩ := allowed
    have here := sound tx stage opened
    obtain ⟨keeps, sound'⟩ := sound_of_dealt opened here (here.of_listByStatus status limit)
      ((deals rfl).imp_left (congrArg Prod.snd))
    exact ⟨fun _ _ => keeps, sound'⟩
  | listStale tx query =>
    obtain ⟨stage, opened, -⟩ := allowed
    have here := sound tx stage opened
    obtain ⟨keeps, sound'⟩ := sound_of_dealt opened here (here.of_listStale query)
      ((deals rfl).imp_left (congrArg Prod.snd))
    exact ⟨fun _ _ => keeps, sound'⟩
  | commit tx =>
    obtain ⟨stage, opened, going⟩ := allowed
    rcases deals rfl with done | ⟨⟨failure, rfl⟩, same⟩
    · obtain ⟨clean, ends⟩ := (sound tx stage opened).ended_of_commit going done
      cases answer with
      | error => exact ⟨fun _ _ => ends.1, sound_of_at opened ends.2⟩
      | ok value =>
        refine ⟨fun _ unstored => clean ?_, sound_of_at rfl ends⟩
        cases stage with
        | clean => rfl
        | written => simp [after, opened] at unstored
        | ended => exact absurd rfl going
    · exact ⟨fun _ _ => unchanged same, sound_of_same sound same⟩
  | drop tx =>
    obtain ⟨stage, opened⟩ := allowed
    have dropped := (sound tx stage opened).closed_of_drop
    rw [← deals rfl] at dropped
    exact ⟨fun _ _ => dropped.1, sound_of_free rfl s'⟩
  | call =>
    refine ⟨?_, sound_of_free allowed.1 s'⟩
    intro own
    cases own
  | acquire =>
    have same := deals rfl
    cases answer <;> exact ⟨fun _ _ => unchanged same, sound_of_same sound same⟩
  | _ =>
    have same := deals rfl
    exact ⟨fun _ _ => unchanged same, sound_of_same sound same⟩

/-- A transaction stays open until it is dropped. -/
theorem tx_after {tx : Nat} {stage : Stage} (allowed : m.Allows q)
    (opened : m.tx = some (tx, stage)) (answer : Response q) :
    q = .drop tx ∨ ∃ stage', (m.after q answer).tx = some (tx, stage') := by
  cases q with
  | begin =>
    rw [show m.tx = none from allowed] at opened
    cases opened
  | insert other | update other =>
    obtain ⟨stage', opened', -⟩ := allowed
    rw [opened] at opened'
    cases opened'
    exact .inr ⟨.written, rfl⟩
  | commit other =>
    obtain ⟨stage', opened', -⟩ := allowed
    rw [opened] at opened'
    cases opened'
    cases answer with
    | error => exact .inr ⟨stage, opened⟩
    | ok value => exact .inr ⟨.ended, rfl⟩
  | drop other =>
    obtain ⟨stage', opened'⟩ := allowed
    rw [opened] at opened'
    cases opened'
    exact .inl rfl
  | acquire => cases answer <;> exact .inr ⟨stage, opened⟩
  | _ => exact .inr ⟨stage, opened⟩

/-- A lease is held until it is released. -/
theorem lease_after {lease : Lease} (allowed : m.Allows q) (held : m.lease = some lease)
    (answer : Response q) : q = .release lease ∨ (m.after q answer).lease = some lease := by
  cases q with
  | acquire =>
    rw [allowed.2] at held
    cases held
  | release other =>
    have same := allowed.2
    rw [held] at same
    cases same
    exact .inl rfl
  | begin | commit => cases answer <;> exact .inr held
  | _ => exact .inr held

/-! ## What a run does -/

theorem Follows.unstored (follows : Follows w m s visits m' s') (ends : m'.stored = false) :
    m.stored = false := by
  induction follows with
  | done => exact ends
  | ask q allowed rest ih => exact stored_after q _ (ih ends)

theorem Follows.kept (follows : Follows w m s visits m' s') (ends : m'.stored = false)
    (sound : Sound w m s) : ∀ v ∈ visits, v.question.isCall = false →
      (w.store v.before).Keeps (w.store v.after) := by
  induction follows with
  | done =>
    intro v among
    cases among
  | ask q allowed rest ih =>
    obtain ⟨keeps, sound'⟩ := sound_after allowed sound
    rintro v (_ | ⟨_, later⟩) own
    · exact keeps own (rest.unstored ends)
    · exact ih ends sound' v later own

theorem Follows.silent (follows : Follows w m s visits m' s') (ends : m'.stored = false) :
    ∀ v ∈ visits, v.question.isReport = false := by
  induction follows with
  | done =>
    intro v among
    cases among
  | ask q allowed rest ih =>
    rintro v (_ | ⟨_, later⟩)
    · have unstored := stored_after q _ (rest.unstored ends)
      cases q with
      | alert | completed =>
        rw [show _ = true from allowed] at unstored
        cases unstored
      | _ => rfl
    · exact ih ends v later

theorem Follows.uncalled (follows : Follows w m s visits m' s') (ends : m'.called = false) :
    m.called = false ∧ ∀ v ∈ visits, v.question.isCall = false := by
  induction follows with
  | done =>
    refine ⟨ends, ?_⟩
    intro v among
    cases among
  | ask q allowed rest ih =>
    obtain ⟨uncalled, others⟩ := ih ends
    obtain ⟨before, own⟩ := called_after q _ uncalled
    refine ⟨before, ?_⟩
    rintro v (_ | ⟨_, later⟩)
    · exact own
    · exact others v later

theorem Follows.drops (follows : Follows w m s visits m' s') (ends : m'.tx = none)
    (sound : Sound w m s) {tx : Nat} {stage : Stage} (opened : m.tx = some (tx, stage)) :
    ∃ u ∈ visits, u.question = .drop tx ∧ (w.store u.after).Closed tx := by
  induction follows generalizing stage with
  | done =>
    rw [ends] at opened
    cases opened
  | @ask m m' s s' visits q allowed rest ih =>
    rcases tx_after allowed opened (w.answer q s).1 with rfl | ⟨stage', still⟩
    · refine ⟨_, List.mem_cons_self, rfl, ?_⟩
      have dropped := w.deals (.drop tx) s rfl
      show (w.store (w.answer (.drop tx) s).2).Closed tx
      rw [show w.store (w.answer (.drop tx) s).2 = _ from dropped]
      exact (sound tx stage opened).closed_of_drop.2
    · obtain ⟨u, among, dropped⟩ := ih ends (sound_after allowed sound).2 still
      exact ⟨u, List.mem_cons_of_mem _ among, dropped⟩

theorem Follows.gives (follows : Follows w m s visits m' s') (ends : m'.lease = none)
    {lease : Lease} (held : m.lease = some lease) :
    ∃ u ∈ visits, u.question = .release lease ∧
      ∀ held, (w.leases u.after).get? lease.executionId = some held →
        held.leaseId ≠ lease.leaseId := by
  induction follows with
  | done =>
    rw [ends] at held
    cases held
  | @ask m m' s s' visits q allowed rest ih =>
    rcases lease_after allowed held (w.answer q s).1 with rfl | still
    · refine ⟨_, List.mem_cons_self, rfl, ?_⟩
      intro other found
      rw [show w.leases (w.answer (.release lease) s).2 = _ from w.releases lease s,
        LeaseTable.get?_remove, if_pos rfl] at found
      exact of_decide_eq_true (Option.filter_eq_some_iff.1 found).2
    · obtain ⟨u, among, released⟩ := ih ends still
      exact ⟨u, List.mem_cons_of_mem _ among, released⟩

theorem Follows.closed (follows : Follows w m s visits m' s') (ends : m'.tx = none)
    (sound : Sound w m s) {v : Visit σ} {later : List (Visit σ)} (visited : v :: later <:+ visits)
    {tx : Nat} (opens : v.question.opens? v.answer = some tx) :
    ∃ u ∈ later, u.question = .drop tx ∧ (w.store u.after).Closed tx := by
  induction follows with
  | done => cases List.suffix_nil.1 visited
  | @ask m m' s s' visits q allowed rest ih =>
    have sound' := (sound_after allowed sound).2
    rcases List.suffix_cons_iff.1 visited with same | within
    · cases same
      cases q with
      | begin =>
        generalize w.answer .begin s = result at rest sound' opens
        obtain ⟨_ | tx', s₁⟩ := result
        · cases opens
        · cases opens
          exact rest.drops ends sound' rfl
      | _ => cases opens
    · exact ih ends sound' within

theorem Follows.released (follows : Follows w m s visits m' s') (ends : m'.lease = none)
    {v : Visit σ} {later : List (Visit σ)} (visited : v :: later <:+ visits) {lease : Lease}
    (grants : v.question.grants? v.answer = some lease) :
    ∃ u ∈ later, u.question = .release lease ∧
      ∀ held, (w.leases u.after).get? lease.executionId = some held →
        held.leaseId ≠ lease.leaseId := by
  induction follows with
  | done => cases List.suffix_nil.1 visited
  | @ask m m' s s' visits q allowed rest ih =>
    rcases List.suffix_cons_iff.1 visited with same | within
    · cases same
      cases q with
      | acquire x =>
        generalize w.answer (.acquire x) s = result at rest grants
        obtain ⟨_ | lease', s₁⟩ := result
        · cases grants
        · cases grants
          exact rest.gives ends rfl
      | _ => cases grants
    · exact ih ends within

theorem Follows.harmless (follows : Follows w {} s visits m' s') (tx : m'.tx = none)
    (lease : m'.lease = none) (unstored : m'.stored = false) : Harmless w visits := by
  have sound : Sound w {} s := sound_of_free rfl s
  constructor
  case kept => exact follows.kept unstored sound
  case silent => exact follows.silent unstored
  case closed => exact fun v later visited tx' => follows.closed tx sound visited
  case released => exact fun v later visited lease' => follows.released lease visited

end

end Custody

/-- One operation by itself: a drive is many, and so is a resume that nobody takes over. -/
def Operation.IsSingle {σ : Type} (w : Setting σ) : Operation → Prop
  | drive _ => False
  | resume _ => ∀ x s, (w.answer (.dispatch x) s).1 = true
  | _ => True

theorem Custody.undone_of_result {α β : Type} {queued : Prop} {p : Action α}
    (undone : Ensures (terms queued) (Undone {}) p {}) (result : α → β) :
    Ensures (terms queued) (Undone {}) (p >>= fun value => return result value) {} := by
  refine Ensures.bind (undone.mono ?_)
  rintro (failure | value) m ends
  · exact ⟨ends.tx, ends.lease, by rintro _ ⟨⟩; exact ends.unstored _ rfl,
      by rintro _ ⟨⟩; exact ends.uncalled _ rfl⟩
  · exact .ok ends.tx ends.lease

open Custody in
theorem operation_undone {σ : Type} (w : Setting σ) (e : Engine) {operation : Operation}
    (single : operation.IsSingle w) :
    Ensures (terms (∀ x s, (w.answer (.dispatch x) s).1 = true)) (Custody.Undone {})
      (operation.program e) {} := by
  cases operation with
  | start sagaType context => exact undone_of_result (start_undone e sagaType context) _
  | advance x => exact undone_of_result (advance_undone e x) _
  | drive x => exact single.elim
  | resume x => exact undone_of_result (resume_undone single e x) _
  | cancel x => exact undone_of_result (cancel_undone x) _

/-- Whatever is stored, whatever steps do and wherever the store fails: a start, an advance, a
cancel or a resume that is taken over, if it fails, leaves nothing behind. If it fails because the
type is not registered, the numbers of steps differ or there is no such execution, no step was
called. -/
theorem failed_operation_harmless {σ : Type} (w : Setting σ) (e : Engine) (operation : Operation)
    (single : operation.IsSingle w) (s : σ) {failure : Failure}
    (failed : ((operation.program e).run w.answer s).1 = .error failure) :
    Harmless w ((operation.program e).visits w.answer s) ∧
      (failure.isEarly = true →
        ∀ v ∈ (operation.program e).visits w.answer s, v.question.isCall = false) := by
  have taken : (∀ x s, (w.answer (.dispatch x) s).1 = true) →
      ∀ (q : Request) s, q.IsTaken (w.answer q s).1 := by
    intro dispatched q s
    cases q with
    | dispatch x => exact dispatched x s
    | _ => trivial
  obtain ⟨m, follows, undone⟩ := Custody.follows_of_ensures (s := s) taken
    (operation_undone w e single)
  rw [failed] at undone
  refine ⟨follows.harmless undone.tx undone.lease (undone.unstored _ rfl), fun early => ?_⟩
  exact (follows.uncalled (undone.uncalled _ rfl early)).2

namespace Sample

/-- A store and a table of leases behind one desk, where all else is answered as by a host. -/
def desk : Setting (Store × LeaseManager) where
  answer q s :=
    match q with
    | .begin => (s.1.begin.1, s.1.begin.2, s.2)
    | .insert tx row => (.ok (s.1.insert tx row).1, (s.1.insert tx row).2, s.2)
    | .find tx x => ((s.1.find? tx x).1, (s.1.find? tx x).2, s.2)
    | .update tx row expected =>
      ((s.1.update tx row expected).1, (s.1.update tx row expected).2, s.2)
    | .listByStatus tx status limit =>
      ((s.1.listByStatus tx status limit).1, (s.1.listByStatus tx status limit).2, s.2)
    | .listStale tx query => ((s.1.listStale tx query).1, (s.1.listStale tx query).2, s.2)
    | .commit tx => ((s.1.commit tx).1, (s.1.commit tx).2, s.2)
    | .drop tx => ((), (s.1.drop tx).2, s.2)
    | .acquire x => ((s.2.tryAcquire x "desk" 0).1, s.1, (s.2.tryAcquire x "desk" 0).2)
    | .release lease => ((), s.1, s.2.release lease)
    | q => (host busy [] q, s)
  store s := s.1
  leases s := s.2.table
  deals q s own := by
    cases q with
    | begin | find | update | listByStatus | listStale | commit => exact .inl rfl
    | insert => exact .inl ⟨rfl, rfl⟩
    | call => cases own
    | _ => rfl
  releases _ _ := rfl

/-- A desk with an execution whose index is past its steps on the way back. -/
def astray : Store × LeaseManager :=
  let row : Execution :=
    { id := "x", sagaType := "order", status := .compensating, stepIndex := 5, totalSteps := 1,
      version := 1 }
  (.memory { committed := Dictionary.empty.insert "x" row }, {})

end Sample

/-- An advance of it fails under the lease, and one of an execution that is not there before it. -/
theorem failed_operation_harmless_astray :
    (((Operation.advance "x").program Sample.engine).run Sample.desk.answer Sample.astray).1 =
        .error .stepOutOfRange ∧
      Harmless Sample.desk (((Operation.advance "x").program Sample.engine).visits
        Sample.desk.answer Sample.astray) ∧
      ∀ v ∈ ((Operation.advance "y").program Sample.engine).visits Sample.desk.answer
        Sample.astray, v.question.isCall = false := by
  have strays : (((Operation.advance "x").program Sample.engine).run Sample.desk.answer
      Sample.astray).1 = .error .stepOutOfRange := by
    decide +kernel
  have misses : (((Operation.advance "y").program Sample.engine).run Sample.desk.answer
      Sample.astray).1 = .error (.executionMissing "y") := by
    decide +kernel
  have harmless := failed_operation_harmless Sample.desk Sample.engine (.advance "x") trivial
    Sample.astray strays
  have uncalled := failed_operation_harmless Sample.desk Sample.engine (.advance "y") trivial
    Sample.astray misses
  exact ⟨strays, harmless.1, uncalled.2 rfl⟩

end SagaEngine
