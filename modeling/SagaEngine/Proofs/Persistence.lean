import SagaEngine.Proofs.Interference
/-!
# Reading and storing rows

Reading shows a committed row. Storing a transition either commits it on a row with the
progress on which it was decided, or finds that somebody else made progress meanwhile.
Main statements: `load_ensures`, `writeOnce_ensures` and `persist_ensures`.
-/

namespace SagaEngine

section

variable {e : Engine} {me : Actor} {x : String} {d : SagaDefinition} {base row : Execution}
  {t : Transition} {j j' j'' : Journal} {v v' : View} {a : Attempt} {seen : Option Execution}

/-! ## Reading -/

theorem Sees.extend (sees : Sees e me x j' j'' seen) (before : Idles e me j j')
    {j₃ : Journal} (after : Idles e me j'' j₃) : Sees e me x j j₃ seen := by
  obtain ⟨k, lower, upper, found⟩ := sees.between
  refine ⟨?_, k, before.later.trans lower, upper.trans after.later, found⟩
  rw [← before.attempt]
  exact (before.trans sees.onward).idle after

theorem Sees.mem (sees : Sees e me x j j' (some row)) : row ∈ j'.history x := by
  obtain ⟨k, -, upper, found⟩ := sees.between
  exact (history_suffix x upper).subset (mem_history_of_record found)

theorem Sees.finished (sees : Sees e me x j j' (some row)) (fits : e.Fits)
    (terminal : row.status.isTerminal = true) : j'.Finished x row := by
  obtain ⟨k, -, upper, found⟩ := sees.between
  have finished : k.Finished x row := ⟨found, terminal⟩
  exact finished.mono sees.onward.lawful fits upper

theorem load_ensures (target : me.operation.target? = some x) :
    Ensures (contract e me)
      (fun r v' => ∃ seen, r = .ok seen ∧ Sees e me x v.journal v'.journal seen)
      (Engine.load x) v := by
  apply Ensures.transaction
  intro tx v₁ idles unwritten
  refine Ensures.bind (Ensures.find target unwritten ?_)
  intro seen v₂ sees empty
  show Ensures _ _ (Action.commit tx >>= fun _ => pure seen) v₂
  refine Ensures.bind (Ensures.commitNothing empty ?_)
  intro v₃ idles' v₄ idles''
  exact ⟨seen, rfl, sees.extend idles (idles'.idle idles'')⟩

theorem getStatus_ensures (target : me.operation.target? = some x) :
    Ensures (contract e me)
      (fun r v' => (∃ row, r = .ok row ∧ Sees e me x v.journal v'.journal (some row)) ∨
        r = .error (.executionMissing x) ∧ Sees e me x v.journal v'.journal none)
      (Engine.getStatus x) v := by
  refine Ensures.bind ((load_ensures target).mono ?_)
  rintro r v' ⟨seen, rfl, sees⟩
  cases seen with
  | some row => exact .inl ⟨row, rfl, sees⟩
  | none => exact .inr ⟨rfl, sees⟩

/-! ## Writing once -/

/-- The row that replaces another one was committed. -/
structure Wrote (e : Engine) (me : Actor) (j j' : Journal) (row : Execution) : Prop extends
    Onward e me j j' ((j.attempt me).after ⟨me, .commit 0, .ok (), [row]⟩) where
  committed : ∃ (k : Journal) (ev : Event), j <:+ k ∧ ev :: k <:+ j' ∧ ev.installed = [row]

/-- Somebody else has committed a row, so the version is not the one read any more. -/
def Outrun (e : Engine) (me : Actor) (x : String) (j j' : Journal) (version : Nat) : Prop :=
  Idles e me j j' ∧ ∃ (k : Journal) (old : Execution), j <:+ k ∧ k <:+ j' ∧ k.record x = some old ∧
    old.version ≠ version

/-- A row may be committed in place of a row that was read. -/
def MayReplace (e : Engine) (me : Actor) (x : String) (j : Journal) (base row : Execution) : Prop :=
  ∀ (tx : Nat) (k : Journal) (old : Execution), Idles e me j k → k.record x = some old →
    old.version = base.version →
    Permitted e k ⟨me, .commit tx, .ok (), [row.replacing base]⟩

theorem Wrote.extend (wrote : Wrote e me j' j'' row) (before : Idles e me j j') {j₃ : Journal}
    (after : Idles e me j'' j₃) : Wrote e me j j₃ row := by
  have onward := (before.trans wrote.toOnward).idle after
  obtain ⟨k, ev, lower, upper, installs⟩ := wrote.committed
  exact ⟨⟨onward.lawful, onward.later, before.attempt ▸ onward.attempt⟩, k, ev,
    before.later.trans lower, upper.trans after.later, installs⟩

theorem Wrote.of_commit {tx : Nat} (idles : Idles e me j j')
    (lawful : Lawful e (⟨me, .commit tx, .ok (), [row]⟩ :: j')) :
    Wrote e me j (⟨me, .commit tx, .ok (), [row]⟩ :: j') row := by
  refine ⟨⟨lawful, idles.later.trans (List.suffix_cons _ _), (attempt_own rfl).trans ?_⟩,
    j', _, idles.later, List.suffix_refl _, rfl⟩
  rw [idles.attempt]
  rfl

theorem Wrote.grows (wrote : Wrote e me j j' row) (id : row.id = x) :
    (j.history x).length < (j'.history x).length := by
  obtain ⟨k, ev, lower, upper, installs⟩ := wrote.committed
  have before := (history_suffix x lower).length_le
  have after := (history_suffix x upper).length_le
  rw [history_cons_one ev k installs, if_pos id, List.length_cons] at after
  omega

theorem Wrote.finished (wrote : Wrote e me j j' row) (id : row.id = x) (fits : e.Fits)
    (terminal : row.status.isTerminal = true) : j'.Finished x row := by
  obtain ⟨k, ev, lower, upper, installs⟩ := wrote.committed
  have recorded : Journal.Finished (ev :: k) x row := by
    refine ⟨?_, terminal⟩
    rw [record_eq_head?, history_cons_one ev k installs, if_pos id]
    rfl
  exact recorded.mono wrote.lawful fits upper

theorem Outrun.extend {version : Nat} (outrun : Outrun e me x j' j'' version)
    (before : Idles e me j j') {j₃ : Journal} (after : Idles e me j'' j₃) :
    Outrun e me x j j₃ version := by
  obtain ⟨idles, k, old, lower, upper, found, differs⟩ := outrun
  exact ⟨before.idle (idles.idle after), k, old, before.later.trans lower, upper.trans after.later,
    found, differs⟩

theorem stale?_eq_none {w : Execution} {version : Nat}
    (current : j.stale? ⟨w, some version⟩ = none) :
    ∃ old, j.record w.id = some old ∧ old.version = version := by
  cases found : j.record w.id with
  | none => simp_all [Journal.stale?, MemoryStore.staleWrite?, Journal.record]
  | some old => simp_all [Journal.stale?, MemoryStore.staleWrite?, Journal.record]

theorem stale?_eq_some {w : Execution} {version : Nat} {failure : StoreFailure}
    (stale : j.stale? ⟨w, some version⟩ = some failure) :
    failure.kind = .conflict ∧ ∀ old, j.record w.id = some old → old.version ≠ version := by
  cases found : j.record w.id with
  | none =>
    have same : failure = .modifiedConcurrently w.id := by
      simp_all [Journal.stale?, MemoryStore.staleWrite?, Journal.record]
    subst same
    exact ⟨rfl, fun old impossible => nomatch impossible⟩
  | some old =>
    have both : failure = .modifiedConcurrently w.id ∧ old.version ≠ version := by
      simp_all [Journal.stale?, MemoryStore.staleWrite?, Journal.record]
    obtain ⟨rfl, differs⟩ := both
    refine ⟨rfl, ?_⟩
    rintro _ ⟨⟩
    exact differs

theorem record_of_present (present : j.history x ≠ []) (later : j <:+ j') :
    ∃ row, j'.record x = some row := by
  obtain ⟨row, inside⟩ := List.exists_mem_of_ne_nil _ present
  exact record_of_mem_history ((history_suffix x later).subset inside)

/-- Who finds nothing asked for an execution that did not exist. -/
theorem Sees.nothing (sees : Sees e me x j j' none) : j.history x = [] := by
  obtain ⟨k, lower, upper, missing⟩ := sees.between
  cases history : j.history x with
  | nil => rfl
  | cons first older =>
    have present : j.history x ≠ [] := by rw [history]; exact List.cons_ne_nil _ _
    obtain ⟨row, found⟩ := record_of_present present lower
    rw [missing] at found
    cases found

theorem writeOnce_ensures (id : row.id = x)
    (present : v.journal.history x ≠ []) (may : MayReplace e me x v.journal base row) :
    Ensures (contract e me)
      (fun r v' =>
        (r = .ok (.stored (row.replacing base)) ∧
          Wrote e me v.journal v'.journal (row.replacing base)) ∨
        r = .ok .outrun ∧ Outrun e me x v.journal v'.journal base.version)
      (Engine.writeOnce base row) v := by
  subst id
  apply Ensures.transaction
  intro tx v₁ idles unwritten
  refine Ensures.bind (Ensures.update unwritten ?_ ?_ ?_)
  · rintro v₂ - ⟨k, later, gone⟩
    obtain ⟨kept, found⟩ := record_of_present present (idles.later.trans later)
    rw [gone] at found
    cases found
  · rintro v₂ old idles₂ ⟨k, later, upper, found⟩ version v₃ idles₃
    have outrun : Outrun e me row.id v₁.journal v₂.journal base.version :=
      ⟨idles₂, k, old, later, upper, found, version⟩
    exact .inr ⟨rfl, outrun.extend idles idles₃⟩
  · intro v₂ idles₂ pending
    have before := idles.idle idles₂
    refine Ensures.bind (Ensures.commitOne pending ?_ ?_ ?_)
    · intro k v₃ failure later upper stale idles₃
      obtain ⟨conflict, differs⟩ := stale?_eq_some stale
      obtain ⟨old, found⟩ := record_of_present present (before.later.trans later)
      have outrun : Outrun e me row.id v₂.journal v₃.journal base.version :=
        ⟨idles₃, k, old, later, upper, found, differs old found⟩
      dsimp only
      rw [if_pos conflict]
      refine Ensures.bind (Ensures.log ?_)
      rintro v₄ idles₄ - v₅ idles₅
      exact .inr ⟨rfl, outrun.extend before (idles₄.idle idles₅)⟩
    · intro k idles₃ current
      obtain ⟨old, found, version⟩ := stale?_eq_none current
      exact may tx k old (before.idle idles₃) found version
    · intro k v₃ idles₃ journal lawful v₄ idles₄
      have wrote : Wrote e me v₂.journal v₃.journal (row.replacing base) := by
        rw [journal] at lawful ⊢
        exact .of_commit idles₃ lawful
      exact .inl ⟨rfl, wrote.extend before idles₄⟩

/-! ## Storing a transition -/

/-- An owner that holds the lease, has read a row under it and has written nothing since. -/
structure Holding (e : Engine) (me : Actor) (x : String) (d : SagaDefinition) (base : Execution)
    (a : Attempt) : Prop where
  driven : me.operation.driven? = some x
  held : ∃ lease, a.held = some lease
  read : a.base = some base
  unwritten : a.written = []
  known : e.definitionOf base = .ok d

/-- An owner that may store a transition: what it read and the calls it made since decide it. -/
structure Ready (e : Engine) (me : Actor) (x : String) (d : SagaDefinition) (base : Execution)
    (t : Transition) (a : Attempt) : Prop extends Holding e me x d base a where
  decides : Decides d base a.calls t

/-- A later read tells nothing about an owner that has read a row before. -/
theorem Sees.idles (sees : Sees e me x j j' seen) (read : (j.attempt me).base = some base) :
    Idles e me j j' := by
  refine ⟨sees.onward.lawful, sees.onward.later, sees.onward.attempt.trans ?_⟩
  cases seen with
  | none => rfl
  | some row =>
    simp only [Attempt.after, read, Option.some_or]
    rw [← read]

namespace Ready

theorem base_mem (ready : Ready e me x d base t (j.attempt me)) (lawful : Lawful e j) :
    base ∈ j.history x :=
  lawful.base_mem (Operation.target?_of_driven? ready.driven) ready.read

theorem ownedBy (ready : Ready e me x d base t (j.attempt me)) (lawful : Lawful e j) :
    j.OwnedBy e d x :=
  lawful.ownedBy_of_known (ready.base_mem lawful) ready.known

/-- The transition can be stored on every row with the progress that was read. -/
theorem next (ready : Ready e me x d base t (j.attempt me)) (lawful : Lawful e j) (fits : e.Fits)
    (inside : row ∈ j.history x) (same : base.progress = row.progress) :
    ∃ changed, t.next row = .ok changed := by
  have small := fits.of_definitionOf ready.known
  have owned := ready.ownedBy lawful
  have readFormed := owned.wellFormed small (ready.base_mem lawful)
  have formed := owned.wellFormed small inside
  obtain ⟨changed, stores⟩ := ready.decides.stores small formed same
    (readFormed.steps.trans formed.steps.symm)
  exact ⟨changed, stores.next⟩

theorem mayReplace {changed : Execution} (ready : Ready e me x d base t (j.attempt me))
    (fits : e.Fits) (inside : row ∈ j.history x) (same : base.progress = row.progress)
    (next : t.next row = .ok changed) (now : Nat) :
    MayReplace e me x j row (changed.stamped now) := by
  intro tx k old idles found version
  have ready : Ready e me x d base t (k.attempt me) := idles.attempt ▸ ready
  have owned := ready.ownedBy idles.lawful
  have small := fits.of_definitionOf ready.known
  have inside := (history_suffix x idles.later).subset inside
  have latest : old = row := owned.record_eq_of_version small inside found version
  subst latest
  obtain ⟨lease, held⟩ := ready.held
  exact .decided me x tx lease old base changed d t now ready.driven held ready.read
    ready.unwritten found ready.known ready.decides same next

end Ready

theorem follows_of_outrun (outrun : Outrun e me x j j' row.version) (owned : j''.OwnedBy e d x)
    (fits : d.Fits) (later : j' <:+ j'') (inside : row ∈ j.history x) {fresh : Execution}
    (found : j''.record x = some fresh) : Follows d fresh row := by
  obtain ⟨idles, k, old, lower, upper, oldFound, differs⟩ := outrun
  have oldMem := (history_suffix x (upper.trans later)).subset (mem_history_of_record oldFound)
  have rowMem := (history_suffix x lower).subset inside
  have kOwned : k.OwnedBy e d x := by
    have lawful : Lawful e k := idles.lawful.suffix upper
    exact lawful.ownedBy_of_known (mem_history_of_record oldFound) (owned.known old oldMem)
  have follows : Follows d old row := by
    rcases kOwned.record_follows fits rowMem oldFound with same | follows
    · exact absurd (congrArg Execution.version same) differs
    · exact follows
  rcases owned.record_follows fits oldMem found with same | further
  · exact same ▸ follows
  · exact further.trans follows

/-- Who reads again after a lost race finds a row that follows the one that was to be replaced. -/
theorem Outrun.sees (outrun : Outrun e me x j j' row.version) (sees : Sees e me x j' j'' seen)
    (inside : row ∈ j.history x) (known : e.definitionOf row = .ok d) (fits : d.Fits) :
    ∃ (fresh : Execution) (k : Journal), seen = some fresh ∧ j' <:+ k ∧ k <:+ j'' ∧
      k.record x = some fresh ∧ Follows d fresh row := by
  obtain ⟨k, lower, upper, found⟩ := sees.between
  have kMem : row ∈ k.history x := (history_suffix x (outrun.1.later.trans lower)).subset inside
  obtain ⟨fresh, found'⟩ := record_of_mem_history kMem
  have owned : k.OwnedBy e d x := by
    have lawful : Lawful e k := sees.onward.lawful.suffix upper
    exact lawful.ownedBy_of_known kMem known
  exact ⟨fresh, k, found.symm.trans found', lower, upper, found',
    follows_of_outrun outrun owned fits lower inside found'⟩

/-- What became of a transition: a row was committed, or somebody else made progress. -/
def Persisted (e : Engine) (me : Actor) (x : String) (base : Execution) (j j' : Journal)
    (r : Except Failure (Option Execution)) : Prop :=
  (∃ row, r = .ok (some row) ∧ row.id = x ∧ Wrote e me j j' row) ∨
    r = .ok none ∧ Idles e me j j' ∧ j'.Overtaken x base

theorem Persisted.extend {r : Except Failure (Option Execution)}
    (persisted : Persisted e me x base j' j'' r) (before : Idles e me j j') :
    Persisted e me x base j j'' r := by
  rcases persisted with ⟨row, result, id, wrote⟩ | ⟨result, idles, overtaken⟩
  · exact .inl ⟨row, result, id, wrote.extend before ⟨wrote.lawful, List.suffix_refl _, rfl⟩⟩
  · exact .inr ⟨result, before.idle idles, overtaken⟩

theorem persistWithin_ensures (fits : e.Fits) (tries : Nat) (lawful : Lawful e v.journal)
    (ready : Ready e me x d base t (v.journal.attempt me)) (inside : row ∈ v.journal.history x)
    (same : base.progress = row.progress)
    (enough : 2 ≤ tries ∨ 1 ≤ tries ∧ row.cancelRequested = true) :
    Ensures (contract e me) (fun r v' => Persisted e me x base v.journal v'.journal r)
      (Engine.persistWithin t tries row) v := by
  -- By induction on the tries. A race can be lost with the progress unchanged only to a cancel
  -- request, and that is recorded once: `enough` says that one try more is left until then.
  induction tries generalizing row v with
  | zero => omega
  | succ tries ih =>
    obtain ⟨changed, next⟩ := ready.next lawful fits inside same
    have id : row.id = x := id_of_mem_history inside
    rw [Engine.persistWithin, next]
    refine Ensures.bind (Ensures.ofExcept ?_)
    refine Ensures.bind (Ensures.aside rfl ?_)
    rintro now v₁ idles -
    have ready₁ : Ready e me x d base t (v₁.journal.attempt me) := idles.attempt ▸ ready
    have inside₁ := (history_suffix x idles.later).subset inside
    have changedId : (changed.stamped now).id = x :=
      (congrArg Execution.Origin.id (origin_of_next next)).trans id
    have may := ready₁.mayReplace fits inside₁ same next now
    refine Ensures.bind ((writeOnce_ensures changedId (List.ne_nil_of_mem inside₁) may).mono ?_)
    rintro r v₂ (⟨rfl, wrote⟩ | ⟨rfl, outrun⟩)
    · exact Persisted.extend (.inl ⟨_, rfl, changedId, wrote⟩) idles
    · dsimp only
      rw [id]
      have idles₂ := idles.idle outrun.1
      refine Ensures.bind ((load_ensures (Operation.target?_of_driven? ready.driven)).mono ?_)
      rintro r v₃ ⟨seen, rfl, sees⟩
      have idles₃ := idles₂.idle (sees.idles (idles₂.attempt ▸ ready.read))
      have known := (ready₁.ownedBy idles.lawful).known row inside₁
      obtain ⟨fresh, k, rfl, lower, upper, found, follows⟩ :=
        outrun.sees sees inside₁ known (fits.of_definitionOf ready.known)
      dsimp only
      split
      · rename_i sameProgress
        have sameProgress : fresh.progress = row.progress := by
          simpa [Execution.sameProgress] using sameProgress
        obtain ⟨unasked, asked⟩ := follows.asked_of_same sameProgress
        have enough' : 2 ≤ tries ∨ 1 ≤ tries ∧ fresh.cancelRequested = true := by
          rcases enough with two | ⟨-, already⟩
          · exact .inr ⟨by omega, asked⟩
          · rw [unasked] at already
            cases already
        have rest := ih idles₃.lawful (idles₃.attempt ▸ ready) sees.mem
          (same.trans sameProgress.symm) enough'
        exact rest.mono fun r v' persisted => persisted.extend idles₃
      · rename_i otherProgress
        have overtaken : k.Overtaken x base := by
          refine ⟨fresh, found, ?_⟩
          rw [same]
          simpa [Execution.sameProgress] using otherProgress
        have baseMem := (history_suffix x (idles₂.later.trans lower)).subset (ready.base_mem lawful)
        refine Ensures.bind (Ensures.log ?_)
        rintro v₄ idles₄ -
        exact .inr ⟨rfl, idles₃.idle idles₄,
          overtaken.mono idles₄.lawful fits (upper.trans idles₄.later) baseMem⟩

theorem persist_ensures (fits : e.Fits) (lawful : Lawful e v.journal)
    (ready : Ready e me x d base t (v.journal.attempt me)) :
    Ensures (contract e me) (fun r v' => Persisted e me x base v.journal v'.journal r)
      (Engine.persist base t) v :=
  persistWithin_ensures fits Engine.writeAttempts lawful ready (ready.base_mem lawful) rfl
    (.inl (by decide))

end

end SagaEngine
