import SagaEngine.Proofs.Cluster
/-!
# Owners are serialised by the version check

Any number of owners may advance one execution at once. A committed change of
progress is the decision of one owner on the very progress that it replaces, so the
committed rows are those that a single owner makes from some of the step results; an
owner that was overtaken stores and reports nothing; and no progress comes back once
it was left. Main statements: `Lawful.serial`, `overtaken_silent` and
`concurrent_owners_serialised`.
-/

namespace SagaEngine

section

variable {e : Engine} {σ : Cluster} {j k : Journal} {me : Actor} {x : String}
  {d : SagaDefinition} {base row old new : Execution} {ev : Event} {c : CallMade}

/-! ## One order of decisions -/

/-- The committed rows are those of a single owner that made some of the calls; all of these
were made before the present progress was committed. -/
structure Serial (e : Engine) (d : SagaDefinition) (x : String) (j : Journal) : Prop where
  owned : j.OwnedBy e d x
  booked : ∃ (calls : List CallMade) (k : Journal), Lineage d (j.history x) calls ∧ k <:+ j ∧
    calls.Sublist (k.calls x) ∧
    ∀ (i : Journal) (row latest : Execution), i <:+ j → i.record x = some row →
      j.record x = some latest → row.progress = latest.progress → k <:+ i

theorem Serial.idle (serial : Serial e d x j) (ev : Event)
    (history : Journal.history x (ev :: j) = j.history x) : Serial e d x (ev :: j) := by
  obtain ⟨owned, calls, k, lineage, earlier, sub, mark⟩ := serial
  have record : Journal.record (ev :: j) x = j.record x := by
    rw [record_eq_head?, record_eq_head?, history]
  refine ⟨⟨history ▸ owned.known, history ▸ owned.lineage⟩, calls, k, history ▸ lineage,
    earlier.trans (List.suffix_cons _ _), sub, ?_⟩
  intro i row latest is found present same
  rcases List.suffix_cons_iff.1 is with rfl | older
  · exact earlier.trans (List.suffix_cons _ _)
  · exact mark i row latest older found (record ▸ present) same

/-- The calls of an owner whose row still has the latest progress come after those that were
stored before. -/
theorem Serial.append_calls (serial : Serial e d x j) (lawful : Lawful e j)
    (driven : me.operation.driven? = some x) (read : (j.attempt me).base = some base)
    (latest : j.record x = some old) (same : base.progress = old.progress) :
    ∃ calls, Lineage d (j.history x) calls ∧
      (calls ++ (j.attempt me).calls).Sublist (j.calls x) := by
  obtain ⟨owned, calls, k, lineage, earlier, sub, mark⟩ := serial
  refine ⟨calls, lineage, ?_⟩
  rcases lawful.calledOn driven with none | ⟨c, one, i, later, ev, split, is, about, kept, -⟩
  · rw [none, List.append_nil]
    exact sub.trans (calls_sublist x earlier)
  · -- The call comes after the row was read, and so after `k`, where that progress was stored.
    have before : ev :: i <:+ j := ⟨later, split.symm⟩
    have iLawful : Lawful e i := lawful.suffix ((List.suffix_cons ev i).trans before)
    obtain ⟨seen, older, found⟩ :=
      iLawful.base_recorded (Operation.target?_of_driven? driven) (kept.trans read)
    have marked : k <:+ i :=
      (mark seen base old (older.trans ((List.suffix_cons ev i).trans before)) found latest
        same).trans older
    have extended := (sub.trans (calls_sublist x marked)).append (List.Sublist.refl [c])
    rw [one]
    rw [← calls_cons_call (j := i) is about] at extended
    exact extended.trans (calls_sublist x before)

theorem Serial.cancelled {earlier : List Execution} (serial : Serial e d x j) (now : Nat)
    (before : j.history x = old :: earlier)
    (active : old.status = .started ∨ old.status = .inProgress)
    (unasked : old.cancelRequested = false)
    (history : Journal.history x (ev :: j) = (old.marked now).replacing old :: old :: earlier) :
    Serial e d x (ev :: j) := by
  obtain ⟨owned, calls, k, lineage, lower, sub, mark⟩ := serial
  rw [before] at lineage
  have extended := lineage.cancelled now active unasked
  refine ⟨owned.extend before history rfl ⟨calls, extended⟩, calls, k, history ▸ extended,
    lower.trans (List.suffix_cons _ _), sub, ?_⟩
  intro i row latest is found recorded same
  rcases List.suffix_cons_iff.1 is with rfl | older
  · exact lower.trans (List.suffix_cons _ _)
  · have marked : (old.marked now).replacing old = latest := by
      rw [record_eq_head?, history] at recorded
      exact Option.some.inj recorded
    have present : j.record x = some old := by rw [record_eq_head?, before]; rfl
    have level : old.progress = latest.progress := by rw [← marked]; rfl
    exact mark i row old older found present (same.trans level.symm)

theorem Serial.decided {changed : Execution} {earlier : List Execution} {t : Transition}
    {made : List CallMade} (serial : Serial e d x j) (fits : d.Fits) (now : Nat)
    (before : j.history x = old :: earlier) (inside : base ∈ old :: earlier)
    (same : base.progress = old.progress) (decides : Decides d base made t)
    (next : t.next old = .ok changed)
    (booked : ∃ calls, Lineage d (old :: earlier) calls ∧ (calls ++ made).Sublist (j.calls x))
    (noCall : Journal.calls x (ev :: j) = j.calls x)
    (history : Journal.history x (ev :: j) =
      (changed.stamped now).replacing old :: old :: earlier) :
    Serial e d x (ev :: j) := by
  have owned := serial.owned
  obtain ⟨calls, lineage, sub⟩ := booked
  have extended := lineage.decided now inside same decides next
  refine ⟨owned.extend before history (origin_of_stored next now) ⟨_, extended⟩, calls ++ made,
    ev :: j, history ▸ extended, List.suffix_refl _, noCall ▸ sub, ?_⟩
  intro i row latest is found recorded equal
  rcases List.suffix_cons_iff.1 is with rfl | older
  · exact List.suffix_refl _
  · rw [record_eq_head?, history] at recorded
    cases recorded
    have oldMem : old ∈ j.history x := before ▸ List.mem_cons_self
    have formed := owned.wellFormed fits oldMem
    have stores := decides.stores_of_next fits formed (owned.wellFormed fits (before ▸ inside))
      same next
    have up : old.rank d < changed.rank d := stores.move.rank_lt formed.place
    have still : row.rank d = changed.rank d := Execution.rank_eq_of_progress_eq equal
    have rowMem := (history_suffix x older).subset (mem_history_of_record found)
    have present : j.record x = some old := by rw [record_eq_head?, before]; rfl
    rcases owned.record_follows fits rowMem present with rfl | follows
    · omega
    · have := follows.rank_le
      omega

/-- The rows of an execution are those of a single owner that made some of the calls, in the
order in which they were made. -/
theorem Lawful.serial (lawful : Lawful e j) (fits : e.Fits) (present : j.history x ≠ []) :
    ∃ d, Serial e d x j := by
  induction lawful with
  | start => exact absurd rfl present
  | @next j ev lawful permitted ih =>
    cases permitted.extends lawful x with
    | unchanged _ history _ =>
      obtain ⟨d, serial⟩ := ih (history ▸ present)
      exact ⟨d, serial.idle ev history⟩
    | created me tx sagaType context d now starts known free history =>
      have lineage : Lineage d [Engine.newRow x d sagaType context now] [] :=
        .created x sagaType context now
      rw [← history] at lineage
      refine ⟨d, ⟨?_, [], lineage⟩, [], _, lineage, List.suffix_refl _, List.nil_sublist _, ?_⟩
      · intro row inside
        rw [history] at inside
        cases List.mem_singleton.1 inside
        exact definitionOf_eq_ok.2 ⟨known, rfl⟩
      · intro i row latest is found _ _
        rcases List.suffix_cons_iff.1 is with rfl | older
        · exact List.suffix_refl _
        · have inside := (history_suffix x older).subset (mem_history_of_record found)
          rw [free] at inside
          cases inside
    | cancelled me tx old earlier now cancels before active unasked history =>
      obtain ⟨d, serial⟩ := ih (by rw [before]; exact List.cons_ne_nil _ _)
      exact ⟨d, serial.cancelled now before active unasked history⟩
    | decided me tx lease old earlier base changed d' t now driven held read unwritten before
        inside known decides same next history =>
      obtain ⟨d, serial⟩ := ih (by rw [before]; exact List.cons_ne_nil _ _)
      obtain rfl : d' = d :=
        Except.ok.inj (known.symm.trans (serial.owned.known base (before ▸ inside)))
      have latest : j.record x = some old := by rw [record_eq_head?, before]; rfl
      have booked := serial.append_calls lawful driven read latest same
      rw [before] at booked
      have noCall : Journal.calls x
          (⟨me, .commit tx, .ok (), [(changed.stamped now).replacing old]⟩ :: j) = j.calls x := by
        simp [Journal.calls, Event.call?]
      exact ⟨d', serial.decided (fits.of_definitionOf known) now before inside same decides next
        booked noCall history⟩

/-! ## Every change of progress is a decision on what it replaces -/

/-- The event stores what its actor decided, under a lease, on a row that it read under that
lease and that has the progress of the row that is replaced. -/
def Event.StoresDecision (e : Engine) (j : Journal) (ev : Event) (old new : Execution) : Prop :=
  ∃ lease base d t changed now, (j.attempt ev.actor).held = some lease ∧
    (j.attempt ev.actor).base = some base ∧ base ∈ j.history old.id ∧
    base.progress = old.progress ∧ e.definitionOf base = .ok d ∧
    Decides d base (j.attempt ev.actor).calls t ∧ t.next old = .ok changed ∧
    new = (changed.stamped now).replacing old

theorem Permitted.storesDecision (permitted : Permitted e j ev) (lawful : Lawful e j)
    (commits : new ∈ ev.installed) (latest : j.record new.id = some old)
    (moves : new.progress ≠ old.progress) : ev.StoresDecision e j old new := by
  cases permitted with
  | created me tx sagaType context id d now starts known free =>
    cases List.mem_singleton.1 commits
    rw [show (Engine.newRow id d sagaType context now).id = id from rfl, free] at latest
    cases latest
  | cancelled me y tx old' now cancels latest' active unasked =>
    cases List.mem_singleton.1 commits
    have id : old'.id = y := id_of_mem_history (mem_history_of_record latest')
    have found : j.record old'.id = some old := latest
    rw [id, latest'] at found
    cases found
    exact absurd rfl moves
  | decided me y tx lease old' base changed d t now driven held read unwritten latest' known
      decides same next =>
    cases List.mem_singleton.1 commits
    have id : old'.id = y := id_of_mem_history (mem_history_of_record latest')
    have kept : changed.id = old'.id := congrArg Execution.Origin.id (origin_of_next next)
    have found : j.record changed.id = some old := latest
    rw [kept, id, latest'] at found
    cases found
    have inside := lawful.base_mem (Operation.target?_of_driven? driven) read
    exact ⟨lease, base, d, t, changed, now, held, read, id ▸ inside, same, known, decides, next,
      rfl⟩
  | _ => cases commits

/-! ## An owner that was overtaken -/

/-- The event commits no row and tells nobody of one. -/
structure Event.Silent (ev : Event) : Prop where
  commits : ev.installed = []
  alerts : ∀ alert, ev.request ≠ .alert alert
  completes : ∀ row, ev.request ≠ .completed row

/-- An owner has read a row and stored nothing yet, and somebody else made progress. -/
structure Journal.Late (j : Journal) (me : Actor) (x : String) (base : Execution) : Prop where
  leased : (j.attempt me).leased = true
  read : (j.attempt me).base = some base
  unwritten : (j.attempt me).written = []
  overtaken : j.Overtaken x base

theorem silent_of_request {q : Request} {answer : Response q} (alerts : ∀ alert, q ≠ .alert alert)
    (completes : ∀ row, q ≠ .completed row) : Event.Silent ⟨me, q, answer, []⟩ :=
  ⟨rfl, alerts, completes⟩

/-- Whatever happens next, the owner is late still, and it keeps silent. -/
theorem Journal.Late.next (late : j.Late me x base) (lawful : Lawful e (ev :: j)) (fits : e.Fits)
    (driven : me.operation.driven? = some x) :
    Journal.Late (ev :: j) me x base ∧ (ev.actor = me → ev.Silent) := by
  obtain ⟨leased, read, unwritten, overtaken⟩ := late
  cases lawful with
  | next before permitted =>
    have target := Operation.target?_of_driven? driven
    have overtaken' : Journal.Overtaken (ev :: j) x base :=
      overtaken.mono (before.next permitted) fits (List.suffix_cons _ _)
        (before.base_mem target read)
    by_cases own : ev.actor = me
    · subst own
      have after : Journal.attempt ev.actor (ev :: j) = (j.attempt ev.actor).after ev :=
        attempt_own rfl
      have kept (leased' : ((j.attempt ev.actor).after ev).leased = true)
          (read' : ((j.attempt ev.actor).after ev).base = some base)
          (unwritten' : ((j.attempt ev.actor).after ev).written = []) :
          Journal.Late (ev :: j) ev.actor x base :=
        ⟨after ▸ leased', after ▸ read', after ▸ unwritten', overtaken'⟩
      cases permitted with
      | quiet actor q answer quiet =>
        rw [after_quiet _ answer quiet] at kept
        refine ⟨kept leased read unwritten, fun _ => silent_of_request ?_ ?_⟩
        · rintro alert rfl
          cases quiet
        · rintro row rfl
          cases quiet
      | found actor y tx target =>
        refine ⟨kept ?_ ?_ ?_, fun _ => silent_of_request (by simp) (by simp)⟩
        · cases j.record y <;> exact leased
        · rw [after_find_base, read, Option.some_or]
        · cases j.record y <;> exact unwritten
      | granted actor y lease driven' free settled => exact absurd unwritten (settled leased)
      | created actor tx sagaType context id d now starts =>
        rw [show actor.operation = _ from starts] at driven
        cases driven
      | cancelled actor y tx old now cancels =>
        rw [show actor.operation = _ from cancels] at driven
        cases driven
      | decided actor y tx lease old base' changed d t now driven' held read' unwritten' latest
          known decides same next =>
        obtain rfl : y = x := Option.some.inj (driven'.symm.trans driven)
        obtain rfl : base' = base := Option.some.inj (read'.symm.trans read)
        obtain ⟨row, found, differs⟩ := overtaken
        obtain rfl : old = row := Option.some.inj (latest.symm.trans found)
        exact absurd same.symm differs
      | alerted actor row written =>
        rw [show (j.attempt actor).written = [] from unwritten] at written
        cases written
      | completed actor row written =>
        rw [show (j.attempt actor).written = [] from unwritten] at written
        cases written
      | _ =>
        exact ⟨kept leased read unwritten, fun _ => silent_of_request (by simp) (by simp)⟩
    · have same : Journal.attempt me (ev :: j) = j.attempt me := attempt_other own
      exact ⟨⟨same ▸ leased, same ▸ read, same ▸ unwritten, overtaken'⟩, fun is => absurd is own⟩

theorem overtaken_silent {later : Journal} (late : j.Late me x base)
    (lawful : Lawful e (later ++ j)) (fits : e.Fits) (driven : me.operation.driven? = some x) :
    Journal.Late (later ++ j) me x base ∧ ∀ ev ∈ later, ev.actor = me → ev.Silent := by
  induction later with
  | nil => exact ⟨late, by simp⟩
  | cons ev later ih =>
    obtain ⟨still, silent⟩ := ih (lawful.suffix (List.suffix_cons _ _))
    obtain ⟨still', silent'⟩ := still.next lawful fits driven
    refine ⟨still', ?_⟩
    intro ev' inside own
    rcases List.mem_cons.1 inside with rfl | old
    · exact silent' own
    · exact silent ev' old own

theorem Journal.Overtaken.unfinished (overtaken : j.Overtaken x base) (lawful : Lawful e j)
    (fits : e.Fits) (inside : base ∈ j.history x) : base.status.isTerminal = false := by
  obtain ⟨row, found, differs⟩ := overtaken
  have rowMem := mem_history_of_record found
  obtain ⟨d, owned⟩ := lawful.ownedBy x (List.ne_nil_of_mem inside)
  have small := fits.of_definitionOf (owned.known row rowMem)
  rcases owned.record_follows small inside found with rfl | follows
  · exact absurd rfl differs
  · rcases follows.ahead with up | ⟨same, _⟩
    · have most := row.position.rank_le (owned.wellFormed small rowMem).place
      simp only [Execution.rank] at up
      cases status : base.status with
      | started | inProgress | compensating => rfl
      | _ =>
        simp only [Execution.position, status, Position.rank] at up most
        omega
    · exact absurd same differs

/-! ## No way back -/

/-- Once progress was left, it never comes back: between two rows with the same progress all
rows have it. -/
theorem Journal.OwnedBy.no_return (owned : j.OwnedBy e d x) (fits : d.Fits) {late early : Execution}
    {newer between older : List Execution}
    (split : j.history x = newer ++ late :: (between ++ early :: older))
    (same : late.progress = early.progress) : ∀ row ∈ between, row.progress = early.progress := by
  intro row inside
  obtain ⟨calls, lineage⟩ := owned.lineage
  have ordered := lineage.follows fits
  rw [split] at ordered
  have tail := (List.pairwise_append.1 ordered).2.1
  obtain ⟨above, rest⟩ := List.pairwise_cons.1 tail
  have first : Follows d late row := above row (List.mem_append_left _ inside)
  have second : Follows d row early :=
    (List.pairwise_append.1 rest).2.2 row inside early List.mem_cons_self
  -- No progress is made without raising the rank, and `late` and `early` have the same.
  have level := Execution.rank_eq_of_progress_eq (d := d) same
  rcases second.ahead with up | ⟨equal, _⟩
  · have := first.rank_le
    omega
  · exact equal

/-- However many owners advance an execution at once, their writes are serialised: a row that
makes progress stores a decision on the very progress that it replaces; the committed rows are
those of a single owner that made some of the calls, in this order; an owner that was overtaken
commits and reports nothing more, and an advance comes to nothing but giving up; and progress
that was left never comes back. -/
theorem concurrent_owners_serialised (fits : e.Fits) (reachable : Reachable e σ) (x : String) :
    (∀ (later earlier : Journal) (ev : Event), σ.journal = later ++ ev :: earlier →
      ∀ new ∈ ev.installed, ∀ old, earlier.record new.id = some old →
        new.progress ≠ old.progress → ev.StoresDecision e earlier old new) ∧
    (σ.journal.history x ≠ [] → ∃ d calls, Lineage d (σ.journal.history x) calls ∧
      calls.Sublist (σ.journal.calls x)) ∧
    (∀ task ∈ σ.tasks, task.actor.operation.driven? = some x →
      ∀ (later earlier : Journal) (base : Execution), σ.journal = later ++ earlier →
        earlier.Late task.actor x base →
        (∀ ev ∈ later, ev.actor = task.actor → ev.Silent) ∧
        (task.actor.operation = .advance x → (∀ failure, task.rest ≠ .failed failure) ∧
          ∀ value, task.rest = .done value → value = .advanced .abandoned)) ∧
    ∀ newer late between early older,
      σ.journal.history x = newer ++ late :: (between ++ early :: older) →
      late.progress = early.progress → ∀ row ∈ between, row.progress = early.progress := by
  have consistent := reachable_consistent reachable fits
  refine ⟨?_, ?_, ?_, ?_⟩
  · intro later earlier ev split new commits old latest moves
    have present : ev :: earlier <:+ σ.journal := ⟨later, split.symm⟩
    cases consistent.lawful.suffix present with
    | next before permitted => exact permitted.storesDecision before commits latest moves
  · intro present
    obtain ⟨d, serial⟩ := consistent.lawful.serial fits present
    obtain ⟨calls, k, lineage, earlier, sub, -⟩ := serial.booked
    exact ⟨d, calls, lineage, sub.trans (calls_sublist x earlier)⟩
  · intro task inside driven later earlier base split late
    have lawful := consistent.lawful
    rw [split] at lawful
    obtain ⟨still, silent⟩ := overtaken_silent late lawful fits driven
    refine ⟨silent, ?_⟩
    intro advances
    have baseMem := lawful.base_mem (Operation.target?_of_driven? driven) still.read
    have active := still.overtaken.unfinished lawful fits baseMem
    have finishes (r : Except Failure Operation.Result)
        (ends : Finishes task.actor r (σ.journal.attempt task.actor)) :
        r = .ok (.advanced .abandoned) := by
      rw [split] at ends
      exact ends.verdict x base advances still.leased still.read active still.unwritten
    have ensures := consistent.ensures task inside
    constructor
    · intro failure failed
      rw [failed] at ensures
      cases finishes _ ensures
    · intro value done
      rw [done] at ensures
      exact Except.ok.inj (finishes _ ensures)
  · intro newer late between early older split same
    have present : σ.journal.history x ≠ [] := by simp [split]
    obtain ⟨d, owned⟩ := consistent.lawful.ownedBy x present
    have lateMem : late ∈ σ.journal.history x := by simp [split]
    exact owned.no_return (fits.of_definitionOf (owned.known late lateMem)) split same

namespace Sample

/-- An owner of a step that is busy, whose call was answered. -/
def called : Cluster :=
  ((run busy [.start "order" Dictionary.empty, .advance "x"]).begin engine
    (.advance "x")).answers (host busy) 2 11

/-- A second owner has stored its attempt meanwhile. -/
def overtaken : Cluster := called.perform engine (host busy) (.advance "x")

/-- The first owner has come to its end. -/
def abandoned : Cluster := overtaken.answers (host busy) 2 14

theorem called_reachable : Reachable engine called :=
  (run_reachable _ _).leads ((begin_leads _).trans (answers_leads _ _ _))

theorem abandoned_reachable : Reachable engine abandoned :=
  called_reachable.leads ((perform_leads _ _).trans (answers_leads _ _ _))

theorem overtaken_late : ∃ base, overtaken.journal.Late ⟨2, .advance "x"⟩ "x" base := by
  have read : ((overtaken.journal.attempt ⟨2, .advance "x"⟩).base.map (·.retryCount)) = some 0 := by
    decide +kernel
  have found : (overtaken.journal.record "x").map (·.retryCount) = some 1 := by decide +kernel
  obtain ⟨base, isBase, before⟩ := Option.map_eq_some_iff.1 read
  obtain ⟨row, isRow, after⟩ := Option.map_eq_some_iff.1 found
  refine ⟨base, by decide +kernel, isBase, by decide +kernel, row, isRow, ?_⟩
  intro same
  have level : row.retryCount = base.retryCount := congrArg Execution.Progress.retryCount same
  omega

end Sample

/-- The first of two owners comes late and keeps silent. -/
theorem concurrent_owners_serialised_abandoned :
    ∃ later, Sample.abandoned.journal = later ++ Sample.overtaken.journal ∧
      (∀ ev ∈ later, ev.actor = ⟨2, .advance "x"⟩ → ev.Silent) ∧
      Sample.abandoned.tasks[2]?.bind Running.result? = some (.ok (.advanced .abandoned)) := by
  obtain ⟨later, split⟩ := answers_journal (Sample.host Sample.busy) 2 14 Sample.overtaken
  obtain ⟨base, late⟩ := Sample.overtaken_late
  have actor : Sample.abandoned.tasks[2]?.map (·.actor) = some ⟨2, .advance "x"⟩ := by
    decide +kernel
  have ended : ((Sample.abandoned.tasks[2]?.bind Running.result?).bind Except.toOption).isSome =
      true := by decide +kernel
  obtain ⟨value, isValue⟩ := Option.isSome_iff_exists.1 ended
  obtain ⟨result, isResult, isOk⟩ := Option.bind_eq_some_iff.1 isValue
  obtain ⟨task, found, isActor⟩ := Option.map_eq_some_iff.1 actor
  have serialised := concurrent_owners_serialised Sample.engine_fits Sample.abandoned_reachable "x"
  obtain ⟨silent, gaveUp⟩ := serialised.2.2.1 task (List.mem_of_getElem? found)
    (by rw [isActor]; rfl) later Sample.overtaken.journal base split.symm (isActor ▸ late)
  refine ⟨later, split.symm, isActor ▸ silent, ?_⟩
  cases result with
  | error failure => cases isOk
  | ok value' =>
    rw [found] at isResult ⊢
    exact (gaveUp (by rw [isActor])).2 value' (Running.rest_of_result? isResult) ▸ isResult

end

end SagaEngine
