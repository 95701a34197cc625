import SagaEngine.Proofs.Determinism
import SagaEngine.Proofs.Solo
/-!
# An advance among cancel requests

An advance has read a row under its lease and stores its decision later. As long as
nobody but cancel requests commits rows of the execution, the latest row differs from
the one read in its bookkeeping only, and the decision is stored on such a row. Main
statements: `Races.others`, `Races.own` and `Races.run`.
-/

namespace SagaEngine

/-- What an advance stores on a row. -/
structure Execution.Standing where
  status : Status
  stepIndex : Int
  retryCount : Nat
  lastError : String
  context : String
  failedStep : String
  failureReason : String
  deriving DecidableEq, Repr

def Execution.standing (row : Execution) : Standing :=
  ⟨row.status, row.stepIndex, row.retryCount, row.lastError, row.context, row.failedStep,
    row.failureReason⟩

/-- The row without its bookkeeping. -/
def Execution.core (row : Execution) : Execution := row.noted false 0 0 0

/-- An advance that has read a row under its lease: it has stored nothing yet and the latest row
differs from that row in its bookkeeping only, or it has stored its decision on such a row. -/
inductive Races (e : Engine) (me : Actor) (x : String) (d : SagaDefinition) (base : Execution)
    (j : Journal) : Prop
  | waiting (latest : Execution) (found : j.record x = some latest)
      (same : latest.core = base.core) (leased : (j.attempt me).leased = true)
      (read : (j.attempt me).base = some base) (unwritten : (j.attempt me).written = [])
      (asked : ∀ c ∈ (j.attempt me).calls, AsksFor d base c.call)
  | stored (k : Journal) (tx : Nat) (old changed : Execution) (t : Transition) (now : Nat)
      (earlier : ⟨me, .commit tx, .ok (), [(changed.stamped now).replacing old]⟩ :: k <:+ j)
      (before : (k.attempt me).written = []) (found : k.record x = some old)
      (same : old.core = base.core) (next : t.next old = .ok changed)
      (leased : (j.attempt me).leased = true) (read : (j.attempt me).base = some base)
      (written : (j.attempt me).written = [(changed.stamped now).replacing old])
      (decides : Decides d base (j.attempt me).calls t)

section

variable {e : Engine} {me : Actor} {x : String} {d : SagaDefinition} {base row row' : Execution}
  {changed changed' : Execution} {t : Transition} {j j' : Journal} {ev : Event} {c : CallMade}

theorem Execution.progress_of_core (same : row.core = row'.core) :
    row.progress = row'.progress := by
  have progress : row.core.progress = row'.core.progress := by rw [same]
  exact progress

theorem Execution.standing_of_core (same : row.core = row'.core) :
    row.standing = row'.standing := by
  have standing : row.core.standing = row'.core.standing := by rw [same]
  exact standing

theorem Transition.next_core (same : row.core = row'.core) (next : t.next row = .ok changed)
    (next' : t.next row' = .ok changed') : changed.core = changed'.core := by
  have stored : t.next row.core = .ok changed.core := by
    rw [Execution.core, next_noted, next]
    rfl
  have stored' : t.next row'.core = .ok changed'.core := by
    rw [Execution.core, next_noted, next']
    rfl
  rw [same] at stored
  exact Except.ok.inj (stored.symm.trans stored')

/-! ## One event of the race -/

theorem Races.kept (races : Races e me x d base j)
    (same : ∃ held, Journal.attempt me (ev :: j) = { j.attempt me with held })
    (level : (j.attempt me).written = [] → ∀ latest, j.record x = some latest →
      ∃ latest', Journal.record (ev :: j) x = some latest' ∧ latest'.core = latest.core) :
    Races e me x d base (ev :: j) := by
  obtain ⟨held, attempt⟩ := same
  cases races with
  | waiting latest found same leased read unwritten asked =>
    obtain ⟨latest', found', same'⟩ := level unwritten latest found
    refine .waiting latest' found' (same'.trans same) ?_ ?_ ?_ ?_ <;> rw [attempt] <;> assumption
  | stored k tx old changed t now earlier before found same next leased read written decides =>
    refine .stored k tx old changed t now (earlier.trans (List.suffix_cons _ _)) before found same
      next ?_ ?_ ?_ ?_ <;> rw [attempt] <;> assumption

/-- An event of somebody else: before the owner has stored its decision, that is a cancel mark at
most. -/
theorem Races.others (races : Races e me x d base j) (lawful : Lawful e j)
    (permitted : Permitted e j ev) (other : ev.actor ≠ me)
    (cancels : (j.attempt me).written = [] → ∀ row ∈ ev.installed, row.id = x →
      ev.actor.operation = .cancel x) : Races e me x d base (ev :: j) := by
  apply races.kept ⟨_, attempt_other other⟩
  intro unwritten latest found
  cases permitted.extends lawful x with
  | unchanged _ history _ =>
    refine ⟨latest, ?_, rfl⟩
    rw [record_eq_head?, history, ← record_eq_head?]
    exact found
  | created actor tx sagaType context d' now starts known free =>
    rw [record_eq_head?, free] at found
    cases found
  | cancelled actor tx old earlier now _ before active unasked history =>
    have same : old = latest := by
      rw [record_eq_head?, before] at found
      exact Option.some.inj found
    subst same
    refine ⟨(old.marked now).replacing old, ?_, rfl⟩
    rw [record_eq_head?, history]
    rfl
  | decided actor tx lease old earlier base' changed d' t now driven held read unwritten' before
      inside known decides same next history =>
    have id : ((changed.stamped now).replacing old).id = x := by
      have oldMem : old ∈ j.history x := before ▸ List.mem_cons_self
      have origin := congrArg Execution.Origin.id (origin_of_stored next now)
      exact origin.trans (id_of_mem_history oldMem)
    have asks := cancels unwritten _ (List.mem_singleton.2 rfl) id
    have driven : actor.operation.driven? = some x := driven
    rw [asks] at driven
    cases driven

theorem Races.read (races : Races e me x d base j) :
    (j.attempt me).leased = true ∧ (j.attempt me).base = some base := by
  cases races with
  | waiting latest found same leased read => exact ⟨leased, read⟩
  | stored k tx old changed t now earlier before found same next leased read =>
    exact ⟨leased, read⟩

theorem Races.called {call : StepCall} {reply : StepReply} {sagaType : String}
    (races : Races e me x d base j) (first : (j.attempt me).calls = [])
    (unwritten : (j.attempt me).written = []) (asks : AsksFor d base call) :
    Races e me x d base (⟨me, .call sagaType call, reply, []⟩ :: j) := by
  obtain ⟨leased, read⟩ := races.read
  cases races with
  | waiting latest found same =>
    refine .waiting latest ((record_cons_none _ j rfl).trans found) same ?_ ?_ ?_ ?_ <;>
      rw [attempt_self]
    · exact leased
    · exact read
    · exact unwritten
    · simp only [Attempt.after, first, List.nil_append]
      intro c inside
      cases List.mem_singleton.1 inside
      exact asks
  | stored k tx old changed t now earlier before found same next _ _ written =>
    rw [unwritten] at written
    cases written

theorem Races.decided {tx now : Nat} {old changed : Execution} {t : Transition}
    (races : Races e me x d base j) (unwritten : (j.attempt me).written = [])
    (latest : j.record x = some old) (decides : Decides d base (j.attempt me).calls t)
    (next : t.next old = .ok changed) :
    Races e me x d base
      (⟨me, .commit tx, .ok (), [(changed.stamped now).replacing old]⟩ :: j) := by
  obtain ⟨leased, read⟩ := races.read
  cases races with
  | waiting latest' found same =>
    obtain rfl : old = latest' := Option.some.inj (latest.symm.trans found)
    refine .stored j tx old changed t now (List.suffix_refl _) unwritten latest same next
      ?_ ?_ ?_ ?_ <;> rw [attempt_self]
    · exact leased
    · exact read
    · simp only [Attempt.after, unwritten, List.nil_append]
    · exact decides
  | stored k tx' old' changed' t' now' earlier before found same next' _ _ written =>
    rw [unwritten] at written
    cases written

/-- An event of the advance itself: nothing that counts, its call or its decision. -/
theorem Races.own (races : Races e me x d base j) (advances : me.operation = .advance x)
    (known : e.definitionOf base = .ok d) (permitted : Permitted e j ev) (own : ev.actor = me) :
    Races e me x d base (ev :: j) := by
  have driven : me.operation.driven? = some x := by rw [advances]; rfl
  obtain ⟨leased, read⟩ := races.read
  have quiet (installs : ev.installed = [])
      (same : ∃ held, Journal.attempt me (ev :: j) = { j.attempt me with held }) :
      Races e me x d base (ev :: j) := by
    apply races.kept same
    intro _ latest found
    exact ⟨latest, (record_cons_none ev j installs).trans found, rfl⟩
  subst own
  have after : Journal.attempt ev.actor (ev :: j) = (j.attempt ev.actor).after ev := attempt_own rfl
  cases permitted with
  | quiet actor q answer isQuiet =>
    rw [after_quiet _ answer isQuiet] at after
    exact quiet rfl ⟨_, after⟩
  | found actor y tx target =>
    refine quiet rfl ⟨(j.attempt actor).held, after.trans ?_⟩
    cases j.record y with
    | none => rfl
    | some seen =>
      simp only [Attempt.after, read, Option.some_or]
  | granted actor y lease driven' free settled once =>
    obtain rfl : y = x := Option.some.inj (driven'.symm.trans driven)
    rw [once advances] at leased
    cases leased
  | called actor y lease base' d' call reply driven' held read' first unwritten known' asks =>
    obtain rfl : base' = base := Option.some.inj (read'.symm.trans read)
    obtain rfl : d' = d := Except.ok.inj (known'.symm.trans known)
    exact races.called first unwritten asks
  | created actor tx sagaType context id d' now starts =>
    rw [starts] at advances
    cases advances
  | cancelled actor y tx old now cancels =>
    rw [cancels] at advances
    cases advances
  | decided actor y tx lease old base' changed d' t now driven' held read' unwritten latest known'
      decides same next =>
    obtain rfl : y = x := Option.some.inj (driven'.symm.trans driven)
    obtain rfl : base' = base := Option.some.inj (read'.symm.trans read)
    obtain rfl : d' = d := Except.ok.inj (known'.symm.trans known)
    exact races.decided unwritten latest decides next
  | _ => exact quiet rfl ⟨_, after⟩

theorem Races.run {own : Journal} (races : Races e me x d base j)
    (advances : me.operation = .advance x) (known : e.definitionOf base = .ok d)
    (lawful : Lawful e (own ++ j))
    (cancels : ∀ later ev earlier, own = later ++ ev :: earlier →
      (Journal.attempt me (earlier ++ j)).written = [] → ∀ row ∈ ev.installed, row.id = x →
        ev.actor = me ∨ ev.actor.operation = .cancel x) :
    Races e me x d base (own ++ j) := by
  induction own with
  | nil => exact races
  | cons ev own ih =>
    cases lawful with
    | next before permitted =>
      have races : Races e me x d base (own ++ j) := by
        apply ih before
        intro later ev' earlier split
        exact cancels (ev :: later) ev' earlier (by rw [split]; rfl)
      by_cases own : ev.actor = me
      · exact races.own advances known permitted own
      · apply races.others before permitted own
        intro unwritten row inside id
        rcases cancels [] ev _ rfl unwritten row inside id with mine | cancel
        · exact absurd mine own
        · exact cancel

end

end SagaEngine
