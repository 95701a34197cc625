import SagaEngine.Proofs.Cluster
/-!
# Calls under exclusive leases

As long as no lease is granted while somebody holds one, an owner works alone: until it
stores what it decided, the row that it read has the latest progress, and every call of
an execution is one whose result is stored or the one that the holder of the lease has
just made. Main statements: `Lawful.current` and `Lawful.booked`.
-/

namespace SagaEngine

namespace Journal

/-- Nobody got a lease on an execution while somebody held one. -/
def Exclusive (j : Journal) (x : String) : Prop :=
  ∀ (me : Actor) (lease : Lease) (k : Journal), ⟨me, .acquire x, some lease, []⟩ :: k <:+ j →
    ∀ other : Actor, other.operation.driven? = some x → (k.attempt other).held = none

/-- Every reply to a call of an execution had a meaning. -/
def Classified (j : Journal) (x : String) : Prop := ∀ c ∈ j.calls x, ¬c.Unclassified

structure Holds (j : Journal) (x : String) (me : Actor) : Prop where
  driven : me.operation.driven? = some x
  held : (j.attempt me).held ≠ none

/-- The calls of an execution are the given ones and those of the holder of the lease, as long as
it has stored nothing. -/
inductive Pending (j : Journal) (x : String) (calls : List CallMade) : Prop
  | holder (me : Actor) (holds : j.Holds x me) (unwritten : (j.attempt me).written = [])
      (made : j.calls x = calls ++ (j.attempt me).calls)
  | settled (written : ∀ me, j.Holds x me → (j.attempt me).written ≠ []) (made : j.calls x = calls)

/-- The rows of an execution store the results of all its calls, but for one that is pending. -/
structure Booked (e : Engine) (j : Journal) (x : String) (calls : List CallMade) : Prop where
  pending : j.Pending x calls
  rows : j.history x = [] ∧ calls = [] ∨
    ∃ d, (∀ row ∈ j.history x, e.definitionOf row = .ok d) ∧ Lineage d (j.history x) calls

end Journal

section

variable {e : Engine} {j k : Journal} {ev : Event} {me other : Actor} {x : String}
  {base : Execution} {calls : List CallMade}

theorem Journal.Exclusive.suffix (exclusive : j.Exclusive x) (earlier : k <:+ j) : k.Exclusive x :=
  fun me lease _ before => exclusive me lease _ (before.trans earlier)

theorem Journal.Classified.suffix (classified : j.Classified x) (earlier : k <:+ j) :
    k.Classified x :=
  fun c made => classified c ((calls_sublist x earlier).subset made)

/-- Whether an event grants a lease on an execution. -/
def Event.grants (x : String) : Event → Bool
  | ⟨_, .acquire y, some _, []⟩ => y = x
  | _ => false

theorem Event.grants_iff : ev.grants x = true ↔
    ∃ me lease, ev = ⟨me, .acquire x, some lease, []⟩ := by
  constructor
  · intro grants
    obtain ⟨me, q, answer, installed⟩ := ev
    cases q with
    | acquire y =>
      obtain _ | lease := answer
      · cases grants
      · obtain _ | ⟨row, rows⟩ := installed
        · obtain rfl : y = x := by simpa [Event.grants] using grants
          exact ⟨me, lease, rfl⟩
        · cases grants
    | _ => cases grants
  · rintro ⟨me, lease, rfl⟩
    simp [Event.grants]

theorem held_of_stranger (stranger : ∀ ev ∈ j, ev.actor ≠ me) : (j.attempt me).held = none := by
  have nothing := attempt_others (j := []) stranger
  rw [List.append_nil] at nothing
  rw [nothing]
  rfl

theorem exclusive_cons : Journal.Exclusive (ev :: j) x ↔ j.Exclusive x ∧
    (ev.grants x = true → ∀ ev' ∈ j, ev'.actor.operation.driven? = some x →
      (j.attempt ev'.actor).held = none) := by
  constructor
  · intro exclusive
    refine ⟨exclusive.suffix (List.suffix_cons ev j), ?_⟩
    intro grants ev' _ driven
    obtain ⟨me, lease, rfl⟩ := Event.grants_iff.1 grants
    exact exclusive me lease j (List.suffix_refl _) ev'.actor driven
  · rintro ⟨before, now⟩ me lease k earlier other driven
    rcases List.suffix_cons_iff.1 earlier with same | older
    · cases same
      by_cases occurs : ∃ ev' ∈ j, ev'.actor = other
      · obtain ⟨ev', inside, rfl⟩ := occurs
        exact now (Event.grants_iff.2 ⟨me, lease, rfl⟩) ev' inside driven
      · exact held_of_stranger fun ev' inside same => occurs ⟨ev', inside, same⟩
    · exact before me lease k older other driven

theorem Lawful.of_granted {k : Journal} {me : Actor} {lease : Lease}
    (lawful : Lawful e (⟨me, .acquire x, some lease, []⟩ :: k)) :
    me.operation.driven? = some x ∧ (k.attempt me).held = none := by
  cases lawful with
  | next _ permitted =>
    cases permitted with
    | quiet _ _ _ quiet => cases quiet
    | granted _ _ _ driven free => exact ⟨driven, free⟩

theorem exclusive_nil (x : String) : Journal.Exclusive [] x :=
  fun _ _ _ earlier => absurd (List.suffix_nil.1 earlier) (List.cons_ne_nil _ _)

def Journal.decideExclusive (x : String) : (j : Journal) → Decidable (j.Exclusive x)
  | [] => isTrue (exclusive_nil x)
  | _ :: j =>
    have := decideExclusive x j
    decidable_of_iff _ exclusive_cons.symm

instance : Decidable (j.Exclusive x) := Journal.decideExclusive x j

instance (c : CallMade) : Decidable c.Unclassified :=
  match outcome : c.reply.result.outcome with
  | .unclassified code => isTrue ⟨code, outcome⟩
  | .ok => isFalse fun ⟨_, is⟩ => nomatch outcome.symm.trans is
  | .retryable => isFalse fun ⟨_, is⟩ => nomatch outcome.symm.trans is
  | .terminal => isFalse fun ⟨_, is⟩ => nomatch outcome.symm.trans is

instance : Decidable (j.Classified x) := inferInstanceAs (Decidable (∀ c ∈ j.calls x, _))

/-- Who holds a lease has just got it or held it before. -/
theorem Permitted.holds (permitted : Permitted e j ev) (holds : Journal.Holds (ev :: j) x me) :
    (∃ lease, ev = ⟨me, .acquire x, some lease, []⟩) ∨ j.Holds x me := by
  obtain ⟨driven, held⟩ := holds
  by_cases own : ev.actor = me
  · subst own
    rw [attempt_own rfl] at held
    cases permitted with
    | quiet actor q answer quiet =>
      rw [after_quiet _ answer quiet] at held
      exact .inr ⟨driven, held⟩
    | found actor y tx target =>
      refine .inr ⟨driven, ?_⟩
      cases found : j.record y with
      | none => simpa [Attempt.after, found] using held
      | some row => simpa [Attempt.after, found] using held
    | granted actor y lease driven' =>
      obtain rfl : y = x := Option.some.inj (driven'.symm.trans driven)
      exact .inl ⟨lease, rfl⟩
    | released => exact absurd rfl held
    | _ => exact .inr ⟨driven, held⟩
  · rw [attempt_other own] at held
    exact .inr ⟨driven, held⟩

theorem Lawful.alone (lawful : Lawful e j) (exclusive : j.Exclusive x) (holds : j.Holds x me)
    (holds' : j.Holds x other) : me = other := by
  induction lawful with
  | start => exact absurd rfl holds.held
  | @next j ev before permitted ih =>
    have earlier : j <:+ ev :: j := List.suffix_cons _ _
    rcases permitted.holds holds with ⟨lease, granted⟩ | held
    · rcases permitted.holds holds' with ⟨lease', granted'⟩ | held'
      · exact congrArg Event.actor (granted.symm.trans granted')
      · have free := exclusive me lease j (granted ▸ List.suffix_refl _) other held'.driven
        exact absurd free held'.held
    · rcases permitted.holds holds' with ⟨lease', granted'⟩ | held'
      · have free := exclusive other lease' j (granted' ▸ List.suffix_refl _) me held.driven
        exact absurd free held.held
      · exact ih (exclusive.suffix earlier) held held'

/-- What an actor has read and not answered for it read before, unless it has just read it. -/
theorem Permitted.read (permitted : Permitted e j ev) (driven : me.operation.driven? = some x)
    (read : (Journal.attempt me (ev :: j)).base = some base)
    (unwritten : (Journal.attempt me (ev :: j)).written = []) :
    j.record x = some base ∨
      (j.attempt me).base = some base ∧ (j.attempt me).written = [] := by
  by_cases own : ev.actor = me
  · subst own
    rw [attempt_own rfl] at read unwritten
    cases permitted with
    | quiet actor q answer quiet =>
      rw [after_quiet _ answer quiet] at read unwritten
      exact .inr ⟨read, unwritten⟩
    | found actor y tx target =>
      obtain rfl : y = x :=
        Option.some.inj (target.symm.trans (Operation.target?_of_driven? driven))
      rw [after_find_base, Option.or_eq_some_iff] at read
      rcases read with before | ⟨-, found⟩
      · refine .inr ⟨before, ?_⟩
        cases found : j.record y <;> simpa [Attempt.after, found] using unwritten
      · exact .inl found
    | granted => cases read
    | created => exact absurd unwritten (by simp [Attempt.after])
    | cancelled => exact absurd unwritten (by simp [Attempt.after])
    | decided => exact absurd unwritten (by simp [Attempt.after])
    | _ => exact .inr ⟨read, unwritten⟩
  · rw [attempt_other own] at read unwritten
    exact .inr ⟨read, unwritten⟩

/-- The row that the holder of a lease has read has the latest progress, as long as the holder
has stored nothing. -/
theorem Lawful.current (lawful : Lawful e j) (exclusive : j.Exclusive x) (holds : j.Holds x me)
    (read : (j.attempt me).base = some base) (unwritten : (j.attempt me).written = []) :
    ∃ latest, j.record x = some latest ∧ base.progress = latest.progress := by
  induction lawful with
  | start => cases read
  | @next j ev before permitted ih =>
    have exclusive' := exclusive.suffix (List.suffix_cons ev j)
    have driven := holds.driven
    have target := Operation.target?_of_driven? driven
    have level : j.record x = some base ∨ j.Holds x me ∧ ∃ latest, j.record x = some latest ∧
        base.progress = latest.progress := by
      rcases permitted.read driven read unwritten with found | ⟨read', unwritten'⟩
      · exact .inl found
      · rcases permitted.holds holds with ⟨lease, rfl⟩ | held
        · rw [attempt_self] at read
          cases read
        · exact .inr ⟨held, ih exclusive' held read' unwritten'⟩
    have inside := (before.next permitted).base_mem target read
    cases permitted.extends before x with
    | unchanged _ history _ =>
      have same : Journal.record (ev :: j) x = j.record x := by
        rw [record_eq_head?, record_eq_head?, history]
      rw [same]
      rcases level with found | ⟨-, level⟩
      · exact ⟨base, found, rfl⟩
      · exact level
    | created actor tx sagaType context d now starts known free history =>
      rw [history] at inside
      cases List.mem_singleton.1 inside
      exact ⟨_, by rw [record_eq_head?, history]; rfl, rfl⟩
    | cancelled actor tx old earlier now cancels split active unasked history =>
      refine ⟨(old.marked now).replacing old, by rw [record_eq_head?, history]; rfl, ?_⟩
      have latest : j.record x = some old := by rw [record_eq_head?, split]; rfl
      rcases level with found | ⟨-, row, found, same⟩ <;> rw [latest] at found <;> cases found
      · rfl
      · exact same
    | decided actor tx lease old earlier base' changed d t now driven' held read' unwritten'
        split inside' known decides same next history =>
      -- Who stores holds the lease, so it would have to be the same actor, which has stored.
      have other : actor ≠ me := by
        rintro rfl
        rw [attempt_self] at unwritten
        exact absurd unwritten (by simp [Attempt.after])
      have holds' : j.Holds x actor := ⟨driven', by simp [held]⟩
      have holdsMe : j.Holds x me := by
        refine ⟨driven, ?_⟩
        have held' := holds.held
        rwa [attempt_other other] at held'
      exact absurd (before.alone exclusive' holds' holdsMe) other

/-! ## Every call is accounted for -/

theorem Permitted.calls_foreign (permitted : Permitted e j ev) (lawful : Lawful e j)
    (foreign : ev.actor.operation.driven? ≠ some x) :
    Journal.calls x (ev :: j) = j.calls x := by
  cases permitted with
  | called actor y lease base d call reply driven held read first unwritten known asks =>
    have inside := lawful.base_mem (Operation.target?_of_driven? driven) read
    have id : base.id = y := id_of_mem_history inside
    have other : y ≠ x := by
      rintro rfl
      exact foreign driven
    simp [Journal.calls, Event.call?, asks.executionId, id, other]
  | quiet actor q answer quiet => exact calls_cons_other (not_call_of_quiet quiet)
  | _ => exact calls_cons_other (by simp)

/-- Who calls a step holds the lease, has stored nothing, and goes by the row that it has read. -/
theorem Permitted.of_call {c : CallMade} (permitted : Permitted e j ev) (lawful : Lawful e j)
    (is : ev.call? = some c) (about : c.call.executionId = x) :
    j.Holds x ev.actor ∧ (j.attempt ev.actor).calls = [] ∧ (j.attempt ev.actor).written = [] ∧
      ∃ base d, (j.attempt ev.actor).base = some base ∧ e.definitionOf base = .ok d ∧
        AsksFor d base c.call := by
  cases permitted with
  | quiet me q answer quiet =>
    cases q with
    | call => cases quiet
    | _ => cases is
  | called me y lease base d call reply driven held read first unwritten known asks =>
    cases is
    have id : base.id = y :=
      id_of_mem_history (lawful.base_mem (Operation.target?_of_driven? driven) read)
    obtain rfl : y = x := id.symm.trans (asks.executionId.symm.trans about)
    exact ⟨⟨driven, by simp [held]⟩, first, unwritten, base, d, read, known, asks⟩
  | _ => cases is

namespace Journal.Pending

/-- An event that tells nothing about leases, calls and rows of the owners leaves what is pending
alone. -/
theorem alike (pending : j.Pending x calls) (made : Journal.calls x (ev :: j) = j.calls x)
    (alike : ∀ me : Actor, me.operation.driven? = some x →
      (Journal.attempt me (ev :: j)).held = (j.attempt me).held ∧
      (Journal.attempt me (ev :: j)).written = (j.attempt me).written ∧
      (Journal.attempt me (ev :: j)).calls = (j.attempt me).calls) :
    Journal.Pending (ev :: j) x calls := by
  cases pending with
  | holder me holds unwritten made' =>
    obtain ⟨held, written, calls'⟩ := alike me holds.driven
    refine .holder me ⟨holds.driven, held ▸ holds.held⟩ (written.trans unwritten) ?_
    rw [made, calls', made']
  | settled written made' =>
    refine .settled ?_ (made.trans made')
    intro me holds
    obtain ⟨held, written', -⟩ := alike me holds.driven
    rw [written']
    exact written me ⟨holds.driven, held ▸ holds.held⟩

theorem foreign (pending : j.Pending x calls) (made : Journal.calls x (ev :: j) = j.calls x)
    (foreign : ev.actor.operation.driven? ≠ some x) : Journal.Pending (ev :: j) x calls := by
  apply pending.alike made
  intro me driven
  have other : ev.actor ≠ me := fun same => foreign (same ▸ driven)
  rw [attempt_other other]
  exact ⟨rfl, rfl, rfl⟩

/-- What the holder of the lease made of the calls, as long as it has stored nothing. -/
theorem of_holds (pending : j.Pending x calls) (lawful : Lawful e j) (exclusive : j.Exclusive x)
    (holds : j.Holds x me) (unwritten : (j.attempt me).written = []) :
    j.calls x = calls ++ (j.attempt me).calls := by
  cases pending with
  | holder other holds' unwritten' made => exact lawful.alone exclusive holds holds' ▸ made
  | settled written made => exact absurd unwritten (written me holds)

theorem of_settled (pending : j.Pending x calls)
    (written : ∀ me, j.Holds x me → (j.attempt me).written ≠ []) : j.calls x = calls := by
  cases pending with
  | holder me holds unwritten made => exact absurd unwritten (written me holds)
  | settled written' made => exact made

theorem granted {lease : Lease} (pending : j.Pending x calls)
    (driven : me.operation.driven? = some x)
    (exclusive : Journal.Exclusive (⟨me, .acquire x, some lease, []⟩ :: j) x) :
    Journal.Pending (⟨me, .acquire x, some lease, []⟩ :: j) x calls := by
  have nobody (other : Actor) (holds : j.Holds x other) : False :=
    holds.held (exclusive me lease j (List.suffix_refl _) other holds.driven)
  have made := pending.of_settled fun other holds => (nobody other holds).elim
  refine .holder me ⟨driven, ?_⟩ ?_ ?_ <;> rw [attempt_self]
  · exact Option.some_ne_none lease
  · rfl
  · rw [calls_cons_other (by simp), made]
    exact (List.append_nil calls).symm

/-- The holder of a lease that gives it back has made no call or has stored what the call led
to: under exclusive leases nobody else made progress meanwhile. -/
theorem released {lease : Lease} (pending : j.Pending x calls) (lawful : Lawful e j)
    (exclusive : j.Exclusive x) (classified : j.Classified x) (holds : j.Holds x me)
    (accounted : j.Accounted x (j.attempt me)) :
    Journal.Pending (⟨me, .release lease, (), []⟩ :: j) x calls := by
  have nobody (other : Actor) : ¬Journal.Holds (⟨me, .release lease, (), []⟩ :: j) x other := by
    intro after
    have held := after.held
    by_cases own : me = other
    · subst own
      rw [attempt_self] at held
      exact held rfl
    · rw [attempt_other own] at held
      exact own (lawful.alone exclusive holds ⟨after.driven, held⟩)
  refine .settled (fun other after => absurd after (nobody other)) ?_
  rw [calls_cons_other (by simp)]
  by_cases unwritten : (j.attempt me).written = []
  · have made := pending.of_holds lawful exclusive holds unwritten
    by_cases uncalled : (j.attempt me).calls = []
    · rw [made, uncalled, List.append_nil]
    · rcases accounted uncalled with
        written | ⟨base, read, row, found, differs⟩ | ⟨c, inside, bad⟩
      · exact absurd unwritten written
      · obtain ⟨latest, found', same⟩ := lawful.current exclusive holds read unwritten
        rw [found] at found'
        cases found'
        exact absurd same.symm differs
      · exact absurd bad (classified c (made ▸ List.mem_append_right _ inside))
  · apply pending.of_settled
    intro other holds'
    exact lawful.alone exclusive holds holds' ▸ unwritten

theorem called {sagaType : String} {call : StepCall} {reply : StepReply}
    (pending : j.Pending x calls) (lawful : Lawful e j) (exclusive : j.Exclusive x)
    (holds : j.Holds x me) (first : (j.attempt me).calls = [])
    (unwritten : (j.attempt me).written = []) (about : call.executionId = x) :
    Journal.Pending (⟨me, .call sagaType call, reply, []⟩ :: j) x calls := by
  have made := pending.of_holds lawful exclusive holds unwritten
  rw [first, List.append_nil] at made
  refine .holder me ⟨holds.driven, ?_⟩ ?_ ?_ <;> rw [attempt_self]
  · exact holds.held
  · exact unwritten
  · rw [calls_cons_call (j := j) (c := ⟨call, reply⟩) rfl about, made]
    simp [Attempt.after, first]

theorem next (pending : j.Pending x calls) (lawful : Lawful e j) (permitted : Permitted e j ev)
    (exclusive : Journal.Exclusive (ev :: j) x) (classified : j.Classified x)
    (idle : ev.actor.operation.driven? = some x → ev.installed = []) :
    Journal.Pending (ev :: j) x calls := by
  have exclusive' : j.Exclusive x := exclusive.suffix (List.suffix_cons ev j)
  by_cases driven : ev.actor.operation.driven? = some x
  · have quietly (made : Journal.calls x (ev :: j) = j.calls x)
        (held : ((j.attempt ev.actor).after ev).held = (j.attempt ev.actor).held)
        (written : ((j.attempt ev.actor).after ev).written = (j.attempt ev.actor).written)
        (calls' : ((j.attempt ev.actor).after ev).calls = (j.attempt ev.actor).calls) :
        Journal.Pending (ev :: j) x calls := by
      apply pending.alike made
      intro me _
      by_cases own : ev.actor = me
      · subst own
        rw [attempt_own rfl]
        exact ⟨held, written, calls'⟩
      · rw [attempt_other own]
        exact ⟨rfl, rfl, rfl⟩
    cases permitted with
    | quiet actor q answer quiet =>
      rw [after_quiet _ answer quiet] at quietly
      exact quietly (calls_cons_other (not_call_of_quiet quiet)) rfl rfl rfl
    | found actor y tx target =>
      refine quietly (calls_cons_other (by simp)) ?_ ?_ ?_ <;>
        cases j.record y <;> rfl
    | granted actor y lease driven' free settled =>
      obtain rfl : y = x := Option.some.inj (driven'.symm.trans driven)
      exact pending.granted driven exclusive
    | released actor y lease driven' held accounted =>
      obtain rfl : y = x := Option.some.inj (driven'.symm.trans driven)
      exact pending.released lawful exclusive' classified ⟨driven, by simp [held]⟩ accounted
    | called actor y lease base d call reply driven' held read first unwritten known asks =>
      obtain rfl : y = x := Option.some.inj (driven'.symm.trans driven)
      have inside := lawful.base_mem (Operation.target?_of_driven? driven) read
      exact pending.called lawful exclusive' ⟨driven, by simp [held]⟩ first unwritten
        (asks.executionId.trans (id_of_mem_history inside))
    | created | cancelled | decided => cases idle driven
    | _ => exact quietly (calls_cons_other (by simp)) rfl rfl rfl
  · exact pending.foreign (permitted.calls_foreign lawful driven) driven

end Journal.Pending

namespace Journal.Booked

theorem lineage {old : Execution} {earlier : List Execution} (booked : j.Booked e x calls)
    (before : j.history x = old :: earlier) :
    ∃ d, (∀ row ∈ old :: earlier, e.definitionOf row = .ok d) ∧
      Lineage d (old :: earlier) calls := by
  rcases booked.rows with ⟨nothing, -⟩ | rows
  · rw [before] at nothing
    cases nothing
  · rwa [before] at rows

theorem extend {old new : Execution} {earlier : List Execution} {d : SagaDefinition}
    (pending : Journal.Pending (ev :: j) x calls)
    (history : Journal.history x (ev :: j) = new :: old :: earlier)
    (known : ∀ row ∈ old :: earlier, e.definitionOf row = .ok d) (origin : new.origin = old.origin)
    (lineage : Lineage d (new :: old :: earlier) calls) : Journal.Booked e (ev :: j) x calls := by
  refine ⟨pending, .inr ⟨d, ?_, history ▸ lineage⟩⟩
  intro row inside
  rw [history] at inside
  rcases List.mem_cons.1 inside with rfl | older
  · exact (definitionOf_congr origin).2 (known old List.mem_cons_self)
  · exact known row older

end Journal.Booked

/-- Under exclusive leases the rows of an execution store the results of all its calls. -/
theorem Lawful.booked (lawful : Lawful e j) (exclusive : j.Exclusive x)
    (classified : j.Classified x) : ∃ calls, j.Booked e x calls := by
  induction lawful with
  | start => exact ⟨[], .settled (fun me holds => absurd rfl holds.held) rfl, .inl ⟨rfl, rfl⟩⟩
  | @next j ev lawful permitted ih =>
    have earlier : j <:+ ev :: j := List.suffix_cons ev j
    have exclusive' := exclusive.suffix earlier
    have classified' := classified.suffix earlier
    obtain ⟨calls, booked⟩ := ih exclusive' classified'
    cases permitted.extends lawful x with
    | unchanged _ history idle =>
      refine ⟨calls, booked.pending.next lawful permitted exclusive classified' idle, ?_⟩
      rw [history]
      exact booked.rows
    | created me tx sagaType context d now starts known free history =>
      have uncalled : calls = [] := by
        rcases booked.rows with ⟨-, none⟩ | ⟨d, -, lineage⟩
        · exact none
        · exact absurd free lineage.ne_nil
      have foreign : me.operation.driven? ≠ some x := by simp [starts, Operation.driven?]
      refine ⟨calls, booked.pending.foreign (calls_cons_other (by simp)) foreign, .inr ⟨d, ?_, ?_⟩⟩
      · intro row inside
        rw [history] at inside
        cases List.mem_singleton.1 inside
        exact definitionOf_eq_ok.2 ⟨known, rfl⟩
      · rw [history, uncalled]
        exact .created x sagaType context now
    | cancelled me tx old older now cancels before active unasked history =>
      obtain ⟨d, known, lineage⟩ := booked.lineage before
      have foreign : me.operation.driven? ≠ some x := by simp [cancels, Operation.driven?]
      have pending : Journal.Pending
          (⟨me, .commit tx, .ok (), [(old.marked now).replacing old]⟩ :: j) x calls :=
        booked.pending.foreign (calls_cons_other (by simp)) foreign
      exact ⟨calls, .extend pending history known rfl (lineage.cancelled now active unasked)⟩
    | decided me tx lease old older base changed d' t now driven held read unwritten before inside
        known' decides same next history =>
      obtain ⟨d, known, lineage⟩ := booked.lineage before
      obtain rfl : d' = d := Except.ok.inj (known'.symm.trans (known base inside))
      have holds : j.Holds x me := ⟨driven, by simp [held]⟩
      have made := booked.pending.of_holds lawful exclusive' holds unwritten
      refine ⟨calls ++ (j.attempt me).calls, .extend (.settled ?_ ?_) history known
        (origin_of_stored next now) (lineage.decided now inside same decides next)⟩
      · intro other holds'
        by_cases own : me = other
        · subst own
          rw [attempt_self]
          simp [Attempt.after]
        · have held' := holds'.held
          rw [attempt_other own] at held'
          exact absurd (lawful.alone exclusive' holds ⟨holds'.driven, held'⟩) own
      · rw [calls_cons_other (by simp), made]

/-- Once an execution is finished, no call of it is pending. -/
theorem Journal.Booked.made_of_terminal {row : Execution} (booked : j.Booked e x calls)
    (lawful : Lawful e j) (exclusive : j.Exclusive x) (finished : j.Finished x row) :
    j.calls x = calls := by
  cases booked.pending with
  | settled written made => exact made
  | holder me holds unwritten made =>
    rcases lawful.calledOn holds.driven with
      none | ⟨c, one, _, _, _, -, -, -, -, base, d, read, asks⟩
    · rw [made, none, List.append_nil]
    · obtain ⟨latest, found, same⟩ := lawful.current exclusive holds read unwritten
      have here : row = latest := Option.some.inj (finished.record.symm.trans found)
      have status : base.status = row.status := here ▸ congrArg Execution.Progress.status same
      have unfinished := asks.unfinished
      rw [status, finished.terminal] at unfinished
      cases unfinished

end

end SagaEngine
