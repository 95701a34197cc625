import SagaEngine.Proofs.Course
import SagaEngine.Proofs.Solo
/-!
# The life of an actor that works alone

From one journal to a later one a single actor does something, and then it may be cut
off at any request. What it did to an execution is a course without lost calls, but
for the call whose result it has not stored. Main statements: `Life.next`,
`Alone.course` and `Alone.not_gaveUp`.
-/

namespace SagaEngine

def Journal.ledger (j : Journal) (x : String) : Ledger := ⟨j.history x, j.calls x⟩

/-- The steps reply to a call in one way, whenever they are called. -/
def Host.Replies (host : Host) (steps : String → StepCall → StepReply) : Prop :=
  ∀ j sagaType call, host j (.call sagaType call) = steps sagaType call

/-- What an actor did to an execution since the ledger `l`: the result of its last call is stored,
or it is yet to be stored on the row that was read and is still the latest one. -/
inductive Life (d : SagaDefinition) (steps : StepCall → StepReply) (me : Actor) (x : String)
    (l : Ledger) (k : Journal) : Prop
  | stored (written : (k.attempt me).written ≠ []) (course : Course d steps 0 l (k.ledger x))
  | working (unwritten : (k.attempt me).written = [])
      (idle : (k.attempt me).leased = false →
        (k.attempt me).held = none ∧ (k.attempt me).calls = [])
      (level : ∀ base, (k.attempt me).base = some base → k.record x = some base)
      (calls : List CallMade) (course : Course d steps 0 l ⟨k.history x, calls⟩)
      (made : k.calls x = calls ++ (k.attempt me).calls)
      (pending : ∀ c ∈ (k.attempt me).calls, c.reply = steps c.call ∧
        ∃ base, (k.attempt me).base = some base ∧ AsksFor d base c.call)

section

variable {e : Engine} {d : SagaDefinition} {steps : StepCall → StepReply} {me : Actor} {x : String}
  {l : Ledger} {j j₀ k : Journal} {ev : Event} {host : Host} {base row : Execution} {σ : Cluster}

theorem Life.kept {a : Attempt} (life : Life d steps me x l k) (installs : ev.installed = [])
    (uncalled : ∀ sagaType call, ev.request ≠ .call sagaType call)
    (attempt : Journal.attempt me (ev :: k) = a) (leased : a.leased = (k.attempt me).leased)
    (calls : a.calls = (k.attempt me).calls) (written : a.written = (k.attempt me).written)
    (free : (k.attempt me).held = none → a.held = none)
    (read : ∀ base, (k.attempt me).base = some base → a.base = some base)
    (fresh : ∀ base, a.base = some base → (k.attempt me).base = some base ∨ k.record x = some base) :
    Life d steps me x l (ev :: k) := by
  have history := history_cons_none (x := x) ev k installs
  have uncalled := calls_cons_other (x := x) (j := k) uncalled
  cases life with
  | stored stored course =>
    refine .stored ?_ ?_
    · rw [attempt, written]
      exact stored
    · rw [Journal.ledger, history, uncalled]
      exact course
  | working unwritten idle level before course made pending =>
    refine .working ?_ ?_ ?_ before (history ▸ course) ?_ ?_
    · rw [attempt, written]
      exact unwritten
    · rw [attempt, leased, calls]
      intro unleased
      exact ⟨free (idle unleased).1, (idle unleased).2⟩
    · rw [attempt, record_cons_none ev k installs]
      intro base isBase
      rcases fresh base isBase with old | new
      · exact level base old
      · exact new
    · rw [attempt, uncalled, calls]
      exact made
    · rw [attempt, calls]
      intro c inside
      obtain ⟨reply, base, isBase, asks⟩ := pending c inside
      exact ⟨reply, base, read base isBase, asks⟩

theorem Life.same (life : Life d steps me x l k) (installs : ev.installed = [])
    (uncalled : ∀ sagaType call, ev.request ≠ .call sagaType call)
    (attempt : Journal.attempt me (ev :: k) = k.attempt me) : Life d steps me x l (ev :: k) :=
  life.kept installs uncalled attempt rfl rfl rfl id (fun _ => id) fun _ => .inl

theorem Life.found (life : Life d steps me x l k) (tx : Nat) :
    Life d steps me x l (⟨me, .find tx x, .ok (k.record x), []⟩ :: k) := by
  have base : ((k.attempt me).after ⟨me, .find tx x, .ok (k.record x), []⟩).base =
      (k.attempt me).base.or (k.record x) := after_find_base _ tx x _
  refine life.kept rfl (by simp) (attempt_own rfl) ?_ ?_ ?_ ?_ ?_ ?_
  · cases k.record x <;> rfl
  · cases k.record x <;> rfl
  · cases k.record x <;> rfl
  · cases k.record x <;> exact id
  · intro row read
    rw [base, read, Option.some_or]
  · intro row read
    rw [base, Option.or_eq_some_iff] at read
    rcases read with old | ⟨-, new⟩
    · exact .inl old
    · exact .inr new

/-- A new lease is a new start: nothing is left to be stored. -/
theorem Life.granted (life : Life d steps me x l k) (lease : Lease)
    (settled : (k.attempt me).leased = true → (k.attempt me).written ≠ []) :
    Life d steps me x l (⟨me, .acquire x, some lease, []⟩ :: k) := by
  have after : Journal.attempt me (⟨me, .acquire x, some lease, []⟩ :: k) =
      { leased := true, held := some lease } := attempt_self _ _ _
  have ledger : Course d steps 0 l (k.ledger x) := by
    cases life with
    | stored written course => exact course
    | working unwritten idle level calls course made =>
      have unleased : (k.attempt me).leased = false := by
        cases leased : (k.attempt me).leased with
        | false => rfl
        | true => exact absurd unwritten (settled leased)
      rw [(idle unleased).2, List.append_nil] at made
      rw [Journal.ledger, made]
      exact course
  have history := history_cons_none (x := x) ⟨me, .acquire x, some lease, []⟩ k rfl
  refine .working ?_ ?_ ?_ (k.calls x) (history ▸ ledger) ?_ ?_ <;> rw [after]
  · exact nofun
  · exact nofun
  · rw [calls_cons_other (by simp)]
    exact (List.append_nil _).symm
  · intro c inside
    cases inside

/-- A call that the row first read asks for, which the steps reply to as always. -/
theorem Life.called {call : StepCall} {reply : StepReply} {sagaType : String}
    (life : Life d steps me x l k) (held : (k.attempt me).held ≠ none)
    (read : (k.attempt me).base = some base) (first : (k.attempt me).calls = [])
    (unwritten : (k.attempt me).written = []) (asks : AsksFor d base call)
    (about : call.executionId = x) (steady : reply = steps call) :
    Life d steps me x l (⟨me, .call sagaType call, reply, []⟩ :: k) := by
  have after : Journal.attempt me (⟨me, .call sagaType call, reply, []⟩ :: k) =
      (k.attempt me).after ⟨me, .call sagaType call, reply, []⟩ := attempt_self _ _ _
  cases life with
  | stored written => exact absurd unwritten written
  | working _ idle level calls course made =>
    rw [first, List.append_nil] at made
    have history := history_cons_none (x := x) ⟨me, .call sagaType call, reply, []⟩ k rfl
    refine .working ?_ ?_ ?_ calls (history ▸ course) ?_ ?_ <;> rw [after]
    · exact unwritten
    · intro unleased
      exact absurd (idle unleased).1 held
    · rw [record_cons_none _ k rfl]
      exact level
    · rw [calls_cons_call rfl about, made]
      simp only [Attempt.after, first, List.nil_append]
    · simp only [Attempt.after, first, List.nil_append]
      intro c only
      cases List.mem_singleton.1 only
      exact ⟨steady, base, read, asks⟩

/-- A decision on the row first read, which is stored on that row. -/
theorem Life.decided {tx now : Nat} {old changed : Execution} {t : Transition}
    (life : Life d steps me x l k) (read : (k.attempt me).base = some base)
    (unwritten : (k.attempt me).written = []) (latest : k.record x = some old)
    (decides : Decides d base (k.attempt me).calls t) (next : t.next old = .ok changed) :
    Life d steps me x l
      (⟨me, .commit tx, .ok (), [(changed.stamped now).replacing old]⟩ :: k) := by
  cases life with
  | stored written => exact absurd unwritten written
  | working _ idle level calls course made pending =>
    obtain rfl : old = base := Option.some.inj (latest.symm.trans (level base read))
    obtain ⟨earlier, history⟩ := history_eq_cons_of_record latest
    have id : ((changed.stamped now).replacing old).id = x :=
      (congrArg Execution.Origin.id (origin_of_stored next now)).trans
        (id_of_mem_history (mem_history_of_record latest))
    have grown := history_cons_one (x := x)
      ⟨me, .commit tx, .ok (), [(changed.stamped now).replacing old]⟩ k rfl
    rw [if_pos id, history] at grown
    rw [history] at course
    refine .stored ?_ ?_
    · rw [attempt_self]
      simp [Attempt.after]
    · rw [Journal.ledger, grown, calls_cons_other (by simp), made]
      have last : Course d steps 0 ⟨old :: earlier, calls⟩ _ :=
        .stored now decides (fun c inside => (pending c inside).1) next (.stay _)
      exact course.trans last

/-- One more event of the actor. -/
theorem Life.next (life : Life d steps me x l k) (lawful : Lawful e k) (permitted : Permitted e k ev)
    (own : ev.actor = me) (driven : me.operation.driven? = some x)
    (known : ∀ row ∈ k.history x, e.definitionOf row = .ok d)
    (replies : ∀ c, ev.call? = some c → ev.request = .call d.sagaType c.call →
      c.reply = steps c.call) : Life d steps me x l (ev :: k) := by
  subst own
  have target := Operation.target?_of_driven? driven
  have after : Journal.attempt ev.actor (ev :: k) = (k.attempt ev.actor).after ev := attempt_own rfl
  cases permitted with
  | quiet actor q answer quiet =>
    rw [after_quiet _ answer quiet] at after
    exact life.same rfl (not_call_of_quiet quiet) after
  | found actor y tx target' =>
    obtain rfl : y = x := Option.some.inj (target'.symm.trans target)
    exact life.found tx
  | granted actor y lease driven' free settled =>
    obtain rfl : y = x := Option.some.inj (driven'.symm.trans driven)
    exact life.granted lease settled
  | released actor y lease =>
    exact life.kept rfl (by simp) after rfl rfl rfl (fun _ => rfl) (fun _ => id) fun _ => .inl
  | called actor y lease base d' call reply driven' held read first unwritten known' asks =>
    obtain rfl : y = x := Option.some.inj (driven'.symm.trans driven)
    have inside := lawful.base_mem target read
    obtain rfl : d' = d := Except.ok.inj (known'.symm.trans (known base inside))
    exact life.called (by simp [held]) read first unwritten asks
      (asks.executionId.trans (id_of_mem_history inside)) (replies ⟨call, reply⟩ rfl rfl)
  | created actor tx sagaType context id d' now starts =>
    have driven : actor.operation.driven? = some x := driven
    rw [starts] at driven
    cases driven
  | cancelled actor y tx old now cancels =>
    have driven : actor.operation.driven? = some x := driven
    rw [cancels] at driven
    cases driven
  | decided actor y tx lease old base changed d' t now driven' held read unwritten latest known'
      decides same next =>
    obtain rfl : y = x := Option.some.inj (driven'.symm.trans driven)
    have inside := lawful.base_mem target read
    obtain rfl : d' = d := Except.ok.inj (known'.symm.trans (known base inside))
    exact life.decided read unwritten latest decides next
  | _ => exact life.same rfl (by simp) after

/-- What was done to the execution: the last call is lost, should the actor be cut off now. -/
theorem Life.course (life : Life d steps me x l k) (lawful : Lawful e k)
    (driven : me.operation.driven? = some x) : ∃ n ≤ 1, Course d steps n l (k.ledger x) := by
  cases life with
  | stored written course => exact ⟨0, Nat.zero_le _, course⟩
  | working unwritten idle level calls course made pending =>
    rcases lawful.calledOn driven with none | ⟨c, one, -⟩
    · rw [none, List.append_nil] at made
      refine ⟨0, Nat.zero_le _, ?_⟩
      rw [Journal.ledger, made]
      exact course
    · obtain ⟨reply, base, read, asks⟩ := pending c (by simp [one])
      obtain ⟨earlier, history⟩ := history_eq_cons_of_record (level base read)
      rw [one] at made
      refine ⟨1, Nat.le_refl _, ?_⟩
      rw [Journal.ledger, made, history]
      rw [history] at course
      have last : Course d steps 1 ⟨base :: earlier, calls⟩ ⟨base :: earlier, calls ++ [c]⟩ := by
        refine .lost asks ?_
        rw [← reply]
        exact .stay _
      rw [← Nat.zero_add 1]
      exact course.trans last

/-- No call of a finished execution is lost. -/
theorem Life.course_of_finished (life : Life d steps me x l k) (finished : k.Finished x row) :
    Course d steps 0 l (k.ledger x) := by
  cases life with
  | stored written course => exact course
  | working unwritten idle level calls course made pending =>
    cases open_ : (k.attempt me).calls with
    | nil =>
      rw [open_, List.append_nil] at made
      rw [Journal.ledger, made]
      exact course
    | cons c rest =>
      obtain ⟨-, base, read, asks⟩ := pending c (by simp [open_])
      obtain rfl : row = base := Option.some.inj (finished.record.symm.trans (level base read))
      have active := asks.unfinished
      rw [finished.terminal] at active
      cases active

/-! ## From one journal to another -/

/-- From one journal to a later one a new actor did what was done, against one host. -/
structure Alone (e : Engine) (host : Host) (me : Actor) (j₀ j : Journal) : Prop where
  lawful : Lawful e j
  stranger : ∀ ev ∈ j₀, ev.actor ≠ me
  own : ∃ own, j = own ++ j₀ ∧ ∀ ev ∈ own, host.Gave me ev

theorem Alone.between (alone : Alone e host me j₀ j) (lower : j₀ <:+ k) (upper : k <:+ j) :
    Alone e host me j₀ k := by
  obtain ⟨own, split, gave⟩ := alone.own
  obtain ⟨newer, rfl⟩ := lower
  obtain ⟨newest, upper'⟩ := upper
  refine ⟨alone.lawful.suffix ⟨newest, upper'⟩, alone.stranger, newer, rfl, ?_⟩
  have whole : own = newest ++ newer := by
    rw [split, ← List.append_assoc] at upper'
    exact (List.append_cancel_right upper').symm
  intro ev inside
  exact gave ev (by simp [whole, inside])

theorem Alone.later (alone : Alone e host me j₀ j) : j₀ <:+ j := by
  obtain ⟨own, split, -⟩ := alone.own
  exact ⟨own, split.symm⟩

theorem Alone.fresh (alone : Alone e host me j₀ j) : j₀.attempt me = {} := by
  have nothing := attempt_others (j := []) alone.stranger
  rw [List.append_nil] at nothing
  exact nothing

theorem Alone.known (alone : Alone e host me j₀ j) (present : row ∈ j₀.history x)
    (known : e.definitionOf row = .ok d) : ∀ row ∈ j.history x, e.definitionOf row = .ok d := by
  have inside := (history_suffix x alone.later).subset present
  exact (alone.lawful.ownedBy_of_known inside known).known

theorem Alone.life {steps : String → StepCall → StepReply} (alone : Alone e host me j₀ j)
    (driven : me.operation.driven? = some x) (replies : host.Replies steps)
    (present : row ∈ j₀.history x) (known : e.definitionOf row = .ok d) :
    Life d (steps d.sagaType) me x (j₀.ledger x) j := by
  obtain ⟨own, split, gave⟩ := alone.own
  clear gave
  subst split
  induction own with
  | nil =>
    have fresh := alone.fresh
    refine .working ?_ ?_ ?_ (j₀.calls x) (.stay _) ?_ ?_ <;> rw [List.nil_append, fresh]
    · exact fun _ => ⟨rfl, rfl⟩
    · exact fun _ => nofun
    · exact (List.append_nil _).symm
    · exact fun _ => nofun
  | cons ev own ih =>
    have before : Alone e host me j₀ (own ++ j₀) :=
      alone.between (List.suffix_append _ _) (List.suffix_cons _ _)
    have gave : host.Gave me ev := by
      obtain ⟨whole, split, gave⟩ := alone.own
      rw [← List.append_cancel_right split] at gave
      exact gave ev List.mem_cons_self
    cases alone.lawful with
    | next lawful permitted =>
      refine (ih before).next lawful permitted gave.actor driven (before.known present known) ?_
      intro c is asked
      obtain ⟨j, sagaType, request, reply⟩ := gave.replied is
      rw [request] at asked
      rw [reply, replies, (Request.call.inj asked).1]

/-- Who works alone, with every lease granted and every reply classified, does not give up. -/
theorem Alone.not_gaveUp {steps : String → StepCall → StepReply} (alone : Alone e host me j₀ j)
    (driven : me.operation.driven? = some x) (replies : host.Replies steps)
    (grants : ∀ j, host j (.acquire x) ≠ none)
    (classified : ∀ sagaType call code, (steps sagaType call).result.outcome ≠ .unclassified code)
    (present : row ∈ j₀.history x) (known : e.definitionOf row = .ok d) : ¬j.GaveUp me x := by
  have life {k : Journal} (lower : j₀ <:+ k) (upper : k <:+ j) :=
    (alone.between lower upper).life driven replies present known
  have reach {k : Journal} (upper : k <:+ j) (busy : k.attempt me ≠ {}) : j₀ <:+ k := by
    rcases List.suffix_or_suffix_of_suffix upper alone.later with below | above
    · exfalso
      apply busy
      have nothing := attempt_others (j := []) fun ev inside => alone.stranger ev (below.subset inside)
      rw [List.append_nil] at nothing
      exact nothing
    · exact above
  rintro (⟨k, earlier⟩ | ⟨k, base, earlier, held, read, unwritten, latest, found, differs⟩ |
    ⟨k, c, earlier, made, code, unclassified⟩)
  · obtain ⟨own, split, gave⟩ := alone.own
    have inside : ⟨me, .acquire x, none, []⟩ ∈ j := earlier.subset List.mem_cons_self
    rw [split] at inside
    rcases List.mem_append.1 inside with new | old
    · obtain ⟨j', refused⟩ := (gave _ new).lease
      exact grants j' refused.symm
    · exact alone.stranger _ old rfl
  · have lower := reach earlier (by
      intro nothing
      rw [nothing] at read
      cases read)
    cases life lower earlier with
    | stored written => exact written unwritten
    | working _ _ level =>
      rw [level base read] at found
      cases found
      exact differs rfl
  · have lower := reach earlier (by
      intro nothing
      rw [nothing] at made
      cases made)
    obtain ⟨own, rfl, gave⟩ := (alone.between lower earlier).own
    rcases calls_of_own made with old | ⟨ev, inside, is⟩
    · rw [alone.fresh] at old
      cases old
    · obtain ⟨j', sagaType, reply⟩ := (gave ev inside).reply is
      rw [reply, replies] at unclassified
      exact classified _ _ code unclassified

end

end SagaEngine
