import SagaEngine.Proofs.Cluster
import SagaEngine.Proofs.WrittenValues
/-!
# Idempotency keys read from their ends

A key is put together from an id, which may be any text, an index and a direction, and nothing marks
where the id ends. Read from its end a key gives all three back: the undo suffix ends in a letter
and an index in a digit, and there is no slash in an index. So two calls with one key are attempts
of one call. Main statements: `parts?_ofPhase` and `keys_never_collide`.
-/

namespace SagaEngine

namespace IdempotencyKey

/-- Splits the undo suffix off a key that is written backwards. -/
def splitPhase : List Char → Phase × List Char
  | 'o' :: 'd' :: 'n' :: 'u' :: '/' :: rest => (.compensate, rest)
  | rest => (.execute, rest)

/-- The id, the index and the direction of a key. -/
def parts? (key : String) : Option (String × Int × Phase) :=
  let (phase, backwards) := splitPhase key.toList.reverse
  let index := (backwards.takeWhile (· ≠ '/')).reverse
  match backwards.dropWhile (· ≠ '/') with
  | [] => none
  | _ :: id =>
    ((Numeral.ofText? (String.ofList index)).bind Numeral.whole?).map fun index =>
      (String.ofList id.reverse, index, phase)

theorem slash_notMem_toString (index : Int) : '/' ∉ (toString index).toList := by
  rw [Numeral.toList_toString]
  intro inside
  rcases List.mem_append.1 inside with sign | digit
  · by_cases negative : index < 0 <;> simp [Numeral.signChars, negative] at sign
  · have isDigit := Numeral.isDigit_of_mem digit
    simp at isDigit

/-- An index ends in a digit, so no key of a forward call ends in the undo suffix. -/
theorem splitPhase_toString (index : Int) (rest : List Char) :
    splitPhase ((toString index).toList.reverse ++ rest) =
      (.execute, (toString index).toList.reverse ++ rest) := by
  have nonempty : Nat.toDigits 10 index.natAbs ≠ [] := Nat.toDigits_ne_nil
  obtain ⟨digits, last, shape⟩ := (List.eq_nil_or_concat' _).resolve_left nonempty
  have digit : last.isDigit = true := by
    apply Numeral.isDigit_of_mem (n := index.natAbs)
    simp [shape]
  have ends : (toString index).toList.reverse ++ rest =
      last :: ((Numeral.signChars (index < 0) ++ digits).reverse ++ rest) := by
    rw [Numeral.toList_toString, shape]
    simp
  have other : last ≠ 'o' := by
    intro letter
    simp [letter] at digit
  rw [ends, splitPhase]
  intro tail same
  exact other (List.cons.inj same).1

theorem splitPhase_ofPhase (id : String) (index : Int) (phase : Phase) :
    splitPhase (ofPhase id index phase).toList.reverse =
      (phase, (toString index).toList.reverse ++ '/' :: id.toList.reverse) := by
  have forward : (execute id index).toList.reverse =
      (toString index).toList.reverse ++ '/' :: id.toList.reverse := by
    simp [execute]
  cases phase with
  | execute => rw [ofPhase, forward, splitPhase_toString]
  | compensate =>
    have marked : (compensate id index).toList.reverse =
        'o' :: 'd' :: 'n' :: 'u' :: '/' :: (execute id index).toList.reverse := by
      simp [compensate]
    rw [ofPhase, marked, forward]
    rfl

/-- A key is read back, whatever slashes and suffixes its id has. -/
theorem parts?_ofPhase (id : String) (index : Int) (phase : Phase) :
    parts? (ofPhase id index phase) = some (id, index, phase) := by
  have inside : ∀ c ∈ (toString index).toList.reverse, decide (c ≠ '/') = true := by
    intro c member
    apply decide_eq_true
    intro slash
    exact slash_notMem_toString index (slash ▸ List.mem_reverse.1 member)
  rw [parts?, splitPhase_ofPhase]
  dsimp only
  rw [List.takeWhile_append_of_pos inside, List.dropWhile_append_of_pos inside]
  rw [List.takeWhile_cons_of_neg (by simp), List.dropWhile_cons_of_neg (by simp)]
  rw [List.append_nil, List.reverse_reverse, String.ofList_toList,
    Numeral.whole?_ofText?_toString]
  simp

theorem ofPhase_inj {id id' : String} {index index' : Int} {phase phase' : Phase} :
    ofPhase id index phase = ofPhase id' index' phase' ↔
      id = id' ∧ index = index' ∧ phase = phase' := by
  constructor
  · intro same
    have parts := congrArg parts? same
    rw [parts?_ofPhase, parts?_ofPhase] at parts
    simpa using parts
  · intro ⟨id, index, phase⟩
    rw [id, index, phase]

/-- An id that looks like the key of an undo. -/
example : parts? "a/1/undo/-2/undo" = some ("a/1/undo", -2, .compensate) := by decide +kernel

end IdempotencyKey

section

variable {e : Engine} {j : Journal} {ev : Event} {d : SagaDefinition} {row : Execution}
  {sagaType : String} {call : StepCall}

theorem AsksFor.index (asks : AsksFor d row call) : call.index = row.stepIndex := by
  cases asks <;> rfl

theorem AsksFor.named (asks : AsksFor d row call) :
    Engine.stepName d call.index = .ok call.step := by
  cases asks with
  | execute _ _ _ step named => exact named
  | compensate _ _ step named => exact named

/-- A step is called as a committed row of the execution asks for it. -/
theorem Lawful.asked (lawful : Lawful e j) (member : ev ∈ j)
    (is : ev.request = .call sagaType call) :
    ∃ row d, row ∈ j.history call.executionId ∧ e.definitionOf row = .ok d ∧
      d.sagaType = sagaType ∧ AsksFor d row call := by
  induction lawful with
  | start => cases member
  | @next j latest before permitted ih =>
    rcases List.mem_cons.1 member with rfl | earlier
    · cases permitted with
      | called me x lease row d _ reply driven held read first unwritten known asks =>
        cases is
        have target := Operation.target?_of_driven? driven
        have inside := before.base_mem target read
        have id : call.executionId = x := asks.executionId.trans (id_of_mem_history inside)
        rw [history_cons_none _ _ rfl, id]
        exact ⟨row, d, inside, known, rfl, asks⟩
      | quiet me q answer quiet =>
        exact absurd is (not_call_of_quiet quiet sagaType call)
      | _ => cases is
    · obtain ⟨row, d, inside, rest⟩ := ih earlier
      have later := history_suffix call.executionId (List.suffix_cons latest j)
      exact ⟨row, d, later.subset inside, rest⟩

/-- Calls of one execution at one index are calls of one step. -/
theorem Lawful.same_step (lawful : Lawful e j) {ev' : Event} {sagaType' : String}
    {call' : StepCall} (member : ev ∈ j) (is : ev.request = .call sagaType call)
    (member' : ev' ∈ j) (is' : ev'.request = .call sagaType' call')
    (id : call'.executionId = call.executionId) (index : call'.index = call.index) :
    sagaType' = sagaType ∧ call'.step = call.step := by
  obtain ⟨row, d, inside, known, type, asks⟩ := lawful.asked member is
  obtain ⟨row', d', inside', known', type', asks'⟩ := lawful.asked member' is'
  rw [id] at inside'
  have owned := lawful.ownedBy_of_known inside known
  obtain rfl : d' = d := Except.ok.inj (known'.symm.trans (owned.known row' inside'))
  have named := asks'.named
  rw [index, asks.named] at named
  exact ⟨type'.symm.trans type, (Except.ok.inj named).symm⟩

/-- Idempotency keys tell ids, indexes and directions apart, and what an engine calls under one
key is one step of one execution in one direction. -/
theorem keys_never_collide :
    (∀ (id id' : String) (index index' : Int) (phase phase' : Phase),
      IdempotencyKey.ofPhase id index phase = IdempotencyKey.ofPhase id' index' phase' ↔
        id = id' ∧ index = index' ∧ phase = phase') ∧
    (∀ (id id' : String) (index index' : Int),
      IdempotencyKey.compensate id index ≠ IdempotencyKey.execute id' index') ∧
    ∀ (e : Engine) (σ : Cluster), e.Fits → Reachable e σ →
      ∀ ev ∈ σ.journal, ∀ ev' ∈ σ.journal, ∀ (sagaType sagaType' : String) (call call' : StepCall),
        ev.request = .call sagaType call → ev'.request = .call sagaType' call' →
          (call.key = call'.key ↔ call.executionId = call'.executionId ∧ sagaType = sagaType' ∧
            call.step = call'.step ∧ call.index = call'.index ∧ call.phase = call'.phase) := by
  refine ⟨fun _ _ _ _ _ _ => IdempotencyKey.ofPhase_inj, ?_, ?_⟩
  · intro id id' index index' same
    have undone : IdempotencyKey.ofPhase id index .compensate =
        IdempotencyKey.ofPhase id' index' .execute := same
    cases (IdempotencyKey.ofPhase_inj.1 undone).2.2
  · intro e σ fits reachable ev member ev' member' sagaType sagaType' call call' is is'
    have lawful := (reachable_consistent reachable fits).lawful
    constructor
    · intro same
      obtain ⟨id, index, phase⟩ := IdempotencyKey.ofPhase_inj.1 same
      obtain ⟨type, step⟩ := lawful.same_step member' is' member is id index
      exact ⟨id, type, step, index, phase⟩
    · intro ⟨id, _, _, index, phase⟩
      exact IdempotencyKey.ofPhase_inj.2 ⟨id, index, phase⟩

/-- Both attempts of a busy step carry one key and its undo another one. -/
theorem keys_never_collide_busy :
    let σ := Sample.run Sample.busy [.start "order" Dictionary.empty, .drive "x"]
    (σ.journal.filterMap Event.call?).map (fun c => c.call.key) = ["x/0/undo", "x/0", "x/0"] ∧
      ∀ ev ∈ σ.journal, ∀ ev' ∈ σ.journal, ∀ (sagaType sagaType' : String) (call call' : StepCall),
        ev.request = .call sagaType call → ev'.request = .call sagaType' call' →
          call.key = call'.key → call.step = call'.step ∧ call.phase = call'.phase := by
  constructor
  · decide +kernel
  · intro ev member ev' member' sagaType sagaType' call call' is is' same
    have reachable := Sample.run_reachable Sample.busy [.start "order" Dictionary.empty, .drive "x"]
    obtain ⟨-, -, step, -, phase⟩ := (keys_never_collide.2.2 Sample.engine _ Sample.engine_fits
      reachable ev member ev' member' sagaType sagaType' call call' is is').1 same
    exact ⟨step, phase⟩

end

end SagaEngine
