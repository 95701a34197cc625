import SagaEngine.Proofs.Determinism
/-!
# Courses with lost calls

The committed rows of one execution and its calls, as owners make them who work one
after another: each call has its result stored, or it is lost with the owner. What
comes next depends on the latest row and the replies only, so a course with lost
calls stores what the course without them stores, and a lost call is made once more.
Main statements: `Course.trans` and `Course.agree`.
-/

namespace SagaEngine

/-- A row apart from the times on it. -/
def Execution.timeless (row : Execution) : Execution :=
  row.noted row.cancelRequested 0 0 row.version

/-- The committed rows of an execution, latest first, and its calls, oldest first. -/
structure Ledger where
  rows : List Execution
  calls : List CallMade

/-- The latest row is a terminal one. -/
def Ledger.Ended (l : Ledger) : Prop := ∃ row ∈ l.rows.head?, row.status.isTerminal = true

/-- From one ledger to a later one, with a number of calls that were lost. -/
inductive Course (d : SagaDefinition) (steps : StepCall → StepReply) : Nat → Ledger → Ledger → Prop
  | stay (l : Ledger) : Course d steps 0 l l
  | stored {n : Nat} {row changed : Execution} {earlier : List Execution}
      {calls made : List CallMade} {t : Transition} {l : Ledger} (now : Nat)
      (decides : Decides d row made t) (replies : ∀ c ∈ made, c.reply = steps c.call)
      (next : t.next row = .ok changed)
      (rest : Course d steps n
        ⟨(changed.stamped now).replacing row :: row :: earlier, calls ++ made⟩ l) :
      Course d steps n ⟨row :: earlier, calls⟩ l
  | lost {n : Nat} {row : Execution} {earlier : List Execution} {calls : List CallMade}
      {call : StepCall} {l : Ledger} (asks : AsksFor d row call)
      (rest : Course d steps n ⟨row :: earlier, calls ++ [⟨call, steps call⟩]⟩ l) :
      Course d steps (n + 1) ⟨row :: earlier, calls⟩ l

/-- The calls of the first list with some of them, `n` in all, made once more right before. -/
inductive Repeats : Nat → List CallMade → List CallMade → Prop
  | nil : Repeats 0 [] []
  | once {n : Nat} {calls more : List CallMade} (c : CallMade) (rest : Repeats n calls more) :
      Repeats n (c :: calls) (c :: more)
  | again {n : Nat} {calls more : List CallMade} {c : CallMade}
      (rest : Repeats n (c :: calls) (c :: more)) : Repeats (n + 1) (c :: calls) (c :: c :: more)

section

variable {d : SagaDefinition} {steps : StepCall → StepReply} {n m : Nat} {l l' l'' : Ledger}
  {row row' changed changed' : Execution} {calls more made : List CallMade} {t : Transition}
  {call : StepCall} {c : CallMade}

theorem Repeats.append (front : List CallMade) (repeats : Repeats n calls more) :
    Repeats n (front ++ calls) (front ++ more) := by
  induction front with
  | nil => exact repeats
  | cons c front ih => exact .once c ih

theorem Repeats.head (repeats : Repeats n (c :: calls) more) : ∃ more', more = c :: more' := by
  cases repeats with
  | once c rest => exact ⟨_, rfl⟩
  | again rest => exact ⟨_, rfl⟩

namespace Course

theorem trans (first : Course d steps n l l') (second : Course d steps m l' l'') :
    Course d steps (n + m) l l'' := by
  induction first with
  | stay l =>
    rw [Nat.zero_add]
    exact second
  | stored now decides replies next rest ih => exact .stored now decides replies next (ih second)
  | lost asks rest ih =>
    rw [Nat.succ_add]
    exact .lost asks (ih second)

theorem calls_grow (course : Course d steps n l l') : ∃ later, l'.calls = l.calls ++ later := by
  induction course with
  | stay l => exact ⟨[], (List.append_nil _).symm⟩
  | @stored n row changed earlier calls made t l now decides replies next rest ih =>
    obtain ⟨later, split⟩ := ih
    exact ⟨made ++ later, split.trans (List.append_assoc _ _ _)⟩
  | @lost n row earlier calls call l asks rest ih =>
    obtain ⟨later, split⟩ := ih
    exact ⟨⟨call, steps call⟩ :: later, split.trans (List.append_assoc _ _ _)⟩

end Course

/-! ## Rows that differ in times only -/

theorem Execution.status_of_timeless (same : row.timeless = row'.timeless) :
    row.status = row'.status := by
  have status : row.timeless.status = row'.timeless.status := by rw [same]
  exact status

theorem Decides.timeless (decides : Decides d row made t) : Decides d row.timeless made t :=
  decides.noted

theorem AsksFor.timeless (asks : AsksFor d row call) : AsksFor d row.timeless call :=
  asks.noted

theorem Decides.unfinished (decides : Decides d row made t) : row.status.isTerminal = false := by
  cases decides with
  | begin status | cancel status | complete status => rw [status]; rfl
  | execute status | finish status | compensate status => rw [status]; rfl

theorem Transition.next_timeless (next : t.next row = .ok changed) :
    t.next row.timeless = .ok changed.timeless := by
  have frame := next_frame next
  simp only [Execution.frame, Execution.Frame.mk.injEq] at frame
  obtain ⟨-, -, -, asked, -, -, -, version⟩ := frame
  rw [Execution.timeless, next_noted, next, Execution.timeless, asked, version]
  rfl

theorem Execution.timeless_stored (now now' : Nat) (same : row.timeless = row'.timeless)
    (changedSame : changed.timeless = changed'.timeless) :
    ((changed.stamped now).replacing row).timeless =
      ((changed'.stamped now').replacing row').timeless := by
  have version : row.version = row'.version := by
    have version : row.timeless.version = row'.timeless.version := by rw [same]
    exact version
  have left : ((changed.stamped now).replacing row).timeless =
      { changed.timeless with version := wrapWord64 (row.version + 1) } := rfl
  have right : ((changed'.stamped now').replacing row').timeless =
      { changed'.timeless with version := wrapWord64 (row'.version + 1) } := rfl
  rw [left, right, changedSame, version]

theorem Ledger.Ended.of_same (ended : l.Ended)
    (same : l.rows.map (·.timeless) = l'.rows.map (·.timeless)) : l'.Ended := by
  obtain ⟨row, isHead, terminal⟩ := ended
  have heads := congrArg List.head? same
  rw [List.head?_map, List.head?_map, isHead] at heads
  obtain ⟨row', isHead', times⟩ := Option.map_eq_some_iff.1 heads.symm
  refine ⟨row', isHead', ?_⟩
  rw [Execution.status_of_timeless times]
  exact terminal

theorem not_ended {earlier : List Execution} (active : row.status.isTerminal = false) :
    ¬Ledger.Ended ⟨row :: earlier, calls⟩ := by
  rintro ⟨_, ⟨⟩, terminal⟩
  rw [active] at terminal
  cases terminal

/-! ## A course with lost calls against one without -/

/-- Where two ledgers have the same latest row, the next decision is the same one. -/
theorem Decides.same {made' : List CallMade} {t' : Transition} (decides : Decides d row made t)
    (decides' : Decides d row' made' t') (replies : ∀ c ∈ made, c.reply = steps c.call)
    (replies' : ∀ c ∈ made', c.reply = steps c.call) (same : row.timeless = row'.timeless) :
    made = made' ∧ t = t' := by
  have both := decides'.timeless
  rw [← same] at both
  apply decides.timeless.det both
  intro c inside c' inside' call
  rw [replies c inside, replies' c' inside', call]

namespace Course

/-- Both courses come to an end, and start in ledgers whose rows differ in times only. -/
theorem agree {l₁ l₁' l₂ l₂' : Ledger} (whole : Course d steps 0 l₁ l₁')
    (cut : Course d steps n l₂ l₂') (start : l₁.rows.map (·.timeless) = l₂.rows.map (·.timeless))
    (ended : l₁'.Ended) (ended' : l₂'.Ended) :
    l₁'.rows.map (·.timeless) = l₂'.rows.map (·.timeless) ∧
      ∃ calls more, l₁'.calls = l₁.calls ++ calls ∧ l₂'.calls = l₂.calls ++ more ∧
        Repeats n calls more := by
  induction cut generalizing l₁ with
  | stay l =>
    cases whole with
    | stay => exact ⟨start, [], [], (List.append_nil _).symm, (List.append_nil _).symm, .nil⟩
    | stored now decides => exact absurd (ended'.of_same start.symm) (not_ended decides.unfinished)
  | @stored n row₂ changed₂ earlier₂ calls₂ made₂ t₂ l₂ now₂ decides₂ replies₂ next₂ rest₂ ih =>
    cases whole with
    | stay => exact absurd (ended.of_same start) (not_ended decides₂.unfinished)
    | @stored _ row₁ changed₁ earlier₁ calls₁ made₁ t₁ _ now₁ decides₁ replies₁ next₁ rest₁ =>
      rw [List.map_cons, List.map_cons, List.cons.injEq] at start
      obtain ⟨rfl, rfl⟩ := decides₁.same decides₂ replies₁ replies₂ start.1
      have changed : changed₁.timeless = changed₂.timeless := by
        have next := Transition.next_timeless next₁
        rw [start.1, Transition.next_timeless next₂] at next
        exact (Except.ok.inj next).symm
      have level := Execution.timeless_stored now₁ now₂ start.1 changed
      obtain ⟨rows, calls, more, whole, cut, repeats⟩ :=
        ih rest₁ (by simp only [List.map_cons, start.1, start.2, level]) ended'
      refine ⟨rows, made₁ ++ calls, made₁ ++ more, ?_, ?_, repeats.append made₁⟩
      · rw [whole, List.append_assoc]
      · rw [cut, List.append_assoc]
  | @lost n row₂ earlier₂ calls₂ call l₂ asks rest₂ ih =>
    obtain ⟨rows, calls, more, isWhole, isCut, repeats⟩ := ih whole start ended'
    refine ⟨rows, calls, ⟨call, steps call⟩ :: more, isWhole, ?_, ?_⟩
    · rw [isCut, List.append_assoc]
      rfl
    -- The course without losses goes on from the same row, so it makes the lost call next.
    cases whole with
    | stay => exact absurd (ended.of_same start) (not_ended asks.unfinished)
    | @stored _ row₁ changed₁ earlier₁ calls₁ made₁ t₁ _ now₁ decides₁ replies₁ next₁ rest₁ =>
      rw [List.map_cons, List.map_cons, List.cons.injEq] at start
      obtain ⟨later, grown⟩ := rest₁.calls_grow
      have split : calls = made₁ ++ later := by
        rw [grown, List.append_assoc] at isWhole
        exact (List.append_cancel_left isWhole).symm
      have first : made₁ = [⟨call, steps call⟩] := by
        have decides := decides₁.timeless
        rw [start.1] at decides
        obtain ⟨c, inside, rfl⟩ := asks.timeless.exists_made decides
        rw [decides.eq_singleton inside, ← replies₁ c inside]
      rw [split, first] at repeats ⊢
      obtain ⟨more', rfl⟩ := Repeats.head repeats
      exact .again repeats

end Course

end

end SagaEngine
