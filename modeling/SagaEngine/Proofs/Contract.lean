import SagaEngine.Engine.Program
/-!
# Programs among others

A contract says what others may do to the state between two requests of a program,
how a request is answered and changes the state, and what the program may do with
that. A program ensures a postcondition if it keeps its side of the contract against
all that the others may do. Main statements: `Ensures.bind`, `Ensures.mono`,
`Ensures.ensuring` and `Ensures.drift`.
-/

namespace SagaEngine

/-- What a program relies on and what it has to guarantee. -/
structure Contract (Q : Type) (R : Q → Type) (S : Type) where
  drifts : S → S → Prop
  answers : S → (q : Q) → R q → S → Prop
  permits : S → (q : Q) → R q → S → Prop
  trans : ∀ {s₁ s₂ s₃ : S}, drifts s₁ s₂ → drifts s₂ s₃ → drifts s₁ s₃

section

variable {Q : Type} {R : Q → Type} {ε α β S : Type} {c : Contract Q R S}

/-- Whatever others do between the requests, a program makes permitted requests only and ends,
if it ends, in a state with the postcondition. -/
def Ensures (c : Contract Q R S) (post : Except ε α → S → Prop) : Program Q R ε α → S → Prop
  | .done value, s => post (.ok value) s
  | .failed failure, s => post (.error failure) s
  | .ask q next, s =>
    ∀ s₁, c.drifts s s₁ → ∀ answer s₂, c.answers s₁ q answer s₂ →
      c.permits s₁ q answer s₂ ∧ Ensures c post (next answer) s₂

namespace Ensures

theorem mono {p : Program Q R ε α} {post weaker : Except ε α → S → Prop} {s : S}
    (ensures : Ensures c post p s) (weaken : ∀ r s, post r s → weaker r s) :
    Ensures c weaker p s := by
  induction p generalizing s with
  | done value => exact weaken _ _ ensures
  | failed failure => exact weaken _ _ ensures
  | ask q next ih =>
    intro s₁ drift answer s₂ answered
    obtain ⟨permitted, rest⟩ := ensures s₁ drift answer s₂ answered
    exact ⟨permitted, ih answer rest⟩

theorem bind {p : Program Q R ε α} {f : α → Program Q R ε β} {post : Except ε β → S → Prop} {s : S}
    (first : Ensures c (fun r s =>
      match r with
      | .ok value => Ensures c post (f value) s
      | .error failure => post (.error failure) s) p s) :
    Ensures c post (p >>= f) s := by
  induction p generalizing s with
  | done value => exact first
  | failed failure => exact first
  | ask q next ih =>
    intro s₁ drift answer s₂ answered
    obtain ⟨permitted, rest⟩ := first s₁ drift answer s₂ answered
    exact ⟨permitted, ih answer rest⟩

theorem ensuring {p : Program Q R ε α} {closing : Program Q R ε Unit}
    {post : Except ε α → S → Prop} {s : S}
    (first : Ensures c (fun r s => Ensures c (fun closed s =>
      match closed with
      | .ok _ => post r s
      | .error failure => post (.error failure) s) closing s) p s) :
    Ensures c post (p.ensuring closing) s := by
  induction p generalizing s with
  | done value =>
    have closed : Ensures c _ closing s := first
    refine bind (f := fun _ => .done value) (closed.mono ?_)
    intro r s h
    cases r <;> exact h
  | failed failure =>
    have closed : Ensures c _ closing s := first
    refine bind (f := fun _ => .failed failure) (closed.mono ?_)
    intro r s h
    cases r <;> exact h
  | ask q next ih =>
    intro s₁ drift answer s₂ answered
    obtain ⟨permitted, rest⟩ := first s₁ drift answer s₂ answered
    exact ⟨permitted, ih answer rest⟩

/-- Failing is as good as any other result where it is attempted only. -/
theorem attempt {p : Program Q R ε α} {post : Except ε (Except ε α) → S → Prop} {s : S}
    (ensures : Ensures c (fun r s => post (.ok r) s) p s) : Ensures c post p.attempt s := by
  induction p generalizing s with
  | done value => exact ensures
  | failed failure => exact ensures
  | ask q next ih =>
    intro s₁ drift answer s₂ answered
    obtain ⟨permitted, rest⟩ := ensures s₁ drift answer s₂ answered
    exact ⟨permitted, ih answer rest⟩

theorem question {q : Q} {post : Except ε (R q) → S → Prop} {s : S}
    (answered : ∀ s₁, c.drifts s s₁ → ∀ answer s₂, c.answers s₁ q answer s₂ →
      c.permits s₁ q answer s₂ ∧ post (.ok answer) s₂) :
    Ensures c post (Program.question q) s := answered

theorem ofExcept {value : Except ε α} {post : Except ε α → S → Prop} {s : S}
    (holds : post value s) : Ensures c post (Program.ofExcept value) s := by
  cases value <;> exact holds

/-- What a program ensures it still ensures after others did something. -/
theorem drift {p : Program Q R ε α} {post : Except ε α → S → Prop} {s s' : S}
    (ensures : Ensures c post p s) (drifted : c.drifts s s')
    (stable : ∀ r, post r s → post r s') : Ensures c post p s' := by
  cases p with
  | done value => exact stable _ ensures
  | failed failure => exact stable _ ensures
  | ask q next =>
    intro s₁ further answer s₂ answered
    exact ensures s₁ (c.trans drifted further) answer s₂ answered

end Ensures

end

end SagaEngine
