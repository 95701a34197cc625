/-!
# Programs that ask questions

A program computes a value, fails, or asks its environment a question and goes on
with the answer. It does nothing by itself, so one program can be run against
any environment, interleaved with other programs, or cut off between two
questions. Main statements: `bind_assoc`, `run_bind` and `run_ensuring`.
-/

namespace SagaEngine

/-- A program over questions `Q` with answers `R`, failures `ε` and a value `α`. -/
inductive Program (Q : Type) (R : Q → Type) (ε : Type) (α : Type) where
  | done (value : α)
  | failed (failure : ε)
  | ask (question : Q) (next : R question → Program Q R ε α)

namespace Program

variable {Q : Type} {R : Q → Type} {ε α β γ σ : Type}

/-- Goes on with the value of a program. -/
def bind : Program Q R ε α → (α → Program Q R ε β) → Program Q R ε β
  | done value, f => f value
  | failed failure, _ => failed failure
  | ask question next, f => ask question fun answer => (next answer).bind f

instance : Monad (Program Q R ε) where
  pure := done
  bind := bind

def question (q : Q) : Program Q R ε (R q) := ask q done

/-- Turns a failure into a value. -/
def attempt : Program Q R ε α → Program Q R ε (Except ε α)
  | done value => done (.ok value)
  | failed failure => done (.error failure)
  | ask question next => ask question fun answer => (next answer).attempt

/-- Runs a closing program after another one, whether that one fails or not. -/
def ensuring : Program Q R ε α → Program Q R ε Unit → Program Q R ε α
  | done value, closing => closing.bind fun _ => done value
  | failed failure, closing => closing.bind fun _ => failed failure
  | ask question next, closing => ask question fun answer => (next answer).ensuring closing

/-- Takes a computed value or failure into a program. -/
def ofExcept : Except ε α → Program Q R ε α
  | .ok value => done value
  | .error failure => failed failure

/-- Runs a program against an environment with a state. -/
def run (environment : (q : Q) → σ → R q × σ) : Program Q R ε α → σ → Except ε α × σ
  | done value, s => (.ok value, s)
  | failed failure, s => (.error failure, s)
  | ask question next, s =>
    let (answer, s) := environment question s
    (next answer).run environment s

@[simp] theorem done_bind (value : α) (f : α → Program Q R ε β) :
    (done value : Program Q R ε α).bind f = f value := rfl

@[simp] theorem failed_bind (failure : ε) (f : α → Program Q R ε β) :
    (failed failure : Program Q R ε α).bind f = failed failure := rfl

@[simp] theorem bind_done (p : Program Q R ε α) : p.bind done = p := by
  induction p with
  | done => rfl
  | failed => rfl
  | ask q next ih => simp only [bind, ih]

theorem bind_assoc (p : Program Q R ε α) (f : α → Program Q R ε β) (g : β → Program Q R ε γ) :
    (p.bind f).bind g = p.bind fun value => (f value).bind g := by
  induction p with
  | done => rfl
  | failed => rfl
  | ask q next ih => simp only [bind, ih]

instance : LawfulMonad (Program Q R ε) :=
  LawfulMonad.mk' _ (fun p => bind_done p) (fun _ _ => rfl) (fun p f g => bind_assoc p f g)

/-- A run of two programs in a row is a run of the first and then of the second. -/
theorem run_bind (environment : (q : Q) → σ → R q × σ) (p : Program Q R ε α)
    (f : α → Program Q R ε β) (s : σ) :
    (p.bind f).run environment s =
      match p.run environment s with
      | (.ok value, s) => (f value).run environment s
      | (.error failure, s) => (.error failure, s) := by
  induction p generalizing s with
  | done => rfl
  | failed => rfl
  | ask q next ih => simp only [bind, run, ih]

theorem run_attempt (environment : (q : Q) → σ → R q × σ) (p : Program Q R ε α) (s : σ) :
    p.attempt.run environment s = (.ok (p.run environment s).1, (p.run environment s).2) := by
  induction p generalizing s with
  | done => rfl
  | failed => rfl
  | ask q next ih => simp only [attempt, run, ih]

/-- A closing program that does not fail leaves the result alone. -/
theorem run_ensuring (environment : (q : Q) → σ → R q × σ) (p : Program Q R ε α)
    (closing : Program Q R ε Unit) (s : σ)
    (h : ∀ s, (closing.run environment s).1 = .ok ()) :
    (p.ensuring closing).run environment s =
      ((p.run environment s).1, (closing.run environment (p.run environment s).2).2) := by
  induction p generalizing s with
  | done value =>
    have := h s
    simp only [ensuring, run_bind, run]
    split <;> simp_all
  | failed failure =>
    have := h s
    simp only [ensuring, run_bind, run]
    split <;> simp_all
  | ask q next ih => simp only [ensuring, run, ih]

end Program

end SagaEngine
