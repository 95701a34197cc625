/-!
# Tallies

How often each of several things was counted. Main statement: `count_add`.
-/

namespace SagaEngine

/-- Things with how often they were counted. -/
structure Tally (α : Type u) where
  entries : List (α × Nat) := []
  deriving Repr

namespace Tally

variable {α : Type u} [DecidableEq α]

instance : Inhabited (Tally α) := ⟨{}⟩

/-- How often something was counted. -/
def count (t : Tally α) (x : α) : Nat :=
  ((t.entries.find? (fun e => e.1 = x)).map (·.2)).getD 0

/-- Counts something once more. -/
def add (t : Tally α) (x : α) : Tally α where
  entries := (x, t.count x + 1) :: t.entries.filter (fun e => e.1 ≠ x)

theorem count_empty (x : α) : ({} : Tally α).count x = 0 := rfl

theorem count_add (t : Tally α) (x y : α) :
    (t.add x).count y = t.count y + if y = x then 1 else 0 := by
  by_cases h : y = x
  · simp [add, count, h]
  · have hx : x ≠ y := fun e => h e.symm
    simp only [add, count, List.find?_cons, hx, decide_false, List.find?_filter, h, if_false,
      Nat.add_zero]
    congr 3
    funext e
    by_cases he : e.1 = y <;> simp [he, h]

end Tally

end SagaEngine
