/-!
# Text that ends at a zero code

Some surroundings hand text on up to its first zero code only: a database
engine, the wording of an error, the name of a file. Main statements:
`untilZero_idem` and `untilZero_eq_self_iff`.
-/

namespace SagaEngine

/-- The characters in front of the first zero code. -/
def charsUntilZero (cs : List Char) : List Char := cs.takeWhile (fun c => c != '\x00')

/-- A text up to its first zero code. -/
def untilZero (s : String) : String := String.ofList (charsUntilZero s.toList)

/-- Whether a text has a zero code in it. -/
def hasZero (s : String) : Bool := s.toList.contains '\x00'

theorem charsUntilZero_of_notMem {cs : List Char} (h : '\x00' ∉ cs) : charsUntilZero cs = cs := by
  induction cs with
  | nil => rfl
  | cons c rest ih =>
    rw [List.mem_cons, not_or] at h
    have hc : c ≠ '\x00' := fun e => h.1 e.symm
    have := ih h.2
    simp only [charsUntilZero] at this ⊢
    simp [hc, this]

theorem zero_notMem_charsUntilZero (cs : List Char) : '\x00' ∉ charsUntilZero cs := by
  induction cs with
  | nil => simp [charsUntilZero]
  | cons c rest ih =>
    simp only [charsUntilZero] at ih ⊢
    by_cases hc : c = '\x00'
    · simp [hc]
    · have : '\x00' ≠ c := fun e => hc e.symm
      simp [hc, ih, this]

/-- Cutting a text twice is cutting it once. -/
theorem untilZero_idem (s : String) : untilZero (untilZero s) = untilZero s := by
  simp only [untilZero, String.toList_ofList]
  rw [charsUntilZero_of_notMem (zero_notMem_charsUntilZero _)]

/-- Exactly the texts without a zero code are left alone. -/
theorem untilZero_eq_self_iff (s : String) : untilZero s = s ↔ '\x00' ∉ s.toList := by
  constructor
  · intro h hc
    apply zero_notMem_charsUntilZero s.toList
    rw [← h] at hc
    simpa [untilZero] using hc
  · intro h
    simp [untilZero, charsUntilZero_of_notMem h]

end SagaEngine
