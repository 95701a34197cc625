/-!
# Values under fresh numbers

A collection that hands out a new number for every value added to it. A number
is never handed out twice. Main statements: `get?_set`, `get?_erase` and
`get?_add`.
-/

namespace SagaEngine

/-- Values under numbers; `next` is the number of the next value added. -/
structure Numbered (α : Type u) where
  next : Nat := 0
  entries : List (Nat × α) := []
  deriving Repr

namespace Numbered

variable {α : Type u}

instance : Inhabited (Numbered α) := ⟨{}⟩

/-- The value under a number. -/
def get? (c : Numbered α) (n : Nat) : Option α :=
  (c.entries.find? (fun e => e.1 = n)).map (·.2)

/-- Forgets the value under a number. -/
def erase (c : Numbered α) (n : Nat) : Numbered α :=
  { c with entries := c.entries.filter (fun e => e.1 ≠ n) }

/-- Forgets the values under the numbers that do not satisfy a condition. -/
def filter (c : Numbered α) (keep : Nat → Bool) : Numbered α :=
  { c with entries := c.entries.filter (fun e => keep e.1) }

/-- Puts a value under a number. -/
def set (c : Numbered α) (n : Nat) (value : α) : Numbered α :=
  { c with entries := (n, value) :: (c.erase n).entries }

/-- Puts a value under a new number. -/
def add (c : Numbered α) (value : α) : Nat × Numbered α :=
  (c.next, { next := c.next + 1, entries := (c.next, value) :: c.entries })

theorem get?_erase (c : Numbered α) (n other : Nat) :
    (c.erase n).get? other = if other = n then none else c.get? other := by
  unfold erase get?
  rw [List.find?_filter]
  by_cases h : other = n
  · subst h
    simp
  · simp only [h, if_false]
    congr 2
    funext e
    by_cases he : e.1 = other <;> simp [he, h]

theorem get?_set (c : Numbered α) (n other : Nat) (value : α) :
    (c.set n value).get? other = if other = n then some value else c.get? other := by
  by_cases h : other = n
  · simp [set, get?, h]
  · have := get?_erase c n other
    simp only [h, if_false] at this ⊢
    rw [← this]
    simp [set, get?, Ne.symm h]

theorem get?_add (c : Numbered α) (other : Nat) (value : α) :
    (c.add value).2.get? other = if other = c.next then some value else c.get? other := by
  by_cases h : other = c.next
  · simp [add, get?, h]
  · simp [add, get?, h, Ne.symm h]

end Numbered

end SagaEngine
