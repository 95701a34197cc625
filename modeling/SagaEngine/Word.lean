/-!
# Words

Whole numbers cut to a fixed number of low bits, read with or without a sign. A
number that fits is read as it is, and what was written with a sign is read without
one as the same bits (`wrapWord32_wrapSigned32`).
-/

namespace SagaEngine

/-- The value of the low 64 bits, read with a sign. -/
def wrapSigned64 (n : Int) : Int := n.bmod 0x10000000000000000

/-- The value of the low 64 bits, read without a sign. -/
def wrapWord64 (n : Int) : Nat := (n % 0x10000000000000000).toNat

/-- The value of the low 32 bits, read with a sign. -/
def wrapSigned32 (n : Int) : Int := n.bmod 0x100000000

/-- The value of the low 32 bits, read without a sign. -/
def wrapWord32 (n : Int) : Nat := (n % 0x100000000).toNat

/-- The value of the low 8 bits, read without a sign. -/
def wrapByte (n : Int) : Nat := (n % 0x100).toNat

theorem wrapSigned32_of_inRange {n : Int} (low : -0x80000000 ≤ n) (high : n < 0x80000000) :
    wrapSigned32 n = n := by
  rw [wrapSigned32]
  exact Int.bmod_eq_of_le (by omega) (by omega)

theorem wrapSigned64_of_lt {n : Nat} (high : n < 0x8000000000000000) : wrapSigned64 n = n := by
  rw [wrapSigned64]
  exact Int.bmod_eq_of_le (by omega) (by omega)

theorem wrapWord32_of_inRange {n : Nat} (high : n < 0x100000000) : wrapWord32 n = n := by
  rw [wrapWord32]
  omega

theorem wrapWord64_of_inRange {n : Nat} (high : n < 0x10000000000000000) : wrapWord64 n = n := by
  rw [wrapWord64]
  omega

theorem wrapWord32_wrapSigned32 (n : Int) : wrapWord32 (wrapSigned32 n) = wrapWord32 n :=
  congrArg Int.toNat Int.bmod_emod

end SagaEngine
