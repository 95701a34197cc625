/-!
# Binary fractions

A finite float is `± m · 2 ^ q` with a whole `m`. A ratio of whole numbers is
rounded to the nearest float in exact arithmetic, a tie to the even neighbour,
and a finite float is written out without loss.
-/

namespace SagaEngine.BinaryFraction

/-- Two to the 52: the least mantissa of 53 bits. -/
def leastFull : Nat := 0x10000000000000

/-- The exponent of the smallest positive float. -/
def minExponent : Int := -1074

/-- `num / den / 2 ^ q`, as a ratio. -/
def scaled (num den : Nat) (q : Int) : Nat × Nat :=
  if 0 ≤ q then (num, den <<< q.toNat) else (num <<< (-q).toNat, den)

/-- The exponent at which the mantissa of a ratio has 53 bits, or the least one. -/
def exponentOf (num den : Nat) : Int :=
  let q : Int := (num.log2 : Int) - den.log2 - 53
  let (n, d) := scaled num den q
  max minExponent (if 2 * leastFull ≤ n / d then q + 1 else q)

/-- The nearest whole number to a ratio, a tie to the even one. -/
def roundHalfEven (num den : Nat) : Nat :=
  let m := num / den
  let rest := 2 * (num % den)
  if den < rest ∨ (rest = den ∧ m % 2 = 1) then m + 1 else m

/-- The float `m · 2 ^ q` for a mantissa of at most 53 bits, or infinity. -/
def compose (m : Nat) (q : Int) : Float :=
  if m < leastFull then Float.ofBits m.toUInt64
  else
    let field := (q + 1075).toNat
    if 2047 ≤ field + (m - leastFull) / leastFull then Float.ofBits 0x7ff0000000000000
    else Float.ofBits (field * leastFull + (m - leastFull)).toUInt64

/-- The float nearest to `num / den`. -/
def ofRatio (num den : Nat) : Float :=
  if num = 0 then 0.0
  else
    let q := exponentOf num den
    let (n, d) := scaled num den q
    compose (roundHalfEven n d) q

/-- The sign, mantissa and exponent of a finite float. -/
def parts? (x : Float) : Option (Bool × Nat × Int) :=
  let bits := x.toBits.toNat
  let negative := 0x8000000000000000 ≤ bits
  let field : Nat := bits / leastFull % 2048
  let fraction : Nat := bits % leastFull
  if field = 2047 then none
  else if field = 0 then some (negative, fraction, minExponent)
  else some (negative, fraction + leastFull, (field : Int) - 1075)

/-- The decimal text of a finite float, without loss. -/
def exactText? (x : Float) : Option String :=
  (parts? x).map fun (negative, m, q) =>
    let sign := if negative then "-" else ""
    if 0 ≤ q then sign ++ toString (m <<< q.toNat)
    else sign ++ toString (m * Nat.pow 5 (-q).toNat) ++ "e" ++ toString q

end SagaEngine.BinaryFraction
