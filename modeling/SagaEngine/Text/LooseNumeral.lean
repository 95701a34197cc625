import SagaEngine.Text.BinaryFraction
import SagaEngine.Text.Numeral
/-!
# Loosely written numerals

The numerals of a plain scalar: blanks in front, either sign, a point with
digits on one side only, hexadecimal digits with a binary exponent, and the
names of infinity and of not-a-number in any case.
-/

namespace SagaEngine.LooseNumeral

/-- The blanks that may precede a numeral. -/
def isBlank (c : Char) : Bool :=
  c = ' ' || c = '\t' || c = '\n' || c = '\r' || c = '\x0b' || c = '\x0c'

/-- Splits off either sign. -/
def splitSign : List Char → Bool × List Char
  | '-' :: rest => (true, rest)
  | '+' :: rest => (false, rest)
  | rest => (false, rest)

/-- The exponent at the end of a numeral: nothing, or a letter and a whole number. -/
def exponent? (letter : Char) : List Char → Option Int
  | [] => some 0
  | c :: rest =>
    if c.toLower ≠ letter then none
    else
      let (negative, digits) := splitSign rest
      if digits.isEmpty || !digits.all Char.isDigit then none
      else
        let n : Int := Numeral.digitsValue digits
        some (if negative then -n else n)

/-- Splits digits with at most one point among them: the digits before and after
it, and the rest. -/
def splitPoint (isDigit : Char → Bool) (cs : List Char) : List Char × List Char × List Char :=
  let whole := cs.takeWhile isDigit
  match cs.dropWhile isDigit with
  | '.' :: rest => (whole, rest.takeWhile isDigit, rest.dropWhile isDigit)
  | rest => (whole, [], rest)

/-- A decimal numeral without its sign. -/
def decimal? (cs : List Char) : Option Float :=
  let (whole, fraction, rest) := splitPoint Char.isDigit cs
  if whole.isEmpty && fraction.isEmpty then none
  else
    (exponent? 'e' rest).map fun e =>
      Numeral.toFloat ⟨false, Numeral.digitsValue (whole ++ fraction), e - fraction.length⟩

/-- A binary exponent beyond which nothing but zero or infinity is left. -/
def exponentBound : Int := 100000

/-- A hexadecimal numeral after its sign and its mark. -/
def hexadecimal? (cs : List Char) : Option Float :=
  let (whole, fraction, rest) := splitPoint (fun c => (Numeral.hexValue? c).isSome) cs
  if whole.isEmpty && fraction.isEmpty then none
  else
    (exponent? 'p' rest).map fun e =>
      let m := ((whole ++ fraction).filterMap Numeral.hexValue?).foldl (fun n d => 16 * n + d) 0
      let q : Int := e - 4 * fraction.length
      if m = 0 then 0.0
      else if exponentBound < q then 1.0 / 0.0
      else if q < -exponentBound then 0.0
      else if 0 ≤ q then BinaryFraction.ofRatio (m <<< q.toNat) 1
      else BinaryFraction.ofRatio m (1 <<< (-q).toNat)

/-- The names of what is not finite. -/
def named? (cs : List Char) : Option Float :=
  let lower := cs.map Char.toLower
  if lower = "inf".toList ∨ lower = "infinity".toList then some (1.0 / 0.0)
  else if lower = "nan".toList then some (0.0 / 0.0)
  else if lower.take 4 = "nan(".toList ∧ lower.getLast? = some ')' ∧
      ((lower.drop 4).dropLast.all fun c => c.isAlphanum || c = '_') then some (0.0 / 0.0)
  else none

/-- A numeral without blanks and sign. -/
def unsigned? (cs : List Char) : Option Float :=
  match cs with
  | '0' :: 'x' :: rest => hexadecimal? rest
  | '0' :: 'X' :: rest => hexadecimal? rest
  | _ => (decimal? cs).or (named? cs)

/-- Reads a text that is one numeral from end to end. -/
def ofChars? (cs : List Char) : Option Float :=
  let (negative, rest) := splitSign (cs.dropWhile isBlank)
  (unsigned? rest).map fun x => if negative then -x else x

end SagaEngine.LooseNumeral
