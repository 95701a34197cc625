import SagaEngine.Text.BinaryFraction
/-!
# Decimal numerals

A numeral is a sign, a whole mantissa and a power of ten. It is read from text
exactly and only then turned into a whole number or a binary fraction.
-/

namespace SagaEngine

/-- The number `± mantissa · 10 ^ exponent`; the sign of zero is kept. -/
structure Numeral where
  negative : Bool
  mantissa : Nat
  exponent : Int
  deriving DecidableEq, Repr, Inhabited

namespace Numeral

/-- Splits off the leading decimal digits. -/
def splitDigits (cs : List Char) : List Char × List Char :=
  (cs.takeWhile Char.isDigit, cs.dropWhile Char.isDigit)

/-- The value of a digit in base sixteen. -/
def hexValue? (c : Char) : Option Nat :=
  if '0' ≤ c ∧ c ≤ '9' then some (c.toNat - '0'.toNat)
  else if 'a' ≤ c ∧ c ≤ 'f' then some (c.toNat - 'a'.toNat + 10)
  else if 'A' ≤ c ∧ c ≤ 'F' then some (c.toNat - 'A'.toNat + 10)
  else none

/-- The number that decimal digits denote. -/
def digitsValue (cs : List Char) : Nat :=
  cs.foldl (fun n c => 10 * n + (c.toNat - '0'.toNat)) 0

/-- Splits off an exponent: a letter, an optional sign and at least one digit. -/
def splitExponent : List Char → Option (Int × List Char)
  | e :: rest =>
    if e = 'e' ∨ e = 'E' then
      let (sign, rest) : Int × List Char := match rest with
        | '-' :: tail => (-1, tail)
        | '+' :: tail => (1, tail)
        | _ => (1, rest)
      match splitDigits rest with
      | ([], _) => none
      | (digits, tail) => some (sign * digitsValue digits, tail)
    else none
  | [] => none

def splitSign : List Char → Bool × List Char
  | '-' :: rest => (true, rest)
  | rest => (false, rest)

/-- Splits a numeral off the front: an optional minus, a whole part without
superfluous zeros, an optional fraction and an optional exponent. The second
component is the text of the numeral and the third the text after it. -/
def split? (cs : List Char) : Option (Numeral × List Char × List Char) :=
  let (negative, afterSign) := splitSign cs
  match splitDigits afterSign with
  | ([], _) => none
  | (whole, afterWhole) =>
    if whole.length > 1 ∧ whole.head? = some '0' then none
    else
      let fraction? : Option (List Char × List Char) := match afterWhole with
        | '.' :: rest =>
          match splitDigits rest with
          | ([], _) => none
          | (digits, tail) => some (digits, tail)
        | rest => some ([], rest)
      match fraction? with
      | none => none
      | some (fraction, afterFraction) =>
        let exponent? : Option (Int × List Char) := match afterFraction with
          | 'e' :: _ => splitExponent afterFraction
          | 'E' :: _ => splitExponent afterFraction
          | rest => some (0, rest)
        match exponent? with
        | none => none
        | some (exponent, tail) =>
          let numeral : Numeral :=
            ⟨negative, digitsValue (whole ++ fraction), exponent - fraction.length⟩
          some (numeral, cs.take (cs.length - tail.length), tail)

/-- Reads a text that is one numeral from end to end. -/
def ofText? (text : String) : Option Numeral :=
  match split? text.toList with
  | some (numeral, _, []) => some numeral
  | _ => none

/-- How many decimal digits the mantissa has at most. -/
def digitBound (n : Numeral) : Nat := n.mantissa.log2 + 1

/-- The whole number a numeral denotes, if it is whole. Numerals far outside
every fixed-width range count as not whole, so the answer stays small. -/
def whole? (n : Numeral) : Option Int :=
  if n.mantissa = 0 then some 0
  else if 0 ≤ n.exponent then
    if n.exponent ≤ 400 then
      let magnitude : Int := (n.mantissa * Nat.pow 10 n.exponent.toNat : Nat)
      some (if n.negative then -magnitude else magnitude)
    else none
  else
    let shift := (-n.exponent).toNat
    if n.digitBound < shift then none
    else if n.mantissa % Nat.pow 10 shift = 0 then
      let magnitude : Int := (n.mantissa / Nat.pow 10 shift : Nat)
      some (if n.negative then -magnitude else magnitude)
    else none

/-- The nearest binary fraction. -/
def toFloat (n : Numeral) : Float :=
  let magnitude :=
    if n.mantissa = 0 then 0.0
    else if n.exponent + n.digitBound < -400 then 0.0
    else if 400 < n.exponent then 1.0 / 0.0
    else if n.exponent < 0 then BinaryFraction.ofRatio n.mantissa (Nat.pow 10 (-n.exponent).toNat)
    else BinaryFraction.ofRatio (n.mantissa * Nat.pow 10 n.exponent.toNat) 1
  if n.negative then -magnitude else magnitude

end Numeral

end SagaEngine
