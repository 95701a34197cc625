import SagaEngine.Json.Value
import SagaEngine.Text.Numeral
import SagaEngine.Word
/-!
# Durations and instants

A duration is a count of seconds and of nanoseconds of the same sign. It is
resolved to milliseconds through a count of nanoseconds held in a signed word of
64 bits, and compared, when a configuration is checked, without that detour.
-/

namespace SagaEngine

/-- A span of time. -/
structure Duration where
  seconds : Int
  nanos : Int
  deriving DecidableEq, Repr, Inhabited

namespace Duration

/-- The longest span that a text may carry, in seconds. -/
def maxSeconds : Nat := 315576000000

/-- Whole milliseconds, cut toward zero; the zero duration means the fallback. -/
def toMillis (d : Duration) (fallback : Int) : Int :=
  if d.seconds = 0 ∧ d.nanos = 0 then fallback
  else (wrapSigned64 (d.seconds * 1000000000 + d.nanos)).tdiv 1000000

/-- `toMillis` of a duration that may be absent. -/
def resolve (d? : Option Duration) (fallback : Int) : Int :=
  match d? with
  | some d => d.toMillis fallback
  | none => fallback

/-- The milliseconds by which configured durations are compared. -/
def comparedMillis (d : Duration) : Int := d.seconds * 1000 + d.nanos.tdiv 1000000

/-- Reads `S[.F]s` with an optional minus: one to twelve digits of seconds and
one to nine digits of a fraction. -/
def ofText? (text : String) : Option Duration :=
  let (negative, afterSign) := Numeral.splitSign text.toList
  let (whole, afterWhole) := Numeral.splitDigits afterSign
  let fraction? : Option (List Char) := match afterWhole with
    | ['s'] => some []
    | '.' :: rest =>
      match Numeral.splitDigits rest with
      | ([], _) => none
      | (digits, ['s']) => if digits.length ≤ 9 then some digits else none
      | _ => none
    | _ => none
  match fraction? with
  | none => none
  | some fraction =>
    if whole.isEmpty ∨ 12 < whole.length then none
    else
      let seconds := Numeral.digitsValue whole
      let nanos := Numeral.digitsValue (fraction ++ List.replicate (9 - fraction.length) '0')
      if maxSeconds < seconds then none
      else some (if negative then ⟨-seconds, -nanos⟩ else ⟨seconds, nanos⟩)

/-- Reads a duration from its text. -/
def ofJson? : Json → Option Duration
  | .string text => ofText? text
  | _ => none

end Duration

namespace Instant

/-- The nanoseconds since the epoch of a count of milliseconds, in a signed word
of 64 bits. -/
def ofUnixMillis (millis : Nat) : Int := wrapSigned64 (millis * 1000000)

/-- The milliseconds since the epoch, cut toward zero, in a word of 64 bits. -/
def toUnixMillis (nanos : Int) : Nat := wrapWord64 (nanos.tdiv 1000000)

end Instant

end SagaEngine
