import SagaEngine.Text.Numeral
/-!
# Percent-coded text

A percent sign with two hexadecimal digits behind it stands for the byte which the
digits denote, and any other character for itself. A zero byte ends a text. Main
statement: `percentBytes_of_notMem`, text without a percent sign stands for itself.
-/

namespace SagaEngine

/-- The byte that two hexadecimal digits denote. -/
def hexByte? (high low : Char) : Option UInt8 := do
  return UInt8.ofNat (16 * (← Numeral.hexValue? high) + (← Numeral.hexValue? low))

/-- The bytes that a percent-coded text stands for. -/
def percentBytes : List Char → List UInt8
  | '%' :: high :: low :: rest =>
    match hexByte? high low with
    | some byte => byte :: percentBytes rest
    | none => String.utf8EncodeChar '%' ++ percentBytes (high :: low :: rest)
  | c :: rest => String.utf8EncodeChar c ++ percentBytes rest
  | [] => []

theorem percentBytes_of_notMem {cs : List Char} (h : '%' ∉ cs) :
    percentBytes cs = cs.flatMap String.utf8EncodeChar := by
  induction cs with
  | nil => rfl
  | cons c rest ih =>
    rw [List.mem_cons, not_or] at h
    rw [percentBytes, ih h.2, List.flatMap_cons]
    intro _ _ _ hc
    exact absurd hc.symm h.1

/-- The text of some bytes. Bytes that are no text give a replacement character
each. -/
def textOfBytes (bytes : List UInt8) : String :=
  (String.fromUTF8? ⟨bytes.toArray⟩).getD (String.ofList (bytes.map fun _ => '\ufffd'))

/-- What a percent-coded text stands for, up to the first zero. -/
def percentDecoded (cs : List Char) : String :=
  textOfBytes ((percentBytes cs).takeWhile fun byte => byte != 0)

end SagaEngine
