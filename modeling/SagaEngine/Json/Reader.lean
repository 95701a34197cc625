import SagaEngine.Json.Value
import SagaEngine.Text.Numeral
/-!
# Reading JSON

The reader accepts exactly one value with blanks around it. Strings refuse raw
control codes below 0x20, unknown escapes and lone surrogates. The nesting of a
text is bounded by its length, which is the measure of the recursion.
-/

namespace SagaEngine.Json

/-- The code unit that four hexadecimal digits denote. -/
def unit? (a b c d : Char) : Option Nat := do
  let a ← Numeral.hexValue? a
  let b ← Numeral.hexValue? b
  let c ← Numeral.hexValue? c
  let d ← Numeral.hexValue? d
  return ((a * 16 + b) * 16 + c) * 16 + d

/-- The character behind a one-letter escape. -/
def unescape? (c : Char) : Option Char :=
  match c with
  | '"' => some '"'
  | '\\' => some '\\'
  | '/' => some '/'
  | 'b' => some '\x08'
  | 'f' => some '\x0c'
  | 'n' => some '\n'
  | 'r' => some '\r'
  | 't' => some '\t'
  | _ => none

/-- The rest of a string after its opening quote: its characters and what
follows the closing quote. -/
def readChars : List Char → Option (List Char × List Char)
  | [] => none
  | '"' :: rest => some ([], rest)
  | '\\' :: 'u' :: a :: b :: c :: d :: rest =>
    match unit? a b c d with
    | none => none
    | some high =>
      if 0xd800 ≤ high ∧ high < 0xdc00 then
        match rest with
        | '\\' :: 'u' :: e :: f :: g :: h :: tail =>
          match unit? e f g h with
          | none => none
          | some low =>
            if 0xdc00 ≤ low ∧ low < 0xe000 then
              let code := 0x10000 + (high - 0xd800) * 0x400 + (low - 0xdc00)
              (readChars tail).map fun r => (Char.ofNat code :: r.1, r.2)
            else none
        | _ => none
      else if 0xdc00 ≤ high ∧ high < 0xe000 then none
      else (readChars rest).map fun r => (Char.ofNat high :: r.1, r.2)
  | '\\' :: c :: rest =>
    match unescape? c with
    | none => none
    | some plain => (readChars rest).map fun r => (plain :: r.1, r.2)
  | c :: rest =>
    if c.toNat < 0x20 then none
    else (readChars rest).map fun r => (c :: r.1, r.2)

/-- The characters that may stand between tokens. -/
def isBlank (c : Char) : Bool := c = ' ' || c = '\t' || c = '\n' || c = '\r'

/-- Drops leading blanks. -/
def skipBlanks (cs : List Char) : List Char := cs.dropWhile isBlank

/-- A text that must stand at the front. -/
def afterLiteral? : List Char → List Char → Option (List Char)
  | [], rest => some rest
  | _ :: _, [] => none
  | l :: ls, c :: cs => if l = c then afterLiteral? ls cs else none

mutual

/-- Reads a value whose first character is not blank; the first argument bounds
the nesting. -/
def readValue : Nat → List Char → Option (Json × List Char)
  | 0, _ => none
  | depth + 1, cs =>
    match cs with
    | '"' :: rest => (readChars rest).map fun r => (.string (String.ofList r.1), r.2)
    | '[' :: rest =>
      match skipBlanks rest with
      | ']' :: tail => some (.array [], tail)
      | first => (readItems depth first).map fun r => (.array r.1, r.2)
    | '\x7b' :: rest =>
      match skipBlanks rest with
      | '\x7d' :: tail => some (.object [], tail)
      | first => (readMembers depth first).map fun r => (.object r.1, r.2)
    | 't' :: rest => (afterLiteral? "rue".toList rest).map fun r => (.bool true, r)
    | 'f' :: rest => (afterLiteral? "alse".toList rest).map fun r => (.bool false, r)
    | 'n' :: rest => (afterLiteral? "ull".toList rest).map fun r => (.null, r)
    | _ => (Numeral.split? cs).map fun r => (.number (String.ofList r.2.1), r.2.2)

/-- Reads the items of an array from the first one to the closing bracket. -/
def readItems : Nat → List Char → Option (List Json × List Char)
  | 0, _ => none
  | depth + 1, cs =>
    match readValue depth cs with
    | none => none
    | some (item, rest) =>
      match skipBlanks rest with
      | ']' :: tail => some ([item], tail)
      | ',' :: tail => (readItems depth (skipBlanks tail)).map fun r => (item :: r.1, r.2)
      | _ => none

/-- Reads the members of an object from the first one to the closing brace. -/
def readMembers : Nat → List Char → Option (List (String × Json) × List Char)
  | 0, _ => none
  | depth + 1, cs =>
    match cs with
    | '"' :: rest =>
      match readChars rest with
      | none => none
      | some (name, afterName) =>
        match skipBlanks afterName with
        | ':' :: beforeValue =>
          match readValue depth (skipBlanks beforeValue) with
          | none => none
          | some (value, afterValue) =>
            let entry := (String.ofList name, value)
            match skipBlanks afterValue with
            | '\x7d' :: tail => some ([entry], tail)
            | ',' :: tail =>
              (readMembers depth (skipBlanks tail)).map fun r => (entry :: r.1, r.2)
            | _ => none
        | _ => none
    | _ => none

end

/-- Reads a text that is one value from end to end. -/
def read? (text : String) : Option Json :=
  let cs := text.toList
  match readValue (cs.length + 1) (skipBlanks cs) with
  | some (value, rest) => if (skipBlanks rest).isEmpty then some value else none
  | none => none

end SagaEngine.Json
