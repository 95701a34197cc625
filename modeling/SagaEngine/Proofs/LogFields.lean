import SagaEngine.Telemetry.Recorder
import Mathlib.Data.List.Basic
/-!
# The fields of a log line read back

Some values stand in a line as they are and others in quotes, and the first character tells which:
no value that stands as it is has a quote in it. A value as it is ends at the next space and a
quoted one at the first quote that is not escaped, so the fields of a line can be read off one after
another. Main statements: `readFields?_appended` and `field_quoting_unambiguous`.
-/

namespace SagaEngine

namespace LogField

/-! ## Reading fields -/

/-- What stands in front of the closing quote, and the text after that. -/
def unquote : List Char → Option (List Char × List Char)
  | [] => none
  | '"' :: rest => some ([], rest)
  | '\\' :: c :: rest => (unquote rest).map fun (value, rest) => (c :: value, rest)
  | c :: rest => (unquote rest).map fun (value, rest) => (c :: value, rest)

def readValue? : List Char → Option (List Char × List Char)
  | '"' :: rest => unquote rest
  | text => some (text.takeWhile (· ≠ ' '), text.dropWhile (· ≠ ' '))

def readField? : List Char → Option (LogField × List Char)
  | ' ' :: text =>
    match text.dropWhile (· ≠ '=') with
    | [] => none
    | _ :: rest =>
      (readValue? rest).map fun (value, rest) =>
        (⟨String.ofList (text.takeWhile (· ≠ '=')), String.ofList value⟩, rest)
  | _ => none

theorem unquote_shorter {text value rest : List Char} (read : unquote text = some (value, rest)) :
    rest.length < text.length := by
  induction text using unquote.induct generalizing value rest with
  | case1 => cases read
  | case2 tail =>
    cases read
    simp
  | case3 c tail ih | case4 c tail _ _ ih =>
    simp only [unquote, Option.map_eq_some_iff] at read
    obtain ⟨⟨value, rest⟩, read, same⟩ := read
    cases same
    have shorter := ih read
    simp only [List.length_cons]
    omega

theorem readValue?_shorter {text value rest : List Char}
    (read : readValue? text = some (value, rest)) : rest.length ≤ text.length := by
  unfold readValue? at read
  split at read
  · have shorter := unquote_shorter read
    simp only [List.length_cons]
    omega
  · cases read
    exact (List.dropWhile_suffix _).length_le

theorem readField?_shorter {text rest : List Char} {f : LogField}
    (read : readField? text = some (f, rest)) : rest.length < text.length := by
  unfold readField? at read
  split at read
  · rename_i tail
    split at read
    · cases read
    · rename_i c afterKey found
      simp only [Option.map_eq_some_iff] at read
      obtain ⟨⟨value, rest⟩, read, same⟩ := read
      cases same
      have shorter := readValue?_shorter read
      have suffix := (List.dropWhile_suffix (l := tail) (· ≠ '=')).length_le
      rw [found] at suffix
      simp only [List.length_cons] at suffix ⊢
      omega
  · cases read

/-- The fields that stand in a text, one after another. -/
def readFields? : List Char → Option (List LogField)
  | [] => some []
  | c :: text =>
    match read : readField? (c :: text) with
    | none => none
    | some (f, rest) =>
      have := Nat.le_of_lt_succ (readField?_shorter read)
      (readFields? rest).map (f :: ·)
  termination_by text => text.length

/-- A field after the first is behind a space. -/
def Separated (rest : List Char) : Prop := ∀ c, rest.head? = some c → c = ' '

section

variable {fields others : List LogField} {value rest : List Char}

theorem separated_appended (fields : List LogField) : Separated (appended fields) := by
  cases fields with
  | nil => nofun
  | cons f fields =>
    intro c head
    cases head
    rfl

/-! ## Values -/

/-- Between quotes only a quote and a backslash are more than they seem. -/
theorem unquote_escape (value rest : List Char) :
    unquote (value.flatMap escape ++ '"' :: rest) = some (value, rest) := by
  induction value with
  | nil => rfl
  | cons c value ih =>
    rw [List.flatMap_cons, List.append_assoc]
    by_cases quote : c = '"'
    · simp [quote, escape, unquote, ih]
    by_cases backslash : c = '\\'
    · simp [backslash, escape, unquote, ih]
    have plain : escape c = [c] := if_neg (by simp [quote, backslash])
    rw [plain, List.singleton_append, unquote, ih]
    · rfl
    · exact quote
    · intro c' rest' escapes
      exact absurd escapes backslash

theorem readValue?_raw (nonempty : value ≠ []) (raw : ∀ c ∈ value, isSpecial c = false)
    (separated : Separated rest) : readValue? (value ++ rest) = some (value, rest) := by
  have inside : ∀ c ∈ value, decide (c ≠ ' ') = true := by
    intro c member
    apply decide_eq_true
    intro space
    have special := raw c member
    simp [space, isSpecial] at special
  obtain ⟨c, tail, rfl⟩ := List.exists_cons_of_ne_nil nonempty
  have unquoted : c ≠ '"' := by
    intro quote
    have special := raw c List.mem_cons_self
    simp [quote, isSpecial] at special
  have stops : rest.takeWhile (· ≠ ' ') = [] ∧ rest.dropWhile (· ≠ ' ') = rest := by
    cases rest with
    | nil => exact ⟨rfl, rfl⟩
    | cons c rest => simp [separated c rfl]
  rw [List.cons_append, readValue?]
  · rw [← List.cons_append, List.takeWhile_append_of_pos inside, stops.1, List.append_nil,
      List.dropWhile_append_of_pos inside, stops.2]
  · intro text same
    exact unquoted (List.cons.inj same).1

theorem readValue?_encodeValue (value : List Char) (separated : Separated rest) :
    readValue? (encodeValue value ++ rest) = some (value, rest) := by
  unfold encodeValue
  split
  · rename_i raw
    simp only [Bool.and_eq_true, Bool.not_eq_true', List.isEmpty_eq_false_iff,
      List.any_eq_false] at raw
    apply readValue?_raw raw.1 ?_ separated
    intro c inside
    exact Bool.eq_false_iff.2 (raw.2 c inside)
  · rw [List.cons_append, List.cons_append, List.append_assoc]
    exact unquote_escape value rest

/-! ## Fields -/

/-- The key ends at the first equals sign. -/
def Plain (f : LogField) : Prop := '=' ∉ f.key.toList

instance (f : LogField) : Decidable f.Plain := inferInstanceAs (Decidable ('=' ∉ f.key.toList))

theorem readField?_chars {f : LogField} (plain : f.Plain) (separated : Separated rest) :
    readField? (f.chars ++ rest) = some (f, rest) := by
  have inside : ∀ c ∈ f.key.toList, decide (c ≠ '=') = true := by
    intro c member
    apply decide_eq_true
    intro equals
    exact plain (equals ▸ member)
  have shape : f.chars ++ rest =
      ' ' :: (f.key.toList ++ '=' :: (encodeValue f.value.toList ++ rest)) := by
    simp [chars]
  rw [shape, readField?, List.dropWhile_append_of_pos inside, List.takeWhile_append_of_pos inside,
    List.dropWhile_cons_of_neg (by simp), List.takeWhile_cons_of_neg (by simp)]
  dsimp only
  rw [readValue?_encodeValue _ separated, List.append_nil]
  simp

theorem readFields?_of_field {text : List Char} {f : LogField}
    (read : readField? text = some (f, rest)) :
    readFields? text = (readFields? rest).map (f :: ·) := by
  cases text with
  | nil => cases read
  | cons c text =>
    rw [readFields?]
    split
    · rename_i none
      cases none.symm.trans read
    · rename_i f' rest' found
      cases found.symm.trans read
      rfl

/-- Every field of a line is read back, whatever its value is. -/
theorem readFields?_appended (plain : ∀ f ∈ fields, f.Plain) :
    readFields? (appended fields) = some fields := by
  induction fields with
  | nil => rw [appended, List.flatMap_nil, readFields?]
  | cons f fields ih =>
    have first : readField? (f.chars ++ appended fields) = some (f, appended fields) :=
      readField?_chars (plain f List.mem_cons_self) (separated_appended fields)
    have others := ih fun other inside => plain other (List.mem_cons_of_mem f inside)
    rw [appended, List.flatMap_cons, ← appended, readFields?_of_field first, others]
    rfl

theorem appended_inj (plain : ∀ f ∈ fields, f.Plain) (plain' : ∀ f ∈ others, f.Plain) :
    appended fields = appended others ↔ fields = others := by
  constructor
  · intro same
    have read := congrArg readFields? same
    rw [readFields?_appended plain, readFields?_appended plain'] at read
    exact Option.some.inj read
  · exact congrArg appended

/-! ## Bytes -/

/-- Bytes as a text: each byte is the character of its number. -/
def ofBytes (bytes : List UInt8) : String := String.ofList (bytes.map Char.ofUInt8)

theorem ofUInt8_inj {a b : UInt8} : Char.ofUInt8 a = Char.ofUInt8 b ↔ a = b := by
  constructor
  · intro same
    have numbers : (Char.ofUInt8 a).toNat = (Char.ofUInt8 b).toNat := congrArg Char.toNat same
    exact UInt8.toNat_inj.1 numbers
  · exact congrArg Char.ofUInt8

theorem ofBytes_inj {a b : List UInt8} : ofBytes a = ofBytes b ↔ a = b := by
  rw [ofBytes, ofBytes, String.ofList_inj]
  exact (List.map_injective_iff.2 fun _ _ => ofUInt8_inj.1).eq_iff

/-- A field with any bytes for its key and its value. -/
def raw (f : List UInt8 × List UInt8) : LogField := ⟨ofBytes f.1, ofBytes f.2⟩

theorem raw_injective : Function.Injective raw := by
  intro f f' same
  have parts := LogField.mk.inj same
  exact Prod.ext (ofBytes_inj.1 parts.1) (ofBytes_inj.1 parts.2)

theorem plain_raw {f : List UInt8 × List UInt8} (plain : '='.toUInt8 ∉ f.1) : (raw f).Plain := by
  intro inside
  simp only [raw, ofBytes, String.toList_ofList, List.mem_map] at inside
  obtain ⟨byte, member, equals⟩ := inside
  have same : byte = '='.toUInt8 := ofUInt8_inj.1 equals
  exact plain (same ▸ member)

end

end LogField

section

open LogField

variable {fields others : List LogField}

/-- A line with fields is written differently for different fields. -/
theorem Recorder.log_inj (plain : ∀ f ∈ fields, f.Plain) (plain' : ∀ f ∈ others, f.Plain)
    (r : Recorder) (level : LogLevel) (message : String) :
    r.log ⟨level, message, fields⟩ = r.log ⟨level, message, others⟩ ↔ fields = others := by
  constructor
  · intro same
    have written := congrArg Recorder.written same
    simp only [Recorder.log, List.cons.injEq, LogLine.mk.injEq, true_and, and_true,
      LogEntry.text] at written
    have chars := congrArg String.toList written
    simp only [String.toList_append, String.toList_ofList] at chars
    exact (appended_inj plain plain').1
      (List.append_cancel_left (List.append_cancel_right chars))
  · intro same
    rw [same]

/-- Fields whose keys have no equals sign are read back from the text that they are appended as, so
no value can make up a field or hide one, in a line that is written or among arbitrary bytes. -/
theorem field_quoting_unambiguous (plain : ∀ f ∈ fields, f.Plain)
    (plain' : ∀ f ∈ others, f.Plain) :
    readFields? (appended fields) = some fields ∧
    (appended fields = appended others ↔ fields = others) ∧
    (∀ (r : Recorder) (level : LogLevel) (message : String),
      r.log ⟨level, message, fields⟩ = r.log ⟨level, message, others⟩ ↔ fields = others) ∧
    ∀ bytes bytes' : List (List UInt8 × List UInt8),
      (∀ f ∈ bytes, '='.toUInt8 ∉ f.1) → (∀ f ∈ bytes', '='.toUInt8 ∉ f.1) →
        (appended (bytes.map raw) = appended (bytes'.map raw) ↔ bytes = bytes') := by
  refine ⟨readFields?_appended plain, appended_inj plain plain', Recorder.log_inj plain plain', ?_⟩
  intro bytes bytes' keys keys'
  have named : ∀ f ∈ bytes.map raw, f.Plain := by
    intro f inside
    obtain ⟨f, member, rfl⟩ := List.mem_map.1 inside
    exact plain_raw (keys f member)
  have named' : ∀ f ∈ bytes'.map raw, f.Plain := by
    intro f inside
    obtain ⟨f, member, rfl⟩ := List.mem_map.1 inside
    exact plain_raw (keys' f member)
  rw [appended_inj named named']
  exact (List.map_injective_iff.2 raw_injective).eq_iff

namespace Sample

/-- What a collaborator says about a failure, with a field of its own in it. -/
def smuggled : List LogField := [.text "error" "busy\" status=\"COMPLETED\\", .text "" "a\\"]

end Sample

/-- The value stays one value and its field one field. -/
theorem field_quoting_unambiguous_forged :
    (∀ f ∈ Sample.smuggled, f.Plain) ∧
    readFields? (appended Sample.smuggled) = some Sample.smuggled ∧
    (appended Sample.smuggled =
        appended [.text "error" "busy", .text "status" "COMPLETED\\", .text "" "a\\"] ↔
      Sample.smuggled = [.text "error" "busy", .text "status" "COMPLETED\\", .text "" "a\\"]) := by
  have plain : ∀ f ∈ Sample.smuggled, f.Plain := by decide +kernel
  have plain' : ∀ f ∈ [LogField.text "error" "busy", .text "status" "COMPLETED\\", .text "" "a\\"],
      f.Plain := by decide +kernel
  have unambiguous := field_quoting_unambiguous plain plain'
  exact ⟨plain, unambiguous.1, unambiguous.2.1⟩

end

end SagaEngine
