import SagaEngine.Dictionary
import SagaEngine.Json.Message
import SagaEngine.Json.Reader
import SagaEngine.Json.Writer
/-!
# Execution contexts

A context is the bag of texts that the steps of an execution share. It is stored
as a blob: the JSON text of a message with one map, or nothing at all. A blob is
read in two ways, of which one says why it is refused. Main statement: `ofBlob_eq`,
both ways agree.
-/

namespace SagaEngine

/-- The values that the steps of an execution share. -/
abbrev Context := Dictionary String

namespace Context

/-- Binds every pair of a fragment on top of the values. -/
def mergeFragment (values fragment : Context) : Context := values.merge fragment

/-- The map of a context as a JSON object. -/
def toJson (values : Context) : Json :=
  .object (values.entries.map fun e => (e.1, .string e.2))

/-- The stored form; a context without values is a message without members. -/
def toBlob (values : Context) : String :=
  if values.entries.isEmpty then Json.write (.object [])
  else Json.write (.object [("values", values.toJson)])

/-- Adds the pairs of a JSON object of strings. -/
def addMembers? (values : Context) : Json → Option Context
  | .object members =>
    members.foldlM (fun acc m => (Json.text? m.2).map (acc.insert m.1)) values
  | _ => none

/-- The stored message. -/
def blobFields : List (Json.FieldReader Context) := [.plain "values" addMembers?]

/-- Reads a blob, unless it is malformed. -/
def ofBlob? (blob : String) : Option Context :=
  if blob.isEmpty then some Dictionary.empty
  else (Json.read? blob).bind (Json.readMessage? blobFields Dictionary.empty)

/-- The reserved key that names the step whose execute was rejected. -/
def rejectedStepKey : String := "saga.rejected_step"

/-- Records that the step at an index was rejected. -/
def markRejected (values : Context) (index : Int) : Context :=
  values.insert rejectedStepKey (toString index)

/-- Whether the marker names the step at an index. -/
def isRejected (values : Context) (index : Int) : Bool :=
  values.get? rejectedStepKey = some (toString index)

end Context

/-- A text that does not decode. -/
inductive DecodeError where
  | contextBlob
  | orderDraftMissing
  | orderDraft
  deriving DecidableEq, Repr

namespace DecodeError

/-- The reason that a reader gives for refusing a text. -/
def readerStatus : String := "INVALID_ARGUMENT: json"

/-- The wording of a decoding error. -/
def message : DecodeError → String
  | contextBlob => "context blob does not parse: " ++ readerStatus
  | orderDraftMissing => "context has no order draft"
  | orderDraft => "order draft does not parse: " ++ readerStatus

end DecodeError

namespace Context

/-- Reads a blob or says that it is malformed. -/
def ofBlob (blob : String) : Except DecodeError Context :=
  if blob.isEmpty then .ok Dictionary.empty
  else
    match (Json.read? blob).bind (Json.readMessage? blobFields Dictionary.empty) with
    | none => .error .contextBlob
    | some values => .ok values

/-! ## Both ways to read a blob agree -/

theorem ofBlob_eq (blob : String) :
    ofBlob blob = (ofBlob? blob).elim (.error .contextBlob) .ok := by
  rw [ofBlob, ofBlob?]
  by_cases empty : blob.isEmpty
  · rw [if_pos empty, if_pos empty]
    rfl
  · rw [if_neg empty, if_neg empty]
    cases (Json.read? blob).bind (Json.readMessage? blobFields Dictionary.empty) with
    | none => rfl
    | some values => rfl

variable {blob : String}

theorem ofBlob_eq_ok_iff {values : Context} :
    ofBlob blob = .ok values ↔ ofBlob? blob = some values := by
  rw [ofBlob_eq]
  cases ofBlob? blob with
  | none => simp
  | some values' => simp

theorem ofBlob_eq_error_iff {error : DecodeError} :
    ofBlob blob = .error error ↔ ofBlob? blob = none ∧ error = .contextBlob := by
  rw [ofBlob_eq]
  cases ofBlob? blob with
  | none => simp [eq_comm]
  | some values => simp

end Context

end SagaEngine
