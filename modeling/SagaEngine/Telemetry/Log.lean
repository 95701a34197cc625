/-!
# Log lines

A line is a message followed by fields `key=value`. A value that is empty or
holds a space, a quote or an equals sign stands in quotes, with quotes and
backslashes escaped; any other value stands as it is.
-/

namespace SagaEngine

/-- How urgent a line is. -/
inductive LogLevel where
  | trace
  | debug
  | info
  | warn
  | err
  | critical
  | off
  deriving DecidableEq, Repr, Inhabited

namespace LogLevel

def code : LogLevel → Nat
  | trace => 0
  | debug => 1
  | info => 2
  | warn => 3
  | err => 4
  | critical => 5
  | off => 6

/-- The level of a name; an unknown name switches logging off. -/
def ofName (name : String) : LogLevel :=
  match name with
  | "trace" => trace
  | "debug" => debug
  | "info" => info
  | "warn" => warn
  | "warning" => warn
  | "err" => err
  | "error" => err
  | "critical" => critical
  | _ => off

end LogLevel

structure LogField where
  key : String
  value : String
  deriving DecidableEq, Repr, Inhabited

namespace LogField

def text (key value : String) : LogField := ⟨key, value⟩

/-- A whole number. -/
def int (key : String) (value : Int) : LogField := ⟨key, toString value⟩

def bool (key : String) (value : Bool) : LogField := ⟨key, if value then "true" else "false"⟩

def execution (id : String) : LogField := ⟨"execution_id", id⟩

/-- Whether a character forces quotes. -/
def isSpecial (c : Char) : Bool := c = ' ' || c = '"' || c = '='

/-- How a character stands between quotes. -/
def escape (c : Char) : List Char := if c = '"' ∨ c = '\\' then ['\\', c] else [c]

/-- A value as it stands in a line. -/
def encodeValue (value : List Char) : List Char :=
  if !value.isEmpty && !value.any isSpecial then value
  else '"' :: value.flatMap escape ++ ['"']

/-- A field as it is appended to a line. -/
def chars (f : LogField) : List Char := ' ' :: f.key.toList ++ '=' :: encodeValue f.value.toList

/-- Fields as they are appended to a line. -/
def appended (fields : List LogField) : List Char := fields.flatMap chars

end LogField

/-- A line before it is written. -/
structure LogEntry where
  level : LogLevel
  message : String
  fields : List LogField := []
  deriving DecidableEq, Repr, Inhabited

namespace LogEntry

def text (e : LogEntry) : String := e.message ++ String.ofList (LogField.appended e.fields)

/-- A line for developers. -/
def debug (message : String) (fields : List LogField := []) : LogEntry := ⟨.debug, message, fields⟩

/-- A line about the normal course. -/
def info (message : String) (fields : List LogField := []) : LogEntry := ⟨.info, message, fields⟩

/-- A line about a disturbance. -/
def warn (message : String) (fields : List LogField := []) : LogEntry := ⟨.warn, message, fields⟩

/-- A line about a failure. -/
def err (message : String) (fields : List LogField := []) : LogEntry := ⟨.err, message, fields⟩

end LogEntry

/-- A line as it was written; a line of a named logger says where it went. -/
structure LogLine where
  level : LogLevel
  text : String
  logger : Option (String × List String) := none
  deriving DecidableEq, Repr, Inhabited

end SagaEngine
