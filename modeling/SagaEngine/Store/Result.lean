import SagaEngine.Saga.FailureKind
import SagaEngine.Text.ZeroEnded
/-!
# Results of the execution store

A write that the store declines is answered with a refusal, which has a code and
a text. What keeps an operation from being answered at all is a failure, which
ends the caller.
-/

namespace SagaEngine

/-- The codes of the answers to a write. -/
inductive WriteCode where
  | ok
  | notFound
  | alreadyExists
  | conflict
  | busy
  | serializationFailure
  | constraintViolation
  | ioError
  | corruption
  | internalError
  deriving DecidableEq, Repr, Inhabited

namespace WriteCode

/-- Every code, by number. -/
def all : List WriteCode :=
  [ok, notFound, alreadyExists, conflict, busy, serializationFailure, constraintViolation,
    ioError, corruption, internalError]

/-- The shown name of a code. -/
def name : WriteCode → String
  | ok => "ok"
  | notFound => "not found"
  | alreadyExists => "already exists"
  | conflict => "version conflict"
  | busy => "busy"
  | serializationFailure => "serialization failure"
  | constraintViolation => "constraint violation"
  | ioError => "io error"
  | corruption => "corruption"
  | internalError => "internal error"

/-- The code of that exact name. -/
def ofName? (text : String) : Option WriteCode := all.find? (fun c => c.name = text)

/-- The name shown for a number that need not be a code. -/
def nameOfNumber (n : Int) : String :=
  if n < 0 then "unknown" else (all[n.toNat]?.map name).getD "unknown"

end WriteCode

/-- What a database engine says when it does not run a statement. -/
inductive SqlFault where
  | locked
  | readOnly
  | noTable
  | noTableToWatch
  | notADatabase
  | unableToOpen
  | ioError
  | full
  | unknownHost (name : String)
  | unknownMode (what value : String)
  | modeNotAllowed (what value : String)
  | unknownDriver (name : String)
  | nothingToCommit
  | nothingToRollBack
  | uniqueId
  | barExists (name : String)
  | unclosedText (text : String)
  | raised (text : String)
  deriving DecidableEq, Repr

/-- A text inside quotes, in which a quote is written twice. -/
def SqlFault.quoted (text : String) : String :=
  String.ofList (text.toList.flatMap fun c => if c = '\'' then ['\'', '\''] else [c])

/-- The wording of a database engine. -/
def SqlFault.message : SqlFault → String
  | locked => "database is locked"
  | readOnly => "attempt to write a readonly database"
  | noTable => "no such table: saga_execution"
  | noTableToWatch => "no such table: main.saga_execution"
  | notADatabase => "file is not a database"
  | unableToOpen => "unable to open database file"
  | ioError => "disk I/O error"
  | full => "database or disk is full"
  | unknownHost name => "invalid uri authority: " ++ name
  | unknownMode what value => "no such " ++ what ++ " mode: " ++ value
  | modeNotAllowed what value => what ++ " mode not allowed: " ++ value
  | unknownDriver name => "no such vfs: " ++ name
  | nothingToCommit => "cannot commit - no transaction is active"
  | nothingToRollBack => "cannot rollback - no transaction is active"
  | uniqueId => "UNIQUE constraint failed: saga_execution.execution_id"
  | barExists name => "trigger " ++ name ++ " already exists"
  | unclosedText text => "unrecognized token: \"'" ++ quoted text ++ "\""
  | raised text => text

/-- The code under which a write reports what the engine said. -/
def SqlFault.code : SqlFault → WriteCode
  | locked => .busy
  | uniqueId => .alreadyExists
  | raised _ => .constraintViolation
  | ioError => .ioError
  | _ => .internalError

/-- Why a write was declined. -/
inductive Refusal where
  | taken (executionId : String)
  | missing (executionId : String)
  | versionDiffers (executionId : String) (stored expected : Nat)
  | movedPast (executionId : String) (expected : Nat)
  | sql (fault : SqlFault)
  | other (code : WriteCode) (text : String)
  deriving DecidableEq, Repr

namespace Refusal

def code : Refusal → WriteCode
  | taken _ => .alreadyExists
  | missing _ => .notFound
  | versionDiffers .. => .conflict
  | movedPast .. => .conflict
  | sql fault => fault.code
  | other code _ => code

def message : Refusal → String
  | taken id => "execution " ++ id ++ " already exists"
  | missing id => "execution " ++ id ++ " not found"
  | versionDiffers id stored expected =>
    "execution " ++ id ++ " version " ++ toString stored ++ " != expected " ++ toString expected
  | movedPast id expected => "execution " ++ id ++ " moved past version " ++ toString expected
  | sql fault => fault.message
  | other _ text => text

end Refusal

/-- Why an operation of the store was not answered. -/
inductive StoreFailure where
  | insertedConcurrently (executionId : String)
  | modifiedConcurrently (executionId : String)
  | opening (path : String) (fault : SqlFault)
  | serverUnsupported
  | running (path : String) (fault : SqlFault)
  | preparing (fault : SqlFault)
  | reading (fault : SqlFault)
  | listing (fault : SqlFault)
  | unknownStatus (executionId : String) (text : String)
  | other (kind : FailureKind) (text : String)
  deriving DecidableEq, Repr

namespace StoreFailure

def wording : StoreFailure → String
  | insertedConcurrently id =>
    "transaction conflict: execution " ++ id ++ " was inserted concurrently"
  | modifiedConcurrently id =>
    "transaction conflict: execution " ++ id ++ " was modified by a concurrent transaction"
  | opening path fault => "sqlite open " ++ path ++ ": " ++ fault.message
  | serverUnsupported => "postgres backend requested but not enabled at build time"
  | running path fault => "sqlite " ++ path ++ ": " ++ fault.message
  | preparing fault => "sqlite prepare: " ++ fault.message
  | reading fault => "sqlite get execution: " ++ fault.message
  | listing fault => "sqlite list executions: " ++ fault.message
  | unknownStatus id text => "execution " ++ id ++ " has unknown status '" ++ text ++ "'"
  | other _ text => text

/-- The wording of a failure, as it is raised. -/
def message (f : StoreFailure) : String := untilZero f.wording

/-- The kind of a failure: two transactions that met, or anything else. -/
def kind : StoreFailure → FailureKind
  | insertedConcurrently _ => .conflict
  | modifiedConcurrently _ => .conflict
  | other kind _ => kind
  | _ => .runtime

end StoreFailure

end SagaEngine
