import SagaEngine.Saga.Members
import SagaEngine.Store.Console
/-!
# Console operations in words

An operation on a console is written as an object: its name, the names it works
on and its values, each of which has a default.
-/

namespace SagaEngine.Console.Operation

/-- The interference that an object describes. -/
def interferenceOf? (j : Json) : Option Database.Interference :=
  match j.textAt "what" with
  | "drop_table" => some .dropTable
  | "status" => some (.setStatus (j.textAt "id") (j.textAt "status"))
  | "reject_insert" => some (.barInserts (j.textAt "message"))
  | "reject_update" => some (.barUpdates (j.textAt "message"))
  | "read_only" => some .refuseWrites
  | "end" => some .endTransaction
  | _ => none

/-- The rows that an object asks for. -/
def staleQueryOf (j : Json) : StaleQuery where
  statuses := (j.itemsAt "statuses").filterMap fun s => Status.ofName? s.asText
  updatedBefore := j.natAt "before"
  limit := j.natAt "limit" 100

/-- The operation that an object describes. -/
def ofJson? (j : Json) : Option Operation :=
  let tx := j.textAt "tx" "t"
  let connection := j.textAt "db" "main"
  let record := Execution.withMembers (j.objectAt "record")
  match j.textAt "op" with
  | "begin" => some (.begin tx connection)
  | "commit" => some (.commit tx)
  | "rollback" => some (.rollback tx)
  | "drop" => some (.drop tx)
  | "insert" => some (.insert tx (record {}))
  | "get" => some (.find tx (j.textAt "id"))
  | "update" =>
    some (.update tx ((j.at? "id").map Json.asText) record (j.natAt "expected"))
  | "list" =>
    some (.listByStatus tx ((Status.ofName? (j.textAt "status")).getD .started)
      (j.natAt "limit"))
  | "stale" => some (.listStale tx (staleQueryOf j))
  | "open" => some (.connect connection (!j.boolAt "no_schema"))
  | "close" => some (.disconnect connection)
  | "garbage" => some .damage
  | "tamper" => (interferenceOf? j).map (.interfere connection)
  | _ => none

end SagaEngine.Console.Operation
