import SagaEngine.Dictionary
import SagaEngine.Store.TableRow
/-!
# The execution table

The rows of a database under their ids, and the texts with which inserts and
updates are turned away. These texts belong to the shape of the table, which a
connection remembers between statements.
-/

namespace SagaEngine

/-- The texts with which inserts and updates are turned away, if they are. -/
structure TableShape where
  insertBar : Option String := none
  updateBar : Option String := none
  deriving DecidableEq, Repr, Inhabited

/-- The rows by id, and the shape of the table. -/
structure ExecutionTable where
  rows : Dictionary TableRow := Dictionary.empty
  shape : TableShape := {}
  deriving Inhabited

/-- What a statement does to the table. -/
inductive TableChange where
  | kept
  | replaced (table : ExecutionTable)
  | dropped
  deriving Inhabited

namespace ExecutionTable

def insert (t : ExecutionTable) (row : TableRow) : Except SqlFault ExecutionTable :=
  match t.shape.insertBar with
  | some text => .error (.raised text)
  | none =>
    if t.rows.contains row.id then .error .uniqueId
    else .ok { t with rows := t.rows.insert row.id row }

/-- Changes the row of that id if a condition holds of it; there is no table if it
did not. -/
def changeIf (t : ExecutionTable) (id : String) (condition : TableRow → Bool)
    (change : TableRow → TableRow) : Except SqlFault (Option ExecutionTable) :=
  match t.rows.get? id with
  | none => .ok none
  | some row =>
    if !condition row then .ok none
    else
      match t.shape.updateBar with
      | some text => .error (.raised text)
      | none => .ok (some { t with rows := t.rows.insert id (change row) })

end ExecutionTable

/-- The change of a statement that may have found nothing to do. -/
def TableChange.ofOption : Option ExecutionTable → TableChange
  | some table => .replaced table
  | none => .kept

end SagaEngine
