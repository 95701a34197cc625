import SagaEngine.Store.Database
/-!
# Interference from outside the store

What other programs do to a database file behind the store's back: statements of
their own on a connection, and damage to the file itself.
-/

namespace SagaEngine

namespace Database

/-- A statement from outside. -/
inductive Interference where
  | dropTable
  | setStatus (executionId : String) (text : String)
  | barInserts (text : String)
  | barUpdates (text : String)
  | refuseWrites
  | endTransaction
  deriving DecidableEq, Repr

/-- What turns writes of one kind away: the name of the watch on the table, the text
in a shape, and the shape with another text. -/
structure Watch where
  name : String
  text? : TableShape → Option String
  place : TableShape → String → TableShape

namespace Watch

def inserts : Watch where
  name := "no_insert"
  text? := (·.insertBar)
  place shape text := { shape with insertBar := some text }

def updates : Watch where
  name := "no_update"
  text? := (·.updateBar)
  place shape text := { shape with updateBar := some text }

/-- Why the watch cannot be placed on a table of some shape: there is one, or the
statement breaks off inside the text. -/
def fault? (w : Watch) (shape : TableShape) (text : String) : Option SqlFault :=
  if (w.text? shape).isSome then some (.barExists w.name)
  else if hasZero text then some (.unclosedText (untilZero text))
  else none

end Watch

/-- Places a watch on the table. Whether there is one already is looked up in what
the connection remembers and again when the statement runs. -/
def place (d : Database) (c : Nat) (w : Watch) (text : String) : Except SqlFault Unit × Database :=
  match d.prepare c with
  | (.error fault, d) => (.error fault, d)
  | (.ok shape, d) =>
    match w.fault? shape text with
    | some fault => (.error fault, d)
    | none => d.write c fun table =>
      match w.fault? table.shape text with
      | some fault => .error fault
      | none => .ok (.replaced { table with shape := w.place table.shape text }, ())

/-- Places a watch on the table, whose absence is reported in words of its own. -/
def watch (d : Database) (c : Nat) (w : Watch) (text : String) : Except SqlFault Unit × Database :=
  let (answer, d) := d.place c w text
  (answer.mapError fun fault => if fault = .noTable then .noTableToWatch else fault, d)

/-- Replaces the status text of a row. A statement that breaks off inside a text is
not run. -/
def setStatus (d : Database) (c : Nat) (executionId text : String) :
    Except SqlFault Unit × Database :=
  if hasZero text then (.error (.unclosedText (untilZero text)), d)
  else if hasZero executionId then (.error (.unclosedText (untilZero executionId)), d)
  else d.write c fun table =>
    (table.changeIf executionId (fun _ => true) (fun row => { row with status := text })).map
      fun changed => (.ofOption changed, ())

/-- Runs a statement from outside on a connection. -/
def interfere (d : Database) (c : Nat) (what : Interference) :
    Except StoreFailure Unit × Database :=
  d.named <| match what with
  | .dropTable => d.write c fun _ => .ok (.dropped, ())
  | .setStatus id text => d.setStatus c id text
  | .barInserts text => d.watch c .inserts text
  | .barUpdates text => d.watch c .updates text
  | .refuseWrites =>
    (.ok (), { d with connections := d.connections.set c { d.connection c with readOnly := true } })
  | .endTransaction => d.commitConnection c

/-- Overwrites the file. That leaves no mark while the log holds what was committed. -/
def damage (d : Database) : Database := { d with damaged := d.damaged || !d.logged }

end Database

end SagaEngine
