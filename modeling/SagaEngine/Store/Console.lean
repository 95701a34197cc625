import SagaEngine.Store.Backend
import SagaEngine.Store.Interference
/-!
# A console on a store

Transactions, and the connections of a database file, go by names that the user
of the console chooses. The console declines what the store could not answer: an
operation on a name that stands for nothing, and a second transaction on a
connection whose first one has not ended, for which the store would wait forever.
Rows of a file are read and written only while the connection on whose name the
transaction was begun is open. A connection stays in use as long as it has a name
or a transaction.
-/

namespace SagaEngine

/-- A store with names for its transactions. `connections` names the connections
of a file; it is absent where the store has a single, nameless one. `homes` keeps
the name of the connection on which a transaction of each name was begun last. -/
structure Console where
  store : Store
  connections : Option (Dictionary Nat) := none
  transactions : Dictionary Nat := Dictionary.empty
  homes : Dictionary String := Dictionary.empty
  deriving Inhabited

namespace Console

/-- Why the console declines an operation. -/
inductive Declined where
  | noTransaction
  | transactionOpen
  | notOpen
  deriving DecidableEq, Repr

/-- The wording of a declined operation. -/
def Declined.message : Declined → String
  | noTransaction => "no transaction"
  | transactionOpen => "transaction open"
  | notOpen => "not open"

/-- An operation by names. -/
inductive Operation where
  | connect (connection : String) (withTable : Bool)
  | disconnect (connection : String)
  | damage
  | interfere (connection : String) (what : Database.Interference)
  | begin (tx connection : String)
  | commit (tx : String)
  | rollback (tx : String)
  | drop (tx : String)
  | insert (tx : String) (row : Execution)
  | find (tx executionId : String)
  | update (tx : String) (base : Option String) (edit : Execution → Execution) (expected : Nat)
  | listByStatus (tx : String) (status : Status) (limit : Nat)
  | listStale (tx : String) (query : StaleQuery)

/-- The answer to an operation; an update also shows the version that its record
has afterwards. -/
inductive Reply where
  | done
  | connected
  | row (found : Option Execution)
  | rows (found : List Execution)
  | inserted (answer : Except Refusal Unit)
  | updated (answer : Except Refusal Unit) (version : Nat)
  | failed (failure : StoreFailure)
  | declined (why : Declined)

/-- A console on a store with one nameless connection. -/
def onStore (store : Store) : Console := { store }

/-- A console on a database file without connections. -/
def onFile (path : String) (usesLog : Bool) : Console :=
  { store := .database { path, usesLog } 0, connections := some Dictionary.empty }

def connection? (c : Console) (name : String) : Option Nat :=
  match c.connections with
  | none => some 0
  | some names => names.get? name

/-- Whether the connection on whose name a transaction was begun last is open. -/
def isHome (c : Console) (tx : String) : Bool :=
  match c.connections with
  | none => true
  | some names => ((c.homes.get? tx).map names.contains).getD false

/-- The transaction of a name, for reading and writing rows. -/
def transaction (c : Console) (name : String) : Except Declined Nat :=
  if !c.isHome name then .error .notOpen
  else
    match c.transactions.get? name with
    | none => .error .noTransaction
    | some tx => .ok tx

/-- Answers with what the store says about a transaction's rows. -/
def onRows (c : Console) (name : String) (f : Nat → Store → Reply × Store) : Reply × Console :=
  match c.transaction name with
  | .error why => (.declined why, c)
  | .ok tx =>
    let (reply, store) := f tx c.store
    (reply, { c with store })

/-- Ends a transaction. -/
def finish (c : Console) (name : String)
    (f : Nat → Store → Except StoreFailure Unit × Store) : Reply × Console :=
  match c.transactions.get? name with
  | none => (.declined .noTransaction, c)
  | some tx =>
    match f tx c.store with
    | (.ok _, store) => (.done, { c with store })
    | (.error failure, store) => (.failed failure, { c with store })

/-- Whether a connection has a transaction that has not ended. -/
def hasOpenTransaction (c : Console) (connection : Nat) : Bool :=
  match c.store with
  | .memory _ => false
  | .database d _ => d.hasOpenSession connection

/-- Opens a transaction under a name; the one that had the name is closed. -/
def begin (c : Console) (tx connection : String) : Reply × List LogEntry × Console :=
  match c.connection? connection with
  | none => (.declined .notOpen, [], c)
  | some number =>
    if c.hasOpenTransaction number then (.declined .transactionOpen, [], c)
    else
      let store : Store := match c.store with
        | .memory s => .memory s
        | .database d _ => .database d number
      match store.begin with
      | (.error failure, store) => (.failed failure, [], { c with store })
      | (.ok opened, store) =>
        let (line, store) := match c.transactions.get? tx with
          | some earlier => store.drop earlier
          | none => (none, store)
        (.done, line.toList,
          { c with
            store
            transactions := c.transactions.insert tx opened
            homes := c.homes.insert tx connection })

/-- Runs a statement on the file of the console. -/
def onFileOf (c : Console) (f : Database → Reply × Database) : Reply × Console :=
  match c.store with
  | .memory _ => (.declined .notOpen, c)
  | .database d n =>
    let (reply, d) := f d
    (reply, { c with store := .database d n })

/-- Opens a connection under a name. -/
def connect (c : Console) (name : String) (withTable : Bool) : Reply × Console :=
  match c.store with
  | .memory _ => (.declined .notOpen, c)
  | .database d n =>
    match d.connect withTable with
    | (.error failure, d) => (.failed failure, { c with store := .database d n })
    | (.ok number, d) =>
      (.connected, { c with
        store := .database d n
        connections := some ((c.connections.getD Dictionary.empty).insert name number) })

/-- The record that an update writes: an edited row, or an edited blank one. -/
def editedRow (tx : Nat) (base : Option String) (edit : Execution → Execution) (s : Store) :
    Except StoreFailure Execution × Store :=
  match base with
  | none => (.ok (edit {}), s)
  | some id =>
    let (found, s) := s.find? tx id
    (found.map fun row => edit (row.getD { id }), s)

/-- Changes a row. -/
def update (tx : Nat) (base : Option String) (edit : Execution → Execution) (expected : Nat)
    (s : Store) : Reply × Store :=
  match editedRow tx base edit s with
  | (.error failure, s) => (.failed failure, s)
  | (.ok row, s) =>
    match s.update tx row expected with
    | (.error failure, s) => (.failed failure, s)
    | (.ok (.ok version), s) => (.updated (.ok ()) version, s)
    | (.ok (.error refusal), s) => (.updated (.error refusal) row.version, s)

def listed (answer : Except StoreFailure (List Execution) × Store) : Reply × Store :=
  (match answer.1 with
    | .ok rows => .rows rows
    | .error failure => .failed failure, answer.2)

/-- Closes the connections that are no longer in use. -/
def closeUnused (c : Console) : Console :=
  match c.connections, c.store with
  | some names, .database d n =>
    { c with store := .database (d.closeUnused names.values.contains) n }
  | _, _ => c

/-- Closes a transaction. -/
def drop (c : Console) (name : String) : Reply × List LogEntry × Console :=
  match c.transactions.get? name with
  | none => (.declined .noTransaction, [], c)
  | some tx =>
    let (line, store) := c.store.drop tx
    (.done, line.toList, { c with store, transactions := c.transactions.erase name })

/-- Runs an operation; the lines are what the store logged. -/
def perform (c : Console) : Operation → Reply × List LogEntry × Console
  | .connect name withTable => let (reply, c) := c.connect name withTable; (reply, [], c)
  | .disconnect name =>
    (.done, [], { c with connections := c.connections.map (·.erase name) })
  | .damage =>
    let (reply, c) := c.onFileOf fun d => (.done, d.damage)
    (reply, [], c)
  | .interfere name what =>
    match c.connection? name with
    | none => (.declined .notOpen, [], c)
    | some number =>
      let (reply, c) := c.onFileOf fun d =>
        match d.interfere number what with
        | (.ok _, d) => (.done, d)
        | (.error failure, d) => (.failed failure, d)
      (reply, [], c)
  | .begin tx connection => c.begin tx connection
  | .commit tx => let (reply, c) := c.finish tx Store.commit; (reply, [], c)
  | .rollback tx => let (reply, c) := c.finish tx Store.rollback; (reply, [], c)
  | .drop name => c.drop name
  | .insert tx row =>
    let (reply, c) := c.onRows tx fun tx s =>
      let (answer, s) := s.insert tx row
      (.inserted answer, s)
    (reply, [], c)
  | .find tx id =>
    let (reply, c) := c.onRows tx fun tx s =>
      match s.find? tx id with
      | (.ok found, s) => (.row found, s)
      | (.error failure, s) => (.failed failure, s)
    (reply, [], c)
  | .update tx base edit expected =>
    let (reply, c) := c.onRows tx fun tx s => update tx base edit expected s
    (reply, [], c)
  | .listByStatus tx status limit =>
    let (reply, c) := c.onRows tx fun tx s => listed (s.listByStatus tx status limit)
    (reply, [], c)
  | .listStale tx query =>
    let (reply, c) := c.onRows tx fun tx s => listed (s.listStale tx query)
    (reply, [], c)

/-- Runs an operation and closes what is no longer in use after it. -/
def run (c : Console) (op : Operation) : Reply × List LogEntry × Console :=
  let (reply, lines, c) := c.perform op
  (reply, lines, c.closeUnused)

/-- Closes every transaction that is left; the lines are what the store logged. -/
def close (c : Console) : List LogEntry :=
  (c.transactions.keys.foldl (fun (acc : List LogEntry × Console) name =>
    let (_, lines, c) := acc.2.drop name
    (acc.1 ++ lines, c)) ([], c)).1

end Console

end SagaEngine
