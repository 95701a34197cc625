import SagaEngine.Store.DatabaseAddress
import SagaEngine.Text.ZeroEnded
/-!
# Where a database file can be

A path is followed from the root, or from the working directory, name by name and
without looking at what is there. The place must then be in a directory that takes
files, and there is no database in a file that is something else. A rollback journal is kept beside the file under a longer name, which has to be a
possible one too.
-/

namespace SagaEngine

/-- What is at a place: a directory, in which files may or may not be created, a
file that is no database, or a device that is empty when read and fails when
written. -/
inductive FileEntry where
  | directory (takesFiles : Bool)
  | document
  | device (fault : SqlFault)
  deriving DecidableEq, Repr

/-- The file system, as far as it matters where a database is. A place is given by
the names that lead to it from the root. -/
structure FileTree where
  working : List String
  entry? : List String → Option FileEntry

namespace FileTree

/-- The longest name of a file, in bytes. -/
def maxName : Nat := 255

/-- The longest path of a database file, in bytes. -/
def maxPath : Nat := 504

/-- What the name of a journal has more than that of its database. -/
def journalSuffix : String := "-journal"

/-- Follows one name. A name of two dots leads back, one of one dot nowhere. -/
def follow (place : List String) (name : String) : Option (List String) :=
  if name.isEmpty ∨ name = "." then some place
  else if name = ".." then some place.dropLast
  else if maxName < name.utf8ByteSize then none
  else some (place ++ [name])

def namesOf (path : String) : List String := path.splitOn "/"

/-- The place that a path leads to. -/
def locate? (t : FileTree) (path : String) : Option (List String) :=
  (namesOf path).foldlM follow (if path.startsWith "/" then [] else t.working)

/-- The length in bytes of the path from the root to a place. -/
def pathLength (place : List String) : Nat :=
  place.foldl (fun n name => n + name.utf8ByteSize + 1) 0

def canCreate (t : FileTree) (place : List String) : Bool :=
  t.entry? place.dropLast = some (.directory true)

/-- Why no database can be created at a place where nothing is yet. -/
def creationFailure? (t : FileTree) (name : String) (a : DatabaseAddress) (place : List String) :
    Option StoreFailure :=
  if a.access ≠ .create ∨ !t.canCreate place then some (.opening name .unableToOpen)
  else if a.frozen then some (.running name .readOnly)
  else if maxName < ((place.getLast?.getD "") ++ journalSuffix).utf8ByteSize then
    some (.running name .unableToOpen)
  else none

/-- Why no database can be at a place. -/
def placeFailure? (t : FileTree) (name : String) (a : DatabaseAddress) (place : List String) :
    Option StoreFailure :=
  if place.isEmpty ∨ maxPath < pathLength place then some (.opening name .unableToOpen)
  else
    match t.entry? place with
    | some (.directory _) =>
      some (.opening name (if a.access = .readOnly then .ioError else .unableToOpen))
    | some .document => some (.running name .notADatabase)
    | some (.device fault) => some (.running name (if a.readsOnly then .readOnly else fault))
    | none => t.creationFailure? name a place

/-- Why no database can be opened under a name. A database without a file is one
that nobody else can open. -/
def openFailure? (t : FileTree) (name : String) : Option StoreFailure :=
  match DatabaseAddress.ofName? (untilZero name) with
  | .error fault => some (.opening name fault)
  | .ok a =>
    if a.isUnnamed then
      if a.access = .readOnly then some (.running name .readOnly) else none
    else
      match t.locate? a.path with
      | none => some (.opening name .unableToOpen)
      | some place => t.placeFailure? name a place

end FileTree

end SagaEngine
