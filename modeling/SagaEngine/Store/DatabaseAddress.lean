import SagaEngine.Store.Result
import SagaEngine.Text.PercentCoded
/-!
# How a database is addressed

A database is named by the path of its file. A name that starts with `file:` is an
address: an optional host in front of the path, which has to be this one, options
behind a question mark, and a fragment that is passed over. Its parts are
percent-coded. Main statements: `ofName?_path` for the plain names and
`Access.allows_trans`.
-/

namespace SagaEngine

/-- How a database is opened. -/
inductive Access where
  | readOnly
  | readWrite
  | create
  | memory
  deriving DecidableEq, Repr

namespace Access

/-- The access that a mode asks for. -/
def ofMode? : String → Option Access
  | "ro" => some .readOnly
  | "rw" => some .readWrite
  | "rwc" => some .create
  | "memory" => some .memory
  | _ => none

/-- How much an access allows. -/
def level : Access → Nat
  | readOnly => 1
  | readWrite => 2
  | create => 3
  | memory => 4

/-- Whether an option may replace one access by another: it may not allow more,
except by leaving files alone. -/
def allows (held asked : Access) : Bool := asked = .memory || asked.level ≤ held.level

theorem allows_self (a : Access) : a.allows a = true := by cases a <;> rfl

/-- What is allowed at last was allowed at first. -/
theorem allows_trans {a b c : Access} (h : a.allows b = true) (k : b.allows c = true)
    (hb : b ≠ .memory) : a.allows c = true := by
  cases a <;> cases b <;> cases c <;> simp_all [allows, level]

end Access

/-- Where a database is and how it is opened. A frozen file is taken to be one that
nobody changes. -/
structure DatabaseAddress where
  path : String
  access : Access
  driver : String
  frozen : Bool
  deriving DecidableEq, Repr

namespace DatabaseAddress

def memoryPath : String := ":memory:"

def fileDriver : String := "unix"

/-- The driver of databases that are kept in memory. -/
def memoryDriver : String := "memdb"

/-- The drivers there are. -/
def drivers : List String :=
  [fileDriver, "unix-none", "unix-dotfile", "unix-excl", memoryDriver]

/-- The address that a plain path is. -/
def ofPath (path : String) : DatabaseAddress := ⟨path, .create, fileDriver, false⟩

/-- The start of an address. -/
def scheme : String := "file:"

def localHost : String := "localhost"

/-- What follows the host of an address. Without a host it is the local one. -/
def afterHost : List Char → Except SqlFault (List Char)
  | '/' :: '/' :: rest =>
    let host := String.ofList (rest.takeWhile (· != '/'))
    if host.isEmpty ∨ host = localHost then .ok (rest.dropWhile (· != '/'))
    else .error (.unknownHost host)
  | cs => .ok cs

/-- One option: a name, and a value behind an equals sign. One without a name is
none. -/
def option? (text : String) : Option (String × String) :=
  let name := percentDecoded (text.toList.takeWhile (· != '='))
  let value := percentDecoded ((text.toList.dropWhile (· != '=')).drop 1)
  if name.isEmpty then none else some (name, value)

def optionsOf (query : List Char) : List (String × String) :=
  ((String.ofList query).splitOn "&").filterMap option?

/-- Whether the value of an option says yes: a number that is not zero in its last
byte, or a word. -/
def saysYes (value : String) : Bool :=
  let digits := value.toList.takeWhile Char.isDigit
  if digits.isEmpty then ["on", "yes", "true"].contains value.toLower
  else Numeral.digitsValue digits % 256 != 0

/-- Applies an option about the way the database is opened. -/
def withOption (a : DatabaseAddress) : String × String → Except SqlFault DatabaseAddress
  | ("vfs", value) => .ok { a with driver := value }
  | ("cache", value) =>
    if value = "shared" ∨ value = "private" then .ok a else .error (.unknownMode "cache" value)
  | ("mode", value) =>
    match Access.ofMode? value with
    | none => .error (.unknownMode "access" value)
    | some asked =>
      if a.access.allows asked then .ok { a with access := asked }
      else .error (.modeNotAllowed "access" value)
  | _ => .ok a

/-- Reads what follows the start of an address. -/
def ofAddress? (cs : List Char) : Except SqlFault DatabaseAddress := do
  let named := (← afterHost cs).takeWhile (· != '#')
  let options := optionsOf ((named.dropWhile (· != '?')).drop 1)
  let frozen := (options.lookup "immutable").any saysYes
  let path := percentDecoded (named.takeWhile (· != '?'))
  let a ← options.foldlM withOption { ofPath path with frozen }
  if drivers.contains a.driver then .ok a else .error (.unknownDriver a.driver)

def ofName? (name : String) : Except SqlFault DatabaseAddress :=
  if name.startsWith scheme then ofAddress? (name.toList.drop scheme.length)
  else .ok (ofPath name)

theorem ofName?_path {name : String} (h : name.startsWith scheme = false) :
    ofName? name = .ok (ofPath name) := by
  simp [ofName?, h]

/-- Whether the database is in no file that has a name. -/
def isUnnamed (a : DatabaseAddress) : Bool :=
  a.access = .memory || a.driver = memoryDriver || a.path.isEmpty || a.path = memoryPath

/-- Whether a file at the address is only read. -/
def readsOnly (a : DatabaseAddress) : Bool := a.access = .readOnly || a.frozen

end DatabaseAddress

end SagaEngine
