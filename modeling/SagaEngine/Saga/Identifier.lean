import SagaEngine.Json.Writer
/-!
# Random identifiers

Sixteen bytes with the version and variant bits of a random identifier, shown in
the 8-4-4-4-12 form. The words that they are made of come from a small generator
that stands in for a Mersenne twister.
-/

namespace SagaEngine

/-- Sixteen bytes. -/
abbrev Identifier := List UInt8

namespace Identifier

def byteText (b : UInt8) : List Char :=
  [Json.hexDigit (b.toNat / 16), Json.hexDigit (b.toNat % 16)]

/-- The text of the bytes from position `i` on. -/
def charsFrom (i : Nat) : List UInt8 → List Char
  | [] => []
  | b :: rest =>
    let gap := if i = 4 ∨ i = 6 ∨ i = 8 ∨ i = 10 then ['-'] else []
    gap ++ byteText b ++ charsFrom (i + 1) rest

/-- The canonical text. -/
def text (id : Identifier) : String := String.ofList (charsFrom 0 id)

/-- The eight bytes of a word, least significant first. -/
def bytesOf (word : UInt64) : List UInt8 :=
  (List.range 8).map fun i => (word >>> (8 * i).toUInt64).toUInt8

/-- An identifier made of two random words. -/
def ofWords (first second : UInt64) : Identifier :=
  (bytesOf first ++ bytesOf second).zipIdx.map fun (b, i) =>
    if i = 6 then (b &&& 0x0f) ||| 0x40
    else if i = 8 then (b &&& 0x3f) ||| 0x80
    else b

/-- The identifier of given bytes: the first sixteen, with zeros for missing ones. -/
def ofBytes (bytes : List Nat) : Identifier :=
  (List.range 16).map fun i => UInt8.ofNat (bytes[i]?.getD 0)

/-- Whether the version and variant bits are those of a random identifier. -/
def isRandom (id : Identifier) : Bool :=
  id.length = 16 && (id[6]?.map (· &&& 0xf0) == some 0x40) &&
    (id[8]?.map (· &&& 0xc0) == some 0x80)

/-- The next state of the generator of random words. It is a splitmix generator, which stands for
a 64-bit Mersenne twister with a random seed. The words of the two differ; the form of the
identifiers made of them and their version and variant bits do not. -/
def nextSeed (seed : UInt64) : UInt64 := seed + 0x9e3779b97f4a7c15

/-- The word that a state of the generator yields, in the place of one that the twister draws. -/
def wordOf (seed : UInt64) : UInt64 :=
  let z := (seed ^^^ (seed >>> 30)) * 0xbf58476d1ce4e5b9
  let z := (z ^^^ (z >>> 27)) * 0x94d049bb133111eb
  z ^^^ (z >>> 31)

/-- The first `n` identifiers of a generator. Each is made of two words drawn in a row, of
whichever generator. -/
def generate : Nat → UInt64 → List Identifier
  | 0, _ => []
  | n + 1, seed =>
    let first := nextSeed seed
    let second := nextSeed first
    ofWords (wordOf first) (wordOf second) :: generate n second

/-- How many different identifiers there are in a list. -/
def countDistinct (ids : List Identifier) : Nat :=
  countRuns ((ids.map text).mergeSort (fun a b => decide (a ≤ b)))
where
  /-- How many runs of equal texts there are. -/
  countRuns : List String → Nat
    | [] => 0
    | [_] => 1
    | a :: b :: rest => if a = b then countRuns (b :: rest) else countRuns (b :: rest) + 1

end Identifier

end SagaEngine
