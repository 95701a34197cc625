/-!
# The order of a table with chained buckets

The keys of a table are walked in one order. A key whose bucket is empty goes in
front of all others, a key whose bucket is used goes in front of the keys of that
bucket. A table that is full grows first: its keys are laid anew, in the order in
which they were walked. Nothing is lost on the way (`add_perm`).
-/

namespace SagaEngine.BucketOrder

/-! ## Hashing texts -/

/-- The factor that spreads the bits of a word. -/
def factor : UInt64 := 0xc6a4a7935bd1e995

/-- What a hash starts from. -/
def seed : UInt64 := 0xc70f6907

/-- Brings the high bits of a word down. -/
def fold (word : UInt64) : UInt64 := word ^^^ (word >>> 47)

/-- The word of up to eight bytes, the least significant first. -/
def wordOf (bytes : List UInt8) : UInt64 :=
  bytes.foldr (fun byte word => word * 256 + byte.toUInt64) 0

/-- Takes bytes into a hash, eight at a time. -/
def absorb (hash : UInt64) : List UInt8 → UInt64
  | a :: b :: c :: d :: e :: f :: g :: h :: rest =>
    let word := fold (wordOf [a, b, c, d, e, f, g, h] * factor) * factor
    absorb ((hash ^^^ word) * factor) rest
  | [] => hash
  | rest => (hash ^^^ wordOf rest) * factor

def hashOf (text : String) : UInt64 :=
  let bytes := text.toList.flatMap String.utf8EncodeChar
  fold (fold (absorb (seed ^^^ (bytes.length.toUInt64 * factor)) bytes) * factor)

/-! ## Laying keys out -/

variable {α : Type u}

/-- Puts a key in front of its bucket, or of everything if the bucket is empty. -/
def place (bucket : α → Nat) (key : α) (keys : List α) : List α :=
  if keys.any fun k => bucket k = bucket key then
    keys.takeWhile (fun k => bucket k ≠ bucket key) ++
      key :: keys.dropWhile (fun k => bucket k ≠ bucket key)
  else key :: keys

/-- How many buckets a table has, from its first size on. -/
def sizes : List Nat :=
  [13, 29, 59, 127, 257, 541, 1109, 2357, 5087, 10273, 20753, 42043, 85229, 172933, 351061]

/-- The size of a table that has grown to a number of keys. -/
def sizeFor (count : Nat) : Nat := (sizes.find? (fun size => count ≤ size)).getD count

/-- Adds a key that is new to a table. -/
def add (hash : α → UInt64) (key : α) (keys : List α) : List α :=
  let size := sizeFor (keys.length + 1)
  let bucket := fun k => (hash k).toNat % size
  let laid := if sizeFor keys.length = size then keys
    else keys.foldl (fun done k => place bucket k done) []
  place bucket key laid

theorem place_perm (bucket : α → Nat) (key : α) (keys : List α) :
    (place bucket key keys).Perm (key :: keys) := by
  unfold place
  split
  · refine List.perm_middle.trans ?_
    rw [List.takeWhile_append_dropWhile]
  · exact List.Perm.refl _

private theorem foldl_place_perm (bucket : α → Nat) (keys done : List α) :
    (keys.foldl (fun done k => place bucket k done) done).Perm (keys ++ done) := by
  induction keys generalizing done with
  | nil => exact List.Perm.refl _
  | cons key rest ih =>
    refine (ih _).trans ?_
    refine ((place_perm bucket key done).append_left rest).trans ?_
    exact List.perm_middle

theorem add_perm (hash : α → UInt64) (key : α) (keys : List α) :
    (add hash key keys).Perm (key :: keys) := by
  unfold add
  refine (place_perm _ _ _).trans (List.Perm.cons _ ?_)
  split
  · exact List.Perm.refl _
  · simpa using foldl_place_perm (fun k => (hash k).toNat % sizeFor (keys.length + 1)) keys []

end SagaEngine.BucketOrder
