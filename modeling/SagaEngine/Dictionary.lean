/-!
# Dictionaries keyed by text

Pairs in strictly ascending key order, so that two dictionaries with the same
look-ups are equal and every listing is sorted. Keys compare by code point.
Main statements: `get?_insert`, `get?_erase`, `get?_merge` and `ext_get?`.
-/

namespace SagaEngine

/-- A finite map from text to values, stored in ascending key order. -/
structure Dictionary (β : Type u) where
  entries : List (String × β)
  ascending : entries.Pairwise (fun a b => a.1 < b.1)

namespace Dictionary

variable {β : Type u}

/-- Places a pair before the first larger key, replacing an equal one. -/
def insertEntry (key : String) (value : β) : List (String × β) → List (String × β)
  | [] => [(key, value)]
  | (k, v) :: rest =>
    if key < k then (key, value) :: (k, v) :: rest
    else if key = k then (key, value) :: rest
    else (k, v) :: insertEntry key value rest

theorem mem_insertEntry {key : String} {value : β} {entry : String × β}
    {entries : List (String × β)} (h : entry ∈ insertEntry key value entries) :
    entry = (key, value) ∨ entry ∈ entries := by
  induction entries with
  | nil => simpa [insertEntry] using h
  | cons head rest ih =>
    rw [insertEntry] at h
    split at h
    · simpa using h
    · split at h <;> simp_all <;> grind

theorem pairwise_insertEntry {key : String} {value : β} {entries : List (String × β)}
    (h : entries.Pairwise (fun a b => a.1 < b.1)) :
    (insertEntry key value entries).Pairwise (fun a b => a.1 < b.1) := by
  induction entries with
  | nil => simp [insertEntry]
  | cons head rest ih =>
    obtain ⟨hh, hr⟩ := List.pairwise_cons.1 h
    rw [insertEntry]
    split
    · rename_i hlt
      refine List.pairwise_cons.2 ⟨?_, h⟩
      intro e he
      rcases List.mem_cons.1 he with rfl | he
      · exact hlt
      · exact String.lt_trans hlt (hh e he)
    · split
      · rename_i heq
        subst heq
        exact List.pairwise_cons.2 ⟨hh, hr⟩
      · rename_i hge hne
        refine List.pairwise_cons.2 ⟨?_, ih hr⟩
        intro e he
        rcases mem_insertEntry he with rfl | he
        · exact Std.lt_of_le_of_ne (String.not_lt.1 hge) (Ne.symm hne)
        · exact hh e he

/-- The dictionary without entries. -/
def empty : Dictionary β := ⟨[], List.Pairwise.nil⟩

instance : EmptyCollection (Dictionary β) := ⟨empty⟩

instance : Inhabited (Dictionary β) := ⟨empty⟩

/-- Binds a key, replacing an earlier binding of it. -/
def insert (d : Dictionary β) (key : String) (value : β) : Dictionary β :=
  ⟨insertEntry key value d.entries, pairwise_insertEntry d.ascending⟩

/-- Drops a key's binding, if there is one. -/
def erase (d : Dictionary β) (key : String) : Dictionary β :=
  ⟨d.entries.filter (fun e => e.1 ≠ key), d.ascending.filter _⟩

/-- The value bound to a key. -/
def get? (d : Dictionary β) (key : String) : Option β :=
  (d.entries.find? (fun e => e.1 = key)).map (·.2)

/-- Whether a key is bound. -/
def contains (d : Dictionary β) (key : String) : Bool := (d.get? key).isSome

/-- The keys in ascending order. -/
def keys (d : Dictionary β) : List String := d.entries.map (·.1)

/-- The values in ascending key order. -/
def values (d : Dictionary β) : List β := d.entries.map (·.2)

/-- How many keys are bound. -/
def size (d : Dictionary β) : Nat := d.entries.length

/-- The dictionary of a list of pairs; a later pair wins. -/
def ofList (pairs : List (String × β)) : Dictionary β :=
  pairs.foldl (fun d e => d.insert e.1 e.2) empty

/-- Every binding of `later` on top of those of `d`. -/
def merge (d later : Dictionary β) : Dictionary β :=
  later.entries.foldl (fun acc e => acc.insert e.1 e.2) d

instance [DecidableEq β] : DecidableEq (Dictionary β) := fun a b =>
  decidable_of_iff (a.entries = b.entries)
    ⟨fun h => by cases a; cases b; simp_all, fun h => by rw [h]⟩

@[simp] theorem get?_empty (key : String) : (empty : Dictionary β).get? key = none := rfl

private theorem find?_insertEntry (key : String) (value : β) (other : String)
    (entries : List (String × β)) :
    ((insertEntry key value entries).find? (fun e => e.1 = other)).map (·.2) =
      if other = key then some value
      else (entries.find? (fun e => e.1 = other)).map (·.2) := by
  induction entries with
  | nil => by_cases h : other = key <;> simp [insertEntry, h, eq_comm]
  | cons head rest ih =>
    obtain ⟨k, v⟩ := head
    rw [insertEntry]
    split
    · by_cases h : other = key
      · simp [h]
      · simp [List.find?_cons, h, Ne.symm h]
    · split
      · rename_i heq
        by_cases h : other = key
        · simp [h]
        · simp [h, Ne.symm h, ← heq]
      · rename_i hne
        by_cases hk : k = other
        · subst hk
          simp [Ne.symm hne]
        · simpa [List.find?_cons, hk] using ih

theorem get?_insert (d : Dictionary β) (key other : String) (value : β) :
    (d.insert key value).get? other = if other = key then some value else d.get? other :=
  find?_insertEntry key value other d.entries

@[simp] theorem get?_insert_self (d : Dictionary β) (key : String) (value : β) :
    (d.insert key value).get? key = some value := by simp [get?_insert]

theorem get?_insert_of_ne (d : Dictionary β) {key other : String} (value : β)
    (h : other ≠ key) : (d.insert key value).get? other = d.get? other := by
  simp [get?_insert, h]

theorem get?_erase (d : Dictionary β) (key other : String) :
    (d.erase key).get? other = if other = key then none else d.get? other := by
  unfold erase get?
  rw [List.find?_filter]
  by_cases h : other = key
  · subst h
    simp
  · simp only [h, if_false]
    congr 2
    funext e
    by_cases he : e.1 = other <;> simp [he, h]

theorem get?_eq_some_iff (d : Dictionary β) (key : String) (value : β) :
    d.get? key = some value ↔ (key, value) ∈ d.entries := by
  obtain ⟨entries, hasc⟩ := d
  unfold get?
  induction entries with
  | nil => simp
  | cons head rest ih =>
    obtain ⟨k, v⟩ := head
    obtain ⟨hh, hr⟩ := List.pairwise_cons.1 hasc
    by_cases hk : k = key
    · subst hk
      simp only [List.find?_cons, decide_true, Option.map_some, Option.some.injEq,
        List.mem_cons, Prod.mk.injEq, true_and]
      constructor
      · exact fun h => Or.inl h.symm
      · rintro (h | h)
        · exact h.symm
        · exact absurd (hh _ h) (String.lt_irrefl _)
    · simpa [List.find?_cons, hk, Ne.symm hk] using ih hr

/-- A later binding hides an earlier one. -/
theorem get?_merge (d later : Dictionary β) (key : String) :
    (d.merge later).get? key = (later.get? key).or (d.get? key) := by
  obtain ⟨entries, ascending⟩ := later
  simp only [merge, get?]
  induction entries generalizing d with
  | nil => simp
  | cons head rest ih =>
    obtain ⟨above, ascending⟩ := List.pairwise_cons.1 ascending
    rw [List.foldl_cons, ih _ ascending]
    change Option.or _ ((d.insert head.1 head.2).get? key) = _
    by_cases here : head.1 = key
    · have absent : rest.find? (fun e => e.1 = key) = none := by
        rw [List.find?_eq_none]
        intro e inside
        simpa using fun same => absurd (above e inside) (by simp [same, here])
      simp [absent, here]
    · rw [get?_insert_of_ne d head.2 (Ne.symm here), List.find?_cons_of_neg (by simpa using here)]
      rfl

/-- Dictionaries with the same look-ups are equal. -/
theorem ext_get? {a b : Dictionary β} (h : ∀ key, a.get? key = b.get? key) : a = b := by
  have hmem : ∀ e : String × β, e ∈ a.entries ↔ e ∈ b.entries := fun e => by
    rw [← Prod.eta e, ← get?_eq_some_iff, ← get?_eq_some_iff, h]
  obtain ⟨as, ha⟩ := a
  obtain ⟨bs, hb⟩ := b
  simp only [mk.injEq]
  clear h
  induction as generalizing bs with
  | nil =>
    cases bs with
    | nil => rfl
    | cons e _ => exact absurd ((hmem e).2 (List.mem_cons_self ..)) (by simp)
  | cons x as ih =>
    cases bs with
    | nil => exact absurd ((hmem x).1 (List.mem_cons_self ..)) (by simp)
    | cons y bs =>
      obtain ⟨hx, ha'⟩ := List.pairwise_cons.1 ha
      obtain ⟨hy, hb'⟩ := List.pairwise_cons.1 hb
      have hxy : x = y := by
        rcases List.mem_cons.1 ((hmem x).1 (List.mem_cons_self ..)) with h | h
        · exact h
        · rcases List.mem_cons.1 ((hmem y).2 (List.mem_cons_self ..)) with h' | h'
          · exact h'.symm
          · exact absurd (hx y h') (String.lt_asymm (hy x h))
      subst hxy
      have htail : ∀ e : String × β, e ∈ as ↔ e ∈ bs := fun e => by
        have := hmem e
        simp only [List.mem_cons] at this
        constructor
        · intro he
          rcases this.1 (Or.inr he) with h | h
          · subst h
            exact absurd (hx e he) (String.lt_irrefl _)
          · exact h
        · intro he
          rcases this.2 (Or.inr he) with h | h
          · subst h
            exact absurd (hy e he) (String.lt_irrefl _)
          · exact h
      rw [ih ha' bs hb' htail]

end Dictionary

end SagaEngine
