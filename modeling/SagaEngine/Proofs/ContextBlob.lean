import SagaEngine.Proofs.WrittenValues
import SagaEngine.Saga.Context
/-!
# Contexts survive their stored form

The blob that is written for a context reads back as that context, whatever keys
and values it has. Main statement: `Context.ofBlob_toBlob`.
-/

namespace SagaEngine

namespace Json

/-! ## Objects of texts -/

/-- The members that bind each key to a text. -/
def texts (pairs : List (String × String)) : List (String × Json) :=
  pairs.map fun pair => (pair.1, .string pair.2)

theorem readsBack_texts (pairs : List (String × String)) : ReadsBack (.object (texts pairs)) := by
  refine .object fun m inside => ?_
  obtain ⟨pair, -, rfl⟩ := List.mem_map.1 inside
  exact .string pair.2

end Json

namespace Context

open Json

theorem toJson_eq_texts (values : Context) : values.toJson = .object (texts values.entries) := rfl

/-- The text of a message with one map is read as that message. -/
theorem read?_write_values (pairs : List (String × String)) :
    read? (write (.object [("values", .object (texts pairs))])) =
      some (.object [("values", .object (texts pairs))]) := by
  refine ReadsBack.read?_write (.object fun m inside => ?_)
  rw [List.mem_singleton.1 inside]
  exact readsBack_texts pairs

/-! ## Entries in ascending order -/

theorem insertEntry_last {key value : String} {entries : List (String × String)}
    (above : ∀ entry ∈ entries, entry.1 < key) :
    Dictionary.insertEntry key value entries = entries ++ [(key, value)] := by
  induction entries with
  | nil => rfl
  | cons entry entries ih =>
    have less := above entry List.mem_cons_self
    have notBelow : ¬key < entry.1 := String.lt_asymm less
    have notSame : key ≠ entry.1 := fun same => String.lt_irrefl key (same ▸ less)
    rw [Dictionary.insertEntry, if_neg notBelow, if_neg notSame,
      ih fun other inside => above other (List.mem_cons_of_mem _ inside)]
    rfl

/-- Binding the entries of a context one after another, each above those before it,
gives the context. -/
theorem addMembers?_texts (pairs : List (String × String)) (values whole : Context)
    (split : whole.entries = values.entries ++ pairs) :
    addMembers? values (.object (texts pairs)) = some whole := by
  induction pairs generalizing values with
  | nil =>
    have same : whole.entries = values.entries := by simpa using split
    obtain ⟨entries, ascending⟩ := whole
    cases same
    rfl
  | cons pair pairs ih =>
    have ordered := whole.ascending
    rw [split] at ordered
    have above : ∀ entry ∈ values.entries, entry.1 < pair.1 := by
      intro entry inside
      exact (List.pairwise_append.1 ordered).2.2 entry inside pair List.mem_cons_self
    apply ih (values.insert pair.1 pair.2)
    have extended : (values.insert pair.1 pair.2).entries = values.entries ++ [pair] :=
      insertEntry_last above
    rw [extended, split, List.append_assoc]
    rfl

/-- The stored form of a context is read back as that context. -/
theorem ofBlob?_toBlob (values : Context) : ofBlob? values.toBlob = some values := by
  rw [toBlob]
  split
  · rename_i none
    have empty : values = Dictionary.empty := by
      obtain ⟨entries, ascending⟩ := values
      cases List.isEmpty_iff.1 none
      rfl
    rw [empty]
    decide
  · have written : (write (.object [("values", values.toJson)])).isEmpty = false := by
      rw [write, String.isEmpty_eq_false_iff, Ne, ← String.toList_inj, String.toList_ofList]
      simp [chars]
    have members := addMembers?_texts values.entries Dictionary.empty values rfl
    rw [ofBlob?, written, toJson_eq_texts, read?_write_values]
    simp [readMessage?, setMember, blobFields, FieldReader.plain, members]

theorem ofBlob_toBlob (values : Context) : ofBlob values.toBlob = .ok values :=
  ofBlob_eq_ok_iff.2 (ofBlob?_toBlob values)

end Context

end SagaEngine
