import SagaEngine.Engine.Request
/-!
# Stores that several write to

One writer goes through a transaction request by request, and between two of its requests others
carry out whole transactions. What the writer can count on is little: its reads are right when they
are made, its update is declined just if the row has another version by then, and its commit either
finds the version still there or fails. Some stores keep others out from an update to its commit, or
from the begin on; there a commit cannot fail. Main statement: `Sharing.disturbed`.
-/

namespace SagaEngine

/-- A kind of store: what one writer asks of it, what others do to it, what is committed in it, and
whether its versions still count up. -/
structure SharedStore (S : Type) where
  Other : Type
  intruded : S → Other → S
  begin : S → Except StoreFailure Nat × S
  find? : Nat → String → S → Except StoreFailure (Option Execution) × S
  update : Nat → Execution → Nat → S → Except StoreFailure (Except Refusal Nat) × S
  commit : Nat → S → Except StoreFailure Unit × S
  drop : Nat → S → S
  row? : String → S → Option Execution
  Keeps : S → S → Prop
  keeps_refl : ∀ s, Keeps s s
  Counted : String → S → Prop

/-- A row is found that has a version. -/
def HasVersion (found : Option Execution) (n : Nat) : Prop :=
  ∃ row, found = some row ∧ row.version = n

instance (found : Option Execution) (n : Nat) : Decidable (HasVersion found n) :=
  decidable_of_iff (∃ row ∈ found, row.version = n) Iff.rfl

@[simp] theorem not_hasVersion_none (n : Nat) : ¬HasVersion none n := by
  intro has
  obtain ⟨row, found, -⟩ := has
  cases found

@[simp] theorem hasVersion_some (row : Execution) (n : Nat) :
    HasVersion (some row) n ↔ row.version = n := by
  constructor
  · intro has
    obtain ⟨row', found, version⟩ := has
    cases found
    exact version
  · intro version
    exact ⟨row, rfl, version⟩

/-- Why an update is declined: there is no row, or it has another version. -/
def Declines (found : Option Execution) (n : Nat) (refusal : Refusal) : Prop :=
  (found = none ∧ refusal.code = .notFound) ∨
    (found ≠ none ∧ ¬HasVersion found n ∧ refusal.code = .conflict)

/-- How far one writer has come: its transaction is not open, has written nothing, has written one
row over a version, or is committed. -/
inductive Hold where
  | free
  | fresh (tx : Nat)
  | wrote (tx : Nat) (x : String) (row : Execution) (base : Nat)
  | ended (tx : Nat)

def Hold.tx? : Hold → Option Nat
  | free => none
  | fresh tx => some tx
  | wrote tx .. => some tx
  | ended tx => some tx

namespace SharedStore

variable {S : Type}

def disturbed (b : SharedStore S) (s : S) (others : List b.Other) : S := others.foldl b.intruded s

/-- A request of a writer is carried out by the store. What a writer asks that neither lists nor
inserts anything is spelled out, and what is not for the store does not touch it. -/
def Carries (b : SharedStore S) (s : S) : (q : Request) → Response q → S → Prop
  | .begin, answer, s' => b.begin s = (answer, s')
  | .find tx x, answer, s' => b.find? tx x s = (answer, s')
  | .update tx row expected, answer, s' => b.update tx row expected s = (answer, s')
  | .commit tx, answer, s' => b.commit tx s = (answer, s')
  | .drop tx, _, s' => s' = b.drop tx s
  | .insert .., _, _ | .listByStatus .., _, _ | .listStale .., _, _ => True
  | _, _, s' => s' = s

end SharedStore

/-- What one writer can count on: what is known of a store at each stage, whatever the others do in
between, and what the writer's next request comes to. -/
structure Sharing {S : Type} (b : SharedStore S) where
  holds : Hold → S → Prop
  reads : String → Execution → Prop
  alone : Prop
  intruded {h : Hold} {s : S} (other : b.Other) : holds h s → holds h (b.intruded s other)
  begins {s : S} : holds .free s →
    ∃ tx s', b.begin s = (.ok tx, s') ∧ b.Keeps s s' ∧ holds (.fresh tx) s'
  finds {s : S} {tx : Nat} (x : String) : holds (.fresh tx) s →
    (∀ row, b.row? x s = some row → reads x row) ∧
      ∃ s', b.find? tx x s = (.ok (b.row? x s), s') ∧ b.Keeps s s' ∧ holds (.fresh tx) s'
  ends {s : S} {tx : Nat} : holds (.fresh tx) s →
    ∃ s', b.commit tx s = (.ok (), s') ∧ b.Keeps s s' ∧ holds (.ended tx) s'
  updates {s : S} {tx : Nat} {x : String} {seen row : Execution} : holds (.fresh tx) s →
    reads x seen → row.id = seen.id → b.Counted x s →
      ∃ answer s', b.update tx row seen.version s = (.ok answer, s') ∧ b.Keeps s s' ∧
        match answer with
        | .error refusal => Declines (b.row? x s) seen.version refusal ∧ holds (.fresh tx) s'
        | .ok _ => HasVersion (b.row? x s) seen.version ∧ holds (.wrote tx x row seen.version) s'
  commits {s : S} {tx : Nat} {x : String} {row : Execution} {n : Nat} :
    holds (.wrote tx x row n) s → HasVersion (b.row? x s) n →
      ∃ s', b.commit tx s = (.ok (), s') ∧ holds (.ended tx) s' ∧
        ∃ stored, b.row? x s' = some stored ∧ stored.cancelRequested = row.cancelRequested
  loses {s : S} {tx : Nat} {x : String} {row : Execution} {n : Nat} :
    holds (.wrote tx x row n) s → ¬HasVersion (b.row? x s) n →
      ∃ failure s', b.commit tx s = (.error failure, s') ∧ failure.kind = .conflict ∧
        b.Keeps s s' ∧ holds (.wrote tx x row n) s'
  waits {s : S} {tx : Nat} {x : String} {row : Execution} {n : Nat} :
    alone → holds (.wrote tx x row n) s → HasVersion (b.row? x s) n
  drops {h : Hold} {s : S} {tx : Nat} : holds h s → h.tx? = some tx →
    b.Keeps s (b.drop tx s) ∧ holds .free (b.drop tx s)

theorem Sharing.disturbed {S : Type} {b : SharedStore S} (i : Sharing b) {h : Hold} {s : S}
    (holds : i.holds h s) (others : List b.Other) : i.holds h (b.disturbed s others) := by
  induction others generalizing s with
  | nil => exact holds
  | cons other others ih => exact ih (i.intruded other holds)

end SagaEngine
