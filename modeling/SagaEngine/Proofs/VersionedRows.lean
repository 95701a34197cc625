import Mathlib.Data.List.Nodup
import SagaEngine.Store.Memory
/-!
# Rows under versions

The store that every backend stands for: a map from ids to rows. An insert is
declined if the row exists, an update unless the row has the expected version, and
a listing gives the matching rows in order of age. Main statements:
`RowMap.Accepts.version_le` and `oldestFirst_eq_of_perm`.
-/

namespace SagaEngine

/-- What an execution keeps from its start on. -/
structure Execution.Origin where
  id : String
  sagaType : String
  totalSteps : Int
  createdAt : Nat
  deriving DecidableEq, Repr

def Execution.origin (row : Execution) : Origin :=
  ⟨row.id, row.sagaType, row.totalSteps, row.createdAt⟩

abbrev RowMap := Dictionary Execution

inductive RowWrite where
  | insert (row : Execution)
  | update (row : Execution) (expected : Nat)
  deriving DecidableEq, Repr

inductive RowQuery where
  | find (executionId : String)
  | inStatus (status : Status) (limit : Nat)
  | stale (q : StaleQuery)
  deriving DecidableEq, Repr

namespace RowWrite

/-- The row that a write stores. -/
def row : RowWrite → Execution
  | insert row => row
  | update row expected => { row with version := wrapWord64 (expected + 1) }

def id (w : RowWrite) : String := w.row.id

/-- The version that a write replaces, unless its row is new. -/
def base : RowWrite → Option Nat
  | insert _ => none
  | update _ expected => some expected

/-- Why a write is declined that finds a row in its place, or none. -/
def declinedBy? : RowWrite → Option Execution → Option WriteCode
  | insert _, none => none
  | insert _, some _ => some .alreadyExists
  | update _ _, none => some .notFound
  | update _ expected, some stored => if stored.version = expected then none else some .conflict

def declined? (w : RowWrite) (rows : RowMap) : Option WriteCode := w.declinedBy? (rows.get? w.id)

/-- What a write is answered: the version of the row that it stores, unless it is declined. -/
def answer (w : RowWrite) (rows : RowMap) : Except WriteCode Nat :=
  match w.declined? rows with
  | some code => .error code
  | none => .ok w.row.version

end RowWrite

namespace RowMap

def put (rows : RowMap) (w : RowWrite) : RowMap := rows.insert w.id w.row

def putAll (rows : RowMap) (ws : List RowWrite) : RowMap := ws.foldl put rows

/-- The rows after a write, which may be declined. -/
def write (rows : RowMap) (w : RowWrite) : RowMap :=
  if w.declined? rows = none then rows.put w else rows

/-- The writes are accepted one after another. -/
def Accepts (rows : RowMap) : List RowWrite → Prop
  | [] => True
  | w :: ws => w.declined? rows = none ∧ Accepts (rows.put w) ws

/-- No update raises the largest version. -/
def Unwrapped (ws : List RowWrite) : Prop :=
  ∀ w ∈ ws, ∀ expected ∈ w.base, expected + 1 < 0x10000000000000000

def Keyed (rows : RowMap) : Prop := ∀ x row, rows.get? x = some row → row.id = x

/-- The first rows that satisfy a condition, in order of age. -/
def oldest (rows : RowMap) (condition : Execution → Bool) (limit : Nat) : List Execution :=
  (Execution.oldestFirst (rows.values.filter condition)).take limit

end RowMap

def RowQuery.answer (q : RowQuery) (rows : RowMap) : List Execution :=
  match q with
  | .find x => (rows.get? x).toList
  | .inStatus status limit => rows.oldest (fun row => row.status = status) limit
  | .stale q =>
    rows.oldest (fun row => row.updatedAt < q.updatedBefore && row.status ∈ q.statuses) q.limit

section

variable {rows : RowMap} {w : RowWrite} {ws ws' : List RowWrite} {row : Execution} {x : String}
  {as bs : List Execution}

theorem RowWrite.declined?_congr {rows' : RowMap} (same : rows.get? w.id = rows'.get? w.id) :
    w.declined? rows = w.declined? rows' := by
  rw [RowWrite.declined?, RowWrite.declined?, same]

namespace RowMap

/-! ## Writes one after another -/

theorem get?_put : (rows.put w).get? x = if x = w.id then some w.row else rows.get? x :=
  Dictionary.get?_insert rows w.id x w.row

theorem putAll_append : rows.putAll (ws ++ ws') = (rows.putAll ws).putAll ws' := List.foldl_append

theorem putAll_concat : rows.putAll (ws ++ [w]) = (rows.putAll ws).put w := putAll_append

theorem accepts_append :
    rows.Accepts (ws ++ ws') ↔ rows.Accepts ws ∧ (rows.putAll ws).Accepts ws' := by
  induction ws generalizing rows with
  | nil => simp [Accepts, putAll]
  | cons w ws ih => rw [List.cons_append, Accepts, Accepts, ih, and_assoc]; rfl

theorem accepts_concat :
    rows.Accepts (ws ++ [w]) ↔ rows.Accepts ws ∧ w.declined? (rows.putAll ws) = none := by
  rw [accepts_append]
  exact and_congr_right fun _ => and_iff_left trivial

/-- Accepted writes never lower the version of a row, and those that are about it raise it. -/
theorem Accepts.version_le (accepts : rows.Accepts ws) (unwrapped : Unwrapped ws)
    (found : rows.get? x = some row) :
    ∃ row', (rows.putAll ws).get? x = some row' ∧ row.version ≤ row'.version ∧
      ((∃ w ∈ ws, w.id = x) → row.version < row'.version) := by
  induction ws generalizing rows row with
  | nil => exact ⟨row, found, Nat.le_refl _, fun ⟨w, inside, _⟩ => nomatch inside⟩
  | cons w ws ih =>
    obtain ⟨accepted, accepts⟩ := accepts
    have unwrapped' : Unwrapped ws := fun w inside => unwrapped w (List.mem_cons_of_mem _ inside)
    -- only a write of this very row can raise its version; any other one leaves it alone
    by_cases here : w.id = x
    · have raised : row.version < w.row.version := by
        rw [RowWrite.declined?, here, found] at accepted
        cases w with
        | insert => cases accepted
        | update row' expected =>
          have room : expected + 1 < 0x10000000000000000 :=
            unwrapped _ List.mem_cons_self expected rfl
          simp only [RowWrite.declinedBy?] at accepted
          split at accepted
          · rename_i current
            simp only [RowWrite.row, wrapWord64]
            omega
          · cases accepted
      obtain ⟨row', found', above, -⟩ :=
        ih accepts unwrapped' (by rw [get?_put, if_pos here.symm])
      exact ⟨row', found', by omega, fun _ => by omega⟩
    · have still : (rows.put w).get? x = some row := by rw [get?_put, if_neg (Ne.symm here), found]
      obtain ⟨row', found', above, more⟩ := ih accepts unwrapped' still
      refine ⟨row', found', above, ?_⟩
      rintro ⟨w', inside, about⟩
      rcases List.mem_cons.1 inside with rfl | inside
      · exact absurd about here
      · exact more ⟨w', inside, about⟩

/-! ## Rows under their ids -/

theorem keyed_empty : Keyed Dictionary.empty := fun _ _ found => nomatch found

theorem Keyed.put (keyed : rows.Keyed) : (rows.put w).Keyed := by
  intro x row found
  rw [get?_put] at found
  split at found
  · rename_i here
    cases found
    exact here.symm
  · exact keyed x row found

theorem Keyed.putAll (keyed : rows.Keyed) : (rows.putAll ws).Keyed := by
  induction ws generalizing rows with
  | nil => exact keyed
  | cons w ws ih => exact ih keyed.put

theorem mem_values (keyed : rows.Keyed) : row ∈ rows.values ↔ rows.get? row.id = some row := by
  rw [Dictionary.values, List.mem_map, Dictionary.get?_eq_some_iff]
  constructor
  · rintro ⟨⟨x, row'⟩, inside, rfl⟩
    obtain rfl : row'.id = x := keyed x row' ((Dictionary.get?_eq_some_iff rows x row').2 inside)
    exact inside
  · intro inside
    exact ⟨_, inside, rfl⟩

theorem values_distinct (keyed : rows.Keyed) : (rows.values.map (·.id)).Nodup := by
  have ids : rows.values.map (·.id) = rows.entries.map (·.1) := by
    rw [Dictionary.values, List.map_map]
    apply List.map_congr_left
    rintro ⟨x, row⟩ inside
    exact keyed x row ((Dictionary.get?_eq_some_iff rows x row).2 inside)
  rw [ids]
  refine List.Pairwise.map _ ?_ rows.ascending
  intro a b below same
  rw [same] at below
  exact String.lt_irrefl _ below

end RowMap

/-! ## The order of age -/

theorem Execution.isOlder_trans (a b c : Execution) (first : a.isOlder b = true)
    (second : b.isOlder c = true) : a.isOlder c = true := by
  simp only [Execution.isOlder] at *
  split at first <;> split at second <;> split <;> simp_all
  all_goals first | exact String.le_trans first second | omega

theorem Execution.isOlder_total (a b : Execution) : (a.isOlder b || b.isOlder a) = true := by
  simp only [Execution.isOlder]
  split
  · rename_i same
    simpa [same] using String.le_total a.id b.id
  · simp only [decide_eq_true_eq, Bool.or_eq_true]
    split <;> simp <;> omega

theorem Execution.eq_id_of_isOlder {a b : Execution} (first : a.isOlder b = true)
    (second : b.isOlder a = true) : a.id = b.id := by
  simp only [Execution.isOlder] at *
  split at first
  · rename_i same
    rw [if_pos same.symm] at second
    exact String.le_antisymm (of_decide_eq_true first) (of_decide_eq_true second)
  · rename_i differs
    rw [if_neg (Ne.symm differs)] at second
    simp at first second
    omega

/-- The order of age depends on the rows alone, as long as no two of them share an id. -/
theorem oldestFirst_eq_of_perm (perm : as.Perm bs) (distinct : (as.map (·.id)).Nodup) :
    Execution.oldestFirst as = Execution.oldestFirst bs := by
  have sorted (rows : List Execution) := List.pairwise_mergeSort Execution.isOlder_trans
    Execution.isOlder_total rows
  have perm' : (Execution.oldestFirst as).Perm (Execution.oldestFirst bs) :=
    (List.mergeSort_perm as _).trans (perm.trans (List.mergeSort_perm bs _).symm)
  refine perm'.eq_of_pairwise ?_ (sorted as) (sorted bs)
  intro a b inside inside' first second
  have inside := (List.mergeSort_perm as _).subset inside
  have inside' := perm.symm.subset ((List.mergeSort_perm bs _).subset inside')
  exact List.inj_on_of_nodup_map distinct inside inside' (Execution.eq_id_of_isOlder first second)

end

end SagaEngine
