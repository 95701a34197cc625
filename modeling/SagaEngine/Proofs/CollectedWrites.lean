import SagaEngine.Proofs.VersionedRows
/-!
# The writes that a transaction has collected

A transaction of the store in memory keeps one collected write for each row: the
last row that was stored, and the version that the first of its writes replaces. It
reads as if its writes were applied to the committed rows, and a commit finds no
stale write exactly if the committed rows accept the writes one after another. Main
statements: `Collects.current_iff`, `MemoryStore.read_eq` and `MemoryStore.write_eq`.
-/

namespace SagaEngine

/-- A transaction has collected what some writes came to, each accepted after those before it. -/
inductive Collects : PendingWrites → List RowWrite → Prop
  | nothing : Collects [] []
  | first {pending : PendingWrites} {ws : List RowWrite} (w : RowWrite)
      (before : Collects pending ws) (fresh : pending.find? w.id = none) :
      Collects (pending.add ⟨w.row, w.base⟩) (ws ++ [w])
  | again {pending : PendingWrites} {ws : List RowWrite} (w : RowWrite) {own : PendingWrite}
      (before : Collects pending ws) (found : pending.find? w.id = some own)
      (version : w.base = some own.row.version) :
      Collects (pending.replace w.row) (ws ++ [w])

namespace PendingWrites

def Distinct (pending : PendingWrites) : Prop := (pending.map (·.row.id)).Nodup

/-- The committed rows with the collected ones in their places. -/
def install (pending : PendingWrites) (rows : RowMap) : RowMap :=
  pending.foldl (fun rows w => rows.insert w.row.id w.row) rows

variable {pending : PendingWrites} {w w' : PendingWrite} {x : String} {row : Execution}
  {rows : RowMap}

theorem find?_eq_some_iff (distinct : pending.Distinct) :
    pending.find? x = some w ↔ w ∈ pending ∧ w.row.id = x := by
  constructor
  · intro found
    exact ⟨List.mem_of_find?_eq_some found, by simpa using List.find?_some found⟩
  · rintro ⟨inside, rfl⟩
    have present : (pending.find? w.row.id).isSome = true :=
      List.find?_isSome.2 ⟨w, inside, decide_eq_true rfl⟩
    obtain ⟨w', found⟩ := Option.isSome_iff_exists.1 present
    have same : w'.row.id = w.row.id := by simpa using List.find?_some found
    rw [found, List.inj_on_of_nodup_map distinct (List.mem_of_find?_eq_some found) inside same]

theorem find?_eq_none_iff : pending.find? x = none ↔ ∀ w ∈ pending, w.row.id ≠ x := by
  rw [PendingWrites.find?, List.find?_eq_none]
  simp

theorem mem_add : w' ∈ pending.add w ↔ w' = w ∨ w' ∈ pending :=
  (BucketOrder.add_perm _ _ _).mem_iff.trans List.mem_cons

theorem Distinct.add (distinct : pending.Distinct) (fresh : pending.find? w.row.id = none) :
    (pending.add w).Distinct := by
  have perm := (BucketOrder.add_perm (fun w => BucketOrder.hashOf w.row.id) w pending).map
    (·.row.id)
  refine perm.nodup_iff.2 (List.nodup_cons.2 ⟨?_, distinct⟩)
  rintro inside
  obtain ⟨w', inside, same⟩ := List.mem_map.1 inside
  exact find?_eq_none_iff.1 fresh w' inside same

theorem find?_add (distinct : pending.Distinct) (fresh : pending.find? w.row.id = none) :
    (pending.add w).find? x = if x = w.row.id then some w else pending.find? x := by
  ext w'
  rw [find?_eq_some_iff (distinct.add fresh), mem_add]
  by_cases here : x = w.row.id
  · rw [if_pos here, Option.some.injEq]
    constructor
    · rintro ⟨rfl | inside, same⟩
      · rfl
      · exact absurd (same.trans here) (find?_eq_none_iff.1 fresh w' inside)
    · rintro rfl
      exact ⟨.inl rfl, here.symm⟩
  · rw [if_neg here, find?_eq_some_iff distinct]
    constructor
    · rintro ⟨rfl | inside, same⟩
      · exact absurd same.symm here
      · exact ⟨inside, same⟩
    · rintro ⟨inside, same⟩
      exact ⟨.inr inside, same⟩

/-- A replaced write is about the row that it was about. -/
theorem id_of_replaced (w : PendingWrite) (row : Execution) :
    (if w.row.id = row.id then { w with row } else w).row.id = w.row.id := by
  split
  · rename_i same
    exact same.symm
  · rfl

theorem find?_replace (pending : PendingWrites) (row : Execution) (x : String) :
    (pending.replace row).find? x =
      (pending.find? x).map fun w => if w.row.id = row.id then { w with row } else w := by
  rw [PendingWrites.find?, PendingWrites.replace, List.find?_map]
  simp only [Function.comp_def, id_of_replaced]
  rfl

theorem Distinct.replace (distinct : pending.Distinct) : (pending.replace row).Distinct := by
  rw [Distinct, PendingWrites.replace, List.map_map]
  simp only [Function.comp_def, id_of_replaced]
  exact distinct

theorem get?_install (distinct : pending.Distinct) :
    (pending.install rows).get? x = ((pending.find? x).map (·.row)).or (rows.get? x) := by
  induction pending generalizing rows with
  | nil => rfl
  | cons w pending ih =>
    obtain ⟨fresh, distinct⟩ := List.nodup_cons.1 distinct
    rw [install, List.foldl_cons, ← install, ih distinct]
    by_cases here : w.row.id = x
    · have absent : PendingWrites.find? pending x = none := by
        rw [find?_eq_none_iff]
        intro w' inside same
        exact fresh (List.mem_map.2 ⟨w', inside, same.trans here.symm⟩)
      rw [absent, here, Dictionary.get?_insert_self, PendingWrites.find?,
        List.find?_cons_of_pos (by simpa using here)]
      rfl
    · rw [Dictionary.get?_insert_of_ne _ _ (Ne.symm here), PendingWrites.find?, PendingWrites.find?,
        List.find?_cons_of_neg (by simpa using here)]

end PendingWrites

namespace Collects

variable {pending : PendingWrites} {ws : List RowWrite} {rows : RowMap} {x : String}
  {s : MemoryStore} {tx : Nat}

theorem distinct (collects : Collects pending ws) : pending.Distinct := by
  induction collects with
  | nothing => exact List.nodup_nil
  | first w before fresh ih => exact ih.add fresh
  | again w before found version ih => exact ih.replace

/-- The collected writes come to the same rows as the writes one after another. -/
theorem get?_putAll (collects : Collects pending ws) :
    (rows.putAll ws).get? x = ((pending.find? x).map (·.row)).or (rows.get? x) := by
  induction collects with
  | nothing => rfl
  | first w before fresh ih =>
    rw [RowMap.putAll_concat, RowMap.get?_put, ih, PendingWrites.find?_add before.distinct fresh]
    by_cases here : x = w.row.id
    · rw [if_pos here, RowWrite.id, if_pos here]
      rfl
    · rw [if_neg here, RowWrite.id, if_neg here]
  | @again pending ws w own before found version ih =>
    rw [RowMap.putAll_concat, RowMap.get?_put, ih, PendingWrites.find?_replace]
    by_cases here : x = w.id
    · obtain ⟨-, about⟩ := (PendingWrites.find?_eq_some_iff before.distinct).1 found
      have about : own.row.id = w.row.id := about
      rw [if_pos here, here, found, Option.map_some, if_pos about]
      rfl
    · rw [if_neg here]
      cases other : pending.find? x with
      | none => rfl
      | some w' =>
        obtain ⟨-, about⟩ := (PendingWrites.find?_eq_some_iff before.distinct).1 other
        have differs : w'.row.id ≠ w.row.id := fun same => here (about.symm.trans same)
        simp only [Option.map_some, if_neg differs]

theorem install_eq (collects : Collects pending ws) : pending.install rows = rows.putAll ws := by
  apply Dictionary.ext_get?
  intro x
  rw [PendingWrites.get?_install collects.distinct, collects.get?_putAll]

theorem get?_putAll_of_fresh (collects : Collects pending ws) (fresh : pending.find? x = none) :
    (rows.putAll ws).get? x = rows.get? x := by
  rw [collects.get?_putAll, fresh]
  rfl

theorem get?_putAll_of_found {own : PendingWrite} (collects : Collects pending ws)
    (found : pending.find? x = some own) : (rows.putAll ws).get? x = some own.row := by
  rw [collects.get?_putAll, found]
  rfl

theorem staleWrite?_replaced (w : PendingWrite) (row : Execution) :
    s.staleWrite? (if w.row.id = row.id then { w with row } else w) = s.staleWrite? w := by
  split
  · rename_i same
    simp only [MemoryStore.staleWrite?, same]
  · rfl

/-- A write is stale as soon as the committed rows would decline it. -/
theorem staleWrite?_eq_none_iff {w : RowWrite} :
    s.staleWrite? ⟨w.row, w.base⟩ = none ↔ w.declined? s.committed = none := by
  cases w with
  | insert row =>
    simp only [MemoryStore.staleWrite?, RowWrite.declined?, RowWrite.row, RowWrite.base,
      RowWrite.id]
    cases s.committed.get? row.id <;> simp [RowWrite.declinedBy?]
  | update row expected =>
    simp only [MemoryStore.staleWrite?, RowWrite.declined?, RowWrite.row, RowWrite.base,
      RowWrite.id]
    cases s.committed.get? row.id <;> simp [RowWrite.declinedBy?]

/-- No collected write is stale exactly if the committed rows accept the writes. -/
theorem current_iff (collects : Collects pending ws) :
    (∀ w ∈ pending, s.staleWrite? w = none) ↔ RowMap.Accepts s.committed ws := by
  induction collects with
  | nothing => simp [RowMap.Accepts]
  | first w before fresh ih =>
    rw [RowMap.accepts_concat, RowWrite.declined?_congr (before.get?_putAll_of_fresh fresh),
      ← staleWrite?_eq_none_iff, ← ih]
    constructor
    · intro current
      exact ⟨fun w' inside => current w' (PendingWrites.mem_add.2 (.inr inside)),
        current _ (PendingWrites.mem_add.2 (.inl rfl))⟩
    · rintro ⟨older, newest⟩ w' inside
      rcases PendingWrites.mem_add.1 inside with rfl | inside
      · exact newest
      · exact older w' inside
  | @again pending ws w own before found version ih =>
    have accepted : w.declined? (RowMap.putAll s.committed ws) = none := by
      rw [RowWrite.declined?, before.get?_putAll_of_found found]
      cases w with
      | insert row => cases version
      | update row expected =>
        cases version
        simp [RowWrite.declinedBy?]
    have same : (∀ w' ∈ pending.replace w.row, s.staleWrite? w' = none) ↔
        ∀ w' ∈ pending, s.staleWrite? w' = none := by
      simp only [PendingWrites.replace, List.forall_mem_map, staleWrite?_replaced]
    rw [same, ih, RowMap.accepts_concat, and_iff_left accepted]

end Collects

/-! ## What a transaction is answered -/

namespace MemoryStore

def write (s : MemoryStore) (tx : Nat) : RowWrite → Except WriteCode Nat × MemoryStore
  | .insert row =>
    let (answer, s) := s.insert tx row
    ((answer.mapError Refusal.code).map fun _ => row.version, s)
  | .update row expected =>
    let (answer, s) := s.update tx row expected
    (answer.mapError Refusal.code, s)

def read (s : MemoryStore) (tx : Nat) : RowQuery → List Execution
  | .find x => (s.find? tx x).toList
  | .inStatus status limit => s.listByStatus tx status limit
  | .stale q => s.listStale tx q

variable {s : MemoryStore} {tx : Nat} {ws : List RowWrite} {w : RowWrite}

theorem get?_writes_setWrites (s : MemoryStore) (tx tx' : Nat) (pending : PendingWrites) :
    (s.setWrites tx pending).writes tx' = if tx' = tx then pending else s.writes tx' := by
  simp only [writes, setWrites, Numbered.get?_set]
  split <;> rfl

theorem writes_begin (s : MemoryStore) (tx : Nat) :
    s.begin.2.writes tx = if tx = s.transactions.next then [] else s.writes tx := by
  simp only [writes, begin, Numbered.get?_add]
  split <;> rfl

theorem find?_eq (collects : Collects (s.writes tx) ws) (x : String) :
    s.find? tx x = (RowMap.putAll s.committed ws).get? x := by
  rw [collects.get?_putAll, find?]
  cases (s.writes tx).find? x <;> rfl

theorem visible_perm (collects : Collects (s.writes tx) ws) (keyed : RowMap.Keyed s.committed) :
    (s.visible tx).Perm (RowMap.putAll s.committed ws).values := by
  have nodup {rows : List Execution} (distinct : (rows.map (·.id)).Nodup) : rows.Nodup :=
    distinct.of_map
  have own : ((s.writes tx).map (·.row)).Nodup := by
    apply nodup
    rw [List.map_map]
    exact collects.distinct
  refine (List.perm_ext_iff_of_nodup ?_ (nodup (RowMap.values_distinct keyed.putAll))).2 ?_
  · refine List.nodup_append.2 ⟨(nodup (RowMap.values_distinct keyed)).filter _, own, ?_⟩
    rintro row unwritten row' written rfl
    obtain ⟨w, inside, rfl⟩ := List.mem_map.1 written
    have absent := (List.mem_filter.1 unwritten).2
    rw [(PendingWrites.find?_eq_some_iff collects.distinct).2 ⟨inside, rfl⟩] at absent
    cases absent
  · intro row
    rw [RowMap.mem_values keyed.putAll, collects.get?_putAll, visible, List.mem_append,
      List.mem_filter, RowMap.mem_values keyed, List.mem_map, Option.or_eq_some_iff]
    constructor
    · rintro (⟨stored, absent⟩ | ⟨w, inside, rfl⟩)
      · exact .inr ⟨by simpa using absent, stored⟩
      · rw [(PendingWrites.find?_eq_some_iff collects.distinct).2 ⟨inside, rfl⟩]
        exact .inl rfl
    · rintro (own | ⟨absent, stored⟩)
      · obtain ⟨w, found, rfl⟩ := Option.map_eq_some_iff.1 own
        exact .inr ⟨w, ((PendingWrites.find?_eq_some_iff collects.distinct).1 found).1, rfl⟩
      · exact .inl ⟨stored, by simpa using absent⟩

theorem read_eq (collects : Collects (s.writes tx) ws) (keyed : RowMap.Keyed s.committed)
    (q : RowQuery) : s.read tx q = q.answer (RowMap.putAll s.committed ws) := by
  have oldest (condition : Execution → Bool) (limit : Nat) :
      (Execution.oldestFirst ((s.visible tx).filter condition)).take limit =
        (RowMap.putAll s.committed ws).oldest condition limit := by
    have perm := (visible_perm collects keyed).filter condition
    rw [RowMap.oldest, oldestFirst_eq_of_perm perm]
    apply (perm.map (·.id)).nodup_iff.2
    exact (RowMap.values_distinct keyed.putAll).sublist (List.filter_sublist.map _)
  cases q with
  | find x => exact congrArg Option.toList (find?_eq collects x)
  | inStatus status limit => exact oldest _ limit
  | stale q => exact oldest _ q.limit

/-- What a transaction has collected after one more write. -/
def collect (s : MemoryStore) (tx : Nat) (w : RowWrite) : PendingWrites :=
  match (s.writes tx).find? w.id with
  | some _ => (s.writes tx).replace w.row
  | none => (s.writes tx).add ⟨w.row, w.base⟩

theorem write_eq (s : MemoryStore) (tx : Nat) (w : RowWrite) :
    s.write tx w = match w.declinedBy? (s.find? tx w.id) with
      | some code => (.error code, s)
      | none => (.ok w.row.version, s.setWrites tx (s.collect tx w)) := by
  cases w with
  | insert row =>
    have shown : s.find? tx (RowWrite.insert row).id = s.find? tx row.id := rfl
    rw [write, insert, shown]
    cases found : s.find? tx row.id with
    | some stored => rfl
    | none =>
      have fresh : (s.writes tx).find? row.id = none := by
        rw [find?] at found
        split at found
        · cases found
        · assumption
      have own : s.collect tx (.insert row) = (s.writes tx).add ⟨row, none⟩ := by
        rw [collect, RowWrite.id, RowWrite.row, fresh]
        rfl
      rw [own]
      rfl
  | update row expected =>
    have shown : s.find? tx (RowWrite.update row expected).id = s.find? tx row.id := rfl
    rw [write, update, shown]
    cases found : s.find? tx row.id with
    | none => rfl
    | some stored =>
      by_cases current : stored.version = expected
      · simp only [RowWrite.declinedBy?, current, ne_eq, not_true_eq_false, if_false, if_true]
        have own : (RowWrite.update row expected).id = row.id := rfl
        rw [collect, own]
        cases (s.writes tx).find? row.id <;> rfl
      · simp only [RowWrite.declinedBy?, current, ne_eq, not_false_eq_true, if_false, if_true]
        rfl

theorem write_declined (collects : Collects (s.writes tx) ws) {code : WriteCode}
    (declined : w.declined? (RowMap.putAll s.committed ws) = some code) :
    s.write tx w = (.error code, s) := by
  rw [RowWrite.declined?, ← find?_eq collects] at declined
  rw [write_eq, declined]

theorem write_accepted (collects : Collects (s.writes tx) ws)
    (accepted : w.declined? (RowMap.putAll s.committed ws) = none) :
    s.write tx w = (.ok w.row.version, s.setWrites tx (s.collect tx w)) ∧
      Collects (s.collect tx w) (ws ++ [w]) := by
  rw [RowWrite.declined?, ← find?_eq collects] at accepted
  refine ⟨by rw [write_eq, accepted], ?_⟩
  rw [collect]
  cases found : (s.writes tx).find? w.id with
  | none => exact .first w collects found
  | some own =>
    refine .again w collects found ?_
    rw [find?, found] at accepted
    cases w with
    | insert row => cases accepted
    | update row expected =>
      simp only [RowWrite.declinedBy?] at accepted
      split at accepted
      · rename_i current
        exact congrArg some current.symm
      · cases accepted

theorem kind_of_staleWrite? {w : PendingWrite} {failure : StoreFailure}
    (stale : s.staleWrite? w = some failure) : failure.kind = .conflict := by
  rw [staleWrite?] at stale
  split at stale
  · cases stale
    rfl
  · cases stale
  · split at stale <;> cases stale
    rfl
  · cases stale
    rfl

/-- A commit installs every write if the committed rows still accept them. -/
theorem commit_accepted (collects : Collects (s.writes tx) ws)
    (accepts : RowMap.Accepts s.committed ws) :
    s.commit tx =
      (.ok (), { s with committed := RowMap.putAll s.committed ws }.setWrites tx []) := by
  have current := List.findSome?_eq_none_iff.2 (collects.current_iff.2 accepts)
  have installed : (s.writes tx).foldl (fun rows w => rows.insert w.row.id w.row) s.committed =
      RowMap.putAll s.committed ws := collects.install_eq
  simp only [commit, current, installed]

/-- A commit changes nothing if they do not. -/
theorem commit_declined (collects : Collects (s.writes tx) ws)
    (declines : ¬RowMap.Accepts s.committed ws) :
    ∃ failure, s.commit tx = (.error failure, s) ∧ failure.kind = .conflict := by
  rw [commit]
  cases stale : (s.writes tx).findSome? s.staleWrite? with
  | none => exact absurd (collects.current_iff.1 (List.findSome?_eq_none_iff.1 stale)) declines
  | some failure =>
    obtain ⟨w, -, is⟩ := List.exists_of_findSome?_eq_some stale
    exact ⟨failure, rfl, kind_of_staleWrite? is⟩

end MemoryStore

end SagaEngine
