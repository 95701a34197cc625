import SagaEngine.Proofs.FailedOperations
import SagaEngine.Proofs.FileStages
/-!
# The rounds of a cancel request

A cancel request reads the row and writes it back with the flag, three times at most. Others write
in between, so its update may meet another version than the one it read, and in memory so may its
commit. It goes on after the first and fails at once after the second: that is the one race it does
not try again after. Main statements: `cancelWithin_closes` and `cancel_ends_iff`.
-/

namespace SagaEngine

namespace Store

/-- The rows stand under their own ids, and on a file nobody is in the middle of a transaction. -/
def Ready : Store → Prop
  | memory m => RowMap.Keyed m.committed
  | database d c => d.Holds c .free

/-- The rows are in a file. -/
def OnFile : Store → Prop
  | memory _ => False
  | database .. => True

theorem Ready.sharing {s : Store} (ready : s.Ready) :
    ∃ i : Sharing shared, i.holds .free s ∧ (s.OnFile → i.alone) := by
  cases s with
  | memory m => exact ⟨.inMemory, ⟨m, rfl, ready⟩, False.elim⟩
  | database d c => exact ⟨.inDatabase c, ⟨d, rfl, ready⟩, fun _ => trivial⟩

theorem ready_inMemory : inMemory.Ready := RowMap.keyed_empty

end Store

/-- Every request is answered in some way that depends on a state. In it there is a store, to which
others write right before the request is carried out. -/
structure Crowd {S : Type} (b : SharedStore S) (σ : Type) where
  answer : (q : Request) → σ → Response q × σ
  store : σ → S
  others : Request → σ → List b.Other
  carries : ∀ q s, b.Carries (b.disturbed (store s) (others q s)) q (answer q s).1
    (store (answer q s).2)

/-- What a cancel request of an execution has come across, told by the rows alone: the row at its
last read, whether there was none at its last read or write, the version over which its transaction
writes, how often it met another version than the one it wrote over, how often so when a commit
did, and whether it put the flag in the row. -/
structure Watch where
  seen : Option Execution := none
  absent : Bool := false
  base : Option Nat := none
  lost : Nat := 0
  late : Option Nat := none
  recorded : Bool := false

namespace Watch

/-- A request meets the row in one state, and leaves it in another. -/
def after (m : Watch) (met now : Option Execution) : Request → Watch
  | .begin => { m with base := none }
  | .find .. => { m with seen := met, absent := met.isNone }
  | .update _ _ expected =>
    if HasVersion met expected then { m with base := some expected }
    else if met.isNone then { m with absent := true }
    else { m with lost := m.lost + 1 }
  | .commit _ =>
    match m.base with
    | none => m
    | some expected =>
      if HasVersion met expected then
        { m with base := none, recorded := m.recorded || now.any (·.cancelRequested) }
      else { m with base := none, lost := m.lost + 1, late := some (m.lost + 1) }
  | _ => m

/-- The flag is in the row, or there is a reason why it is not: there is no row, its status allows
no cancel, or every round lost a race. -/
def Accounts (m : Watch) (x : String) : Except Failure Unit → Prop
  | .ok _ => m.recorded = true ∨ ∃ row, m.seen = some row ∧ row.cancelRequested = true
  | .error failure =>
    (failure.kind = .notFound ∧ m.absent = true) ∨
    (∃ row, m.seen = some row ∧ failure = .notCancellable x row.status ∧
      row.status ≠ .started ∧ row.status ≠ .inProgress) ∨
    (failure.kind = .conflict ∧ m.lost = Engine.writeAttempts)

/-- What a cancel request ends with, apart from the rows. Unless a commit lost a race all is
accounted for; else it fails there and then. -/
structure Closes (m : Watch) (alone : Prop) (x : String) (r : Except Failure Unit) : Prop where
  accounts : m.late = none → m.Accounts x r
  overtaken : ∀ n, m.late = some n →
    m.lost = n ∧ ∃ failure, r = .error failure ∧ failure.kind = .conflict
  unrecorded : ∀ failure, r = .error failure → m.recorded = false
  waits : alone → m.late = none

theorem Closes.of_accounts {m : Watch} {alone : Prop} {x : String} {r : Except Failure Unit}
    (intime : m.late = none) (accounts : m.Accounts x r)
    (unrecorded : ∀ failure, r = .error failure → m.recorded = false) : m.Closes alone x r where
  accounts _ := accounts
  overtaken n late := by
    rw [intime] at late
    cases late
  unrecorded := unrecorded
  waits _ := intime

theorem Closes.accounts_iff {m : Watch} {alone : Prop} {x : String} {r : Except Failure Unit}
    (closes : m.Closes alone x r) :
    m.Accounts x r ↔ ∀ n, m.late = some n → n = Engine.writeAttempts := by
  constructor
  · intro accounts n late
    obtain ⟨lost, failure, rfl, kind⟩ := closes.overtaken n late
    rcases accounts with ⟨missing, -⟩ | ⟨row, -, refused, -⟩ | ⟨-, every⟩
    · rw [kind] at missing
      cases missing
    · rw [refused] at kind
      cases kind
    · exact lost.symm.trans every
  · intro last
    cases late : m.late with
    | none => exact closes.accounts late
    | some n =>
      obtain ⟨lost, failure, rfl, kind⟩ := closes.overtaken n late
      exact .inr (.inr ⟨kind, lost.trans (last n late)⟩)

section

variable {m : Watch} {met now : Option Execution} {tx n : Nat} {row : Execution}

theorem after_done (has : HasVersion met n) :
    m.after met now (.update tx row n) = { m with base := some n } := if_pos has

theorem after_missing : m.after none now (.update tx row n) = { m with absent := true } := by
  simp [after]

theorem after_declined (there : met ≠ none) (other : ¬HasVersion met n) :
    m.after met now (.update tx row n) = { m with lost := m.lost + 1 } := by
  simp [after, other, there]

theorem after_recorded {stored : Execution} (has : HasVersion met n)
    (flagged : stored.cancelRequested = true) :
    Watch.after { m with base := some n } met (some stored) (.commit tx) =
      { m with base := none, recorded := true } := by
  simp [after, has, flagged]

theorem after_overtaken (other : ¬HasVersion met n) :
    Watch.after { m with base := some n } met now (.commit tx) =
      { m with base := none, lost := m.lost + 1, late := some (m.lost + 1) } := if_neg other

theorem recorded_after {q : Request}
    (unrecorded : (m.after met now q).recorded = false) : m.recorded = false := by
  cases q with
  | update tx row expected =>
    simp only [after] at unrecorded
    split at unrecorded
    · exact unrecorded
    · split at unrecorded <;> exact unrecorded
  | commit tx =>
    simp only [after] at unrecorded
    split at unrecorded
    · exact unrecorded
    · split at unrecorded
      · exact (Bool.or_eq_false_iff.1 unrecorded).1
      · exact unrecorded
  | _ => exact unrecorded

end

end Watch

namespace Crowd

variable {S σ : Type} {b : SharedStore S}

/-- The store that a request meets. -/
def met (w : Crowd b σ) (q : Request) (s : σ) : S := b.disturbed (w.store s) (w.others q s)

def watch (w : Crowd b σ) (x : String) (visits : List (Visit σ)) : Watch :=
  visits.foldl (fun m v => m.after (b.row? x (w.met v.question v.before))
    (b.row? x (w.store v.after)) v.question) {}

/-- No request has changed a row. -/
def Kept (w : Crowd b σ) (visits : List (Visit σ)) : Prop :=
  ∀ v ∈ visits, b.Keeps (w.met v.question v.before) (w.store v.after)

/-- Wherever the requests came the versions still counted up. -/
def Counted (w : Crowd b σ) (x : String) (visits : List (Visit σ)) : Prop :=
  ∀ v ∈ visits, b.Counted x (w.met v.question v.before)

instance (w : Crowd Store.shared σ) (x : String) (visits : List (Visit σ)) :
    Decidable (w.Counted x visits) :=
  inferInstanceAs (Decidable (∀ v ∈ visits, Store.Counted x (w.met v.question v.before)))

/-- The requests are answered as in the crowd, and noted with their answers. -/
def terms (w : Crowd b σ) (x : String) : Contract Request Response (σ × List (Visit σ)) where
  drifts t t' := t' = t
  answers t q answer t' := b.Counted x (w.met q t.1) ∧ w.answer q t.1 = (answer, t'.1) ∧
    t'.2 = t.2 ++ [⟨q, answer, t.1, t'.1⟩]
  permits _ _ _ _ := True
  trans := by
    rintro t₁ t₂ t₃ rfl rfl
    rfl

/-- A writer stands at a stage, and has come across what is noted. Until the flag is recorded no
row was changed. -/
structure Stands (w : Crowd b σ) (i : Sharing b) (x : String) (h : Hold) (m : Watch)
    (t : σ × List (Visit σ)) : Prop where
  holds : i.holds h (w.store t.1)
  watch : w.watch x t.2 = m
  kept : m.recorded = false → w.Kept t.2

section

variable {α : Type} {w : Crowd b σ} {i : Sharing b} {x : String} {h : Hold} {m : Watch}
  {t : σ × List (Visit σ)} {tx : Nat} {row : Execution}

theorem visited_of_ensures {p : Action α} {post : Except Failure α → σ × List (Visit σ) → Prop}
    {s : σ} {visits : List (Visit σ)} (counted : w.Counted x (p.visits w.answer s))
    (ensures : Ensures (w.terms x) post p (s, visits)) :
    post (p.run w.answer s).1 ((p.run w.answer s).2, visits ++ p.visits w.answer s) := by
  induction p generalizing s visits with
  | done value =>
    rw [Program.visits, List.append_nil]
    exact ensures
  | failed failure =>
    rw [Program.visits, List.append_nil]
    exact ensures
  | ask q next ih =>
    obtain ⟨first, rest⟩ := List.forall_mem_cons.1 counted
    have answered := ensures (s, visits) rfl (w.answer q s).1
      ((w.answer q s).2, visits ++ [⟨q, (w.answer q s).1, s, (w.answer q s).2⟩]) ⟨first, rfl, rfl⟩
    have ends := ih (w.answer q s).1 rest answered.2
    rwa [List.append_assoc] at ends

/-! ## What one request comes to -/

theorem asks {q : Request} {post : Except Failure (Response q) → σ × List (Visit σ) → Prop}
    (stands : w.Stands i x h m t)
    (answered : ∀ met now answer, b.Counted x met → i.holds h met → b.Carries met q answer now →
      ∃ h', i.holds h' now ∧
        ((m.after (b.row? x met) (b.row? x now) q).recorded = false → b.Keeps met now) ∧
        ∀ t', w.Stands i x h' (m.after (b.row? x met) (b.row? x now) q) t' →
          post (.ok answer) t') :
    Ensures (w.terms x) post (Action.ask q) t := by
  apply Ensures.question
  rintro t rfl answer t' ⟨counted, answers, visited⟩
  have carried := w.carries q t.1
  rw [answers] at carried
  obtain ⟨h', holds, keeps, ends⟩ := answered (w.met q t.1) (w.store t'.1) answer counted
    (i.disturbed stands.holds _) carried
  refine ⟨trivial, ends t' ⟨holds, ?_, fun unrecorded => ?_⟩⟩
  · rw [visited, watch, List.foldl_append]
    exact congrArg (fun m : Watch =>
      m.after (b.row? x (w.met q t.1)) (b.row? x (w.store t'.1)) q) stands.watch
  · rw [visited]
    intro v inside
    rcases List.mem_append.1 inside with before | last
    · exact stands.kept (Watch.recorded_after unrecorded) v before
    · obtain rfl := List.mem_singleton.1 last
      exact keeps unrecorded

theorem readsClock {post : Except Failure Nat → σ × List (Visit σ) → Prop}
    (stands : w.Stands i x h m t) (told : ∀ now t', w.Stands i x h m t' → post (.ok now) t') :
    Ensures (w.terms x) post (Action.ask .now) t := by
  refine asks stands fun met now answer _ holds carried => ?_
  cases carried
  exact ⟨h, holds, fun _ => b.keeps_refl met, told answer⟩

theorem writesLine {entry : LogEntry} {post : Except Failure Unit → σ × List (Visit σ) → Prop}
    (stands : w.Stands i x h m t) (written : ∀ t', w.Stands i x h m t' → post (.ok ()) t') :
    Ensures (w.terms x) post (Action.log entry) t := by
  refine asks stands fun met now answer _ holds carried => ?_
  cases carried
  exact ⟨h, holds, fun _ => b.keeps_refl met, written⟩

theorem begins {post : Except Failure (Except StoreFailure Nat) → σ × List (Visit σ) → Prop}
    (stands : w.Stands i x .free m t)
    (begun : ∀ tx t', w.Stands i x (.fresh tx) { m with base := none } t' →
      post (.ok (.ok tx)) t') :
    Ensures (w.terms x) post (Action.ask .begin) t := by
  refine asks stands fun met now answer _ free carried => ?_
  obtain ⟨tx, s', begins, keeps, fresh⟩ := i.begins free
  cases begins.symm.trans carried
  exact ⟨.fresh tx, fresh, fun _ => keeps, begun tx⟩

theorem drops {post : Except Failure Unit → σ × List (Visit σ) → Prop}
    (stands : w.Stands i x h m t) (opened : h.tx? = some tx)
    (dropped : ∀ t', w.Stands i x .free m t' → post (.ok ()) t') :
    Ensures (w.terms x) post (Action.ask (.drop tx)) t := by
  refine asks stands fun met now answer _ holds carried => ?_
  obtain ⟨keeps, free⟩ := i.drops holds opened
  cases carried
  exact ⟨.free, free, fun _ => keeps, dropped⟩

theorem finds
    {post : Except Failure (Except StoreFailure (Option Execution)) → σ × List (Visit σ) → Prop}
    (stands : w.Stands i x (.fresh tx) m t)
    (found : ∀ seen t', (∀ row, seen = some row → i.reads x row) →
      w.Stands i x (.fresh tx) { m with seen, absent := seen.isNone } t' →
        post (.ok (.ok seen)) t') :
    Ensures (w.terms x) post (Action.ask (.find tx x)) t := by
  refine asks stands fun met now answer _ fresh carried => ?_
  obtain ⟨reads, s', finds, keeps, fresh⟩ := i.finds x fresh
  cases finds.symm.trans carried
  exact ⟨.fresh tx, fresh, fun _ => keeps, fun t' => found (b.row? x met) t' reads⟩

theorem ends {post : Except Failure (Except StoreFailure Unit) → σ × List (Visit σ) → Prop}
    (stands : w.Stands i x (.fresh tx) m t) (unwritten : m.base = none)
    (ended : ∀ t', w.Stands i x (.ended tx) m t' → post (.ok (.ok ())) t') :
    Ensures (w.terms x) post (Action.ask (.commit tx)) t := by
  refine asks stands fun met now answer _ fresh carried => ?_
  obtain ⟨s', ends, keeps, closed⟩ := i.ends fresh
  cases ends.symm.trans carried
  have same : m.after (b.row? x met) (b.row? x now) (.commit tx) = m := by
    simp only [Watch.after, unwritten]
  rw [same]
  exact ⟨.ended tx, closed, fun _ => keeps, ended⟩

/-- An update is declined if there is no row or it has another version, and is done otherwise. -/
theorem updates {seen : Execution}
    {post : Except Failure (Except StoreFailure (Except Refusal Nat)) → σ × List (Visit σ) → Prop}
    (stands : w.Stands i x (.fresh tx) m t) (reads : i.reads x seen) (same : row.id = seen.id)
    (missing : ∀ refusal t', refusal.code = .notFound →
      w.Stands i x (.fresh tx) { m with absent := true } t' → post (.ok (.ok (.error refusal))) t')
    (lost : ∀ refusal t', refusal.code = .conflict →
      w.Stands i x (.fresh tx) { m with lost := m.lost + 1 } t' →
        post (.ok (.ok (.error refusal))) t')
    (done : ∀ version t', w.Stands i x (.wrote tx x row seen.version)
      { m with base := some seen.version } t' → post (.ok (.ok (.ok version))) t') :
    Ensures (w.terms x) post (Action.ask (.update tx row seen.version)) t := by
  refine asks stands fun met now answer counted fresh carried => ?_
  obtain ⟨answer', s', updates, keeps, comes⟩ := i.updates fresh reads same counted
  cases updates.symm.trans carried
  rcases answer' with refusal | version
  · obtain ⟨⟨gone, code⟩ | ⟨there, other, code⟩, fresh⟩ := comes
    · rw [gone, Watch.after_missing]
      exact ⟨.fresh tx, fresh, fun _ => keeps, fun t' => missing refusal t' code⟩
    · rw [Watch.after_declined there other]
      exact ⟨.fresh tx, fresh, fun _ => keeps, fun t' => lost refusal t' code⟩
  · obtain ⟨has, wrote⟩ := comes
    rw [Watch.after_done has]
    exact ⟨.wrote tx x row seen.version, wrote, fun _ => keeps, done version⟩

/-- The commit of the flag is done if the row still has the version that was written over. -/
theorem commits {n : Nat}
    {post : Except Failure (Except StoreFailure Unit) → σ × List (Visit σ) → Prop}
    (stands : w.Stands i x (.wrote tx x row n) { m with base := some n } t)
    (flagged : row.cancelRequested = true)
    (done : ∀ t', w.Stands i x (.ended tx) { m with base := none, recorded := true } t' →
      post (.ok (.ok ())) t')
    (lost : ∀ failure t', failure.kind = .conflict → ¬i.alone →
      w.Stands i x (.wrote tx x row n)
        { m with base := none, lost := m.lost + 1, late := some (m.lost + 1) } t' →
          post (.ok (.error failure)) t') :
    Ensures (w.terms x) post (Action.ask (.commit tx)) t := by
  refine asks stands fun met now answer _ wrote carried => ?_
  by_cases has : HasVersion (b.row? x met) n
  · obtain ⟨s', commits, ended, stored, found, flag⟩ := i.commits wrote has
    cases commits.symm.trans carried
    rw [found, Watch.after_recorded has (flag.trans flagged)]
    exact ⟨.ended tx, ended, nofun, done⟩
  · obtain ⟨failure, s', loses, kind, keeps, wrote'⟩ := i.loses wrote has
    cases loses.symm.trans carried
    rw [Watch.after_overtaken has]
    exact ⟨.wrote tx x row n, wrote', fun _ => keeps, fun t' =>
      lost failure t' kind fun alone => has (i.waits alone wrote)⟩

/-! ## A round -/

/-- Inside a transaction the body may do what it likes with it; afterwards it is closed. -/
theorem bracket {body : Nat → Action α} {post : Except Failure α → σ × List (Visit σ) → Prop}
    (stands : w.Stands i x .free m t)
    (inside : ∀ tx t', w.Stands i x (.fresh tx) { m with base := none } t' →
      Ensures (w.terms x) (fun r t => ∃ h m', h.tx? = some tx ∧ w.Stands i x h m' t ∧
        ∀ t', w.Stands i x .free m' t' → post r t') (body tx) t') :
    Ensures (w.terms x) post (Action.withTransaction body) t := by
  refine Ensures.bind (begins stands fun tx t' fresh => ?_)
  refine Ensures.bind (Ensures.ofExcept (Ensures.ensuring ((inside tx t' fresh).mono ?_)))
  rintro r t ⟨h, m', opened, stands, closed⟩
  exact drops stands opened closed

theorem loads {post : Except Failure (Option Execution) → σ × List (Visit σ) → Prop}
    (stands : w.Stands i x .free m t)
    (found : ∀ seen t', (∀ row, seen = some row → i.reads x row) →
      w.Stands i x .free { m with base := none, seen, absent := seen.isNone } t' →
        post (.ok seen) t') :
    Ensures (w.terms x) post (Engine.load x) t := by
  refine bracket stands fun tx t fresh => ?_
  refine Ensures.bind (finds fresh fun seen t reads fresh => ?_)
  refine Ensures.bind (Ensures.ofExcept (Ensures.bind (Ensures.bind (ends fresh rfl ?_))))
  intro t ended
  exact ⟨.ended tx, _, rfl, ended, fun t' => found seen t' reads⟩

theorem statuses {post : Except Failure Execution → σ × List (Visit σ) → Prop}
    (stands : w.Stands i x .free m t)
    (missing : ∀ t', w.Stands i x .free { m with base := none, seen := none, absent := true } t' →
      post (.error (.executionMissing x)) t')
    (found : ∀ row t', i.reads x row →
      w.Stands i x .free { m with base := none, seen := some row, absent := false } t' →
        post (.ok row) t') :
    Ensures (w.terms x) post (Engine.getStatus x) t := by
  refine Ensures.bind (loads stands ?_)
  rintro (_ | row) t reads stands
  · exact missing t stands
  · exact found row t (reads row rfl) stands

theorem recordsCancel {seen : Execution} {post : Except Failure Bool → σ × List (Visit σ) → Prop}
    (stands : w.Stands i x .free m t) (reads : i.reads x seen)
    (recorded : ∀ t', w.Stands i x .free { m with base := none, recorded := true } t' →
      post (.ok true) t')
    (missing : ∀ failure t', failure.kind = .notFound →
      w.Stands i x .free { m with base := none, absent := true } t' → post (.error failure) t')
    (declined : ∀ t', w.Stands i x .free { m with base := none, lost := m.lost + 1 } t' →
      post (.ok false) t')
    (overtaken : ∀ failure t', failure.kind = .conflict → ¬i.alone →
      w.Stands i x .free
        { m with base := none, lost := m.lost + 1, late := some (m.lost + 1) } t' →
          post (.error failure) t') :
    Ensures (w.terms x) post (Engine.recordCancel x seen) t := by
  refine Ensures.bind (readsClock stands fun now t stands => ?_)
  refine bracket stands fun tx t fresh => ?_
  refine Ensures.bind (updates fresh reads rfl ?_ ?_ ?_)
  · intro refusal t code gone
    refine Ensures.bind (Ensures.ofExcept ?_)
    show Ensures _ _ (ite (refusal.code = .conflict) _ _) _
    rw [if_neg (by simp [code])]
    refine ⟨.fresh tx, _, rfl, gone, fun t' => missing _ t' ?_⟩
    simp only [Failure.kind, code]
  · intro refusal t code gone
    refine Ensures.bind (Ensures.ofExcept ?_)
    show Ensures _ _ (ite (refusal.code = .conflict) _ _) _
    rw [if_pos code]
    exact ⟨.fresh tx, _, rfl, gone, declined⟩
  · intro version t wrote
    refine Ensures.bind (Ensures.ofExcept (Ensures.bind (Ensures.bind (commits wrote rfl ?_ ?_))))
    · intro t ended
      refine Ensures.bind (writesLine ended fun t ended => ?_)
      exact ⟨.ended tx, _, rfl, ended, recorded⟩
    · intro failure t kind others wrote
      exact ⟨.wrote .., _, rfl, wrote, fun t' => overtaken _ t' kind others⟩

/-! ## All rounds -/

theorem cancelWithin_closes (tries : Nat) (stands : w.Stands i x .free m t)
    (intime : m.late = none) (unrecorded : m.recorded = false)
    (left : m.lost + tries = Engine.writeAttempts) :
    Ensures (w.terms x) (fun r t => ∃ m', w.Stands i x .free m' t ∧ m'.Closes i.alone x r)
      (Engine.cancelWithin x tries) t := by
  induction tries generalizing m t with
  | zero => exact ⟨m, stands, .of_accounts intime (.inr (.inr ⟨rfl, left⟩)) fun _ _ => unrecorded⟩
  | succ tries ih =>
    refine Ensures.bind (statuses stands ?_ fun row t reads stands => ?_)
    · intro t stands
      exact ⟨_, stands, .of_accounts intime (.inl ⟨rfl, rfl⟩) fun _ _ => unrecorded⟩
    · dsimp only
      split
      · rename_i inactive
        refine ⟨_, stands, .of_accounts intime ?_ fun _ _ => unrecorded⟩
        exact .inr (.inl ⟨row, rfl, rfl, inactive⟩)
      · split
        · rename_i already
          exact ⟨_, stands, .of_accounts intime (.inr ⟨row, rfl, already⟩) nofun⟩
        · refine Ensures.bind (recordsCancel stands reads ?_ ?_ ?_ ?_)
          · intro t stands
            exact ⟨_, stands, .of_accounts intime (.inl rfl) nofun⟩
          · intro failure t kind stands
            exact ⟨_, stands, .of_accounts intime (.inl ⟨kind, rfl⟩) fun _ _ => unrecorded⟩
          · intro t stands
            refine ih stands intime unrecorded ?_
            rw [← left]
            exact Nat.succ_add_eq_add_succ m.lost tries
          · intro failure t kind others stands
            refine ⟨_, stands, nofun, ?_, fun _ _ => unrecorded, fun alone => absurd alone others⟩
            rintro _ ⟨⟩
            exact ⟨rfl, failure, rfl, kind⟩

end

end Crowd

/-- What a cancel request comes to. It flags the row, or finds it flagged, or fails for a good
reason, exactly unless a commit of the flag loses a race in a round before the last one: then it
fails there and then. If it fails it has changed nothing. -/
structure Crowd.Ends {S σ : Type} {b : SharedStore S} (w : Crowd b σ) (x : String) (alone : Prop)
    (visits : List (Visit σ)) (result : Except Failure Unit) : Prop where
  accounts : (w.watch x visits).Accounts x result ↔
    ∀ n, (w.watch x visits).late = some n → n = Engine.writeAttempts
  overtaken : ∀ n, (w.watch x visits).late = some n →
    (w.watch x visits).lost = n ∧ ∃ failure, result = .error failure ∧ failure.kind = .conflict
  waits : alone → (w.watch x visits).late = none
  kept : ∀ failure, result = .error failure → w.Kept visits

theorem Sharing.cancel_ends {S σ : Type} {b : SharedStore S} (i : Sharing b) (w : Crowd b σ)
    (x : String) (s : σ) (free : i.holds .free (w.store s))
    (counted : w.Counted x ((Engine.cancel x).visits w.answer s)) :
    w.Ends x i.alone ((Engine.cancel x).visits w.answer s)
      ((Engine.cancel x).run w.answer s).1 := by
  have start : w.Stands i x .free {} (s, []) := ⟨free, rfl, fun _ => by rintro _ ⟨⟩⟩
  obtain ⟨m, stands, closes⟩ := Crowd.visited_of_ensures counted
    (Crowd.cancelWithin_closes Engine.writeAttempts start rfl rfl (Nat.zero_add _))
  obtain rfl : w.watch x ((Engine.cancel x).visits w.answer s) = m := stands.watch
  refine ⟨closes.accounts_iff, closes.overtaken, closes.waits, ?_⟩
  intro failure failed
  exact stands.kept (closes.unrecorded failure failed)

/-- In memory, in a file and in every other store that a writer can count on, a cancel request gets
round every race except that of a commit in a round before the last one. On a file, and wherever
else others wait for the writer, there is no such race. -/
theorem cancel_ends_iff {σ : Type} :
    (∀ (w : Crowd Store.shared σ) (x : String) (s : σ), (w.store s).Ready →
      w.Counted x ((Engine.cancel x).visits w.answer s) →
        w.Ends x (w.store s).OnFile ((Engine.cancel x).visits w.answer s)
          ((Engine.cancel x).run w.answer s).1) ∧
    ∀ {S : Type} (b : SharedStore S) (i : Sharing b) (w : Crowd b σ) (x : String) (s : σ),
      i.holds .free (w.store s) → w.Counted x ((Engine.cancel x).visits w.answer s) →
        w.Ends x i.alone ((Engine.cancel x).visits w.answer s)
          ((Engine.cancel x).run w.answer s).1 := by
  constructor
  · intro w x s ready counted
    obtain ⟨i, free, alone⟩ := ready.sharing
    have ends := i.cancel_ends w x s free counted
    exact ⟨ends.accounts, ends.overtaken, fun onFile => ends.waits (alone onFile), ends.kept⟩
  · intro S b i w x s free counted
    exact i.cancel_ends w x s free counted

namespace Sample

/-- A store serves the requests that are for it; all else is answered as by a host. -/
def provide (s : Store) (q : Request) : Response q × Store :=
  match q with
  | .begin => s.begin
  | .insert tx row => (.ok (s.insert tx row).1, (s.insert tx row).2)
  | .find tx x => s.find? tx x
  | .update tx row expected => s.update tx row expected
  | .listByStatus tx status limit => s.listByStatus tx status limit
  | .listStale tx query => s.listStale tx query
  | .commit tx => s.commit tx
  | .drop tx => ((), (s.drop tx).2)
  | q => (host busy [] q, s)

/-- A store and the number of requests so far, before some of which others write. -/
def crowd (others : Nat → List Intrusion) : Crowd Store.shared (Store × Nat) where
  answer q s :=
    let (answer, store) := provide (Store.shared.disturbed s.1 (others s.2)) q
    (answer, store, s.2 + 1)
  store s := s.1
  others _ s := others s.2
  carries q s := by
    cases q with
    | insert | listByStatus | listStale => trivial
    | _ => rfl

/-- A file with two connections. -/
def file : Database :=
  ((({ path := "saga.db", usesLog := true } : Database).connect true).2.connect true).2

theorem file_ready : (Store.database file 0).Ready := by
  obtain ⟨c, d, opened, free⟩ := Database.connect_holds "saga.db" true
  obtain ⟨b, d', joined, free, -⟩ := free.connect
  cases opened
  cases joined
  exact free

def wanted : Execution :=
  { id := "x", sagaType := "order", status := .inProgress, totalSteps := 1, version := 1 }

/-- Somebody accepts the execution. -/
def arrival : Intrusion := ⟨1, ⟨[.write (.insert wanted)], .commit⟩⟩

/-- Somebody notes an error in its row. -/
def remark (version : Nat) : Intrusion :=
  ⟨1, ⟨[.write (.update { wanted with lastError := "busy" } version)], .commit⟩⟩

/-- Two updates of a cancel request lose a race, and then a commit does if it is let to. -/
def crowded : Crowd Store.shared (Store × Nat) := crowd fun
  | 0 => [arrival]
  | 5 => [remark 1]
  | 13 => [remark 2]
  | 23 => [remark 3]
  | _ => []

/-- The first commit loses a race. -/
def hurried : Crowd Store.shared (Store × Nat) := crowd fun
  | 0 => [arrival]
  | 7 => [remark 1]
  | _ => []

end Sample

/-- In memory all three rounds lose a race; on a file the last one does not. -/
theorem cancel_ends_iff_crowded :
    let ends (s : Store) := ((Engine.cancel "x").run Sample.crowded.answer (s, 0)).1
    let watch (s : Store) :=
      Sample.crowded.watch "x" ((Engine.cancel "x").visits Sample.crowded.answer (s, 0))
    (watch .inMemory).lost = 3 ∧ (watch .inMemory).late = some 3 ∧
      (watch .inMemory).Accounts "x" (ends .inMemory) ∧
      (watch (.database Sample.file 0)).lost = 2 ∧
      (watch (.database Sample.file 0)).Accounts "x" (ends (.database Sample.file 0)) := by
  intro ends watch
  have lost : (watch .inMemory).lost = 3 ∧ (watch .inMemory).late = some 3 := by decide +kernel
  have declined : (watch (.database Sample.file 0)).lost = 2 := by decide +kernel
  have inMemory := cancel_ends_iff.1 Sample.crowded "x" (.inMemory, 0) Store.ready_inMemory
    (by decide +kernel)
  have onFile := cancel_ends_iff.2 Store.shared (.inDatabase 0) Sample.crowded "x"
    (.database Sample.file 0, 0) ⟨Sample.file, rfl, Sample.file_ready⟩ (by decide +kernel)
  refine ⟨lost.1, lost.2, inMemory.accounts.2 ?_, declined, onFile.accounts.2 ?_⟩
  · intro n late
    exact Option.some.inj (late.symm.trans lost.2)
  · intro n late
    cases (onFile.waits trivial).symm.trans late

/-- One race is lost, and there are two more rounds, but the request fails. -/
theorem hurried_cancel_gives_up :
    let visits := (Engine.cancel "x").visits Sample.hurried.answer (.inMemory, 0)
    let result := ((Engine.cancel "x").run Sample.hurried.answer (.inMemory, 0)).1
    result = .error (.store (.modifiedConcurrently "x")) ∧
      (Sample.hurried.watch "x" visits).lost = 1 ∧
      ¬(Sample.hurried.watch "x" visits).Accounts "x" result := by
  intro visits result
  have failed : result = .error (.store (.modifiedConcurrently "x")) := by decide +kernel
  have lost : (Sample.hurried.watch "x" visits).lost = 1 := by decide +kernel
  refine ⟨failed, lost, ?_⟩
  rw [failed]
  rintro (⟨missing, -⟩ | ⟨row, -, refused, -⟩ | ⟨-, every⟩)
  · cases missing
  · cases refused
  · rw [lost] at every
    cases every

end SagaEngine
