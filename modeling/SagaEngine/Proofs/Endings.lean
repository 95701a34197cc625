import SagaEngine.Proofs.Cluster
/-!
# How an advance and a cancel end

An advance that got its lease ends with a row stored or, with nothing stored, because
somebody else made progress or the reply has no meaning. A cancel that ends normally
leaves a row with a cancel request, and one that fails has committed nothing. Main
statements: `program_tells` and `tells_stable`.
-/

namespace SagaEngine

/-- What the end of an advance or of a cancel tells. -/
structure Tells (me : Actor) (r : Except Failure Operation.Result) (j : Journal) : Prop where
  advanced : ∀ x base, me.operation = .advance x → (j.attempt me).leased = true →
    (j.attempt me).base = some base → base.status.isTerminal = false →
      (∃ advanced, r = .ok (.advanced advanced) ∧ advanced ≠ .abandoned ∧
        (j.attempt me).written ≠ []) ∨ j.Lost me x
  cancelled : ∀ x, me.operation = .cancel x →
    (r = .ok .cancelled ∧ ∃ row ∈ j.history x, row.cancelRequested = true) ∨
      (∃ failure, r = .error failure) ∧ (j.attempt me).written = []

section

variable {e : Engine} {me : Actor} {x : String} {j j' : Journal}

theorem Advances.tells {advanced : Advanced} (advances : Advances e me x j j' advanced)
    (operation : me.operation = .advance x) (fresh : (j.attempt me).leased = false) :
    Tells me (.ok (.advanced advanced)) j' := by
  constructor
  · intro y base other leased read active
    obtain rfl : x = y := by
      rw [operation] at other
      exact Operation.advance.inj other
    by_cases gaveUp : advanced = .abandoned
    · exact .inr (advances.lost gaveUp fresh leased)
    · refine .inl ⟨advanced, rfl, gaveUp, ?_⟩
      intro unwritten
      exact gaveUp (advances.verdict base leased read active unwritten)
  · intro y cancels
    rw [operation] at cancels
    cases cancels

theorem Tells.of_other {r : Except Failure Operation.Result}
    (advances : ∀ x, me.operation ≠ .advance x) (cancels : ∀ x, me.operation ≠ .cancel x) :
    Tells me r j :=
  ⟨fun x _ advance => absurd advance (advances x), fun x cancel => absurd cancel (cancels x)⟩

theorem program_tells {v : View} (fits : e.Fits) (lawful : Lawful e v.journal)
    (fresh : v.journal.attempt me = {}) :
    Ensures (contract e me) (fun r v' => Tells me r v'.journal) (me.operation.program e) v := by
  have other (advances : ∀ x, me.operation ≠ .advance x) (cancels : ∀ x, me.operation ≠ .cancel x) :
      Ensures (contract e me) (fun r v' => Tells me r v'.journal) (me.operation.program e) v :=
    (program_ensures fits lawful fresh).mono fun r v' _ => .of_other advances cancels
  cases operation : me.operation with
  | advance x =>
    have driven : me.operation.driven? = some x := by rw [operation]; rfl
    have free : (v.journal.attempt me).Free := by
      rw [fresh]
      exact ⟨rfl, nofun⟩
    have unleased : (v.journal.attempt me).leased = false := by rw [fresh]
    refine Ensures.bind ((advance_ensures fits driven free fun _ => unleased).mono ?_)
    rintro r v' (⟨advanced, rfl, advances⟩ | ⟨rfl, sees⟩)
    · exact advances.tells operation unleased
    · refine ⟨?_, by simp [operation]⟩
      intro y base _ leased
      rw [sees.leased, unleased] at leased
      cases leased
  | cancel x =>
    have unwritten : (v.journal.attempt me).written = [] := by rw [fresh]
    have ends := cancelWithin_ensures operation fits Engine.writeAttempts unwritten
    refine Ensures.bind (ends.mono ?_)
    intro r v' cancelled
    have same {y : String} (cancels : me.operation = .cancel y) : x = y := by
      rw [operation] at cancels
      exact Operation.cancel.inj cancels
    cases cancelled with
    | marked row inside asked =>
      refine ⟨by simp [operation], ?_⟩
      intro y cancels
      obtain rfl := same cancels
      exact .inl ⟨rfl, row, inside, asked⟩
    | refused failure ordinary unwritten =>
      refine ⟨by simp [operation], ?_⟩
      intro y cancels
      exact .inr ⟨⟨failure, rfl⟩, unwritten⟩
  | start | drive | resume =>
    rw [← operation]
    exact other (by simp [operation]) (by simp [operation])

theorem Journal.Lost.mono (lost : j.Lost me x) (target : me.operation.target? = some x)
    (fits : e.Fits) (lawful : Lawful e j') (later : j <:+ j')
    (same : j'.attempt me = j.attempt me) : j'.Lost me x := by
  obtain ⟨unwritten, reason⟩ := lost
  refine ⟨same ▸ unwritten, ?_⟩
  rw [same]
  rcases reason with ⟨base, read, overtaken⟩ | meaningless
  · have inside := (lawful.suffix later).base_mem target read
    exact .inl ⟨base, read, overtaken.mono lawful fits later inside⟩
  · exact .inr meaningless

theorem tells_stable (fits : e.Fits) (r : Except Failure Operation.Result) (v v' : View)
    (drift : (contract e me).drifts v v') (tells : Tells me r v.journal) :
    Tells me r v'.journal := by
  have idles := idles_of_drift drift
  have same : v'.journal.attempt me = v.journal.attempt me := idles.attempt
  constructor
  · intro x base advances
    rw [same]
    intro leased read active
    rcases tells.advanced x base advances leased read active with moved | lost
    · exact .inl moved
    · have target : me.operation.target? = some x := by rw [advances]; rfl
      exact .inr (lost.mono target fits idles.lawful idles.later same)
  · intro x cancels
    rcases tells.cancelled x cancels with ⟨ended, row, inside, asked⟩ | refused
    · exact .inl ⟨ended, row, (history_suffix x idles.later).subset inside, asked⟩
    · exact .inr (same ▸ refused)

end

end SagaEngine
