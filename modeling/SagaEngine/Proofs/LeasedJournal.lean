import SagaEngine.Proofs.Exclusion
import SagaEngine.Proofs.LeaseExclusion
/-!
# Owners that a lease manager keeps apart

All actors of a journal have their leases from one manager, which nobody else asks. Every lease that
an actor holds is one that the manager handed out and that was not released since, and no two actors
hold the same one. So as long as no lease on an execution runs out before it is released, nobody
gets one while somebody holds one. Main statements: `Kept.next` and `Lawful.exclusive_of_manager`.
-/

namespace SagaEngine

/-- What an actor asks of the lease manager, and what it is told. -/
def Event.leasing? (owner : String) : Event → Option (LeaseOperation × LeaseAnswer)
  | ⟨_, .acquire x, answer, _⟩ => some (.tryAcquire x owner, .lease answer)
  | ⟨_, .release lease, _, _⟩ => some (.release lease, .done)
  | _ => none

/-- The manager was asked what the journal tells, and nothing else. -/
def Journal.Leased (j : Journal) (owner : String) (log : List LeaseEvent) : Prop :=
  log.map (fun ev => (ev.operation, ev.answer)) = j.filterMap (·.leasing? owner)

/-- Who holds a lease has it from the manager, and nobody else has it. -/
structure Journal.Kept (j : Journal) (log : List LeaseEvent) : Prop where
  handed : ∀ me x l, me.operation.driven? = some x → (j.attempt me).held = some l →
    l ∈ outstanding log ∧ l.executionId = x
  alone : ∀ me other x l, me.operation.driven? = some x → other.operation.driven? = some x →
    (j.attempt me).held = some l → (j.attempt other).held = some l → me = other

section

variable {ttl now : Int} {log : List LeaseEvent} {m : LeaseManager} {ev : LeaseEvent}

theorem LeaseRun.before (run : LeaseRun ttl (ev :: log) m) :
    ∃ m', LeaseRun ttl log m' ∧ ev.answer = (m'.perform ev.now ev.operation).1 ∧
      ∀ ev' ∈ log, ev'.now ≤ ev.now := by
  generalize whole : ev :: log = log' at run
  induction run with
  | start => cases whole
  | numbered run n ih => exact ih whole
  | perform run operation now clock =>
    cases whole
    exact ⟨_, run, rfl, clock⟩

end

section

variable {e : Engine} {ttl : Int} {log : List LeaseEvent} {m : LeaseManager} {j : Journal}
  {ev : Event} {me : Actor} {x owner : String} {l : Lease} {now : Int}

theorem held_of_unasked (unasked : ev.leasing? owner = none) (me : Actor) :
    (Journal.attempt me (ev :: j)).held = (j.attempt me).held := by
  by_cases own : ev.actor = me
  · rw [attempt_own own]
    obtain ⟨actor, q, answer, installed⟩ := ev
    cases q with
    | acquire | release => cases unasked
    | find tx y => rcases answer with failure | _ | row <;> rfl
    | _ => rfl
  · rw [attempt_other own]

namespace Journal.Kept

theorem start : Journal.Kept [] [] := ⟨nofun, nofun⟩

theorem same {log' : List LeaseEvent} (kept : j.Kept log)
    (held : ∀ me, (Journal.attempt me (ev :: j)).held = (j.attempt me).held)
    (still : outstanding log' = outstanding log) : Journal.Kept (ev :: j) log' := by
  refine ⟨fun me x l driven holds => ?_, fun me other x l driven driven' holds holds' => ?_⟩
  · rw [still]
    exact kept.handed me x l driven (held me ▸ holds)
  · exact kept.alone me other x l driven driven' (held me ▸ holds) (held other ▸ holds')

theorem grant {log' : List LeaseEvent} (kept : j.Kept log)
    (driven : me.operation.driven? = some x) (named : l.executionId = x)
    (fresh : l ∉ outstanding log) (more : outstanding log' = l :: outstanding log) :
    Journal.Kept (⟨me, .acquire x, some l, []⟩ :: j) log' := by
  have held {other : Actor} {l' : Lease}
      (holds : (Journal.attempt other (⟨me, .acquire x, some l, []⟩ :: j)).held = some l') :
      me = other ∧ l = l' ∨ (j.attempt other).held = some l' := by
    by_cases own : me = other
    · subst own
      rw [attempt_self] at holds
      exact .inl ⟨rfl, Option.some.inj holds⟩
    · rw [attempt_other own] at holds
      exact .inr holds
  refine ⟨fun one y l' drives holds => ?_, fun one other y l' drives drives' holds holds' => ?_⟩
  · rw [more]
    rcases held holds with ⟨rfl, rfl⟩ | holds
    · exact ⟨List.mem_cons_self, named.trans (Option.some.inj (driven.symm.trans drives))⟩
    · obtain ⟨inside, about⟩ := kept.handed one y l' drives holds
      exact ⟨List.mem_cons_of_mem _ inside, about⟩
  · rcases held holds with ⟨rfl, rfl⟩ | holds <;> rcases held holds' with ⟨rfl, same⟩ | holds'
    · rfl
    · exact absurd (kept.handed other y _ drives' holds').1 fresh
    · exact absurd (kept.handed one y _ drives (same ▸ holds)).1 fresh
    · exact kept.alone one other y l' drives drives' holds holds'

/-- Who gives a lease back takes away nobody else's, as long as no two leases carry the same id. -/
theorem release {log' : List LeaseEvent} (kept : j.Kept log)
    (distinct : ((granted log).map (·.leaseId)).Nodup)
    (driven : me.operation.driven? = some x) (holds : (j.attempt me).held = some l)
    (less : outstanding log' =
      (outstanding log).filter fun l' => !LeaseOperation.ends l' (.release l)) :
    Journal.Kept (⟨me, .release l, (), []⟩ :: j) log' := by
  have held {other : Actor} {l' : Lease}
      (holds : (Journal.attempt other (⟨me, .release l, (), []⟩ :: j)).held = some l') :
      me ≠ other ∧ (j.attempt other).held = some l' := by
    by_cases own : me = other
    · subst own
      rw [attempt_self] at holds
      cases holds
    · rw [attempt_other own] at holds
      exact ⟨own, holds⟩
  obtain ⟨among, mine⟩ := kept.handed me x l driven holds
  refine ⟨fun other y l' drives holds' => ?_, fun one other y l' drives drives' holds holds' => ?_⟩
  · obtain ⟨differs, before⟩ := held holds'
    obtain ⟨inside, about⟩ := kept.handed other y l' drives before
    refine ⟨?_, about⟩
    rw [less, List.mem_filter]
    refine ⟨inside, ?_⟩
    by_contra ended
    obtain ⟨same, id⟩ : l'.executionId = l.executionId ∧ l'.leaseId = l.leaseId := by
      simpa [LeaseOperation.ends] using ended
    obtain rfl : l' = l := List.inj_on_of_nodup_map distinct (outstanding_subset log l' inside)
      (outstanding_subset log l among) id
    obtain rfl : x = y := mine.symm.trans about
    exact differs (kept.alone me other x l' driven drives holds before)
  · exact kept.alone one other y l' drives drives' (held holds).2 (held holds').2

end Journal.Kept

theorem granted_sublist (ev : LeaseEvent) (log : List LeaseEvent) :
    (granted log).Sublist (granted (ev :: log)) := (List.sublist_cons_self ev log).filterMap _

theorem outstanding_claim {ev : LeaseEvent} (claims : ev.operation = .tryAcquire x owner) :
    outstanding (ev :: log) = ev.answer.granted.toList ++ outstanding log := by
  rw [outstanding, claims]
  exact congrArg _ (List.filter_eq_self.2 fun _ _ => rfl)

theorem LeaseRun.claimed {ev : LeaseEvent} (run : LeaseRun ttl (ev :: log) m)
    (claims : ev.operation = .tryAcquire x owner) (told : ev.answer = .lease (some l)) :
    l.executionId = x ∧ inForce log x ev.now = [] := by
  obtain ⟨m', run', answer, clock⟩ := run.before
  rw [claims, told] at answer
  have lease : (m'.tryAcquire x owner ev.now).1 = some l := (LeaseAnswer.lease.inj answer).symm
  rw [m'.tryAcquire_fst] at lease
  split at lease
  · rename_i free
    cases lease
    rw [run'.inForce_eq clock, free]
    exact ⟨rfl, rfl⟩
  · cases lease

/-- Every lease that somebody holds is one that the manager handed out and that is still out. -/
theorem Lawful.kept (lawful : Lawful e j) (run : LeaseRun ttl log m) (leased : j.Leased owner log)
    (distinct : ((granted log).map (·.leaseId)).Nodup) : j.Kept log := by
  -- The log of the manager grows with the events of the journal that ask it, and with no others.
  induction lawful generalizing log m with
  | start =>
    obtain rfl := List.map_eq_nil_iff.1 leased
    exact .start
  | @next j ev before permitted ih =>
    cases asks : ev.leasing? owner with
    | none =>
      have leased' : j.Leased owner log := leased.trans (List.filterMap_cons_none asks)
      exact (ih run leased' distinct).same (held_of_unasked asks) rfl
    | some asked =>
      obtain ⟨lev, log, rfl, same, rest⟩ :=
        List.map_eq_cons_iff.1 (leased.trans (List.filterMap_cons_some asks))
      obtain ⟨m', run', -, -⟩ := run.before
      have kept := ih run' rest (distinct.sublist ((granted_sublist lev log).map _))
      cases permitted with
      | quiet me q answer quiet =>
        cases q with
        | acquire | release => cases quiet
        | _ => cases asks
      | refused me y =>
        cases asks
        obtain ⟨claims, told⟩ := Prod.mk.inj same
        refine kept.same (fun other => ?_) ?_
        · by_cases own : me = other
          · subst own
            rw [attempt_self]
            rfl
          · rw [attempt_other own]
        · rw [outstanding_claim claims, told]
          rfl
      | granted me y lease driven =>
        cases asks
        obtain ⟨claims, told⟩ := Prod.mk.inj same
        -- No lease that is out has the id of the new one, so it is none of them.
        refine kept.grant driven (run.claimed claims told).1 (fun inside => ?_) ?_
        · have twice : granted (lev :: log) = lease :: granted log :=
            List.filterMap_cons_some (by rw [told]; rfl)
          rw [twice, List.map_cons, List.nodup_cons] at distinct
          exact distinct.1 (List.mem_map_of_mem (outstanding_subset log lease inside))
        · rw [outstanding_claim claims, told]
          rfl
      | released me y lease driven held =>
        cases asks
        obtain ⟨gives, told⟩ := Prod.mk.inj same
        refine kept.release (distinct.sublist ((granted_sublist lev log).map _)) driven held ?_
        rw [outstanding, gives, told]
        rfl
      | _ => cases asks

/-- As long as no lease on an execution runs out before it is released, the manager gives nobody a
lease while somebody holds one. -/
theorem Lawful.exclusive_of_manager (lawful : Lawful e j) (run : LeaseRun ttl log m)
    (leased : j.Leased owner log) (distinct : ((granted log).map (·.leaseId)).Nodup)
    (lasting : ∀ ev older, ev :: older <:+ log → ∀ l ∈ outstanding older, l.executionId = x →
      l.isExpired ev.now = false) : j.Exclusive x := by
  induction lawful generalizing log m with
  | start => exact exclusive_nil x
  | @next j ev before permitted ih =>
    refine exclusive_cons.2 ?_
    cases asks : ev.leasing? owner with
    | none =>
      have leased' : j.Leased owner log := leased.trans (List.filterMap_cons_none asks)
      refine ⟨ih run leased' distinct lasting, fun grants => ?_⟩
      obtain ⟨me, lease, rfl⟩ := Event.grants_iff.1 grants
      cases asks
    | some asked =>
      obtain ⟨lev, log, rfl, same, rest⟩ :=
        List.map_eq_cons_iff.1 (leased.trans (List.filterMap_cons_some asks))
      obtain ⟨m', run', -, -⟩ := run.before
      have distinct' := distinct.sublist ((granted_sublist lev log).map (·.leaseId))
      refine ⟨ih run' rest distinct' fun ev older earlier =>
        lasting ev older (earlier.trans (List.suffix_cons lev log)), fun grants ev' _ driven => ?_⟩
      obtain ⟨me, lease, rfl⟩ := Event.grants_iff.1 grants
      cases asks
      obtain ⟨claims, told⟩ := Prod.mk.inj same
      -- What somebody holds is still out and has not run out, so the claim would have failed.
      by_contra held
      obtain ⟨l, holds⟩ := Option.ne_none_iff_exists'.1 held
      obtain ⟨inside, about⟩ := (before.kept run' rest distinct').handed _ x l driven holds
      have lasts := lasting lev log (List.suffix_refl _) l inside about
      have inForce : l ∈ inForce log x lev.now := List.mem_filter.2 ⟨inside, by simp [about, lasts]⟩
      rw [(run.claimed claims told).2] at inForce
      cases inForce

end

end SagaEngine
