import SagaEngine.Config.Resolution
import SagaEngine.Config.Validation
import SagaEngine.Proofs.Durations
import SagaEngine.Text.BinaryFraction
import Mathlib.Data.Rat.Floor
import Mathlib.Tactic.NormNum
/-!
# The delays of a retry budget

The delay after a failed attempt grows with a power of the multiplier up to a longest one. In exact
arithmetic the delays never shrink and stay within their limits, unless one of the two durations is
negative, for the multiplier counts as at least one. A configuration is not checked for that: what
it has to keep beyond the check is that neither duration that wins is negative. Main statements:
`exactBackoff_sane_iff`, `backoff_sane_iff` and `negative_backoff_accepted`.
-/

namespace SagaEngine

/-- The value of a finite binary fraction. -/
def BinaryFraction.rational? (x : Float) : Option ℚ :=
  (parts? x).map fun (negative, m, q) => if negative then -(m * 2 ^ q) else m * 2 ^ q

/-- Fractions without rounding, cut toward zero at the end. -/
def DelayArithmetic.exact : DelayArithmetic ℚ where
  ofMillis n := n
  atLeastOne x := max 1 x
  power x n := x ^ n
  times x y := x * y
  least x y := min x y
  toMillis x := x.num.tdiv x.den

/-- The wait after a number of failed attempts, exactly, with the value of the multiplier. -/
def RetryPolicy.exactBackoff (p : RetryPolicy) (multiplier : ℚ) (failedAttempts : Nat) : Int :=
  DelayArithmetic.exact.delay p.initialBackoff multiplier p.maxBackoff failedAttempts

/-- The delays start from zero or more and never shrink, up to a limit. -/
def SaneDelays (delay : Nat → Int) (limit : Int) : Prop :=
  ∀ n, 1 ≤ n → 0 ≤ delay n ∧ delay n ≤ delay (n + 1) ∧ delay (n + 1) ≤ limit

namespace RuntimeSettings

/-- The retry sections that a saga's budget comes from, those that win first. -/
def retryLayers (s : RuntimeSettings) (sagaType : String) : List RetrySettings :=
  (s.orchestratorOrEmpty.sagaRetry.get? sagaType).toList ++
    [s.orchestratorOrEmpty.defaultRetry.getD {}]

/-- The duration that the first section gives which gives one. -/
def winning (s : RuntimeSettings) (sagaType : String)
    (field : RetrySettings → Option Duration) : Option Duration :=
  (s.retryLayers sagaType).findSome? fun layer => Duration.given (field layer)

/-- The durations are texts of durations whose nanoseconds fit a word. -/
def CarriesBackoffs (s : RuntimeSettings) (sagaType : String) : Prop :=
  ∀ layer ∈ s.retryLayers sagaType,
    Duration.Carried layer.initialBackoff ∧ Duration.Carried layer.maxBackoff

/-- No duration that wins is negative, to the millisecond. -/
def BackoffsUnsigned (s : RuntimeSettings) (sagaType : String) : Prop :=
  (∀ d, s.winning sagaType (·.initialBackoff) = some d → 0 ≤ d.comparedMillis) ∧
    ∀ d, s.winning sagaType (·.maxBackoff) = some d → 0 ≤ d.comparedMillis

end RuntimeSettings

/-! ## Exact delays -/

namespace DelayArithmetic

variable {x y : ℚ}

theorem toMillis_intCast (n : Int) : exact.toMillis n = n := by
  simp [exact]

theorem toMillis_of_nonneg (positive : 0 ≤ x) : exact.toMillis x = ⌊x⌋ := by
  have numerator : 0 ≤ x.num := Rat.num_nonneg.2 positive
  rw [Rat.floor_def']
  exact Int.tdiv_eq_ediv_of_nonneg numerator

end DelayArithmetic

section

variable {p : RetryPolicy} {m : ℚ} {n : Nat}

/-- What a delay is cut from. -/
def RetryPolicy.uncutBackoff (p : RetryPolicy) (m : ℚ) (n : Nat) : ℚ :=
  min (p.initialBackoff * max 1 m ^ n) p.maxBackoff

theorem exactBackoff_succ : p.exactBackoff m (n + 1) =
    DelayArithmetic.exact.toMillis (p.uncutBackoff m n) := rfl

theorem exactBackoff_one : p.exactBackoff m 1 = min p.initialBackoff p.maxBackoff := by
  have uncut : p.uncutBackoff m 0 = ((min p.initialBackoff p.maxBackoff : Int) : ℚ) := by
    rw [RetryPolicy.uncutBackoff, pow_zero, mul_one, Int.cast_min]
  rw [exactBackoff_succ, uncut, DelayArithmetic.toMillis_intCast]

theorem uncutBackoff_le_succ (initial : 0 ≤ p.initialBackoff) :
    p.uncutBackoff m n ≤ p.uncutBackoff m (n + 1) := by
  have positive : (0 : ℚ) ≤ p.initialBackoff := Int.cast_nonneg initial
  have grows : max 1 m ^ n ≤ max 1 m ^ (n + 1) :=
    pow_le_pow_right₀ (le_max_left 1 m) (Nat.le_succ n)
  exact min_le_min_right _ (mul_le_mul_of_nonneg_left grows positive)

theorem exactBackoff_sane_iff : SaneDelays (p.exactBackoff m) p.maxBackoff ↔
    0 ≤ p.initialBackoff ∧ 0 ≤ p.maxBackoff := by
  constructor
  · intro sane
    have first := (sane 1 le_rfl).1
    rwa [exactBackoff_one, le_min_iff] at first
  · rintro ⟨initial, limit⟩ n attempt
    obtain ⟨n, rfl⟩ := Nat.exists_eq_add_of_le' attempt
    have uncut (n : Nat) : 0 ≤ p.uncutBackoff m n := by
      have scale : 0 ≤ max 1 m ^ n := pow_nonneg (le_trans zero_le_one (le_max_left 1 m)) n
      exact le_min (mul_nonneg (Int.cast_nonneg initial) scale) (Int.cast_nonneg limit)
    have cut (n : Nat) : p.exactBackoff m (n + 1) = ⌊p.uncutBackoff m n⌋ :=
      DelayArithmetic.toMillis_of_nonneg (uncut n)
    rw [cut n, cut (n + 1)]
    refine ⟨Int.floor_nonneg.2 (uncut n), Int.floor_le_floor (uncutBackoff_le_succ initial), ?_⟩
    calc ⌊p.uncutBackoff m (n + 1)⌋ ≤ ⌊(p.maxBackoff : ℚ)⌋ := Int.floor_le_floor (min_le_right ..)
      _ = p.maxBackoff := Int.floor_intCast _

end

/-! ## What a configuration gives -/

namespace RuntimeSettings

variable {s : RuntimeSettings} {sagaType : String}

/-- What a first field is resolved to on top of a second one. -/
theorem resolve_resolve {first second : Option Duration} (carried : Duration.Carried first)
    (carried' : Duration.Carried second) (fallback : Int) :
    Duration.resolve first (Duration.resolve second fallback) =
      (((Duration.given first).or (Duration.given second)).map Duration.comparedMillis).getD
        fallback := by
  rw [Duration.resolve_of_carried carried, Duration.resolve_of_carried carried']
  cases Duration.given first <;> rfl

theorem retryPolicy_durations (carried : s.CarriesBackoffs sagaType) :
    (s.retryPolicy sagaType).initialBackoff =
        ((s.winning sagaType (·.initialBackoff)).map Duration.comparedMillis).getD 1000 ∧
      (s.retryPolicy sagaType).maxBackoff =
        ((s.winning sagaType (·.maxBackoff)).map Duration.comparedMillis).getD 30000 := by
  unfold CarriesBackoffs at carried
  unfold winning retryPolicy
  unfold retryLayers at carried ⊢
  cases own : s.orchestratorOrEmpty.sagaRetry.get? sagaType with
  | none =>
    rw [own] at carried
    obtain ⟨initial, limit⟩ := carried _ List.mem_cons_self
    simp [RetryPolicy.ofSettings, Duration.resolve_of_carried initial,
      Duration.resolve_of_carried limit]
  | some layer =>
    rw [own] at carried
    obtain ⟨initial, limit⟩ := carried _ List.mem_cons_self
    obtain ⟨initial', limit'⟩ := carried _ (List.mem_cons_of_mem _ List.mem_cons_self)
    have layered (field : RetrySettings → Option Duration) (general : RetrySettings) :
        [layer, general].findSome? (fun l => Duration.given (field l)) =
          (Duration.given (field layer)).or (Duration.given (field general)) := by
      rw [List.findSome?_cons]
      cases Duration.given (field layer) with
      | some => rfl
      | none => rw [Option.none_or, List.findSome?_singleton]
    exact ⟨(resolve_resolve initial initial' 1000).trans (by rw [← layered]; rfl),
      (resolve_resolve limit limit' 30000).trans (by rw [← layered]; rfl)⟩

end RuntimeSettings

/-- If the durations of a saga are carried and its multiplier is finite, the delays are sane exactly
if no duration that wins is negative, whether the configuration is accepted or not. -/
theorem backoff_sane_iff {s : RuntimeSettings} {sagaType : String}
    (carried : s.CarriesBackoffs sagaType) {m : ℚ}
    (_finite : BinaryFraction.rational? (s.retryPolicy sagaType).multiplier = some m) :
    SaneDelays ((s.retryPolicy sagaType).exactBackoff m) (s.retryPolicy sagaType).maxBackoff ↔
      s.BackoffsUnsigned sagaType := by
  obtain ⟨initial, limit⟩ := RuntimeSettings.retryPolicy_durations carried
  rw [exactBackoff_sane_iff, initial, limit, RuntimeSettings.BackoffsUnsigned]
  cases s.winning sagaType (·.initialBackoff) <;> cases s.winning sagaType (·.maxBackoff) <;> simp

namespace Sample

/-- A first delay that is given for one saga, and a longest one that is given for all. -/
def layered : RuntimeSettings :=
  { orchestrator := some {
      defaultRetry := some { maxBackoff := some ⟨10, 0⟩ }
      sagaRetry := Dictionary.empty.insert "order" { initialBackoff := some ⟨0, 500000000⟩ } } }

/-- A first delay of minus five seconds. -/
def hasty : RuntimeSettings :=
  { orchestrator := some { defaultRetry := some { initialBackoff := some ⟨-5, 0⟩ } } }

theorem rational?_two : BinaryFraction.rational? 2.0 = some 2 := by
  have parts : BinaryFraction.parts? 2.0 = some (false, 4503599627370496, -51) := by rfl
  rw [BinaryFraction.rational?, parts]
  norm_num

end Sample

/-- Half a second doubles up to ten seconds. -/
theorem backoff_sane_iff_layered :
    Sample.layered.validate = .ok () ∧
      SaneDelays ((Sample.layered.retryPolicy "order").exactBackoff 2) 10000 := by
  have carried : Sample.layered.CarriesBackoffs "order" := by
    refine List.forall_mem_cons.2 ⟨⟨?_, nofun⟩, List.forall_mem_singleton.2 ⟨nofun, ?_⟩⟩
    · rintro _ ⟨⟩
      exact ⟨⟨"0.5s", by decide⟩, by decide, by decide⟩
    · rintro _ ⟨⟩
      exact ⟨⟨"10s", by decide⟩, by decide, by decide⟩
  have unsigned : Sample.layered.BackoffsUnsigned "order" := by
    constructor
    · rintro _ ⟨⟩
      decide
    · rintro _ ⟨⟩
      decide
  exact ⟨rfl, (backoff_sane_iff carried Sample.rational?_two).2 unsigned⟩

/-- Minus five seconds are accepted: the first delay is negative and the second one shorter. -/
theorem negative_backoff_accepted :
    Sample.hasty.validate = .ok () ∧
      BinaryFraction.rational? (Sample.hasty.retryPolicy "order").multiplier = some 2 ∧
      (Sample.hasty.retryPolicy "order").exactBackoff 2 1 = -5000 ∧
      (Sample.hasty.retryPolicy "order").exactBackoff 2 2 = -10000 ∧
      ¬SaneDelays ((Sample.hasty.retryPolicy "order").exactBackoff 2)
        (Sample.hasty.retryPolicy "order").maxBackoff := by
  have initial : (Sample.hasty.retryPolicy "order").initialBackoff = -5000 := rfl
  have limit : (Sample.hasty.retryPolicy "order").maxBackoff = 30000 := rfl
  have first : (Sample.hasty.retryPolicy "order").exactBackoff 2 1 = -5000 := by
    rw [exactBackoff_one, initial, limit]
    rfl
  have second : (Sample.hasty.retryPolicy "order").uncutBackoff 2 1 = ((-10000 : Int) : ℚ) := by
    rw [RetryPolicy.uncutBackoff, initial, limit]
    norm_num
  refine ⟨rfl, Sample.rational?_two, first, ?_, fun sane => ?_⟩
  · rw [exactBackoff_succ, second, DelayArithmetic.toMillis_intCast]
  · have := (sane 1 le_rfl).1
    omega

end SagaEngine
