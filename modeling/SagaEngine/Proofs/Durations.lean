import SagaEngine.Time.Duration
import Mathlib.Logic.Basic
/-!
# Two ways to count a duration

A configuration is checked with one count of milliseconds and resolved with another one, which goes
through nanoseconds in a signed word of 64 bits. They agree on every duration that a text carries
and whose nanoseconds fit the word. Main statements: `signed_of_ofText?` and `resolve_of_carried`.
-/

namespace SagaEngine

namespace Duration

/-- The seconds and the nanoseconds do not have opposite signs. -/
def Signed (d : Duration) : Prop := 0 ≤ d.seconds ∧ 0 ≤ d.nanos ∨ d.seconds ≤ 0 ∧ d.nanos ≤ 0

/-- The nanoseconds fit a signed word of 64 bits: the duration is shorter than 292 years. -/
def Fits (d : Duration) : Prop :=
  -0x8000000000000000 ≤ d.seconds * 1000000000 + d.nanos ∧
    d.seconds * 1000000000 + d.nanos < 0x8000000000000000

/-- A field that is absent, or a duration that a text carries and that fits. -/
def Carried (d? : Option Duration) : Prop :=
  ∀ d, d? = some d → (∃ text, ofText? text = some d) ∧ d.Fits

/-- A field that is present and not zero: the zero duration stands for an absent one. -/
def given (d? : Option Duration) : Option Duration := d?.filter (· ≠ ⟨0, 0⟩)

theorem signed_of_ofText? {text : String} {d : Duration} (read : ofText? text = some d) :
    d.Signed := by
  simp only [ofText?] at read
  split at read
  · cases read
  · split at read
    · cases read
    · split at read
      · cases read
      · cases read
        split
        · exact .inr ⟨by simp, by simp⟩
        · exact .inl ⟨by simp, by simp⟩

variable {d : Duration} {d? : Option Duration}

theorem Signed.tdiv (signed : d.Signed) :
    (d.seconds * 1000000000 + d.nanos).tdiv 1000000 = d.comparedMillis := by
  obtain ⟨seconds, nanos⟩ := d
  simp only [comparedMillis]
  rcases signed with ⟨whole, part⟩ | ⟨whole, part⟩
  · simp only at whole part
    rw [Int.tdiv_eq_ediv_of_nonneg (by omega), Int.tdiv_eq_ediv_of_nonneg part]
    omega
  · simp only at whole part
    have sum : seconds * 1000000000 + nanos = -(-seconds * 1000000000 + -nanos) := by omega
    have rest : nanos = -(-nanos) := by omega
    rw [sum, Int.neg_tdiv, Int.tdiv_eq_ediv_of_nonneg (by omega), rest, Int.neg_tdiv,
      Int.tdiv_eq_ediv_of_nonneg (by omega), Int.neg_neg]
    omega

theorem Fits.wrap (fits : d.Fits) :
    wrapSigned64 (d.seconds * 1000000000 + d.nanos) = d.seconds * 1000000000 + d.nanos := by
  obtain ⟨low, high⟩ := fits
  rw [wrapSigned64]
  exact Int.bmod_eq_of_le (by omega) (by omega)

theorem Fits.comparedMillis_lt (fits : d.Fits) (signed : d.Signed) :
    d.comparedMillis < 0x8000000000000000 := by
  obtain ⟨-, high⟩ := fits
  rw [← signed.tdiv]
  by_cases low : 0 ≤ d.seconds * 1000000000 + d.nanos
  · rw [Int.tdiv_eq_ediv_of_nonneg low]
    omega
  · have opposite : d.seconds * 1000000000 + d.nanos = -(-(d.seconds * 1000000000 + d.nanos)) :=
      (Int.neg_neg _).symm
    rw [opposite, Int.neg_tdiv, Int.tdiv_eq_ediv_of_nonneg (by omega)]
    omega

theorem toMillis_of_fits (fits : d.Fits) (signed : d.Signed) (fallback : Int) :
    d.toMillis fallback = if d = ⟨0, 0⟩ then fallback else d.comparedMillis := by
  rw [toMillis, fits.wrap, signed.tdiv]
  refine if_congr ?_ rfl rfl
  cases d
  simp only [mk.injEq]

/-- What a field is resolved to is what it is compared by, if it is given. -/
theorem resolve_of_carried (carried : Carried d?) (fallback : Int) :
    resolve d? fallback = ((given d?).map comparedMillis).getD fallback := by
  cases d? with
  | none => rfl
  | some d =>
    obtain ⟨⟨text, read⟩, fits⟩ := carried d rfl
    rw [resolve, toMillis_of_fits fits (signed_of_ofText? read)]
    by_cases zero : d = ⟨0, 0⟩
    · simp [given, Option.filter, zero]
    · simp [given, Option.filter, zero]

theorem resolve_lt (carried : Carried d?) {fallback : Int} (low : fallback < 0x8000000000000000) :
    resolve d? fallback < 0x8000000000000000 := by
  rw [resolve_of_carried carried]
  cases field : given d? with
  | none => exact low
  | some d =>
    have present : d? = some d := Option.eq_some_of_filter_eq_some field
    obtain ⟨⟨text, read⟩, fits⟩ := carried d present
    exact fits.comparedMillis_lt (signed_of_ofText? read)

end Duration

end SagaEngine
