import SagaEngine.Proofs.Durations
import SagaEngine.Proofs.WrittenValues
import SagaEngine.Proofs.RecoveryWindow
import Mathlib.Algebra.Order.Ring.Nat
import Mathlib.Data.List.Induction
/-!
# The durations on which both counts agree

A text may carry durations of ten thousand years, but a signed word of 64 bits holds the nanoseconds
of 292 years only. Below that nothing overflows, and what a duration is resolved to is what it was
compared by. Above it the resolved count wraps around, too far to be hidden by the cut to
milliseconds. Main statements: `carried_iff_inRange` and `durations_read_alike_iff`.
-/

namespace SagaEngine

namespace Numeral

/-- The last decimal digits of a number, as many as are asked for. -/
def lastDigits : Nat → Nat → List Char
  | 0, _ => []
  | k + 1, n => lastDigits k (n / 10) ++ [Nat.digitChar (n % 10)]

theorem digitsValue_concat (cs : List Char) (c : Char) :
    digitsValue (cs ++ [c]) = 10 * digitsValue cs + (c.toNat - '0'.toNat) := by
  simp [digitsValue]

theorem digit_le_nine {c : Char} (digit : c.isDigit = true) : c.toNat - '0'.toNat ≤ 9 := by
  have high := (Char.isDigit_iff_toNat.1 digit).2
  simp only [Char.reduceToNat] at high ⊢
  omega

theorem digitsValue_lt {cs : List Char} (all : ∀ c ∈ cs, c.isDigit = true) :
    digitsValue cs < 10 ^ cs.length := by
  induction cs using List.reverseRecOn with
  | nil => decide
  | append_singleton cs c ih =>
    have less := ih fun d inside => all d (List.mem_append_left _ inside)
    have digit := digit_le_nine (all c (by simp))
    rw [digitsValue_concat, List.length_append, List.length_singleton, Nat.pow_succ]
    omega

theorem length_lastDigits (k n : Nat) : (lastDigits k n).length = k := by
  induction k generalizing n with
  | zero => rfl
  | succ k ih => simp [lastDigits, ih]

theorem isDigit_of_mem_lastDigits {k n : Nat} {c : Char} (inside : c ∈ lastDigits k n) :
    c.isDigit = true := by
  induction k generalizing n with
  | zero => cases inside
  | succ k ih =>
    rcases List.mem_append.1 inside with earlier | last
    · exact ih earlier
    · rw [List.mem_singleton.1 last]
      rw [Char.isDigit_iff_toNat, Nat.toNat_digitChar_of_lt_ten (by omega)]
      simp only [Char.reduceToNat]
      omega

theorem digitsValue_lastDigits {k n : Nat} (small : n < 10 ^ k) :
    digitsValue (lastDigits k n) = n := by
  induction k generalizing n with
  | zero =>
    have zero : n = 0 := Nat.lt_one_iff.1 small
    rw [zero]
    rfl
  | succ k ih =>
    have less : n / 10 < 10 ^ k := by
      rw [Nat.pow_succ] at small
      omega
    have last : (Nat.digitChar (n % 10)).toNat - '0'.toNat = n % 10 := by
      rw [Nat.toNat_digitChar_of_lt_ten (by omega)]
      simp
    rw [lastDigits, digitsValue_concat, ih less, last]
    omega

theorem splitDigits_lastDigits (k n : Nat) {c : Char} (rest : List Char)
    (stops : c.isDigit = false) :
    splitDigits (lastDigits k n ++ c :: rest) = (lastDigits k n, c :: rest) := by
  have digits : ∀ d ∈ lastDigits k n, d.isDigit = true := fun _ => isDigit_of_mem_lastDigits
  rw [splitDigits, List.takeWhile_append_of_pos digits, List.dropWhile_append_of_pos digits,
    List.takeWhile_cons_of_neg (by simp [stops]), List.dropWhile_cons_of_neg (by simp [stops]),
    List.append_nil]

theorem lastDigits_succ_eq_cons (k n : Nat) :
    ∃ c tail, lastDigits (k + 1) n = c :: tail ∧ c.isDigit = true := by
  obtain ⟨c, tail, shape⟩ :=
    List.exists_cons_of_ne_nil (show lastDigits (k + 1) n ≠ [] by simp [lastDigits])
  exact ⟨c, tail, shape, isDigit_of_mem_lastDigits (shape ▸ List.mem_cons_self)⟩

theorem splitSign_lastDigits (negative : Bool) (k n : Nat) (rest : List Char) :
    splitSign (signChars negative ++ lastDigits (k + 1) n ++ rest) =
      (negative, lastDigits (k + 1) n ++ rest) := by
  cases negative with
  | true => rfl
  | false =>
    obtain ⟨c, tail, shape, digit⟩ := lastDigits_succ_eq_cons k n
    have unsigned : c ≠ '-' := by
      intro minus
      simp [minus] at digit
    rw [shape]
    simp only [signChars, Bool.false_eq_true, if_false, List.nil_append, List.cons_append]
    rw [splitSign]
    intro text same
    exact unsigned (List.cons.inj same).1

end Numeral

namespace Duration

open Numeral

/-- What a text can carry: at most 315576000000 seconds, and less than a second in nanoseconds, not
of the opposite sign. -/
structure InRange (d : Duration) : Prop where
  signed : d.Signed
  seconds : d.seconds.natAbs ≤ maxSeconds
  nanos : d.nanos.natAbs < 1000000000

/-- The number fits a signed word of 64 bits. -/
def SignedWord (n : Int) : Prop := -0x8000000000000000 ≤ n ∧ n < 0x8000000000000000

/-- Everything that is counted on the way to either number of milliseconds. -/
def counted (d : Duration) : List Int :=
  [d.seconds * 1000000000, d.nanos, d.seconds * 1000000000 + d.nanos,
    (d.seconds * 1000000000 + d.nanos).tdiv 1000000,
    d.seconds * 1000, d.nanos.tdiv 1000000, d.comparedMillis]

section

variable {d : Duration} {text : String}

/-! ## What a text carries -/

theorem nanos_lt_of_fraction {fraction : List Char} (digits : ∀ c ∈ fraction, c.isDigit = true)
    (short : fraction.length ≤ 9) :
    digitsValue (fraction ++ List.replicate (9 - fraction.length) '0') < 1000000000 := by
  have all : ∀ c ∈ fraction ++ List.replicate (9 - fraction.length) '0', c.isDigit = true := by
    intro c inside
    rcases List.mem_append.1 inside with digit | zero
    · exact digits c digit
    · rw [List.eq_of_mem_replicate zero]
      rfl
  have less := digitsValue_lt all
  have length : (fraction ++ List.replicate (9 - fraction.length) '0').length = 9 := by
    rw [List.length_append, List.length_replicate]
    omega
  rwa [length] at less

theorem inRange_of_ofText? (read : ofText? text = some d) : d.InRange := by
  have signed := signed_of_ofText? read
  simp only [ofText?] at read
  split at read
  · cases read
  rename_i fraction found
  have digits : (∀ c ∈ fraction, c.isDigit = true) ∧ fraction.length ≤ 9 := by
    split at found
    · cases found
      simp
    · rename_i rest _
      split at found
      · cases found
      · rename_i digits split
        split at found
        · rename_i short
          cases found
          refine ⟨?_, short⟩
          have taken : fraction = rest.takeWhile Char.isDigit := (congrArg Prod.fst split).symm
          rw [taken]
          intro c inside
          exact List.all_eq_true.1 List.all_takeWhile c inside
        · cases found
      · cases found
    · cases found
  split at read
  · cases read
  · split at read
    · cases read
    · rename_i low
      have less := nanos_lt_of_fraction digits.1 digits.2
      cases read
      refine ⟨signed, ?_, ?_⟩
      · split <;> simpa using low
      · split <;> simpa using less

/-- A text with twelve digits of seconds and nine digits of nanoseconds. -/
def padded (d : Duration) : String :=
  String.ofList (signChars (d.seconds < 0 ∨ d.nanos < 0) ++ lastDigits 12 d.seconds.natAbs ++
    '.' :: (lastDigits 9 d.nanos.natAbs ++ ['s']))

theorem ofText?_padded (inRange : d.InRange) : ofText? d.padded = some d := by
  obtain ⟨signed, seconds, nanos⟩ := inRange
  have sign := splitSign_lastDigits (d.seconds < 0 ∨ d.nanos < 0) 11 d.seconds.natAbs
    ('.' :: (lastDigits 9 d.nanos.natAbs ++ ['s']))
  have whole : digitsValue (lastDigits 12 d.seconds.natAbs) = d.seconds.natAbs := by
    apply digitsValue_lastDigits
    simp only [maxSeconds] at seconds
    omega
  have fraction : digitsValue (lastDigits 9 d.nanos.natAbs) = d.nanos.natAbs :=
    digitsValue_lastDigits nanos
  have afterWhole := splitDigits_lastDigits 12 d.seconds.natAbs (c := '.')
    (lastDigits 9 d.nanos.natAbs ++ ['s']) rfl
  have afterFraction := splitDigits_lastDigits 9 d.nanos.natAbs (c := 's') [] rfl
  obtain ⟨c, tail, shape, -⟩ := lastDigits_succ_eq_cons 8 d.nanos.natAbs
  obtain ⟨c', tail', shape', -⟩ := lastDigits_succ_eq_cons 11 d.seconds.natAbs
  have length := length_lastDigits 9 d.nanos.natAbs
  have length' := length_lastDigits 12 d.seconds.natAbs
  rw [ofText?, padded, String.toList_ofList, sign]
  dsimp only
  rw [afterWhole]
  rw [shape] at fraction afterFraction length ⊢
  rw [shape'] at whole length' ⊢
  rw [List.cons_append] at afterFraction
  simp only [List.cons_append, afterFraction, length, length', whole, Nat.le_refl, if_true]
  rw [if_neg (by simp), if_neg (by omega), Nat.sub_self, List.replicate_zero, List.append_nil,
    fraction]
  obtain ⟨s, n⟩ := d
  simp only [Signed] at signed
  by_cases negative : s < 0 ∨ n < 0
  · have opposite : -(s.natAbs : Int) = s ∧ -(n.natAbs : Int) = n := by omega
    simp only [negative, decide_true, if_true, opposite]
  · have same : (s.natAbs : Int) = s ∧ (n.natAbs : Int) = n := by omega
    simp only [negative, decide_false, Bool.false_eq_true, if_false, same]

/-- The reader accepts the durations in the range and no others. -/
theorem carried_iff_inRange : (∃ text, ofText? text = some d) ↔ d.InRange := by
  constructor
  · intro ⟨text, read⟩
    exact inRange_of_ofText? read
  · intro inRange
    exact ⟨d.padded, ofText?_padded inRange⟩

/-! ## The two counts -/

/-- A quotient is less than a unit away. -/
theorem tdiv_near (n : Int) :
    n - 1000000 < 1000000 * n.tdiv 1000000 ∧ 1000000 * n.tdiv 1000000 < n + 1000000 := by
  have sum := Int.mul_tdiv_add_tmod n 1000000
  have above := Int.tmod_lt_of_pos n (b := 1000000) (by decide)
  have below := Int.lt_tmod_of_pos n (b := 1000000) (by decide)
  omega

theorem counted_iff_fits (inRange : d.InRange) : (∀ n ∈ d.counted, SignedWord n) ↔ d.Fits := by
  obtain ⟨signed, seconds, nanos⟩ := inRange
  simp only [maxSeconds] at seconds
  have sum := tdiv_near (d.seconds * 1000000000 + d.nanos)
  have part := tdiv_near d.nanos
  constructor
  · intro all
    exact all (d.seconds * 1000000000 + d.nanos) (by simp [counted])
  · intro fits
    obtain ⟨low, high⟩ := fits
    simp only [counted, comparedMillis, List.forall_mem_cons, SignedWord]
    rcases signed with ⟨whole, rest⟩ | ⟨whole, rest⟩
    · refine ⟨?_, ?_, ?_, ?_, ?_, ?_, ?_, List.forall_mem_nil _⟩ <;> omega
    · refine ⟨?_, ?_, ?_, ?_, ?_, ?_, ?_, List.forall_mem_nil _⟩ <;> omega

/-- Two numbers with one quotient are too close for one to be the other wrapped around. -/
theorem fits_of_tdiv_wrap
    (same : (wrapSigned64 (d.seconds * 1000000000 + d.nanos)).tdiv 1000000 =
      (d.seconds * 1000000000 + d.nanos).tdiv 1000000) : d.Fits := by
  have turns := Int.bmod_add_bdiv (d.seconds * 1000000000 + d.nanos) 0x10000000000000000
  rw [Duration.Fits]
  generalize d.seconds * 1000000000 + d.nanos = n at same turns ⊢
  rw [← wrapSigned64] at turns
  have low : -0x8000000000000000 ≤ wrapSigned64 n := Int.le_bmod (by decide)
  have high : wrapSigned64 n < 0x8000000000000000 := Int.bmod_lt (by decide)
  have whole := tdiv_near n
  have wrapped := tdiv_near (wrapSigned64 n)
  rw [same] at wrapped
  omega

theorem toMillis_eq_iff_fits (inRange : d.InRange) (nonzero : d ≠ ⟨0, 0⟩) (fallback : Int) :
    d.toMillis fallback = d.comparedMillis ↔ d.Fits := by
  obtain ⟨signed, seconds, nanos⟩ := inRange
  constructor
  · intro same
    have given : ¬(d.seconds = 0 ∧ d.nanos = 0) := by
      intro ⟨noSeconds, noNanos⟩
      apply nonzero
      cases d
      rw [mk.injEq]
      exact ⟨noSeconds, noNanos⟩
    rw [toMillis, if_neg given, ← signed.tdiv] at same
    exact fits_of_tdiv_wrap same
  · intro fits
    rw [toMillis_of_fits fits signed, if_neg nonzero]

end

end Duration

/-- A duration that is read from a text is resolved to what it was compared by exactly if its
nanoseconds fit a signed word, and exactly then every number on the way fits one. What it is
compared by are its nanoseconds cut to milliseconds toward zero, in any case. -/
theorem durations_read_alike_iff {text : String} {d : Duration}
    (read : Duration.ofText? text = some d) (nonzero : d ≠ ⟨0, 0⟩) (fallback : Int) :
    (d.toMillis fallback = d.comparedMillis ↔ d.Fits) ∧
    ((∀ n ∈ d.counted, Duration.SignedWord n) ↔ d.Fits) ∧
    d.comparedMillis = (d.seconds * 1000000000 + d.nanos).tdiv 1000000 := by
  have inRange := Duration.inRange_of_ofText? read
  exact ⟨Duration.toMillis_eq_iff_fits inRange nonzero fallback, Duration.counted_iff_fits inRange,
    inRange.signed.tdiv.symm⟩

/-- The longest span of nanoseconds before the epoch of a word. -/
theorem durations_read_alike_iff_longest :
    Duration.ofText? "-9223372036.854775808s" = some ⟨-9223372036, -854775808⟩ ∧
      (⟨-9223372036, -854775808⟩ : Duration).toMillis 1000 = -9223372036854 := by
  have read : Duration.ofText? "-9223372036.854775808s" = some ⟨-9223372036, -854775808⟩ := by
    decide +kernel
  have alike := durations_read_alike_iff read (by decide) 1000
  have fits : (⟨-9223372036, -854775808⟩ : Duration).Fits := ⟨by decide, by decide⟩
  exact ⟨read, (alike.1.2 fits).trans (by decide)⟩

/-- An alert after three hundred years. -/
def Sample.distant : RuntimeSettings :=
  { recovery := some { staleAfter := some ⟨60, 0⟩, alertAfter := some ⟨9223372037, 0⟩ } }

/-- The alert comes after the resume when the settings are checked, and its age is negative when
they are resolved. -/
theorem distant_alert_wraps :
    Duration.ofText? "9223372037s" = some ⟨9223372037, 0⟩ ∧
    Sample.distant.validate = .ok () ∧
    (⟨9223372037, 0⟩ : Duration).comparedMillis = 9223372037000 ∧
    (⟨9223372037, 0⟩ : Duration).toMillis 0 = -9223372036709 ∧
    Sample.distant.recoveryOptions.alertAfter = -9223372036709 := by
  refine ⟨by decide +kernel, rfl, by decide, by decide, by decide⟩

end SagaEngine
