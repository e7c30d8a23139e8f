import Mathlib
import StackAsm.Proofs.Rounding

namespace StackAsm.Binary64

/-- The eleven bits of the exponent. -/
def exponentField (bits : UInt64) : ℕ :=
  bits.toNat / 2 ^ 52 % 2 ^ 11

def fraction (bits : UInt64) : ℕ :=
  bits.toNat % 2 ^ 52

/-- The sign bit is set. -/
def IsNegative (bits : UInt64) : Prop :=
  2 ^ 63 ≤ bits.toNat

instance : DecidablePred IsNegative := fun _ => inferInstanceAs (Decidable (_ ≤ _))

/-- The bits are those of a number, and not of an infinity or of none. -/
def IsFinite (bits : UInt64) : Prop :=
  exponentField bits ≠ 2047

instance : DecidablePred IsFinite := fun _ => inferInstanceAs (Decidable (_ ≠ _))

/-- The magnitude of finite bits. The fraction has a leading one unless the exponent is zero. -/
def magnitude (bits : UInt64) : ℚ :=
  if exponentField bits = 0 then fraction bits * 2 ^ (-1074 : ℤ)
  else (2 ^ 52 + fraction bits) * 2 ^ ((exponentField bits : ℤ) - 1075)

/-- A number of the given sign and magnitude. -/
def signed (negative : Bool) (number : ℚ) : ℚ :=
  if negative then -number else number

/-- The value of finite bits. -/
def value (bits : UInt64) : ℚ :=
  signed (IsNegative bits) (magnitude bits)

/-- The bits are those to which a number of the given sign is rounded. -/
structure Rounds (negative : Bool) (number : ℚ) (bits : UInt64) : Prop where
  finite : IsFinite bits
  sign : IsNegative bits ↔ negative = true
  nearest : ∀ other, IsFinite other → |value bits - number| ≤ |value other - number|
  even : ∀ other, IsFinite other → |value other - number| = |value bits - number| →
    value other = value bits ∨ fraction bits % 2 = 0

/-- All bits but that of the sign. -/
def pattern (bits : UInt64) : ℕ :=
  bits.toNat % 2 ^ 63

/-- The bits of a sign and a pattern. -/
def ofPattern (negative : Bool) (pattern : ℕ) : UInt64 :=
  UInt64.ofNat (if negative then signPattern + pattern else pattern)

theorem isFinite_iff {bits : UInt64} : IsFinite bits ↔ pattern bits < infinityPattern := by
  have hinfinity : infinityPattern = 2047 * 2 ^ 52 := by decide
  rw [IsFinite, exponentField, pattern, hinfinity]
  omega

theorem magnitude_eq (bits : UInt64) : magnitude bits = units (pattern bits) / 2 ^ 1074 := by
  have hfield : pattern bits / 2 ^ 52 = exponentField bits := by
    rw [pattern, exponentField]
    omega
  have hfraction : pattern bits % 2 ^ 52 = fraction bits := by
    rw [pattern, fraction]
    omega
  have hscale : (2 : ℚ) ^ (-1074 : ℤ) = (2 ^ 1074)⁻¹ := by
    simp only [zpow_neg, zpow_ofNat]
  rw [magnitude, units, hfield, hfraction, div_eq_mul_inv, ← hscale]
  split
  case isTrue => rfl
  case isFalse hne =>
    have hexponent : (exponentField bits : ℤ) - 1075 = (exponentField bits - 1 : ℕ) + -1074 := by
      omega
    rw [hexponent, zpow_add₀ two_ne_zero, zpow_natCast, ← mul_assoc, Nat.cast_mul, Nat.cast_add,
      Nat.cast_pow, Nat.cast_pow, Nat.cast_ofNat]

section Patterns

variable {negative : Bool}

theorem toNat_ofPattern {code : ℕ} (h : code < 2 ^ 63) :
    (ofPattern negative code).toNat = if negative then 2 ^ 63 + code else code := by
  have hsign : signPattern = 2 ^ 63 := by decide
  rw [ofPattern, hsign, UInt64.toNat_ofNat_of_lt']
  change _ < 2 ^ 64
  split <;> omega

theorem isNegative_ofPattern_iff {code : ℕ} (h : code < 2 ^ 63) :
    IsNegative (ofPattern negative code) ↔ negative = true := by
  rw [IsNegative, toNat_ofPattern h]
  cases negative with
  | false => simpa using h
  | true => simp

theorem pattern_ofPattern {code : ℕ} (h : code < 2 ^ 63) :
    pattern (ofPattern negative code) = code := by
  rw [pattern, toNat_ofPattern h]
  split <;> omega

theorem eq_of_pattern_eq {bits other : UInt64} (hsign : IsNegative bits ↔ IsNegative other)
    (h : pattern bits = pattern other) : bits = other := by
  have hbits : bits.toNat < 2 ^ 64 := bits.toNat_lt
  have hother : other.toNat < 2 ^ 64 := other.toNat_lt
  rw [IsNegative, IsNegative] at hsign
  rw [pattern, pattern] at h
  apply UInt64.toNat_inj.mp
  omega

end Patterns

section Rounds

variable {negative : Bool} {number : ℚ} {bits other : UInt64}

theorem magnitude_nonneg (bits : UInt64) : 0 ≤ magnitude bits := by
  rw [magnitude_eq]
  positivity

theorem value_eq (h : IsNegative bits ↔ negative = true) :
    value bits = signed negative (magnitude bits) := by
  rw [value]
  congr 1
  rw [Bool.eq_iff_iff, decide_eq_true_iff]
  exact h

theorem distance_of_sign (h : IsNegative bits ↔ negative = true) :
    |value bits - signed negative number| = |magnitude bits - number| := by
  rw [value_eq h]
  cases negative with
  | false => rfl
  | true =>
      have hflip : -magnitude bits - -number = -(magnitude bits - number) := by ring
      exact (congrArg abs hflip).trans (abs_neg _)

theorem distance_of_not_sign (h : ¬(IsNegative bits ↔ negative = true)) (hnumber : 0 ≤ number) :
    |value bits - signed negative number| = magnitude bits + number := by
  have hopposite : IsNegative bits ↔ (!negative) = true := by
    rw [Bool.not_eq_true', ← Bool.not_eq_true]
    tauto
  have hnonneg := magnitude_nonneg bits
  rw [value_eq hopposite]
  cases negative with
  | false =>
      have hflip : -magnitude bits - number = -(magnitude bits + number) := by ring
      calc
        |-magnitude bits - number| = |magnitude bits + number| := by rw [hflip, abs_neg]
        _ = magnitude bits + number := abs_of_nonneg (by linarith)
  | true =>
      have hflip : magnitude bits - -number = magnitude bits + number := by ring
      calc
        |magnitude bits - -number| = |magnitude bits + number| := by rw [hflip]
        _ = magnitude bits + number := abs_of_nonneg (by linarith)

theorem distance_units (bits : UInt64) (number : ℚ) :
    |(units (pattern bits) : ℚ) - number * 2 ^ 1074| = |magnitude bits - number| * 2 ^ 1074 := by
  have hpos : (0 : ℚ) < 2 ^ 1074 := by positivity
  rw [magnitude_eq, ← abs_of_pos hpos, ← abs_mul, abs_of_pos hpos, sub_mul,
    div_mul_cancel₀ _ hpos.ne']

theorem distance_zero (hnumber : 0 ≤ number) :
    |(units 0 : ℚ) - number * 2 ^ 1074| = number * 2 ^ 1074 := by
  have hzero : (units 0 : ℚ) = 0 := Nat.cast_zero
  have hnonneg : 0 ≤ number * 2 ^ 1074 := by positivity
  rw [hzero, zero_sub, abs_neg, abs_of_nonneg hnonneg]

theorem value_eq_zero (h : magnitude bits = 0) : value bits = 0 := by
  rw [value, h, signed, neg_zero, ite_self]

theorem pattern_eq_of_value_eq (hbits : IsNegative bits ↔ negative = true)
    (hother : IsNegative other ↔ negative = true) (h : value other = value bits) :
    pattern other = pattern bits := by
  have hmagnitude : magnitude other = magnitude bits := by
    rw [value_eq hbits, value_eq hother] at h
    cases negative with
    | false => exact h
    | true => exact neg_inj.mp h
  rw [magnitude_eq, magnitude_eq, div_left_inj' (by positivity), Nat.cast_inj] at hmagnitude
  exact units_strictMono.injective hmagnitude

theorem fraction_mod_two (bits : UInt64) : fraction bits % 2 = pattern bits % 2 := by
  rw [fraction, pattern]
  omega

theorem nearest_of_rounds (h : Rounds negative (signed negative number) bits) :
    Nearest (Set.Iio infinityPattern) (number * 2 ^ 1074) (pattern bits) := by
  have hscale : (0 : ℚ) < 2 ^ 1074 := by positivity
  have hlimit : infinityPattern < 2 ^ 63 := by decide
  have hexists : ∀ code ∈ Set.Iio infinityPattern,
      ∃ other, pattern other = code ∧ IsFinite other ∧ (IsNegative other ↔ negative = true) := by
    intro code hcode
    have hlt : code < 2 ^ 63 := hcode.trans hlimit
    have hpattern := @pattern_ofPattern negative code hlt
    exact ⟨_, hpattern, isFinite_iff.mpr (hpattern.trans_lt hcode), isNegative_ofPattern_iff hlt⟩
  constructor
  · intro code hcode
    obtain ⟨other, rfl, hfinite, hsign⟩ := hexists code hcode
    have hle := h.nearest other hfinite
    rw [distance_of_sign h.sign, distance_of_sign hsign] at hle
    rw [distance_units, distance_units]
    exact mul_le_mul_of_nonneg_right hle hscale.le
  · intro code hcode hne hsame
    obtain ⟨other, rfl, hfinite, hsign⟩ := hexists code hcode
    rw [distance_units, distance_units] at hsame
    have hdistance := mul_right_cancel₀ hscale.ne' hsame
    rw [← distance_of_sign h.sign, ← distance_of_sign hsign] at hdistance
    rcases h.even other hfinite hdistance with hvalue | hfraction
    · exact absurd (pattern_eq_of_value_eq h.sign hsign hvalue) hne
    · rwa [fraction_mod_two] at hfraction

theorem rounds_of_nearest (hnumber : 0 ≤ number) (hsign : IsNegative bits ↔ negative = true)
    (hfinite : pattern bits < infinityPattern)
    (h : Nearest (Set.Iio infinityPattern) (number * 2 ^ 1074) (pattern bits)) :
    Rounds negative (signed negative number) bits := by
  have hscale : (0 : ℚ) < 2 ^ 1074 := by positivity
  have hzero : |magnitude bits - number| ≤ number := by
    have hle := h.le 0 (show 0 < infinityPattern by decide)
    rw [distance_units, distance_zero hnumber] at hle
    exact le_of_mul_le_mul_right hle hscale
  refine ⟨isFinite_iff.mpr hfinite, hsign, ?_, ?_⟩
  · intro other hother
    rw [distance_of_sign hsign]
    by_cases hsame : IsNegative other ↔ negative = true
    · have hle := h.le (pattern other) (isFinite_iff.mp hother)
      rw [distance_units, distance_units] at hle
      rw [distance_of_sign hsame]
      exact le_of_mul_le_mul_right hle hscale
    · have hnonneg := magnitude_nonneg other
      rw [distance_of_not_sign hsame hnumber]
      linarith
  · intro other hother hdistance
    rw [distance_of_sign hsign] at hdistance
    rw [fraction_mod_two]
    by_cases hsame : IsNegative other ↔ negative = true
    · rw [distance_of_sign hsame] at hdistance
      by_cases hpattern : pattern other = pattern bits
      · left
        rw [value_eq hsign, value_eq hsame, magnitude_eq, magnitude_eq, hpattern]
      · right
        apply h.even _ (isFinite_iff.mp hother) hpattern
        rw [distance_units, distance_units, hdistance]
    · -- then zero is the value on the other side, and as near as any
      have hnonneg := magnitude_nonneg other
      rw [distance_of_not_sign hsame hnumber] at hdistance
      have hother : magnitude other = 0 := by linarith
      by_cases hpattern : pattern bits = 0
      · left
        have hbits : magnitude bits = 0 := by rw [magnitude_eq, hpattern, units]; simp
        rw [value_eq_zero hother, value_eq_zero hbits]
      · right
        apply h.even 0 (show 0 < infinityPattern by decide) (Ne.symm hpattern)
        rw [distance_units, distance_zero hnumber, ← hdistance, hother, zero_add]

/-- Rounding comes down to the patterns: a sign is kept, and the pattern is the finite one nearest
to the magnitude. -/
theorem rounds_iff (hnumber : 0 ≤ number) :
    Rounds negative (signed negative number) bits ↔
      (IsNegative bits ↔ negative = true) ∧ pattern bits < infinityPattern ∧
        Nearest (Set.Iio infinityPattern) (number * 2 ^ 1074) (pattern bits) := by
  constructor
  · intro h
    exact ⟨h.sign, isFinite_iff.mp h.finite, nearest_of_rounds h⟩
  · rintro ⟨hsign, hfinite, h⟩
    exact rounds_of_nearest hnumber hsign hfinite h

end Rounds

section Ratio

variable {negative : Bool} {num den : ℕ} {bits : UInt64}

theorem ofRatio?_eq_some_iff :
    ofRatio? negative num den = some bits ↔
      nearestPattern num den < infinityPattern ∧
        bits = ofPattern negative (nearestPattern num den) := by
  rw [ofRatio?]
  split
  case isTrue h => simp [h, ofPattern, eq_comm]
  case isFalse h => simp [h]

theorem isFinite_of_ofRatio? (h : ofRatio? negative num den = some bits) : IsFinite bits := by
  obtain ⟨hlt, rfl⟩ := ofRatio?_eq_some_iff.mp h
  have hlimit : infinityPattern < 2 ^ 63 := by decide
  rw [isFinite_iff, pattern_ofPattern (hlt.trans hlimit)]
  exact hlt

theorem infinityPattern_le_nearestPattern_iff (hden : 0 < den) :
    infinityPattern ≤ nearestPattern num den ↔ (2 : ℚ) ^ 1024 - 2 ^ 970 ≤ num / den := by
  have hscale : (0 : ℚ) < 2 ^ 1074 := by positivity
  have hlimit : ((2 : ℚ) ^ 1024 - 2 ^ 970) * 2 ^ 1074 = (2 ^ 54 - 1) * 2 ^ 2044 := by
    have hfirst : (2 : ℚ) ^ 1024 = 2 ^ 54 * 2 ^ 970 := by rw [← pow_add]
    have hsecond : (2 : ℚ) ^ 2044 = 2 ^ 970 * 2 ^ 1074 := by rw [← pow_add]
    rw [hfirst, hsecond, ← sub_one_mul, mul_assoc]
  rw [infinityPattern_le_iff (nearest_nearestPattern hden), ← hlimit, mul_div_right_comm,
    mul_le_mul_iff_left₀ hscale]

theorem ofRatio?_eq_none_iff (hden : 0 < den) :
    ofRatio? negative num den = none ↔ (2 : ℚ) ^ 1024 - 2 ^ 970 ≤ num / den := by
  rw [← infinityPattern_le_nearestPattern_iff hden, ← not_lt, ofRatio?]
  split
  case isTrue h => simp [h]
  case isFalse h => simp [h]

theorem exists_ofRatio? (hden : 0 < den) (hlt : (num : ℚ) / den < 2 ^ 1024 - 2 ^ 970) :
    ∃ bits, ofRatio? negative num den = some bits ∧
      ∀ other, Rounds negative (signed negative (num / den)) other ↔ other = bits := by
  have hfinite : nearestPattern num den < infinityPattern := by
    rw [← not_le, infinityPattern_le_nearestPattern_iff hden]
    exact not_le.mpr hlt
  have hcode : nearestPattern num den < 2 ^ 63 := hfinite.trans (by decide)
  have hnumber : (0 : ℚ) ≤ num / den := by positivity
  have hnearest : Nearest (Set.Iio infinityPattern) (num / den * 2 ^ 1074)
      (nearestPattern num den) := by
    rw [div_mul_eq_mul_div]
    exact (nearest_nearestPattern hden).mono (Set.subset_univ _)
  refine ⟨_, ofRatio?_eq_some_iff.mpr ⟨hfinite, rfl⟩, fun other => ?_⟩
  rw [rounds_iff hnumber]
  constructor
  · rintro ⟨hsign, hother, h⟩
    apply eq_of_pattern_eq
    · rw [hsign, isNegative_ofPattern_iff hcode]
    · rw [pattern_ofPattern hcode]
      exact h.unique Set.ordConnected_Iio hother hfinite hnearest
  · rintro rfl
    rw [pattern_ofPattern hcode]
    exact ⟨isNegative_ofPattern_iff hcode, hfinite, hnearest⟩

end Ratio

end StackAsm.Binary64
