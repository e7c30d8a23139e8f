import Mathlib
import StackAsm.Number.Binary64

/-!
Rounding. The patterns of magnitudes are in the order of the magnitudes, also past the greatest
finite one, so the nearest pattern is one of the two around a number. Everything else is told from
that: that there is one such pattern, and where the finite ones end.
-/

namespace StackAsm.Binary64

/-- The magnitude of a pattern, in units of the least positive one. The bits of the exponent are
read as a number without a greatest value. -/
def units (pattern : ℕ) : ℕ :=
  if pattern / 2 ^ 52 = 0 then pattern % 2 ^ 52
  else (2 ^ 52 + pattern % 2 ^ 52) * 2 ^ (pattern / 2 ^ 52 - 1)

theorem units_add {s n : ℕ} (hn : n ≤ 2 ^ 53) (hs : s = 0 ∨ 2 ^ 52 ≤ n) :
    units (s * 2 ^ 52 + n) = n * 2 ^ s := by
  unfold units
  rcases lt_or_ge n (2 ^ 52) with hsmall | hlarge
  · obtain rfl : s = 0 := by omega
    rw [if_pos (by omega), Nat.pow_zero, Nat.mul_one]
    omega
  · rw [if_neg (by omega)]
    rcases hn.lt_or_eq with hlt | rfl
    · have hfield : (s * 2 ^ 52 + n) / 2 ^ 52 - 1 = s := by omega
      have hfraction : 2 ^ 52 + (s * 2 ^ 52 + n) % 2 ^ 52 = n := by omega
      rw [hfield, hfraction]
    · have hfield : (s * 2 ^ 52 + 2 ^ 53) / 2 ^ 52 - 1 = s + 1 := by omega
      have hfraction : 2 ^ 52 + (s * 2 ^ 52 + 2 ^ 53) % 2 ^ 52 = 2 ^ 52 := by omega
      rw [hfield, hfraction]
      ring

theorem exists_eq_add (pattern : ℕ) :
    ∃ s n, pattern = s * 2 ^ 52 + n ∧ n < 2 ^ 53 ∧ (s = 0 ∨ 2 ^ 52 ≤ n) := by
  rcases Nat.eq_zero_or_pos (pattern / 2 ^ 52) with hfield | hfield
  · exact ⟨0, pattern, by omega, by omega, .inl rfl⟩
  · exact ⟨pattern / 2 ^ 52 - 1, 2 ^ 52 + pattern % 2 ^ 52, by omega, by omega, .inr (by omega)⟩

theorem units_strictMono : StrictMono units := by
  apply strictMono_nat_of_lt_succ
  intro pattern
  obtain ⟨s, n, rfl, hn, hs⟩ := exists_eq_add pattern
  have hs' := hs.imp_right fun h => h.trans (Nat.le_succ n)
  rw [units_add hn.le hs, Nat.add_assoc, units_add hn hs']
  exact Nat.mul_lt_mul_of_pos_right (Nat.lt_succ_self n) (Nat.two_pow_pos s)

theorem cast_units_lt {a b : ℕ} : (units a : ℚ) < units b ↔ a < b := by
  rw [Nat.cast_lt]
  exact units_strictMono.lt_iff_lt

theorem cast_units_le {a b : ℕ} : (units a : ℚ) ≤ units b ↔ a ≤ b := by
  rw [Nat.cast_le]
  exact units_strictMono.le_iff_le

/-- Among some patterns none is nearer to a number of units, and if another one is as near, then
the pattern is even. -/
structure Nearest (patterns : Set ℕ) (number : ℚ) (pattern : ℕ) : Prop where
  le : ∀ other ∈ patterns, |units pattern - number| ≤ |units other - number|
  even : ∀ other ∈ patterns, other ≠ pattern →
    |units other - number| = |units pattern - number| → pattern % 2 = 0

section Nearest

variable {patterns : Set ℕ} {number : ℚ} {pattern other : ℕ}

theorem Nearest.mono {fewer : Set ℕ} (h : Nearest patterns number pattern)
    (hsubset : fewer ⊆ patterns) : Nearest fewer number pattern where
  le other hother := h.le other (hsubset hother)
  even other hother := h.even other (hsubset hother)

theorem Nearest.not_lt (hpatterns : patterns.OrdConnected) (hmem : pattern ∈ patterns)
    (hother : other ∈ patterns) (h : Nearest patterns number pattern)
    (hnearest : Nearest patterns number other) : ¬pattern < other := by
  intro hlt
  have hdistance : |(units other : ℚ) - number| = |units pattern - number| :=
    le_antisymm (hnearest.le pattern hmem) (h.le other hother)
  have heven := h.even other hother hlt.ne' hdistance
  have hevenOther := hnearest.even pattern hmem hlt.ne hdistance.symm
  have hbelow : (units pattern : ℚ) < units (pattern + 1) := cast_units_lt.mpr (Nat.lt_succ_self _)
  have habove : (units (pattern + 1) : ℚ) < units other := cast_units_lt.mpr (by omega)
  have hbetween : pattern + 1 ∈ patterns :=
    hpatterns.out hmem hother ⟨Nat.le_succ pattern, hlt⟩
  rcases abs_eq_abs.mp hdistance with hsame | hopposite
  · linarith
  · -- the number is halfway between the two
    have hstrict : |(units (pattern + 1) : ℚ) - number| < |units pattern - number| := by
      have hnonpos : (units pattern : ℚ) - number ≤ 0 := by linarith
      rw [abs_of_nonpos hnonpos, abs_lt]
      constructor <;> linarith
    exact (h.le _ hbetween).not_gt hstrict

theorem Nearest.unique (hpatterns : patterns.OrdConnected) (hmem : pattern ∈ patterns)
    (hother : other ∈ patterns) (h : Nearest patterns number pattern)
    (hnearest : Nearest patterns number other) : pattern = other := by
  apply le_antisymm
  · exact Nat.not_lt.mp (hnearest.not_lt hpatterns hother hmem h)
  · exact Nat.not_lt.mp (h.not_lt hpatterns hmem hother hnearest)

/-- Of the two patterns around a number the nearer one is the nearest of all. -/
theorem nearest_of_between {below : ℕ} (hbelow : (units below : ℚ) ≤ number)
    (habove : number ≤ units (below + 1)) (hpattern : pattern = below ∨ pattern = below + 1)
    (hle : |units pattern - number| ≤ number - units below)
    (hle' : |units pattern - number| ≤ units (below + 1) - number)
    (heven : number - units below = units (below + 1) - number → pattern % 2 = 0) :
    Nearest Set.univ number pattern := by
  have hcases (other : ℕ) :
      (other ≤ below ∧ |units other - number| = number - units other ∧
        (units other : ℚ) ≤ units below) ∨
      (below + 1 ≤ other ∧ |units other - number| = units other - number ∧
        (units (below + 1) : ℚ) ≤ units other) := by
    rcases Nat.lt_or_ge below other with hlt | hle
    · have hunits : (units (below + 1) : ℚ) ≤ units other := cast_units_le.mpr hlt
      exact .inr ⟨hlt, abs_of_nonneg (by linarith), hunits⟩
    · have hunits : (units other : ℚ) ≤ units below := cast_units_le.mpr hle
      refine .inl ⟨hle, ?_, hunits⟩
      rw [abs_of_nonpos (by linarith)]
      ring
  constructor
  · intro other _
    rcases hcases other with ⟨-, hdistance, hunits⟩ | ⟨-, hdistance, hunits⟩
    · linarith
    · linarith
  · intro other _ hne hsame
    rcases hcases other with ⟨hother, hdistance, hunits⟩ | ⟨hother, hdistance, hunits⟩
    · have hend : other = below := by
        apply le_antisymm hother
        apply cast_units_le.mp
        linarith
      subst hend
      obtain rfl := hpattern.resolve_left hne.symm
      rw [hdistance, abs_of_nonneg (sub_nonneg.mpr habove)] at hsame
      exact heven hsame
    · have hend : other = below + 1 := by
        apply le_antisymm _ hother
        apply cast_units_le.mp
        linarith
      subst hend
      obtain rfl := hpattern.resolve_right hne.symm
      rw [hdistance, abs_of_nonpos (sub_nonpos.mpr hbelow), neg_sub] at hsame
      exact heven hsame.symm

theorem nearest_below {below : ℕ} (hbelow : (units below : ℚ) ≤ number)
    (hnearer : number - units below < units (below + 1) - number) :
    Nearest Set.univ number below := by
  have hdistance : |(units below : ℚ) - number| = number - units below := by
    rw [abs_of_nonpos (sub_nonpos.mpr hbelow), neg_sub]
  apply nearest_of_between hbelow (by linarith) (.inl rfl)
  · exact hdistance.le
  · exact hdistance.trans_le hnearer.le
  · exact fun htie => absurd htie hnearer.ne

theorem nearest_above {below : ℕ} (habove : number ≤ units (below + 1))
    (hnearer : units (below + 1) - number < number - units below) :
    Nearest Set.univ number (below + 1) := by
  have hdistance : |(units (below + 1) : ℚ) - number| = units (below + 1) - number :=
    abs_of_nonneg (sub_nonneg.mpr habove)
  apply nearest_of_between (by linarith) habove (.inr rfl)
  · exact hdistance.trans_le hnearer.le
  · exact hdistance.le
  · exact fun htie => absurd htie hnearer.ne'

theorem nearest_halfway {below : ℕ}
    (htie : number - units below = units (below + 1) - number)
    (hpattern : pattern = below ∨ pattern = below + 1) (heven : pattern % 2 = 0) :
    Nearest Set.univ number pattern := by
  have hlt : (units below : ℚ) < units (below + 1) := cast_units_lt.mpr (Nat.lt_succ_self below)
  have hdistance : |(units pattern : ℚ) - number| = number - units below := by
    rcases hpattern with rfl | rfl
    · rw [abs_of_nonpos (by linarith), neg_sub]
    · rw [abs_of_nonneg (by linarith), htie]
  apply nearest_of_between (by linarith) (by linarith) hpattern
  · exact hdistance.le
  · exact (hdistance.trans htie).le
  · exact fun _ => heven

end Nearest

section Ratio

variable {num den : ℕ}

theorem nearest_roundHalfEven {shift : ℕ} (hden : 0 < den)
    (hlt : num / (den * 2 ^ shift) < 2 ^ 53)
    (hshift : shift = 0 ∨ 2 ^ 52 ≤ num / (den * 2 ^ shift)) :
    Nearest Set.univ (num / den) (shift * 2 ^ 52 + roundHalfEven num (den * 2 ^ shift)) := by
  set quotient := num / (den * 2 ^ shift) with hquotient
  set remainder := num % (den * 2 ^ shift) with hremainder
  have hden' : (0 : ℚ) < den := Nat.cast_pos.mpr hden
  have hnumber : (num : ℚ) / den = quotient * 2 ^ shift + remainder / den := by
    have hdivision : (num : ℚ) = den * 2 ^ shift * quotient + remainder := by
      exact_mod_cast (Nat.div_add_mod num (den * 2 ^ shift)).symm
    rw [hdivision]
    field_simp
  have hbelow : (units (shift * 2 ^ 52 + quotient) : ℚ) = quotient * 2 ^ shift := by
    rw [units_add hlt.le hshift]
    push_cast
    rfl
  have habove : (units (shift * 2 ^ 52 + quotient + 1) : ℚ) = (quotient + 1) * 2 ^ shift := by
    rw [Nat.add_assoc, units_add hlt (hshift.imp_right fun h => h.trans (Nat.le_succ _))]
    push_cast
    rfl
  have hnonneg : (0 : ℚ) ≤ remainder / den := by positivity
  have hless : (remainder : ℚ) / den < 2 ^ shift := by
    rw [div_lt_iff₀' hden']
    exact_mod_cast Nat.mod_lt num (Nat.mul_pos hden (Nat.two_pow_pos shift))
  have hlow : 2 * remainder < den * 2 ^ shift ↔ 2 * ((remainder : ℚ) / den) < 2 ^ shift := by
    rw [← mul_div_assoc, div_lt_iff₀' hden']
    exact_mod_cast Iff.rfl
  have hmiddle : 2 * remainder = den * 2 ^ shift ↔ 2 * ((remainder : ℚ) / den) = 2 ^ shift := by
    rw [← mul_div_assoc, div_eq_iff hden'.ne', mul_comm ((2 : ℚ) ^ shift)]
    exact_mod_cast Iff.rfl
  have hround : roundHalfEven num (den * 2 ^ shift) =
      if 2 * remainder < den * 2 ^ shift then quotient
      else if 2 * remainder = den * 2 ^ shift then quotient + quotient % 2
      else quotient + 1 := rfl
  have hle : (units (shift * 2 ^ 52 + quotient) : ℚ) ≤ num / den := by
    rw [hbelow, hnumber]
    linarith
  have hge : (num : ℚ) / den ≤ units (shift * 2 ^ 52 + quotient + 1) := by
    rw [habove, hnumber]
    linarith
  rw [hround]
  split_ifs with hfirst hsecond
  · rw [hlow] at hfirst
    apply nearest_below hle
    rw [hbelow, habove, hnumber]
    linarith
  · rw [hmiddle] at hsecond
    have htie : (num : ℚ) / den - units (shift * 2 ^ 52 + quotient) =
        units (shift * 2 ^ 52 + quotient + 1) - num / den := by
      rw [hbelow, habove, hnumber]
      linarith
    apply nearest_halfway htie
    · rcases Nat.mod_two_eq_zero_or_one quotient with hmod | hmod
      · rw [hmod, Nat.add_zero]
        exact .inl rfl
      · rw [hmod]
        exact .inr (Nat.add_assoc _ _ _).symm
    · omega
  · have hgreater : (2 : ℚ) ^ shift < 2 * (remainder / den) := by
      rw [hlow, not_lt] at hfirst
      rw [hmiddle] at hsecond
      exact lt_of_le_of_ne hfirst (Ne.symm hsecond)
    rw [← Nat.add_assoc]
    apply nearest_above hge
    rw [hbelow, habove, hnumber]
    linarith

theorem div_two_pow_bounds (value : ℕ) :
    value / 2 ^ (value.log2 - 52) < 2 ^ 53 ∧
      (value.log2 - 52 = 0 ∨ 2 ^ 52 ≤ value / 2 ^ (value.log2 - 52)) := by
  have hpos := Nat.two_pow_pos (value.log2 - 52)
  constructor
  · rw [Nat.div_lt_iff_lt_mul hpos, ← Nat.pow_add]
    calc
      value < 2 ^ (value.log2 + 1) := Nat.lt_log2_self
      _ ≤ 2 ^ (53 + (value.log2 - 52)) := Nat.pow_le_pow_right (by decide) (by omega)
  · refine or_iff_not_imp_left.mpr fun hshift => ?_
    have hne : value ≠ 0 := by
      rintro rfl
      exact hshift rfl
    rw [Nat.le_div_iff_mul_le hpos, ← Nat.pow_add]
    calc
      2 ^ (52 + (value.log2 - 52)) ≤ 2 ^ value.log2 := Nat.pow_le_pow_right (by decide) (by omega)
      _ ≤ value := Nat.log2_self_le hne

theorem nearest_nearestPattern (hden : 0 < den) :
    Nearest Set.univ (num * 2 ^ 1074 / den) (nearestPattern num den) := by
  have hscaled : ((num <<< 1074 : ℕ) : ℚ) = num * 2 ^ 1074 := by
    simp only [Nat.shiftLeft_eq, Nat.cast_mul, Nat.cast_pow, Nat.cast_ofNat]
  rw [nearestPattern, fractionBits, Nat.shiftLeft_eq, Nat.shiftLeft_eq den, ← hscaled]
  set shift := (num <<< 1074 / den).log2 - 52 with hshift
  have hbounds := div_two_pow_bounds (num <<< 1074 / den)
  rw [Nat.div_div_eq_div_mul, ← hshift] at hbounds
  exact nearest_roundHalfEven hden hbounds.1 hbounds.2

end Ratio

/-- The finite patterns end halfway between the greatest of them and the one of infinity. That one
is even, so the number in the middle belongs to it. -/
theorem infinityPattern_le_iff {number : ℚ} {pattern : ℕ} (h : Nearest Set.univ number pattern) :
    infinityPattern ≤ pattern ↔ (2 ^ 54 - 1) * 2 ^ 2044 ≤ number := by
  have hinfinity : infinityPattern = 2045 * 2 ^ 52 + 2 ^ 53 := by decide
  have hgreatest : infinityPattern - 1 = 2045 * 2 ^ 52 + (2 ^ 53 - 1) := by decide
  obtain ⟨unit, hunit⟩ : ∃ unit : ℚ, unit = 2 ^ 2044 := ⟨_, rfl⟩
  have hpos : 0 < unit := by
    rw [hunit]
    positivity
  have hpower : (2 : ℚ) ^ 2045 = 2 * unit := by
    rw [hunit, ← pow_succ']
  have hunits : (units infinityPattern : ℚ) = 2 ^ 54 * unit := by
    rw [hinfinity, units_add le_rfl (.inr (by decide)), Nat.cast_mul, Nat.cast_pow, Nat.cast_pow,
      Nat.cast_ofNat, hpower]
    ring
  have hunits' : (units (infinityPattern - 1) : ℚ) = (2 ^ 54 - 2) * unit := by
    have hcast : ((2 ^ 53 - 1 : ℕ) : ℚ) = 2 ^ 53 - 1 := by norm_num
    rw [hgreatest, units_add (by decide) (.inr (by decide)), Nat.cast_mul, Nat.cast_pow,
      Nat.cast_ofNat, hpower, hcast]
    ring
  rw [← hunit]
  clear hunit hpower
  constructor
  · intro hle
    by_contra hlt
    rw [not_le] at hlt
    have hpattern : (units infinityPattern : ℚ) ≤ units pattern := cast_units_le.mpr hle
    have hnearer : |(units (infinityPattern - 1) : ℚ) - number| < |units pattern - number| := by
      have hnonneg : 0 ≤ (units pattern : ℚ) - number := by linarith
      rw [abs_of_nonneg hnonneg, abs_lt]
      constructor <;> linarith
    exact (h.le _ (Set.mem_univ _)).not_gt hnearer
  · intro hle
    by_contra hlt
    rw [not_le] at hlt
    have hpattern : (units pattern : ℚ) ≤ units (infinityPattern - 1) :=
      cast_units_le.mpr (Nat.le_sub_one_of_lt hlt)
    have hdistance : |(units pattern : ℚ) - number| = number - units pattern := by
      rw [abs_of_nonpos (by linarith), neg_sub]
    have hinfinite : |(units infinityPattern : ℚ) - number| ≤
        number - units (infinityPattern - 1) := by
      rw [abs_le]
      constructor <;> linarith
    have hle := h.le infinityPattern (Set.mem_univ _)
    have heven := h.even infinityPattern (Set.mem_univ _) hlt.ne' (by linarith)
    have hlast : infinityPattern - 1 ≤ pattern := cast_units_le.mp (by linarith)
    omega

end StackAsm.Binary64
