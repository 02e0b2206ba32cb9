import Mathlib.Tactic

/-!
# Scaling a proper fraction without a large product

Before a remainder is multiplied by a scale, it and its denominator are divided by the same
number, so that the denominator stays below a limit. The truncated quotient differs from the
exact one by at most one unit as long as the limit is twice the scale.
-/
namespace StellarFlow.Foundation

variable {limit scale rem rem' num num' den : ℕ}

/-- The divisor that brings a denominator below the limit. -/
def shrinkFactor (limit den : ℕ) : ℕ := den / limit + 1

/-- The scaled fraction of the shrunk operands. -/
def shrunkFraction (limit scale rem den : ℕ) : ℕ :=
  rem / shrinkFactor limit den * scale / (den / shrinkFactor limit den)

/-- A scaled quotient: the whole part exactly, the rest as a shrunk fraction. -/
def splitRatio (limit scale num den : ℕ) : ℕ :=
  num / den * scale + shrunkFraction limit scale (num % den) den

theorem shrinkFactor_pos (limit den : ℕ) : 0 < shrinkFactor limit den := Nat.succ_pos _

/-- Below the limit nothing is shrunk. -/
theorem shrinkFactor_of_lt (h : den < limit) : shrinkFactor limit den = 1 := by
  rw [shrinkFactor, Nat.div_eq_of_lt h]

theorem shrunkFraction_of_lt (h : den < limit) :
    shrunkFraction limit scale rem den = rem * scale / den := by
  rw [shrunkFraction, shrinkFactor_of_lt h, Nat.div_one, Nat.div_one]

/-- The shrunk denominator fits below the limit. -/
theorem div_shrinkFactor_le (hlimit : 0 < limit) : den / shrinkFactor limit den ≤ limit := by
  refine Nat.div_le_of_le_mul ?_
  have hdiv := Nat.div_add_mod den limit
  have hmod := Nat.mod_lt den hlimit
  calc den ≤ limit * (den / limit) + limit := by omega
    _ = shrinkFactor limit den * limit := by rw [shrinkFactor]; ring

/-- A denominator that is shrunk keeps at least half of the limit. -/
theorem half_le_div_shrinkFactor (h : limit ≤ den) (hlimit : 0 < limit) :
    limit / 2 ≤ den / shrinkFactor limit den := by
  refine (Nat.le_div_iff_mul_le (shrinkFactor_pos limit den)).mpr ?_
  have hquot : 1 ≤ den / limit := (Nat.one_le_div_iff hlimit).mpr h
  have hhalf : 2 * (limit / 2) ≤ limit := Nat.mul_div_le limit 2
  calc limit / 2 * shrinkFactor limit den ≤ limit / 2 * (2 * (den / limit)) :=
        Nat.mul_le_mul_left _ (by rw [shrinkFactor]; omega)
    _ = 2 * (limit / 2) * (den / limit) := by ring
    _ ≤ limit * (den / limit) := Nat.mul_le_mul_right _ hhalf
    _ ≤ den := Nat.mul_div_le den limit

theorem div_shrinkFactor_pos (hlimit : 1 < limit) (hden : 0 < den) :
    0 < den / shrinkFactor limit den := by
  rcases lt_or_ge den limit with h | h
  · rwa [shrinkFactor_of_lt h, Nat.div_one]
  · have hhalf := half_le_div_shrinkFactor h (by omega)
    omega

/-- A part of a whole has at most the scale as its fraction. -/
theorem shrunkFraction_le_scale (hrem : rem ≤ den) :
    shrunkFraction limit scale rem den ≤ scale := by
  refine Nat.div_le_of_le_mul ?_
  exact Nat.mul_le_mul_right scale (Nat.div_le_div_right hrem)

theorem shrunkFraction_mono (h : rem ≤ rem') :
    shrunkFraction limit scale rem den ≤ shrunkFraction limit scale rem' den :=
  Nat.div_le_div_right (Nat.mul_le_mul_right scale (Nat.div_le_div_right h))

theorem shrunkFraction_zero_left : shrunkFraction limit scale 0 den = 0 := by
  rw [shrunkFraction, Nat.zero_div, Nat.zero_mul, Nat.zero_div]

section Error

variable {shrink : ℕ}

/-- Shrinking gains at most one unit, because the numerator loses as well. -/
theorem fraction_le_exact_add_one (hshrink : 0 < shrink) (hrem : rem ≤ den)
    (hscale : scale ≤ den / shrink) (hpos : 0 < den / shrink) :
    rem / shrink * scale / (den / shrink) ≤ rem * scale / den + 1 := by
  set a := rem / shrink with ha
  set b := den / shrink with hb
  have hf : a * scale / b * b ≤ a * scale := Nat.div_mul_le_self _ _
  have hfs : a * scale / b ≤ scale :=
    Nat.div_le_of_le_mul (Nat.mul_le_mul_right scale (Nat.div_le_div_right hrem))
  have hden : den < (b + 1) * shrink := by
    rw [mul_comm]
    exact Nat.lt_mul_div_succ den hshrink
  have hbs : shrink ≤ den := by
    by_contra hlt
    rw [hb, Nat.div_eq_of_lt (not_le.mp hlt)] at hpos
    exact lt_irrefl _ hpos
  rw [← Nat.sub_le_iff_le_add, Nat.le_div_iff_mul_le (by omega)]
  obtain hzero | ⟨f, hf1⟩ : a * scale / b = 0 ∨ ∃ f, a * scale / b = f + 1 := by
    cases a * scale / b with
    | zero => exact .inl rfl
    | succ f => exact .inr ⟨f, rfl⟩
  · simp [hzero]
  · rw [hf1] at hf hfs ⊢
    rw [Nat.add_sub_cancel]
    calc f * den ≤ f * ((b + 1) * shrink) := Nat.mul_le_mul_left f hden.le
      _ = (f * b + f) * shrink := by ring
      _ ≤ ((f + 1) * b) * shrink := Nat.mul_le_mul_right shrink (by rw [Nat.succ_mul]; omega)
      _ ≤ (a * scale) * shrink := Nat.mul_le_mul_right shrink hf
      _ = a * shrink * scale := by ring
      _ ≤ rem * scale := Nat.mul_le_mul_right scale (Nat.div_mul_le_self rem shrink)

/-- Shrinking loses at most one unit, because the denominator is large. -/
theorem exact_le_fraction_add_one (hshrink : 0 < shrink) (hscale : scale ≤ den / shrink)
    (hpos : 0 < den / shrink) :
    rem * scale / den ≤ rem / shrink * scale / (den / shrink) + 1 := by
  set a := rem / shrink with ha
  set b := den / shrink with hb
  have he : rem * scale / den * den ≤ rem * scale := Nat.div_mul_le_self _ _
  have hrem : rem ≤ (a + 1) * shrink := by
    rw [mul_comm]
    exact (Nat.lt_mul_div_succ rem hshrink).le
  have hbs : b * shrink ≤ den := Nat.div_mul_le_self den shrink
  rw [← Nat.sub_le_iff_le_add, Nat.le_div_iff_mul_le hpos, Nat.sub_mul, one_mul,
    Nat.sub_le_iff_le_add]
  set e := rem * scale / den with hedef
  have hscaled : e * b * shrink ≤ (a * scale + scale) * shrink := by
    calc e * b * shrink = e * (b * shrink) := by ring
      _ ≤ e * den := Nat.mul_le_mul_left e hbs
      _ ≤ rem * scale := he
      _ ≤ (a + 1) * shrink * scale := Nat.mul_le_mul_right scale hrem
      _ = (a * scale + scale) * shrink := by ring
  calc e * b ≤ a * scale + scale := Nat.le_of_mul_le_mul_right hscaled hshrink
    _ ≤ a * scale + b := Nat.add_le_add_left hscale _

end Error

/-- The shrunk fraction is within one unit of the exact one. -/
theorem shrunkFraction_near (hlimit : 2 * scale ≤ limit) (hscale : 0 < scale) (hrem : rem ≤ den)
    (hden : 0 < den) :
    shrunkFraction limit scale rem den ≤ rem * scale / den + 1 ∧
      rem * scale / den ≤ shrunkFraction limit scale rem den + 1 := by
  rcases lt_or_ge den limit with h | h
  · rw [shrunkFraction_of_lt h]
    exact ⟨Nat.le_succ _, Nat.le_succ _⟩
  · have hhalf := half_le_div_shrinkFactor h (by omega)
    have hpos : 0 < den / shrinkFactor limit den := div_shrinkFactor_pos (by omega) hden
    have hs := shrinkFactor_pos limit den
    exact ⟨fraction_le_exact_add_one hs hrem (by omega) hpos,
      exact_le_fraction_add_one hs (by omega) hpos⟩

/-! ## Scaled quotients -/

/-- The exact quotient splits in the same way. -/
theorem mul_div_eq_split (hden : 0 < den) :
    num * scale / den = num / den * scale + num % den * scale / den := by
  have hsplit : num * scale = num % den * scale + den * (num / den * scale) := by
    calc num * scale = (den * (num / den) + num % den) * scale := by rw [Nat.div_add_mod]
      _ = _ := by ring
  rw [hsplit, Nat.add_mul_div_left _ _ hden, add_comm]

theorem splitRatio_of_lt (hden : 0 < den) (h : den < limit) :
    splitRatio limit scale num den = num * scale / den := by
  rw [splitRatio, mul_div_eq_split hden, shrunkFraction_of_lt h]

theorem splitRatio_near (hlimit : 2 * scale ≤ limit) (hscale : 0 < scale) (hden : 0 < den) :
    splitRatio limit scale num den ≤ num * scale / den + 1 ∧
      num * scale / den ≤ splitRatio limit scale num den + 1 := by
  have hnear := shrunkFraction_near hlimit hscale (Nat.mod_lt num hden).le hden
  rw [splitRatio, mul_div_eq_split hden]
  omega

theorem splitRatio_mono (hden : 0 < den) (h : num' ≤ num) :
    splitRatio limit scale num' den ≤ splitRatio limit scale num den := by
  rcases (Nat.div_le_div_right h : num' / den ≤ num / den).eq_or_lt with heq | hlt
  · have hmod : num' % den ≤ num % den := by
      have h1 := Nat.div_add_mod num den
      have h2 := Nat.div_add_mod num' den
      rw [heq] at h2
      omega
    rw [splitRatio, splitRatio, heq]
    exact Nat.add_le_add_left (shrunkFraction_mono hmod) _
  · have hfrac : shrunkFraction limit scale (num' % den) den ≤ scale :=
      shrunkFraction_le_scale (Nat.mod_lt _ hden).le
    calc splitRatio limit scale num' den
        ≤ num' / den * scale + scale := Nat.add_le_add_left hfrac _
      _ = (num' / den + 1) * scale := by ring
      _ ≤ num / den * scale := Nat.mul_le_mul_right _ hlt
      _ ≤ splitRatio limit scale num den := Nat.le_add_right _ _

end StellarFlow.Foundation
