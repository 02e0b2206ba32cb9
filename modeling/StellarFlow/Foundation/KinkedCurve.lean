import Mathlib.Algebra.Order.Field.Basic
import Mathlib.Algebra.Order.Floor.Semifield
import Mathlib.Tactic

/-!
# Curves of two slopes

A curve rises by one amount up to its kink and by another from there to its top, and goes on with
the second slope. It is the sum of two parts that each rise on one side of the kink.
-/
namespace StellarFlow.Foundation

variable {K : Type*} [Field K] [LinearOrder K]

def kinked (base kink top rise₁ rise₂ u : K) : K :=
  if u ≤ kink then base + u * rise₁ / kink
  else base + rise₁ + (u - kink) * rise₂ / (top - kink)

variable [IsStrictOrderedRing K] {base kink top rise₁ rise₂ u v : K}

theorem kinked_eq (hkink : 0 < kink) :
    kinked base kink top rise₁ rise₂ u =
      base + min u kink * (rise₁ / kink) + max (u - kink) 0 * (rise₂ / (top - kink)) := by
  rw [kinked]
  split_ifs with hu
  · rw [min_eq_left hu, max_eq_right (sub_nonpos.mpr hu)]
    ring
  · have hle := (not_le.mp hu).le
    rw [min_eq_right hle, max_eq_left (sub_nonneg.mpr hle), mul_div_cancel₀ rise₁ hkink.ne']
    ring

/-- The curve does not fall. -/
theorem kinked_mono (hkink : 0 < kink) (htop : kink < top) (h₁ : 0 ≤ rise₁) (h₂ : 0 ≤ rise₂)
    (huv : u ≤ v) :
    kinked base kink top rise₁ rise₂ u ≤ kinked base kink top rise₁ rise₂ v := by
  have hsteep : 0 < top - kink := sub_pos.mpr htop
  rw [kinked_eq hkink, kinked_eq hkink]
  gcongr

/-- It does not rise faster than the steeper of its slopes. -/
theorem kinked_sub_le (hkink : 0 < kink) (huv : u ≤ v) :
    kinked base kink top rise₁ rise₂ v - kinked base kink top rise₁ rise₂ u ≤
      max (rise₁ / kink) (rise₂ / (top - kink)) * (v - u) := by
  have hlow : min u kink ≤ min v kink := min_le_min_right kink huv
  have hhigh : max (u - kink) 0 ≤ max (v - kink) 0 :=
    max_le_max_right 0 (sub_le_sub_right huv kink)
  have hsplit : ∀ x : K, min x kink + max (x - kink) 0 = x := by
    intro x
    rcases le_total x kink with hx | hx
    · rw [min_eq_left hx, max_eq_right (sub_nonpos.mpr hx), add_zero]
    · rw [min_eq_right hx, max_eq_left (sub_nonneg.mpr hx), add_sub_cancel]
  have hu := hsplit u
  have hv := hsplit v
  calc kinked base kink top rise₁ rise₂ v - kinked base kink top rise₁ rise₂ u
      = (min v kink - min u kink) * (rise₁ / kink) +
          (max (v - kink) 0 - max (u - kink) 0) * (rise₂ / (top - kink)) := by
        rw [kinked_eq hkink, kinked_eq hkink]
        ring
    _ ≤ (min v kink - min u kink) * max (rise₁ / kink) (rise₂ / (top - kink)) +
          (max (v - kink) 0 - max (u - kink) 0) * max (rise₁ / kink) (rise₂ / (top - kink)) := by
        have hlow' := sub_nonneg.mpr hlow
        have hhigh' := sub_nonneg.mpr hhigh
        gcongr
        · exact le_max_left _ _
        · exact le_max_right _ _
    _ = max (rise₁ / kink) (rise₂ / (top - kink)) * (v - u) := by
        linear_combination max (rise₁ / kink) (rise₂ / (top - kink)) * (hv - hu)

/-- With whole numbers, the floor of the curve is computed by dividing whole numbers. -/
theorem floor_kinked [FloorSemiring K] {base kink top rise₁ rise₂ u : ℕ} (htop : kink < top) :
    ⌊kinked (base : K) kink top rise₁ rise₂ u⌋₊ =
      if u ≤ kink then base + u * rise₁ / kink
      else base + rise₁ + (u - kink) * rise₂ / (top - kink) := by
  rw [kinked]
  by_cases hu : u ≤ kink
  · have hu' : (u : K) ≤ kink := by exact_mod_cast hu
    rw [if_pos hu, if_pos hu', ← Nat.floor_div_eq_div (K := K) (u * rise₁) kink, add_comm,
      Nat.floor_add_natCast (by positivity), add_comm]
    push_cast
    rfl
  · have hu' : ¬ (u : K) ≤ kink := by exact_mod_cast hu
    have hle := (not_le.mp hu).le
    rw [if_neg hu, if_neg hu', ← Nat.floor_div_eq_div (K := K) ((u - kink) * rise₂) (top - kink)]
    have hcast : (((u - kink) * rise₂ : ℕ) : K) / ((top - kink : ℕ) : K) =
        ((u : K) - kink) * rise₂ / ((top : K) - kink) := by
      push_cast [Nat.cast_sub hle, Nat.cast_sub htop.le]
      rfl
    have hnonneg : 0 ≤ ((u : K) - kink) * rise₂ / ((top : K) - kink) := by
      rw [← hcast]
      positivity
    rw [hcast, add_comm, ← Nat.cast_add, Nat.floor_add_natCast hnonneg, add_comm]

end StellarFlow.Foundation
