import StellarFlow.Settlement.AnchorCollateral
import StellarFlow.Foundation.ShrunkFraction

/-!
# The reported backing ratio

Monitors see the collateral of an anchor as basis points of its unsettled volume, in 32 bits.
The quotient is saturated only by its whole part. In the last whole multiple before the
saturation the fraction can therefore carry the sum past 32 bits, and the cast wraps around.
The fraction itself is exact for volumes below the largest 32-bit value and within one basis
point above.
-/
namespace StellarFlow.Settlement

open Foundation

variable {collateral collateral' volume rem : ℕ}

/-- The largest value of the report. -/
def ratioLimit : ℕ := 2 ^ 32 - 1

/-- The basis points before they are cast to 32 bits. -/
def uncastBps (collateral volume : ℕ) : ℕ :=
  splitRatio ratioLimit anchorBps collateral volume

/-- The exact ratio, truncated and saturated. -/
def saturatedBps (collateral volume : ℕ) : ℕ := min (collateral * anchorBps / volume) ratioLimit

/-- The whole part is the last one that is not saturated, and the fraction takes the sum past
the limit. -/
def CarriesPastLimit (collateral volume : ℕ) : Prop :=
  collateral / volume = ratioLimit / anchorBps ∧
    (ratioLimit % anchorBps + 1) * (volume / shrinkFactor ratioLimit volume) ≤
      collateral % volume / shrinkFactor ratioLimit volume * anchorBps

/-- Halving the remainder and the largest 32-bit volume keeps the basis points of the
remainder. The two sides say how far the scaled remainder is from the multiples around it. -/
def HalvesCleanly (rem : ℕ) : Prop :=
  (rem % 2 = 0 → rem * anchorBps % ratioLimit + rem * anchorBps / ratioLimit + 1 < ratioLimit) ∧
    (rem % 2 = 1 → anchorBps ≤ rem * anchorBps % ratioLimit + rem * anchorBps / ratioLimit)

instance : Decidable (CarriesPastLimit collateral volume) :=
  inferInstanceAs (Decidable (_ ∧ _))

instance : Decidable (HalvesCleanly rem) :=
  inferInstanceAs (Decidable (_ ∧ _))

/-- What monitors may expect of the report of an anchor. -/
structure ReportsRatio (collateral volume : ℕ) : Prop where
  near : backingRatioBps collateral volume ≤ saturatedBps collateral volume + 1 ∧
    saturatedBps collateral volume ≤ backingRatioBps collateral volume + 1
  /-- The product fits into 128 bits and the sum that is cast into 32. -/
  unwrapped : collateral % volume / shrinkFactor ratioLimit volume * anchorBps < 2 ^ 128 ∧
    (collateral / volume ≤ ratioLimit / anchorBps → uncastBps collateral volume ≤ ratioLimit)
  /-- No smaller collateral is reported as a larger ratio. -/
  monotone : ∀ collateral' ≤ collateral,
    backingRatioBps collateral' volume ≤ backingRatioBps collateral volume
  exact : volume ≤ ratioLimit →
    backingRatioBps collateral volume = saturatedBps collateral volume

/-! ## The report in terms of the sum -/

theorem backingRatioBps_of_saturated (hv : 0 < volume)
    (h : ratioLimit / anchorBps < collateral / volume) :
    backingRatioBps collateral volume = ratioLimit := by
  have hhigh : (2 ^ 32 - 1) / anchorBps < collateral / volume := h
  rw [backingRatioBps, if_neg hv.ne']
  simp only [if_pos hhigh]
  rfl

theorem backingRatioBps_of_le (hv : 0 < volume)
    (h : collateral / volume ≤ ratioLimit / anchorBps) :
    backingRatioBps collateral volume = uncastBps collateral volume % 2 ^ 32 := by
  have hfrac : (if collateral % volume = 0 then 0
      else collateral % volume / (volume / (2 ^ 32 - 1) + 1) * anchorBps /
        (volume / (volume / (2 ^ 32 - 1) + 1))) =
      shrunkFraction ratioLimit anchorBps (collateral % volume) volume := by
    split_ifs with hzero
    · rw [hzero, shrunkFraction_zero_left]
    · rfl
  have hlow : ¬ (2 ^ 32 - 1) / anchorBps < collateral / volume := not_lt.mpr h
  rw [backingRatioBps, if_neg hv.ne']
  simp only [if_neg hlow, hfrac]
  rfl

/-- A saturated whole part alone is above the limit. -/
theorem limit_le_whole (h : ratioLimit / anchorBps < collateral / volume) :
    ratioLimit ≤ collateral / volume * anchorBps := by
  have hwhole : 429497 ≤ collateral / volume := h
  calc ratioLimit ≤ 429497 * anchorBps := by decide
    _ ≤ collateral / volume * anchorBps := Nat.mul_le_mul_right _ hwhole

theorem backingRatioBps_le (hv : 0 < volume) : backingRatioBps collateral volume ≤ ratioLimit := by
  rcases lt_or_ge (ratioLimit / anchorBps) (collateral / volume) with h | h
  · exact (backingRatioBps_of_saturated hv h).le
  · rw [backingRatioBps_of_le hv h]
    exact Nat.le_pred_of_lt (Nat.mod_lt _ (Nat.two_pow_pos 32))

theorem backingRatioBps_le_uncastBps (hv : 0 < volume) :
    backingRatioBps collateral volume ≤ uncastBps collateral volume := by
  rcases lt_or_ge (ratioLimit / anchorBps) (collateral / volume) with h | h
  · rw [backingRatioBps_of_saturated hv h]
    exact (limit_le_whole h).trans (Nat.le_add_right _ _)
  · rw [backingRatioBps_of_le hv h]
    exact Nat.mod_le _ _

theorem product_fits (hv : 0 < volume) :
    collateral % volume / shrinkFactor ratioLimit volume * anchorBps < 2 ^ 128 := by
  have hle : collateral % volume / shrinkFactor ratioLimit volume ≤ ratioLimit :=
    (Nat.div_le_div_right (Nat.mod_lt _ hv).le).trans (div_shrinkFactor_le (by decide))
  calc collateral % volume / shrinkFactor ratioLimit volume * anchorBps
      ≤ ratioLimit * anchorBps := Nat.mul_le_mul_right _ hle
    _ < 2 ^ 128 := by decide

/-! ## The band below the saturation -/

/-- The sum leaves 32 bits only in the last multiple before the saturation. -/
theorem lt_uncastBps_iff (hv : 0 < volume) (h : collateral / volume ≤ ratioLimit / anchorBps) :
    ratioLimit < uncastBps collateral volume ↔ CarriesPastLimit collateral volume := by
  have hpos : 0 < volume / shrinkFactor ratioLimit volume :=
    div_shrinkFactor_pos (by decide) hv
  have hfrac : shrunkFraction ratioLimit anchorBps (collateral % volume) volume ≤ anchorBps :=
    shrunkFraction_le_scale (Nat.mod_lt _ hv).le
  have hcarry : ratioLimit % anchorBps + 1 ≤
      shrunkFraction ratioLimit anchorBps (collateral % volume) volume ↔
      (ratioLimit % anchorBps + 1) * (volume / shrinkFactor ratioLimit volume) ≤
        collateral % volume / shrinkFactor ratioLimit volume * anchorBps :=
    Nat.le_div_iff_mul_le hpos
  rw [CarriesPastLimit, ← hcarry, uncastBps, splitRatio]
  generalize shrunkFraction ratioLimit anchorBps (collateral % volume) volume = frac at hfrac ⊢
  have hlimit : ratioLimit = 4294967295 := rfl
  have hbps : anchorBps = 10000 := rfl
  rw [hbps] at hfrac
  rw [hlimit, hbps] at h ⊢
  omega

/-- A sum that wraps around is reported as next to nothing. -/
theorem backingRatioBps_of_carries (hv : 0 < volume) (h : CarriesPastLimit collateral volume) :
    backingRatioBps collateral volume + 2 ≤ saturatedBps collateral volume := by
  have hle : collateral / volume ≤ ratioLimit / anchorBps := h.1.le
  have hpast := (lt_uncastBps_iff hv hle).mpr h
  have hfrac : shrunkFraction ratioLimit anchorBps (collateral % volume) volume ≤ anchorBps :=
    shrunkFraction_le_scale (Nat.mod_lt _ hv).le
  have hwhole : collateral / volume = 429496 := h.1
  rw [backingRatioBps_of_le hv hle, saturatedBps, mul_div_eq_split hv]
  rw [uncastBps, splitRatio] at hpast ⊢
  generalize shrunkFraction ratioLimit anchorBps (collateral % volume) volume = frac at *
  generalize collateral % volume * anchorBps / volume = exact
  have hlimit : ratioLimit = 4294967295 := rfl
  have hbps : anchorBps = 10000 := rfl
  rw [hbps] at hfrac
  rw [hwhole, hlimit, hbps] at hpast
  rw [hwhole, hlimit, hbps]
  omega

/-- Elsewhere the report is the sum, up to its saturation. -/
theorem backingRatioBps_of_not_carries (hv : 0 < volume)
    (h : ¬ CarriesPastLimit collateral volume) :
    backingRatioBps collateral volume = min (uncastBps collateral volume) ratioLimit := by
  rcases lt_or_ge (ratioLimit / anchorBps) (collateral / volume) with hhigh | hlow
  · have hwhole := limit_le_whole hhigh
    rw [backingRatioBps_of_saturated hv hhigh, min_eq_right]
    exact hwhole.trans (Nat.le_add_right _ _)
  · have hle : uncastBps collateral volume ≤ ratioLimit :=
      not_lt.mp fun hlt => h ((lt_uncastBps_iff hv hlow).mp hlt)
    rw [backingRatioBps_of_le hv hlow, min_eq_left hle]
    exact Nat.mod_eq_of_lt (Nat.lt_succ_of_le hle)

theorem near_of_not_carries (hv : 0 < volume) (h : ¬ CarriesPastLimit collateral volume) :
    backingRatioBps collateral volume ≤ saturatedBps collateral volume + 1 ∧
      saturatedBps collateral volume ≤ backingRatioBps collateral volume + 1 := by
  have hsplit : splitRatio ratioLimit anchorBps collateral volume ≤
        collateral * anchorBps / volume + 1 ∧
      collateral * anchorBps / volume ≤ splitRatio ratioLimit anchorBps collateral volume + 1 :=
    splitRatio_near (by decide) (by decide) hv
  rw [backingRatioBps_of_not_carries hv h, saturatedBps, uncastBps]
  omega

/-! ## Exactness -/

/-- At the largest 32-bit volume both operands are halved. -/
theorem shrunkFraction_ratioLimit_iff (hrem : rem < ratioLimit) :
    shrunkFraction ratioLimit anchorBps rem ratioLimit = rem * anchorBps / ratioLimit ↔
      HalvesCleanly rem := by
  have hshrink : shrunkFraction ratioLimit anchorBps rem ratioLimit =
      rem / 2 * anchorBps / 2147483647 := rfl
  have hlimit : ratioLimit = 4294967295 := rfl
  have hbps : anchorBps = 10000 := rfl
  rw [hlimit] at hrem
  rw [hshrink, HalvesCleanly]
  rw [hlimit, hbps]
  rcases Nat.mod_two_eq_zero_or_one rem with hpar | hpar <;> omega

/-- In the band that carries past the limit halving does not lose a basis point. -/
theorem carry_le_shrunkFraction (h : ratioLimit % anchorBps + 1 ≤ rem * anchorBps / ratioLimit) :
    ratioLimit % anchorBps + 1 ≤ shrunkFraction ratioLimit anchorBps rem ratioLimit := by
  have hshrink : shrunkFraction ratioLimit anchorBps rem ratioLimit =
      rem / 2 * anchorBps / 2147483647 := rfl
  have hlimit : ratioLimit = 4294967295 := rfl
  have hbps : anchorBps = 10000 := rfl
  rw [hlimit, hbps, Nat.le_div_iff_mul_le (by norm_num)] at h
  rw [hshrink, hlimit, hbps, Nat.le_div_iff_mul_le (by norm_num)]
  omega

theorem sum_le_limit {whole frac exact : ℕ}
    (hfits : whole * anchorBps + frac ≤ ratioLimit) (hexact : exact ≤ anchorBps)
    (hband : ratioLimit % anchorBps + 1 ≤ exact → ratioLimit % anchorBps + 1 ≤ frac) :
    whole * anchorBps + exact ≤ ratioLimit := by
  have hlimit : ratioLimit = 4294967295 := rfl
  have hbps : anchorBps = 10000 := rfl
  rw [hbps] at hexact
  rw [hlimit, hbps] at hfits hband ⊢
  omega

/-- Below the band the report of a volume of 32 bits is exact, unless halving moves it. -/
theorem exact_iff (hv : 0 < volume) (h : ¬ CarriesPastLimit collateral volume)
    (hle : volume ≤ ratioLimit) :
    backingRatioBps collateral volume = saturatedBps collateral volume ↔
      (volume = ratioLimit → collateral / volume ≤ ratioLimit / anchorBps →
        HalvesCleanly (collateral % volume)) := by
  rw [backingRatioBps_of_not_carries hv h, saturatedBps]
  rcases hle.lt_or_eq with hlt | rfl
  · rw [uncastBps, splitRatio_of_lt hv hlt]
    exact iff_of_true rfl fun heq => absurd heq hlt.ne
  · rw [mul_div_eq_split hv, uncastBps, splitRatio]
    rcases lt_or_ge (ratioLimit / anchorBps) (collateral / ratioLimit) with hhigh | hlow
    · have hwhole := limit_le_whole hhigh
      rw [min_eq_right (hwhole.trans (Nat.le_add_right _ _)),
        min_eq_right (hwhole.trans (Nat.le_add_right _ _))]
      exact iff_of_true rfl fun _ hle => absurd hhigh hle.not_gt
    · have hfits : uncastBps collateral ratioLimit ≤ ratioLimit :=
        not_lt.mp fun hlt => h ((lt_uncastBps_iff hv hlow).mp hlt)
      have hband : ratioLimit % anchorBps + 1 ≤ collateral % ratioLimit * anchorBps / ratioLimit →
          ratioLimit % anchorBps + 1 ≤
            shrunkFraction ratioLimit anchorBps (collateral % ratioLimit) ratioLimit :=
        carry_le_shrunkFraction
      have hhalf := shrunkFraction_ratioLimit_iff (Nat.mod_lt collateral hv)
      have hexact := sum_le_limit hfits (Nat.div_le_of_le_mul
        (Nat.mul_le_mul_right anchorBps (Nat.mod_lt collateral hv).le)) hband
      rw [uncastBps, splitRatio] at hfits
      rw [min_eq_left hfits, min_eq_left hexact, Nat.add_left_cancel_iff, hhalf]
      exact ⟨fun hclean _ _ => hclean, fun hclean => hclean rfl hlow⟩

/-! ## Faithful reports -/

/-- The report is faithful exactly where the fraction does not carry it past 32 bits and, at the
largest 32-bit volume, halving keeps the basis points of the remainder. -/
theorem reportsRatio_iff (collateral : ℕ) {volume : ℕ} (hv : 0 < volume) :
    ReportsRatio collateral volume ↔
      ¬ CarriesPastLimit collateral volume ∧
        (volume = ratioLimit → collateral / volume ≤ ratioLimit / anchorBps →
          HalvesCleanly (collateral % volume)) := by
  constructor
  · intro h
    have hcarry : ¬ CarriesPastLimit collateral volume := by
      intro hcarry
      have hnear := h.near.2
      have hfar := backingRatioBps_of_carries hv hcarry
      omega
    refine ⟨hcarry, fun hvol => ?_⟩
    exact (exact_iff hv hcarry hvol.le).mp (h.exact hvol.le) hvol
  · rintro ⟨hcarry, hhalf⟩
    refine ⟨near_of_not_carries hv hcarry, ⟨product_fits hv, fun hle => ?_⟩,
      fun collateral' hle => ?_, fun hle => ?_⟩
    · exact not_lt.mp fun hlt => hcarry ((lt_uncastBps_iff hv hle).mp hlt)
    · rw [backingRatioBps_of_not_carries hv hcarry]
      exact le_min ((backingRatioBps_le_uncastBps hv).trans (splitRatio_mono hv hle))
        (backingRatioBps_le hv)
    · exact (exact_iff hv hcarry hle).mpr hhalf

/-- At a ratio of 120 percent. -/
theorem reportsRatio_sample : 0 < 1000 ∧ ReportsRatio 1200 1000 :=
  ⟨by decide, (reportsRatio_iff 1200 (by decide)).mpr (by decide)⟩

/-- A ratio just below the saturation is reported as 17 percent, and one just below par at the
largest 32-bit volume as par. -/
theorem backingRatioBps_wraps :
    (backingRatioBps 4294969 10 = 1704 ∧ saturatedBps 4294969 10 = 4294967295) ∧
      (backingRatioBps 4294967294 4294967295 = 10000 ∧
        saturatedBps 4294967294 4294967295 = 9999) ∧
      ¬ ReportsRatio 4294969 10 ∧ ¬ ReportsRatio 4294967294 4294967295 := by
  refine ⟨by decide, by decide, fun h => ?_, fun h => ?_⟩
  · exact absurd h.near.2 (by decide)
  · exact absurd (h.exact (by decide)) (by decide)

end StellarFlow.Settlement
