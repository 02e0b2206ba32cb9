import StellarFlow.Vaults.CompoundingGuard
import StellarFlow.Foundation.ShrunkFraction

/-!
# The reported price trend

The guard reports the change of a price in basis points. The quotient is saturated by its whole
part only. Where the whole part is the last one that is not saturated, the fraction can carry
the sum past 128 bits, which traps. This takes a price that grew from a few units to the top of
its range. Elsewhere the trend is exact, or within one basis point where the operands are shrunk.
-/
namespace StellarFlow.Vaults

open Foundation

/-- The change between two prices in basis points, truncated toward zero. -/
def exactTrend (current reference : ℤ) : ℤ := ((current - reference) * guardBps).tdiv reference

/-- The whole part of a gain is the last one that is not saturated, and the fraction takes the
sum out of range. -/
def CarriesOutOfRange (current reference : ℤ) : Prop :=
  0 < reference ∧ reference ≤ current ∧
    (current - reference) / reference = i128.hi / guardBps ∧
    (i128.hi % guardBps + 1) * reference ≤ (current - reference) % reference * guardBps

instance (current reference : ℤ) : Decidable (CarriesOutOfRange current reference) :=
  inferInstanceAs (Decidable (_ ∧ _ ∧ _ ∧ _))

/-- What a caller may expect of a trend. -/
structure ReportsTrend (current reference : ℤ) : Prop where
  ne_trap : priceTrendBps current reference ≠ .error .trap
  near : ∀ bps, priceTrendBps current reference = .ok bps →
    |bps - exactTrend current reference| ≤ 1
  /-- Operands below the 64-bit limit are not shrunk. -/
  exact : reference < i64.hi → ∀ bps, priceTrendBps current reference = .ok bps →
    bps = exactTrend current reference
  sign : ∀ bps, priceTrendBps current reference = .ok bps →
    (reference ≤ current → 0 ≤ bps) ∧ (current ≤ reference → bps ≤ 0)

/-! ## The ratio of natural numbers -/

/-- The limit that denominators are shrunk below. -/
def shrinkLimit : ℕ := 2 ^ 63 - 1

/-- The basis points before the check of their range. -/
def uncheckedBps (n d : ℕ) : ℕ := splitRatio shrinkLimit 10000 n d

section Ratio

variable {n d : ℕ}

theorem scaledRatioBps_natCast (n d : ℕ) :
    scaledRatioBps n d = if i128.hi / guardBps < ((n / d : ℕ) : ℤ) then .ok i128.hi
      else okOr (i128.check (uncheckedBps n d)) .trap := by
  have hfrac : (if ((n % d : ℕ) : ℤ) = 0 then (0 : ℤ)
      else ((n % d : ℕ) : ℤ) / ((d : ℤ) / i64.hi + 1) * guardBps / (d / ((d : ℤ) / i64.hi + 1))) =
      (shrunkFraction shrinkLimit 10000 (n % d) d : ℕ) := by
    have hshrink : (d : ℤ) / i64.hi + 1 = (shrinkFactor shrinkLimit d : ℕ) := by
      rw [shrinkFactor]
      push_cast
      rfl
    rw [hshrink]
    split_ifs with hzero
    · rw [Nat.cast_eq_zero.mp hzero, shrunkFraction_zero_left, Nat.cast_zero]
    · rw [shrunkFraction]
      push_cast
      rfl
  have hsum : (uncheckedBps n d : ℤ) = ((n / d : ℕ) : ℤ) * guardBps +
      (shrunkFraction shrinkLimit 10000 (n % d) d : ℕ) := by
    rw [uncheckedBps, splitRatio]
    push_cast
    rfl
  rw [scaledRatioBps, hsum, ← hfrac]
  push_cast
  rfl

theorem lt_shrinkLimit (h : (d : ℤ) < i64.hi) : d < shrinkLimit := by
  have hlimit : i64.hi = (shrinkLimit : ℤ) := rfl
  rwa [hlimit, Nat.cast_lt] at h

theorem uncheckedBps_near (hd : 0 < d) :
    uncheckedBps n d ≤ n * 10000 / d + 1 ∧ n * 10000 / d ≤ uncheckedBps n d + 1 :=
  splitRatio_near (by decide) (by decide) hd

theorem uncheckedBps_of_lt (hd : 0 < d) (h : d < shrinkLimit) :
    uncheckedBps n d = n * 10000 / d := splitRatio_of_lt hd h

/-- A ratio in range is the sum. -/
theorem scaledRatioBps_eq_ok {bps : ℤ} (h : scaledRatioBps n d = .ok bps) :
    bps = i128.hi ∨ bps = uncheckedBps n d := by
  rw [scaledRatioBps_natCast] at h
  split_ifs at h with hhigh
  · exact .inl (Except.ok.inj h).symm
  · rw [okOr_eq_ok, IntRange.check_eq_some] at h
    exact .inr h.2.symm

theorem scaledRatioBps_eq_trap_iff :
    scaledRatioBps n d = .error .trap ↔
      n / d ≤ (2 ^ 127 - 1) / 10000 ∧ 2 ^ 127 ≤ uncheckedBps n d := by
  have hwhole : i128.hi / guardBps < ((n / d : ℕ) : ℤ) ↔ ¬ n / d ≤ (2 ^ 127 - 1) / 10000 := by
    rw [show i128.hi / guardBps = (((2 ^ 127 - 1) / 10000 : ℕ) : ℤ) from rfl, Nat.cast_lt, not_le]
  rw [scaledRatioBps_natCast]
  split_ifs with hhigh
  · exact iff_of_false (by simp) fun h => hwhole.mp hhigh h.1
  · have hle := not_not.mp (mt hwhole.mpr hhigh)
    rw [okOr_eq_error, and_iff_left rfl, IntRange.check, ite_eq_right_iff, fits_natCast_iff]
    simp only [reduceCtorEq, imp_false, not_lt]
    exact (and_iff_right hle).symm

/-- A gain leaves 128 bits only with a small reference and the last whole part. -/
theorem gain_traps_iff (hd : 0 < d) (hfits : n + d < 2 ^ 127) :
    scaledRatioBps n d = .error .trap ↔
      n / d = (2 ^ 127 - 1) / 10000 ∧ ((2 ^ 127 - 1) % 10000 + 1) * d ≤ n % d * 10000 := by
  rw [scaledRatioBps_eq_trap_iff]
  rcases lt_or_ge d shrinkLimit with hsmall | hlarge
  · have hfrac : n % d * 10000 / d ≤ 10000 :=
      Nat.div_le_of_le_mul (Nat.mul_le_mul_right _ (Nat.mod_lt n hd).le)
    rw [uncheckedBps, splitRatio_of_lt hd hsmall, mul_div_eq_split hd,
      ← Nat.le_div_iff_mul_le hd]
    omega
  · have hquot : n / d ≤ 2 ^ 65 := by
      refine Nat.div_le_of_le_mul ?_
      calc n ≤ shrinkLimit * 2 ^ 65 := by
            rw [shrinkLimit]
            omega
        _ ≤ d * 2 ^ 65 := Nat.mul_le_mul_right _ hlarge
    have hfrac : shrunkFraction shrinkLimit 10000 (n % d) d ≤ 10000 :=
      shrunkFraction_le_scale (Nat.mod_lt n hd).le
    rw [uncheckedBps, splitRatio]
    omega

end Ratio

/-! ## The trend -/

section Trend

variable {current reference bps : ℤ}

/-- A trend in range is that of a gain or of a loss. -/
theorem priceTrendBps_eq_ok (h : priceTrendBps current reference = .ok bps) :
    0 ≤ current ∧ 0 < reference ∧ i64.Fits bps ∧
      ((reference ≤ current ∧ scaledRatioBps (current - reference) reference = .ok bps) ∨
        (current < reference ∧ scaledRatioBps (reference - current) reference = .ok (-bps))) := by
  simp only [priceTrendBps, bind_eq_ok, failIf_eq_ok, not_lt, not_le] at h
  obtain ⟨_, hcurrent, _, hreference, h⟩ := h
  refine ⟨hcurrent, hreference, ?_⟩
  split_ifs at h with hge
  · simp only [bind_eq_ok, okOr_eq_ok, IntRange.check_eq_some] at h
    obtain ⟨_, hratio, hfits, rfl⟩ := h
    exact ⟨hfits, .inl ⟨hge, hratio⟩⟩
  · cases hratio : scaledRatioBps (reference - current) reference with
    | error e => simp [hratio, bind_eq_ok] at h
    | ok loss =>
      simp only [hratio, bind_eq_ok, okOr_eq_ok, IntRange.check_eq_some, Except.map_ok,
        Except.ok.injEq] at h
      obtain ⟨_, rfl, hfits, rfl⟩ := h
      exact ⟨hfits, .inr ⟨not_le.mp hge, by rw [neg_neg]⟩⟩

/-- A trend in range is the sum with the sign of the change. -/
theorem priceTrendBps_eq_uncheckedBps (h : priceTrendBps current reference = .ok bps) :
    ∃ n d : ℕ, reference = d ∧ 0 < d ∧
      (current = d + n ∧ bps = uncheckedBps n d ∨
        current = d - n ∧ 0 < n ∧ bps = -uncheckedBps n d) := by
  obtain ⟨hcurrent, hreference, hfits, ⟨hle, hratio⟩ | ⟨hlt, hratio⟩⟩ := priceTrendBps_eq_ok h
  · obtain ⟨n, hn⟩ := Int.eq_ofNat_of_zero_le (sub_nonneg.mpr hle)
    obtain ⟨d, rfl⟩ := Int.eq_ofNat_of_zero_le hreference.le
    refine ⟨n, d, rfl, by omega, .inl ⟨by omega, ?_⟩⟩
    rw [hn] at hratio
    obtain rfl | hbps := scaledRatioBps_eq_ok hratio
    · exact absurd hfits (by decide)
    · exact hbps
  · obtain ⟨n, hn⟩ := Int.eq_ofNat_of_zero_le (sub_nonneg.mpr hlt.le)
    obtain ⟨d, rfl⟩ := Int.eq_ofNat_of_zero_le hreference.le
    refine ⟨n, d, rfl, by omega, .inr ⟨by omega, by omega, ?_⟩⟩
    rw [hn] at hratio
    obtain hhigh | hbps := scaledRatioBps_eq_ok hratio
    · rw [neg_eq_iff_eq_neg.mp hhigh] at hfits
      exact absurd hfits (by decide)
    · exact neg_eq_iff_eq_neg.mp hbps

/-- The band of a gain, for prices of the type. -/
theorem gain_int_traps_iff (hreference : 0 < reference) (hge : reference ≤ current)
    (hfits : i128.Fits current) :
    scaledRatioBps (current - reference) reference = .error .trap ↔
      (current - reference) / reference = i128.hi / guardBps ∧
        (i128.hi % guardBps + 1) * reference ≤ (current - reference) % reference * guardBps := by
  obtain ⟨n, hn⟩ := Int.eq_ofNat_of_zero_le (sub_nonneg.mpr hge)
  obtain ⟨d, rfl⟩ := Int.eq_ofNat_of_zero_le hreference.le
  have hhi : current ≤ 2 ^ 127 - 1 := hfits.2
  have hwhole : i128.hi / guardBps = (((2 ^ 127 - 1) / 10000 : ℕ) : ℤ) := rfl
  have hrest : i128.hi % guardBps = (((2 ^ 127 - 1) % 10000 : ℕ) : ℤ) := rfl
  have hbps : guardBps = ((10000 : ℕ) : ℤ) := rfl
  rw [hn, gain_traps_iff (by omega) (by omega), hwhole, hrest, hbps]
  norm_cast

/-- A loss is at most the whole price, which is in range. -/
theorem loss_ne_trap (hcurrent : 0 ≤ current) (hlt : current < reference) :
    scaledRatioBps (reference - current) reference ≠ .error .trap := by
  obtain ⟨bps, hbps⟩ := scaledRatioBps_of_le (show 0 ≤ reference - current by omega)
    (show reference - current ≤ reference by omega) (by omega)
  simp [hbps]

/-- Only a gain traps, and only in the band below the saturation. -/
theorem priceTrendBps_eq_trap_iff (hfits : i128.Fits current) :
    priceTrendBps current reference = .error .trap ↔ CarriesOutOfRange current reference := by
  constructor
  · intro htrap
    simp only [priceTrendBps, bind_eq_error, failIf_eq_error, failIf_eq_ok, not_lt, not_le] at htrap
    rcases htrap with ⟨_, hne⟩ | ⟨_, hcurrent, ⟨_, hne⟩ | ⟨_, hreference, htrap⟩⟩
    · cases hne
    · cases hne
    split_ifs at htrap with hge
    · obtain hratio | ⟨bps, _, hcheck⟩ := bind_eq_error.mp htrap
      · exact ⟨hreference, hge, (gain_int_traps_iff hreference hge hfits).mp hratio⟩
      · cases (okOr_eq_error.mp hcheck).2
    · obtain hratio | ⟨bps, _, hcheck⟩ := bind_eq_error.mp htrap
      · exact absurd (map_eq_error.mp hratio) (loss_ne_trap hcurrent (not_le.mp hge))
      · cases (okOr_eq_error.mp hcheck).2
  · rintro ⟨hreference, hge, hband⟩
    have hratio := (gain_int_traps_iff hreference hge hfits).mpr hband
    have hcurrent : ¬ current < 0 := by omega
    rw [priceTrendBps, failIf_of_not hcurrent, ok_bind, failIf_of_not hreference.not_ge, ok_bind]
    simp only [if_pos hge, hratio]
    rfl

theorem exactTrend_gain (n d : ℕ) : exactTrend (d + n) d = (n * 10000 / d : ℕ) := by
  rw [exactTrend, add_sub_cancel_left]
  rfl

theorem exactTrend_loss (n d : ℕ) : exactTrend (d - n) d = -(n * 10000 / d : ℕ) := by
  rw [exactTrend, sub_sub_cancel_left, neg_mul, Int.neg_tdiv]
  rfl

/-- A trend in range differs from the exact one as the sum does from the exact quotient. -/
theorem priceTrendBps_near (h : priceTrendBps current reference = .ok bps) :
    |bps - exactTrend current reference| ≤ 1 ∧
      (reference < i64.hi → bps = exactTrend current reference) := by
  obtain ⟨n, d, rfl, hd, ⟨rfl, rfl⟩ | ⟨rfl, _, rfl⟩⟩ := priceTrendBps_eq_uncheckedBps h
  · have hnear := uncheckedBps_near (n := n) hd
    rw [exactTrend_gain]
    refine ⟨abs_le.mpr (by omega), fun hlt => ?_⟩
    rw [uncheckedBps_of_lt hd (lt_shrinkLimit hlt)]
  · have hnear := uncheckedBps_near (n := n) hd
    rw [exactTrend_loss]
    refine ⟨abs_le.mpr (by omega), fun hlt => ?_⟩
    rw [uncheckedBps_of_lt hd (lt_shrinkLimit hlt)]

theorem priceTrendBps_sign (h : priceTrendBps current reference = .ok bps) :
    (reference ≤ current → 0 ≤ bps) ∧ (current ≤ reference → bps ≤ 0) := by
  obtain ⟨n, d, rfl, hd, ⟨rfl, rfl⟩ | ⟨rfl, hn, rfl⟩⟩ := priceTrendBps_eq_uncheckedBps h
  · refine ⟨fun _ => Int.natCast_nonneg _, fun hle => ?_⟩
    have hzero : n = 0 := by omega
    subst hzero
    simp [uncheckedBps, splitRatio, shrunkFraction_zero_left]
  · exact ⟨fun hle => absurd hle (by omega), fun _ => by omega⟩

end Trend

/-- The trend is faithful exactly outside of the band in which the fraction carries the sum out
of range. -/
theorem reportsTrend_iff (current reference : i128.Value) :
    ReportsTrend current reference ↔ ¬ CarriesOutOfRange current reference := by
  rw [← priceTrendBps_eq_trap_iff current.2]
  exact ⟨ReportsTrend.ne_trap, fun h => ⟨h, fun _ hok => (priceTrendBps_near hok).1,
    fun hlt _ hok => (priceTrendBps_near hok).2 hlt, fun _ hok => priceTrendBps_sign hok⟩⟩

/-- From a price of 3 to one near the top of the range the trend traps, although it is only too
large to be reported. -/
theorem priceTrendBps_traps :
    let current := 3 * (i128.hi / guardBps) + 5
    i128.Fits current ∧ priceTrendBps current 3 = .error .trap ∧ ¬ ReportsTrend current 3 := by
  have htrap : priceTrendBps (3 * (i128.hi / guardBps) + 5) 3 = .error .trap := by decide
  exact ⟨by decide, htrap, fun h => h.ne_trap htrap⟩

end StellarFlow.Vaults
