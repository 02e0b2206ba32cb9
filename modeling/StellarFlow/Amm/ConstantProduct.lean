import StellarFlow.Amm.Invariant

/-!
# What the rounding of the constant product costs

The division is right unless its loop drops a bit, which takes a divisor above half the range.
Where it is wrong the quotient is too small, so neither a swap nor the burning of shares ever
takes more out of a pool than the exact arithmetic would.
-/
namespace StellarFlow.Amm

open Foundation

/-! ## The division -/

section Division

variable {a b d : ℕ}

/-- The floor of the exact quotient where it is representable, and an overflow elsewhere. -/
def MulDivExact (a b d : ℕ) : Prop :=
  mulDiv a b d = if a * b / d < 2 ^ 128 then .ok (a * b / d) else .error (Fault.error .overflow)

instance (a b d : ℕ) : Decidable (MulDivExact a b d) := inferInstanceAs (Decidable (_ = _))

theorem mulDiv_of_divMod {q r : ℕ} (hd : 0 < d) (h : (U256.mul a b).divMod d = some (q, r)) :
    mulDiv a b d = .ok q := by
  simp [mulDiv, hd.ne', h, failIf, bind, Except.bind, pure, Except.pure]

theorem mulDiv_of_divMod_none (hd : 0 < d) (h : (U256.mul a b).divMod d = none) :
    mulDiv a b d = .error (Fault.error .overflow) := by
  simp [mulDiv, hd.ne', h, okOr, failIf, bind, Except.bind]

theorem mul_value_of_lt (ha : a < 2 ^ 128) (hb : b < 2 ^ 128) : (U256.mul a b).value = a * b := by
  rw [U256.mul_value, Nat.mod_eq_of_lt ha, Nat.mod_eq_of_lt hb]

/-- The quotient is exact, or rightly refused, unless a partial remainder of a representable
quotient reaches half the range. -/
theorem mulDiv_exact_iff (ha : a < 2 ^ 128) (hb : b < 2 ^ 128) (hd0 : 0 < d) (hd : d < 2 ^ 128) :
    MulDivExact a b d ↔ (a * b / d < 2 ^ 128 → ∀ i < 128, a * b / 2 ^ (i + 1) % d < 2 ^ 127) := by
  have hlo := U256.mul_lo_lt a b
  have hvalue := mul_value_of_lt ha hb
  unfold MulDivExact
  cases hdiv : (U256.mul a b).divMod d with
  | none =>
    have hle := (U256.divMod_eq_none_iff hlo hd0).mp hdiv
    rw [hvalue] at hle
    rw [mulDiv_of_divMod_none hd0 hdiv, if_neg hle.not_gt]
    exact iff_of_true rfl fun hlt => absurd hlt hle.not_gt
  | some result =>
    obtain ⟨q, r⟩ := result
    have hlt : a * b / d < 2 ^ 128 := by
      by_contra hge
      have hnone := (U256.divMod_eq_none_iff hlo hd0).mpr (by rw [hvalue]; omega)
      cases hdiv.symm.trans hnone
    have hexact := U256.divMod_eq_iff hlo hd.le hdiv
    rw [hvalue] at hexact
    rw [mulDiv_of_divMod hd0 hdiv, if_pos hlt, Except.ok.injEq, hexact]
    refine ⟨fun h _ i hi => ?_, fun h i hi => ?_⟩
    · have := h i hi
      omega
    · have := h hlt i hi
      omega

/-- A divisor of half the range is still exact. -/
theorem mulDiv_exact_half :
    MulDivExact (2 ^ 128 - 1) (2 ^ 126) (2 ^ 127) ∧
      (2 ^ 128 - 1 < 2 ^ 128 ∧ 2 ^ 126 < 2 ^ 128 ∧ 0 < 2 ^ 127 ∧ 2 ^ 127 < 2 ^ 128) := by
  refine ⟨(mulDiv_exact_iff (by norm_num) (by norm_num) (by norm_num) (by norm_num)).mpr
    fun _ i _ => Nat.mod_lt _ (by norm_num), by norm_num⟩

/-- The product `2 ^ 128` divided by the largest divisor is one; the loop shifts the only bit
out of the remainder. -/
theorem mulDiv_drops_bit :
    mulDiv (2 ^ 127) 2 (2 ^ 128 - 1) = .ok 0 ∧ 2 ^ 127 * 2 / (2 ^ 128 - 1) = 1 ∧
      ¬ MulDivExact (2 ^ 127) 2 (2 ^ 128 - 1) := by
  decide +kernel

/-- A part of an amount is always returned, and never exceeds it. -/
theorem mulDiv_part (hd : 0 < d) (ha : a ≤ d) (hb : b < 2 ^ 128) :
    ∃ q, mulDiv a b d = .ok q ∧ q ≤ b := by
  cases hdiv : (U256.mul a b).divMod d with
  | none =>
    have hle := (U256.divMod_eq_none_iff (U256.mul_lo_lt a b) hd).mp hdiv
    rw [U256.mul_value, Nat.le_div_iff_mul_le hd] at hle
    have hprod : a % 2 ^ 128 * (b % 2 ^ 128) ≤ d * b :=
      Nat.mul_le_mul ((Nat.mod_le _ _).trans ha) (Nat.mod_le _ _)
    nlinarith
  | some result =>
    have hok := mulDiv_of_divMod hd hdiv
    refine ⟨result.1, hok, Nat.le_of_mul_le_mul_right ?_ hd⟩
    calc result.1 * d ≤ a * b := mulDiv_mul_le hok
      _ ≤ d * b := Nat.mul_le_mul_right _ ha
      _ = b * d := Nat.mul_comm _ _

end Division

/-! ## Swaps -/

section Swaps

variable {quoteFee : ℕ → Except Fault ℕ} {x reserveIn reserveOut out fee : ℕ}

/-- Comparing the high words first compares the values. -/
theorem U256.value_lt_iff {x y : U256} (hx : x.lo < 2 ^ 128) (hy : y.lo < 2 ^ 128) :
    x.value < y.value ↔ x.hi < y.hi ∨ x.hi = y.hi ∧ x.lo < y.lo := by
  unfold value
  omega

theorem assertInvariantStable_eq_ok (hin : reserveIn + x < 2 ^ 128) (hout : reserveOut < 2 ^ 128)
    (hle : out ≤ reserveOut)
    (hk : reserveIn * reserveOut ≤ (reserveIn + x) * (reserveOut - out)) :
    assertInvariantStable reserveIn reserveOut x out = .ok () := by
  have hbefore := mul_value_of_lt ((Nat.le_add_right _ x).trans_lt hin) hout
  have hafter := mul_value_of_lt hin ((Nat.sub_le _ out).trans_lt hout)
  have hkeep : ¬ (U256.mul (reserveIn + x) (reserveOut - out)).value <
      (U256.mul reserveIn reserveOut).value := by
    rw [hbefore, hafter]
    exact hk.not_gt
  rw [U256.value_lt_iff (U256.mul_lo_lt _ _) (U256.mul_lo_lt _ _)] at hkeep
  have hadd : checkBits 128 (reserveIn + x) = some (reserveIn + x) :=
    checkBits_eq_some.mpr ⟨hin, rfl⟩
  have hsub : checkedSub reserveOut out = some (reserveOut - out) :=
    checkedSub_eq_some.mpr ⟨hle, rfl⟩
  rw [assertInvariantStable, hadd, okOr_some, ok_bind, hsub, okOr_some, ok_bind]
  exact failIf_of_not hkeep

theorem computeSwapOut_eq_ok (h : computeSwapOut quoteFee x reserveIn reserveOut = .ok (out, fee)) :
    0 < x ∧ 0 < reserveIn ∧ 0 < reserveOut ∧ reserveIn + x < 2 ^ 128 := by
  simp only [computeSwapOut, bind_eq_ok, failIf_eq_ok, okOr_eq_ok, checkBits_eq_some, not_or] at h
  obtain ⟨_, ⟨hx, hin, hout⟩, _, _, _, ⟨hlt, _⟩, _⟩ := h
  exact ⟨Nat.pos_of_ne_zero hx, Nat.pos_of_ne_zero hin, Nat.pos_of_ne_zero hout, hlt⟩

/-- A swap leaves part of the reserve it pays from, and its check of the product passes. -/
theorem computeSwapOut_stable (hout : reserveOut < 2 ^ 128)
    (h : computeSwapOut quoteFee x reserveIn reserveOut = .ok (out, fee)) :
    out < reserveOut ∧ assertInvariantStable reserveIn reserveOut x out = .ok () ∧
      (U256.mul reserveIn reserveOut).value ≤
        (U256.mul (reserveIn + x) (reserveOut - out)).value := by
  obtain ⟨hx, hin, hpos, hlt⟩ := computeSwapOut_eq_ok h
  have hpaid := computeSwapOut_mul_le h
  have hless : out < reserveOut := by
    by_contra hge
    push Not at hge
    have hmul : reserveOut * (reserveIn + x) ≤ out * (reserveIn + x) :=
      Nat.mul_le_mul_right _ hge
    have hextra : 0 < reserveOut * reserveIn := Nat.mul_pos hpos hin
    rw [mul_add] at hmul
    omega
  have hk : reserveIn * reserveOut ≤ (reserveIn + x) * (reserveOut - out) := by
    obtain ⟨k, rfl⟩ := Nat.exists_eq_add_of_le hless.le
    rw [Nat.add_sub_cancel_left]
    nlinarith
  refine ⟨hless, assertInvariantStable_eq_ok hlt hout hless.le hk, ?_⟩
  rwa [mul_value_of_lt ((Nat.le_add_right _ x).trans_lt hlt) hout,
    mul_value_of_lt hlt ((Nat.sub_le _ out).trans_lt hout)]

/-- A swap at thirty basis points in a pool of `10 ^ 30` a side. -/
theorem computeSwapOut_stable_sample :
    computeSwapOut (fun _ => .ok 30) (10 ^ 27) (10 ^ 30) (10 ^ 30) =
      .ok (996003996003996003996003997, 2997002997002997002997002) ∧
    assertInvariantStable (10 ^ 30) (10 ^ 30) (10 ^ 27) 996003996003996003996003997 = .ok () := by
  have h : computeSwapOut (fun _ => .ok 30) (10 ^ 27) (10 ^ 30) (10 ^ 30) =
      .ok (996003996003996003996003997, 2997002997002997002997002) := by decide +kernel
  exact ⟨h, (computeSwapOut_stable (by norm_num) h).2.1⟩

end Swaps

/-! ## Shares -/

section Shares

variable {a b ra rb total shares x y : ℕ}

/-- The minted shares are worth at most either part of the deposit. -/
theorem computeLpShares_eq_ok (h : computeLpShares a b ra rb total = .ok shares) :
    shares * ra ≤ a * total ∧ shares * rb ≤ b * total := by
  simp only [computeLpShares, bind_eq_ok, pure_eq_ok] at h
  obtain ⟨_, _, _, _, sharesA, hA, sharesB, hB, rfl⟩ := h
  exact ⟨(Nat.mul_le_mul_right _ (min_le_left _ _)).trans (mulDiv_mul_le hA),
    (Nat.mul_le_mul_right _ (min_le_right _ _)).trans (mulDiv_mul_le hB)⟩

theorem computeRemoveLiquidity_eq_ok
    (h : computeRemoveLiquidity shares total ra rb = .ok (x, y)) :
    0 < total ∧ shares ≤ total ∧ x * total ≤ shares * ra ∧ y * total ≤ shares * rb := by
  simp only [computeRemoveLiquidity, bind_eq_ok, failIf_eq_ok, pure_eq_ok, Prod.mk.injEq, not_or,
    not_lt] at h
  obtain ⟨_, ⟨_, htotal⟩, _, hle, _, hA, _, hB, rfl, rfl⟩ := h
  exact ⟨Nat.pos_of_ne_zero htotal, hle, mulDiv_mul_le hA, mulDiv_mul_le hB⟩

/-- Shares of the whole are always paid out. -/
theorem computeRemoveLiquidity_ok (hs : 0 < shares) (hle : shares ≤ total) (ha : ra < 2 ^ 128)
    (hb : rb < 2 ^ 128) : ∃ x y, computeRemoveLiquidity shares total ra rb = .ok (x, y) := by
  obtain ⟨x, hx, _⟩ := mulDiv_part (hs.trans_le hle) hle ha
  obtain ⟨y, hy, _⟩ := mulDiv_part (hs.trans_le hle) hle hb
  refine ⟨x, y, ?_⟩
  rw [computeRemoveLiquidity, failIf_of_not (by omega), ok_bind, failIf_of_not (by omega),
    ok_bind, hx, ok_bind, hy]
  rfl

/-- What is returned for a part of the pool, in terms of that part's share of one reserve. -/
theorem returned_le {amount reserve : ℕ} (hs : 0 < shares)
    (hmint : shares * reserve ≤ amount * total)
    (hburn : x * (total + shares) ≤ shares * (reserve + amount)) : x ≤ amount := by
  refine Nat.le_of_mul_le_mul_right (hburn.trans ?_) (show 0 < total + shares by omega)
  nlinarith

/-- Adding liquidity and burning the minted shares returns at most the deposit, and burning
shares never returns more than the reserves. -/
theorem lpRoundTrip_le :
    (∀ a b ra rb total shares, computeLpShares a b ra rb total = .ok shares → 0 < shares →
      ra + a < 2 ^ 128 → rb + b < 2 ^ 128 → total + shares < 2 ^ 128 →
      ∃ x y, computeRemoveLiquidity shares (total + shares) (ra + a) (rb + b) = .ok (x, y) ∧
        x ≤ a ∧ y ≤ b) ∧
    ∀ shares total ra rb x y, shares ≤ total →
      computeRemoveLiquidity shares total ra rb = .ok (x, y) → x ≤ ra ∧ y ≤ rb := by
  constructor
  · intro a b ra rb total shares hmint hs ha hb _
    obtain ⟨x, y, hburn⟩ := computeRemoveLiquidity_ok hs (Nat.le_add_left shares total) ha hb
    obtain ⟨hmintA, hmintB⟩ := computeLpShares_eq_ok hmint
    obtain ⟨_, _, hburnA, hburnB⟩ := computeRemoveLiquidity_eq_ok hburn
    exact ⟨x, y, hburn, returned_le hs hmintA hburnA, returned_le hs hmintB hburnB⟩
  · intro shares total ra rb x y hle hburn
    obtain ⟨htotal, _, hburnA, hburnB⟩ := computeRemoveLiquidity_eq_ok hburn
    have hpart : ∀ reserve, shares * reserve ≤ reserve * total := fun reserve => by
      rw [mul_comm reserve]
      exact Nat.mul_le_mul_right _ hle
    exact ⟨Nat.le_of_mul_le_mul_right (hburnA.trans (hpart ra)) htotal,
      Nat.le_of_mul_le_mul_right (hburnB.trans (hpart rb)) htotal⟩

/-- An unbalanced deposit, minted for its smaller side. -/
theorem lpRoundTrip_sample :
    computeLpShares 10 50 100 200 1000 = .ok 100 ∧
    (∃ x y, computeRemoveLiquidity 100 (1000 + 100) (100 + 10) (200 + 50) = .ok (x, y) ∧
      x ≤ 10 ∧ y ≤ 50) ∧
    computeRemoveLiquidity 333 1000 100 200 = .ok (33, 66) ∧ 33 ≤ 100 ∧ 66 ≤ 200 := by
  have hmint : computeLpShares 10 50 100 200 1000 = .ok 100 := by decide +kernel
  have hburn : computeRemoveLiquidity 333 1000 100 200 = .ok (33, 66) := by decide +kernel
  exact ⟨hmint, lpRoundTrip_le.1 _ _ _ _ _ _ hmint (by norm_num) (by norm_num) (by norm_num)
    (by norm_num), hburn, lpRoundTrip_le.2 _ _ _ _ _ _ (by norm_num) hburn⟩

end Shares

end StellarFlow.Amm
