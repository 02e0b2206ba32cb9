import StellarFlow.Host
import StellarFlow.Foundation.RoundedExp

/-!
# Interest of the vaults

The debt index grows by an exponential of rate times time, summed up term by term in fixed
point with 18 decimals. The exponent is capped, so that no product of the series leaves its
type. A settlement advances the index and the borrows of a pool to the ledger of the call, each
rounded down.
-/
namespace StellarFlow.Vaults.Interest

open Foundation

structure InterestRateConfig where
  baseRateBps : ℕ
  multiplierBps : ℕ
  jumpMultiplierBps : ℕ
  optimalUtilizationBps : ℕ
  ledgersPerYear : ℕ
  deriving DecidableEq, Repr

structure PoolState where
  cash : ℤ
  borrows : ℤ
  lastAccruedLedger : ℕ
  accumulatedInterestIndex : ℕ
  deriving DecidableEq, Repr

def indexScale : ℕ := 1000000000000000000
def rateBpsDenominator : ℕ := 10000
def maxCompoundExponent : ℕ := 4 * indexScale
def maxTaylorTerms : ℕ := 64

/-- The loop over the terms from the `n`-th one on, with so many terms left. -/
def expLoop (magnitude : ℤ) : ℕ → ℕ → ℤ → ℤ → Option ℤ
  | 0, _, _, sum => some sum
  | left + 1, n, term, sum => do
    let denominator ← i128.check (indexScale * n)
    let product ← i128.check (term * magnitude)
    let numerator ← i128.check (product + denominator.tdiv 2)
    let term := numerator.tdiv denominator
    if term = 0 then some sum
    else do
      let sum ← i128.check (sum + term)
      expLoop magnitude left (n + 1) term sum

def expFixedPoint (x : ℤ) : Option ℤ :=
  if x = 0 then some indexScale
  else do
    let magnitude ← i128.check |x|
    if maxCompoundExponent < magnitude then none
    else do
      let sum ← expLoop magnitude maxTaylorTerms 1 indexScale indexScale
      if 0 < x then some sum
      else do
        let square ← i128.check (indexScale * indexScale)
        i128.checkedDiv square sum

def compoundInterestFactor (rateBps : ℤ) (elapsedLedgers ledgersPerYear : ℕ) :
    Except Fault ℤ := do
  failIf (ledgersPerYear = 0) (Fault.error .divisionByZero)
  failIf (rateBps < 0) (Fault.error .invalidInput)
  if rateBps = 0 ∨ elapsedLedgers = 0 then pure indexScale
  else do
    let product ← okOr (i128.check (rateBps * elapsedLedgers)) (Fault.error .mathOverflow)
    let numerator ← okOr (i128.check (product * indexScale)) (Fault.error .mathOverflow)
    let denominator ← okOr (i128.check (rateBpsDenominator * ledgersPerYear))
      (Fault.error .mathOverflow)
    let exponent := numerator.tdiv denominator
    if exponent = 0 then pure indexScale
    else okOr (expFixedPoint exponent) (Fault.error .mathOverflow)

/-- A signed value as an unsigned one. -/
def toU128 (x : ℤ) : Option ℕ := if 0 ≤ x then some x.toNat else none

def advanceDebtShareIndex (index : ℕ) (rateBps : ℤ) (elapsedLedgers ledgersPerYear : ℕ) :
    Except Fault ℕ := do
  let factor ← compoundInterestFactor rateBps elapsedLedgers ledgersPerYear
  let factor ← okOr (toU128 factor) (Fault.error .mathOverflow)
  let product ← okOr (checkBits 128 (index * factor)) (Fault.error .mathOverflow)
  let updated := product / indexScale
  failIf (updated < index) (Fault.error .invalidInput)
  pure updated

/-! ## The series -/

section Series

variable {x y : ℕ}

/-- At the largest exponent every product of the series fits with its rounding, and so does the
sum. -/
theorem largest_products : ∀ n < 64, roundedTerm indexScale maxCompoundExponent n *
    maxCompoundExponent + indexScale * (n + 1) / 2 < 2 ^ 127 := by decide +kernel

theorem largest_sum : roundedExp indexScale maxCompoundExponent 65 < 2 ^ 127 := by decide +kernel

/-- At the largest exponent the 35th term is rounded to nothing. -/
theorem largest_last : roundedTerm indexScale maxCompoundExponent 35 = 0 := by decide +kernel

theorem indexScale_pos : 0 < indexScale := by decide

/-- At an admissible exponent nothing overflows, because nothing does at the largest one. -/
theorem product_lt (hx : x ≤ maxCompoundExponent) {n : ℕ} (hn : n < 64) :
    roundedTerm indexScale x n * x + indexScale * (n + 1) / 2 < 2 ^ 127 :=
  lt_of_le_of_lt (Nat.add_le_add_right (Nat.mul_le_mul (roundedTerm_mono hx n) hx) _)
    (largest_products n hn)

theorem sum_lt (hx : x ≤ maxCompoundExponent) {n : ℕ} (hn : n ≤ 65) :
    roundedExp indexScale x n < 2 ^ 127 := by
  have hle : roundedExp indexScale x n ≤ roundedExp indexScale x 65 :=
    Finset.sum_le_sum_of_subset (Finset.range_subset_range.mpr hn)
  exact (hle.trans (roundedExp_mono hx 65)).trans_lt largest_sum

/-- One round of the loop at an admissible exponent. -/
theorem expLoop_succ (hx : x ≤ maxCompoundExponent) {n : ℕ} (hn : n < 64) (left : ℕ) :
    expLoop x (left + 1) (n + 1) (roundedTerm indexScale x n) (roundedExp indexScale x (n + 1)) =
      if roundedTerm indexScale x (n + 1) = 0 then some (roundedExp indexScale x (n + 1) : ℤ)
      else expLoop x left (n + 2) (roundedTerm indexScale x (n + 1))
        (roundedExp indexScale x (n + 2)) := by
  have hterm := product_lt hx hn
  have hden : i128.check ((indexScale : ℤ) * (n + 1 : ℕ)) =
      some ((indexScale * (n + 1) : ℕ) : ℤ) := by
    rw [← Nat.cast_mul]
    exact check_natCast ((Nat.mul_le_mul_left indexScale hn).trans_lt (by norm_num [indexScale]))
  have hmul : i128.check ((roundedTerm indexScale x n : ℤ) * x) =
      some ((roundedTerm indexScale x n * x : ℕ) : ℤ) := by
    rw [← Nat.cast_mul]
    exact check_natCast (lt_of_le_of_lt (Nat.le_add_right _ _) hterm)
  have hadd : i128.check (((roundedTerm indexScale x n * x : ℕ) : ℤ) +
      ((indexScale * (n + 1) : ℕ) : ℤ).tdiv 2) =
      some ((roundedTerm indexScale x n * x + indexScale * (n + 1) / 2 : ℕ) : ℤ) := by
    have hhalf : ((indexScale * (n + 1) : ℕ) : ℤ).tdiv 2 = (indexScale * (n + 1) / 2 : ℕ) :=
      (Int.ofNat_tdiv _ 2).symm
    rw [hhalf, ← Nat.cast_add]
    exact check_natCast hterm
  have hdiv : ((roundedTerm indexScale x n * x + indexScale * (n + 1) / 2 : ℕ) : ℤ).tdiv
      ((indexScale * (n + 1) : ℕ) : ℤ) = (roundedTerm indexScale x (n + 1) : ℕ) :=
    (Int.ofNat_tdiv _ _).symm
  have hnext : i128.check ((roundedExp indexScale x (n + 1) : ℤ) +
      (roundedTerm indexScale x (n + 1) : ℕ)) =
      some ((roundedExp indexScale x (n + 2) : ℕ) : ℤ) := by
    rw [← Nat.cast_add, ← roundedExp_succ]
    exact check_natCast (sum_lt hx (by omega))
  rw [expLoop]
  generalize indexScale = s at *
  rw [hden, Option.bind_eq_bind, Option.bind_some, hmul, Option.bind_some, hadd, Option.bind_some,
    hdiv]
  dsimp only
  by_cases hzero : roundedTerm s x (n + 1) = 0
  · rw [if_pos (Nat.cast_eq_zero.mpr hzero), if_pos hzero]
  · rw [if_neg (fun h => hzero (Nat.cast_eq_zero.mp h)), if_neg hzero, hnext, Option.bind_some]

/-- The loop sums up the whole series, whether or not it stops early. -/
theorem expLoop_eq (hx : x ≤ maxCompoundExponent) (left : ℕ) {n : ℕ} (hn : n + left = 64) :
    expLoop x left (n + 1) (roundedTerm indexScale x n) (roundedExp indexScale x (n + 1)) =
      some (roundedExp indexScale x 65 : ℤ) := by
  induction left generalizing n with
  | zero =>
    obtain rfl : n = 64 := hn
    rw [expLoop]
  | succ left ih =>
    rw [expLoop_succ hx (by omega)]
    split_ifs with hzero
    · rw [roundedExp_eq_of_eq_zero indexScale_pos hzero (show n + 1 ≤ 65 by omega)]
    · exact ih (by omega)

theorem fits_exponent (hx : x ≤ maxCompoundExponent) : x < 2 ^ 127 :=
  hx.trans_lt (by norm_num [maxCompoundExponent, indexScale])

/-- At an admissible exponent the helper returns the sum of the rounded series. -/
theorem expFixedPoint_eq (hx : x ≤ maxCompoundExponent) :
    expFixedPoint x = some (roundedExp indexScale x 65 : ℤ) := by
  rcases Nat.eq_zero_or_pos x with rfl | hpos
  · have hone : roundedTerm indexScale 0 1 = 0 := roundedTerm_one indexScale_pos 0
    rw [roundedExp_eq_of_eq_zero indexScale_pos hone (by norm_num), roundedExp_one]
    exact if_pos rfl
  · have hne : (x : ℤ) ≠ 0 := by exact_mod_cast hpos.ne'
    have hpos' : (0 : ℤ) < x := by exact_mod_cast hpos
    have hmax : ¬ (maxCompoundExponent : ℤ) < x := by exact_mod_cast hx.not_gt
    have hloop := expLoop_eq hx maxTaylorTerms (n := 0) rfl
    rw [zero_add, roundedExp_one, roundedTerm] at hloop
    rw [expFixedPoint, if_neg hne, abs_of_pos hpos', check_natCast (fits_exponent hx),
      Option.bind_eq_bind, Option.bind_some, if_neg hmax, hloop, Option.bind_some,
      if_pos hpos']

/-- Exponents beyond the cap are refused. -/
theorem expFixedPoint_eq_some {v : ℤ} : expFixedPoint x = some v ↔
    x ≤ maxCompoundExponent ∧ v = roundedExp indexScale x 65 := by
  by_cases hx : x ≤ maxCompoundExponent
  · rw [expFixedPoint_eq hx, Option.some_inj, eq_comm]
    exact (and_iff_right hx).symm
  · have hne : (x : ℤ) ≠ 0 := by
      have hpos : 0 < x := (Nat.zero_le _).trans_lt (not_le.mp hx)
      exact_mod_cast hpos.ne'
    refine iff_of_false (fun h => ?_) fun h => hx h.1
    rw [expFixedPoint, if_neg hne, Option.bind_eq_bind, Option.bind_eq_some_iff] at h
    obtain ⟨magnitude, hmag, h⟩ := h
    obtain ⟨_, rfl⟩ := IntRange.check_eq_some.mp hmag
    rw [if_pos (by rw [abs_of_nonneg (Int.natCast_nonneg x)]; exact_mod_cast not_le.mp hx)] at h
    cases h

end Series

/-! ## Growth factors -/

section Factors

variable {rateBps elapsedLedgers ledgersPerYear index : ℕ}

/-- The exponent of the growth over a number of ledgers. -/
def exponentOver (rateBps elapsedLedgers ledgersPerYear : ℕ) : ℕ :=
  rateBps * elapsedLedgers * indexScale / (rateBpsDenominator * ledgersPerYear)

theorem tdiv_eq_exponentOver : ((rateBps : ℤ) * elapsedLedgers * indexScale).tdiv
    (rateBpsDenominator * ledgersPerYear) =
      exponentOver rateBps elapsedLedgers ledgersPerYear := by
  rw [exponentOver, Int.ofNat_tdiv]
  push_cast
  rfl

theorem roundedExp_zero : roundedExp indexScale 0 65 = indexScale := by
  have hone : roundedTerm indexScale 0 1 = 0 := roundedTerm_one indexScale_pos 0
  rw [roundedExp_eq_of_eq_zero indexScale_pos hone (by norm_num), roundedExp_one]

/-- The factor is the rounded exponential of the exponent. -/
theorem compoundInterestFactor_eq_ok {f : ℤ}
    (h : compoundInterestFactor rateBps elapsedLedgers ledgersPerYear = .ok f) :
    exponentOver rateBps elapsedLedgers ledgersPerYear ≤ maxCompoundExponent ∧
      f = roundedExp indexScale (exponentOver rateBps elapsedLedgers ledgersPerYear) 65 := by
  have hneutral : exponentOver rateBps elapsedLedgers ledgersPerYear = 0 → f = indexScale →
      exponentOver rateBps elapsedLedgers ledgersPerYear ≤ maxCompoundExponent ∧
        f = roundedExp indexScale (exponentOver rateBps elapsedLedgers ledgersPerYear) 65 := by
    rintro h0 rfl
    rw [h0, roundedExp_zero]
    exact ⟨Nat.zero_le _, rfl⟩
  simp only [compoundInterestFactor, bind_eq_ok, failIf_eq_ok] at h
  obtain ⟨_, _, _, _, h⟩ := h
  split_ifs at h with hidle
  · refine hneutral ?_ (Except.ok.inj h).symm
    rw [exponentOver]
    rcases hidle with hrate | helapsed
    · rw [Nat.cast_eq_zero.mp hrate, zero_mul, zero_mul, Nat.zero_div]
    · rw [helapsed, mul_zero, zero_mul, Nat.zero_div]
  · simp only [bind_eq_ok, okOr_eq_ok, IntRange.check_eq_some] at h
    obtain ⟨_, ⟨_, rfl⟩, _, ⟨_, rfl⟩, _, ⟨_, rfl⟩, h⟩ := h
    rw [tdiv_eq_exponentOver] at h
    split_ifs at h with hzero
    · exact hneutral (Nat.cast_eq_zero.mp hzero) (Except.ok.inj h).symm
    · exact expFixedPoint_eq_some.mp (okOr_eq_ok.mp h)

/-- A factor is refused for an overflow, or because the year has no ledgers. -/
theorem compoundInterestFactor_eq_error {e : Fault}
    (h : compoundInterestFactor rateBps elapsedLedgers ledgersPerYear = .error e) :
    ledgersPerYear = 0 ∧ e = Fault.error .divisionByZero ∨
      0 < ledgersPerYear ∧ e = Fault.error .mathOverflow := by
  rw [compoundInterestFactor] at h
  by_cases hyear : ledgersPerYear = 0
  · rw [failIf, if_pos hyear] at h
    exact .inl ⟨hyear, (Except.error.inj h).symm⟩
  · refine .inr ⟨Nat.pos_of_ne_zero hyear, ?_⟩
    rw [failIf_of_not hyear, ok_bind, failIf_of_not (by omega), ok_bind] at h
    split_ifs at h with hidle
    · exact absurd h pure_ne_error
    · simp only [bind_eq_error, okOr_eq_error] at h
      obtain ⟨_, rfl⟩ | ⟨_, _, ⟨_, rfl⟩ | ⟨_, _, ⟨_, rfl⟩ | ⟨_, _, h⟩⟩⟩ := h
      · rfl
      · rfl
      · rfl
      · split_ifs at h
        · exact absurd h pure_ne_error
        · exact (okOr_eq_error.mp h).2.symm

/-- The growth factor of an exponent. -/
def growthFactor (exponent : ℕ) : ℕ := roundedExp indexScale exponent 65

theorem indexScale_add_le (exponent : ℕ) : indexScale + exponent ≤ growthFactor exponent :=
  add_le_roundedExp indexScale_pos exponent (by norm_num)

theorem le_mul_growthFactor_div (index exponent : ℕ) :
    index ≤ index * growthFactor exponent / indexScale := by
  rw [Nat.le_div_iff_mul_le indexScale_pos]
  exact Nat.mul_le_mul_left index ((Nat.le_add_right _ _).trans (indexScale_add_le exponent))

/-- An advance multiplies by the growth factor and rounds down. It never decreases the index, so
the check at its end never fails. -/
theorem advanceDebtShareIndex_eq {f : ℤ}
    (h : compoundInterestFactor rateBps elapsedLedgers ledgersPerYear = .ok f) :
    advanceDebtShareIndex index rateBps elapsedLedgers ledgersPerYear =
      if index * growthFactor (exponentOver rateBps elapsedLedgers ledgersPerYear) < 2 ^ 128 then
        .ok (index * growthFactor (exponentOver rateBps elapsedLedgers ledgersPerYear) / indexScale)
      else .error (Fault.error .mathOverflow) := by
  obtain ⟨_, rfl⟩ := compoundInterestFactor_eq_ok h
  rw [← growthFactor] at h
  have hunsigned : toU128 (growthFactor (exponentOver rateBps elapsedLedgers ledgersPerYear)) =
      some (growthFactor (exponentOver rateBps elapsedLedgers ledgersPerYear)) :=
    if_pos (Int.natCast_nonneg _)
  rw [advanceDebtShareIndex, h, ok_bind, hunsigned, okOr_some, ok_bind]
  split_ifs with hlt
  · rw [checkBits_eq_some.mpr ⟨hlt, rfl⟩, okOr_some, ok_bind]
    dsimp only
    rw [failIf_of_not (not_lt.mpr (le_mul_growthFactor_div index _)), ok_bind]
    rfl
  · rw [checkBits, if_neg hlt]
    rfl

/-- Without ledgers in a year an advance is refused. Otherwise it overflows or does not decrease
the index. -/
theorem advanceDebtShareIndex_cases (index rateBps elapsedLedgers ledgersPerYear : ℕ) :
    ledgersPerYear = 0 ∧ advanceDebtShareIndex index rateBps elapsedLedgers ledgersPerYear =
        .error (Fault.error .divisionByZero) ∨
      0 < ledgersPerYear ∧ (advanceDebtShareIndex index rateBps elapsedLedgers ledgersPerYear =
          .error (Fault.error .mathOverflow) ∨
        ∃ updated, advanceDebtShareIndex index rateBps elapsedLedgers ledgersPerYear =
          .ok updated ∧ index ≤ updated) := by
  rcases Nat.eq_zero_or_pos ledgersPerYear with rfl | hyear
  · exact .inl ⟨rfl, rfl⟩
  refine .inr ⟨hyear, ?_⟩
  cases hfactor : compoundInterestFactor rateBps elapsedLedgers ledgersPerYear with
  | error e =>
    obtain ⟨h0, _⟩ | ⟨_, rfl⟩ := compoundInterestFactor_eq_error hfactor
    · omega
    · refine .inl ?_
      rw [advanceDebtShareIndex, hfactor]
      rfl
  | ok f =>
    rw [advanceDebtShareIndex_eq hfactor]
    split_ifs
    · exact .inr ⟨_, rfl, le_mul_growthFactor_div index _⟩
    · exact .inl rfl

end Factors

/-! ## The error of the series -/

/-- The roundings up to the 35th term and the exact terms from there on stay below 27 units. -/
theorem seriesError_le : ∑ i ∈ Finset.range 35, termError 4 i +
    ∑ i ∈ Finset.Ico 35 65, (indexScale : ℚ) * (4 ^ i / i.factorial) ≤ 27 := by decide +kernel

/-- The series is that close to the exact sum of as many terms. -/
theorem growthFactor_near {x : ℕ} (hx : x ≤ maxCompoundExponent) :
    |(growthFactor x : ℚ) - indexScale * ∑ n ∈ Finset.range 65,
      ((x : ℚ) / indexScale) ^ n / n.factorial| ≤ 27 := by
  have hlast : roundedTerm indexScale x 35 = 0 :=
    Nat.le_zero.mp ((roundedTerm_mono hx 35).trans largest_last.le)
  have hbound : (x : ℚ) ≤ 4 * indexScale := by exact_mod_cast hx
  have herror := abs_roundedExp_sub_le indexScale_pos hbound hlast (show 35 ≤ 65 by norm_num)
  rw [Finset.mul_sum]
  exact herror.trans seriesError_le

/-- At every admissible exponent the helper returns a value without an overflow. It lies above
the linear approximation, increases with the exponent and is within 40 units of the exact sum.
So an advance with ledgers in a year overflows or does not decrease the index, and no advance
at a rate that is not negative reports invalid input. -/
theorem exponential_correct :
    (∀ x : ℤ, 0 ≤ x → x ≤ maxCompoundExponent → ∃ v : ℤ, expFixedPoint x = some v ∧
      indexScale + x ≤ v ∧ |(v : ℚ) - indexScale * ∑ n ∈ Finset.range 65,
        ((x : ℚ) / indexScale) ^ n / n.factorial| ≤ 40) ∧
    (∀ x y v w : ℤ, 0 ≤ x → x ≤ y → y ≤ maxCompoundExponent → expFixedPoint x = some v →
      expFixedPoint y = some w → v ≤ w) ∧
    ∀ (index : ℕ) (rateBps : ℤ) (elapsedLedgers ledgersPerYear : ℕ), 0 ≤ rateBps →
      (ledgersPerYear = 0 → advanceDebtShareIndex index rateBps elapsedLedgers ledgersPerYear =
        .error (Fault.error .divisionByZero)) ∧
      (0 < ledgersPerYear → advanceDebtShareIndex index rateBps elapsedLedgers ledgersPerYear =
          .error (Fault.error .mathOverflow) ∨
        ∃ updated, advanceDebtShareIndex index rateBps elapsedLedgers ledgersPerYear =
          .ok updated ∧ index ≤ updated) ∧
      advanceDebtShareIndex index rateBps elapsedLedgers ledgersPerYear ≠
        .error (Fault.error .invalidInput) := by
  refine ⟨fun x h0 hx => ?_, fun x y v w h0 hxy hy hv hw => ?_, fun index rateBps el year h0 => ?_⟩
  · obtain ⟨n, rfl⟩ := Int.eq_ofNat_of_zero_le h0
    have hn : n ≤ maxCompoundExponent := by exact_mod_cast hx
    refine ⟨growthFactor n, expFixedPoint_eq hn, by exact_mod_cast indexScale_add_le n, ?_⟩
    simp only [Int.cast_natCast]
    exact (growthFactor_near hn).trans (by norm_num)
  · obtain ⟨m, rfl⟩ := Int.eq_ofNat_of_zero_le h0
    obtain ⟨n, rfl⟩ := Int.eq_ofNat_of_zero_le (h0.trans hxy)
    obtain ⟨_, rfl⟩ := expFixedPoint_eq_some.mp hv
    obtain ⟨_, rfl⟩ := expFixedPoint_eq_some.mp hw
    exact_mod_cast roundedExp_mono (by exact_mod_cast hxy) 65
  · obtain ⟨rate, rfl⟩ := Int.eq_ofNat_of_zero_le h0
    obtain ⟨rfl, hzero⟩ | ⟨hyear, hcases⟩ := advanceDebtShareIndex_cases index rate el year
    · refine ⟨fun _ => hzero, fun h => absurd h (lt_irrefl 0), ?_⟩
      rw [hzero]
      decide
    · refine ⟨fun h => by omega, fun _ => hcases, ?_⟩
      obtain herror | ⟨updated, hok, _⟩ := hcases
      · rw [herror]
        decide
      · rw [hok]
        exact nofun

/-- The exponential of one, a year of a full rate. -/
theorem exponential_correct_sample :
    (∃ v : ℤ, expFixedPoint 1000000000000000000 = some v ∧ 2000000000000000000 ≤ v) ∧
      advanceDebtShareIndex indexScale 10000 6307200 6307200 ≠
        .error (Fault.error .invalidInput) := by
  obtain ⟨v, hv, hle, _⟩ :=
    exponential_correct.1 1000000000000000000 (by decide) (by decide)
  have hsum : (indexScale : ℤ) + 1000000000000000000 = 2000000000000000000 := rfl
  exact ⟨⟨v, hv, by rwa [hsum] at hle⟩,
    (exponential_correct.2.2 indexScale 10000 6307200 6307200 (by decide)).2.2⟩

/-- With no ledgers in a year an advance neither overflows nor returns a value. -/
theorem advance_without_year :
    ¬ (advanceDebtShareIndex indexScale 500 1 0 = .error (Fault.error .mathOverflow) ∨
      ∃ updated, advanceDebtShareIndex indexScale 500 1 0 = .ok updated ∧
        indexScale ≤ updated) := by
  have hzero : advanceDebtShareIndex indexScale 500 1 0 =
      .error (Fault.error .divisionByZero) := rfl
  rw [hzero]
  rintro (h | ⟨_, h, _⟩) <;> cases h

end StellarFlow.Vaults.Interest
