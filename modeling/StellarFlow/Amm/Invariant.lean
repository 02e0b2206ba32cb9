import StellarFlow.Host
import StellarFlow.Foundation.LongDivision

/-!
# Constant product arithmetic

Products of two 128-bit values are formed in two words and divided by a shift and
subtract loop. The shift drops the top bit of the remainder, so the quotient is never too
large, and it is the exact floor for divisors of at most half the range.
-/
namespace StellarFlow.Amm

open Foundation

/-- A 256-bit value in two words, low word first. -/
structure U256 where
  lo : ℕ
  hi : ℕ
  deriving DecidableEq, Repr

namespace U256

def value (x : U256) : ℕ := x.hi * 2 ^ 128 + x.lo

/-- The full product, from the four products of 64-bit halves. -/
def mul (a b : ℕ) : U256 :=
  let aLo := a % 2 ^ 64
  let aHi := a / 2 ^ 64 % 2 ^ 64
  let bLo := b % 2 ^ 64
  let bHi := b / 2 ^ 64 % 2 ^ 64
  let pLoLo := aLo * bLo
  let cross1 := aHi * bLo
  let cross2 := aLo * bHi
  let pHiHi := aHi * bHi
  let mid := (cross1 + cross2) % 2 ^ 128
  let carryMid := (cross1 + cross2) / 2 ^ 128
  let midLo := mid * 2 ^ 64 % 2 ^ 128
  let midHi := (mid / 2 ^ 64 + carryMid * 2 ^ 64 % 2 ^ 128) % 2 ^ 128
  let resultLo := (pLoLo + midLo) % 2 ^ 128
  let carryLo := (pLoLo + midLo) / 2 ^ 128
  let resultHi := ((pHiHi + midHi) % 2 ^ 128 + carryLo) % 2 ^ 128
  ⟨resultLo, resultHi⟩

/-- The division loop with `i` bits of the low word left. -/
def divLoop (lo d : ℕ) : ℕ → ℕ → ℕ → ℕ × ℕ
  | 0, r, q => (q, r)
  | i + 1, r, q =>
    let r := r * 2 % 2 ^ 128 ||| lo / 2 ^ i % 2
    if d ≤ r then divLoop lo d i (r - d) (q ||| 2 ^ i) else divLoop lo d i r q

/-- Quotient and remainder, unless the divisor is zero or the quotient too large. -/
def divMod (x : U256) (divisor : ℕ) : Option (ℕ × ℕ) :=
  if divisor = 0 then none
  else if divisor ≤ x.hi then none
  else some (divLoop x.lo divisor 128 x.hi 0)

/-- The words of a product of halves carry exactly the product. -/
theorem mul_words {p c₁ c₂ h : ℕ} (hp : p ≤ (2 ^ 64 - 1) ^ 2) (h₁ : c₁ ≤ (2 ^ 64 - 1) ^ 2)
    (h₂ : c₂ ≤ (2 ^ 64 - 1) ^ 2) (hh : h * 2 ^ 128 + (c₁ + c₂) * 2 ^ 64 + p < 2 ^ 256) :
    ((h + ((c₁ + c₂) % 2 ^ 128 / 2 ^ 64 + (c₁ + c₂) / 2 ^ 128 * 2 ^ 64 % 2 ^ 128) % 2 ^ 128) %
          2 ^ 128 + (p + (c₁ + c₂) % 2 ^ 128 * 2 ^ 64 % 2 ^ 128) / 2 ^ 128) % 2 ^ 128 * 2 ^ 128 +
        (p + (c₁ + c₂) % 2 ^ 128 * 2 ^ 64 % 2 ^ 128) % 2 ^ 128 =
      h * 2 ^ 128 + (c₁ + c₂) * 2 ^ 64 + p := by
  omega

theorem mul_value (a b : ℕ) : (mul a b).value = a % 2 ^ 128 * (b % 2 ^ 128) := by
  have hlt : ∀ x y : ℕ, x < 2 ^ 64 → y < 2 ^ 64 → x * y ≤ (2 ^ 64 - 1) ^ 2 := by
    intro x y hx hy
    rw [pow_two]
    exact Nat.mul_le_mul (by omega) (by omega)
  have ha : a % 2 ^ 128 = a / 2 ^ 64 % 2 ^ 64 * 2 ^ 64 + a % 2 ^ 64 := by omega
  have hb : b % 2 ^ 128 = b / 2 ^ 64 % 2 ^ 64 * 2 ^ 64 + b % 2 ^ 64 := by omega
  have hab : a % 2 ^ 128 * (b % 2 ^ 128) < 2 ^ 256 := by
    rw [show 2 ^ 256 = 2 ^ 128 * 2 ^ 128 by norm_num]
    exact Nat.mul_lt_mul'' (Nat.mod_lt _ (by norm_num)) (Nat.mod_lt _ (by norm_num))
  have hsum : a / 2 ^ 64 % 2 ^ 64 * (b / 2 ^ 64 % 2 ^ 64) * 2 ^ 128 +
      (a / 2 ^ 64 % 2 ^ 64 * (b % 2 ^ 64) + a % 2 ^ 64 * (b / 2 ^ 64 % 2 ^ 64)) * 2 ^ 64 +
      a % 2 ^ 64 * (b % 2 ^ 64) = a % 2 ^ 128 * (b % 2 ^ 128) := by
    rw [ha, hb]
    ring
  rw [← hsum] at hab ⊢
  exact mul_words (hlt _ _ (Nat.mod_lt _ (by norm_num)) (Nat.mod_lt _ (by norm_num)))
    (hlt _ _ (Nat.mod_lt _ (by norm_num)) (Nat.mod_lt _ (by norm_num)))
    (hlt _ _ (Nat.mod_lt _ (by norm_num)) (Nat.mod_lt _ (by norm_num))) hab

theorem mul_lo_lt (a b : ℕ) : (mul a b).lo < 2 ^ 128 := Nat.mod_lt _ (by norm_num)

section Division

variable {d : ℕ}

theorem set_bit_eq {q i : ℕ} (h : 2 ^ (i + 1) ∣ q) : q ||| 2 ^ i = q + 2 ^ i := by
  obtain ⟨k, rfl⟩ := h
  rw [← Nat.two_pow_add_eq_or_of_lt (Nat.pow_lt_pow_right (by norm_num) (Nat.lt_succ_self i))]

theorem dvd_set_bit {q i : ℕ} (h : 2 ^ (i + 1) ∣ q) : 2 ^ i ∣ q + 2 ^ i :=
  Nat.dvd_add ((pow_dvd_pow 2 (Nat.le_succ i)).trans h) dvd_rfl

/-- The bits that the loop joins never overlap, so joining them is addition. -/
theorem divLoop_eq_loop (lo d i r q : ℕ) (hq : 2 ^ i ∣ q) :
    divLoop lo d i r q = LongDivision.loop 128 lo d i r q := by
  induction i generalizing r q with
  | zero => rfl
  | succ i ih =>
    have hshift : r * 2 % 2 ^ 128 ||| lo / 2 ^ i % 2 = LongDivision.shifted 128 lo i r := by
      have hbit : lo / 2 ^ i % 2 < 2 ^ 1 := Nat.mod_lt _ (by norm_num)
      have heven : r * 2 % 2 ^ 128 = 2 ^ 1 * (r % 2 ^ 127) := by omega
      rw [LongDivision.shifted, heven, ← Nat.two_pow_add_eq_or_of_lt hbit]
    rw [divLoop, LongDivision.loop, hshift]
    split_ifs
    · rw [set_bit_eq hq]
      exact ih _ _ (dvd_set_bit hq)
    · exact ih _ _ ((pow_dvd_pow 2 (Nat.le_succ i)).trans hq)

variable {x : U256} {q r : ℕ}

theorem value_div (hlo : x.lo < 2 ^ 128) : x.value / 2 ^ 128 = x.hi := by
  unfold value
  omega

/-- The loop starts from the high word, which is what the scan of the high bits leaves. -/
theorem divMod_eq_loop (hlo : x.lo < 2 ^ 128) (hhi : x.hi < d) :
    x.divMod d = some (LongDivision.loop 128 x.value d 128 (x.value / 2 ^ 128 % d)
      (x.value / 2 ^ 128 / d * 2 ^ 128)) := by
  rw [value_div hlo, Nat.mod_eq_of_lt hhi, Nat.div_eq_of_lt hhi, zero_mul, divMod,
    if_neg (by omega), if_neg hhi.not_ge, divLoop_eq_loop _ _ _ _ _ (Nat.dvd_zero _), value,
    add_comm, LongDivision.loop_add_mul]

theorem divMod_eq_none_iff (hlo : x.lo < 2 ^ 128) (hd : 0 < d) :
    x.divMod d = none ↔ 2 ^ 128 ≤ x.value / d := by
  rw [Nat.le_div_iff_mul_le hd, value, divMod, if_neg hd.ne']
  split_ifs with h
  · simp only [true_iff]
    nlinarith
  · simp only [false_iff, not_le]
    nlinarith

theorem hi_lt_of_divMod (h : x.divMod d = some (q, r)) : x.hi < d := by
  unfold divMod at h
  split_ifs at h with h0 hle
  exact not_le.mp hle

theorem divMod_le (hlo : x.lo < 2 ^ 128) (h : x.divMod d = some (q, r)) :
    q * d ≤ x.value := by
  have hhi := hi_lt_of_divMod h
  rw [divMod, if_neg (by omega), if_neg hhi.not_ge, divLoop_eq_loop _ _ _ _ _ (Nat.dvd_zero _)]
    at h
  have hle := LongDivision.loop_le (w := 128) (n := x.lo) (d := d) 128 x.hi 0
  rw [Option.some.inj h, Nat.mod_eq_of_lt hlo] at hle
  simp only [zero_mul, zero_add] at hle
  unfold value
  omega

theorem divMod_lt (hlo : x.lo < 2 ^ 128) (h : x.divMod d = some (q, r)) : q < 2 ^ 128 := by
  have hle := divMod_le hlo h
  have hhi := hi_lt_of_divMod h
  by_contra hq
  push Not at hq
  have hmul : 2 ^ 128 * d ≤ q * d := Nat.mul_le_mul_right _ hq
  unfold value at hle
  omega

/-- The quotient is right exactly when the loop drops no bit of a remainder. -/
theorem divMod_eq_iff (hlo : x.lo < 2 ^ 128) (hd : d ≤ 2 ^ 128)
    (h : x.divMod d = some (q, r)) :
    q = x.value / d ↔ LongDivision.NothingDropped 128 x.value d 128 := by
  have hhi := hi_lt_of_divMod h
  rw [divMod_eq_loop hlo hhi] at h
  rw [← LongDivision.loop_fst_eq_iff (Nat.zero_lt_of_lt hhi) hd, Option.some.inj h]

theorem divMod_floor (hlo : x.lo < 2 ^ 128) (hd : d ≤ 2 ^ 127) (h : x.divMod d = some (q, r)) :
    q = x.value / d :=
  (divMod_eq_iff hlo (by omega) h).mpr
    (LongDivision.nothingDropped_of_le (Nat.zero_lt_of_lt (hi_lt_of_divMod h)) (by omega) _)

end Division

end U256

/-- Multiply and divide through the full product. -/
def mulDiv (numerator denominator divisor : ℕ) : Except Fault ℕ := do
  failIf (divisor = 0) (Fault.error .divisionByZero)
  let (quot, _) ← okOr ((U256.mul numerator denominator).divMod divisor) (Fault.error .overflow)
  pure quot

section MulDiv

variable {a b d q : ℕ}

theorem mulDiv_divMod (h : mulDiv a b d = .ok q) :
    ∃ r, (U256.mul a b).divMod d = some (q, r) := by
  simp only [mulDiv, bind_eq_ok, failIf_eq_ok, okOr_eq_ok, pure_eq_ok] at h
  obtain ⟨_, _, ⟨q', r⟩, hdiv, rfl⟩ := h
  exact ⟨r, hdiv⟩

/-- The quotient never exceeds the exact one. -/
theorem mulDiv_mul_le (h : mulDiv a b d = .ok q) : q * d ≤ a * b := by
  obtain ⟨r, h⟩ := mulDiv_divMod h
  have hle := U256.divMod_le (U256.mul_lo_lt a b) h
  rw [U256.mul_value] at hle
  exact hle.trans (Nat.mul_le_mul (Nat.mod_le _ _) (Nat.mod_le _ _))

theorem mulDiv_lt (h : mulDiv a b d = .ok q) : q < 2 ^ 128 := by
  obtain ⟨r, h⟩ := mulDiv_divMod h
  exact U256.divMod_lt (U256.mul_lo_lt a b) h

/-- For 128-bit factors and a divisor of at most half the range the quotient is the floor. -/
theorem mulDiv_floor (ha : a < 2 ^ 128) (hb : b < 2 ^ 128) (hd : d ≤ 2 ^ 127)
    (h : mulDiv a b d = .ok q) : q = a * b / d := by
  obtain ⟨r, h⟩ := mulDiv_divMod h
  have hfloor := U256.divMod_floor (U256.mul_lo_lt a b) hd h
  rwa [U256.mul_value, Nat.mod_eq_of_lt ha, Nat.mod_eq_of_lt hb] at hfloor

end MulDiv

/-- Deduct a fee in basis points from an amount. -/
def calculateAndDeductFee (amount feeBps : ℕ) : Except Fault (ℕ × ℕ) := do
  let product ← okOr (checkBits 128 (amount * feeBps)) (Fault.error .overflow)
  let feeAmount := product / 10000
  let amountAfterFees ← okOr (checkedSub amount feeAmount) (Fault.error .mathOverflow)
  pure (amountAfterFees, feeAmount)

/-- Output of a constant product swap and its fee. The fee rate is quoted for the traded
volume, narrowed to 64 bits. -/
def computeSwapOut (quoteFee : ℕ → Except Fault ℕ) (amountIn reserveIn reserveOut : ℕ) :
    Except Fault (ℕ × ℕ) := do
  failIf (amountIn = 0 ∨ reserveIn = 0 ∨ reserveOut = 0) (Fault.error .invalidInput)
  let feeBps ← quoteFee (amountIn % 2 ^ 64)
  let denominator ← okOr (checkBits 128 (reserveIn + amountIn)) (Fault.error .overflow)
  let rawOutput ← mulDiv reserveOut amountIn denominator
  calculateAndDeductFee rawOutput feeBps

/-- Shares to mint for a deposit: the smaller of the two proportional amounts. -/
def computeLpShares (amountA amountB reserveA reserveB totalShares : ℕ) : Except Fault ℕ := do
  failIf (amountA = 0 ∨ amountB = 0 ∨ totalShares = 0) (Fault.error .invalidInput)
  failIf (reserveA = 0 ∨ reserveB = 0) (Fault.error .invalidInput)
  let sharesA ← mulDiv amountA totalShares reserveA
  let sharesB ← mulDiv amountB totalShares reserveB
  pure (min sharesA sharesB)

/-- Amounts returned for burnt shares. -/
def computeRemoveLiquidity (shares totalShares reserveA reserveB : ℕ) :
    Except Fault (ℕ × ℕ) := do
  failIf (shares = 0 ∨ totalShares = 0) (Fault.error .invalidInput)
  failIf (totalShares < shares) (Fault.error .invalidInput)
  let amountA ← mulDiv shares reserveA totalShares
  let amountB ← mulDiv shares reserveB totalShares
  pure (amountA, amountB)

/-- The product of the reserves must not decrease; the two words are compared in turn. -/
def assertInvariantStable (reserveInBefore reserveOutBefore amountIn amountOut : ℕ) :
    Except Fault Unit := do
  let kBefore := U256.mul reserveInBefore reserveOutBefore
  let reserveInAfter ← okOr (checkBits 128 (reserveInBefore + amountIn)) (Fault.error .overflow)
  let reserveOutAfter ← okOr (checkedSub reserveOutBefore amountOut) (Fault.error .overflow)
  let kAfter := U256.mul reserveInAfter reserveOutAfter
  failIf (kAfter.hi < kBefore.hi ∨ kAfter.hi = kBefore.hi ∧ kAfter.lo < kBefore.lo)
    (Fault.error .invariantViolation)

/-- A swap gives out no more than keeps the product of the reserves. -/
theorem computeSwapOut_mul_le {quoteFee : ℕ → Except Fault ℕ} {x reserveIn reserveOut out fee : ℕ}
    (h : computeSwapOut quoteFee x reserveIn reserveOut = .ok (out, fee)) :
    out * (reserveIn + x) ≤ reserveOut * x := by
  simp only [computeSwapOut, calculateAndDeductFee, bind_eq_ok, okOr_eq_ok, checkBits_eq_some,
    checkedSub_eq_some, pure_eq_ok, Prod.mk.injEq] at h
  obtain ⟨_, _, feeBps, _, den, ⟨_, rfl⟩, raw, hraw, _, _, _, ⟨_, rfl⟩, rfl, _⟩ := h
  exact (Nat.mul_le_mul_right _ (Nat.sub_le _ _)).trans (mulDiv_mul_le hraw)

theorem computeLpShares_lt {a b ra rb t shares : ℕ}
    (h : computeLpShares a b ra rb t = .ok shares) : shares < 2 ^ 128 := by
  simp only [computeLpShares, bind_eq_ok, pure_eq_ok] at h
  obtain ⟨_, _, _, _, sharesA, ha, sharesB, _, rfl⟩ := h
  exact (min_le_left _ _).trans_lt (mulDiv_lt ha)

end StellarFlow.Amm
