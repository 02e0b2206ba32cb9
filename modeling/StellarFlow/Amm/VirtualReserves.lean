import StellarFlow.Amm.Invariant

/-!
# Virtual reserves

A pair quotes against effective balances, the real reserves plus a virtual buffer that is
never held and never paid out. A payout may use up the whole real reserve, while a
withdrawal has to leave the buffer's worth of it behind.
-/
namespace StellarFlow.Amm

open Foundation

inductive VirtualReserveError
  | negativeReserve
  | nonPositiveAmount
  | virtualFloorBreached
  | slippageExceeded
  | invariantViolation
  | overflow
  deriving DecidableEq, Repr

/-- The bits of a signed value read as an unsigned one. -/
def asU128 (x : ℤ) : ℕ := (x % 2 ^ 128).toNat

/-- Product of two values in two words. -/
def wideProduct (a b : ℤ) : U256 :=
  let a := asU128 a
  let b := asU128 b
  let aLo := a % 2 ^ 64
  let aHi := a / 2 ^ 64
  let bLo := b % 2 ^ 64
  let bHi := b / 2 ^ 64
  let pLl := aLo * bLo
  let pLh := aLo * bHi
  let pHl := aHi * bLo
  let pHh := aHi * bHi
  let mid := (pLh + pHl) % 2 ^ 128
  let carryMid := (pLh + pHl) / 2 ^ 128
  let lowCarry := (pLl / 2 ^ 64 + mid % 2 ^ 64) / 2 ^ 64
  let lo := (pLl + mid * 2 ^ 64 % 2 ^ 128) % 2 ^ 128
  let hi := (((pHh + mid / 2 ^ 64) % 2 ^ 128 + carryMid * 2 ^ 64 % 2 ^ 128) % 2 ^ 128 +
    lowCarry) % 2 ^ 128
  ⟨lo, hi⟩

def U256.ge (x y : U256) : Bool := if x.hi ≠ y.hi then y.hi < x.hi else y.lo ≤ x.lo

def div256ByU128 (value : U256) (divisor : ℕ) : Option ℕ :=
  if divisor = 0 ∨ divisor ≤ value.hi then none
  else some (U256.divLoop value.lo divisor 128 value.hi 0).1

/-- Floor of a product by a divisor, at double width. -/
def wideMulDiv (a b d : ℤ) : Except VirtualReserveError ℤ := do
  failIf (d ≤ 0) .nonPositiveAmount
  let quotient ← okOr (div256ByU128 (wideProduct a b) (asU128 d)) .overflow
  failIf (i128.hi < quotient) .overflow
  pure quotient

/-- Real, virtual and effective balances of a pair. -/
structure EffectiveReserves where
  x : ℤ
  xEff : ℤ
  vX : ℤ
  y : ℤ
  yEff : ℤ
  vY : ℤ
  deriving DecidableEq, Repr

namespace EffectiveReserves

def new (x y vX vY : ℤ) : Except VirtualReserveError EffectiveReserves := do
  failIf (x < 0 ∨ y < 0) .negativeReserve
  failIf (vX ≤ 0 ∨ vY ≤ 0) .nonPositiveAmount
  let xEff ← okOr (i128.check (x + vX)) .overflow
  let yEff ← okOr (i128.check (y + vY)) .overflow
  pure ⟨x, xEff, vX, y, yEff, vY⟩

def kEff (r : EffectiveReserves) : U256 := wideProduct r.xEff r.yEff

/-- Swap of token A into token B. The effective balances of the result are those before
the swap. -/
def swapAToB (r : EffectiveReserves) (amountIn : ℤ) :
    Except VirtualReserveError (EffectiveReserves × ℤ × U256) := do
  failIf (amountIn ≤ 0) .nonPositiveAmount
  let denominator ← okOr (i128.check (r.xEff + amountIn)) .overflow
  let amountOut ← wideMulDiv r.yEff amountIn denominator
  failIf (r.y < amountOut) .virtualFloorBreached
  let x ← okOr (i128.check (r.x + amountIn)) .overflow
  let y ← okOr (i128.check (r.y - amountOut)) .negativeReserve
  pure ({ r with x, y }, amountOut, r.kEff)

/-- Swap of token B into token A, with the same effective balances in the result. -/
def swapBToA (r : EffectiveReserves) (amountIn : ℤ) :
    Except VirtualReserveError (EffectiveReserves × ℤ × U256) := do
  failIf (amountIn ≤ 0) .nonPositiveAmount
  let denominator ← okOr (i128.check (r.yEff + amountIn)) .overflow
  let amountOut ← wideMulDiv r.xEff amountIn denominator
  failIf (r.x < amountOut) .virtualFloorBreached
  let x ← okOr (i128.check (r.x - amountOut)) .negativeReserve
  let y ← okOr (i128.check (r.y + amountIn)) .overflow
  pure ({ r with x, y }, amountOut, r.kEff)

end EffectiveReserves

def assertKEffNotDecreased (before after : U256) : Except VirtualReserveError Unit :=
  failIf (¬ after.ge before) .invariantViolation

/-- Shares for the first deposit, on the effective balances it starts. -/
def initialLpShares (xDeposit yDeposit vX vY : ℤ) : Except VirtualReserveError ℤ := do
  failIf (xDeposit ≤ 0 ∨ yDeposit ≤ 0) .nonPositiveAmount
  let x ← okOr (i128.check (xDeposit + vX)) .overflow
  let y ← okOr (i128.check (yDeposit + vY)) .overflow
  pure (min x y)

def withdrawable (reserve virtualReserve : ℤ) : ℤ :=
  if reserve ≤ virtualReserve then 0 else reserve - virtualReserve

def assertWithdrawalAllowed (reserve virtualReserve amount : ℤ) :
    Except VirtualReserveError ℤ := do
  failIf (amount ≤ 0) .nonPositiveAmount
  failIf (withdrawable reserve virtualReserve < amount) .virtualFloorBreached
  pure amount

def assertWithdrawalAllowedBothSides (reserves : EffectiveReserves) (amountX amountY : ℤ) :
    Except VirtualReserveError Unit := do
  let _ ← assertWithdrawalAllowed reserves.x reserves.vX amountX
  let _ ← assertWithdrawalAllowed reserves.y reserves.vY amountY
  pure ()

def assertMinAmountOut (amountOut minAmountOut : ℤ) : Except VirtualReserveError Unit :=
  failIf (amountOut < minAmountOut) .slippageExceeded

def validateVirtualReserves (x y vX vY : ℤ) : Except VirtualReserveError Unit := do
  failIf (x < 0 ∨ y < 0) .negativeReserve
  failIf (vX ≤ 0 ∨ vY ≤ 0) .nonPositiveAmount

section Products

theorem asU128_lt (x : ℤ) : asU128 x < 2 ^ 128 := by
  unfold asU128
  omega

theorem asU128_of_nonneg {x : ℤ} (h0 : 0 ≤ x) (h : i128.Fits x) : (asU128 x : ℤ) = x := by
  have hhi : x ≤ 2 ^ 127 - 1 := h.2
  unfold asU128
  omega

/-- Both ways to carry out of the low word agree. -/
theorem wide_words (p c₁ c₂ h : ℕ) :
    (((h + (c₁ + c₂) % 2 ^ 128 / 2 ^ 64) % 2 ^ 128 + (c₁ + c₂) / 2 ^ 128 * 2 ^ 64 % 2 ^ 128) %
        2 ^ 128 + (p / 2 ^ 64 + (c₁ + c₂) % 2 ^ 128 % 2 ^ 64) / 2 ^ 64) % 2 ^ 128 =
      ((h + ((c₂ + c₁) % 2 ^ 128 / 2 ^ 64 + (c₂ + c₁) / 2 ^ 128 * 2 ^ 64 % 2 ^ 128) % 2 ^ 128) %
        2 ^ 128 + (p + (c₂ + c₁) % 2 ^ 128 * 2 ^ 64 % 2 ^ 128) / 2 ^ 128) % 2 ^ 128 := by
  omega

theorem wideProduct_eq_mul (a b : ℤ) : wideProduct a b = U256.mul (asU128 a) (asU128 b) := by
  have ha : asU128 a / 2 ^ 64 % 2 ^ 64 = asU128 a / 2 ^ 64 := by
    have := asU128_lt a
    omega
  have hb : asU128 b / 2 ^ 64 % 2 ^ 64 = asU128 b / 2 ^ 64 := by
    have := asU128_lt b
    omega
  simp only [wideProduct, U256.mul, ha, hb, U256.mk.injEq]
  constructor
  · rw [add_comm (asU128 a % 2 ^ 64 * (asU128 b / 2 ^ 64))]
  · exact wide_words _ _ _ _

variable {a b d q : ℤ}

theorem wideProduct_lo_lt (a b : ℤ) : (wideProduct a b).lo < 2 ^ 128 := by
  rw [wideProduct_eq_mul]
  exact U256.mul_lo_lt _ _

/-- The two words of a wide product are the exact product. -/
theorem wideProduct_value (ha : 0 ≤ a) (hb : 0 ≤ b) (hfa : i128.Fits a) (hfb : i128.Fits b) :
    ((wideProduct a b).value : ℤ) = a * b := by
  rw [wideProduct_eq_mul, U256.mul_value, Nat.mod_eq_of_lt (asU128_lt a),
    Nat.mod_eq_of_lt (asU128_lt b), Nat.cast_mul, asU128_of_nonneg ha hfa, asU128_of_nonneg hb hfb]

theorem div256ByU128_eq_map (value : U256) (d : ℕ) :
    div256ByU128 value d = (value.divMod d).map Prod.fst := by
  unfold div256ByU128 U256.divMod
  by_cases hzero : d = 0
  · rw [if_pos (.inl hzero), if_pos hzero]
    rfl
  · by_cases hhi : d ≤ value.hi
    · rw [if_pos (.inr hhi), if_neg hzero, if_pos hhi]
      rfl
    · rw [if_neg (not_or.mpr ⟨hzero, hhi⟩), if_neg hzero, if_neg hhi]
      rfl

/-- For a divisor of a signed type no bit of the remainder is lost. -/
theorem div256ByU128_eq {value : U256} {d : ℕ} (hlo : value.lo < 2 ^ 128) (hd0 : 0 < d)
    (hd : d ≤ 2 ^ 127) : div256ByU128 value d =
      if value.value / d < 2 ^ 128 then some (value.value / d) else none := by
  rw [div256ByU128_eq_map]
  cases hdiv : value.divMod d with
  | none =>
    have hge := (U256.divMod_eq_none_iff hlo hd0).mp hdiv
    rw [if_neg hge.not_gt]
    rfl
  | some result =>
    obtain ⟨q, r⟩ := result
    have hfloor := U256.divMod_floor hlo hd hdiv
    rw [← hfloor, if_pos (U256.divMod_lt hlo hdiv)]
    rfl

/-- The floor where it is representable, and an overflow elsewhere. -/
theorem wideMulDiv_eq (ha : 0 ≤ a) (hb : 0 ≤ b) (hd : 0 < d) (hfa : i128.Fits a)
    (hfb : i128.Fits b) (hfd : i128.Fits d) : wideMulDiv a b d =
      if a * b / d ≤ i128.hi then .ok (a * b / d) else .error .overflow := by
  have hcast := asU128_of_nonneg hd.le hfd
  have hhi : d ≤ 2 ^ 127 - 1 := hfd.2
  have hquotient : (((wideProduct a b).value / asU128 d : ℕ) : ℤ) = a * b / d := by
    rw [Int.natCast_div, wideProduct_value ha hb hfa hfb, hcast]
  rw [wideMulDiv, failIf_of_not (not_le.mpr hd), ok_bind,
    div256ByU128_eq (wideProduct_lo_lt a b) (by omega) (by omega), ← hquotient]
  generalize (wideProduct a b).value / asU128 d = quotient
  by_cases hfits : (quotient : ℤ) ≤ i128.hi
  · have hle : (quotient : ℤ) ≤ 2 ^ 127 - 1 := hfits
    rw [if_pos (by omega), if_pos hfits, okOr_some, ok_bind, failIf_of_not (not_lt.mpr hfits)]
    rfl
  · rw [if_neg hfits]
    split_ifs with hword
    · rw [okOr_some, ok_bind, failIf, if_pos (not_le.mp hfits)]
      rfl
    · rfl

/-- The quotient is the floor. -/
theorem wideMulDiv_eq_ok (ha : 0 ≤ a) (hb : 0 ≤ b) (hfa : i128.Fits a) (hfb : i128.Fits b)
    (hfd : i128.Fits d) (h : wideMulDiv a b d = .ok q) : q = a * b / d := by
  have hd : 0 < d := by
    obtain ⟨_, hpos, _⟩ := bind_eq_ok.mp h
    exact not_le.mp (failIf_eq_ok.mp hpos)
  rw [wideMulDiv_eq ha hb hd hfa hfb hfd] at h
  split_ifs at h
  exact (Except.ok.inj h).symm

end Products

section Swaps

variable {r r' : EffectiveReserves} {x y vX vY n out : ℤ} {k : U256}

theorem EffectiveReserves.new_eq_ok (h : EffectiveReserves.new x y vX vY = .ok r) :
    0 ≤ x ∧ 0 ≤ y ∧ 0 < vX ∧ 0 < vY ∧ i128.Fits (x + vX) ∧ i128.Fits (y + vY) ∧
      r = ⟨x, x + vX, vX, y, y + vY, vY⟩ := by
  simp only [EffectiveReserves.new, bind_eq_ok, failIf_eq_ok, okOr_eq_ok, pure_eq_ok,
    IntRange.check_eq_some, not_or, not_lt, not_le] at h
  obtain ⟨_, ⟨hx, hy⟩, _, ⟨hvx, hvy⟩, _, ⟨hfx, rfl⟩, _, ⟨hfy, rfl⟩, rfl⟩ := h
  exact ⟨hx, hy, hvx, hvy, hfx, hfy, rfl⟩

/-- The output is the floor on the effective balances and at most the real reserve. -/
theorem swapAToB_eq_ok (hr : EffectiveReserves.new x y vX vY = .ok r)
    (h : r.swapAToB n = .ok (r', out, k)) :
    0 < n ∧ out = (y + vY) * n / (x + vX + n) ∧ out ≤ y ∧
      r' = { r with x := x + n, y := y - out } := by
  obtain ⟨hx, hy, hvx, hvy, hfx, hfy, rfl⟩ := EffectiveReserves.new_eq_ok hr
  simp only [EffectiveReserves.swapAToB, bind_eq_ok, failIf_eq_ok, okOr_eq_ok, pure_eq_ok,
    IntRange.check_eq_some, Prod.mk.injEq, not_le, not_lt] at h
  obtain ⟨_, hn, _, ⟨hfd, rfl⟩, _, hout, _, hle, _, ⟨_, rfl⟩, _, ⟨_, rfl⟩, rfl, rfl, _⟩ := h
  have hfn : i128.Fits n := hfd.of_abs_le hn.le (by linarith)
  exact ⟨hn, wideMulDiv_eq_ok (by linarith) hn.le hfy hfn hfd hout, hle, rfl⟩

theorem swapBToA_eq_ok (hr : EffectiveReserves.new x y vX vY = .ok r)
    (h : r.swapBToA n = .ok (r', out, k)) :
    0 < n ∧ out = (x + vX) * n / (y + vY + n) ∧ out ≤ x ∧
      r' = { r with x := x - out, y := y + n } := by
  obtain ⟨hx, hy, hvx, hvy, hfx, hfy, rfl⟩ := EffectiveReserves.new_eq_ok hr
  simp only [EffectiveReserves.swapBToA, bind_eq_ok, failIf_eq_ok, okOr_eq_ok, pure_eq_ok,
    IntRange.check_eq_some, Prod.mk.injEq, not_le, not_lt] at h
  obtain ⟨_, hn, _, ⟨hfd, rfl⟩, _, hout, _, hle, _, ⟨_, rfl⟩, _, ⟨_, rfl⟩, rfl, rfl, _⟩ := h
  have hfn : i128.Fits n := hfd.of_abs_le hn.le (by linarith)
  exact ⟨hn, wideMulDiv_eq_ok (by linarith) hn.le hfx hfn hfd hout, hle, rfl⟩

end Swaps

section Withdrawals

variable {reserve virtualReserve amount : ℤ}

/-- What an admitted withdrawal leaves is at least the buffer. -/
theorem assertWithdrawalAllowed_eq_ok {x : ℤ}
    (h : assertWithdrawalAllowed reserve virtualReserve amount = .ok x) :
    0 < amount ∧ virtualReserve ≤ reserve - amount := by
  simp only [assertWithdrawalAllowed, bind_eq_ok, failIf_eq_ok, not_le, not_lt] at h
  obtain ⟨_, hpos, _, hle, _⟩ := h
  unfold withdrawable at hle
  split_ifs at hle <;> omega

end Withdrawals

end StellarFlow.Amm
