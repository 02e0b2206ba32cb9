import StellarFlow.Amm.Traversal
import StellarFlow.LpPool.Growth

/-!
# The two integer square roots

The tick module and the liquidity pool take roots of signed 128-bit values by the same loop.
Here every sum and division of it is a checked one, so that a result also says that nothing
overflowed on the way. Only the first sum can overflow, at the greatest value of the type.
-/
namespace StellarFlow.SquareRoots

open Foundation

/-- The loop of both functions from a positive value, with `y` as the second guess. -/
def newtonLoop (val y : ℤ) : Except Fault ℤ := do
  let root ← okOr (Heron.checkedLoop (2 ^ 127 - 1) val.toNat val.toNat y.toNat) .trap
  pure root

/-- The root of the tick module. -/
def integerSqrt (val : ℤ) : Except Fault ℤ := do
  failIf (val < 0) (Fault.error .overflow)
  if val = 0 then pure 0
  else do
    let sum ← okOr (i128.check (val + 1)) .trap
    newtonLoop val (sum / 2)

/-- The root of the liquidity pool. -/
def isqrt (value : ℤ) : Except Fault ℤ :=
  if value < 2 then pure (max value 0)
  else do
    let sum ← okOr (i128.check (value + 1)) .trap
    newtonLoop value (sum / 2)

section Loop

variable {v : ℕ}

theorem newtonLoop_eq_sqrt (hpos : 0 < v) (hmax : v < 2 ^ 127 - 1) :
    newtonLoop v (((v : ℤ) + 1) / 2) = .ok ((Nat.sqrt v : ℕ) : ℤ) := by
  have hroot : Heron.checkedLoop (2 ^ 127 - 1) v v (Heron.next v v) = some (Nat.sqrt v) :=
    Heron.checkedLoop_eq_sqrt hmax hpos hpos le_rfl (by nlinarith)
  rw [newtonLoop, Heron.half_succ_eq_next hpos, Int.toNat_natCast, hroot]
  rfl

theorem check_succ (hmax : v < 2 ^ 127 - 1) : i128.check ((v : ℤ) + 1) = some ((v : ℤ) + 1) := by
  exact_mod_cast check_natCast (show v + 1 < 2 ^ 127 by omega)

theorem integerSqrt_eq_sqrt (hmax : v < 2 ^ 127 - 1) :
    integerSqrt v = .ok ((Nat.sqrt v : ℕ) : ℤ) := by
  rw [integerSqrt, failIf_of_not (by omega), ok_bind]
  split_ifs with hzero
  · rw [Int.natCast_eq_zero.mp hzero]
    rfl
  · rw [check_succ hmax, okOr_some, ok_bind, newtonLoop_eq_sqrt (by omega) hmax]

theorem isqrt_eq_sqrt (hmax : v < 2 ^ 127 - 1) : isqrt v = .ok ((Nat.sqrt v : ℕ) : ℤ) := by
  rw [isqrt]
  split_ifs with hsmall
  · have hle : v ≤ 1 := by omega
    interval_cases v <;> rfl
  · rw [check_succ hmax, okOr_some, ok_bind, newtonLoop_eq_sqrt (by omega) hmax]

end Loop

/-- Below the greatest value of the type both loops terminate without an overflow, with the
floor of the root. -/
theorem roots_are_floors (v : i128.Value) (h0 : 0 ≤ v.1) (hmax : v.1 < 2 ^ 127 - 1) :
    ∃ r : ℤ, integerSqrt v = .ok r ∧ isqrt v = .ok r ∧ 0 ≤ r ∧ r * r ≤ v.1 ∧
      v.1 < (r + 1) * (r + 1) := by
  obtain ⟨v, _⟩ := v
  dsimp only at h0 hmax ⊢
  lift v to ℕ using h0
  have hlt : v < 2 ^ 127 - 1 := by omega
  refine ⟨Nat.sqrt v, integerSqrt_eq_sqrt hlt, isqrt_eq_sqrt hlt, Int.natCast_nonneg _, ?_, ?_⟩
  · exact_mod_cast Nat.sqrt_le v
  · exact_mod_cast Nat.lt_succ_sqrt v

/-- The root of 99 in both modules. -/
theorem roots_are_floors_sample : ∃ r : ℤ, integerSqrt 99 = .ok r ∧ isqrt 99 = .ok r ∧ 0 ≤ r ∧
    r * r ≤ 99 ∧ 99 < (r + 1) * (r + 1) :=
  roots_are_floors ⟨99, by decide⟩ (by decide) (by norm_num)

section Models

theorem lt_of_check_succ {v : ℕ} {sum : ℤ} (h : i128.check ((v : ℤ) + 1) = some sum) :
    v < 2 ^ 127 - 1 ∧ sum = v + 1 := by
  obtain ⟨hfits, rfl⟩ := IntRange.check_eq_some.mp h
  have hlt : v + 1 < 2 ^ 127 := fits_natCast_iff.mp (by exact_mod_cast hfits)
  exact ⟨by omega, rfl⟩

/-- The root that the swaps across ticks take is the checked one. -/
theorem amm_integerSqrt_eq (val : ℤ) : Amm.integerSqrt val = integerSqrt val := by
  rw [Amm.integerSqrt, integerSqrt]
  refine bind_congr_ok fun _ hsign => ?_
  split_ifs with hzero
  · rfl
  · refine bind_congr_ok fun sum hsum => ?_
    have hneg : ¬ val < 0 := failIf_eq_ok.mp hsign
    lift val to ℕ using not_lt.mp hneg
    obtain ⟨hmax, rfl⟩ := lt_of_check_succ (okOr_eq_ok.mp hsum)
    have hpos : 0 < val := by omega
    have hhalf : ((val : ℤ) + 1).toNat / 2 = Heron.next val val := by
      rw [← Heron.half_succ_eq_next hpos]
      omega
    rw [newtonLoop_eq_sqrt hpos hmax, hhalf, Int.toNat_natCast,
      Heron.loop_self_eq_sqrt hpos]
    rfl

/-- The root that the first deposit takes is the checked one. -/
theorem lpPool_isqrt_eq (value : ℤ) : LpPool.isqrt value = hostCall (isqrt value) := by
  rw [LpPool.isqrt, isqrt]
  split_ifs with hsmall
  · rfl
  · lift value to ℕ using (by omega)
    cases hsum : i128.check ((value : ℤ) + 1) with
    | none =>
      rw [arith, hsum]
      rfl
    | some sum =>
      obtain ⟨hmax, rfl⟩ := lt_of_check_succ hsum
      have hpos : 0 < value := by omega
      rw [arith, hsum, okOr_some, ok_bind, okOr_some, ok_bind, newtonLoop_eq_sqrt hpos hmax,
        LpPool.isqrtLoop_eq, Heron.half_succ_eq_next hpos, Int.toNat_natCast,
        Heron.loop_self_eq_sqrt hpos]
      rfl

end Models

end StellarFlow.SquareRoots
