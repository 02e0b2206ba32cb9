import StellarFlow.Amm.ConstantProduct
import StellarFlow.Settlement.Dilution

/-!
# The books of a single-asset deposit

The swap inside a deposit pays out less its fee, so the fee stays in the reserve of the output
asset. The deposit then adds the same fee to the fee pool. Everything else moves between the
provider and the reserves, so the fee is what the books are off by.
-/
namespace StellarFlow.Settlement

open Foundation Amm

namespace LiquidityPool

/-- Reserve of the asset that is deposited. -/
def reserveIn (pool : LiquidityPool) (isAssetA : Bool) : ℕ :=
  (ordered isAssetA pool.reserveA pool.reserveB).1

/-- Reserve of the asset that it is half swapped into. -/
def reserveOut (pool : LiquidityPool) (isAssetA : Bool) : ℕ :=
  (ordered isAssetA pool.reserveA pool.reserveB).2

end LiquidityPool

/-- What is deposited goes to the reserve or comes back. -/
def InputBalanced (pool pool' : LiquidityPool) (isAssetA : Bool) (amountIn : ℕ)
    (dust : ℕ × ℕ) : Prop :=
  ((pool'.reserveIn isAssetA : ℤ) - pool.reserveIn isAssetA) +
    (ordered isAssetA dust.1 dust.2).1 = amountIn

/-- What changes on the output asset: its reserve, the dust and the fee pool. -/
def outputChange (pool pool' : LiquidityPool) (isAssetA : Bool) (dust : ℕ × ℕ) : ℤ :=
  ((pool'.reserveOut isAssetA : ℤ) - pool.reserveOut isAssetA) +
    (ordered isAssetA dust.1 dust.2).2 + ((pool'.feePool : ℤ) - pool.feePool)

/-- No unit is lost or credited twice. -/
structure Conserved (pool pool' : LiquidityPool) (isAssetA : Bool) (amountIn : ℕ)
    (dust : ℕ × ℕ) : Prop where
  input : InputBalanced pool pool' isAssetA amountIn dust
  output : outputChange pool pool' isAssetA dust = 0

/-- Fee on the swap of half of the amount, as the fee pool receives it. -/
def swapFee (quoteFee : AssetId → ℕ → Except Fault ℕ) (asset : AssetId) (amountIn : ℕ)
    (isAssetA : Bool) (pool : LiquidityPool) : Except Fault ℕ := do
  let feeBps ← quoteFee asset (amountIn / 2 % 2 ^ 64)
  let rawOutput ← mulDiv (pool.reserveOut isAssetA) (amountIn / 2)
    (pool.reserveIn isAssetA + amountIn / 2)
  pure (rawOutput * feeBps / 10000 % 2 ^ 64)

section Books

variable {quoteFee : AssetId → ℕ → Except Fault ℕ} {here : Address} {env : Env here}
  {l l' : LpLedger} {asset : AssetId} {provider : Address} {position : LiquidityPosition}
  {amountIn : ℕ} {isAssetA : Bool} {dust : ℕ × ℕ}

/-- The fee of a swap is the part of the raw output that is not paid out. -/
theorem computeSwapOut_fee {x reserveIn reserveOut out fee : ℕ}
    (h : computeSwapOut (quoteFee asset) x reserveIn reserveOut = .ok (out, fee)) :
    ∃ feeBps rawOutput, quoteFee asset (x % 2 ^ 64) = .ok feeBps ∧
      mulDiv reserveOut x (reserveIn + x) = .ok rawOutput ∧ fee = rawOutput * feeBps / 10000 := by
  simp only [computeSwapOut, calculateAndDeductFee, bind_eq_ok, okOr_eq_ok, checkBits_eq_some,
    checkedSub_eq_some, pure_eq_ok, Prod.mk.injEq] at h
  obtain ⟨_, _, feeBps, hquote, _, ⟨_, rfl⟩, rawOutput, hraw, _, ⟨_, rfl⟩, _, _, _, rfl⟩ := h
  exact ⟨feeBps, rawOutput, hquote, hraw, rfl⟩

/-- The part of a deposit that the minted shares are worth does not exceed it. -/
theorem taken_le {shares amount reserve total taken : ℕ} (htotal : 0 < total)
    (hshares : shares * reserve ≤ amount * total) (h : mulDiv shares reserve total = .ok taken) :
    taken ≤ amount :=
  Nat.le_of_mul_le_mul_right ((mulDiv_mul_le h).trans hshares) htotal

theorem loadPool_savePool {pool : LiquidityPool} (h : pool.asset = asset) :
    (l.savePool pool).loadPool asset = pool := by
  rw [LpLedger.loadPool, LpLedger.savePool, h, Finmap.lookup_insert, Option.getD_some]

/-- What a successful deposit does to the pool, in terms of the input and the output asset. -/
structure SingleDeposited (pool pool' : LiquidityPool) (isAssetA : Bool) (amountIn : ℕ)
    (dust : ℕ × ℕ) (swapOut fee takenIn takenOut : ℕ) : Prop where
  takenIn_le : takenIn ≤ amountIn - amountIn / 2
  takenOut_le : takenOut ≤ swapOut
  swapOut_le : swapOut ≤ pool.reserveOut isAssetA
  reserveIn_eq : pool'.reserveIn isAssetA = pool.reserveIn isAssetA + amountIn / 2 + takenIn
  reserveOut_eq : pool'.reserveOut isAssetA = pool.reserveOut isAssetA - swapOut + takenOut
  feePool_eq : pool'.feePool = pool.feePool + fee % 2 ^ 64
  dustIn_eq : (ordered isAssetA dust.1 dust.2).1 = amountIn - amountIn / 2 - takenIn
  dustOut_eq : (ordered isAssetA dust.1 dust.2).2 = swapOut - takenOut

theorem depositSingleAsset_eq_ok (hasset : (l.loadPool asset).asset = asset)
    (h : depositSingleAsset env quoteFee provider asset amountIn isAssetA l =
      .ok ((position, dust), l')) :
    ∃ swapOut fee takenIn takenOut,
      computeSwapOut (quoteFee asset) (amountIn / 2) ((l.loadPool asset).reserveIn isAssetA)
        ((l.loadPool asset).reserveOut isAssetA) = .ok (swapOut, fee) ∧
      SingleDeposited (l.loadPool asset) (l'.loadPool asset) isAssetA amountIn dust swapOut fee
        takenIn takenOut := by
  simp only [depositSingleAsset, bind_eq_ok, failIf_eq_ok, okOr_eq_ok, checkBits_eq_some,
    pure_eq_ok, Prod.exists, Prod.mk.injEq] at h
  obtain ⟨_, _, _, _, _, htotal, swapOut, fee, hswap, _, ⟨_, rfl⟩, newA, newB, hreserves,
    shares, hshares, actualA, hactualA, actualB, hactualB, _, ⟨_, rfl⟩, _, ⟨_, rfl⟩, _, ⟨_, rfl⟩,
    _, l₁, _, ⟨_, rfl⟩, rfl⟩ := h
  have hpos : 0 < (l.loadPool asset).totalLpUnits := Nat.pos_of_ne_zero htotal
  obtain ⟨hA, hB⟩ := computeLpShares_eq_ok hshares
  have htakenA := taken_le hpos hA hactualA
  have htakenB := taken_le hpos hB hactualB
  simp only [swapReserves, bind_eq_ok, okOr_eq_ok, checkBits_eq_some, checkedSub_eq_some,
    pure_eq_ok] at hreserves
  obtain ⟨_, ⟨_, rfl⟩, _, ⟨hpaid, rfl⟩, hnew⟩ := hreserves
  rw [loadPool_savePool (by exact hasset)]
  cases isAssetA with
  | true =>
    obtain ⟨rfl, rfl⟩ := Prod.mk.inj hnew
    exact ⟨swapOut, fee, actualA, actualB, hswap, htakenA, htakenB, hpaid, rfl, rfl, rfl, rfl, rfl⟩
  | false =>
    obtain ⟨rfl, rfl⟩ := Prod.mk.inj hnew
    exact ⟨swapOut, fee, actualB, actualA, hswap, htakenB, htakenA, hpaid, rfl, rfl, rfl, rfl, rfl⟩

/-- The fee is left in the reserve and added to the fee pool. -/
theorem SingleDeposited.books {pool pool' : LiquidityPool} {swapOut fee takenIn takenOut : ℕ}
    (h : SingleDeposited pool pool' isAssetA amountIn dust swapOut fee takenIn takenOut) :
    InputBalanced pool pool' isAssetA amountIn dust ∧
      outputChange pool pool' isAssetA dust = (fee % 2 ^ 64 : ℕ) := by
  obtain ⟨hin, hout, hpaid, hreserveIn, hreserveOut, hfeePool, hdustIn, hdustOut⟩ := h
  unfold InputBalanced outputChange
  constructor
  · omega
  · omega

/-- The books of a deposit balance exactly when the fee pool receives nothing for the swap. -/
theorem depositSingleAsset_conserved_iff (hasset : (l.loadPool asset).asset = asset)
    (h : depositSingleAsset env quoteFee provider asset amountIn isAssetA l =
      .ok ((position, dust), l')) :
    Conserved (l.loadPool asset) (l'.loadPool asset) isAssetA amountIn dust ↔
      swapFee quoteFee asset amountIn isAssetA (l.loadPool asset) = .ok 0 := by
  obtain ⟨swapOut, fee, takenIn, takenOut, hswap, hdeposited⟩ := depositSingleAsset_eq_ok hasset h
  obtain ⟨hinput, houtput⟩ := hdeposited.books
  obtain ⟨feeBps, rawOutput, hquote, hraw, rfl⟩ := computeSwapOut_fee hswap
  have hfee : swapFee quoteFee asset amountIn isAssetA (l.loadPool asset) =
      .ok (rawOutput * feeBps / 10000 % 2 ^ 64) := by
    rw [swapFee, hquote, ok_bind, hraw, ok_bind]
    rfl
  rw [hfee, Except.ok.injEq]
  constructor
  · intro hconserved
    have hzero := hconserved.output
    omega
  · intro hzero
    refine ⟨hinput, ?_⟩
    omega

end Books

/-- A pool of two equal reserves with as many units. -/
def equalPool (reserve : ℕ) : LpLedger :=
  runAll lpStep (.empty none) [lpCall (.addLiquidity ⟨2⟩ 7 reserve reserve reserve)]

/-- A deposit of as much of asset A as the pool holds, at a rate of 30 basis points. -/
def doublingDeposit (reserve : ℕ) : Except Fault ((LiquidityPosition × ℕ × ℕ) × LpLedger) :=
  depositSingleAsset (.standard ⟨0⟩ 0 none) (fun _ _ => .ok 30) ⟨1⟩ 7 reserve true
    (equalPool reserve)

theorem doublingDeposit_ok {reserve : ℕ} {dust : ℕ × ℕ} {pool : LiquidityPool}
    (h : (fun r => (r.1.2, r.2.loadPool 7)) <$> doublingDeposit reserve = .ok (dust, pool)) :
    ∃ position l', doublingDeposit reserve = .ok ((position, dust), l') ∧
      l'.loadPool 7 = pool := by
  cases hdeposit : doublingDeposit reserve with
  | error e =>
    rw [hdeposit] at h
    cases h
  | ok r =>
    obtain ⟨⟨position, dust'⟩, l'⟩ := r
    rw [hdeposit] at h
    obtain ⟨rfl, rfl⟩ := Prod.mk.inj (Except.ok.inj h)
    exact ⟨position, l', rfl, rfl⟩

/-- The fee on a small swap rounds to nothing. -/
theorem depositSingleAsset_conserved_small : ∃ position l',
    doublingDeposit 1000 = .ok ((position, 1, 111), l') ∧
      ((equalPool 1000).loadPool 7).asset = 7 ∧
      Conserved ((equalPool 1000).loadPool 7) (l'.loadPool 7) true 1000 (1, 111) := by
  have hrun : (fun r => (r.1.2, r.2.loadPool 7)) <$> doublingDeposit 1000 =
      .ok ((1, 111), ⟨7, 1999, 889, 0, 1333⟩) := by
    decide +kernel
  obtain ⟨position, l', hdeposit, _⟩ := doublingDeposit_ok hrun
  have hasset : ((equalPool 1000).loadPool 7).asset = 7 := by decide +kernel
  exact ⟨position, l', hdeposit, hasset,
    (depositSingleAsset_conserved_iff hasset hdeposit).mpr (by decide +kernel)⟩

/-- The fee of nine units stays in the reserve and is in the fee pool as well. -/
theorem depositSingleAsset_credits_twice : ∃ position l',
    doublingDeposit 10000 = .ok ((position, 1, 1099), l') ∧
      (equalPool 10000).loadPool 7 = ⟨7, 10000, 10000, 0, 10000⟩ ∧
      l'.loadPool 7 = ⟨7, 19999, 8901, 9, 13333⟩ ∧
      ¬ Conserved ((equalPool 10000).loadPool 7) (l'.loadPool 7) true 10000 (1, 1099) := by
  have hrun : (fun r => (r.1.2, r.2.loadPool 7)) <$> doublingDeposit 10000 =
      .ok ((1, 1099), ⟨7, 19999, 8901, 9, 13333⟩) := by
    decide +kernel
  have hpool : (equalPool 10000).loadPool 7 = ⟨7, 10000, 10000, 0, 10000⟩ := by decide +kernel
  obtain ⟨position, l', hdeposit, hafter⟩ := doublingDeposit_ok hrun
  refine ⟨position, l', hdeposit, hpool, hafter, fun h => ?_⟩
  have hzero := h.output
  rw [hpool, hafter] at hzero
  revert hzero
  decide

end StellarFlow.Settlement
