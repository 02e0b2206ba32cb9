import StellarFlow.Amm.Invariant

/-!
# Settlement pools and their providers

A pool holds two reserves, a fee pool and the number of units issued to providers.
Fees are recorded by the protocol admin. A provider adds both assets for a number of units
of its choice, deposits one asset that is half swapped into the other, or burns units for
its part of the pool.
-/
namespace StellarFlow.Settlement

open Foundation Amm

structure LiquidityPool where
  asset : AssetId
  reserveA : ℕ
  reserveB : ℕ
  feePool : ℕ
  totalLpUnits : ℕ
  deriving DecidableEq, Repr

structure LiquidityPosition where
  provider : Address
  asset : AssetId
  lpUnits : ℕ
  deriving DecidableEq, Repr

structure RedemptionResult where
  asset : AssetId
  provider : Address
  burnedLpUnits : ℕ
  withdrawnAssetA : ℕ
  withdrawnAssetB : ℕ
  claimedFees : ℕ
  deriving DecidableEq, Repr

/-- Storage of the pools and positions, with the protocol admin once initialised. -/
structure LpLedger where
  admin : Option Address
  pools : Store AssetId LiquidityPool
  positions : Store (AssetId × Address) LiquidityPosition

namespace LpLedger

def empty (admin : Option Address) : LpLedger := ⟨admin, ∅, ∅⟩

def loadPool (l : LpLedger) (asset : AssetId) : LiquidityPool :=
  (l.pools.lookup asset).getD ⟨asset, 0, 0, 0, 0⟩

def savePool (l : LpLedger) (pool : LiquidityPool) : LpLedger :=
  { l with pools := l.pools.insert pool.asset pool }

/-- Add units to the position of a provider, which starts empty. -/
def creditPosition (l : LpLedger) (asset : AssetId) (provider : Address) (lpUnits : ℕ) :
    Except Fault (LiquidityPosition × LpLedger) := do
  let position := (l.positions.lookup (asset, provider)).getD ⟨provider, asset, 0⟩
  let units ← okOr (checkBits 64 (position.lpUnits + lpUnits)) (Fault.error .mathOverflow)
  let position := { position with lpUnits := units }
  pure (position, { l with positions := l.positions.insert (asset, provider) position })

end LpLedger

variable {here : Address} (env : Env here)

def requireProtocolAdmin (l : LpLedger) (caller : Address) : Except Fault Unit := do
  let admin ← okOr l.admin (Fault.error .notInitialized)
  failIf (admin ≠ caller) (Fault.error .notAdmin)
  env.requireAuth caller

def recordFee (admin : Address) (asset : AssetId) (feeAmount : ℕ) (l : LpLedger) :
    Except Fault (LiquidityPool × LpLedger) := do
  requireProtocolAdmin env l admin
  let pool := l.loadPool asset
  let feePool ← okOr (checkBits 64 (pool.feePool + feeAmount)) (Fault.error .mathOverflow)
  let pool := { pool with feePool := feePool }
  pure (pool, l.savePool pool)

def addLiquidity (provider : Address) (asset : AssetId) (reserveA reserveB lpUnits : ℕ)
    (l : LpLedger) : Except Fault (LiquidityPosition × LpLedger) := do
  env.requireAuth provider
  failIf (reserveA = 0 ∨ reserveB = 0 ∨ lpUnits = 0) (Fault.error .invalidStakeAmount)
  let pool := l.loadPool asset
  let newA ← okOr (checkBits 128 (pool.reserveA + reserveA)) (Fault.error .mathOverflow)
  let newB ← okOr (checkBits 128 (pool.reserveB + reserveB)) (Fault.error .mathOverflow)
  let total ← okOr (checkBits 64 (pool.totalLpUnits + lpUnits)) (Fault.error .mathOverflow)
  let (position, l) ← l.creditPosition asset provider lpUnits
  pure (position, l.savePool
    { pool with reserveA := newA, reserveB := newB, totalLpUnits := total })

/-- The values of the two assets, in the order A, B, from the ones of the input and the
output asset. -/
def ordered (isAssetA : Bool) (input output : ℕ) : ℕ × ℕ :=
  if isAssetA then (input, output) else (output, input)

/-- The reserves after the swap of the input asset, in the order A, B. -/
def swapReserves (isAssetA : Bool) (reserveIn reserveOut swapAmount swapOut : ℕ) :
    Except Fault (ℕ × ℕ) := do
  let newIn ← okOr (checkBits 128 (reserveIn + swapAmount)) (Fault.error .mathOverflow)
  let newOut ← okOr (checkedSub reserveOut swapOut) (Fault.error .mathOverflow)
  pure (ordered isAssetA newIn newOut)

/-- Deposit a single asset: swap half of it, then mint shares for both parts. -/
def depositSingleAsset (quoteFee : AssetId → ℕ → Except Fault ℕ) (provider : Address)
    (asset : AssetId) (amountIn : ℕ) (isAssetA : Bool) (l : LpLedger) :
    Except Fault ((LiquidityPosition × ℕ × ℕ) × LpLedger) := do
  env.requireAuth provider
  failIf (amountIn = 0) (Fault.error .invalidStakeAmount)
  let pool := l.loadPool asset
  failIf (pool.totalLpUnits = 0) (Fault.error .insufficientLiquidityDepth)
  let swapAmount := amountIn / 2
  let depositAmount := amountIn - swapAmount
  let reserveIn := (ordered isAssetA pool.reserveA pool.reserveB).1
  let reserveOut := (ordered isAssetA pool.reserveA pool.reserveB).2
  let (swapOut, fee) ← computeSwapOut (quoteFee asset) swapAmount reserveIn reserveOut
  let feePool ← okOr (checkBits 64 (pool.feePool + fee % 2 ^ 64)) (Fault.error .mathOverflow)
  let deposit := ordered isAssetA depositAmount swapOut
  let (newA, newB) ← swapReserves isAssetA reserveIn reserveOut swapAmount swapOut
  let lpShares ← computeLpShares deposit.1 deposit.2 newA newB pool.totalLpUnits
  let actualA ← mulDiv lpShares newA pool.totalLpUnits
  let actualB ← mulDiv lpShares newB pool.totalLpUnits
  let reserveA ← okOr (checkBits 128 (newA + actualA)) (Fault.error .mathOverflow)
  let reserveB ← okOr (checkBits 128 (newB + actualB)) (Fault.error .mathOverflow)
  let total ← okOr (checkBits 64 (pool.totalLpUnits + lpShares % 2 ^ 64))
    (Fault.error .mathOverflow)
  let (position, l) ← l.creditPosition asset provider (lpShares % 2 ^ 64)
  pure ((position, deposit.1 - actualA, deposit.2 - actualB),
    l.savePool ⟨pool.asset, reserveA, reserveB, feePool, total⟩)

/-- Pro-rata part of an amount, with the product checked. -/
def proRata (amount units totalUnits : ℕ) : Except Fault ℕ := do
  let product ← okOr (checkBits 128 (amount * units)) (Fault.error .mathOverflow)
  pure (product / totalUnits)

/-- Burn units for the provider's part of the reserves and fees. -/
def redeemLiquidity (provider : Address) (asset : AssetId) (lpUnits : ℕ) (l : LpLedger) :
    Except Fault (RedemptionResult × LpLedger) := do
  env.requireAuth provider
  failIf (lpUnits = 0) (Fault.error .invalidStakeAmount)
  let pool := l.loadPool asset
  failIf (pool.totalLpUnits = 0) (Fault.error .insufficientLiquidityDepth)
  let position ← okOr (l.positions.lookup (asset, provider))
    (Fault.error .insufficientLiquidityDepth)
  failIf (position.lpUnits < lpUnits) (Fault.error .insufficientLiquidityDepth)
  let withdrawnA ← proRata pool.reserveA lpUnits pool.totalLpUnits
  let withdrawnB ← proRata pool.reserveB lpUnits pool.totalLpUnits
  let fees ← proRata pool.feePool lpUnits pool.totalLpUnits
  let claimedFees ← okOr (checkBits 64 fees) (Fault.error .mathOverflow)
  let reserveA ← okOr (checkedSub pool.reserveA withdrawnA) (Fault.error .mathOverflow)
  let reserveB ← okOr (checkedSub pool.reserveB withdrawnB) (Fault.error .mathOverflow)
  let feePool ← okOr (checkedSub pool.feePool claimedFees) (Fault.error .mathOverflow)
  let total ← okOr (checkedSub pool.totalLpUnits lpUnits) (Fault.error .mathOverflow)
  let left := position.lpUnits - lpUnits
  let positions := if left = 0 then l.positions.erase (asset, provider)
    else l.positions.insert (asset, provider) { position with lpUnits := left }
  pure (⟨asset, provider, lpUnits, withdrawnA, withdrawnB, claimedFees⟩,
    LpLedger.savePool { l with positions := positions }
      ⟨pool.asset, reserveA, reserveB, feePool, total⟩)

inductive LpCall
  | recordFee (admin : Address) (asset : AssetId) (feeAmount : ℕ)
  | addLiquidity (provider : Address) (asset : AssetId) (reserveA reserveB lpUnits : ℕ)
  | depositSingleAsset (provider : Address) (asset : AssetId) (amountIn : ℕ) (isAssetA : Bool)
  | redeemLiquidity (provider : Address) (asset : AssetId) (lpUnits : ℕ)

/-- A call with its environment and the fee rates quoted during it. -/
structure LpStep (here : Address) where
  env : Env here
  quoteFee : AssetId → ℕ → Except Fault ℕ
  call : LpCall

def lpStep (i : LpStep here) (l : LpLedger) : Except Fault LpLedger :=
  match i.call with
  | .recordFee admin asset fee => Prod.snd <$> recordFee i.env admin asset fee l
  | .addLiquidity provider asset a b units =>
    Prod.snd <$> addLiquidity i.env provider asset a b units l
  | .depositSingleAsset provider asset amount isAssetA =>
    Prod.snd <$> depositSingleAsset i.env i.quoteFee provider asset amount isAssetA l
  | .redeemLiquidity provider asset units =>
    Prod.snd <$> redeemLiquidity i.env provider asset units l

end StellarFlow.Settlement
