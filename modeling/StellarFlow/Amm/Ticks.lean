import StellarFlow.Host

/-!
# Concentrated liquidity ticks

A pool keeps its metadata, one record per tick and the sorted list of initialised
ticks under three separate keys. Liquidity is placed at one tick at a time by a
signed delta that moves the gross liquidity of the tick, its net liquidity and, for
a tick at or below the current one, the active liquidity of the pool.
-/
namespace StellarFlow.Amm

open Foundation

def maxTickIndex : ℤ := 887220
def minTickIndex : ℤ := -887220
def maxTicksPerPool : ℕ := 256

/-- Metadata of a pool's tick index. -/
structure TickIndexMeta where
  asset : AssetId
  tickSpacing : ℤ
  currentTick : ℤ
  activeLiquidity : ℕ
  tickCount : ℕ
  /-- Fee growth per unit of liquidity, scaled by `feeGrowthScale`. -/
  feeGrowthGlobal : ℕ
  deriving DecidableEq, Repr

/-- Liquidity record of one tick. -/
structure TickData where
  liquidityNet : ℤ
  liquidityGross : ℕ
  feeGrowthOutside : ℕ
  deriving DecidableEq, Repr

/-- Persistent storage of the tick indices of all pools. -/
structure Pools where
  index : Store AssetId TickIndexMeta
  data : Store (AssetId × ℤ) TickData
  lists : Store AssetId (List ℤ)

namespace Pools

def empty : Pools := ⟨∅, ∅, ∅⟩

def getTickIndex (p : Pools) (asset : AssetId) : Except Fault TickIndexMeta :=
  okOr (p.index.lookup asset) (Fault.error .tickIndexNotFound)

/-- A tick that was never written reads as zero. -/
def getTickData (p : Pools) (asset : AssetId) (tick : ℤ) : TickData :=
  (p.data.lookup (asset, tick)).getD ⟨0, 0, 0⟩

def getTickList (p : Pools) (asset : AssetId) : List ℤ := (p.lists.lookup asset).getD []

end Pools

/-- Create an empty tick index. -/
def initializeTickIndex (asset : AssetId) (tickSpacing : ℤ) (p : Pools) :
    Except Fault (TickIndexMeta × Pools) := do
  failIf (tickSpacing ≤ 0) (Fault.error .invalidTickSpacing)
  failIf ((p.index.lookup asset).isSome = true) (Fault.error .tickIndexAlreadyExists)
  let pool : TickIndexMeta := ⟨asset, tickSpacing, 0, 0, 0, 0⟩
  pure (pool, { p with index := p.index.insert asset pool, lists := p.lists.insert asset [] })

/-- The search loop with its bounds `lo` and `hi`. -/
def binarySearchLoop (list : List ℤ) (target : ℤ) (lo hi : ℕ) : ℕ :=
  if lo < hi then
    let mid := lo + (hi - lo) / 2
    match list[mid]? with
    | some val =>
      if val = target then mid
      else if val < target then binarySearchLoop list target (mid + 1) hi
      else binarySearchLoop list target lo mid
    | none => binarySearchLoop list target lo mid
  else lo
termination_by hi - lo
decreasing_by all_goals omega

/-- Position of the target in the list, or where it would be inserted. -/
def binarySearchTick (list : List ℤ) (target : ℤ) : ℕ :=
  binarySearchLoop list target 0 list.length

def insertTickSorted (list : List ℤ) (tick : ℤ) : Except Fault (List ℤ) := do
  failIf (maxTicksPerPool ≤ list.length) (Fault.error .tooManyTicks)
  let pos := binarySearchTick list tick
  if list[pos]? = some tick then pure list
  else pure (list.insertIdx pos tick)

def removeTickSorted (list : List ℤ) (tick : ℤ) : List ℤ :=
  let pos := binarySearchTick list tick
  if list[pos]? = some tick then list.eraseIdx pos else list

/-- Move an unsigned accumulator by a signed delta. Negating the delta panics for the
least value of its type. -/
def applyDelta (amount : ℕ) (liquidityDelta : ℤ) : Except Fault ℕ :=
  if 0 < liquidityDelta then
    okOr (checkBits 64 (amount + liquidityDelta.toNat)) (Fault.error .overflow)
  else if liquidityDelta < 0 then do
    let delta ← okOr (i64.check (-liquidityDelta)) Fault.trap
    okOr (checkedSub amount delta.toNat) (Fault.error .overflow)
  else pure amount

/-- The active liquidity moves only for a tick at or below the current one. -/
def updateActive (pool : TickIndexMeta) (tick liquidityDelta : ℤ) : Except Fault ℕ :=
  if tick ≤ pool.currentTick then applyDelta pool.activeLiquidity liquidityDelta
  else pure pool.activeLiquidity

/-- Keep the list and the counter of initialised ticks. The gross liquidity is the one
after the update. -/
def updateTickList (p : Pools) (asset : AssetId) (pool : TickIndexMeta) (tick : ℤ)
    (gross : ℕ) (liquidityDelta : ℤ) : Except Fault (Store AssetId (List ℤ) × ℕ) :=
  let wasEmpty := gross = 0 ∧ 0 < liquidityDelta
  let isEmpty := gross = 0 ∧ liquidityDelta < 0
  let list := p.getTickList asset
  if wasEmpty then do
    let list ← insertTickSorted list tick
    let tickCount ← okOr (checkBits 32 (pool.tickCount + 1)) (Fault.error .overflow)
    pure (p.lists.insert asset list, tickCount)
  else if isEmpty then
    pure (p.lists.insert asset (removeTickSorted list tick), pool.tickCount - 1)
  else pure (p.lists, pool.tickCount)

/-- Place or remove liquidity at one tick. -/
def placeLiquidity (asset : AssetId) (tick liquidityDelta : ℤ) (p : Pools) :
    Except Fault (TickData × Pools) := do
  let pool ← p.getTickIndex asset
  failIf (tick.tmod pool.tickSpacing ≠ 0) (Fault.error .tickNotAligned)
  failIf (tick < minTickIndex ∨ maxTickIndex < tick) (Fault.error .tickOutOfBounds)
  let tickData := p.getTickData asset tick
  let gross ← applyDelta tickData.liquidityGross liquidityDelta
  let active ← updateActive pool tick liquidityDelta
  let net ← okOr (i64.check (tickData.liquidityNet + liquidityDelta)) (Fault.error .overflow)
  let (lists, tickCount) ← updateTickList p asset pool tick gross liquidityDelta
  let tickData := { tickData with liquidityNet := net, liquidityGross := gross }
  let pool := { pool with activeLiquidity := active, tickCount := tickCount }
  pure (tickData, ⟨p.index.insert asset pool, p.data.insert (asset, tick) tickData, lists⟩)

/-! ## Fee growth -/

def feeGrowthScale : ℕ := 10 ^ 14

/-- Difference of two fee growth snapshots, modulo the width of the accumulator. -/
def wrappingSub (x y : ℕ) : ℕ := (x + 2 ^ 128 - y) % 2 ^ 128

/-- Write the record of a tick on its first reference. -/
def ensureTickInitialized (asset : AssetId) (tick : ℤ) (p : Pools) : Except Fault Pools :=
  if (p.data.lookup (asset, tick)).isSome then pure p
  else do
    let pool ← p.getTickIndex asset
    let feeGrowthOutside := if tick ≤ pool.currentTick then pool.feeGrowthGlobal else 0
    pure { p with data := p.data.insert (asset, tick) ⟨0, 0, feeGrowthOutside⟩ }

/-- Fee growth inside a range: the global growth less what lies below and above. -/
def getFeeGrowthInside (asset : AssetId) (tickLower tickUpper : ℤ) (p : Pools) :
    Except Fault ℕ := do
  let pool ← p.getTickIndex asset
  let lower := p.getTickData asset tickLower
  let upper := p.getTickData asset tickUpper
  let feeGrowthBelow := if tickLower ≤ pool.currentTick then lower.feeGrowthOutside
    else wrappingSub pool.feeGrowthGlobal lower.feeGrowthOutside
  let feeGrowthAbove := if pool.currentTick < tickUpper then upper.feeGrowthOutside
    else wrappingSub pool.feeGrowthGlobal upper.feeGrowthOutside
  pure (wrappingSub (wrappingSub pool.feeGrowthGlobal feeGrowthBelow) feeGrowthAbove)

end StellarFlow.Amm
