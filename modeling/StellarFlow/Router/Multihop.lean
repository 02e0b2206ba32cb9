import StellarFlow.Fees.DynamicFee

/-!
# Routes over corridor pools

A route swaps through a sequence of pools, each hop taking the output of the hop before. A hop is
priced against the variable pool of its input asset and adds its fee there, but what it pays out
is never taken off, so the next hop is priced against the same liquidity again.
-/
namespace StellarFlow.Router

open Foundation
open Fees (FeeEnv)

def maxRouteHops : ℕ := 8
def minTransferAmount : ℕ := 10000
def feeBps : ℕ := 30
def feeDenominator : ℕ := 10000

structure HopStep where
  assetIn : AssetId
  assetOut : AssetId
  amountIn : ℕ
  minAmountOut : ℕ
  deriving DecidableEq

structure HopResult where
  hopIndex : ℕ
  amountOut : ℕ
  feeCollected : ℕ
  deriving DecidableEq

structure RouteResult where
  finalAmountOut : ℕ
  hopResults : List HopResult
  totalFees : ℕ
  deriving DecidableEq

/-- What a route carries from hop to hop. -/
structure RouteComputationState where
  runningAmount : ℕ
  totalFees : ℕ
  hopResults : List HopResult

structure CorridorFeePool where
  asset : AssetId
  collected : ℕ
  variablePool : ℕ
  deriving DecidableEq

def CorridorFeePool.new (asset : AssetId) : CorridorFeePool := ⟨asset, 0, 0⟩

/-- The corridor pools, with the flag against re-entry. -/
structure RouterStore where
  pools : Store AssetId CorridorFeePool
  reentrancyLock : Bool

namespace RouterStore

def getCorridorFeePool (asset : AssetId) (s : RouterStore) : CorridorFeePool :=
  (s.pools.lookup asset).getD (.new asset)

def savePool (asset : AssetId) (pool : CorridorFeePool) (s : RouterStore) : RouterStore :=
  { s with pools := s.pools.insert asset pool }

@[simp] theorem getCorridorFeePool_savePool (asset : AssetId) (pool : CorridorFeePool)
    (s : RouterStore) : (s.savePool asset pool).getCorridorFeePool asset = pool := by
  rw [getCorridorFeePool, savePool, Finmap.lookup_insert, Option.getD_some]

theorem getCorridorFeePool_savePool_of_ne {asset other : AssetId} (pool : CorridorFeePool)
    (s : RouterStore) (h : other ≠ asset) :
    (s.savePool asset pool).getCorridorFeePool other = s.getCorridorFeePool other := by
  rw [getCorridorFeePool, savePool, Finmap.lookup_insert_of_ne _ h, getCorridorFeePool]

end RouterStore

def checkMinTransfer (amount : ℕ) : Except Fault Unit :=
  failIf (amount < minTransferAmount) (Fault.error .amountTooLow)

/-- The loop over the hops, with the hop before. -/
def validateSteps (s : RouterStore) : Option HopStep → List HopStep → Except Fault Unit
  | _, [] => pure ()
  | prev, step :: steps => do
    failIf (step.amountIn = 0) (Fault.error .zeroSwapAmount)
    failIf (∃ before ∈ prev, before.assetOut ≠ step.assetIn)
      (Fault.error .inconsistentRouteAssets)
    failIf ((s.getCorridorFeePool step.assetIn).asset ≠ step.assetIn)
      (Fault.error .poolNotFound)
    validateSteps s (some step) steps

def validateRoute (steps : List HopStep) (s : RouterStore) : Except Fault Unit := do
  failIf (steps.length = 0) (Fault.error .emptyRoute)
  failIf (maxRouteHops < steps.length) (Fault.error .routeTooLong)
  validateSteps s none steps

def executeSingleHop (step : HopStep) (amountIn hopIndex : ℕ) (s : RouterStore) :
    Except Fault (HopResult × RouterStore) := do
  failIf (amountIn = 0) (Fault.error .zeroSwapAmount)
  checkMinTransfer amountIn
  let pool := s.getCorridorFeePool step.assetIn
  failIf (pool.asset ≠ step.assetIn) (Fault.error .poolNotFound)
  let effectiveLiquidity ← okOr (checkBits 128 (pool.collected + amountIn))
    (Fault.error .overflow)
  failIf (effectiveLiquidity = 0) (Fault.error .insufficientLiquidityDepth)
  let numerator ← okOr (checkBits 128 (amountIn * pool.variablePool)) (Fault.error .overflow)
  let rawOut := numerator / effectiveLiquidity
  let amountOut := min rawOut (2 ^ 64 - 1)
  let scaledFee ← okOr (checkBits 128 (amountOut * feeBps)) (Fault.error .overflow)
  let feeCollected := scaledFee / feeDenominator
  let netOut ← okOr (checkedSub amountOut feeCollected) (Fault.error .overflow)
  let collected ← okOr (checkBits 64 (pool.collected + amountIn)) (Fault.error .overflow)
  let variablePool ← okOr (checkBits 64 (pool.variablePool + feeCollected))
    (Fault.error .overflow)
  pure (⟨hopIndex, netOut, feeCollected⟩,
    s.savePool step.assetIn { pool with collected, variablePool })

/-- The loop over the hops. The first hop takes its own amount, the others the output of the hop
before. -/
def executeHops : List HopStep → ℕ → RouteComputationState → RouterStore →
    Except Fault (RouteComputationState × RouterStore)
  | [], _, state, s => pure (state, s)
  | step :: steps, hopIndex, state, s => do
    let amountIn := if hopIndex = 0 then step.amountIn else state.runningAmount
    let (hopResult, s) ← executeSingleHop step amountIn hopIndex s
    failIf (hopResult.amountOut < step.minAmountOut) (Fault.error .slippageExceeded)
    let totalFees ← okOr (checkBits 64 (state.totalFees + hopResult.feeCollected))
      (Fault.error .overflow)
    executeHops steps (hopIndex + 1)
      ⟨hopResult.amountOut, totalFees, state.hopResults ++ [hopResult]⟩ s

def executeRoute (steps : List HopStep) (s : RouterStore) :
    Except Fault (RouteResult × RouterStore) := do
  failIf (s.reentrancyLock = true) (Fault.error .reentrancyDetected)
  let s := { s with reentrancyLock := true }
  validateRoute steps s
  let (state, s) ← executeHops steps 0 ⟨0, 0, []⟩ s
  let finalStep ← okOr steps.getLast? (Fault.error .routeExecutionFailed)
  failIf (state.runningAmount < finalStep.minAmountOut) (Fault.error .slippageExceeded)
  pure (⟨state.runningAmount, state.hopResults, state.totalFees⟩,
    { s with reentrancyLock := false })

section Calls

variable {here : Address} (env : FeeEnv here)

def addCorridorFees (admin : Address) (asset : AssetId) (collected variableFee : ℕ)
    (s : RouterStore) : Except Fault (CorridorFeePool × RouterStore) := do
  env.requireAuth admin
  checkMinTransfer collected
  let stored ← okOr env.admin (Fault.error .notInitialized)
  failIf (stored ≠ admin) (Fault.error .notAdmin)
  let pool := s.getCorridorFeePool asset
  let collected ← okOr (checkBits 64 (pool.collected + collected)) (Fault.error .mathOverflow)
  let variablePool ← okOr (checkBits 64 (pool.variablePool + variableFee))
    (Fault.error .mathOverflow)
  let pool := { pool with collected, variablePool }
  pure (pool, s.savePool asset pool)

end Calls

/-! ## What a hop is priced at -/

/-- The output of a hop with the fee. -/
def grossOutput (pool : CorridorFeePool) (amountIn : ℕ) : ℕ :=
  min (amountIn * pool.variablePool / (pool.collected + amountIn)) (2 ^ 64 - 1)

def hopFee (pool : CorridorFeePool) (amountIn : ℕ) : ℕ :=
  grossOutput pool amountIn * feeBps / feeDenominator

theorem grossOutput_le (pool : CorridorFeePool) (amountIn : ℕ) :
    grossOutput pool amountIn ≤ pool.variablePool := by
  refine (min_le_left _ _).trans (Nat.div_le_of_le_mul ?_)
  exact Nat.mul_le_mul_right _ (Nat.le_add_left _ _)

section Hops

variable {step : HopStep} {steps : List HopStep} {amountIn hopIndex : ℕ} {s s' : RouterStore}
  {r : HopResult} {asset : AssetId} {state state' : RouteComputationState}

theorem executeSingleHop_eq_ok (h : executeSingleHop step amountIn hopIndex s = .ok (r, s')) :
    r.feeCollected = hopFee (s.getCorridorFeePool step.assetIn) amountIn ∧
      r.amountOut + r.feeCollected = grossOutput (s.getCorridorFeePool step.assetIn) amountIn ∧
      ∀ asset, (s'.getCorridorFeePool asset).variablePool =
        (s.getCorridorFeePool asset).variablePool +
          if step.assetIn = asset then r.feeCollected else 0 := by
  rw [executeSingleHop] at h
  obtain ⟨_, -, h⟩ := bind_eq_ok.mp h
  obtain ⟨_, -, h⟩ := bind_eq_ok.mp h
  obtain ⟨_, -, h⟩ := bind_eq_ok.mp h
  obtain ⟨effective, heffective, h⟩ := bind_eq_ok.mp h
  obtain ⟨_, -, h⟩ := bind_eq_ok.mp h
  obtain ⟨numerator, hnumerator, h⟩ := bind_eq_ok.mp h
  obtain ⟨scaled, hscaled, h⟩ := bind_eq_ok.mp h
  obtain ⟨net, hnet, h⟩ := bind_eq_ok.mp h
  obtain ⟨collected, -, h⟩ := bind_eq_ok.mp h
  obtain ⟨variablePool, hvariable, hwrite⟩ := bind_eq_ok.mp h
  obtain ⟨-, rfl⟩ := checkBits_eq_some.mp (okOr_eq_ok.mp heffective)
  obtain ⟨-, rfl⟩ := checkBits_eq_some.mp (okOr_eq_ok.mp hnumerator)
  obtain ⟨-, rfl⟩ := checkBits_eq_some.mp (okOr_eq_ok.mp hscaled)
  obtain ⟨hle, rfl⟩ := checkedSub_eq_some.mp (okOr_eq_ok.mp hnet)
  obtain ⟨-, rfl⟩ := checkBits_eq_some.mp (okOr_eq_ok.mp hvariable)
  obtain ⟨rfl, rfl⟩ := Prod.mk.inj (pure_eq_ok.mp hwrite)
  refine ⟨rfl, Nat.sub_add_cancel hle, fun asset => ?_⟩
  by_cases hasset : asset = step.assetIn
  · rw [hasset, RouterStore.getCorridorFeePool_savePool, if_pos rfl]
  · rw [RouterStore.getCorridorFeePool_savePool_of_ne _ _ hasset, if_neg (Ne.symm hasset),
      add_zero]

/-! ## What a route draws -/

/-- The outputs with their fees that the hops of a route priced against a pool. -/
def drawnFrom (asset : AssetId) : List HopStep → List HopResult → ℕ
  | step :: steps, r :: results =>
    (if step.assetIn = asset then r.amountOut + r.feeCollected else 0) +
      drawnFrom asset steps results
  | _, _ => 0

/-- The fees that the hops of a route added to a pool. -/
def feesTo (asset : AssetId) : List HopStep → List HopResult → ℕ
  | step :: steps, r :: results =>
    (if step.assetIn = asset then r.feeCollected else 0) + feesTo asset steps results
  | _, _ => 0

theorem feesTo_le_drawnFrom (asset : AssetId) (steps : List HopStep)
    (results : List HopResult) : feesTo asset steps results ≤ drawnFrom asset steps results := by
  induction steps generalizing results with
  | nil => exact le_rfl
  | cons step steps ih =>
    cases results with
    | nil => exact le_rfl
    | cons r results =>
      have hrest := ih results
      rw [feesTo, drawnFrom]
      split_ifs <;> omega

/-- What was drawn from the pools before a hop, and the draw of the hop. -/
def drawnAfter (drawn : AssetId → ℕ) (step : HopStep) (r : HopResult) : AssetId → ℕ :=
  fun asset => drawn asset + if step.assetIn = asset then r.amountOut + r.feeCollected else 0

/-- The output of the hop without the fee is at most what the pool has not paid out yet. -/
def HopFits (drawn : ℕ) (pool : CorridorFeePool) (amountIn : ℕ) : Prop :=
  grossOutput pool amountIn - hopFee pool amountIn + drawn ≤ pool.variablePool

/-- Every hop fits in the state before it. -/
def HopsFit : List HopStep → ℕ → ℕ → (AssetId → ℕ) → RouterStore → Prop
  | [], _, _, _, _ => True
  | step :: steps, hopIndex, runningAmount, drawn, s =>
    let amountIn := if hopIndex = 0 then step.amountIn else runningAmount
    HopFits (drawn step.assetIn) (s.getCorridorFeePool step.assetIn) amountIn ∧
      ∀ r s', executeSingleHop step amountIn hopIndex s = .ok (r, s') →
        HopsFit steps (hopIndex + 1) r.amountOut (drawnAfter drawn step r) s'

/-- A hop against a pool that has paid nothing yet always fits. -/
theorem hopFits_zero (pool : CorridorFeePool) (amountIn : ℕ) : HopFits 0 pool amountIn :=
  (Nat.sub_le _ _).trans (grossOutput_le pool amountIn)

theorem executeHops_cons (h : executeHops (step :: steps) hopIndex state s = .ok (state', s')) :
    ∃ r s₁ totalFees, executeSingleHop step
        (if hopIndex = 0 then step.amountIn else state.runningAmount) hopIndex s = .ok (r, s₁) ∧
      executeHops steps (hopIndex + 1) ⟨r.amountOut, totalFees, state.hopResults ++ [r]⟩ s₁ =
        .ok (state', s') := by
  rw [executeHops] at h
  obtain ⟨⟨r, s₁⟩, hhop, h⟩ := bind_eq_ok.mp h
  obtain ⟨_, -, h⟩ := bind_eq_ok.mp h
  obtain ⟨totalFees, -, h⟩ := bind_eq_ok.mp h
  exact ⟨r, s₁, totalFees, hhop, h⟩

/-- The results of a route follow its hops, and the fees are all that its pools gain. -/
theorem executeHops_eq_ok (h : executeHops steps hopIndex state s = .ok (state', s')) :
    ∃ results, state'.hopResults = state.hopResults ++ results ∧
      ∀ asset, (s'.getCorridorFeePool asset).variablePool =
        (s.getCorridorFeePool asset).variablePool + feesTo asset steps results := by
  induction steps generalizing hopIndex state s with
  | nil =>
    obtain ⟨rfl, rfl⟩ := Prod.mk.inj (pure_eq_ok.mp h)
    exact ⟨[], (List.append_nil _).symm, fun _ => rfl⟩
  | cons step steps ih =>
    obtain ⟨r, s₁, totalFees, hhop, hrest⟩ := executeHops_cons h
    obtain ⟨results, hresults, hpools⟩ := ih hrest
    obtain ⟨-, -, hpool⟩ := executeSingleHop_eq_ok hhop
    refine ⟨r :: results, ?_, fun asset => ?_⟩
    · rw [hresults, List.append_assoc, List.singleton_append]
    · rw [hpools, hpool, feesTo, add_assoc]

/-- A hop fits exactly when the pool has held what was drawn from it, with the fee of the hop. -/
theorem hopFits_iff {drawn : AssetId → ℕ}
    (h : executeSingleHop step amountIn hopIndex s = .ok (r, s')) :
    HopFits (drawn step.assetIn) (s.getCorridorFeePool step.assetIn) amountIn ↔
      drawnAfter drawn step r step.assetIn ≤
        (s'.getCorridorFeePool step.assetIn).variablePool := by
  obtain ⟨hfee, hgross, hpool⟩ := executeSingleHop_eq_ok h
  rw [HopFits, drawnAfter, hpool, if_pos rfl, if_pos rfl, ← hgross, ← hfee,
    Nat.add_sub_cancel]
  omega

/-- From a state in which nothing is overdrawn, a route overdraws nothing if and only if each of
its hops fits. -/
theorem hopsFit_iff {drawn : AssetId → ℕ} {results : List HopResult}
    (h : executeHops steps hopIndex state s = .ok (state', s'))
    (hresults : state'.hopResults = state.hopResults ++ results)
    (hdrawn : ∀ asset, drawn asset ≤ (s.getCorridorFeePool asset).variablePool) :
    (∀ asset, drawn asset + drawnFrom asset steps results ≤
        (s'.getCorridorFeePool asset).variablePool) ↔
      HopsFit steps hopIndex state.runningAmount drawn s := by
  induction steps generalizing hopIndex state s drawn results with
  | nil =>
    obtain ⟨rfl, rfl⟩ := Prod.mk.inj (pure_eq_ok.mp h)
    exact iff_of_true (fun asset => hdrawn asset) trivial
  | cons step steps ih =>
    obtain ⟨r, s₁, totalFees, hhop, hrest⟩ := executeHops_cons h
    obtain ⟨rest, hrestResults, hpools⟩ := executeHops_eq_ok hrest
    obtain rfl : results = r :: rest := by
      have happend : state.hopResults ++ results = state.hopResults ++ r :: rest := by
        rw [← hresults, hrestResults, List.append_assoc, List.singleton_append]
      exact List.append_cancel_left happend
    obtain ⟨-, -, hpool⟩ := executeSingleHop_eq_ok hhop
    have hsum (asset : AssetId) : drawn asset + drawnFrom asset (step :: steps) (r :: rest) =
        drawnAfter drawn step r asset + drawnFrom asset steps rest := by
      rw [drawnFrom, drawnAfter, add_assoc]
    simp only [hsum]
    have hdrawn₁ (hfits : drawnAfter drawn step r step.assetIn ≤
        (s₁.getCorridorFeePool step.assetIn).variablePool) (asset : AssetId) :
        drawnAfter drawn step r asset ≤ (s₁.getCorridorFeePool asset).variablePool := by
      by_cases hasset : step.assetIn = asset
      · rw [← hasset]
        exact hfits
      · rw [drawnAfter, hpool, if_neg hasset, if_neg hasset]
        exact hdrawn asset
    rw [HopsFit]
    constructor
    · intro hheld
      have hfits : drawnAfter drawn step r step.assetIn ≤
          (s₁.getCorridorFeePool step.assetIn).variablePool := by
        -- The later hops draw at least what they add.
        have hend := hheld step.assetIn
        have hlater := feesTo_le_drawnFrom step.assetIn steps rest
        rw [hpools] at hend
        omega
      refine ⟨(hopFits_iff hhop).mpr hfits, fun r' s' hhop' => ?_⟩
      obtain ⟨rfl, rfl⟩ := Prod.mk.inj (Except.ok.inj (hhop.symm.trans hhop'))
      exact (ih hrest hrestResults (hdrawn₁ hfits)).mp hheld
    · rintro ⟨hfits, hnext⟩
      exact (ih hrest hrestResults (hdrawn₁ ((hopFits_iff hhop).mp hfits))).mpr
        (hnext r s₁ hhop)

end Hops

/-! ## Runs -/

/-- The pools with what was drawn from each and what was added to its variable pool. -/
structure RouterHistory where
  store : RouterStore
  drawn : AssetId → ℕ
  added : AssetId → ℕ

inductive RouterCall where
  | executeRoute (steps : List HopStep)
  | addCorridorFees (admin : Address) (asset : AssetId) (collected variableFee : ℕ)

section Runs

variable {here : Address}

def routerStep (i : FeeEnv here × RouterCall) (h : RouterHistory) :
    Except Fault RouterHistory :=
  match i.2 with
  | .executeRoute steps => do
    let (result, store) ← executeRoute steps h.store
    pure ⟨store, fun asset => h.drawn asset + drawnFrom asset steps result.hopResults,
      fun asset => h.added asset + feesTo asset steps result.hopResults⟩
  | .addCorridorFees admin asset collected variableFee => do
    let (_, store) ← addCorridorFees i.1 admin asset collected variableFee h.store
    pure ⟨store, h.drawn,
      fun other => h.added other + if asset = other then variableFee else 0⟩

/-- No pool was drawn on for more than it held at first and was given since. -/
def NotOverdrawn (initial : AssetId → ℕ) (h : RouterHistory) : Prop :=
  ∀ asset, h.drawn asset ≤ initial asset + h.added asset

/-- Every hop of an accepted route pays out at most what its pool has not paid out yet. -/
def RouteFits (h : RouterHistory) (i : FeeEnv here × RouterCall) : Prop :=
  (∃ h', routerStep i h = .ok h') → ∀ steps, i.2 = .executeRoute steps →
    HopsFit steps 0 0 h.drawn { h.store with reentrancyLock := true }

/-- Nothing ever leaves a variable pool. -/
def Undebited (initial : AssetId → ℕ) (h : RouterHistory) : Prop :=
  ∀ asset, (h.store.getCorridorFeePool asset).variablePool = initial asset + h.added asset

variable {h h' : RouterHistory} {i : FeeEnv here × RouterCall} {initial : AssetId → ℕ}

theorem executeRoute_eq_ok {steps : List HopStep} {s s' : RouterStore} {result : RouteResult}
    (h : executeRoute steps s = .ok (result, s')) :
    ∃ state s₁, executeHops steps 0 ⟨0, 0, []⟩ { s with reentrancyLock := true } =
        .ok (state, s₁) ∧
      result.hopResults = state.hopResults ∧ s' = { s₁ with reentrancyLock := false } := by
  obtain ⟨_, -, h⟩ := bind_eq_ok.mp h
  obtain ⟨_, -, h⟩ := bind_eq_ok.mp h
  obtain ⟨⟨state, s₁⟩, hhops, h⟩ := bind_eq_ok.mp h
  obtain ⟨_, -, h⟩ := bind_eq_ok.mp h
  obtain ⟨_, -, hwrite⟩ := bind_eq_ok.mp h
  obtain ⟨rfl, rfl⟩ := Prod.mk.inj (pure_eq_ok.mp hwrite)
  exact ⟨state, s₁, hhops, rfl, rfl⟩

theorem addCorridorFees_eq_ok {env : FeeEnv here} {admin : Address} {asset : AssetId}
    {collected variableFee : ℕ} {s s' : RouterStore} {pool : CorridorFeePool}
    (h : addCorridorFees env admin asset collected variableFee s = .ok (pool, s'))
    (other : AssetId) :
    (s'.getCorridorFeePool other).variablePool = (s.getCorridorFeePool other).variablePool +
      if asset = other then variableFee else 0 := by
  obtain ⟨_, -, h⟩ := bind_eq_ok.mp h
  obtain ⟨_, -, h⟩ := bind_eq_ok.mp h
  obtain ⟨_, -, h⟩ := bind_eq_ok.mp h
  obtain ⟨_, -, h⟩ := bind_eq_ok.mp h
  obtain ⟨_, -, h⟩ := bind_eq_ok.mp h
  obtain ⟨variablePool, hvariable, hwrite⟩ := bind_eq_ok.mp h
  obtain ⟨-, rfl⟩ := checkBits_eq_some.mp (okOr_eq_ok.mp hvariable)
  obtain ⟨rfl, rfl⟩ := Prod.mk.inj (pure_eq_ok.mp hwrite)
  by_cases hasset : other = asset
  · rw [hasset, RouterStore.getCorridorFeePool_savePool, if_pos rfl]
  · rw [RouterStore.getCorridorFeePool_savePool_of_ne _ _ hasset, if_neg (Ne.symm hasset),
      add_zero]

/-- An accepted call keeps the pools from being overdrawn exactly when the hops of its route
fit, and it never debits a pool. -/
theorem Undebited.step (hu : Undebited initial h) (h0 : routerStep i h = .ok h') :
    Undebited initial h' ∧ (NotOverdrawn initial h → (NotOverdrawn initial h' ↔
      ∀ steps, i.2 = .executeRoute steps →
        HopsFit steps 0 0 h.drawn { h.store with reentrancyLock := true })) := by
  obtain ⟨env, call⟩ := i
  cases call with
  | executeRoute steps =>
    obtain ⟨⟨result, store⟩, hroute, hwrite⟩ := bind_eq_ok.mp h0
    obtain rfl := pure_eq_ok.mp hwrite
    obtain ⟨state, s₁, hhops, hresult, rfl⟩ := executeRoute_eq_ok hroute
    obtain ⟨results, hresults, hpools⟩ := executeHops_eq_ok hhops
    obtain rfl : state.hopResults = results := hresults
    have hafter : Undebited initial ⟨{ s₁ with reentrancyLock := false },
        fun asset => h.drawn asset + drawnFrom asset steps result.hopResults,
        fun asset => h.added asset + feesTo asset steps result.hopResults⟩ := by
      intro asset
      have hbefore := hu asset
      rw [hresult]
      calc (s₁.getCorridorFeePool asset).variablePool
          = (h.store.getCorridorFeePool asset).variablePool +
              feesTo asset steps state.hopResults := hpools asset
        _ = _ := by rw [hbefore, add_assoc]
    refine ⟨hafter, fun hn => ?_⟩
    have hdrawn (asset : AssetId) : h.drawn asset ≤
        (RouterStore.getCorridorFeePool asset
          { h.store with reentrancyLock := true }).variablePool :=
      (hn asset).trans (hu asset).ge
    have hiff := hopsFit_iff hhops (List.nil_append _).symm hdrawn
    constructor
    · rintro hheld _ ⟨⟩
      refine hiff.mp fun asset => ?_
      have hasset := hheld asset
      rw [← hafter asset] at hasset
      rw [← hresult]
      exact hasset
    · intro hfit asset
      rw [← hafter asset]
      dsimp only
      rw [hresult]
      exact hiff.mpr (hfit steps rfl) asset
  | addCorridorFees admin asset collected variableFee =>
    obtain ⟨⟨pool, store⟩, hadd, hwrite⟩ := bind_eq_ok.mp h0
    obtain rfl := pure_eq_ok.mp hwrite
    refine ⟨fun other => ?_, fun hn => iff_of_true (fun other => ?_) (by rintro steps ⟨⟩)⟩
    · dsimp only
      rw [addCorridorFees_eq_ok hadd other, hu other, add_assoc]
    · have hother := hn other
      dsimp only
      omega

/-- In a run no pool is overdrawn if and only if every hop pays out at most what its pool has not
paid out yet. -/
theorem notOverdrawn_throughout_iff (s : RouterStore) (run : List (FeeEnv here × RouterCall)) :
    Throughout routerStep
        (NotOverdrawn fun asset => (s.getCorridorFeePool asset).variablePool)
        ⟨s, fun _ => 0, fun _ => 0⟩ run ↔
      Along routerStep RouteFits ⟨s, fun _ => 0, fun _ => 0⟩ run := by
  refine throughout_iff_along
    (I := Undebited fun asset => (s.getCorridorFeePool asset).variablePool)
    (fun h i hu => commit_induction hu fun h' h0 => (hu.step h0).1) (fun h i hu hn => ?_)
    (fun _ => rfl) (fun _ => Nat.zero_le _) run
  exact commit_iff_of_accepted hn fun h' h0 => ((hu.step h0).2 hn).trans
    ⟨fun hfit _ => hfit, fun hfit => hfit ⟨h', h0⟩⟩

end Runs

section Sample

def sampleFeeEnv : FeeEnv ⟨0⟩ := { Env.standard ⟨0⟩ 0 none with admin := some ⟨1⟩ }

/-- One route of one hop, taken twice. -/
def repeatedRun : List (FeeEnv ⟨0⟩ × RouterCall) :=
  [(sampleFeeEnv, .addCorridorFees ⟨1⟩ 1 10000 1000000000),
    (sampleFeeEnv, .executeRoute [⟨1, 2, 1000000, 0⟩]),
    (sampleFeeEnv, .executeRoute [⟨1, 2, 1000000, 0⟩])]

theorem repeatedRun_overdraws :
    ¬ Throughout routerStep
        (NotOverdrawn fun asset =>
          ((⟨∅, false⟩ : RouterStore).getCorridorFeePool asset).variablePool)
        ⟨⟨∅, false⟩, fun _ => 0, fun _ => 0⟩ repeatedRun := by
  rintro ⟨-, -, -, hheld⟩
  have hpool := hheld 1
  revert hpool
  decide +kernel

end Sample

end StellarFlow.Router
