import StellarFlow.Router.Multihop

/-!
# Quotes for routes

A quote prices the hops of a route without writing the pools, beside an ideal output that leaves
every pool where it is. Execution prices a hop against the pool as the earlier hops left it, so
the two agree on a pool that the route enters a second time only if the price did not move, and an
ideal output below the priced one is subtracted all the same.
-/
namespace StellarFlow.Router

open Foundation

structure SimulatedSwapOutcome where
  finalAmountOut : ℕ
  hopDetails : List HopResult
  totalFees : ℕ
  priceImpactBps : ℕ
  minAmountOutWithSlippage : ℕ
  estimatedGasUnits : ℕ
  deriving DecidableEq

def baseGas : ℕ := 100000
def perHopGas : ℕ := 50000

/-- The output of a hop that leaves the reserves where they are, cut to the machine word. -/
def idealOut (pool : CorridorFeePool) (amountIn : ℕ) : Except Fault ℕ :=
  if 0 < pool.collected then do
    let product ← okOr (checkBits 128 (amountIn * pool.variablePool)) .trap
    pure (product / pool.collected % 2 ^ 64)
  else pure amountIn

/-- The first pass over the hops. -/
def idealHops (s : RouterStore) : List HopStep → ℕ → ℕ → Except Fault ℕ
  | [], _, initialTotalOutput => pure initialTotalOutput
  | step :: steps, hopIndex, initialTotalOutput => do
    let amountIn := if hopIndex = 0 then step.amountIn else initialTotalOutput
    let pool := s.getCorridorFeePool step.assetIn
    failIf (pool.asset ≠ step.assetIn) (Fault.error .poolNotFound)
    let ideal ← idealOut pool amountIn
    let scaledFee ← okOr (checkBits 128 (ideal * feeBps)) (Fault.error .overflow)
    let netOut ← okOr (checkedSub ideal (scaledFee / feeDenominator)) (Fault.error .overflow)
    idealHops s steps (hopIndex + 1) netOut

/-- A hop of the second pass. -/
def simulateHop (step : HopStep) (amountIn hopIndex : ℕ) (s : RouterStore) :
    Except Fault HopResult := do
  let pool := s.getCorridorFeePool step.assetIn
  failIf (pool.asset ≠ step.assetIn) (Fault.error .poolNotFound)
  let effectiveLiquidity ← okOr (checkBits 128 (pool.collected + amountIn)) .trap
  failIf (effectiveLiquidity = 0) (Fault.error .insufficientLiquidityDepth)
  let numerator ← okOr (checkBits 128 (amountIn * pool.variablePool)) (Fault.error .overflow)
  let rawOut := numerator / effectiveLiquidity
  let amountOut := min rawOut (2 ^ 64 - 1)
  let scaledFee ← okOr (checkBits 128 (amountOut * feeBps)) (Fault.error .overflow)
  let feeCollected := scaledFee / feeDenominator
  let netOut ← okOr (checkedSub amountOut feeCollected) (Fault.error .overflow)
  pure ⟨hopIndex, netOut, feeCollected⟩

/-- The second pass over the hops. -/
def simulateHops (s : RouterStore) : List HopStep → ℕ → RouteComputationState →
    Except Fault RouteComputationState
  | [], _, state => pure state
  | step :: steps, hopIndex, state => do
    let amountIn := if hopIndex = 0 then step.amountIn else state.runningAmount
    let hopResult ← simulateHop step amountIn hopIndex s
    let totalFees ← okOr (checkBits 64 (state.totalFees + hopResult.feeCollected))
      (Fault.error .overflow)
    simulateHops s steps (hopIndex + 1)
      ⟨hopResult.amountOut, totalFees, state.hopResults ++ [hopResult]⟩

/-- The loss against the ideal output. The difference is not checked. -/
def priceImpact (initialTotalOutput runningAmount : ℕ) : Except Fault ℕ :=
  if 0 < initialTotalOutput then do
    let loss ← okOr (checkedSub initialTotalOutput runningAmount) .trap
    let scaled ← okOr (checkBits 128 (loss * 10000)) .trap
    pure (scaled / initialTotalOutput)
  else pure 0

def simulateRoute (steps : List HopStep) (slippageToleranceBps : ℕ) (s : RouterStore) :
    Except Fault SimulatedSwapOutcome := do
  validateRoute steps s
  failIf (10000 < slippageToleranceBps) (Fault.error .invalidArgument)
  let initialTotalOutput ← idealHops s steps 0 0
  let state ← simulateHops s steps 0 ⟨0, 0, []⟩
  let priceImpactBps ← priceImpact initialTotalOutput state.runningAmount
  let scaled ← okOr (checkBits 128 (state.runningAmount * (10000 - slippageToleranceBps)))
    (Fault.error .overflow)
  pure ⟨state.runningAmount, state.hopResults, state.totalFees, priceImpactBps, scaled / 10000,
    baseGas + steps.length * perHopGas⟩

def estimateRoute (steps : List HopStep) (s : RouterStore) : Except Fault ℕ := do
  let simulation ← simulateRoute steps 0 s
  pure simulation.finalAmountOut

/-! ## What the hops are priced at -/

abbrev AssetPools := AssetId → CorridorFeePool

def RouterStore.assetPools (s : RouterStore) : AssetPools := fun asset => s.getCorridorFeePool asset

/-- What is left of the output of a hop after its fee. -/
def afterFee (amountOut : ℕ) : ℕ := amountOut - amountOut * feeBps / feeDenominator

/-- The output of a hop at the ratio of the reserves. An empty pool gives back the input. -/
def spotOutput (pool : CorridorFeePool) (amountIn : ℕ) : ℕ :=
  if 0 < pool.collected then amountIn * pool.variablePool / pool.collected % 2 ^ 64 else amountIn

/-- The amount that enters the first hop. -/
def entering : List HopStep → ℕ
  | [] => 0
  | step :: _ => step.amountIn

/-- The output of a route whose hops are all priced against the pools as they are. -/
def chainedOutput (price : CorridorFeePool → ℕ → ℕ) (pools : AssetPools) (steps : List HopStep)
    (amountIn : ℕ) : ℕ :=
  steps.foldl (fun x step => afterFee (price (pools step.assetIn) x)) amountIn

/-- The pool after a hop through it. -/
def poolAfter (pool : CorridorFeePool) (amountIn : ℕ) : CorridorFeePool :=
  { pool with
    collected := pool.collected + amountIn
    variablePool := pool.variablePool + hopFee pool amountIn }

def poolsAfter (step : HopStep) (amountIn : ℕ) (pools : AssetPools) : AssetPools :=
  Function.update pools step.assetIn (poolAfter (pools step.assetIn) amountIn)

/-- The pool can take the hop in and the hop meets its minimum. -/
def HopAccepted (step : HopStep) (amountIn : ℕ) (pool : CorridorFeePool) : Prop :=
  minTransferAmount ≤ amountIn ∧ pool.collected + amountIn < 2 ^ 64 ∧
    pool.variablePool + hopFee pool amountIn < 2 ^ 64 ∧
    step.minAmountOut ≤ afterFee (grossOutput pool amountIn)

/-- Every hop is accepted by its pool as the earlier hops left it. -/
def Executable : List HopStep → ℕ → AssetPools → Prop
  | [], _, _ => True
  | step :: steps, amountIn, pools =>
    HopAccepted step amountIn (pools step.assetIn) ∧
      Executable steps (afterFee (grossOutput (pools step.assetIn) amountIn))
        (poolsAfter step amountIn pools)

/-- Every pool, as the earlier hops left it, prices its hop as it did at first. -/
def SamePrices (original : AssetPools) : List HopStep → ℕ → AssetPools → Prop
  | [], _, _ => True
  | step :: steps, amountIn, pools =>
    grossOutput (pools step.assetIn) amountIn =
        grossOutput (original step.assetIn) amountIn ∧
      SamePrices original steps (afterFee (grossOutput (pools step.assetIn) amountIn))
        (poolsAfter step amountIn pools)

/-- The results of the hops when `after` is what a hop leaves of the pools. -/
def pricedHops (after : HopStep → ℕ → AssetPools → AssetPools) :
    List HopStep → ℕ → ℕ → AssetPools → List HopResult
  | [], _, _, _ => []
  | step :: steps, hopIndex, amountIn, pools =>
    let amountOut := afterFee (grossOutput (pools step.assetIn) amountIn)
    ⟨hopIndex, amountOut, hopFee (pools step.assetIn) amountIn⟩ ::
      pricedHops after steps (hopIndex + 1) amountOut (after step amountIn pools)

def RouteComputationState.push (state : RouteComputationState) (r : HopResult) :
    RouteComputationState :=
  ⟨r.amountOut, state.totalFees + r.feeCollected, state.hopResults ++ [r]⟩

/-- The state at the end of a route when `after` is what a hop leaves of the pools. -/
def routeState (after : HopStep → ℕ → AssetPools → AssetPools) (steps : List HopStep)
    (pools : AssetPools) : RouteComputationState :=
  (pricedHops after steps 0 (entering steps) pools).foldl .push ⟨0, 0, []⟩

def RouteComputationState.result (state : RouteComputationState) : RouteResult :=
  ⟨state.runningAmount, state.hopResults, state.totalFees⟩

/-- The machine types of the reserves. -/
def ReservesFit (pools : AssetPools) : Prop :=
  ∀ asset, (pools asset).collected < 2 ^ 64 ∧ (pools asset).variablePool < 2 ^ 64

/-- Every hop has a pool that carries its name. -/
def Registered (pools : AssetPools) (steps : List HopStep) : Prop :=
  ∀ step ∈ steps, (pools step.assetIn).asset = step.assetIn

theorem grossOutput_lt (pool : CorridorFeePool) (amountIn : ℕ) :
    grossOutput pool amountIn < 2 ^ 64 :=
  Nat.lt_of_le_pred (by norm_num) (min_le_right _ _)

theorem hopFee_le (pool : CorridorFeePool) (amountIn : ℕ) :
    hopFee pool amountIn ≤ grossOutput pool amountIn :=
  Nat.div_le_of_le_mul (by rw [feeDenominator, feeBps]; omega)

/-- Eight fees fit in a word. -/
theorem hopFee_lt (pool : CorridorFeePool) (amountIn : ℕ) : hopFee pool amountIn < 2 ^ 56 := by
  have hgross := grossOutput_lt pool amountIn
  rw [hopFee, feeBps, feeDenominator]
  omega

theorem afterFee_lt {amountOut : ℕ} (h : amountOut < 2 ^ 64) : afterFee amountOut < 2 ^ 64 :=
  (Nat.sub_le _ _).trans_lt h

theorem afterFee_grossOutput_add (pool : CorridorFeePool) (amountIn : ℕ) :
    afterFee (grossOutput pool amountIn) + hopFee pool amountIn = grossOutput pool amountIn :=
  Nat.sub_add_cancel (hopFee_le pool amountIn)

section Pools

variable {pools : AssetPools} {step : HopStep} {steps : List HopStep} {amountIn : ℕ}

theorem ReservesFit.after (h : ReservesFit pools)
    (ha : HopAccepted step amountIn (pools step.assetIn)) :
    ReservesFit (poolsAfter step amountIn pools) := by
  intro asset
  rw [poolsAfter]
  by_cases hasset : asset = step.assetIn
  · rw [hasset, Function.update_self]
    exact ⟨ha.2.1, ha.2.2.1⟩
  · rw [Function.update_of_ne hasset]
    exact h asset

theorem Registered.after (h : Registered pools (step :: steps)) :
    Registered (poolsAfter step amountIn pools) steps := by
  intro other hother
  rw [poolsAfter]
  by_cases hasset : other.assetIn = step.assetIn
  · rw [hasset, Function.update_self]
    exact h step List.mem_cons_self
  · rw [Function.update_of_ne hasset]
    exact h other (List.mem_cons_of_mem _ hother)

end Pools

section Passes

variable {s s' : RouterStore} {step : HopStep} {steps : List HopStep} {r : HopResult}
  {x hopIndex : ℕ} {state state' : RouteComputationState}

theorem okOr_scaledFee {amountOut : ℕ} (h : amountOut < 2 ^ 64) (e : Fault) :
    okOr (checkBits 128 (amountOut * feeBps)) e = .ok (amountOut * feeBps) :=
  okOr_checkBits (mul_lt_double h (by norm_num [feeBps])) e

theorem okOr_afterFee (amountOut : ℕ) (e : Fault) :
    okOr (checkedSub amountOut (amountOut * feeBps / feeDenominator)) e =
      .ok (afterFee amountOut) :=
  okOr_checkedSub (Nat.div_le_of_le_mul (by rw [feeDenominator, feeBps]; omega)) e

theorem simulateHop_eq (hfit : ReservesFit s.assetPools)
    (hasset : (s.assetPools step.assetIn).asset = step.assetIn) (hx : x < 2 ^ 64) :
    simulateHop step x hopIndex s =
      if 0 < (s.assetPools step.assetIn).collected + x then
        .ok ⟨hopIndex, afterFee (grossOutput (s.assetPools step.assetIn) x),
          hopFee (s.assetPools step.assetIn) x⟩
      else .error (Fault.error .insufficientLiquidityDepth) := by
  obtain ⟨hcollected, hvariable⟩ := hfit step.assetIn
  rw [RouterStore.assetPools] at *
  have hsum : (s.getCorridorFeePool step.assetIn).collected + x < 2 ^ 128 := by omega
  simp only [simulateHop]
  rw [failIf_of_not (not_not.mpr hasset), ok_bind, okOr_checkBits hsum, ok_bind]
  by_cases hzero : (s.getCorridorFeePool step.assetIn).collected + x = 0
  · rw [if_neg (by omega), failIf, if_pos hzero]
    rfl
  · rw [if_pos (Nat.pos_of_ne_zero hzero), failIf_of_not hzero, ok_bind,
      okOr_checkBits (mul_lt_double hx hvariable), ok_bind, ← grossOutput,
      okOr_scaledFee (grossOutput_lt _ x), ok_bind, okOr_afterFee, ok_bind]
    rfl

theorem executeSingleHop_eq (hfit : ReservesFit s.assetPools)
    (hasset : (s.assetPools step.assetIn).asset = step.assetIn)
    (h : HopAccepted step x (s.assetPools step.assetIn)) :
    executeSingleHop step x hopIndex s =
      .ok (⟨hopIndex, afterFee (grossOutput (s.assetPools step.assetIn) x),
          hopFee (s.assetPools step.assetIn) x⟩,
        s.savePool step.assetIn (poolAfter (s.assetPools step.assetIn) x)) := by
  obtain ⟨hdust, hcollected, hvariable, -⟩ := h
  rw [RouterStore.assetPools] at *
  have hsmall : ¬ x < minTransferAmount := hdust.not_gt
  have hx : x ≠ 0 := by
    rw [minTransferAmount] at hdust
    omega
  have hproduct : x * (s.getCorridorFeePool step.assetIn).variablePool < 2 ^ 128 :=
    mul_lt_double (by omega) (hfit step.assetIn).2
  have hsum : (s.getCorridorFeePool step.assetIn).collected + x < 2 ^ 128 := by omega
  simp only [executeSingleHop]
  rw [failIf_of_not hx, ok_bind, checkMinTransfer, failIf_of_not hsmall, ok_bind,
    failIf_of_not (not_not.mpr hasset), ok_bind, okOr_checkBits hsum, ok_bind,
    failIf_of_not (by omega), ok_bind, okOr_checkBits hproduct, ok_bind, ← grossOutput,
    okOr_scaledFee (grossOutput_lt _ x), ok_bind, okOr_afterFee, ok_bind,
    okOr_checkBits hcollected, ok_bind, ← hopFee, okOr_checkBits hvariable, ok_bind]
  rfl

theorem hopAccepted_of_ok (h : executeSingleHop step x hopIndex s = .ok (r, s'))
    (hmin : step.minAmountOut ≤ r.amountOut) :
    HopAccepted step x (s.assetPools step.assetIn) := by
  obtain ⟨hfee, hgross, -⟩ := executeSingleHop_eq_ok h
  rw [executeSingleHop] at h
  obtain ⟨_, -, h⟩ := bind_eq_ok.mp h
  obtain ⟨_, hdust, h⟩ := bind_eq_ok.mp h
  obtain ⟨_, -, h⟩ := bind_eq_ok.mp h
  obtain ⟨_, -, h⟩ := bind_eq_ok.mp h
  obtain ⟨_, -, h⟩ := bind_eq_ok.mp h
  obtain ⟨numerator, -, h⟩ := bind_eq_ok.mp h
  obtain ⟨scaled, -, h⟩ := bind_eq_ok.mp h
  obtain ⟨net, -, h⟩ := bind_eq_ok.mp h
  obtain ⟨collected, hcollected, h⟩ := bind_eq_ok.mp h
  obtain ⟨variablePool, hvariable, hwrite⟩ := bind_eq_ok.mp h
  obtain ⟨hcollected, -⟩ := checkBits_eq_some.mp (okOr_eq_ok.mp hcollected)
  obtain ⟨hvariable, -⟩ := checkBits_eq_some.mp (okOr_eq_ok.mp hvariable)
  obtain ⟨rfl, -⟩ := Prod.mk.inj (pure_eq_ok.mp hwrite)
  refine ⟨not_lt.mp (failIf_eq_ok.mp hdust), hcollected, ?_, ?_⟩
  · exact hfee ▸ hvariable
  · have hnet := afterFee_grossOutput_add (s.getCorridorFeePool step.assetIn) x
    change step.minAmountOut ≤ afterFee (grossOutput (s.getCorridorFeePool step.assetIn) x)
    omega

theorem assetPools_savePool (asset : AssetId) (pool : CorridorFeePool) (s : RouterStore) :
    (s.savePool asset pool).assetPools = Function.update s.assetPools asset pool := by
  funext other
  by_cases hasset : other = asset
  · rw [hasset, Function.update_self]
    exact RouterStore.getCorridorFeePool_savePool _ _ _
  · rw [Function.update_of_ne hasset]
    exact RouterStore.getCorridorFeePool_savePool_of_ne _ _ hasset

/-- The hops execute exactly when each is accepted, and then at the prices of the pools that the
earlier hops left. -/
theorem executeHops_iff (hfit : ReservesFit s.assetPools)
    (hreg : Registered s.assetPools steps)
    (hfees : state.totalFees + steps.length * 2 ^ 56 < 2 ^ 64)
    (hx : (if hopIndex = 0 then entering steps else state.runningAmount) = x) :
    (∃ s', executeHops steps hopIndex state s = .ok (state', s')) ↔
      Executable steps x s.assetPools ∧
        (pricedHops poolsAfter steps hopIndex x s.assetPools).foldl .push state = state' := by
  induction steps generalizing hopIndex state s x with
  | nil =>
    constructor
    · rintro ⟨s', h⟩
      exact ⟨trivial, congrArg Prod.fst (pure_eq_ok.mp h)⟩
    · rintro ⟨-, rfl⟩
      exact ⟨s, rfl⟩
  | cons step steps ih =>
    have hasset := hreg step List.mem_cons_self
    have hfee := hopFee_lt (s.assetPools step.assetIn) x
    rw [List.length_cons] at hfees
    have hnext (ha : HopAccepted step x (s.assetPools step.assetIn)) :
        (∃ s', executeHops steps (hopIndex + 1)
            (state.push ⟨hopIndex, afterFee (grossOutput (s.assetPools step.assetIn) x),
              hopFee (s.assetPools step.assetIn) x⟩)
            (s.savePool step.assetIn (poolAfter (s.assetPools step.assetIn) x)) =
              .ok (state', s')) ↔ _ :=
      ih (by rw [assetPools_savePool]; exact hfit.after ha)
        (by rw [assetPools_savePool]; exact hreg.after)
        (by change state.totalFees + hopFee _ x + _ < _; omega)
        (if_neg (Nat.succ_ne_zero hopIndex))
    rw [assetPools_savePool] at hnext
    change (if hopIndex = 0 then step.amountIn else _) = x at hx
    rw [executeHops, hx]
    constructor
    · rintro ⟨s', h⟩
      obtain ⟨⟨r, s₁⟩, hhop, h⟩ := bind_eq_ok.mp h
      obtain ⟨_, hmin, h⟩ := bind_eq_ok.mp h
      obtain ⟨total, htotal, hrest⟩ := bind_eq_ok.mp h
      obtain ⟨-, rfl⟩ := checkBits_eq_some.mp (okOr_eq_ok.mp htotal)
      have ha := hopAccepted_of_ok hhop (not_lt.mp (failIf_eq_ok.mp hmin))
      rw [executeSingleHop_eq hfit hasset ha] at hhop
      obtain ⟨rfl, rfl⟩ := Prod.mk.inj (Except.ok.inj hhop)
      obtain ⟨hexec, hstate⟩ := (hnext ha).mp ⟨s', hrest⟩
      exact ⟨⟨ha, hexec⟩, hstate⟩
    · rintro ⟨⟨ha, hexec⟩, hstate⟩
      obtain ⟨s', hrest⟩ := (hnext ha).mpr ⟨hexec, hstate⟩
      refine ⟨s', ?_⟩
      rw [executeSingleHop_eq hfit hasset ha, ok_bind]
      dsimp only
      rw [failIf_of_not ha.2.2.2.not_gt, ok_bind, okOr_checkBits (by omega), ok_bind]
      exact hrest

theorem chainedOutput_zero (pools : AssetPools) (steps : List HopStep) :
    chainedOutput grossOutput pools steps 0 = 0 := by
  induction steps with
  | nil => rfl
  | cons step steps ih =>
    have hzero : grossOutput (pools step.assetIn) 0 = 0 := by
      rw [grossOutput, zero_mul, Nat.zero_div, Nat.zero_min]
    rw [chainedOutput, List.foldl_cons, hzero, afterFee, Nat.zero_sub]
    exact ih

theorem runningAmount_foldl_push (pools : AssetPools) (steps : List HopStep) (hopIndex : ℕ)
    (h : steps = [] → state.runningAmount = x) :
    ((pricedHops (fun _ _ => id) steps hopIndex x pools).foldl .push state).runningAmount =
      chainedOutput grossOutput pools steps x := by
  induction steps generalizing hopIndex state x with
  | nil => exact h rfl
  | cons step steps ih => exact ih (hopIndex + 1) fun _ => rfl

theorem hopResults_foldl_push (results : List HopResult) (state : RouteComputationState) :
    (results.foldl .push state).hopResults = state.hopResults ++ results := by
  induction results generalizing state with
  | nil => exact (List.append_nil _).symm
  | cons r results ih =>
    rw [List.foldl_cons, ih, RouteComputationState.push, List.append_assoc,
      List.singleton_append]

/-- The second pass prices every hop against the pools as they are. It stops only at an empty pool
that nothing enters, and then the route would have paid nothing. -/
theorem simulateHops_eq (hfit : ReservesFit s.assetPools)
    (hreg : Registered s.assetPools steps)
    (hfees : state.totalFees + steps.length * 2 ^ 56 < 2 ^ 64)
    (hx : (if hopIndex = 0 then entering steps else state.runningAmount) = x)
    (hword : x < 2 ^ 64) :
    simulateHops s steps hopIndex state =
        .ok ((pricedHops (fun _ _ => id) steps hopIndex x s.assetPools).foldl .push state) ∨
      simulateHops s steps hopIndex state =
          .error (Fault.error .insufficientLiquidityDepth) ∧
        chainedOutput grossOutput s.assetPools steps x = 0 := by
  induction steps generalizing hopIndex state x with
  | nil => exact .inl rfl
  | cons step steps ih =>
    have hfee := hopFee_lt (s.assetPools step.assetIn) x
    rw [List.length_cons] at hfees
    change (if hopIndex = 0 then step.amountIn else _) = x at hx
    rw [simulateHops, hx, simulateHop_eq hfit (hreg step List.mem_cons_self) hword]
    have htotal : state.totalFees + hopFee (s.assetPools step.assetIn) x < 2 ^ 64 := by omega
    split_ifs with hpos
    · rw [ok_bind, okOr_checkBits htotal, ok_bind]
      refine ih (fun other hother => hreg other (List.mem_cons_of_mem _ hother)) ?_
        (if_neg (Nat.succ_ne_zero hopIndex)) (afterFee_lt (grossOutput_lt _ _))
      change state.totalFees + hopFee _ x + _ < _
      omega
    · obtain rfl : x = 0 := by omega
      exact .inr ⟨rfl, chainedOutput_zero _ _⟩

/-- Where no price has moved, the second pass gives the results of the execution. -/
theorem simulateHops_of_samePrices {pools : AssetPools} (hfit : ReservesFit s.assetPools)
    (hreg : Registered s.assetPools steps)
    (hfees : state.totalFees + steps.length * 2 ^ 56 < 2 ^ 64)
    (hx : (if hopIndex = 0 then entering steps else state.runningAmount) = x)
    (hword : x < 2 ^ 64) (hexec : Executable steps x pools)
    (hsame : SamePrices s.assetPools steps x pools) :
    simulateHops s steps hopIndex state =
      .ok ((pricedHops poolsAfter steps hopIndex x pools).foldl .push state) := by
  induction steps generalizing hopIndex state x pools with
  | nil => rfl
  | cons step steps ih =>
    obtain ⟨⟨hdust, -⟩, hexec⟩ := hexec
    obtain ⟨hgross, hsame⟩ := hsame
    have hfeeEq : hopFee (pools step.assetIn) x = hopFee (s.assetPools step.assetIn) x := by
      rw [hopFee, hopFee, hgross]
    have hfee := hopFee_lt (s.assetPools step.assetIn) x
    have hpos : 0 < x := (by decide : 0 < minTransferAmount).trans_le hdust
    rw [List.length_cons] at hfees
    have htotal : state.totalFees + hopFee (s.assetPools step.assetIn) x < 2 ^ 64 := by omega
    change (if hopIndex = 0 then step.amountIn else _) = x at hx
    rw [simulateHops, hx, simulateHop_eq hfit (hreg step List.mem_cons_self) hword,
      if_pos (Nat.add_pos_right _ hpos), ok_bind, okOr_checkBits htotal, ok_bind, pricedHops]
    dsimp only
    rw [List.foldl_cons, hfeeEq, hgross]
    rw [hgross] at hexec hsame
    refine ih (fun other hother => hreg other (List.mem_cons_of_mem _ hother)) ?_
      (if_neg (Nat.succ_ne_zero hopIndex)) (afterFee_lt (grossOutput_lt _ _)) hexec hsame
    change state.totalFees + hopFee _ x + _ < _
    omega

/-- Equal results come from equal prices. -/
theorem samePrices_of_eq {original pools : AssetPools}
    (h : pricedHops poolsAfter steps hopIndex x pools =
      pricedHops (fun _ _ => id) steps hopIndex x original) :
    SamePrices original steps x pools := by
  induction steps generalizing hopIndex x pools with
  | nil => trivial
  | cons step steps ih =>
    rw [pricedHops, pricedHops] at h
    obtain ⟨hfirst, hrest⟩ := List.cons.inj h
    obtain ⟨-, hout, hfee⟩ := HopResult.mk.inj hfirst
    have hgross : grossOutput (pools step.assetIn) x =
        grossOutput (original step.assetIn) x := by
      rw [← afterFee_grossOutput_add, hout, hfee, afterFee_grossOutput_add]
    rw [← hout] at hrest
    exact ⟨hgross, ih hrest⟩

theorem spotOutput_lt {pool : CorridorFeePool} (hx : x < 2 ^ 64) : spotOutput pool x < 2 ^ 64 := by
  rw [spotOutput]
  split_ifs
  · exact Nat.mod_lt _ (by norm_num)
  · exact hx

/-- The first pass never fails. -/
theorem idealHops_eq {total : ℕ} (hfit : ReservesFit s.assetPools)
    (hreg : Registered s.assetPools steps)
    (hx : (if hopIndex = 0 then entering steps else total) = x)
    (htotal : steps = [] → total = x) (hword : x < 2 ^ 64) :
    idealHops s steps hopIndex total = .ok (chainedOutput spotOutput s.assetPools steps x) := by
  induction steps generalizing hopIndex total x with
  | nil => exact congrArg Except.ok (htotal rfl)
  | cons step steps ih =>
    have hasset := hreg step List.mem_cons_self
    have hspot : idealOut (s.assetPools step.assetIn) x =
        .ok (spotOutput (s.assetPools step.assetIn) x) := by
      rw [idealOut, spotOutput, okOr_checkBits (mul_lt_double hword (hfit step.assetIn).2), ok_bind]
      split_ifs <;> rfl
    change (if hopIndex = 0 then step.amountIn else _) = x at hx
    rw [RouterStore.assetPools] at hasset hspot
    rw [idealHops, hx, failIf_of_not (not_not.mpr hasset), ok_bind, hspot, ok_bind,
      okOr_scaledFee (spotOutput_lt hword), ok_bind, okOr_afterFee, ok_bind]
    exact ih (fun other hother => hreg other (List.mem_cons_of_mem _ hother))
      (if_neg (Nat.succ_ne_zero hopIndex)) (fun _ => rfl) (afterFee_lt (spotOutput_lt hword))

end Passes

/-! ## Quotes and execution -/

/-- The hops are priced above what they would give at the ratios of the reserves. -/
def PricedAboveSpot (pools : AssetPools) (steps : List HopStep) : Prop :=
  0 < chainedOutput spotOutput pools steps (entering steps) ∧
    chainedOutput spotOutput pools steps (entering steps) <
      chainedOutput grossOutput pools steps (entering steps)

/-- The quotes never trap, say what an execution that succeeds gives, and stay within the range of
the price impact. -/
def QuotesAgree (steps : List HopStep) (s : RouterStore) : Prop :=
  (∀ tolerance, simulateRoute steps tolerance s ≠ .error .trap) ∧
    (∀ result s', executeRoute steps s = .ok (result, s') →
      (∀ tolerance ≤ 10000, ∃ outcome, simulateRoute steps tolerance s = .ok outcome ∧
        outcome.finalAmountOut = result.finalAmountOut ∧
        outcome.hopDetails = result.hopResults ∧ outcome.totalFees = result.totalFees) ∧
      estimateRoute steps s = .ok result.finalAmountOut) ∧
    ∀ tolerance outcome, simulateRoute steps tolerance s = .ok outcome →
      outcome.priceImpactBps ≤ 10000

section Quotes

variable {s : RouterStore} {steps : List HopStep} {tolerance ideal running impact : ℕ}
  {state : RouteComputationState} {result : RouteResult}

theorem registered_of_validateSteps {prev : Option HopStep}
    (h : validateSteps s prev steps = .ok ()) : Registered s.assetPools steps := by
  induction steps generalizing prev with
  | nil => exact fun _ hstep => absurd hstep List.not_mem_nil
  | cons step steps ih =>
    obtain ⟨_, -, h⟩ := bind_eq_ok.mp h
    obtain ⟨_, -, h⟩ := bind_eq_ok.mp h
    obtain ⟨_, hasset, hrest⟩ := bind_eq_ok.mp h
    exact List.forall_mem_cons.mpr ⟨not_not.mp (failIf_eq_ok.mp hasset), ih hrest⟩

theorem validateSteps_lock (lock : Bool) (prev : Option HopStep) (steps : List HopStep) :
    validateSteps { s with reentrancyLock := lock } prev steps = validateSteps s prev steps := by
  induction steps generalizing prev with
  | nil => rfl
  | cons step steps ih =>
    rw [validateSteps, validateSteps, ih]
    rfl

theorem validateRoute_eq_ok (h : validateRoute steps s = .ok ()) :
    steps ≠ [] ∧ steps.length ≤ maxRouteHops ∧ Registered s.assetPools steps := by
  obtain ⟨_, hempty, h⟩ := bind_eq_ok.mp h
  obtain ⟨_, hlong, h⟩ := bind_eq_ok.mp h
  exact ⟨fun hnil => failIf_eq_ok.mp hempty (congrArg List.length hnil),
    not_lt.mp (failIf_eq_ok.mp hlong), registered_of_validateSteps h⟩

/-- The minimum of the last hop is met by what the route pays. -/
theorem minAmountOut_le_runningAmount {pools : AssetPools} {x hopIndex : ℕ} {final : HopStep}
    (h : Executable steps x pools) (hfinal : steps.getLast? = some final) :
    final.minAmountOut ≤
      ((pricedHops poolsAfter steps hopIndex x pools).foldl .push state).runningAmount := by
  induction steps generalizing x hopIndex state pools with
  | nil => exact absurd hfinal (by simp)
  | cons step steps ih =>
    cases steps with
    | nil =>
      obtain rfl := Option.some.inj hfinal
      exact h.1.2.2.2
    | cons next rest => exact ih h.2 hfinal

theorem totalFees_lt (h : steps.length ≤ maxRouteHops) :
    (⟨0, 0, []⟩ : RouteComputationState).totalFees + steps.length * 2 ^ 56 < 2 ^ 64 := by
  change 0 + steps.length * 2 ^ 56 < 2 ^ 64
  rw [maxRouteHops] at h
  omega

/-- A route executes exactly when no other route does and its hops are accepted. -/
theorem executeRoute_iff (hfit : ReservesFit s.assetPools)
    (hvalid : validateRoute steps s = .ok ()) :
    (∃ s', executeRoute steps s = .ok (result, s')) ↔
      (s.reentrancyLock = false ∧ Executable steps (entering steps) s.assetPools) ∧
        (routeState poolsAfter steps s.assetPools).result = result := by
  obtain ⟨hnonempty, hlength, hreg⟩ := validateRoute_eq_ok hvalid
  have hlocked : validateRoute steps { s with reentrancyLock := true } = .ok () := by
    rw [← hvalid, validateRoute, validateRoute, validateSteps_lock]
  have hhops (state : RouteComputationState) :
      (∃ s', executeHops steps 0 ⟨0, 0, []⟩ { s with reentrancyLock := true } =
          .ok (state, s')) ↔ Executable steps (entering steps) s.assetPools ∧
        routeState poolsAfter steps s.assetPools = state :=
    executeHops_iff hfit hreg (totalFees_lt hlength) (if_pos rfl)
  constructor
  · rintro ⟨s', h⟩
    rw [executeRoute] at h
    obtain ⟨_, hlock, h⟩ := bind_eq_ok.mp h
    obtain ⟨_, -, h⟩ := bind_eq_ok.mp h
    obtain ⟨⟨state, s₁⟩, hexec, h⟩ := bind_eq_ok.mp h
    obtain ⟨_, -, h⟩ := bind_eq_ok.mp h
    obtain ⟨_, -, hwrite⟩ := bind_eq_ok.mp h
    obtain ⟨rfl, -⟩ := Prod.mk.inj (pure_eq_ok.mp hwrite)
    obtain ⟨hexecutable, hstate⟩ := (hhops state).mp ⟨s₁, hexec⟩
    exact ⟨⟨Bool.not_eq_true _ ▸ failIf_eq_ok.mp hlock, hexecutable⟩, congrArg _ hstate⟩
  · rintro ⟨⟨hlock, hexecutable⟩, rfl⟩
    obtain ⟨s₁, hexec⟩ := (hhops _).mpr ⟨hexecutable, rfl⟩
    have hfinal := List.getLast?_eq_some_getLast hnonempty
    have hmin : (steps.getLast hnonempty).minAmountOut ≤
        (routeState poolsAfter steps s.assetPools).runningAmount :=
      minAmountOut_le_runningAmount hexecutable hfinal
    refine ⟨{ s₁ with reentrancyLock := false }, ?_⟩
    rw [executeRoute, failIf_of_not (by rw [hlock]; decide), ok_bind]
    dsimp only
    rw [hlocked, ok_bind, hexec, ok_bind]
    dsimp only
    rw [hfinal, okOr_some, ok_bind, failIf_of_not hmin.not_gt, ok_bind]
    rfl

/-- The subtraction traps exactly when the priced output is above a positive ideal output. -/
theorem priceImpact_eq (running : ℕ) (hideal : ideal < 2 ^ 64) :
    (0 < ideal ∧ ideal < running) ∧ priceImpact ideal running = .error .trap ∨
      ¬ (0 < ideal ∧ ideal < running) ∧ ∃ impact, priceImpact ideal running = .ok impact := by
  rw [priceImpact]
  split_ifs with hpos
  · by_cases hle : running ≤ ideal
    · have hscaled : (ideal - running) * 10000 < 2 ^ 128 := by omega
      rw [okOr_checkedSub hle, ok_bind, okOr_checkBits hscaled, ok_bind]
      exact .inr ⟨fun h => hle.not_gt h.2, _, rfl⟩
    · rw [checkedSub, if_neg hle]
      exact .inl ⟨⟨hpos, not_le.mp hle⟩, rfl⟩
  · exact .inr ⟨fun h => hpos h.1, _, rfl⟩

theorem priceImpact_le (h : priceImpact ideal running = .ok impact) : impact ≤ 10000 := by
  rw [priceImpact] at h
  split_ifs at h with hpos
  · obtain ⟨loss, hloss, h⟩ := bind_eq_ok.mp h
    obtain ⟨scaled, hscaled, h⟩ := bind_eq_ok.mp h
    obtain ⟨-, rfl⟩ := checkedSub_eq_some.mp (okOr_eq_ok.mp hloss)
    obtain ⟨-, rfl⟩ := checkBits_eq_some.mp (okOr_eq_ok.mp hscaled)
    obtain rfl := pure_eq_ok.mp h
    exact Nat.div_le_of_le_mul (Nat.mul_le_mul_right _ (Nat.sub_le _ _))
  · obtain rfl := pure_eq_ok.mp h
    exact Nat.zero_le _

theorem chainedOutput_lt {price : CorridorFeePool → ℕ → ℕ} {x : ℕ} (pools : AssetPools)
    (hprice : ∀ pool x, x < 2 ^ 64 → price pool x < 2 ^ 64) (hx : x < 2 ^ 64) :
    chainedOutput price pools steps x < 2 ^ 64 := by
  induction steps generalizing x with
  | nil => exact hx
  | cons step steps ih => exact ih (afterFee_lt (hprice _ _ hx))

theorem entering_lt (h : ∀ step ∈ steps, step.amountIn < 2 ^ 64) : entering steps < 2 ^ 64 := by
  cases steps with
  | nil => exact Nat.two_pow_pos 64
  | cons step steps => exact h step List.mem_cons_self

theorem chainedGross_lt (pools : AssetPools) (h : ∀ step ∈ steps, step.amountIn < 2 ^ 64) :
    chainedOutput grossOutput pools steps (entering steps) < 2 ^ 64 :=
  chainedOutput_lt pools (fun pool x _ => grossOutput_lt pool x) (entering_lt h)

theorem chainedSpot_lt (pools : AssetPools) (h : ∀ step ∈ steps, step.amountIn < 2 ^ 64) :
    chainedOutput spotOutput pools steps (entering steps) < 2 ^ 64 :=
  chainedOutput_lt pools (fun _ _ hx => spotOutput_lt hx) (entering_lt h)

theorem priceImpactBps_le {quote : SimulatedSwapOutcome}
    (h : simulateRoute steps tolerance s = .ok quote) : quote.priceImpactBps ≤ 10000 := by
  rw [simulateRoute] at h
  obtain ⟨_, -, h⟩ := bind_eq_ok.mp h
  obtain ⟨_, -, h⟩ := bind_eq_ok.mp h
  obtain ⟨_, -, h⟩ := bind_eq_ok.mp h
  obtain ⟨_, -, h⟩ := bind_eq_ok.mp h
  obtain ⟨impact, himpact, h⟩ := bind_eq_ok.mp h
  obtain ⟨_, -, h⟩ := bind_eq_ok.mp h
  obtain rfl := pure_eq_ok.mp h
  exact priceImpact_le himpact

def outcome (steps : List HopStep) (tolerance : ℕ) (state : RouteComputationState)
    (impact : ℕ) : SimulatedSwapOutcome :=
  ⟨state.runningAmount, state.hopResults, state.totalFees, impact,
    state.runningAmount * (10000 - tolerance) / 10000, baseGas + steps.length * perHopGas⟩

section Accepted

variable (hfit : ReservesFit s.assetPools) (htyped : ∀ step ∈ steps, step.amountIn < 2 ^ 64)
  (hvalid : validateRoute steps s = .ok ())

include hfit htyped hvalid

theorem simulateRoute_of_ok (htolerance : tolerance ≤ 10000)
    (hok : simulateHops s steps 0 ⟨0, 0, []⟩ = .ok state) (hword : state.runningAmount < 2 ^ 64) :
    simulateRoute steps tolerance s = outcome steps tolerance state <$>
      priceImpact (chainedOutput spotOutput s.assetPools steps (entering steps))
        state.runningAmount := by
  obtain ⟨hnonempty, -, hreg⟩ := validateRoute_eq_ok hvalid
  have hscaled : state.runningAmount * (10000 - tolerance) < 2 ^ 128 :=
    mul_lt_double hword (by omega)
  rw [simulateRoute, hvalid, ok_bind, failIf_of_not htolerance.not_gt, ok_bind,
    idealHops_eq hfit hreg (if_pos rfl) (fun h => absurd h hnonempty) (entering_lt htyped),
    ok_bind, hok, ok_bind]
  cases priceImpact (chainedOutput spotOutput s.assetPools steps (entering steps))
    state.runningAmount with
  | error e => rfl
  | ok impact =>
    rw [ok_bind, okOr_checkBits hscaled, ok_bind]
    rfl

theorem simulateRoute_of_error (htolerance : tolerance ≤ 10000) {e : Fault}
    (herror : simulateHops s steps 0 ⟨0, 0, []⟩ = .error e) :
    simulateRoute steps tolerance s = .error e := by
  obtain ⟨hnonempty, -, hreg⟩ := validateRoute_eq_ok hvalid
  rw [simulateRoute, hvalid, ok_bind, failIf_of_not htolerance.not_gt, ok_bind,
    idealHops_eq hfit hreg (if_pos rfl) (fun h => absurd h hnonempty) (entering_lt htyped),
    ok_bind, herror]
  rfl

/-- The second pass is at the prices of the pools as they are, or would have paid nothing. -/
theorem simulateHops_route :
    (simulateHops s steps 0 ⟨0, 0, []⟩ = .ok (routeState (fun _ _ => id) steps s.assetPools) ∧
      (routeState (fun _ _ => id) steps s.assetPools).runningAmount =
        chainedOutput grossOutput s.assetPools steps (entering steps)) ∨
    simulateHops s steps 0 ⟨0, 0, []⟩ = .error (Fault.error .insufficientLiquidityDepth) ∧
      chainedOutput grossOutput s.assetPools steps (entering steps) = 0 := by
  obtain ⟨hnonempty, hlength, hreg⟩ := validateRoute_eq_ok hvalid
  rcases simulateHops_eq hfit hreg (totalFees_lt hlength) (if_pos rfl) (entering_lt htyped) with
    hok | herror
  · exact .inl ⟨hok, runningAmount_foldl_push _ _ _ fun h => absurd h hnonempty⟩
  · exact .inr herror

theorem simulateRoute_eq_trap (htolerance : tolerance ≤ 10000) :
    simulateRoute steps tolerance s = .error .trap ↔ PricedAboveSpot s.assetPools steps := by
  rcases simulateHops_route hfit htyped hvalid with ⟨hok, hrunning⟩ | ⟨herror, hzero⟩
  · have hword := chainedGross_lt s.assetPools htyped
    have hideal := chainedSpot_lt s.assetPools htyped
    rw [simulateRoute_of_ok hfit htyped hvalid htolerance hok (hrunning ▸ hword), hrunning,
      map_eq_error, PricedAboveSpot]
    rcases priceImpact_eq (chainedOutput grossOutput s.assetPools steps (entering steps)) hideal
      with ⟨habove, htrap⟩ | ⟨habove, impact, himpact⟩
    · exact iff_of_true htrap habove
    · rw [himpact]
      exact iff_of_false (by rintro ⟨⟩) habove
  · rw [simulateRoute_of_error hfit htyped hvalid htolerance herror]
    refine iff_of_false (fun h => Fault.noConfusion (Except.error.inj h)) fun h => ?_
    exact absurd (hzero ▸ h.2) (Nat.not_lt_zero _)

/-- Without a trap the quote says what the second pass found. -/
theorem simulateRoute_of_not_above (htolerance : tolerance ≤ 10000)
    (habove : ¬ PricedAboveSpot s.assetPools steps)
    (hok : simulateHops s steps 0 ⟨0, 0, []⟩ = .ok state) :
    ∃ impact, simulateRoute steps tolerance s = .ok (outcome steps tolerance state impact) := by
  rcases simulateHops_route hfit htyped hvalid with ⟨hquoted, hrunning⟩ | ⟨herror, -⟩
  · obtain rfl := Except.ok.inj (hquoted.symm.trans hok)
    have hword := chainedGross_lt s.assetPools htyped
    rw [simulateRoute_of_ok hfit htyped hvalid htolerance hok (hrunning ▸ hword), hrunning]
    rcases priceImpact_eq (chainedOutput grossOutput s.assetPools steps (entering steps))
      (chainedSpot_lt s.assetPools htyped) with ⟨h, -⟩ | ⟨-, impact, himpact⟩
    · exact absurd h habove
    · exact ⟨impact, map_eq_ok.mpr ⟨impact, himpact, rfl⟩⟩
  · cases herror.symm.trans hok

end Accepted

/-- The quotes agree with the execution exactly when the hops are not priced above a positive ideal
output, and a route that executes finds every pool at the price it had at first. -/
theorem quotesAgree_iff (hfit : ReservesFit s.assetPools)
    (htyped : ∀ step ∈ steps, step.amountIn < 2 ^ 64)
    (hvalid : validateRoute steps s = .ok ()) :
    QuotesAgree steps s ↔ ¬ PricedAboveSpot s.assetPools steps ∧
      (s.reentrancyLock = false → Executable steps (entering steps) s.assetPools →
        SamePrices s.assetPools steps (entering steps) s.assetPools) := by
  obtain ⟨-, hlength, hreg⟩ := validateRoute_eq_ok hvalid
  have hword := chainedGross_lt s.assetPools htyped
  constructor
  · rintro ⟨htrap, hagree, -⟩
    refine ⟨fun habove => htrap 0 ?_, fun hlock hexec => ?_⟩
    · exact (simulateRoute_eq_trap hfit htyped hvalid (Nat.zero_le _)).mpr habove
    · obtain ⟨s', hroute⟩ := (executeRoute_iff hfit hvalid).mpr ⟨⟨hlock, hexec⟩, rfl⟩
      obtain ⟨quote, hquote, -, hdetails, -⟩ :=
        (hagree _ _ hroute).1 0 (Nat.zero_le _)
      rcases simulateHops_route hfit htyped hvalid with ⟨hok, hrunning⟩ | ⟨herror, -⟩
      · rw [simulateRoute_of_ok hfit htyped hvalid (Nat.zero_le _) hok (hrunning ▸ hword)]
          at hquote
        obtain ⟨impact, -, rfl⟩ := map_eq_ok.mp hquote
        have hresults : (routeState (fun _ _ => id) steps s.assetPools).hopResults =
            (routeState poolsAfter steps s.assetPools).hopResults := hdetails
        rw [routeState, routeState, hopResults_foldl_push, hopResults_foldl_push] at hresults
        exact samePrices_of_eq hresults.symm
      · rw [simulateRoute_of_error hfit htyped hvalid (Nat.zero_le _) herror] at hquote
        cases hquote
  · rintro ⟨habove, hsame⟩
    refine ⟨fun tolerance htrap => ?_, fun result s' hroute => ?_, fun _ _ => priceImpactBps_le⟩
    · by_cases htolerance : tolerance ≤ 10000
      · exact habove ((simulateRoute_eq_trap hfit htyped hvalid htolerance).mp htrap)
      · rw [simulateRoute, hvalid, ok_bind, failIf, if_pos (not_le.mp htolerance)] at htrap
        cases htrap
    · obtain ⟨⟨hlock, hexec⟩, rfl⟩ := (executeRoute_iff hfit hvalid).mp ⟨s', hroute⟩
      have hok : simulateHops s steps 0 ⟨0, 0, []⟩ =
          .ok (routeState poolsAfter steps s.assetPools) :=
        simulateHops_of_samePrices hfit hreg (totalFees_lt hlength) (if_pos rfl)
          (entering_lt htyped) hexec (hsame hlock hexec)
      refine ⟨fun tolerance htolerance => ?_, ?_⟩
      · obtain ⟨impact, himpact⟩ :=
          simulateRoute_of_not_above hfit htyped hvalid htolerance habove hok
        exact ⟨_, himpact, rfl, rfl, rfl⟩
      · obtain ⟨impact, himpact⟩ :=
          simulateRoute_of_not_above hfit htyped hvalid (Nat.zero_le 10000) habove hok
        rw [estimateRoute, himpact]
        rfl

end Quotes

section Sample

theorem reservesFit_savePool {s : RouterStore} {asset : AssetId} {pool : CorridorFeePool}
    (h : ReservesFit s.assetPools) (hcollected : pool.collected < 2 ^ 64)
    (hvariable : pool.variablePool < 2 ^ 64) : ReservesFit (s.savePool asset pool).assetPools := by
  intro other
  rw [assetPools_savePool]
  by_cases hasset : other = asset
  · rw [hasset, Function.update_self]
    exact ⟨hcollected, hvariable⟩
  · rw [Function.update_of_ne hasset]
    exact h other

def noPools : RouterStore := ⟨∅, false⟩

theorem reservesFit_noPools : ReservesFit noPools.assetPools :=
  fun _ => ⟨Nat.two_pow_pos 64, Nat.two_pow_pos 64⟩

/-- Two pools with a billion of each side. -/
def filledPools : RouterStore :=
  (noPools.savePool 1 ⟨1, 1000000000, 1000000000⟩).savePool 2 ⟨2, 1000000000, 1000000000⟩

theorem reservesFit_filledPools : ReservesFit filledPools.assetPools :=
  reservesFit_savePool (reservesFit_savePool reservesFit_noPools (by norm_num) (by norm_num))
    (by norm_num) (by norm_num)

/-- A hop through a filled pool is quoted as it executes. -/
theorem quotesAgree_filledPools : QuotesAgree [⟨1, 2, 1000000, 0⟩] filledPools := by
  refine (quotesAgree_iff reservesFit_filledPools (by decide) (by decide +kernel)).mpr ⟨?_, ?_⟩
  · rw [PricedAboveSpot]
    decide +kernel
  · exact fun _ _ => ⟨rfl, trivial⟩

/-- A pool that has collected nothing. -/
def uncollectedPool : RouterStore := noPools.savePool 1 ⟨1, 0, 1000000000⟩

/-- A route that comes back to its first asset. -/
def returningRoute : List HopStep :=
  [⟨1, 2, 1000000, 0⟩, ⟨2, 1, 1000000, 0⟩, ⟨1, 2, 1000000, 0⟩]

/-- Of the route that comes back, the third hop is quoted at another price than it executes at. -/
theorem quotes_disagree :
    (ReservesFit uncollectedPool.assetPools ∧
      validateRoute [⟨1, 2, 10000, 0⟩] uncollectedPool = .ok () ∧
      ¬ QuotesAgree [⟨1, 2, 10000, 0⟩] uncollectedPool) ∧
    ReservesFit filledPools.assetPools ∧ validateRoute returningRoute filledPools = .ok () ∧
      ¬ QuotesAgree returningRoute filledPools := by
  refine ⟨⟨?_, by decide +kernel, ?_⟩, reservesFit_filledPools, by decide +kernel, ?_⟩
  · exact reservesFit_savePool reservesFit_noPools (Nat.two_pow_pos 64) (by norm_num)
  · rintro ⟨htrap, -⟩
    exact htrap 0 (by decide +kernel)
  · rintro ⟨-, hagree, -⟩
    have hexecuted : RouteResult.finalAmountOut <$> Prod.fst <$>
        executeRoute returningRoute filledPools = .ok 987086 := by decide +kernel
    have hquoted : estimateRoute returningRoute filledPools = .ok 988069 := by decide +kernel
    obtain ⟨result, hresult, hfinal⟩ := map_eq_ok.mp hexecuted
    obtain ⟨s', hroute⟩ := fst_map_eq_ok.mp hresult
    rw [(hagree result s' hroute).2, hfinal] at hquoted
    exact absurd (Except.ok.inj hquoted) (by decide)

end Sample

end StellarFlow.Router
