import StellarFlow.Amm.TickPrice
import StellarFlow.Foundation.Heron

/-!
# Swaps across ticks

A simulated swap walks along the initialised ticks. A step prices the range up to the next
tick, takes in what moves the price across it, net of the fee, and crosses the tick at its
end. The search for the next tick includes the current one, so after the first crossing the
walk stays where it is and crosses the same tick until its steps are used up. The signed net
liquidity is cast to an unsigned value on the way up and negated on the way down.
-/
namespace StellarFlow.Amm

open Foundation

/-- The bits of a signed value read as an unsigned one. -/
def asU64 (x : ℤ) : ℕ := (x % 2 ^ 64).toNat

/-- The next initialised tick in the direction of the swap, the current one included. -/
def findNextInitializedTick (p : Pools) (asset : AssetId) (currentTick : ℤ)
    (directionUp : Bool) : Option ℤ :=
  let list := p.getTickList asset
  let idx := binarySearchTick list currentTick
  if directionUp then list[idx]?.filter fun t => currentTick ≤ t
  else if list[idx]? = some currentTick then some currentTick
  else if 0 < idx then list[idx - 1]?
  else none

/-- Floor of the square root by Heron's method. The sums of the iteration stay below the
first one, which is checked. -/
def integerSqrt (val : ℤ) : Except Fault ℤ := do
  failIf (val < 0) (Fault.error .overflow)
  if val = 0 then pure 0
  else do
    let sum ← okOr (i128.check (val + 1)) Fault.trap
    pure (Heron.loop val.toNat val.toNat (sum.toNat / 2))

/-- Distance of two square roots. -/
def sqrtDiff (sqrtA sqrtB : ℤ) : Except Fault ℤ :=
  if sqrtA < sqrtB then okOr (i128.check (sqrtB - sqrtA)) (Fault.error .overflow)
  else okOr (i128.check (sqrtA - sqrtB)) (Fault.error .overflow)

/-- Input that moves the price across a range. -/
def computeStepInput (priceA priceB : ℤ) (liquidity : ℕ) : Except Fault ℕ := do
  let sqrtA ← integerSqrt priceA
  let sqrtB ← integerSqrt priceB
  let diff ← sqrtDiff sqrtA sqrtB
  let product ← okOr (i128.check (liquidity * diff)) (Fault.error .overflow)
  let input ← okOr (i128.checkedDiv product priceScale) (Fault.error .divisionByZero)
  pure (asU64 input)

/-- Output that moving the price across a range produces. -/
def computeStepOutput (priceA priceB : ℤ) (liquidity : ℕ) : Except Fault ℕ := do
  let sqrtA ← integerSqrt priceA
  let sqrtB ← integerSqrt priceB
  let diff ← sqrtDiff sqrtA sqrtB
  let sqrtProduct ← okOr (i128.check (sqrtA * sqrtB)) (Fault.error .overflow)
  failIf (sqrtProduct = 0) (Fault.error .divisionByZero)
  let scaled ← okOr (i128.check (liquidity * priceScale)) (Fault.error .overflow)
  let numerator ← okOr (i128.check (scaled * diff)) (Fault.error .overflow)
  let output ← okOr (i128.checkedDiv numerator sqrtProduct) (Fault.error .divisionByZero)
  pure (asU64 output)

/-- The input of a step net of the fee, and its output. -/
def stepAmounts (currentTick nextTick : ℤ) (liquidity feeBps : ℕ) : Except Fault (ℕ × ℕ) := do
  let priceStart ← tickToPrice currentTick
  let priceEnd ← tickToPrice nextTick
  let stepIn ← computeStepInput priceStart priceEnd liquidity
  let product ← okOr (checkBits 128 (stepIn * feeBps)) (Fault.error .overflow)
  let netIn ← okOr (checkedSub stepIn (product / 10000)) (Fault.error .overflow)
  let stepOut ← computeStepOutput priceStart priceEnd liquidity
  pure (netIn, stepOut)

/-- Output in proportion to the part of the input that is there. -/
def partialOutput (netIn stepOut consumed : ℕ) : Except Fault ℕ :=
  if 0 < netIn then do
    let product ← okOr (checkBits 128 (stepOut * consumed)) (Fault.error .overflow)
    pure (product / netIn % 2 ^ 64)
  else pure 0

/-- The liquidity on the other side of a tick. Upwards the cast net liquidity is added with a
check; downwards its negation, which panics for the least value, is taken off and saturates. -/
def crossLiquidity (directionUp : Bool) (liquidity : ℕ) (liquidityNet : ℤ) : Except Fault ℕ :=
  if directionUp then
    okOr (checkBits 64 (liquidity + asU64 liquidityNet)) (Fault.error .overflow)
  else do
    let negated ← okOr (i64.check (-liquidityNet)) Fault.trap
    pure (liquidity - asU64 negated)

structure SwapTickResult where
  finalTick : ℤ
  finalLiquidity : ℕ
  amountIn : ℕ
  amountOut : ℕ
  crossings : ℕ
  deriving DecidableEq, Repr

structure SwapStep where
  startTick : ℤ
  endTick : ℤ
  liquidity : ℕ
  stepAmountIn : ℕ
  stepAmountOut : ℕ
  deriving DecidableEq, Repr

/-- The variables of the swap loop. -/
structure SwapWalk where
  remainingIn : ℕ
  totalOut : ℕ
  crossings : ℕ
  currentTick : ℤ
  currentLiquidity : ℕ
  steps : List SwapStep
  deriving DecidableEq, Repr

/-- The walk ends at the first and the last tick, which are never crossed. -/
def IsBoundary (tick : ℤ) : Prop := tick = maxTickIndex ∨ tick = minTickIndex

instance (tick : ℤ) : Decidable (IsBoundary tick) := inferInstanceAs (Decidable (_ ∨ _))

section Simulation

variable (p : Pools) (asset : AssetId) (directionUp : Bool) (feeBps : ℕ)

/-- The tick where the step from the current one ends. -/
def nextSwapTick (currentTick : ℤ) : ℤ :=
  (findNextInitializedTick p asset currentTick directionUp).getD
    (if directionUp then maxTickIndex else minTickIndex)

/-- The body of the swap loop. -/
def walkStep (w : SwapWalk) : Except Fault SwapWalk := do
  let nextTick := nextSwapTick p asset directionUp w.currentTick
  let (netIn, stepOut) ← stepAmounts w.currentTick nextTick w.currentLiquidity feeBps
  let consumed := if netIn ≤ w.remainingIn then netIn else w.remainingIn
  let actualOut ← partialOutput netIn stepOut consumed
  let steps := w.steps ++ [⟨w.currentTick, nextTick, w.currentLiquidity, consumed, actualOut⟩]
  let totalOut ← okOr (checkBits 64 (w.totalOut + actualOut)) (Fault.error .overflow)
  let remainingIn := w.remainingIn - consumed
  if IsBoundary nextTick then
    pure ⟨remainingIn, totalOut, w.crossings, nextTick, w.currentLiquidity, steps⟩
  else do
    let currentLiquidity ← crossLiquidity directionUp w.currentLiquidity
      (p.getTickData asset nextTick).liquidityNet
    let crossings ← okOr (checkBits 32 (w.crossings + 1)) Fault.trap
    pure ⟨remainingIn, totalOut, crossings, nextTick, currentLiquidity, steps⟩

/-- The swap loop with the number of iterations left. -/
def walkLoop : ℕ → SwapWalk → Except Fault SwapWalk
  | 0, w => pure w
  | n + 1, w =>
    if w.remainingIn = 0 then pure w
    else do
      let w ← walkStep p asset directionUp feeBps w
      if IsBoundary w.currentTick then pure w else walkLoop n w

/-- Simulate a swap, without changing anything. -/
def simulateSwapAcrossTicks (startTick : ℤ) (startLiquidity amountIn : ℕ) :
    Except Fault (SwapTickResult × List SwapStep) := do
  failIf (amountIn = 0) (Fault.error .zeroSwapAmount)
  failIf (startLiquidity = 0) (Fault.error .insufficientLiquidityDepth)
  let pool ← p.getTickIndex asset
  let maxIterations ← okOr (checkBits 32 (pool.tickCount + 1)) Fault.trap
  let w ← walkLoop p asset directionUp feeBps maxIterations
    ⟨amountIn, 0, 0, startTick, startLiquidity, []⟩
  let consumed ← okOr (checkedSub amountIn w.remainingIn) Fault.trap
  pure (⟨w.currentTick, w.currentLiquidity, consumed, w.totalOut, w.crossings⟩, w.steps)

end Simulation

/-! ## The search -/

section Search

variable {list : List ℤ} {target : ℤ} {lo hi : ℕ}

/-- The position separates the ticks below the target from the others. -/
structure Separates (list : List ℤ) (target : ℤ) (pos : ℕ) : Prop where
  below : ∀ i tick, i < pos → list[i]? = some tick → tick < target
  above : ∀ i tick, pos ≤ i → list[i]? = some tick → target ≤ tick

theorem lt_of_sorted (hsorted : list.Pairwise (· < ·)) {i j : ℕ} {x y : ℤ} (hij : i < j)
    (hx : list[i]? = some x) (hy : list[j]? = some y) : x < y := by
  obtain ⟨hi, rfl⟩ := List.getElem?_eq_some_iff.mp hx
  obtain ⟨hj, rfl⟩ := List.getElem?_eq_some_iff.mp hy
  exact List.pairwise_iff_getElem.mp hsorted i j hi hj hij

theorem le_of_sorted (hsorted : list.Pairwise (· < ·)) {i j : ℕ} {x y : ℤ} (hij : i ≤ j)
    (hx : list[i]? = some x) (hy : list[j]? = some y) : x ≤ y := by
  rcases Nat.lt_or_eq_of_le hij with hlt | rfl
  · exact (lt_of_sorted hsorted hlt hx hy).le
  · exact (Option.some.inj (hx.symm.trans hy)).le

/-- What lies outside the bounds of the search is already decided. -/
theorem binarySearchLoop_separates (hsorted : list.Pairwise (· < ·)) (hhi : hi ≤ list.length)
    (hbelow : ∀ i tick, i < lo → list[i]? = some tick → tick < target)
    (habove : ∀ i tick, hi ≤ i → list[i]? = some tick → target ≤ tick) :
    Separates list target (binarySearchLoop list target lo hi) := by
  fun_induction binarySearchLoop list target lo hi with
  | case1 lo hi hlt mid hval =>
    exact ⟨fun i tick hi htick => lt_of_sorted hsorted hi htick hval,
      fun i tick hi htick => le_of_sorted hsorted hi hval htick⟩
  | case2 lo hi hlt mid val hval hne hless ih =>
    refine ih hhi (fun i tick hi htick => ?_) habove
    exact (le_of_sorted hsorted (Nat.le_of_lt_succ hi) htick hval).trans_lt hless
  | case3 lo hi hlt mid val hval hne hless ih =>
    refine ih (by omega) hbelow fun i tick hi htick => ?_
    exact (not_lt.mp hless).trans (le_of_sorted hsorted hi hval htick)
  | case4 lo hi hlt mid hnone ih =>
    rw [List.getElem?_eq_none_iff] at hnone
    omega
  | case5 lo hi hle =>
    exact ⟨hbelow, fun i tick hi htick => habove i tick (by omega) htick⟩

theorem binarySearchTick_separates (hsorted : list.Pairwise (· < ·)) :
    Separates list target (binarySearchTick list target) := by
  refine binarySearchLoop_separates hsorted le_rfl (fun i tick hi => absurd hi (by omega))
    fun i tick hi htick => ?_
  rw [List.getElem?_eq_none_iff.mpr hi] at htick
  cases htick

/-- A listed target is found. -/
theorem getElem?_binarySearchTick (hsorted : list.Pairwise (· < ·)) (hmem : target ∈ list) :
    list[binarySearchTick list target]? = some target := by
  have hsep : Separates list target (binarySearchTick list target) :=
    binarySearchTick_separates hsorted
  obtain ⟨k, hk⟩ := List.getElem?_of_mem hmem
  have hle : binarySearchTick list target ≤ k := by
    by_contra hlt
    exact lt_irrefl _ (hsep.below k target (not_le.mp hlt) hk)
  obtain ⟨hbound, _⟩ := List.getElem?_eq_some_iff.mp hk
  have hpos := List.getElem?_eq_getElem (hle.trans_lt hbound)
  have hge := hsep.above _ _ le_rfl hpos
  rw [hpos, (le_of_sorted hsorted hle hpos hk).antisymm hge]

variable {p : Pools} {asset : AssetId} {tick : ℤ} {up : Bool}

theorem mem_of_findNext (h : findNextInitializedTick p asset tick up = some target) :
    target ∈ p.getTickList asset := by
  unfold findNextInitializedTick at h
  simp only at h
  split_ifs at h with hup hat hpos
  · exact List.mem_of_getElem? (Option.filter_eq_some_iff.mp h).1
  · exact List.mem_of_getElem? (hat.trans h)
  · exact List.mem_of_getElem? h

/-- The search stays at a tick that is initialised. -/
theorem findNext_self (hsorted : (p.getTickList asset).Pairwise (· < ·))
    (hmem : tick ∈ p.getTickList asset) :
    findNextInitializedTick p asset tick up = some tick := by
  have hat := getElem?_binarySearchTick hsorted hmem
  unfold findNextInitializedTick
  cases up with
  | true => simp [hat]
  | false => simp [hat]

end Search

/-! ## One step -/

section Step

variable {p : Pools} {asset : AssetId} {up : Bool} {feeBps : ℕ}

theorem integerSqrt_eq_ok {v : ℕ} {r : ℤ} (h : integerSqrt v = .ok r) : r = Nat.sqrt v := by
  simp only [integerSqrt, bind_eq_ok, failIf_eq_ok] at h
  obtain ⟨_, _, h⟩ := h
  split_ifs at h with hzero
  · rw [← pure_eq_ok.mp h, Int.natCast_eq_zero.mp hzero]
    rfl
  · simp only [bind_eq_ok, okOr_eq_ok, IntRange.check_eq_some, pure_eq_ok] at h
    obtain ⟨_, ⟨_, rfl⟩, rfl⟩ := h
    have hpos : 0 < v := by omega
    have hnext : ((v : ℤ) + 1).toNat / 2 = Heron.next v v := by
      rw [Heron.next, Nat.div_self hpos]
      omega
    rw [hnext, Int.toNat_natCast, Heron.loop_eq_sqrt hpos hpos (by nlinarith)]

/-- The tick has a price above zero. -/
def Priced (tick : ℤ) : Prop := minPricedTick ≤ tick ∧ tick ≤ maxPricedTick

/-- Distance of the square roots of two prices. -/
def sqrtDistance (priceA priceB : ℕ) : ℕ :=
  (Nat.sqrt priceA - Nat.sqrt priceB) + (Nat.sqrt priceB - Nat.sqrt priceA)

/-- Input that moves the price from one tick to the other, cast to the type of an amount. -/
def rangeInput (startTick endTick : ℤ) (liquidity : ℕ) : ℕ :=
  liquidity * sqrtDistance (compounded startTick) (compounded endTick) / 10 ^ 7 % 2 ^ 64

/-- The input less the fee on it. -/
def netRangeInput (startTick endTick : ℤ) (liquidity feeBps : ℕ) : ℕ :=
  rangeInput startTick endTick liquidity - rangeInput startTick endTick liquidity * feeBps / 10000

theorem sqrtDiff_eq_ok {a b : ℕ} {r : ℤ} (h : sqrtDiff (Nat.sqrt a) (Nat.sqrt b) = .ok r) :
    r = sqrtDistance a b := by
  unfold sqrtDiff at h
  unfold sqrtDistance
  split_ifs at h with hlt
  · simp only [okOr_eq_ok, IntRange.check_eq_some] at h
    omega
  · simp only [okOr_eq_ok, IntRange.check_eq_some] at h
    omega

theorem computeStepInput_eq_ok {a b liquidity r : ℕ} (h : computeStepInput a b liquidity = .ok r) :
    r = liquidity * sqrtDistance a b / 10 ^ 7 % 2 ^ 64 := by
  simp only [computeStepInput, bind_eq_ok, okOr_eq_ok, IntRange.check_eq_some, pure_eq_ok] at h
  obtain ⟨sqrtA, hA, sqrtB, hB, diff, hdiff, product, ⟨hfits, rfl⟩, input, hinput, rfl⟩ := h
  obtain rfl := integerSqrt_eq_ok hA
  obtain rfl := integerSqrt_eq_ok hB
  obtain rfl := sqrtDiff_eq_ok hdiff
  rw [← Nat.cast_mul] at hfits hinput
  rw [IntRange.checkedDiv_of_nonneg hfits (Int.natCast_nonneg _) (by norm_num [priceScale]),
    Option.some_inj] at hinput
  rw [← hinput, asU64, priceScale]
  norm_cast

/-- A price of zero has a root of zero, by which the output cannot be divided. -/
theorem computeStepOutput_pos {a b liquidity r : ℕ}
    (h : computeStepOutput a b liquidity = .ok r) : 0 < a ∧ 0 < b := by
  simp only [computeStepOutput, bind_eq_ok, okOr_eq_ok, failIf_eq_ok, IntRange.check_eq_some] at h
  obtain ⟨sqrtA, hA, sqrtB, hB, _, _, _, ⟨_, rfl⟩, _, hne, _⟩ := h
  obtain rfl := integerSqrt_eq_ok hA
  obtain rfl := integerSqrt_eq_ok hB
  constructor
  · refine Nat.pos_of_ne_zero fun hzero => hne ?_
    simp [hzero]
  · refine Nat.pos_of_ne_zero fun hzero => hne ?_
    simp [hzero]

theorem tickToPrice_eq_ok {tick price : ℤ} (h : tickToPrice tick = .ok price) :
    tick ≤ maxPricedTick ∧ price = compounded tick := by
  rw [tickToPrice_eq] at h
  split_ifs at h with hmax
  exact ⟨hmax, (Except.ok.inj h).symm⟩

/-- A step between two ticks needs a price at both. -/
theorem stepAmounts_eq_ok {startTick endTick : ℤ} {liquidity netIn stepOut : ℕ}
    (h : stepAmounts startTick endTick liquidity feeBps = .ok (netIn, stepOut)) :
    Priced endTick ∧ netIn = netRangeInput startTick endTick liquidity feeBps := by
  simp only [stepAmounts, bind_eq_ok, okOr_eq_ok, checkBits_eq_some, checkedSub_eq_some,
    pure_eq_ok, Prod.mk.injEq] at h
  obtain ⟨priceStart, hstart, priceEnd, hend, stepIn, hin, _, ⟨_, rfl⟩, _, ⟨_, rfl⟩, _, hout,
    rfl, rfl⟩ := h
  obtain ⟨_, rfl⟩ := tickToPrice_eq_ok hstart
  obtain ⟨hmax, rfl⟩ := tickToPrice_eq_ok hend
  obtain rfl := computeStepInput_eq_ok hin
  exact ⟨⟨compounded_pos_iff.mp (computeStepOutput_pos hout).2, hmax⟩, rfl⟩

theorem Priced.not_boundary {tick : ℤ} (h : Priced tick) : ¬ IsBoundary tick := by
  unfold Priced minPricedTick maxPricedTick at h
  unfold IsBoundary minTickIndex maxTickIndex
  omega

/-- What a successful step records and leaves. -/
structure Stepped (p : Pools) (asset : AssetId) (up : Bool) (feeBps : ℕ) (w : SwapWalk)
    (s : SwapStep) (w' : SwapWalk) : Prop where
  end_eq : s.endTick = nextSwapTick p asset up w.currentTick
  liquidity_eq : s.liquidity = w.currentLiquidity
  amountIn_eq : s.stepAmountIn =
    min (netRangeInput w.currentTick s.endTick w.currentLiquidity feeBps) w.remainingIn
  listed : s.endTick ∈ p.getTickList asset
  priced : Priced s.endTick
  crossed : crossLiquidity up s.liquidity (p.getTickData asset s.endTick).liquidityNet =
    .ok w'.currentLiquidity
  steps_eq : w'.steps = w.steps ++ [s]
  current_eq : w'.currentTick = s.endTick
  remaining_eq : w'.remainingIn = w.remainingIn - s.stepAmountIn
  total_eq : w'.totalOut = w.totalOut + s.stepAmountOut
  crossings_eq : w'.crossings = w.crossings + 1

/-- The next tick of a step with a price is an initialised one: both ends of the range are
without a price. -/
theorem nextSwapTick_mem {tick : ℤ} (h : Priced (nextSwapTick p asset up tick)) :
    nextSwapTick p asset up tick ∈ p.getTickList asset := by
  have hboundary := h.not_boundary
  unfold nextSwapTick at hboundary ⊢
  cases hnext : findNextInitializedTick p asset tick up with
  | some next => exact mem_of_findNext hnext
  | none =>
    rw [hnext, Option.getD_none] at hboundary
    cases up with
    | true => exact absurd (.inl rfl) hboundary
    | false => exact absurd (.inr rfl) hboundary

theorem walkStep_stepped {w w' : SwapWalk} (h : walkStep p asset up feeBps w = .ok w') :
    ∃ s, Stepped p asset up feeBps w s w' := by
  simp only [walkStep, bind_eq_ok, okOr_eq_ok, checkBits_eq_some, Prod.exists] at h
  obtain ⟨netIn, stepOut, hamounts, actualOut, _, _, ⟨_, rfl⟩, h⟩ := h
  obtain ⟨hpriced, hnet⟩ := stepAmounts_eq_ok hamounts
  rw [if_neg hpriced.not_boundary] at h
  simp only [bind_eq_ok, okOr_eq_ok, checkBits_eq_some, pure_eq_ok] at h
  obtain ⟨currentLiquidity, hcross, _, ⟨_, rfl⟩, rfl⟩ := h
  refine ⟨⟨w.currentTick, nextSwapTick p asset up w.currentTick, w.currentLiquidity,
    if netIn ≤ w.remainingIn then netIn else w.remainingIn, actualOut⟩, ?_⟩
  exact {
    end_eq := rfl
    liquidity_eq := rfl
    amountIn_eq := by rw [← hnet, min_def]
    listed := nextSwapTick_mem hpriced
    priced := hpriced
    crossed := hcross
    steps_eq := rfl
    current_eq := rfl
    remaining_eq := rfl
    total_eq := rfl
    crossings_eq := rfl }

end Step

/-! ## The walk -/

section Walk

variable {p : Pools} {asset : AssetId} {up : Bool} {feeBps n : ℕ} {w w' : SwapWalk}

/-- The loop stops before a step or takes one and goes on. -/
theorem walkLoop_succ (h : walkLoop p asset up feeBps (n + 1) w = .ok w') :
    w.remainingIn = 0 ∧ w' = w ∨
      w.remainingIn ≠ 0 ∧ ∃ s w₁, Stepped p asset up feeBps w s w₁ ∧
        walkLoop p asset up feeBps n w₁ = .ok w' := by
  rw [walkLoop] at h
  split_ifs at h with hzero
  · exact .inl ⟨hzero, (pure_eq_ok.mp h).symm⟩
  · rw [bind_eq_ok] at h
    obtain ⟨w₁, hstep, h⟩ := h
    obtain ⟨s, hs⟩ := walkStep_stepped hstep
    rw [hs.current_eq, if_neg hs.priced.not_boundary] at h
    exact .inr ⟨hzero, s, w₁, hs, h⟩

/-- What every step keeps holds when the walk ends. -/
theorem walkLoop_induction (Inv : SwapWalk → Prop) (h0 : Inv w)
    (hstep : ∀ w s w₁, Inv w → Stepped p asset up feeBps w s w₁ → Inv w₁)
    (h : walkLoop p asset up feeBps n w = .ok w') : Inv w' := by
  induction n generalizing w with
  | zero =>
    rw [← pure_eq_ok.mp h]
    exact h0
  | succ n ih =>
    rcases walkLoop_succ h with ⟨_, rfl⟩ | ⟨_, s, w₁, hs, h⟩
    · exact h0
    · exact ih (hstep w s w₁ h0 hs) h

theorem walkLoop_steps_append (h : walkLoop p asset up feeBps n w = .ok w') :
    ∃ later, w'.steps = w.steps ++ later := by
  refine walkLoop_induction (fun w₁ => ∃ later, w₁.steps = w.steps ++ later)
    ⟨[], (List.append_nil _).symm⟩ ?_ h
  rintro w₁ s w₂ ⟨later, hlater⟩ hs
  exact ⟨later ++ [s], by rw [hs.steps_eq, hlater, List.append_assoc]⟩

/-- The accumulators of the loop are the sums over its steps. -/
structure SwapWalk.Booked (amountIn : ℕ) (w : SwapWalk) : Prop where
  amountIn_eq : w.remainingIn + (w.steps.map SwapStep.stepAmountIn).sum = amountIn
  amountOut_eq : w.totalOut = (w.steps.map SwapStep.stepAmountOut).sum
  crossings_eq : w.crossings = w.steps.countP fun s => ¬ IsBoundary s.endTick

theorem Stepped.booked {amountIn : ℕ} {s : SwapStep} (hw : w.Booked amountIn)
    (hs : Stepped p asset up feeBps w s w') : w'.Booked amountIn where
  amountIn_eq := by
    have hle : s.stepAmountIn ≤ w.remainingIn := hs.amountIn_eq ▸ min_le_right _ _
    have hsum := hw.amountIn_eq
    rw [hs.remaining_eq, hs.steps_eq, List.map_append, List.sum_append, List.map_singleton,
      List.sum_singleton]
    omega
  amountOut_eq := by
    rw [hs.total_eq, hs.steps_eq, List.map_append, List.sum_append, hw.amountOut_eq,
      List.map_singleton, List.sum_singleton]
  crossings_eq := by
    rw [hs.crossings_eq, hs.steps_eq, List.countP_append, hw.crossings_eq]
    simp [hs.priced.not_boundary]

end Walk

/-! ## Progress -/

section Progress

variable {p : Pools} {asset : AssetId} {up : Bool} {feeBps : ℕ} {startTick : ℤ}
  {startLiquidity amountIn : ℕ} {result : SwapTickResult} {steps : List SwapStep}

/-- The later tick lies further in the direction of the swap. -/
def Ahead (up : Bool) (tick tick' : ℤ) : Prop := if up then tick < tick' else tick' < tick

theorem Ahead.ne {tick tick' : ℤ} (h : Ahead up tick tick') : tick ≠ tick' := by
  unfold Ahead at h
  split_ifs at h with hup
  · exact h.ne
  · exact h.ne'

/-- The steps move strictly, cross no initialised tick twice and add up to the result. -/
structure Traverses (p : Pools) (asset : AssetId) (up : Bool) (result : SwapTickResult)
    (steps : List SwapStep) : Prop where
  strict : (steps.map SwapStep.endTick).Pairwise (Ahead up)
  once : ∀ tick ∈ p.getTickList asset, (steps.map SwapStep.endTick).count tick ≤ 1
  amountIn_eq : result.amountIn = (steps.map SwapStep.stepAmountIn).sum
  amountOut_eq : result.amountOut = (steps.map SwapStep.stepAmountOut).sum
  crossings_eq : result.crossings = steps.countP fun s => ¬ IsBoundary s.endTick

/-- The walk of a successful simulation. -/
theorem simulateSwapAcrossTicks_eq_ok
    (h : simulateSwapAcrossTicks p asset up feeBps startTick startLiquidity amountIn =
      .ok (result, steps)) :
    amountIn ≠ 0 ∧ ∃ pool w, p.getTickIndex asset = .ok pool ∧
      walkLoop p asset up feeBps (pool.tickCount + 1)
        ⟨amountIn, 0, 0, startTick, startLiquidity, []⟩ = .ok w ∧
      w.steps = steps ∧ result =
        ⟨w.currentTick, w.currentLiquidity, amountIn - w.remainingIn, w.totalOut, w.crossings⟩ := by
  simp only [simulateSwapAcrossTicks, bind_eq_ok, failIf_eq_ok, okOr_eq_ok, checkBits_eq_some,
    checkedSub_eq_some, pure_eq_ok, Prod.mk.injEq] at h
  obtain ⟨_, hamount, _, _, pool, hpool, _, ⟨_, rfl⟩, w, hwalk, _, ⟨_, rfl⟩, hresult, hsteps⟩ := h
  exact ⟨hamount, pool, w, hpool, hwalk, hsteps, hresult.symm⟩

/-- The first range takes all of the input. -/
def EndsInFirstRange (p : Pools) (asset : AssetId) (up : Bool) (feeBps : ℕ) (startTick : ℤ)
    (startLiquidity amountIn : ℕ) : Prop :=
  amountIn ≤ netRangeInput startTick (nextSwapTick p asset up startTick) startLiquidity feeBps

/-- A single step moves on, and the books of a walk always balance. -/
theorem SwapWalk.Booked.traverses {w : SwapWalk} {s : SwapStep} (hw : w.Booked amountIn)
    (hsteps : w.steps = [s]) : Traverses p asset up
      ⟨w.currentTick, w.currentLiquidity, amountIn - w.remainingIn, w.totalOut, w.crossings⟩
      w.steps where
  strict := by
    rw [hsteps]
    exact List.pairwise_singleton _ _
  once tick _ := by
    rw [hsteps]
    exact List.count_le_length
  amountIn_eq := by
    have hsum := hw.amountIn_eq
    simp only
    omega
  amountOut_eq := hw.amountOut_eq
  crossings_eq := hw.crossings_eq

/-- The search of a second step finds the tick that the first one crossed. -/
theorem Stepped.end_eq_of_stepped {w w₁ w₂ : SwapWalk} {s s₂ : SwapStep}
    (hsorted : (p.getTickList asset).Pairwise (· < ·)) (hs : Stepped p asset up feeBps w s w₁)
    (hs₂ : Stepped p asset up feeBps w₁ s₂ w₂) : s₂.endTick = s.endTick := by
  rw [hs₂.end_eq, hs.current_eq, nextSwapTick, findNext_self hsorted hs.listed, Option.getD_some]

/-- One initialised tick with the given net liquidity, in a pool of its own. -/
def singleTickPools (tick net : ℤ) : Pools :=
  ⟨(∅ : Store AssetId TickIndexMeta).insert 1 ⟨1, 1, 0, 0, 1, 0⟩,
    (∅ : Store (AssetId × ℤ) TickData).insert (1, tick) ⟨net, net.natAbs, 0⟩,
    (∅ : Store AssetId (List ℤ)).insert 1 [tick]⟩

end Progress

end StellarFlow.Amm
