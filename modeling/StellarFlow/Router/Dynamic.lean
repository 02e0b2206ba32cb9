import StellarFlow.Foundation.BestSearch
import StellarFlow.Host

/-!
# The best route over constant-product pools

The router prices every simple path of at most three pools and keeps the one that pays most. A path
that cannot be priced is skipped, but the product after a hop is not checked, and where it does not
fit the whole search stops.
-/
namespace StellarFlow.Router.Dynamic

open Foundation

def maxRouteDepth : ℕ := 3
def maxCandidatePools : ℕ := 8
def bpsDenominator : ℕ := 10000

/-- A pool in one direction. -/
structure PoolEdge where
  pool : Address
  assetIn : AssetId
  assetOut : AssetId
  reserveIn : ℕ
  reserveOut : ℕ
  feeBps : ℕ
  deriving DecidableEq

structure HopQuote where
  pool : Address
  assetIn : AssetId
  assetOut : AssetId
  amountIn : ℕ
  amountOut : ℕ
  feePaid : ℕ
  kBefore : ℕ
  kAfter : ℕ
  deriving DecidableEq

structure RouteQuote where
  source : AssetId
  destination : AssetId
  hops : List HopQuote
  amountIn : ℕ
  amountOut : ℕ
  priceImpactBps : ℕ
  initialKProduct : ℕ
  finalKProduct : ℕ
  deriving DecidableEq

def mulDiv (a b divisor : ℕ) : Except Fault ℕ := do
  failIf (divisor = 0) (Fault.error .divisionByZero)
  let product ← okOr (checkBits 128 (a * b)) (Fault.error .overflow)
  pure (product / divisor)

def validateEdge (edge : PoolEdge) : Except Fault Unit := do
  failIf (edge.assetIn = edge.assetOut) (Fault.error .invalidInput)
  failIf (edge.reserveIn = 0 ∨ edge.reserveOut = 0) (Fault.error .insufficientLiquidityDepth)
  failIf (bpsDenominator < edge.feeBps) (Fault.error .invalidInput)

def quoteHop (edge : PoolEdge) (amountIn : ℕ) : Except Fault HopQuote := do
  failIf (amountIn = 0) (Fault.error .zeroSwapAmount)
  validateEdge edge
  let amountInAfterFee ← mulDiv amountIn (bpsDenominator - edge.feeBps) bpsDenominator
  failIf (amountInAfterFee = 0) (Fault.error .zeroSwapAmount)
  let feePaid := amountIn - amountInAfterFee
  let newReserveIn ← okOr (checkBits 128 (edge.reserveIn + amountIn)) (Fault.error .overflow)
  let numerator ← okOr (checkBits 128 (edge.reserveOut * amountInAfterFee))
    (Fault.error .overflow)
  let denominator ← okOr (checkBits 128 (edge.reserveIn + amountInAfterFee))
    (Fault.error .overflow)
  let amountOut := numerator / denominator
  failIf (amountOut = 0 ∨ edge.reserveOut ≤ amountOut)
    (Fault.error .insufficientLiquidityDepth)
  -- Neither product is checked.
  let kBefore ← okOr (checkBits 128 (edge.reserveIn * edge.reserveOut)) .trap
  let newReserveOut := edge.reserveOut - amountOut
  let kAfter ← okOr (checkBits 128 (newReserveIn * newReserveOut)) .trap
  failIf (kAfter < kBefore) (Fault.error .invariantViolation)
  pure ⟨edge.pool, edge.assetIn, edge.assetOut, amountIn, amountOut, feePaid, kBefore, kAfter⟩

def saturatingMul (a b : ℕ) : ℕ := min (a * b) (2 ^ 128 - 1)

/-- What the loop over a path carries from hop to hop. -/
structure PathState where
  running : ℕ
  initialKProduct : ℕ
  finalKProduct : ℕ
  idealOutput : ℕ
  hops : List HopQuote

/-- The loop over the indices of a path. -/
def quoteHops (edges : List PoolEdge) : List ℕ → PathState → Except Fault PathState
  | [], state => pure state
  | index :: path, state => do
    let edge ← okOr edges[index]? (Fault.error .poolNotFound)
    let hop ← quoteHop edge state.running
    quoteHops edges path
      { running := hop.amountOut
        initialKProduct := saturatingMul state.initialKProduct hop.kBefore
        finalKProduct := saturatingMul state.finalKProduct hop.kAfter
        idealOutput := saturatingMul state.idealOutput edge.reserveOut / edge.reserveIn
        hops := state.hops ++ [hop] }

def priceImpactBps (idealOutput running : ℕ) : ℕ :=
  if 0 < idealOutput ∧ running < idealOutput then
    saturatingMul (idealOutput - running) bpsDenominator / idealOutput
  else 0

def quotePath (edges : List PoolEdge) (path : List ℕ) (amountIn : ℕ)
    (source destination : AssetId) : Except Fault RouteQuote := do
  let state ← quoteHops edges path ⟨amountIn, 1, 1, amountIn, []⟩
  pure ⟨source, destination, state.hops, amountIn, state.running,
    priceImpactBps state.idealOutput state.running, state.initialKProduct, state.finalKProduct⟩

section Search

variable (edges : List PoolEdge) (source destination : AssetId) (amountIn maxHops : ℕ)

/-- The quote of a path, or nothing where the path cannot be priced. A trap is not caught. -/
def feasible (path : List ℕ) : Except Fault (Option RouteQuote) :=
  unwrapOr (some <$> quotePath edges path amountIn source destination) none

def consider (path : List ℕ) (best : Option RouteQuote) : Except Fault (Option RouteQuote) :=
  improve RouteQuote.amountOut best <$> feasible edges source destination amountIn path

/-- The loop body at depth 3. -/
def thirdHop (i j : ℕ) (second : PoolEdge) (best : Option RouteQuote) (k : ℕ) :
    Except Fault (Option RouteQuote) :=
  if k = i ∨ k = j then pure best
  else do
    let third ← okOr edges[k]? (Fault.error .poolNotFound)
    if third.assetIn ≠ second.assetOut ∨ third.assetOut ≠ destination ∨ third.assetOut = source then
      pure best
    else consider edges source destination amountIn [i, j, k] best

/-- The part of the loop body at depth 2 that prices the path itself. -/
def considerPair (i j : ℕ) (second : PoolEdge) (best : Option RouteQuote) :
    Except Fault (Option RouteQuote) :=
  if second.assetOut = destination then consider edges source destination amountIn [i, j] best
  else pure best

/-- The loop body at depth 2. -/
def secondHop (i : ℕ) (first : PoolEdge) (best : Option RouteQuote) (j : ℕ) :
    Except Fault (Option RouteQuote) :=
  if j = i then pure best
  else do
    let second ← okOr edges[j]? (Fault.error .poolNotFound)
    if second.assetIn ≠ first.assetOut ∨ second.assetOut = source then pure best
    else do
      let best ← considerPair edges source destination amountIn i j second best
      if maxHops < 3 then pure best
      else
        (List.range edges.length).foldlM
          (thirdHop edges source destination amountIn i j second) best

def considerSingle (i : ℕ) (first : PoolEdge) (best : Option RouteQuote) :
    Except Fault (Option RouteQuote) :=
  if first.assetOut = destination then consider edges source destination amountIn [i] best
  else pure best

/-- The loop body at depth 1. -/
def firstHop (best : Option RouteQuote) (i : ℕ) : Except Fault (Option RouteQuote) := do
  let first ← okOr edges[i]? (Fault.error .poolNotFound)
  if first.assetIn ≠ source then pure best
  else do
    let best ← considerSingle edges source destination amountIn i first best
    if maxHops < 2 then pure best
    else
      (List.range edges.length).foldlM
        (secondHop edges source destination amountIn maxHops i first) best

def findBestRoute : Except Fault RouteQuote := do
  failIf (amountIn = 0) (Fault.error .zeroSwapAmount)
  failIf (source = destination) (Fault.error .invalidInput)
  failIf (maxHops = 0 ∨ maxRouteDepth < maxHops) (Fault.error .invalidInput)
  failIf (maxCandidatePools < edges.length) (Fault.error .invalidInput)
  failIf (edges.length = 0) (Fault.error .poolNotFound)
  let best ← (List.range edges.length).foldlM
    (firstHop edges source destination amountIn maxHops) none
  okOr best (Fault.error .poolNotFound)

end Search

/-! ## What a hop is priced at -/

/-- The input of a hop without its fee. -/
def hopNet (edge : PoolEdge) (amountIn : ℕ) : ℕ :=
  amountIn * (bpsDenominator - edge.feeBps) / bpsDenominator

/-- The constant-product output. -/
def hopOutput (edge : PoolEdge) (amountIn : ℕ) : ℕ :=
  edge.reserveOut * hopNet edge amountIn / (edge.reserveIn + hopNet edge amountIn)

/-- The edge is well formed and pays something for the input. -/
structure Priceable (edge : PoolEdge) (amountIn : ℕ) : Prop where
  amountIn_pos : 0 < amountIn
  assets_ne : edge.assetIn ≠ edge.assetOut
  reserveIn_pos : 0 < edge.reserveIn
  reserveOut_pos : 0 < edge.reserveOut
  feeBps_le : edge.feeBps ≤ bpsDenominator
  net_pos : 0 < hopNet edge amountIn
  output_pos : 0 < hopOutput edge amountIn

/-- The product of the reserves after the hop. -/
def productAfter (edge : PoolEdge) (amountIn : ℕ) : ℕ :=
  (edge.reserveIn + amountIn) * (edge.reserveOut - hopOutput edge amountIn)

def hopQuote (edge : PoolEdge) (amountIn : ℕ) : HopQuote where
  pool := edge.pool
  assetIn := edge.assetIn
  assetOut := edge.assetOut
  amountIn := amountIn
  amountOut := hopOutput edge amountIn
  feePaid := amountIn - hopNet edge amountIn
  kBefore := edge.reserveIn * edge.reserveOut
  kAfter := productAfter edge amountIn

/-- The machine types of the reserves. -/
def PoolEdge.Fits (edge : PoolEdge) : Prop := edge.reserveIn < 2 ^ 64 ∧ edge.reserveOut < 2 ^ 64

instance (edge : PoolEdge) : Decidable edge.Fits := inferInstanceAs (Decidable (_ ∧ _))

section Hop

variable {edge : PoolEdge} {x : ℕ}

theorem hopNet_le (edge : PoolEdge) (x : ℕ) : hopNet edge x ≤ x := by
  refine Nat.div_le_of_le_mul ?_
  rw [mul_comm bpsDenominator]
  exact Nat.mul_le_mul_left _ (Nat.sub_le _ _)

theorem hopOutput_lt (h : Priceable edge x) : hopOutput edge x < edge.reserveOut := by
  have hin := h.reserveIn_pos
  refine Nat.div_lt_of_lt_mul ?_
  rw [mul_comm edge.reserveOut]
  exact Nat.mul_lt_mul_of_pos_right (by omega) h.reserveOut_pos

/-- The fee and the floor of the output stay in the pool. -/
theorem product_le_productAfter (h : Priceable edge x) :
    edge.reserveIn * edge.reserveOut ≤ productAfter edge x := by
  obtain ⟨rest, hrest⟩ := Nat.exists_eq_add_of_lt (hopOutput_lt h)
  have hfloor : hopOutput edge x * (edge.reserveIn + hopNet edge x) ≤
      edge.reserveOut * hopNet edge x := Nat.div_mul_le_self _ _
  have hnet := hopNet_le edge x
  have hleft : edge.reserveOut - hopOutput edge x = rest + 1 := by omega
  rw [productAfter, hleft]
  rw [hrest] at hfloor ⊢
  have hpaid : hopOutput edge x * edge.reserveIn ≤ (rest + 1) * hopNet edge x := by
    linarith only [hfloor]
  have hin : (rest + 1) * hopNet edge x ≤ (rest + 1) * x := Nat.mul_le_mul_left _ hnet
  linarith only [hpaid, hin]

theorem validateEdge_eq_ok : validateEdge edge = .ok () ↔ edge.assetIn ≠ edge.assetOut ∧
    0 < edge.reserveIn ∧ 0 < edge.reserveOut ∧ edge.feeBps ≤ bpsDenominator := by
  rw [validateEdge]
  constructor
  · intro h
    obtain ⟨_, hassets, h⟩ := bind_eq_ok.mp h
    obtain ⟨_, hreserves, h⟩ := bind_eq_ok.mp h
    have hreserves := failIf_eq_ok.mp hreserves
    exact ⟨failIf_eq_ok.mp hassets, by omega, by omega, not_lt.mp (failIf_eq_ok.mp h)⟩
  · rintro ⟨hassets, hin, hout, hfee⟩
    rw [failIf_of_not hassets, ok_bind, failIf_of_not (by omega), ok_bind,
      failIf_of_not hfee.not_gt]

theorem validateEdge_ne_trap : validateEdge edge ≠ .error .trap := by
  refine bind_ne_error ?_ fun _ => bind_ne_error ?_ fun _ => ?_
  all_goals exact fun h => Fault.noConfusion (failIf_eq_error.mp h).2

/-- What a hop comes to, whatever the edge. -/
theorem quoteHop_eq (hfit : edge.Fits) (hx : x < 2 ^ 64) :
    (¬ Priceable edge x ∧ ∃ c, quoteHop edge x = .error (.error c)) ∨
      Priceable edge x ∧ quoteHop edge x =
        if productAfter edge x < 2 ^ 128 then .ok (hopQuote edge x) else .error .trap := by
  rw [quoteHop]
  by_cases hzero : x = 0
  · exact .inl ⟨fun h => h.amountIn_pos.ne' hzero, .zeroSwapAmount,
      by rw [failIf, if_pos hzero]; rfl⟩
  rw [failIf_of_not hzero, ok_bind]
  cases hedge : validateEdge edge with
  | error e =>
    cases e with
    | trap => exact absurd hedge validateEdge_ne_trap
    | error c =>
      refine .inl ⟨fun h => ?_, c, rfl⟩
      rw [validateEdge_eq_ok.mpr
        ⟨h.assets_ne, h.reserveIn_pos, h.reserveOut_pos, h.feeBps_le⟩] at hedge
      cases hedge
  | ok _ =>
    obtain ⟨hassets, hin, hout, hfee⟩ := validateEdge_eq_ok.mp hedge
    have hnet := hopNet_le edge x
    have hscaled : x * (bpsDenominator - edge.feeBps) < 2 ^ 128 := by
      refine mul_lt_double hx ?_
      rw [bpsDenominator]
      omega
    have hnetEq : mulDiv x (bpsDenominator - edge.feeBps) bpsDenominator =
        .ok (hopNet edge x) := by
      rw [mulDiv, failIf_of_not (by decide), ok_bind, okOr_checkBits hscaled, ok_bind]
      rfl
    have hsum : edge.reserveIn + x < 2 ^ 128 := by
      have := hfit.1
      omega
    have hnumerator : edge.reserveOut * hopNet edge x < 2 ^ 128 :=
      mul_lt_double hfit.2 (hnet.trans_lt hx)
    rw [ok_bind, hnetEq, ok_bind]
    by_cases hnetZero : hopNet edge x = 0
    · exact .inl ⟨fun h => h.net_pos.ne' hnetZero, .zeroSwapAmount,
        by rw [failIf, if_pos hnetZero]; rfl⟩
    rw [failIf_of_not hnetZero, ok_bind, okOr_checkBits hsum, ok_bind,
      okOr_checkBits hnumerator, ok_bind, okOr_checkBits (by omega), ok_bind, ← hopOutput]
    dsimp only
    by_cases hpaid : hopOutput edge x = 0
    · exact .inl ⟨fun h => h.output_pos.ne' hpaid, .insufficientLiquidityDepth,
        by rw [failIf, if_pos (.inl hpaid)]; rfl⟩
    have hprice : Priceable edge x :=
      ⟨by omega, hassets, hin, hout, hfee, by omega, by omega⟩
    have hlt := hopOutput_lt hprice
    refine .inr ⟨hprice, ?_⟩
    rw [failIf_of_not (by omega), ok_bind, okOr_checkBits (mul_lt_double hfit.1 hfit.2), ok_bind,
      ← productAfter]
    split_ifs with hword
    · rw [okOr_checkBits hword, ok_bind, failIf_of_not (product_le_productAfter hprice).not_gt,
        ok_bind]
      rfl
    · rw [checkBits, if_neg hword]
      rfl

end Hop

/-! ## What a path is priced at -/

/-- Every edge can be priced at what the edges before it pay. -/
def CanPrice : List PoolEdge → ℕ → Prop
  | [], _ => True
  | edge :: path, amountIn => Priceable edge amountIn ∧ CanPrice path (hopOutput edge amountIn)

/-- At every edge that is reached and can be priced, the product after the hop fits. -/
def KeepsWord : List PoolEdge → ℕ → Prop
  | [], _ => True
  | edge :: path, amountIn =>
    Priceable edge amountIn →
      productAfter edge amountIn < 2 ^ 128 ∧ KeepsWord path (hopOutput edge amountIn)

def routeOutput (path : List PoolEdge) (amountIn : ℕ) : ℕ :=
  path.foldl (fun x edge => hopOutput edge x) amountIn

def PathState.push (state : PathState) (edge : PoolEdge) : PathState where
  running := hopOutput edge state.running
  initialKProduct := saturatingMul state.initialKProduct (edge.reserveIn * edge.reserveOut)
  finalKProduct := saturatingMul state.finalKProduct (productAfter edge state.running)
  idealOutput := saturatingMul state.idealOutput edge.reserveOut / edge.reserveIn
  hops := state.hops ++ [hopQuote edge state.running]

/-- The chained constant-product pricing of a path. -/
def routeQuote (source destination : AssetId) (amountIn : ℕ) (path : List PoolEdge) : RouteQuote :=
  let state := path.foldl .push (⟨amountIn, 1, 1, amountIn, []⟩ : PathState)
  ⟨source, destination, state.hops, amountIn, state.running,
    priceImpactBps state.idealOutput state.running, state.initialKProduct, state.finalKProduct⟩

theorem running_foldl_push (path : List PoolEdge) (state : PathState) :
    (path.foldl .push state).running = routeOutput path state.running := by
  induction path generalizing state with
  | nil => rfl
  | cons edge path ih => exact ih (state.push edge)

/-- The indices stand for the edges. -/
def Along (edges : List PoolEdge) : List ℕ → List PoolEdge → Prop :=
  List.Forall₂ fun index edge => edges[index]? = some edge

section Path

variable {edges path : List PoolEdge} {indices : List ℕ} {x : ℕ} {source destination : AssetId}

theorem Along.mem (h : Along edges indices path) :
    ∀ edge ∈ path, edge ∈ edges := by
  induction h with
  | nil => exact fun _ hedge => absurd hedge List.not_mem_nil
  | cons hedge _ ih => exact List.forall_mem_cons.mpr ⟨List.mem_of_getElem? hedge, ih⟩

/-- What the loop over a path comes to. -/
theorem quoteHops_eq (h : Along edges indices path) (hfit : ∀ edge ∈ path, edge.Fits)
    (state : PathState) (hx : state.running < 2 ^ 64) :
    (¬ KeepsWord path state.running ∧ quoteHops edges indices state = .error .trap) ∨
      KeepsWord path state.running ∧
        ((¬ CanPrice path state.running ∧
            ∃ c, quoteHops edges indices state = .error (.error c)) ∨
          CanPrice path state.running ∧
            quoteHops edges indices state = .ok (path.foldl .push state)) := by
  induction h generalizing state with
  | nil => exact .inr ⟨trivial, .inr ⟨trivial, rfl⟩⟩
  | @cons index edge indices path hedge _ ih =>
    obtain ⟨hhead, htail⟩ := List.forall_mem_cons.mp hfit
    rw [quoteHops, hedge, okOr_some, ok_bind]
    rcases quoteHop_eq hhead hx with ⟨hprice, c, hhop⟩ | ⟨hprice, hhop⟩
    · exact .inr ⟨fun h => absurd h hprice, .inl ⟨fun h => hprice h.1, c, by rw [hhop]; rfl⟩⟩
    · rw [hhop]
      split_ifs with hword
      · have hlt : (state.push edge).running < 2 ^ 64 := (hopOutput_lt hprice).trans hhead.2
        rw [ok_bind]
        rcases ih htail (state.push edge) hlt with ⟨hkeep, htrap⟩ | ⟨hkeep, hrest⟩
        · exact .inl ⟨fun h => hkeep (h hprice).2, htrap⟩
        · refine .inr ⟨fun _ => ⟨hword, hkeep⟩, ?_⟩
          rcases hrest with ⟨hprice', herror⟩ | ⟨hprice', hok⟩
          · exact .inl ⟨fun h => hprice' h.2, herror⟩
          · exact .inr ⟨⟨hprice, hprice'⟩, hok⟩
      · exact .inl ⟨fun h => hword (h hprice).1, rfl⟩

/-- What the pricing of a candidate comes to in the search. -/
theorem feasible_eq (h : Along edges indices path) (hfit : ∀ edge ∈ edges, edge.Fits)
    (hx : x < 2 ^ 64) :
    (¬ KeepsWord path x ∧ feasible edges source destination x indices = .error .trap) ∨
      KeepsWord path x ∧
        ((¬ CanPrice path x ∧ feasible edges source destination x indices = .ok none) ∨
          CanPrice path x ∧ feasible edges source destination x indices =
            .ok (some (routeQuote source destination x path))) := by
  have hcases := quoteHops_eq h (fun edge hedge => hfit edge (h.mem edge hedge))
    ⟨x, 1, 1, x, []⟩ hx
  rcases hcases with ⟨hkeep, htrap⟩ | ⟨hkeep, ⟨hprice, c, herror⟩ | ⟨hprice, hok⟩⟩
  · exact .inl ⟨hkeep, by rw [feasible, quotePath, htrap]; rfl⟩
  · exact .inr ⟨hkeep, .inl ⟨hprice, by rw [feasible, quotePath, herror]; rfl⟩⟩
  · exact .inr ⟨hkeep, .inr ⟨hprice, by rw [feasible, quotePath, hok]; rfl⟩⟩

end Path

/-! ## What the loops visit -/

/-- The path goes on from an asset to the destination and stays away from the source. -/
def Leads (source destination : AssetId) : AssetId → List PoolEdge → Prop
  | asset, [] => asset = destination
  | asset, edge :: path => edge.assetIn = asset ∧ edge.assetOut ≠ source ∧
      Leads source destination edge.assetOut path

/-- A simple path of distinct edges from the source to the destination. -/
structure Candidate (edges : List PoolEdge) (source destination : AssetId) (maxHops : ℕ)
    (indices : List ℕ) (path : List PoolEdge) : Prop where
  along : Along edges indices path
  nodup : indices.Nodup
  nonempty : path ≠ []
  length_le : path.length ≤ maxHops
  leads : Leads source destination source path

section Loops

variable (edges : List PoolEdge) (source destination : AssetId) (x maxHops : ℕ)

/-- What the loop at depth 3 visits. -/
def AtDepth3 (i j : ℕ) (second : PoolEdge) (indices : List ℕ) : Prop :=
  ∃ k ∈ List.range edges.length, ¬ (k = i ∨ k = j) ∧ ∃ third, edges[k]? = some third ∧
    ¬ (third.assetIn ≠ second.assetOut ∨ third.assetOut ≠ destination ∨
      third.assetOut = source) ∧ indices = [i, j, k]

/-- What the loop at depth 2 visits. -/
def AtDepth2 (i : ℕ) (first : PoolEdge) (indices : List ℕ) : Prop :=
  ∃ j ∈ List.range edges.length, ¬ j = i ∧ ∃ second, edges[j]? = some second ∧
    ¬ (second.assetIn ≠ first.assetOut ∨ second.assetOut = source) ∧
    ((second.assetOut = destination ∧ indices = [i, j]) ∨
      ¬ maxHops < 3 ∧ AtDepth3 edges source destination i j second indices)

/-- What the loop at depth 1 visits. -/
def AtDepth1 (indices : List ℕ) : Prop :=
  ∃ i ∈ List.range edges.length, ∃ first, edges[i]? = some first ∧ ¬ first.assetIn ≠ source ∧
    ((first.assetOut = destination ∧ indices = [i]) ∨
      ¬ maxHops < 2 ∧ AtDepth2 edges source destination maxHops i first indices)

variable {edges source destination x maxHops}

theorem isSome_of_mem_range {k : ℕ} (h : k ∈ List.range edges.length) : edges[k]?.isSome := by
  rw [List.getElem?_eq_getElem (List.mem_range.mp h)]
  rfl

theorem visits_depth3 (i j : ℕ) (second : PoolEdge) :
    Visits RouteQuote.amountOut (feasible edges source destination x)
      (fun best => (List.range edges.length).foldlM
        (thirdHop edges source destination x i j second) best)
      (AtDepth3 edges source destination i j second) :=
  visits_foldlM fun _ hk => Visits.unless fun _ =>
    Visits.lookup (isSome_of_mem_range hk) fun _ => Visits.unless fun _ => visits_candidate _

theorem visits_depth2 (i : ℕ) (first : PoolEdge) :
    Visits RouteQuote.amountOut (feasible edges source destination x)
      (fun best => (List.range edges.length).foldlM
        (secondHop edges source destination x maxHops i first) best)
      (AtDepth2 edges source destination maxHops i first) :=
  visits_foldlM fun _ hj => Visits.unless fun _ =>
    Visits.lookup (isSome_of_mem_range hj) fun second => Visits.unless fun _ =>
      (Visits.when fun _ => visits_candidate _).bind
        (Visits.unless fun _ => visits_depth3 i _ second)

theorem visits_depth1 :
    Visits RouteQuote.amountOut (feasible edges source destination x)
      (fun best => (List.range edges.length).foldlM
        (firstHop edges source destination x maxHops) best)
      (AtDepth1 edges source destination maxHops) :=
  visits_foldlM fun _ hi => Visits.lookup (isSome_of_mem_range hi) fun first =>
    Visits.unless fun _ => (Visits.when fun _ => visits_candidate _).bind
      (Visits.unless fun _ => visits_depth2 _ first)

theorem mem_range_of_getElem? {k : ℕ} {edge : PoolEdge} (h : edges[k]? = some edge) :
    k ∈ List.range edges.length :=
  List.mem_range.mpr (List.getElem?_eq_some_iff.mp h).1

/-- The loops visit every candidate. -/
theorem Candidate.visited {indices : List ℕ} {path : List PoolEdge} (hdepth : maxHops ≤ 3)
    (h : Candidate edges source destination maxHops indices path) :
    AtDepth1 edges source destination maxHops indices := by
  obtain ⟨halong, hnodup, hnonempty, hlength, hleads⟩ := h
  cases halong with
  | nil => exact absurd rfl hnonempty
  | @cons i first _ _ hi hrest =>
    obtain ⟨hin, hout, hleads⟩ := hleads
    refine ⟨i, mem_range_of_getElem? hi, first, hi, not_not.mpr hin, ?_⟩
    cases hrest with
    | nil => exact .inl ⟨hleads, rfl⟩
    | @cons j second _ _ hj hrest =>
      obtain ⟨hin, hout, hleads⟩ := hleads
      simp only [List.length_cons] at hlength
      simp only [List.nodup_cons, List.mem_cons, not_or] at hnodup
      refine .inr ⟨by omega, j, mem_range_of_getElem? hj, Ne.symm hnodup.1.1, second, hj,
        not_or.mpr ⟨not_not.mpr hin, hout⟩, ?_⟩
      cases hrest with
      | nil => exact .inl ⟨hleads, rfl⟩
      | @cons k third _ _ hk hrest =>
        obtain ⟨hin, hout, hleads⟩ := hleads
        cases hrest with
        | nil =>
          refine .inr ⟨by simp only [List.length_cons] at hlength; omega, k,
            mem_range_of_getElem? hk, ?_, third, hk, ?_, rfl⟩
          · simp only [List.mem_singleton] at hnodup
            exact not_or.mpr ⟨Ne.symm hnodup.1.2, Ne.symm hnodup.2.1⟩
          · exact not_or.mpr ⟨not_not.mpr hin, not_or.mpr ⟨not_not.mpr hleads, hout⟩⟩
        | cons _ _ =>
          simp only [List.length_cons] at hlength
          omega

/-- What the loops visit is a candidate, or starts with an edge from an asset to itself. -/
theorem candidate_or_loop {indices : List ℕ} (hends : source ≠ destination)
    (hpositive : 0 < maxHops) (h : AtDepth1 edges source destination maxHops indices) :
    ∃ first path, Along edges indices (first :: path) ∧ (first.assetIn = first.assetOut ∨
      Candidate edges source destination maxHops indices (first :: path)) := by
  obtain ⟨i, -, first, hi, hin, h⟩ := h
  have hin := not_not.mp hin
  rcases h with ⟨hout, rfl⟩ | ⟨htwo, j, -, hji, second, hj, hsecond, h⟩
  · exact ⟨first, [], .cons hi .nil, .inr ⟨.cons hi .nil, List.nodup_singleton i,
      List.cons_ne_nil _ _, hpositive, hin, fun h => hends (h.symm.trans hout), hout⟩⟩
  obtain ⟨hsecondIn, hsecondOut⟩ := not_or.mp hsecond
  have hsecondIn := not_not.mp hsecondIn
  rcases h with ⟨hout, rfl⟩ | ⟨hthree, k, -, hkij, third, hk, hthird, rfl⟩
  · refine ⟨first, [second], .cons hi (.cons hj .nil), ?_⟩
    by_cases hloop : first.assetOut = source
    · exact .inl (hin.trans hloop.symm)
    · exact .inr ⟨.cons hi (.cons hj .nil), by simp [Ne.symm hji], List.cons_ne_nil _ _,
        not_lt.mp htwo, hin, hloop, hsecondIn, hsecondOut, hout⟩
  · obtain ⟨hthirdIn, hthird⟩ := not_or.mp hthird
    obtain ⟨hthirdOut, haway⟩ := not_or.mp hthird
    refine ⟨first, [second, third], .cons hi (.cons hj (.cons hk .nil)), ?_⟩
    by_cases hloop : first.assetOut = source
    · exact .inl (hin.trans hloop.symm)
    · refine .inr ⟨.cons hi (.cons hj (.cons hk .nil)), ?_, List.cons_ne_nil _ _,
        not_lt.mp hthree, hin, hloop, hsecondIn, hsecondOut, not_not.mp hthirdIn, haway,
        not_not.mp hthirdOut⟩
      obtain ⟨hki, hkj⟩ := not_or.mp hkij
      simp [Ne.symm hji, Ne.symm hki, Ne.symm hkj]

end Loops

/-! ## The best route -/

/-- The inputs the search is for, with the machine types of the reserves and of the amount. -/
structure SearchInput (edges : List PoolEdge) (source destination : AssetId)
    (amountIn maxHops : ℕ) : Prop where
  fits : ∀ edge ∈ edges, edge.Fits
  length_le : edges.length ≤ maxCandidatePools
  ends_ne : source ≠ destination
  amountIn_pos : 0 < amountIn
  amountIn_lt : amountIn < 2 ^ 64
  maxHops_pos : 0 < maxHops
  maxHops_le : maxHops ≤ maxRouteDepth

/-- Every hop pays something but not the whole reserve, and the product does not fall. -/
def HopsSafe : List PoolEdge → List HopQuote → Prop :=
  List.Forall₂ fun edge hop =>
    0 < hop.amountOut ∧ hop.amountOut < edge.reserveOut ∧ hop.kBefore ≤ hop.kAfter

/-- No candidate can be priced and none is found, or a candidate is found that pays the most. -/
def FindsBest (edges : List PoolEdge) (source destination : AssetId)
    (amountIn maxHops : ℕ) : Prop :=
  (findBestRoute edges source destination amountIn maxHops = .error (.error .poolNotFound) ∧
    ∀ indices path, Candidate edges source destination maxHops indices path →
      ¬ CanPrice path amountIn) ∨
  ∃ indices path, Candidate edges source destination maxHops indices path ∧
    CanPrice path amountIn ∧
    findBestRoute edges source destination amountIn maxHops =
      .ok (routeQuote source destination amountIn path) ∧
    (∀ indices' path', Candidate edges source destination maxHops indices' path' →
      CanPrice path' amountIn → routeOutput path' amountIn ≤ routeOutput path amountIn) ∧
    HopsSafe path (routeQuote source destination amountIn path).hops

section Best

variable {edges : List PoolEdge} {source destination : AssetId} {x maxHops : ℕ}

theorem routeQuote_amountOut (path : List PoolEdge) :
    (routeQuote source destination x path).amountOut = routeOutput path x :=
  running_foldl_push path _

theorem hopsSafe_foldl_push {done path : List PoolEdge} {state : PathState}
    (hdone : HopsSafe done state.hops) (h : CanPrice path state.running) :
    HopsSafe (done ++ path) (path.foldl .push state).hops := by
  induction path generalizing state done with
  | nil => rwa [List.append_nil]
  | cons edge path ih =>
    have hhop : HopsSafe [edge] [hopQuote edge state.running] :=
      .cons ⟨h.1.output_pos, hopOutput_lt h.1, product_le_productAfter h.1⟩ .nil
    have hnext : HopsSafe ((done ++ [edge]) ++ path) (path.foldl .push (state.push edge)).hops :=
      ih (List.rel_append hdone hhop) h.2
    rwa [List.append_assoc, List.singleton_append] at hnext

theorem hopsSafe_routeQuote {path : List PoolEdge} (h : CanPrice path x) :
    HopsSafe path (routeQuote source destination x path).hops := by
  have hnone : HopsSafe [] (⟨x, 1, 1, x, []⟩ : PathState).hops := .nil
  exact hopsSafe_foldl_push hnone h

theorem findBestRoute_eq (h : SearchInput edges source destination x maxHops) :
    findBestRoute edges source destination x maxHops =
      (List.range edges.length).foldlM (firstHop edges source destination x maxHops) none >>=
        fun best => okOr best (.error .poolNotFound) := by
  have hhops : ¬ (maxHops = 0 ∨ maxRouteDepth < maxHops) := by
    have := h.maxHops_pos
    have := h.maxHops_le
    omega
  rw [findBestRoute, failIf_of_not h.amountIn_pos.ne', ok_bind, failIf_of_not h.ends_ne, ok_bind,
    failIf_of_not hhops, ok_bind, failIf_of_not h.length_le.not_gt, ok_bind]
  by_cases hempty : edges.length = 0
  · rw [hempty]
    rfl
  · rw [failIf_of_not hempty, ok_bind]

/-- A path from an asset to itself is never priced. -/
theorem not_priceable_of_loop {first : PoolEdge} {path : List PoolEdge}
    (h : first.assetIn = first.assetOut) :
    KeepsWord (first :: path) x ∧ ¬ CanPrice (first :: path) x :=
  ⟨fun hprice => absurd h hprice.assets_ne, fun hprice => hprice.1.assets_ne h⟩

/-- Where the products fit, the search finds the best route. -/
theorem findsBest_of_keepsWord (h : SearchInput edges source destination x maxHops)
    (hkeep : ∀ indices path, Candidate edges source destination maxHops indices path →
      KeepsWord path x) : FindsBest edges source destination x maxHops := by
  -- What the loops visit is refused or priced, and priced only if it is a candidate.
  have hvisited (indices : List ℕ) (hat : AtDepth1 edges source destination maxHops indices) :
      feasible edges source destination x indices = .ok none ∨
        ∃ path, Candidate edges source destination maxHops indices path ∧ CanPrice path x ∧
          feasible edges source destination x indices =
            .ok (some (routeQuote source destination x path)) := by
    obtain ⟨first, path, halong, hcase⟩ := candidate_or_loop h.ends_ne h.maxHops_pos hat
    have hword : KeepsWord (first :: path) x :=
      hcase.elim (fun hloop => (not_priceable_of_loop hloop).1) fun hcand => hkeep _ _ hcand
    rcases feasible_eq halong h.fits h.amountIn_lt with ⟨hover, -⟩ | ⟨-, hprice⟩
    · exact absurd hword hover
    · rcases hprice with ⟨-, hnone⟩ | ⟨hprice, hsome⟩
      · exact .inl hnone
      · refine .inr ⟨_, hcase.resolve_left fun hloop => ?_, hprice, hsome⟩
        exact (not_priceable_of_loop hloop).2 hprice
  have hfound (indices : List ℕ) (path : List PoolEdge)
      (hcand : Candidate edges source destination maxHops indices path) (hprice : CanPrice path x) :
      feasible edges source destination x indices =
        .ok (some (routeQuote source destination x path)) := by
    rcases feasible_eq hcand.along h.fits h.amountIn_lt with ⟨hover, -⟩ | ⟨-, ⟨hno, -⟩ | ⟨-, hsome⟩⟩
    · exact absurd (hkeep _ _ hcand) hover
    · exact absurd hprice hno
    · exact hsome
  rw [FindsBest, findBestRoute_eq h]
  rcases visits_depth1 none with ⟨e, -, indices, hat, herror⟩ | ⟨best, hok, -, hbest⟩
  · rcases hvisited indices hat with hnone | ⟨path, -, -, hsome⟩
    · cases herror.symm.trans hnone
    · cases herror.symm.trans hsome
  · rcases hbest.of_none with ⟨rfl, hnone⟩ | ⟨q, rfl, ⟨indices, hat, hq⟩, hmax⟩
    · refine .inl ⟨by dsimp only at hok; rw [hok]; rfl, fun indices path hcand hprice => ?_⟩
      exact hnone _ ⟨indices, hcand.visited h.maxHops_le, hfound _ _ hcand hprice⟩
    · rcases hvisited indices hat with hnone | ⟨path, hcand, hprice, hsome⟩
      · cases hq.symm.trans hnone
      · obtain rfl := Option.some.inj (Except.ok.inj (hq.symm.trans hsome))
        refine .inr ⟨indices, path, hcand, hprice, by dsimp only at hok; rw [hok]; rfl, ?_,
          hopsSafe_routeQuote hprice⟩
        intro indices' path' hcand' hprice'
        have hle := hmax _ ⟨indices', hcand'.visited h.maxHops_le, hfound _ _ hcand' hprice'⟩
        rwa [routeQuote_amountOut, routeQuote_amountOut] at hle

/-- One product that does not fit stops the search. -/
theorem findBestRoute_traps (h : SearchInput edges source destination x maxHops)
    {indices : List ℕ} {path : List PoolEdge}
    (hcand : Candidate edges source destination maxHops indices path) (hover : ¬ KeepsWord path x) :
    findBestRoute edges source destination x maxHops = .error .trap := by
  rw [findBestRoute_eq h]
  rcases visits_depth1 none with ⟨e, hfail, indices', hat, herror⟩ | ⟨best, -, hfound, -⟩
  · obtain ⟨first, path', halong, -⟩ := candidate_or_loop h.ends_ne h.maxHops_pos hat
    dsimp only at hfail
    rw [hfail]
    rcases feasible_eq halong h.fits h.amountIn_lt with ⟨-, htrap⟩ | ⟨-, ⟨-, hok⟩ | ⟨-, hok⟩⟩
    · obtain rfl := Except.error.inj (herror.symm.trans htrap)
      rfl
    · cases herror.symm.trans hok
    · cases herror.symm.trans hok
  · obtain ⟨found, hok⟩ := hfound indices (hcand.visited h.maxHops_le)
    rcases feasible_eq hcand.along h.fits h.amountIn_lt with ⟨-, htrap⟩ | ⟨hword, -⟩
    · cases htrap.symm.trans hok
    · exact absurd hword hover

/-! ### Edges that cannot be priced -/

/-- Every candidate through the edge at an index is refused. -/
def Unpriceable (edges : List PoolEdge) (source destination : AssetId)
    (amountIn maxHops index : ℕ) : Prop :=
  ∀ indices path, Candidate edges source destination maxHops indices path → index ∈ indices →
    ∃ c, quotePath edges indices amountIn source destination = .error (.error c)

/-- The search does not trap, finds the best route, and pays the same without an edge that cannot be
priced, or with one more. -/
structure SearchesWell (edges : List PoolEdge) (source destination : AssetId)
    (amountIn maxHops : ℕ) : Prop where
  ne_trap : findBestRoute edges source destination amountIn maxHops ≠ .error .trap
  findsBest : FindsBest edges source destination amountIn maxHops
  erase : ∀ index, Unpriceable edges source destination amountIn maxHops index →
    RouteQuote.amountOut <$>
        findBestRoute (edges.eraseIdx index) source destination amountIn maxHops =
      RouteQuote.amountOut <$> findBestRoute edges source destination amountIn maxHops
  insert : ∀ index edge, edge.Fits → index ≤ edges.length → edges.length < maxCandidatePools →
    Unpriceable (edges.insertIdx index edge) source destination amountIn maxHops index →
    RouteQuote.amountOut <$>
        findBestRoute (edges.insertIdx index edge) source destination amountIn maxHops =
      RouteQuote.amountOut <$> findBestRoute edges source destination amountIn maxHops

theorem keepsWord_of_refused (h : SearchInput edges source destination x maxHops)
    {indices : List ℕ} {path : List PoolEdge} {c : ContractError}
    (hcand : Candidate edges source destination maxHops indices path)
    (hrefused : quotePath edges indices x source destination = .error (.error c)) :
    KeepsWord path x ∧ ¬ CanPrice path x := by
  have hnone : feasible edges source destination x indices = .ok none := by
    rw [feasible, hrefused]
    rfl
  rcases feasible_eq hcand.along h.fits h.amountIn_lt with
    ⟨-, htrap⟩ | ⟨hkeep, ⟨hno, -⟩ | ⟨-, hsome⟩⟩
  · cases htrap.symm.trans hnone
  · exact ⟨hkeep, hno⟩
  · cases hsome.symm.trans hnone

theorem Along.mem_path {indices : List ℕ} {path : List PoolEdge} {index : ℕ} {edge : PoolEdge}
    (h : Along edges indices path) (hmem : index ∈ indices) (hedge : edges[index]? = some edge) :
    edge ∈ path := by
  induction h with
  | nil => exact absurd hmem List.not_mem_nil
  | cons hhead _ ih =>
    rcases List.mem_cons.mp hmem with rfl | htail
    · obtain rfl := Option.some.inj (hhead.symm.trans hedge)
      exact List.mem_cons_self
    · exact List.mem_cons_of_mem _ (ih htail)

theorem CanPrice.priceable {path : List PoolEdge} (h : CanPrice path x) (hx : x < 2 ^ 64)
    (hfit : ∀ edge ∈ path, edge.Fits) : ∀ edge ∈ path, ∃ y < 2 ^ 64, Priceable edge y := by
  induction path generalizing x with
  | nil => exact fun _ hedge => absurd hedge List.not_mem_nil
  | cons edge path ih =>
    obtain ⟨hhead, htail⟩ := List.forall_mem_cons.mp hfit
    have hpaid : hopOutput edge x < 2 ^ 64 := (hopOutput_lt h.1).trans hhead.2
    exact List.forall_mem_cons.mpr ⟨⟨x, hx, h.1⟩, ih h.2 hpaid htail⟩

/-- An edge that refuses every amount cannot be priced, where the products before it fit. -/
theorem unpriceable_of_refused (h : SearchInput edges source destination x maxHops)
    (hkeep : ∀ indices path, Candidate edges source destination maxHops indices path →
      KeepsWord path x) {index : ℕ} {edge : PoolEdge} (hedge : edges[index]? = some edge)
    (hrefused : ∀ y < 2 ^ 64, ∃ c, quoteHop edge y = .error (.error c)) :
    Unpriceable edges source destination x maxHops index := by
  intro indices path hcand hmem
  have hfit := fun other hother => h.fits other (hcand.along.mem other hother)
  have hno : ¬ CanPrice path x := by
    intro hprice
    have hpath := hcand.along.mem_path hmem hedge
    obtain ⟨y, hy, hpriceable⟩ := hprice.priceable h.amountIn_lt hfit edge hpath
    obtain ⟨c, hc⟩ := hrefused y hy
    rcases quoteHop_eq (hfit edge hpath) hy with ⟨hrefuse, -⟩ | ⟨-, hok⟩
    · exact hrefuse hpriceable
    · rw [hok] at hc
      split_ifs at hc
      cases hc
  rcases quoteHops_eq hcand.along hfit ⟨x, 1, 1, x, []⟩ h.amountIn_lt with
    ⟨hover, -⟩ | ⟨-, ⟨-, c, herror⟩ | ⟨hprice, -⟩⟩
  · exact absurd (hkeep indices path hcand) hover
  · exact ⟨c, by rw [quotePath, herror]; rfl⟩
  · exact absurd hprice hno

/-- The index in the list of what stands at an index without one entry. -/
def skip (index j : ℕ) : ℕ := if j < index then j else j + 1

theorem skip_injective (index : ℕ) : Function.Injective (skip index) := by
  intro j k h
  rw [skip, skip] at h
  split_ifs at h <;> omega

theorem exists_skip_eq {index j : ℕ} (h : j ≠ index) : ∃ k, skip index k = j := by
  by_cases hlt : j < index
  · exact ⟨j, if_pos hlt⟩
  · exact ⟨j - 1, by rw [skip, if_neg (by omega)]; omega⟩

/-- The candidates without an edge are the candidates that do not use it. -/
theorem candidate_eraseIdx_iff {index : ℕ} {indices : List ℕ} {path : List PoolEdge} :
    Candidate (edges.eraseIdx index) source destination maxHops indices path ↔
      Candidate edges source destination maxHops (indices.map (skip index)) path := by
  have halong : Along (edges.eraseIdx index) indices path ↔
      Along edges (indices.map (skip index)) path := by
    rw [Along, Along, List.forall₂_map_left_iff]
    refine iff_of_eq (congrFun (congrFun (congrArg _ ?_) _) _)
    funext j edge
    rw [List.getElem?_eraseIdx, skip, apply_ite (fun k => edges[k]?)]
  have hnodup := List.nodup_map_iff (l := indices) (skip_injective index)
  exact ⟨fun h => ⟨halong.mp h.along, hnodup.mpr h.nodup, h.nonempty, h.length_le, h.leads⟩,
    fun h => ⟨halong.mpr h.along, hnodup.mp h.nodup, h.nonempty, h.length_le, h.leads⟩⟩

theorem exists_candidate_eraseIdx {index : ℕ} {indices : List ℕ} {path : List PoolEdge}
    (h : Candidate edges source destination maxHops indices path) (hindex : index ∉ indices) :
    ∃ indices', Candidate (edges.eraseIdx index) source destination maxHops indices' path := by
  have hmap : indices ∈ Set.range (List.map (skip index)) := by
    rw [Set.range_list_map]
    exact fun j hj => exists_skip_eq fun heq => hindex (heq ▸ hj)
  obtain ⟨indices', rfl⟩ := hmap
  exact ⟨indices', candidate_eraseIdx_iff.mpr h⟩

theorem SearchInput.eraseIdx (h : SearchInput edges source destination x maxHops) (index : ℕ) :
    SearchInput (edges.eraseIdx index) source destination x maxHops :=
  { h with
    fits := fun edge hedge => h.fits edge (List.mem_of_mem_eraseIdx hedge)
    length_le := (List.length_eraseIdx_le edges index).trans h.length_le }

/-- Two searches that can price the same paths pay the same. -/
theorem FindsBest.amountOut_eq {edges' : List PoolEdge}
    (h : FindsBest edges source destination x maxHops)
    (h' : FindsBest edges' source destination x maxHops)
    (hsame : ∀ path, CanPrice path x →
      ((∃ indices, Candidate edges source destination maxHops indices path) ↔
        ∃ indices, Candidate edges' source destination maxHops indices path)) :
    RouteQuote.amountOut <$> findBestRoute edges source destination x maxHops =
      RouteQuote.amountOut <$> findBestRoute edges' source destination x maxHops := by
  rcases h with ⟨hfind, hnone⟩ | ⟨indices, path, hcand, hprice, hfind, hmax, -⟩ <;>
    rcases h' with ⟨hfind', hnone'⟩ | ⟨indices', path', hcand', hprice', hfind', hmax', -⟩
  · rw [hfind, hfind']
  · obtain ⟨indices, hcand⟩ := (hsame path' hprice').mpr ⟨indices', hcand'⟩
    exact absurd hprice' (hnone indices path' hcand)
  · obtain ⟨indices', hcand'⟩ := (hsame path hprice).mp ⟨indices, hcand⟩
    exact absurd hprice (hnone' indices' path hcand')
  · obtain ⟨_, hother⟩ := (hsame path' hprice').mpr ⟨indices', hcand'⟩
    obtain ⟨_, hother'⟩ := (hsame path hprice).mp ⟨indices, hcand⟩
    have heq := (hmax' _ path hother' hprice).antisymm (hmax _ path' hother hprice')
    rw [hfind, hfind']
    refine congrArg Except.ok ?_
    rw [routeQuote_amountOut, routeQuote_amountOut, heq]

/-- Without an edge that no priced candidate uses, the search pays the same. -/
theorem amountOut_eraseIdx (h : SearchInput edges source destination x maxHops) (index : ℕ)
    (hkeep : ∀ indices path, Candidate edges source destination maxHops indices path →
      KeepsWord path x)
    (hindex : ∀ indices path, Candidate edges source destination maxHops indices path →
      index ∈ indices → ¬ CanPrice path x) :
    RouteQuote.amountOut <$>
        findBestRoute (edges.eraseIdx index) source destination x maxHops =
      RouteQuote.amountOut <$> findBestRoute edges source destination x maxHops := by
  refine FindsBest.amountOut_eq (findsBest_of_keepsWord (h.eraseIdx index) fun indices path hcand =>
    hkeep _ _ (candidate_eraseIdx_iff.mp hcand)) (findsBest_of_keepsWord h hkeep) ?_
  intro path hprice
  constructor
  · rintro ⟨indices, hcand⟩
    exact ⟨_, candidate_eraseIdx_iff.mp hcand⟩
  · rintro ⟨indices, hcand⟩
    exact exists_candidate_eraseIdx hcand fun hmem => hindex indices path hcand hmem hprice

/-- The search does all that it should exactly when, at every hop of a candidate that is reached and
can be priced, the product of the reserves after the hop fits. -/
theorem searchesWell_iff (h : SearchInput edges source destination x maxHops) :
    SearchesWell edges source destination x maxHops ↔
      ∀ indices path, Candidate edges source destination maxHops indices path →
        KeepsWord path x := by
  constructor
  · intro hwell indices path hcand
    by_contra hover
    exact hwell.ne_trap (findBestRoute_traps h hcand hover)
  · intro hkeep
    have hbest := findsBest_of_keepsWord h hkeep
    refine ⟨fun htrap => ?_, hbest, fun index hindex => ?_,
      fun index edge hfit hle hroom hindex => ?_⟩
    · rcases hbest with ⟨hfind, -⟩ | ⟨_, _, -, -, hfind, -⟩
      · cases hfind.symm.trans htrap
      · cases hfind.symm.trans htrap
    · refine amountOut_eraseIdx h index hkeep fun indices path hcand hmem => ?_
      obtain ⟨c, hrefused⟩ := hindex indices path hcand hmem
      exact (keepsWord_of_refused h hcand hrefused).2
    · have hinput : SearchInput (edges.insertIdx index edge) source destination x maxHops :=
        { h with
          fits := fun other hother => (List.eq_or_mem_of_mem_insertIdx hother).elim
            (fun heq => heq ▸ hfit) (h.fits other)
          length_le := by
            rw [List.length_insertIdx_of_le_length hle]
            exact hroom }
      have hrefused (indices : List ℕ) (path : List PoolEdge)
          (hcand : Candidate (edges.insertIdx index edge) source destination maxHops indices path)
          (hmem : index ∈ indices) : KeepsWord path x ∧ ¬ CanPrice path x := by
        obtain ⟨c, hc⟩ := hindex indices path hcand hmem
        exact keepsWord_of_refused hinput hcand hc
      have hsame := amountOut_eraseIdx hinput index (fun indices path hcand => ?_)
        fun indices path hcand hmem => (hrefused indices path hcand hmem).2
      · rw [List.eraseIdx_insertIdx_self] at hsame
        exact hsame.symm
      · by_cases hmem : index ∈ indices
        · exact (hrefused indices path hcand hmem).1
        · obtain ⟨indices', hcand'⟩ := exists_candidate_eraseIdx hcand hmem
          rw [List.eraseIdx_insertIdx_self] at hcand'
          exact hkeep indices' path hcand'

end Best

/-- Below half of the word every product fits. -/
theorem keepsWord_of_lt {path : List PoolEdge} {x : ℕ} (hx : x < 2 ^ 63)
    (hpath : ∀ edge ∈ path, edge.reserveIn < 2 ^ 63 ∧ edge.reserveOut < 2 ^ 63) :
    KeepsWord path x := by
  induction path generalizing x with
  | nil => trivial
  | cons edge path ih =>
    obtain ⟨⟨hin, hout⟩, htail⟩ := List.forall_mem_cons.mp hpath
    intro hprice
    refine ⟨mul_lt_double (by omega) (by omega), ih ?_ htail⟩
    exact (hopOutput_lt hprice).trans hout

section Sample

/-- A direct pool and a better way through another asset. -/
def sampleEdges : List PoolEdge :=
  [⟨⟨1⟩, 1, 2, 1000000, 900000, 30⟩, ⟨⟨2⟩, 1, 3, 1000000, 1000000, 30⟩,
    ⟨⟨3⟩, 3, 2, 1000000, 1000000, 30⟩]

theorem searchesWell_sampleEdges : SearchesWell sampleEdges 1 2 10000 3 := by
  have hsmall : ∀ edge ∈ sampleEdges, edge.reserveIn < 2 ^ 63 ∧ edge.reserveOut < 2 ^ 63 := by
    decide
  refine (searchesWell_iff ⟨by decide, by decide, by decide, by decide, by decide, by decide,
    by decide⟩).mpr fun indices path hcand => ?_
  exact keepsWord_of_lt (by norm_num) fun edge hedge => hsmall edge (hcand.along.mem edge hedge)

/-- A pool as deep as the machine type allows that keeps nearly all of the input, beside a pool that
can be priced. -/
def deepEdges : List PoolEdge :=
  [⟨⟨1⟩, 1, 2, 2 ^ 64 - 1, 2 ^ 64 - 1, 9999⟩, ⟨⟨2⟩, 1, 2, 1000000, 1000000, 30⟩]

theorem deepEdges_trap :
    SearchInput deepEdges 1 2 20000 3 ∧ ¬ SearchesWell deepEdges 1 2 20000 3 := by
  refine ⟨⟨by decide, by decide, by decide, by decide, by decide, by decide, by decide⟩, ?_⟩
  exact fun h => h.ne_trap (by decide +kernel)

end Sample

end StellarFlow.Router.Dynamic
