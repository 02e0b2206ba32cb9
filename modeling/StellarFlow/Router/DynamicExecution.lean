import StellarFlow.Fees.DynamicFee
import StellarFlow.Router.Dynamic

/-!
# Swaps along the best route

The administrator registers and removes pools. A swap searches the registered pools for the
best route, checks what it pays and how far the price moves, and then books every hop of the
route on its pool.
-/
namespace StellarFlow.Router.Dynamic

open Foundation hiding Along
open Fees (FeeEnv)

structure RouterConfig where
  maxPriceImpactBps : ℕ
  maxHops : ℕ
  enabled : Bool
  deriving DecidableEq

def RouterConfig.defaultConfig : RouterConfig := ⟨500, maxRouteDepth, true⟩

structure DynamicRouter where
  pools : Store Address PoolEdge
  registry : List Address
  config : Option RouterConfig
  /-- Whether a guarded call is running. -/
  locked : Bool

namespace DynamicRouter

def fresh : DynamicRouter := ⟨∅, [], none, false⟩

/-- The stored pools in the order of their registration. -/
def registeredPoolEdges (s : DynamicRouter) : List PoolEdge := s.registry.filterMap s.pools.lookup

def getRouterConfig (s : DynamicRouter) : RouterConfig := s.config.getD .defaultConfig

def quoteRoute (source destination : AssetId) (amountIn maxHops : ℕ) (s : DynamicRouter) :
    Except Fault RouteQuote :=
  findBestRoute s.registeredPoolEdges source destination amountIn maxHops

end DynamicRouter

/-- Book one hop on the pool it goes through. -/
def commitHop (pools : Store Address PoolEdge) (hop : HopQuote) :
    Except Fault (Store Address PoolEdge) := do
  let edge ← okOr (pools.lookup hop.pool) (Fault.error .poolNotFound)
  let reserveIn ← okOr (checkBits 64 (edge.reserveIn + hop.amountIn)) (Fault.error .overflow)
  let reserveOut ← okOr (checkedSub edge.reserveOut hop.amountOut) (Fault.error .overflow)
  pure (pools.insert hop.pool { edge with reserveIn, reserveOut })

section Calls

variable {here : Address} (env : FeeEnv here)

def assertAdmin (caller : Address) : Except Fault Unit := do
  let admin ← okOr env.admin (Fault.error .notInitialized)
  failIf (admin ≠ caller) (Fault.error .notAdmin)

/-- A pool that is registered already only gets its new data. -/
def registerPool (admin : Address) (edge : PoolEdge) (s : DynamicRouter) :
    Except Fault DynamicRouter := do
  env.requireAuth admin
  assertAdmin env admin
  validateEdge edge
  if (s.pools.lookup edge.pool).isSome then
    pure { s with pools := s.pools.insert edge.pool edge }
  else do
    failIf (maxCandidatePools ≤ s.registry.length) (Fault.error .invalidInput)
    pure { s with
      registry := s.registry ++ [edge.pool]
      pools := s.pools.insert edge.pool edge }

def removePool (admin pool : Address) (s : DynamicRouter) : Except Fault DynamicRouter := do
  env.requireAuth admin
  assertAdmin env admin
  failIf (s.pools.lookup pool = none) (Fault.error .poolNotFound)
  pure { s with
    pools := s.pools.erase pool
    registry := s.registry.filter (· ≠ pool) }

def setRouterConfig (admin : Address) (config : RouterConfig) (s : DynamicRouter) :
    Except Fault DynamicRouter := do
  env.requireAuth admin
  assertAdmin env admin
  failIf (config.maxHops = 0 ∨ maxRouteDepth < config.maxHops) (Fault.error .invalidInput)
  failIf (bpsDenominator < config.maxPriceImpactBps) (Fault.error .invalidInput)
  pure { s with config := some config }

/-- The guard against re-entry is released at the end of the call. -/
def executeSwap (trader : Address) (source destination : AssetId)
    (amountIn minAmountOut maxPriceImpactBps : ℕ) (s : DynamicRouter) :
    Except Fault (RouteQuote × DynamicRouter) := do
  env.requireAuth trader
  failIf (s.locked = true) (Fault.error .reentrancyDetected)
  let config := s.getRouterConfig
  failIf (config.enabled = false) (Fault.error .contractPaused)
  let quote ← findBestRoute s.registeredPoolEdges source destination amountIn config.maxHops
  failIf (quote.amountOut < minAmountOut) (Fault.error .slippageExceeded)
  let tolerance := if maxPriceImpactBps < config.maxPriceImpactBps then maxPriceImpactBps
    else config.maxPriceImpactBps
  failIf (tolerance < quote.priceImpactBps) (Fault.error .slippageExceeded)
  failIf (quote.finalKProduct < quote.initialKProduct) (Fault.error .invariantViolation)
  let pools ← quote.hops.foldlM commitHop s.pools
  pure (quote, { s with pools })

end Calls

inductive DynamicCall
  | registerPool (admin : Address) (edge : { edge : PoolEdge // edge.Fits })
  | removePool (admin pool : Address)
  | setRouterConfig (admin : Address) (config : RouterConfig)
  | executeSwap (trader : Address) (source destination : AssetId)
      (amountIn minAmountOut : UInt64) (maxPriceImpactBps : UInt32)

def dynamicStep {here : Address} (i : FeeEnv here × DynamicCall) (s : DynamicRouter) :
    Except Fault DynamicRouter :=
  match i.2 with
  | .registerPool admin edge => registerPool i.1 admin edge.1 s
  | .removePool admin pool => removePool i.1 admin pool s
  | .setRouterConfig admin config => setRouterConfig i.1 admin config s
  | .executeSwap trader source destination amountIn minAmountOut maxPriceImpactBps =>
    Prod.snd <$> executeSwap i.1 trader source destination amountIn.toNat minAmountOut.toNat
      maxPriceImpactBps.toNat s

/-! ## Booking a route -/

/-- The quotes of a path, each for what the hop before it pays. -/
def hopQuotes : List PoolEdge → ℕ → List HopQuote
  | [], _ => []
  | edge :: path, x => hopQuote edge x :: hopQuotes path (hopOutput edge x)

/-- The pool after a hop. -/
def PoolEdge.after (edge : PoolEdge) (x : ℕ) : PoolEdge :=
  { edge with
    reserveIn := edge.reserveIn + x
    reserveOut := edge.reserveOut - hopOutput edge x }

/-- Every reserve on the path has room for what goes into it. -/
def HasRoom : List PoolEdge → ℕ → Prop
  | [], _ => True
  | edge :: path, x => edge.reserveIn + x < 2 ^ 64 ∧ HasRoom path (hopOutput edge x)

/-- The pools after the hops of a path. -/
def bookPath : List PoolEdge → ℕ → Store Address PoolEdge → Store Address PoolEdge
  | [], _, pools => pools
  | edge :: path, x, pools =>
    bookPath path (hopOutput edge x) (pools.insert edge.pool (edge.after x))

section Booking

variable {path : List PoolEdge} {pools pools' : Store Address PoolEdge} {x : ℕ}

theorem hops_foldl_push (path : List PoolEdge) (state : PathState) :
    (path.foldl .push state).hops = state.hops ++ hopQuotes path state.running := by
  induction path generalizing state with
  | nil => exact (List.append_nil _).symm
  | cons edge path ih =>
    rw [List.foldl_cons, ih, PathState.push, List.append_assoc]
    rfl

theorem routeQuote_hops (source destination : AssetId) (x : ℕ) (path : List PoolEdge) :
    (routeQuote source destination x path).hops = hopQuotes path x :=
  hops_foldl_push path _

/-- Saturating products keep the order. -/
theorem saturatingMul_le {a b c d : ℕ} (h : a ≤ c) (h' : b ≤ d) :
    saturatingMul a b ≤ saturatingMul c d :=
  min_le_min_right _ (Nat.mul_le_mul h h')

/-- The products of the quote are in order, so that the check on them never fails. -/
theorem products_foldl_push {state : PathState} (h : CanPrice path state.running)
    (hstate : state.initialKProduct ≤ state.finalKProduct) :
    (path.foldl .push state).initialKProduct ≤ (path.foldl .push state).finalKProduct := by
  induction path generalizing state with
  | nil => exact hstate
  | cons edge path ih =>
    exact ih h.2 (saturatingMul_le hstate (product_le_productAfter h.1))

/-- With distinct pools that are stored as the path has them, the hops are booked exactly when
there is room for them. -/
theorem foldlM_commitHop_eq_ok (hprice : CanPrice path x)
    (hnodup : (path.map PoolEdge.pool).Nodup)
    (hfound : ∀ edge ∈ path, pools.lookup edge.pool = some edge) :
    (hopQuotes path x).foldlM commitHop pools = .ok pools' ↔
      HasRoom path x ∧ pools' = bookPath path x pools := by
  induction path generalizing x pools with
  | nil =>
    rw [hopQuotes, List.foldlM_nil, pure_eq_ok]
    simp [HasRoom, bookPath, eq_comm]
  | cons edge path ih =>
    obtain ⟨hhead, htail⟩ := List.nodup_cons.mp hnodup
    obtain ⟨hedge, hrest⟩ := List.forall_mem_cons.mp hfound
    have hlt := hopOutput_lt hprice.1
    have hcommit : ∀ pools₁, commitHop pools (hopQuote edge x) = .ok pools₁ ↔
        edge.reserveIn + x < 2 ^ 64 ∧ pools₁ = pools.insert edge.pool (edge.after x) := by
      intro pools₁
      simp only [commitHop, hopQuote, hedge, okOr_some, ok_bind, bind_eq_ok, okOr_eq_ok,
        checkBits_eq_some, checkedSub_eq_some, pure_eq_ok]
      constructor
      · rintro ⟨_, ⟨hroom, rfl⟩, _, ⟨_, rfl⟩, rfl⟩
        exact ⟨hroom, rfl⟩
      · rintro ⟨hroom, rfl⟩
        exact ⟨_, ⟨hroom, rfl⟩, _, ⟨hlt.le, rfl⟩, rfl⟩
    have hkept : ∀ other ∈ path,
        (pools.insert edge.pool (edge.after x)).lookup other.pool = some other := by
      intro other hother
      rw [Store.lookup_insert_ite, if_neg]
      · exact hrest other hother
      · rintro heq
        exact hhead (heq ▸ List.mem_map_of_mem hother)
    simp only [hopQuotes, List.foldlM_cons, bind_eq_ok, hcommit, HasRoom, bookPath]
    constructor
    · rintro ⟨_, ⟨hroom, rfl⟩, hbooked⟩
      obtain ⟨hrooms, rfl⟩ := (ih hprice.2 htail hkept).mp hbooked
      exact ⟨⟨hroom, hrooms⟩, rfl⟩
    · rintro ⟨⟨hroom, hrooms⟩, rfl⟩
      exact ⟨_, ⟨hroom, rfl⟩, (ih hprice.2 htail hkept).mpr ⟨hrooms, rfl⟩⟩

theorem lookup_bookPath_of_notMem {a : Address} (hother : a ∉ path.map PoolEdge.pool) :
    (bookPath path x pools).lookup a = pools.lookup a := by
  induction path generalizing x pools with
  | nil => rfl
  | cons edge path ih =>
    rw [List.map_cons, List.mem_cons, not_or] at hother
    rw [bookPath, ih hother.2, Store.lookup_insert_ite, if_neg hother.1]

/-- A pool is as it was, or it is the pool after one hop that could be priced. -/
theorem lookup_bookPath (pools : Store Address PoolEdge) (hprice : CanPrice path x)
    (hroom : HasRoom path x) (hnodup : (path.map PoolEdge.pool).Nodup) (a : Address) :
    (bookPath path x pools).lookup a = pools.lookup a ∨
      ∃ edge ∈ path, ∃ y, edge.pool = a ∧ Priceable edge y ∧ edge.reserveIn + y < 2 ^ 64 ∧
        (bookPath path x pools).lookup a = some (edge.after y) := by
  induction path generalizing x pools with
  | nil => exact .inl rfl
  | cons edge path ih =>
    obtain ⟨hhead, htail⟩ := List.nodup_cons.mp hnodup
    by_cases ha : a = edge.pool
    · subst ha
      refine .inr ⟨edge, List.mem_cons_self, x, rfl, hprice.1, hroom.1, ?_⟩
      rw [bookPath, lookup_bookPath_of_notMem hhead, Store.lookup_insert_ite, if_pos rfl]
    · rcases ih (pools.insert edge.pool (edge.after x)) hprice.2 hroom.2 htail with
        hsame | ⟨other, hmem, y, hbooked⟩
      · rw [Store.lookup_insert_ite, if_neg ha] at hsame
        exact .inl hsame
      · exact .inr ⟨other, List.mem_cons_of_mem _ hmem, y, hbooked⟩

end Booking

/-! ## The registry -/

/-- The stored pools are the registered ones, and all of them are well formed. -/
structure DynamicRouter.Sound (s : DynamicRouter) : Prop where
  nodup : s.registry.Nodup
  length_le : s.registry.length ≤ maxCandidatePools
  mem_iff : ∀ a, a ∈ s.registry ↔ (s.pools.lookup a).isSome = true
  pool_eq : ∀ a edge, s.pools.lookup a = some edge → edge.pool = a
  fits : ∀ a edge, s.pools.lookup a = some edge → edge.Fits
  valid : ∀ a edge, s.pools.lookup a = some edge → validateEdge edge = .ok ()
  unlocked : s.locked = false

section Registry

variable {s : DynamicRouter} {edge : PoolEdge} {edges path : List PoolEdge} {indices : List ℕ}

theorem sound_fresh : DynamicRouter.fresh.Sound where
  nodup := List.nodup_nil
  length_le := Nat.zero_le _
  mem_iff := by simp [DynamicRouter.fresh]
  pool_eq := nofun
  fits := nofun
  valid := nofun
  unlocked := rfl

theorem DynamicRouter.Sound.mem_registeredPoolEdges (h : s.Sound) :
    edge ∈ s.registeredPoolEdges ↔ s.pools.lookup edge.pool = some edge := by
  rw [DynamicRouter.registeredPoolEdges, List.mem_filterMap]
  constructor
  · rintro ⟨a, _, hfound⟩
    rwa [h.pool_eq a edge hfound]
  · intro hfound
    exact ⟨edge.pool, (h.mem_iff _).mpr (by rw [hfound]; rfl), hfound⟩

theorem DynamicRouter.Sound.map_pool (h : s.Sound) :
    s.registeredPoolEdges.map PoolEdge.pool = s.registry := by
  have hmap : ∀ l : List Address, (∀ a ∈ l, a ∈ s.registry) →
      (l.filterMap s.pools.lookup).map PoolEdge.pool = l := by
    intro l hl
    induction l with
    | nil => rfl
    | cons a l ih =>
      obtain ⟨hhead, htail⟩ := List.forall_mem_cons.mp hl
      obtain ⟨edge, hedge⟩ := Option.isSome_iff_exists.mp ((h.mem_iff a).mp hhead)
      rw [List.filterMap_cons, hedge]
      dsimp only
      rw [List.map_cons, ih htail, h.pool_eq a edge hedge]
  exact hmap s.registry fun _ ha => ha

theorem Along.exists_index (h : Along edges indices path) {edge : PoolEdge} (hmem : edge ∈ path) :
    ∃ j ∈ indices, edges[j]? = some edge := by
  induction h with
  | nil => exact absurd hmem List.not_mem_nil
  | cons hedge _ ih =>
    rcases List.mem_cons.mp hmem with rfl | htail
    · exact ⟨_, List.mem_cons_self, hedge⟩
    · obtain ⟨j, hj, hfound⟩ := ih htail
      exact ⟨j, List.mem_cons_of_mem _ hj, hfound⟩

/-- Distinct edges of a list with distinct pools have distinct pools. -/
theorem Along.nodup_pools (h : Along edges indices path)
    (hedges : (edges.map PoolEdge.pool).Nodup) (hindices : indices.Nodup) :
    (path.map PoolEdge.pool).Nodup := by
  induction h with
  | nil => exact List.nodup_nil
  | @cons index edge indices path hedge hrest ih =>
    obtain ⟨hhead, htail⟩ := List.nodup_cons.mp hindices
    refine List.nodup_cons.mpr ⟨fun hmem => hhead ?_, ih htail⟩
    obtain ⟨other, hother, heq⟩ := List.mem_map.mp hmem
    obtain ⟨j, hj, hfound⟩ := Along.exists_index hrest hother
    have hlt : index < (edges.map PoolEdge.pool).length := by
      rw [List.length_map]
      exact (List.getElem?_eq_some_iff.mp hedge).1
    have hsame : (edges.map PoolEdge.pool)[index]? = (edges.map PoolEdge.pool)[j]? := by
      rw [List.getElem?_map, List.getElem?_map, hedge, hfound, Option.map_some, Option.map_some,
        heq]
    exact (List.getElem?_inj hlt hedges).mp hsame ▸ hj

end Registry

/-! ## Swaps -/

/-- A candidate that can be priced, and that pays at least as much as every other. -/
def BestPath (edges : List PoolEdge) (source destination : AssetId) (amountIn maxHops : ℕ)
    (path : List PoolEdge) : Prop :=
  (∃ indices, Candidate edges source destination maxHops indices path) ∧ CanPrice path amountIn ∧
    ∀ indices' path', Candidate edges source destination maxHops indices' path' →
      CanPrice path' amountIn → routeOutput path' amountIn ≤ routeOutput path amountIn

/-- A swap that is accepted, the quote it returns and the state after it. -/
structure Swap {here : Address} (env : FeeEnv here) (trader : Address)
    (source destination : AssetId) (amountIn minAmountOut maxPriceImpactBps : ℕ)
    (s : DynamicRouter) (quote : RouteQuote) (path : List PoolEdge) (s' : DynamicRouter) :
    Prop where
  auth : env.auth trader = true
  enabled : s.getRouterConfig.enabled = true
  best : BestPath s.registeredPoolEdges source destination amountIn s.getRouterConfig.maxHops path
  quoted : s.quoteRoute source destination amountIn s.getRouterConfig.maxHops = .ok quote
  quote_eq : quote = routeQuote source destination amountIn path
  floor : minAmountOut ≤ quote.amountOut
  tolerance : quote.priceImpactBps ≤ min maxPriceImpactBps s.getRouterConfig.maxPriceImpactBps
  room : HasRoom path amountIn
  booked : s' = { s with pools := bookPath path amountIn s.pools }

/-- Both routers store the same pools, with the same assets and fees, and no product of
reserves fell. -/
def KeepsProducts (s s' : DynamicRouter) : Prop :=
  s'.registry = s.registry ∧ ∀ a edge', s'.pools.lookup a = some edge' →
    ∃ edge, s.pools.lookup a = some edge ∧ edge'.pool = edge.pool ∧
      edge'.assetIn = edge.assetIn ∧ edge'.assetOut = edge.assetOut ∧
      edge'.feeBps = edge.feeBps ∧
      edge.reserveIn * edge.reserveOut ≤ edge'.reserveIn * edge'.reserveOut

section Swaps

variable {here : Address} {env : FeeEnv here} {trader : Address} {source destination : AssetId}
  {x minAmountOut maxPriceImpactBps maxHops : ℕ} {s s' : DynamicRouter} {quote : RouteQuote}
  {edges path : List PoolEdge} {edge : PoolEdge}

/-- What a search finds is the quote of a best path. -/
theorem findBestRoute_eq_ok (hfit : ∀ edge ∈ edges, edge.Fits)
    (hlength : edges.length ≤ maxCandidatePools) (hx : x < 2 ^ 64)
    (h : findBestRoute edges source destination x maxHops = .ok quote) :
    ∃ path, BestPath edges source destination x maxHops path ∧
      quote = routeQuote source destination x path := by
  have hguards := h
  simp only [findBestRoute, bind_eq_ok, failIf_eq_ok] at hguards
  obtain ⟨_, hzero, _, hends, _, hhops, -⟩ := hguards
  have hinput : SearchInput edges source destination x maxHops :=
    ⟨hfit, hlength, hends, by omega, hx, by omega, by omega⟩
  have hkeep : ∀ indices path, Candidate edges source destination maxHops indices path →
      KeepsWord path x := by
    intro indices path hcand
    by_contra hover
    cases h.symm.trans (findBestRoute_traps hinput hcand hover)
  rcases findsBest_of_keepsWord hinput hkeep with ⟨hnone, -⟩ | ⟨indices, path, hcand, hprice,
    hfound, hmax, -⟩
  · cases h.symm.trans hnone
  · exact ⟨path, ⟨⟨indices, hcand⟩, hprice, hmax⟩, Except.ok.inj (h.symm.trans hfound)⟩

theorem BestPath.pools (h : s.Sound)
    (hbest : BestPath s.registeredPoolEdges source destination x maxHops path) :
    (path.map PoolEdge.pool).Nodup ∧ ∀ edge ∈ path, s.pools.lookup edge.pool = some edge := by
  obtain ⟨⟨indices, hcand⟩, -, -⟩ := hbest
  refine ⟨hcand.along.nodup_pools (h.map_pool ▸ h.nodup) hcand.nodup, fun edge hedge => ?_⟩
  exact h.mem_registeredPoolEdges.mp (hcand.along.mem edge hedge)

/-- A swap executes exactly the quote of its best path. -/
theorem executeSwap_eq_ok (h : s.Sound) (hx : x < 2 ^ 64) :
    executeSwap env trader source destination x minAmountOut maxPriceImpactBps s =
        .ok (quote, s') ↔
      ∃ path, Swap env trader source destination x minAmountOut maxPriceImpactBps s quote path
        s' := by
  have hfit : ∀ edge ∈ s.registeredPoolEdges, edge.Fits := fun edge hedge =>
    h.fits _ edge (h.mem_registeredPoolEdges.mp hedge)
  have hlength : s.registeredPoolEdges.length ≤ maxCandidatePools := by
    rw [← List.length_map PoolEdge.pool, h.map_pool]
    exact h.length_le
  have htolerance (a b : ℕ) : (if a < b then a else b) = min a b := by
    split_ifs <;> omega
  simp only [executeSwap, bind_eq_ok, Env.requireAuth_eq_ok, failIf_eq_ok, pure_eq_ok,
    Prod.mk.injEq, htolerance, not_lt]
  constructor
  · rintro ⟨_, hauth, _, _, _, henabled, found, hfound, _, hfloor, _, himpact, _, _, pools,
      hcommit, rfl, rfl⟩
    obtain ⟨path, hbest, rfl⟩ := findBestRoute_eq_ok hfit hlength hx hfound
    obtain ⟨hnodup, hstored⟩ := hbest.pools h
    rw [routeQuote_hops] at hcommit
    obtain ⟨hroom, rfl⟩ := (foldlM_commitHop_eq_ok hbest.2.1 hnodup hstored).mp hcommit
    exact ⟨path, hauth, by simpa using henabled, hbest, hfound, rfl, hfloor, himpact, hroom, rfl⟩
  · rintro ⟨path, hswap⟩
    obtain ⟨hnodup, hstored⟩ := hswap.best.pools h
    obtain rfl := hswap.quote_eq
    refine ⟨(), hswap.auth, (), by simp [h.unlocked], (), by simp [hswap.enabled], _,
      hswap.quoted, (), hswap.floor, (), hswap.tolerance, (), ?_, _, ?_, rfl, hswap.booked.symm⟩
    · exact products_foldl_push hswap.best.2.1 le_rfl
    · rw [routeQuote_hops]
      exact (foldlM_commitHop_eq_ok hswap.best.2.1 hnodup hstored).mpr ⟨hswap.room, rfl⟩

/-- A pool after a hop is well formed, and its product did not fall. -/
theorem Priceable.after (hprice : Priceable edge x) (hfit : edge.Fits)
    (hroom : edge.reserveIn + x < 2 ^ 64) :
    (edge.after x).Fits ∧ validateEdge (edge.after x) = .ok () ∧
      edge.reserveIn * edge.reserveOut ≤ (edge.after x).reserveIn * (edge.after x).reserveOut := by
  have hlt := hopOutput_lt hprice
  have hpos := hprice.reserveIn_pos
  have hout := hfit.2
  refine ⟨⟨hroom, ?_⟩, validateEdge_eq_ok.mpr ⟨hprice.assets_ne, ?_, ?_, hprice.feeBps_le⟩,
    product_le_productAfter hprice⟩
  · show edge.reserveOut - hopOutput edge x < 2 ^ 64
    omega
  · show 0 < edge.reserveIn + x
    omega
  · show 0 < edge.reserveOut - hopOutput edge x
    omega

/-- A swap changes a stored pool at most by a hop that could be priced. -/
theorem Swap.lookup (hswap : Swap env trader source destination x minAmountOut maxPriceImpactBps s
    quote path s') (h : s.Sound) {a : Address} {edge' : PoolEdge}
    (hfound : s'.pools.lookup a = some edge') :
    s.pools.lookup a = some edge' ∨ ∃ edge y, s.pools.lookup a = some edge ∧ Priceable edge y ∧
      edge.reserveIn + y < 2 ^ 64 ∧ edge' = edge.after y := by
  obtain ⟨hnodup, hstored⟩ := hswap.best.pools h
  rw [hswap.booked] at hfound
  rcases lookup_bookPath s.pools hswap.best.2.1 hswap.room hnodup a with
    hsame | ⟨edge, hmem, y, rfl, hprice, hroom, hafter⟩
  · exact .inl (hsame.symm.trans hfound)
  · exact .inr ⟨edge, y, hstored edge hmem, hprice, hroom,
      Option.some.inj (hfound.symm.trans hafter)⟩

theorem Swap.keepsProducts (hswap : Swap env trader source destination x minAmountOut
    maxPriceImpactBps s quote path s') (h : s.Sound) : KeepsProducts s s' := by
  refine ⟨by rw [hswap.booked], fun a edge' hfound => ?_⟩
  rcases hswap.lookup h hfound with hsame | ⟨edge, y, hedge, hprice, hroom, rfl⟩
  · exact ⟨edge', hsame, rfl, rfl, rfl, rfl, le_rfl⟩
  · exact ⟨edge, hedge, rfl, rfl, rfl, rfl, (hprice.after (h.fits a edge hedge) hroom).2.2⟩

end Swaps

section Runs

variable {here : Address} {env : FeeEnv here} {s s' : DynamicRouter} {a : Address}
  {edge : PoolEdge} {pools : Store Address PoolEdge}

theorem bookPath_isSome {path : List PoolEdge} {x : ℕ}
    (hfound : ∀ edge ∈ path, (pools.lookup edge.pool).isSome = true) (a : Address) :
    ((bookPath path x pools).lookup a).isSome = (pools.lookup a).isSome := by
  induction path generalizing x pools with
  | nil => rfl
  | cons edge path ih =>
    obtain ⟨hhead, htail⟩ := List.forall_mem_cons.mp hfound
    have hinsert : ∀ b, ((pools.insert edge.pool (edge.after x)).lookup b).isSome =
        (pools.lookup b).isSome := by
      intro b
      rw [Store.lookup_insert_ite]
      split_ifs with hb
      · rw [hb, hhead, Option.isSome_some]
      · rfl
    rw [bookPath, ih fun other hother => (hinsert _).trans (htail other hother), hinsert]

theorem Swap.sound {trader : Address} {source destination : AssetId}
    {x minAmountOut maxPriceImpactBps : ℕ} {quote : RouteQuote} {path : List PoolEdge}
    (hswap : Swap env trader source destination x minAmountOut maxPriceImpactBps s quote path s')
    (h : s.Sound) : s'.Sound := by
  have hwell : ∀ a edge', s'.pools.lookup a = some edge' →
      edge'.pool = a ∧ edge'.Fits ∧ validateEdge edge' = .ok () := by
    intro a edge' hfound
    rcases hswap.lookup h hfound with hsame | ⟨edge, y, hedge, hprice, hroom, rfl⟩
    · exact ⟨h.pool_eq a _ hsame, h.fits a _ hsame, h.valid a _ hsame⟩
    · obtain ⟨hfit, hvalid, -⟩ := hprice.after (h.fits a edge hedge) hroom
      exact ⟨h.pool_eq a edge hedge, hfit, hvalid⟩
  obtain ⟨-, hstored⟩ := hswap.best.pools h
  have hregistry : s'.registry = s.registry := by rw [hswap.booked]
  have hunlocked : s'.locked = s.locked := by rw [hswap.booked]
  refine ⟨hregistry ▸ h.nodup, hregistry ▸ h.length_le, fun a => ?_,
    fun a e hfound => (hwell a e hfound).1, fun a e hfound => (hwell a e hfound).2.1,
    fun a e hfound => (hwell a e hfound).2.2, hunlocked.trans h.unlocked⟩
  rw [hregistry, h.mem_iff, hswap.booked, bookPath_isSome fun edge hedge => by
    rw [hstored edge hedge, Option.isSome_some]]

/-- A pool that is stored under its own address keeps the registry sound. -/
theorem DynamicRouter.Sound.insert (h : s.Sound) (hfit : edge.Fits)
    (hvalid : validateEdge edge = .ok ()) {registry : List Address} (hnodup : registry.Nodup)
    (hlength : registry.length ≤ maxCandidatePools)
    (hmem : ∀ a, a ∈ registry ↔ a = edge.pool ∨ a ∈ s.registry) :
    ({ s with registry, pools := s.pools.insert edge.pool edge } : DynamicRouter).Sound := by
  have hcases : ∀ a e, (s.pools.insert edge.pool edge).lookup a = some e →
      (a = edge.pool ∧ e = edge) ∨ s.pools.lookup a = some e := by
    intro a e hfound
    rcases Store.lookup_insert_eq_some.mp hfound with ⟨ha, he⟩ | ⟨_, hold⟩
    · exact .inl ⟨ha, he⟩
    · exact .inr hold
  refine ⟨hnodup, hlength, fun a => ?_, fun a e hfound => ?_, fun a e hfound => ?_,
    fun a e hfound => ?_, h.unlocked⟩
  · dsimp only
    rw [hmem, h.mem_iff, Store.lookup_insert_ite]
    split_ifs with ha <;> simp [ha]
  · rcases hcases a e hfound with ⟨rfl, rfl⟩ | hold
    · rfl
    · exact h.pool_eq a e hold
  · rcases hcases a e hfound with ⟨rfl, rfl⟩ | hold
    · exact hfit
    · exact h.fits a e hold
  · rcases hcases a e hfound with ⟨rfl, rfl⟩ | hold
    · exact hvalid
    · exact h.valid a e hold

theorem registerPool_sound (h : s.Sound) {admin : Address} (hfit : edge.Fits)
    (hcall : registerPool env admin edge s = .ok s') : s'.Sound := by
  simp only [registerPool, bind_eq_ok] at hcall
  obtain ⟨_, _, _, _, ⟨⟩, hvalid, hcall⟩ := hcall
  split_ifs at hcall with hexists
  · obtain rfl := pure_eq_ok.mp hcall
    refine h.insert hfit hvalid h.nodup h.length_le fun a => ?_
    exact ⟨.inr, fun hor => hor.elim (fun ha => ha ▸ (h.mem_iff _).mpr hexists) id⟩
  · simp only [bind_eq_ok, failIf_eq_ok, pure_eq_ok] at hcall
    obtain ⟨_, hroom, rfl⟩ := hcall
    have hnew : edge.pool ∉ s.registry := fun hmem => hexists ((h.mem_iff _).mp hmem)
    refine h.insert hfit hvalid ?_ ?_ fun a => ?_
    · exact List.nodup_append.mpr ⟨h.nodup, List.nodup_singleton _, by
        rintro a ha b hb rfl
        exact hnew (List.mem_singleton.mp hb ▸ ha)⟩
    · rw [List.length_append, List.length_singleton]
      omega
    · rw [List.mem_append, List.mem_singleton, or_comm]

theorem removePool_sound (h : s.Sound) {admin pool : Address}
    (hcall : removePool env admin pool s = .ok s') : s'.Sound := by
  simp only [removePool, bind_eq_ok, failIf_eq_ok, pure_eq_ok] at hcall
  obtain ⟨_, _, _, _, _, _, rfl⟩ := hcall
  have hold : ∀ a e, (s.pools.erase pool).lookup a = some e → s.pools.lookup a = some e := by
    intro a e hfound
    rw [Store.lookup_erase_ite] at hfound
    split_ifs at hfound
    exact hfound
  refine ⟨h.nodup.filter _, (List.length_filter_le _ _).trans h.length_le, fun a => ?_,
    fun a e hfound => h.pool_eq a e (hold a e hfound),
    fun a e hfound => h.fits a e (hold a e hfound),
    fun a e hfound => h.valid a e (hold a e hfound), h.unlocked⟩
  dsimp only
  rw [List.mem_filter, h.mem_iff, Store.lookup_erase_ite]
  split_ifs with ha <;> simp [ha]

theorem dynamicStep_sound {i : FeeEnv here × DynamicCall} (h : s.Sound)
    (hstep : dynamicStep i s = .ok s') : s'.Sound := by
  obtain ⟨env, call⟩ := i
  cases call with
  | registerPool admin edge => exact registerPool_sound h edge.2 hstep
  | removePool admin pool => exact removePool_sound h hstep
  | setRouterConfig admin config =>
    simp only [dynamicStep, setRouterConfig, bind_eq_ok, pure_eq_ok] at hstep
    obtain ⟨_, _, _, _, _, _, _, _, rfl⟩ := hstep
    exact ⟨h.nodup, h.length_le, h.mem_iff, h.pool_eq, h.fits, h.valid, h.unlocked⟩
  | executeSwap trader source destination amountIn minAmountOut maxPriceImpactBps =>
    obtain ⟨quote, hcall⟩ := snd_map_eq_ok.mp hstep
    obtain ⟨path, hswap⟩ := (executeSwap_eq_ok h amountIn.toNat_lt).mp hcall
    exact hswap.sound h

end Runs

/-- In every run at most eight pools are registered, once each and well formed. A swap is
accepted exactly when the best route over them meets the limits and fits, and then every hop of
its quote is booked; no product of reserves falls. -/
theorem dynamicSwaps_exact {here : Address} (run : List (FeeEnv here × DynamicCall)) :
    Throughout dynamicStep DynamicRouter.Sound .fresh run ∧
    Foundation.Along dynamicStep (fun s i => ∀ trader source destination
      (amountIn : UInt64) minAmountOut maxPriceImpactBps quote s',
      (executeSwap i.1 trader source destination amountIn.toNat minAmountOut maxPriceImpactBps s =
          .ok (quote, s') ↔
        ∃ path, Swap i.1 trader source destination amountIn.toNat minAmountOut
          maxPriceImpactBps s quote path s') ∧
      (executeSwap i.1 trader source destination amountIn.toNat minAmountOut maxPriceImpactBps s =
          .ok (quote, s') → KeepsProducts s s')) .fresh run := by
  have hstep : ∀ s (i : FeeEnv here × DynamicCall) s', s.Sound → dynamicStep i s = .ok s' →
      s'.Sound := fun s i s' h => dynamicStep_sound h
  refine ⟨throughout_of_invariant hstep (fun s h => h) sound_fresh run, ?_⟩
  refine along_of_invariant hstep (fun s i h trader source destination amountIn minAmountOut
    maxPriceImpactBps quote s' => ?_) sound_fresh run
  refine ⟨executeSwap_eq_ok h amountIn.toNat_lt, fun hcall => ?_⟩
  obtain ⟨path, hswap⟩ := (executeSwap_eq_ok h amountIn.toNat_lt).mp hcall
  exact hswap.keepsProducts h

end StellarFlow.Router.Dynamic
