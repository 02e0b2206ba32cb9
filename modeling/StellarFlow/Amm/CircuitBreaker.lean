import StellarFlow.Host

/-!
# The spot price circuit breaker

Each pool has a tick with its last price. A price that is too far from the tick freezes the pool
for a number of ledgers. The freeze is written by the call that is refused, and the host drops the
writes of a refused call, so nothing is frozen. A price that is accepted moves the tick, also
within one ledger.
-/
namespace StellarFlow.Amm

open Foundation

def bpsScale : ℕ := 10000
def maxDeviationBpsCeiling : ℕ := 5000
def minDeviationBps : ℕ := 1

structure SpotCircuitBreakerConfig where
  maxDeviationBps : ℕ
  cooldownLedgers : ℕ
  enabled : Bool
  deriving DecidableEq

def SpotCircuitBreakerConfig.default : SpotCircuitBreakerConfig := ⟨1500, 100, true⟩

structure SpotPriceTick where
  poolId : AssetId
  lastPrice : ℤ
  ledgerSequence : ℕ
  timestamp : ℕ
  deriving DecidableEq

structure PoolCircuitBreakerState where
  isFrozen : Bool
  frozenAtLedger : ℕ
  frozenAtTimestamp : ℕ
  breachDeviationBps : ℕ
  baselinePrice : ℤ
  breachPrice : ℤ
  /-- Who froze the pool by hand. -/
  frozenBy : Option Address
  deriving DecidableEq

def PoolCircuitBreakerState.default : PoolCircuitBreakerState := ⟨false, 0, 0, 0, 0, 0, none⟩

structure CircuitBreaker where
  config : Option SpotCircuitBreakerConfig
  ticks : Store AssetId SpotPriceTick
  states : Store AssetId PoolCircuitBreakerState

namespace CircuitBreaker

/-- No pool has a price yet. -/
def deployed (config : Option SpotCircuitBreakerConfig) : CircuitBreaker := ⟨config, ∅, ∅⟩

def getConfig (b : CircuitBreaker) : SpotCircuitBreakerConfig := b.config.getD .default

def getLastTick (poolId : AssetId) (b : CircuitBreaker) : Option SpotPriceTick :=
  b.ticks.lookup poolId

def saveTick (tick : SpotPriceTick) (b : CircuitBreaker) : CircuitBreaker :=
  { b with ticks := b.ticks.insert tick.poolId tick }

def getState (poolId : AssetId) (b : CircuitBreaker) : PoolCircuitBreakerState :=
  (b.states.lookup poolId).getD .default

def saveState (poolId : AssetId) (state : PoolCircuitBreakerState) (b : CircuitBreaker) :
    CircuitBreaker :=
  { b with states := b.states.insert poolId state }

end CircuitBreaker

/-- The environment with the admin in the contract data and the emergency admin. -/
structure BreakerEnv (here : Address) extends Env here where
  admin : Option Address
  emergencyAdmin : Option Address

def validateCircuitBreakerConfig (cfg : SpotCircuitBreakerConfig) : Except Fault Unit := do
  failIf (cfg.maxDeviationBps < minDeviationBps ∨ maxDeviationBpsCeiling < cfg.maxDeviationBps)
    (Fault.error .invalidCircuitBreakerConfig)
  failIf (cfg.cooldownLedgers = 0) (Fault.error .invalidCircuitBreakerConfig)

def calculatePriceDeviationBps (baselinePrice newPrice : ℤ) : Except Fault ℕ := do
  failIf (baselinePrice ≤ 0 ∨ newPrice ≤ 0) (Fault.error .divisionByZero)
  let delta := (newPrice - baselinePrice).natAbs
  let scaled ← okOr (checkBits 128 (delta * bpsScale)) (Fault.error .overflow)
  let devBps := scaled / baselinePrice.toNat
  failIf (2 ^ 32 - 1 < devBps) (Fault.error .overflow)
  pure devBps

/-- The addition stops at the largest ledger number. -/
def cooldownTarget (cfg : SpotCircuitBreakerConfig) (state : PoolCircuitBreakerState) : ℕ :=
  min (state.frozenAtLedger + cfg.cooldownLedgers) (2 ^ 32 - 1)

section Calls

variable {here : Address} (env : BreakerEnv here)

def isPoolTradingAllowed (poolId : AssetId) (b : CircuitBreaker) : Bool :=
  let state := b.getState poolId
  if state.isFrozen then decide (cooldownTarget b.getConfig state ≤ env.sequence) else true

/-- A pool that is frozen from this ledger on. -/
def frozenState (breachDeviationBps : ℕ) (baselinePrice breachPrice : ℤ)
    (frozenBy : Option Address) : PoolCircuitBreakerState where
  isFrozen := true
  frozenAtLedger := env.sequence
  frozenAtTimestamp := env.timestamp
  breachDeviationBps
  baselinePrice
  breachPrice
  frozenBy

/-- The result together with what the call has written by then, also where it is refused. -/
def checkAndUpdateSpotPrice (poolId : AssetId) (currentSpotPrice : ℤ) (b : CircuitBreaker) :
    CircuitBreaker × Except Fault Unit :=
  if currentSpotPrice ≤ 0 then (b, .error (.error .divisionByZero))
  else
    let cfg := b.getConfig
    let state := b.getState poolId
    let tick : SpotPriceTick := ⟨poolId, currentSpotPrice, env.sequence, env.timestamp⟩
    if state.isFrozen then
      if cooldownTarget cfg state ≤ env.sequence then
        ((b.saveState poolId { state with isFrozen := false, frozenBy := none }).saveTick tick,
          .ok ())
      else (b, .error (.error .circuitBreakerTripped))
    else if ¬ cfg.enabled then (b.saveTick tick, .ok ())
    else
      match b.getLastTick poolId with
      | none => (b.saveTick tick, .ok ())
      | some prevTick =>
        match calculatePriceDeviationBps prevTick.lastPrice currentSpotPrice with
        | .error e => (b, .error e)
        | .ok devBps =>
          if cfg.maxDeviationBps < devBps then
            (b.saveState poolId
              (frozenState env devBps prevTick.lastPrice currentSpotPrice none),
              .error (.error .circuitBreakerTripped))
          else (b.saveTick tick, .ok ())

/-- The admin or the emergency admin acts. -/
def requireBreakerAdmin (caller : Address) : Except Fault Unit := do
  let admin ← okOr env.admin (Fault.error .notInitialized)
  failIf (admin ≠ caller ∧ env.emergencyAdmin ≠ some caller) (Fault.error .notAdmin)
  env.requireAuth caller

def manualFreezePool (caller : Address) (poolId : AssetId) (b : CircuitBreaker) :
    Except Fault CircuitBreaker := do
  requireBreakerAdmin env caller
  let lastPrice := ((b.getLastTick poolId).map SpotPriceTick.lastPrice).getD 0
  pure (b.saveState poolId (frozenState env 0 lastPrice lastPrice (some caller)))

def manualUnfreezePool (caller : Address) (poolId : AssetId) (b : CircuitBreaker) :
    Except Fault CircuitBreaker := do
  requireBreakerAdmin env caller
  pure (b.saveState poolId { b.getState poolId with isFrozen := false, frozenBy := none })

/-- A call that returns an error is a failed transaction: its writes are gone. -/
def asTransaction {σ : Type} (frame : σ × Except Fault Unit) : Except Fault σ :=
  match frame with
  | (s, .ok ()) => .ok s
  | (_, .error e) => .error e

end Calls

/-! ## A price that is too far away -/

namespace CircuitBreaker

/-- The pool is not frozen and the price deviates too far from its tick. -/
def deviates (poolId : AssetId) (price : ℤ) (b : CircuitBreaker) : Bool :=
  !(b.getState poolId).isFrozen && b.getConfig.enabled &&
    match b.getLastTick poolId with
    | none => false
    | some tick =>
      match calculatePriceDeviationBps tick.lastPrice price with
      | .error _ => false
      | .ok devBps => decide (b.getConfig.maxDeviationBps < devBps)

end CircuitBreaker

section Effects

variable {here : Address} {env : BreakerEnv here} {b b' : CircuitBreaker} {poolId : AssetId}
  {price baseline : ℤ} {caller : Address} {devBps : ℕ}

theorem calculatePriceDeviationBps_eq_ok
    (h : calculatePriceDeviationBps baseline price = .ok devBps) :
    0 < baseline ∧ 0 < price ∧
      devBps = (price - baseline).natAbs * bpsScale / baseline.toNat := by
  obtain ⟨_, hpos, h⟩ := bind_eq_ok.mp h
  obtain ⟨scaled, hscaled, h⟩ := bind_eq_ok.mp h
  obtain ⟨_, -, h⟩ := bind_eq_ok.mp h
  obtain ⟨-, rfl⟩ := checkBits_eq_some.mp (okOr_eq_ok.mp hscaled)
  rw [failIf_eq_ok] at hpos
  push Not at hpos
  exact ⟨hpos.1, hpos.2, (pure_eq_ok.mp h).symm⟩

theorem notFrozen_of_deviates (h : b.deviates poolId price = true) :
    (b.getState poolId).isFrozen = false := by
  rw [CircuitBreaker.deviates, Bool.and_eq_true, Bool.and_eq_true] at h
  simpa using h.1.1

/-- In the frame of the call itself the pool is frozen, and the call is refused. -/
theorem checkAndUpdateSpotPrice_of_deviates (env : BreakerEnv here)
    (h : b.deviates poolId price = true) :
    ∃ devBps baseline, checkAndUpdateSpotPrice env poolId price b =
      (b.saveState poolId (frozenState env devBps baseline price none),
        .error (.error .circuitBreakerTripped)) := by
  have hfrozen := notFrozen_of_deviates h
  rw [CircuitBreaker.deviates, Bool.and_eq_true, Bool.and_eq_true] at h
  obtain ⟨⟨-, henabled⟩, hfar⟩ := h
  cases htick : b.getLastTick poolId with
  | none => simp [htick] at hfar
  | some tick =>
    cases hdev : calculatePriceDeviationBps tick.lastPrice price with
    | error e => simp [htick, hdev] at hfar
    | ok devBps =>
      simp only [htick, hdev, decide_eq_true_eq] at hfar
      obtain ⟨-, hpos, -⟩ := calculatePriceDeviationBps_eq_ok hdev
      refine ⟨devBps, tick.lastPrice, ?_⟩
      rw [checkAndUpdateSpotPrice, if_neg (not_le.mpr hpos)]
      simp only [hfrozen, henabled, htick, hdev, if_pos hfar, Bool.false_eq_true, if_false,
        not_true_eq_false]

/-- The host drops the freeze. -/
theorem asTransaction_of_deviates (h : b.deviates poolId price = true) :
    asTransaction (checkAndUpdateSpotPrice env poolId price b) =
      .error (.error .circuitBreakerTripped) := by
  obtain ⟨devBps, baseline, hcheck⟩ := checkAndUpdateSpotPrice_of_deviates env h
  rw [hcheck]
  rfl

theorem asTransaction_eq_ok {frame : CircuitBreaker × Except Fault Unit} :
    asTransaction frame = .ok b' ↔ frame = (b', .ok ()) := by
  obtain ⟨b, r⟩ := frame
  cases r with
  | error e => simp [asTransaction]
  | ok u => simp [asTransaction]

/-- No call changes the configuration. -/
theorem config_of_checkAndUpdate
    (h : checkAndUpdateSpotPrice env poolId price b = (b', .ok ())) : b'.config = b.config := by
  rw [checkAndUpdateSpotPrice] at h
  dsimp only at h
  split_ifs at h
  all_goals try (obtain ⟨rfl, -⟩ := Prod.mk.inj h; rfl)
  split at h
  · obtain ⟨rfl, -⟩ := Prod.mk.inj h
    rfl
  · split at h
    · obtain ⟨rfl, -⟩ := Prod.mk.inj h
      rfl
    · split_ifs at h
      all_goals (obtain ⟨rfl, -⟩ := Prod.mk.inj h; rfl)

/-- A price is accepted for a pool that is not frozen if it is near enough to the tick. -/
theorem checkAndUpdateSpotPrice_eq_ok (hfrozen : (b.getState poolId).isFrozen = false)
    (henabled : b.getConfig.enabled = true)
    (h : checkAndUpdateSpotPrice env poolId price b = (b', .ok ())) :
    0 < price ∧ b' = b.saveTick ⟨poolId, price, env.sequence, env.timestamp⟩ ∧
      ∀ tick, b.getLastTick poolId = some tick →
        ∃ devBps, calculatePriceDeviationBps tick.lastPrice price = .ok devBps ∧
          devBps ≤ b.getConfig.maxDeviationBps := by
  rw [checkAndUpdateSpotPrice] at h
  split_ifs at h with hpos
  · cases (Prod.mk.inj h).2
  · simp only [hfrozen, henabled, Bool.false_eq_true, if_false, not_true_eq_false] at h
    refine ⟨not_le.mp hpos, ?_⟩
    cases htick : b.getLastTick poolId with
    | none =>
      rw [htick] at h
      obtain ⟨rfl, -⟩ := Prod.mk.inj h
      exact ⟨rfl, fun _ hnone => by cases hnone⟩
    | some tick =>
      simp only [htick] at h
      cases hdev : calculatePriceDeviationBps tick.lastPrice price with
      | error e =>
        rw [hdev] at h
        cases (Prod.mk.inj h).2
      | ok devBps =>
        simp only [hdev] at h
        split_ifs at h with hfar
        · cases (Prod.mk.inj h).2
        · obtain ⟨rfl, -⟩ := Prod.mk.inj h
          refine ⟨rfl, fun tick' htick' => ?_⟩
          obtain rfl := Option.some.inj htick'
          exact ⟨devBps, hdev, not_lt.mp hfar⟩

end Effects

/-! ## Runs with trips -/

inductive BreakerCall where
  | checkAndUpdateSpotPrice (poolId : AssetId) (currentSpotPrice : ℤ)
  | manualFreezePool (caller : Address) (poolId : AssetId)
  | manualUnfreezePool (caller : Address) (poolId : AssetId)

structure BreakerStep (here : Address) where
  /-- Ledgers since the call before. -/
  elapsed : ℕ
  env : BreakerEnv here
  call : BreakerCall

/-- The breaker at the ledger of the last call, with the trips of every pool since it was last
unfrozen by hand. -/
structure BreakerHistory where
  breaker : CircuitBreaker
  ledger : ℕ
  trips : List (AssetId × ℕ)

section Trips

variable {here : Address}

def BreakerCall.exec (env : BreakerEnv here) (b : CircuitBreaker) :
    BreakerCall → Except Fault CircuitBreaker
  | checkAndUpdateSpotPrice poolId price =>
    asTransaction (Amm.checkAndUpdateSpotPrice env poolId price b)
  | manualFreezePool caller poolId => Amm.manualFreezePool env caller poolId b
  | manualUnfreezePool caller poolId => Amm.manualUnfreezePool env caller poolId b

/-- The trips after a call at a ledger, given whether it was accepted. -/
def BreakerCall.trips (b : CircuitBreaker) (ledger : ℕ) (accepted : Bool)
    (trips : List (AssetId × ℕ)) : BreakerCall → List (AssetId × ℕ)
  | checkAndUpdateSpotPrice poolId price =>
    if b.deviates poolId price then (poolId, ledger) :: trips else trips
  | manualFreezePool _ _ => trips
  | manualUnfreezePool _ poolId =>
    if accepted then trips.filter fun trip => trip.1 ≠ poolId else trips

/-- The environment of a call at a ledger. -/
def BreakerStep.envAt (ledger : ℕ) (i : BreakerStep here) : BreakerEnv here :=
  { i.env with sequence := ledger }

/-- A refused call changes nothing of the breaker, but its trip is remembered here. -/
def breakerStep (i : BreakerStep here) (h : BreakerHistory) : Except Fault BreakerHistory := do
  let ledger ← okOr (checkBits 32 (h.ledger + i.elapsed)) Fault.trap
  let result := i.call.exec (i.envAt ledger) h.breaker
  pure
    { breaker := commit (fun call b => call.exec (i.envAt ledger) b) h.breaker i.call
      ledger
      trips := i.call.trips h.breaker ledger result.isOk h.trips }

/-- A pool that was tripped and not unfrozen since is refused until its cooldown is over. -/
def StaysTripped (here : Address) (h : BreakerHistory) : Prop :=
  ∀ poolId tripped, (poolId, tripped) ∈ h.trips →
    ∀ env : BreakerEnv here, h.ledger ≤ env.sequence → env.sequence < 2 ^ 32 →
      env.sequence < tripped + h.breaker.getConfig.cooldownLedgers →
        isPoolTradingAllowed env poolId h.breaker = false ∧
        ∀ price, ∃ e, asTransaction (checkAndUpdateSpotPrice env poolId price h.breaker) = .error e

/-- The call names no price that is too far from the tick of a pool that is not frozen. -/
def Untripped (h : BreakerHistory) (i : BreakerStep here) : Prop :=
  h.ledger + i.elapsed < 2 ^ 32 → ∀ poolId price,
    i.call = .checkAndUpdateSpotPrice poolId price → h.breaker.deviates poolId price = false

variable {h h' : BreakerHistory} {i : BreakerStep here} {b b' : CircuitBreaker}
  {env : BreakerEnv here} {poolId : AssetId} {price : ℤ}

theorem BreakerCall.exec_config {call : BreakerCall} (h : call.exec env b = .ok b') :
    b'.config = b.config := by
  cases call with
  | checkAndUpdateSpotPrice poolId price =>
    exact config_of_checkAndUpdate (asTransaction_eq_ok.mp h)
  | manualFreezePool caller poolId =>
    obtain ⟨_, -, hwrite⟩ := bind_eq_ok.mp h
    obtain rfl := pure_eq_ok.mp hwrite
    rfl
  | manualUnfreezePool caller poolId =>
    obtain ⟨_, -, hwrite⟩ := bind_eq_ok.mp h
    obtain rfl := pure_eq_ok.mp hwrite
    rfl

theorem breakerStep_eq_ok :
    breakerStep i h = .ok h' ↔ h.ledger + i.elapsed < 2 ^ 32 ∧
      h' = { breaker := commit (fun call b => call.exec (i.envAt (h.ledger + i.elapsed)) b)
               h.breaker i.call
             ledger := h.ledger + i.elapsed
             trips := i.call.trips h.breaker (h.ledger + i.elapsed)
               (i.call.exec (i.envAt (h.ledger + i.elapsed)) h.breaker).isOk h.trips } := by
  rw [breakerStep, bind_eq_ok]
  constructor
  · rintro ⟨ledger, hledger, hwrite⟩
    obtain ⟨hfits, rfl⟩ := checkBits_eq_some.mp (okOr_eq_ok.mp hledger)
    exact ⟨hfits, (pure_eq_ok.mp hwrite).symm⟩
  · rintro ⟨hfits, rfl⟩
    exact ⟨_, okOr_eq_ok.mpr (checkBits_eq_some.mpr ⟨hfits, rfl⟩), rfl⟩

/-- Nothing has tripped yet, under a fixed configuration with a cooldown. -/
structure Quiet (h : BreakerHistory) : Prop where
  cooldown : 0 < h.breaker.getConfig.cooldownLedgers
  trips : h.trips = []

theorem Quiet.commit (hq : Quiet h) (hc : Untripped h i) : Quiet (commit breakerStep h i) := by
  refine commit_induction hq fun h' h0 => ?_
  obtain ⟨hfits, rfl⟩ := breakerStep_eq_ok.mp h0
  constructor
  · refine commit_induction (P := fun b : CircuitBreaker => 0 < b.getConfig.cooldownLedgers)
      hq.cooldown ?_
    intro b' hexec
    rw [CircuitBreaker.getConfig, BreakerCall.exec_config hexec]
    exact hq.cooldown
  · dsimp only
    cases hcall : i.call with
    | checkAndUpdateSpotPrice poolId price =>
      rw [BreakerCall.trips, hc hfits poolId price hcall]
      exact hq.trips
    | manualFreezePool caller poolId => exact hq.trips
    | manualUnfreezePool caller poolId =>
      rw [BreakerCall.trips, hq.trips]
      split_ifs <;> rfl

/-- A trip leaves the pool open in the ledger in which it happens. -/
theorem Quiet.breaks (hq : Quiet h) (hc : ¬ Untripped h i) :
    ¬ StaysTripped here (Foundation.commit breakerStep h i) := by
  rw [Untripped] at hc
  push Not at hc
  obtain ⟨hfits, poolId, price, hcall, hdeviates⟩ := hc
  rw [ne_eq, Bool.not_eq_false] at hdeviates
  have hstep := breakerStep_eq_ok.mpr ⟨hfits, rfl⟩
  have hrefused : i.call.exec (i.envAt (h.ledger + i.elapsed)) h.breaker =
      .error (.error .circuitBreakerTripped) := by
    rw [hcall]
    exact asTransaction_of_deviates hdeviates
  rw [commit_of_ok hstep, commit_of_error hrefused]
  intro htripped
  obtain ⟨hclosed, -⟩ := htripped poolId (h.ledger + i.elapsed)
    (by
      rw [hcall, BreakerCall.trips, if_pos hdeviates]
      exact List.mem_cons_self)
    (i.envAt (h.ledger + i.elapsed)) le_rfl hfits (Nat.lt_add_of_pos_right hq.cooldown)
  rw [isPoolTradingAllowed, notFrozen_of_deviates hdeviates] at hclosed
  cases hclosed

/-- In a run, every pool that trips stays refused until its cooldown is over if and only if no
pool ever trips. -/
theorem staysTripped_throughout_iff {b : CircuitBreaker}
    (hvalid : validateCircuitBreakerConfig b.getConfig = .ok ()) (ledger : ℕ)
    (run : List (BreakerStep here)) :
    Throughout breakerStep (StaysTripped here) ⟨b, ledger, []⟩ run ↔
      Along breakerStep Untripped ⟨b, ledger, []⟩ run := by
  obtain ⟨_, -, hcooldown⟩ := bind_eq_ok.mp hvalid
  rw [failIf_eq_ok] at hcooldown
  refine throughout_iff_along_of_breaks (I := Quiet) (fun h hq poolId tripped hmem => ?_)
    (fun _ _ hq hc => hq.commit hc) (fun _ _ hq hc => hq.breaks hc)
    ⟨Nat.pos_of_ne_zero hcooldown, rfl⟩ run
  rw [hq.trips] at hmem
  cases hmem

def sampleBreakerEnv : BreakerEnv ⟨0⟩ :=
  { Env.standard ⟨0⟩ 0 none with
    admin := some ⟨1⟩
    emergencyAdmin := none }

/-- The price falls by a fifth, and the call is refused. -/
def crashRun : List (BreakerStep ⟨0⟩) :=
  [⟨10, sampleBreakerEnv, .checkAndUpdateSpotPrice 7 10000000⟩,
    ⟨1, sampleBreakerEnv, .checkAndUpdateSpotPrice 7 8000000⟩]

theorem crashRun_opens :
    ¬ Throughout breakerStep (StaysTripped ⟨0⟩) ⟨.deployed none, 0, []⟩ crashRun := by
  rintro ⟨-, -, htripped⟩
  obtain ⟨hclosed, -⟩ := htripped 7 11 (by decide) { sampleBreakerEnv with sequence := 11 }
    (by decide) (by decide) (by decide)
  revert hclosed
  decide

theorem crashRun_stays_iff :
    Throughout breakerStep (StaysTripped ⟨0⟩) ⟨.deployed none, 0, []⟩ crashRun ↔
      Along breakerStep Untripped ⟨.deployed none, 0, []⟩ crashRun :=
  staysTripped_throughout_iff rfl 0 crashRun

end Trips

end StellarFlow.Amm
