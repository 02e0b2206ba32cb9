import StellarFlow.Oracle.Buffer

/-!
# Writers of verified prices

A provider's update goes through its checks, joins the buffer of the ledger and stores the median
of the buffer. The quorum is counted before the buffer is stored, so an update that comes too
early leaves nothing behind for the next one. A price may also be set directly, by anybody: the
call holds the lock that the notification of the subscribers needs, so it only goes through where
the price stays the same and nobody is notified. New assets start with the price 0.
-/
namespace StellarFlow.Oracle

open Foundation

/-- The arguments of an update. -/
structure PriceUpdate where
  source : Address
  asset : Symbol
  price : ℤ
  decimals : ℕ
  confidenceScore : ℕ
  ttl : ℕ
  liquidity : ℤ
  deriving DecidableEq

structure AssetRegistrationConfig where
  asset : Symbol
  minPrice : ℤ
  maxPrice : ℤ
  priceFloor : Option ℤ
  deriving DecidableEq

section Model

variable {here : Address} (env : OracleEnv here)

/-! ## After a price -/

/-- A new price counts 15 parts in 100. Within one ledger the average moves by at most 2 %. -/
def nextEma (asset : Symbol) (price : ℤ) (s : OracleStore) : Except OracleFault ℤ :=
  match s.twaps.lookup asset with
  | some (prevEma, prevLedger) => do
    let term1 ← okOr (i128.check (price * 15)) (.error .priceMathOverflow)
    let term2 ← okOr (i128.check (prevEma * 85)) (.error .priceMathOverflow)
    let sum ← okOr (i128.check (term1 + term2)) (.error .priceMathOverflow)
    let newEma := sum.tdiv 100
    if env.sequence = prevLedger then do
      let twice ← okOr (i128.check (prevEma * 2)) (.error .priceMathOverflow)
      failIf (twice.tdiv 100 < |newEma - prevEma|) (.error .priceOutOfBounds)
      pure newEma
    else pure newEma
  | none => pure price

def updateTwap (asset : Symbol) (price : ℤ) (s : OracleStore) : Except OracleFault OracleStore := do
  let newEma ← nextEma env asset price s
  pure { s with twaps := s.twaps.insert asset (newEma, env.sequence) }

/-- The mean of the earlier ledgers of the window. -/
def trailingAverage (window : List PriceWindowEntry) (referenceLedger : ℕ) : Option ℤ := do
  let earlier := window.filter fun entry => entry.ledgerSequence < referenceLedger
  let sum ← earlier.foldlM (fun sum entry => i128.check (sum + entry.price)) 0
  if earlier.length = 0 then none else i128.checkedDiv sum earlier.length

def writeSample (asset : Symbol) (price : ℤ) (s : OracleStore) : OracleStore :=
  let window := (s.priceWindows.lookup asset).getD []
  let entries := (window.filter fun entry => entry.ledgerSequence ≠ env.sequence) ++
    [⟨env.sequence, price⟩]
  { s with
    priceWindows :=
      s.priceWindows.insert asset (entries.drop (entries.length - priceWindowLedgers)) }

/-- Without earlier ledgers the guard of the asset stays as it is. -/
def recordAndEvaluate (asset : Symbol) (price : ℤ) (s : OracleStore) : OracleStore :=
  let written := writeSample env asset price s
  match trailingAverage ((s.priceWindows.lookup asset).getD []) env.sequence with
  | some average =>
    if 0 < average then
      let deviationBps := (calculatePercentageDifferenceBps average price).getD 0
      let tripped := decide (priceImpactThresholdBps < deviationBps)
      if tripped ≠ (s.priceImpactGuards.lookup asset).getD false then
        { written with priceImpactGuards := s.priceImpactGuards.insert asset tripped }
      else written
    else written
  | none => written

def acquireLock (s : OracleStore) : Except OracleFault OracleStore := do
  failIf s.isLocked (.error .reentrancyDetected)
  pure { s with isLocked := true }

def releaseLock (s : OracleStore) : OracleStore := { s with isLocked := false }

/-- A subscriber cannot call back into the oracle, but it can fail. -/
def notifySubscribers (s : OracleStore) : Except OracleFault OracleStore := do
  let s ← acquireLock s
  failIf (∃ subscriber ∈ s.settings.subscribers, ¬ env.onPriceUpdate subscriber) .trap
  pure (releaseLock s)

def reimburseRelayer (provider : Address) (s : OracleStore) : Except OracleFault OracleStore :=
  match s.settings.gasTank with
  | some _ => do
    let s ← acquireLock s
    failIf (¬ env.reimburse provider) .trap
    pure (releaseLock s)
  | none => pure s

/-! ## Updates by providers -/

/-- The update rejects what the stored price, the floor, the bounds, the average or the liquidity
speak against. A bypass switches some of the checks off. -/
def screenPrice (u : PriceUpdate) (normalized : ℤ) (s : OracleStore) :
    Except OracleFault Unit := do
  let existingPrice := s.verifiedPrices.lookup u.asset
  let _ ← requireLedgerSequenceAdvanced env existingPrice
  let oldPrice := (existingPrice.map PriceData.price).getD 0
  let unlessBypass := s.settings.unlessBypass env.timestamp
  unlessBypass (failIf (0 < oldPrice ∧
    deviatesTooFar s.settings.getMaxDeviationPercentage oldPrice normalized)
    (.error .flashCrashDetected))
  unlessBypass (s.enforcePriceFloor u.asset normalized)
  unlessBypass (s.enforcePriceBounds u.asset normalized)
  let twapPrice := (s.twaps.lookup u.asset).map Prod.fst
  let accepted := filterFeedsByDeviation twapPrice [⟨normalized, u.source, env.timestamp⟩]
  failIf (accepted = []) (.error .flashCrashDetected)
  unlessBypass (s.validateLiquidity u.asset u.liquidity)

def updatePrice (u : PriceUpdate) (s : OracleStore) : Except OracleFault OracleStore := do
  -- The results of the checks for a destroyed and for an uninitialised contract are dropped.
  s.settings.requireNotFrozen
  hostCall (env.requireAuth u.source)
  failIf (u.asset ∉ s.trackedAssets) (.error .assetNotFound)
  failIf (!isValid u.price) (.error .invalidPrice)
  failIf (!s.settings.isProvider u.source) (.error .notAuthorized)
  s.enforceLedgerGap env u.source
  let normalized := normalizePrice u.price
  failIf (normalized ≤ 0) (.error .invalidNormalizedPrice)
  let buffer := clearStaleBuffer env (getPriceBuffer env u.asset s)
  failIf (hasProviderSubmitted buffer u.source) (.error .alreadyInitialized)
  screenPrice env u normalized s
  let buffer :=
    { buffer with entries := buffer.entries ++ [⟨normalized, u.source, env.timestamp⟩] }
  s.settings.unlessBypass env.timestamp (validateConsensusQuorum buffer)
  let buffer := truncateBufferByWeight s.settings { buffer with decimals := 9, ttl := u.ttl }
  let medianPrice := (calculateMedianFromBuffer buffer).getD normalized
  failIf (medianPrice ≤ 0) (.error .invalidNormalizedPrice)
  let priceData : PriceData :=
    ⟨medianPrice, env.timestamp, env.sequence, u.source, 9, u.confidenceScore, u.ttl⟩
  let s := setPriceBuffer u.asset buffer s
  let s ← updateTwap env u.asset medianPrice { s with
    providerLastSeenLedger := s.providerLastSeenLedger.insert u.source env.sequence
    verifiedPrices := s.verifiedPrices.insert u.asset priceData }
  let s ← notifySubscribers env (recordAndEvaluate env u.asset medianPrice s)
  reimburseRelayer env u.source s

/-! ## Prices that are set -/

def trackAsset (asset : Symbol) (s : OracleStore) : OracleStore :=
  if asset ∈ s.settings.baseCurrencyPairs then s
  else
    { s with
      settings := { s.settings with baseCurrencyPairs := s.settings.baseCurrencyPairs ++ [asset] }
      trackedAssets := insert asset s.trackedAssets }

/-- The part of the call under the lock. -/
def setPriceLocked (asset : Symbol) (val : ℤ) (ttl : ℕ) (s : OracleStore) :
    Except OracleFault OracleStore := do
  failIf (!isValid val) (.error .invalidPrice)
  let normalized := normalizePrice val
  failIf (normalized ≤ 0) (.error .invalidNormalizedPrice)
  s.enforcePriceFloor asset normalized
  let existing := s.verifiedPrices.lookup asset
  let s := trackAsset asset s
  let writeNew : Except OracleFault OracleStore := do
    let priceData : PriceData := ⟨normalized, env.timestamp, env.sequence, here, 9, 100, ttl⟩
    let s ← updateTwap env asset normalized
      { s with verifiedPrices := s.verifiedPrices.insert asset priceData }
    notifySubscribers env (recordAndEvaluate env asset normalized s)
  match existing with
  | some current => do
    let currentLedger ← requireLedgerSequenceAdvanced env (some current)
    if current.price = val then do
      -- The price stays the same, and only its time is written.
      let refreshed :=
        { current with timestamp := env.timestamp, ledgerSequence := currentLedger }
      let s ← updateTwap env asset val
        { s with verifiedPrices := s.verifiedPrices.insert asset refreshed }
      pure (recordAndEvaluate env asset val s)
    else writeNew
  | none => writeNew

def setPrice (asset : Symbol) (val : ℤ) (ttl : ℕ) (s : OracleStore) :
    Except OracleFault OracleStore := do
  s.settings.requireNotDestroyed
  s.settings.requireNotFrozen
  let s ← acquireLock s
  let s ← setPriceLocked env asset val ttl s
  pure (releaseLock s)

/-! ## Assets -/

/-- The price of an asset that has none yet. -/
def placeholder : PriceData := ⟨0, env.timestamp, env.sequence, here, 0, 0, 0⟩

def startPrice (asset : Symbol) (s : OracleStore) : OracleStore :=
  if (s.verifiedPrices.lookup asset).isNone then
    { s with verifiedPrices := s.verifiedPrices.insert asset (placeholder env) }
  else s

/-- The checks that entry points for admins begin with. -/
def requireAdmin (admin : Address) (s : OracleStore) : Except OracleFault Unit := do
  s.settings.requireNotFrozen
  hostCall (env.requireAuth admin)
  s.settings.requireAuthorized admin

def addAsset (admin : Address) (asset : Symbol) (s : OracleStore) :
    Except OracleFault OracleStore := do
  s.settings.requireNotDestroyed
  s.settings.requireInitialized
  requireAdmin env admin s
  pure (startPrice env asset (trackAsset asset s))

/-- Track an asset and set its bounds and its floor. -/
def registerAsset (s : OracleStore) (config : AssetRegistrationConfig) : OracleStore :=
  let s := startPrice env config.asset (trackAsset config.asset s)
  { s with settings := { s.settings with
      priceBounds := s.settings.priceBounds.insert config.asset ⟨config.minPrice, config.maxPrice⟩
      priceFloors := match config.priceFloor with
        | some priceFloor => s.settings.priceFloors.insert config.asset priceFloor
        | none => s.settings.priceFloors } }

/-- The check of the configurations is not among the modelled code. -/
def registerAssetsWithConfig (validConfigs : List AssetRegistrationConfig → ℤ → Bool)
    (admin : Address) (configs : List AssetRegistrationConfig) (maxDeviationBps : ℤ)
    (s : OracleStore) : Except OracleFault OracleStore := do
  s.settings.requireNotDestroyed
  s.settings.requireInitialized
  requireAdmin env admin s
  failIf (!validConfigs configs maxDeviationBps) (.error .invalidConfig)
  let settings := { s.settings with maxPriceDeviationBps := some maxDeviationBps }
  pure (configs.foldl (registerAsset env) { s with settings })

def removeAsset (admin : Address) (asset : Symbol) (s : OracleStore) :
    Except OracleFault OracleStore := do
  s.settings.requireNotDestroyed
  requireAdmin env admin s
  failIf (s.verifiedPrices.lookup asset = none) (.error .assetNotFound)
  pure { s with
    verifiedPrices := s.verifiedPrices.erase asset
    trackedAssets := s.trackedAssets.erase asset
    settings := { s.settings with
      priceFloors := s.settings.priceFloors.erase asset
      priceBounds := s.settings.priceBounds.erase asset
      baseCurrencyPairs := s.settings.baseCurrencyPairs.filter fun tracked => tracked ≠ asset } }

end Model

/-! ## What the writers change -/

/-- The same prices, tracked assets and buffers, and the same lock. -/
structure KeepsPrices (s s' : OracleStore) : Prop where
  verifiedPrices_eq : s'.verifiedPrices = s.verifiedPrices
  trackedAssets_eq : s'.trackedAssets = s.trackedAssets
  buffers_eq : s'.buffers = s.buffers
  isLocked_eq : s'.isLocked = s.isLocked

/-- The buffer of the ledger with the entry of an update. -/
def joinedBuffer {here : Address} (env : OracleEnv here) (u : PriceUpdate) (s : OracleStore) :
    PriceBuffer :=
  let buffer := clearStaleBuffer env (getPriceBuffer env u.asset s)
  { buffer with
    entries := buffer.entries ++ [⟨normalizePrice u.price, u.source, env.timestamp⟩] }

def storedBuffer {here : Address} (env : OracleEnv here) (u : PriceUpdate) (s : OracleStore) :
    PriceBuffer :=
  truncateBufferByWeight s.settings { joinedBuffer env u s with decimals := 9, ttl := u.ttl }

/-- The price that an update stores. -/
def updatedPrice {here : Address} (env : OracleEnv here) (u : PriceUpdate) (s : OracleStore) :
    PriceData :=
  ⟨(calculateMedianFromBuffer (storedBuffer env u s)).getD (normalizePrice u.price),
    env.timestamp, env.sequence, u.source, 9, u.confidenceScore, u.ttl⟩

/-- What an accepted update has checked, and what it leaves. -/
structure UpdateAccepted {here : Address} (env : OracleEnv here) (u : PriceUpdate)
    (s s' : OracleStore) : Prop where
  signed : env.auth u.source = true
  tracked : u.asset ∈ s.trackedAssets
  provider : s.settings.isProvider u.source = true
  advanced : ∀ priceData, s.verifiedPrices.lookup u.asset = some priceData →
    priceData.ledgerSequence < env.sequence
  quorum : s.settings.isBypassActive env.timestamp = true ∨
    minQuorum ≤ ((joinedBuffer env u s).entries.map PriceBufferEntry.provider).dedup.length
  trackedAssets_eq : s'.trackedAssets = s.trackedAssets
  verifiedPrices_eq :
    s'.verifiedPrices = s.verifiedPrices.insert u.asset (updatedPrice env u s)
  buffers_eq : s'.buffers = s.buffers.insert (u.asset, env.sequence) (storedBuffer env u s)

/-- What an accepted call that sets a price has checked, and what it leaves. -/
structure SetAccepted {here : Address} (env : OracleEnv here) (asset : Symbol) (val : ℤ)
    (s s' : OracleStore) : Prop where
  alive : s.settings.destroyed = false
  positive : 0 < val
  above_floor : ∀ priceFloor, s.settings.priceFloors.lookup asset = some priceFloor →
    priceFloor ≤ val
  refreshed : ∃ current, s.verifiedPrices.lookup asset = some current ∧ current.price = val ∧
    current.ledgerSequence < env.sequence ∧
    s'.verifiedPrices = s.verifiedPrices.insert asset
      { current with timestamp := env.timestamp, ledgerSequence := env.sequence }
  trackedAssets_subset : s'.trackedAssets ⊆ insert asset s.trackedAssets
  buffers_eq : s'.buffers = s.buffers

/-- The assets have a price from here on, and those that had none start with 0. -/
structure Starts {here : Address} (env : OracleEnv here) (assets : List Symbol)
    (s s' : OracleStore) : Prop where
  lookup_eq : ∀ asset, s'.verifiedPrices.lookup asset = (s.verifiedPrices.lookup asset).or
    (if asset ∈ assets then some (placeholder env) else none)
  trackedAssets_subset : ∀ asset ∈ s'.trackedAssets, asset ∈ s.trackedAssets ∨ asset ∈ assets
  buffers_eq : s'.buffers = s.buffers

section Effects

variable {here : Address} {env : OracleEnv here} {s s' : OracleStore} {u : PriceUpdate}
  {asset : Symbol} {price val : ℤ} {ttl : ℕ} {admin : Address}

theorem KeepsPrices.refl (s : OracleStore) : KeepsPrices s s := ⟨rfl, rfl, rfl, rfl⟩

theorem KeepsPrices.trans {s'' : OracleStore} (h : KeepsPrices s s') (h' : KeepsPrices s' s'') :
    KeepsPrices s s'' :=
  ⟨h'.verifiedPrices_eq.trans h.verifiedPrices_eq, h'.trackedAssets_eq.trans h.trackedAssets_eq,
    h'.buffers_eq.trans h.buffers_eq, h'.isLocked_eq.trans h.isLocked_eq⟩

theorem requireNotDestroyed_eq_ok {settings : OracleSettings} {r : Unit} :
    settings.requireNotDestroyed = .ok r ↔ settings.destroyed = false := by
  rw [OracleSettings.requireNotDestroyed, failIf_eq_ok, Bool.not_eq_true]

theorem requireInitialized_eq_ok {settings : OracleSettings} {r : Unit} :
    settings.requireInitialized = .ok r ↔ settings.initialized = true := by
  simp [OracleSettings.requireInitialized]

theorem requireAdmin_eq_ok {r : Unit} (h : requireAdmin env admin s = .ok r) :
    env.auth admin = true ∧ s.settings.isAuthorized admin = true := by
  obtain ⟨_, -, h⟩ := bind_eq_ok.mp h
  obtain ⟨_, hauth, h⟩ := bind_eq_ok.mp h
  rw [hostCall_eq_ok, Env.requireAuth_eq_ok] at hauth
  simpa [OracleSettings.requireAuthorized, hauth] using h

theorem updateTwap_keeps (h : updateTwap env asset price s = .ok s') : KeepsPrices s s' := by
  obtain ⟨newEma, -, h⟩ := bind_eq_ok.mp h
  obtain rfl := pure_eq_ok.mp h
  exact ⟨rfl, rfl, rfl, rfl⟩

theorem recordAndEvaluate_keeps (env : OracleEnv here) (asset : Symbol) (price : ℤ)
    (s : OracleStore) : KeepsPrices s (recordAndEvaluate env asset price s) := by
  rw [recordAndEvaluate]
  dsimp only
  split
  · split_ifs <;> exact ⟨rfl, rfl, rfl, rfl⟩
  · exact ⟨rfl, rfl, rfl, rfl⟩

theorem acquireLock_eq_ok (h : acquireLock s = .ok s') :
    s.isLocked = false ∧ s' = { s with isLocked := true } := by
  obtain ⟨_, hfree, h⟩ := bind_eq_ok.mp h
  rw [failIf_eq_ok, Bool.not_eq_true] at hfree
  exact ⟨hfree, (pure_eq_ok.mp h).symm⟩

theorem notifySubscribers_eq_ok (h : notifySubscribers env s = .ok s') :
    s.isLocked = false ∧ KeepsPrices s s' := by
  obtain ⟨locked, hlock, h⟩ := bind_eq_ok.mp h
  obtain ⟨_, -, h⟩ := bind_eq_ok.mp h
  obtain ⟨hfree, rfl⟩ := acquireLock_eq_ok hlock
  obtain rfl := pure_eq_ok.mp h
  exact ⟨hfree, rfl, rfl, rfl, hfree.symm⟩

theorem reimburseRelayer_keeps {provider : Address}
    (h : reimburseRelayer env provider s = .ok s') : KeepsPrices s s' := by
  rw [reimburseRelayer] at h
  split at h
  · obtain ⟨locked, hlock, h⟩ := bind_eq_ok.mp h
    obtain ⟨_, -, h⟩ := bind_eq_ok.mp h
    obtain ⟨hfree, rfl⟩ := acquireLock_eq_ok hlock
    obtain rfl := pure_eq_ok.mp h
    exact ⟨rfl, rfl, rfl, hfree.symm⟩
  · obtain rfl := pure_eq_ok.mp h
    exact .refl s

theorem requireLedgerSequenceAdvanced_eq_ok {previous : Option PriceData} {ledger : ℕ}
    (h : requireLedgerSequenceAdvanced env previous = .ok ledger) :
    ledger = env.sequence ∧
      ∀ prev, previous = some prev → prev.ledgerSequence < env.sequence := by
  obtain ⟨_, hgap, h⟩ := bind_eq_ok.mp h
  refine ⟨(pure_eq_ok.mp h).symm, fun prev hprev => ?_⟩
  subst hprev
  simpa using hgap

@[simp] theorem clearStaleBuffer_ledgerSequence (buffer : PriceBuffer) :
    (clearStaleBuffer env buffer).ledgerSequence = env.sequence := by
  rw [clearStaleBuffer]
  split_ifs with h
  · rfl
  · exact not_not.mp h

theorem storedBuffer_ledgerSequence (env : OracleEnv here) (u : PriceUpdate) (s : OracleStore) :
    (storedBuffer env u s).ledgerSequence = env.sequence := by
  rw [storedBuffer, truncateBufferByWeight]
  split_ifs <;> exact clearStaleBuffer_ledgerSequence _

theorem joinedBuffer_ne_nil (env : OracleEnv here) (u : PriceUpdate) (s : OracleStore) :
    (joinedBuffer env u s).entries ≠ [] := by
  rw [joinedBuffer]
  exact List.concat_ne_nil _ _

/-- An update stores the median of the buffer, as far as it is in range. -/
theorem updatedPrice_price
    (hsum : (storedBuffer env u s).entries.length % 2 ≠ 1 →
      ∀ entry ∈ (storedBuffer env u s).entries, ∀ other ∈ (storedBuffer env u s).entries,
        i128.Fits (entry.price + other.price)) :
    (updatedPrice env u s).price =
      median ((storedBuffer env u s).entries.map PriceBufferEntry.price) := by
  have hlength : (storedBuffer env u s).entries.length ≤ maxValidators :=
    (length_truncateBufferByWeight_le _ _).trans (by decide)
  have hne : (storedBuffer env u s).entries ≠ [] :=
    truncateBufferByWeight_ne_nil _ (joinedBuffer_ne_nil env u s)
  rw [updatedPrice]
  dsimp only
  rw [calculateMedianFromBuffer_eq hne hlength hsum, Option.getD_some]

/-- What lies between the stored price and the end of an update keeps the prices. -/
theorem updatePrice_eq_ok (h : updatePrice env u s = .ok s') : UpdateAccepted env u s s' := by
  rw [updatePrice] at h
  obtain ⟨_, -, h⟩ := bind_eq_ok.mp h
  obtain ⟨_, hauth, h⟩ := bind_eq_ok.mp h
  obtain ⟨_, htracked, h⟩ := bind_eq_ok.mp h
  obtain ⟨_, -, h⟩ := bind_eq_ok.mp h
  obtain ⟨_, hprovider, h⟩ := bind_eq_ok.mp h
  obtain ⟨_, -, h⟩ := bind_eq_ok.mp h
  obtain ⟨_, -, h⟩ := bind_eq_ok.mp h
  obtain ⟨_, -, h⟩ := bind_eq_ok.mp h
  obtain ⟨_, hscreen, h⟩ := bind_eq_ok.mp h
  obtain ⟨_, hquorum, h⟩ := bind_eq_ok.mp h
  obtain ⟨_, -, h⟩ := bind_eq_ok.mp h
  obtain ⟨s₁, htwap, h⟩ := bind_eq_ok.mp h
  obtain ⟨s₂, hnotify, hreimburse⟩ := bind_eq_ok.mp h
  rw [hostCall_eq_ok, Env.requireAuth_eq_ok] at hauth
  rw [failIf_eq_ok] at htracked hprovider
  obtain ⟨ledger, hadvanced, -⟩ := bind_eq_ok.mp hscreen
  have hkeeps := (((updateTwap_keeps htwap).trans (recordAndEvaluate_keeps env _ _ s₁)).trans
    (notifySubscribers_eq_ok hnotify).2).trans (reimburseRelayer_keeps hreimburse)
  refine ⟨hauth, not_not.mp htracked, by simpa using hprovider,
    (requireLedgerSequenceAdvanced_eq_ok hadvanced).2, ?_, hkeeps.trackedAssets_eq,
    hkeeps.verifiedPrices_eq, ?_⟩
  · by_cases hbypass : s.settings.isBypassActive env.timestamp = true
    · exact .inl hbypass
    · rw [OracleSettings.unlessBypass, if_neg hbypass, validateConsensusQuorum,
        failIf_eq_ok] at hquorum
      exact .inr (not_lt.mp hquorum)
  · rw [← storedBuffer_ledgerSequence env u s]
    exact hkeeps.buffers_eq

theorem enforcePriceFloor_eq_ok {r : Unit} (h : s.enforcePriceFloor asset price = .ok r)
    (priceFloor : ℤ) (hfloor : s.settings.priceFloors.lookup asset = some priceFloor) :
    priceFloor ≤ price := by
  rw [OracleStore.enforcePriceFloor, hfloor] at h
  exact not_lt.mp (failIf_eq_ok.mp h)

theorem trackAsset_frame (asset : Symbol) (s : OracleStore) :
    (trackAsset asset s).verifiedPrices = s.verifiedPrices ∧
      (trackAsset asset s).buffers = s.buffers ∧
      (trackAsset asset s).isLocked = s.isLocked ∧
      (trackAsset asset s).trackedAssets ⊆ insert asset s.trackedAssets := by
  rw [trackAsset]
  split_ifs
  · exact ⟨rfl, rfl, rfl, Finset.subset_insert _ _⟩
  · exact ⟨rfl, rfl, rfl, subset_rfl⟩

/-- Under the lock the subscribers cannot be notified, so only a price that stays the same is
accepted. -/
theorem setPriceLocked_eq_ok (hlocked : s.isLocked = true)
    (h : setPriceLocked env asset val ttl s = .ok s') :
    0 < val ∧
      (∀ priceFloor, s.settings.priceFloors.lookup asset = some priceFloor → priceFloor ≤ val) ∧
      ∃ current, s.verifiedPrices.lookup asset = some current ∧ current.price = val ∧
        current.ledgerSequence < env.sequence ∧
        KeepsPrices { trackAsset asset s with
          verifiedPrices := s.verifiedPrices.insert asset
            { current with timestamp := env.timestamp, ledgerSequence := env.sequence } } s' := by
  obtain ⟨hverified, -, hlock, -⟩ := trackAsset_frame asset s
  rw [setPriceLocked] at h
  obtain ⟨_, hvalid, h⟩ := bind_eq_ok.mp h
  obtain ⟨_, -, h⟩ := bind_eq_ok.mp h
  obtain ⟨_, hfloor, h⟩ := bind_eq_ok.mp h
  have hpos : 0 < val := by simpa [isValid] using hvalid
  refine ⟨hpos, enforcePriceFloor_eq_ok hfloor, ?_⟩
  -- A new price ends in a notification, which needs the lock.
  have hstuck : ∀ {priceData : PriceData} {s' : OracleStore},
      (do
        let s ← updateTwap env asset (normalizePrice val) { trackAsset asset s with
          verifiedPrices := (trackAsset asset s).verifiedPrices.insert asset priceData }
        notifySubscribers env (recordAndEvaluate env asset (normalizePrice val) s)) ≠ .ok s' := by
    intro priceData s' hnew
    obtain ⟨s₁, htwap, hnotify⟩ := bind_eq_ok.mp hnew
    have hheld := (updateTwap_keeps htwap).trans (recordAndEvaluate_keeps env asset
      (normalizePrice val) s₁)
    have hfree := (notifySubscribers_eq_ok hnotify).1
    rw [hheld.isLocked_eq] at hfree
    exact absurd (hfree.symm.trans (hlock.trans hlocked)) Bool.false_ne_true
  cases hexisting : s.verifiedPrices.lookup asset with
  | none =>
    rw [hexisting] at h
    exact absurd h hstuck
  | some current =>
    rw [hexisting] at h
    obtain ⟨ledger, hadvanced, h⟩ := bind_eq_ok.mp h
    obtain ⟨rfl, hgap⟩ := requireLedgerSequenceAdvanced_eq_ok hadvanced
    split_ifs at h with hsame
    · obtain ⟨s₁, htwap, h⟩ := bind_eq_ok.mp h
      obtain rfl := pure_eq_ok.mp h
      refine ⟨current, rfl, hsame, hgap current rfl, ?_⟩
      have hkeeps := (updateTwap_keeps htwap).trans (recordAndEvaluate_keeps env asset val s₁)
      rw [hverified] at hkeeps
      exact hkeeps
    · exact absurd h hstuck

theorem setPrice_eq_ok (h : setPrice env asset val ttl s = .ok s') :
    SetAccepted env asset val s s' := by
  obtain ⟨_, halive, h⟩ := bind_eq_ok.mp h
  obtain ⟨_, -, h⟩ := bind_eq_ok.mp h
  obtain ⟨s₁, hlock, h⟩ := bind_eq_ok.mp h
  obtain ⟨s₂, hset, hreleased⟩ := bind_eq_ok.mp h
  obtain ⟨-, rfl⟩ := acquireLock_eq_ok hlock
  obtain rfl := pure_eq_ok.mp hreleased
  obtain ⟨hpos, hfloor, current, hcurrent, hsame, hgap, hkeeps⟩ := setPriceLocked_eq_ok rfl hset
  obtain ⟨-, hbuffers, -, htracked⟩ := trackAsset_frame asset { s with isLocked := true }
  refine ⟨requireNotDestroyed_eq_ok.mp halive, hpos, hfloor,
    ⟨current, hcurrent, hsame, hgap, hkeeps.verifiedPrices_eq⟩, ?_, ?_⟩
  · rw [releaseLock, hkeeps.trackedAssets_eq]
    exact htracked
  · exact hkeeps.buffers_eq.trans hbuffers

theorem lookup_startPrice (env : OracleEnv here) (asset other : Symbol) (s : OracleStore) :
    (startPrice env asset s).verifiedPrices.lookup other =
      (s.verifiedPrices.lookup other).or
        (if other = asset then some (placeholder env) else none) := by
  rw [startPrice]
  split_ifs with hnone hother hother
  · subst hother
    rw [Store.lookup_insert_ite, if_pos rfl, Option.isNone_iff_eq_none.mp hnone, Option.none_or]
  · rw [Store.lookup_insert_ite, if_neg hother, Option.or_none]
  · subst hother
    obtain ⟨priceData, hsome⟩ := Option.ne_none_iff_exists'.mp
      (fun heq => hnone (Option.isNone_iff_eq_none.mpr heq))
    rw [hsome, Option.some_or]
  · rw [Option.or_none]

theorem Starts.of_one (env : OracleEnv here) (asset : Symbol) (s : OracleStore) :
    Starts env [asset] s (startPrice env asset (trackAsset asset s)) := by
  obtain ⟨hverified, hbuffers, -, htracked⟩ := trackAsset_frame asset s
  refine ⟨fun other => ?_, fun other hmem => ?_, ?_⟩
  · rw [lookup_startPrice, hverified]
    simp only [List.mem_singleton]
  · have hkept : (startPrice env asset (trackAsset asset s)).trackedAssets =
        (trackAsset asset s).trackedAssets := by
      rw [startPrice]
      split_ifs <;> rfl
    rw [hkept] at hmem
    obtain heq | hold := Finset.mem_insert.mp (htracked hmem)
    · exact .inr (List.mem_singleton.mpr heq)
    · exact .inl hold
  · rw [startPrice]
    split_ifs <;> exact hbuffers

theorem Starts.cons {assets : List Symbol} {s'' : OracleStore} (h : Starts env [asset] s s')
    (h' : Starts env assets s' s'') : Starts env (asset :: assets) s s'' where
  lookup_eq other := by
    rw [h'.lookup_eq, h.lookup_eq]
    simp only [List.mem_cons]
    cases s.verifiedPrices.lookup other <;> split_ifs <;> simp_all
  trackedAssets_subset other hmem := by
    obtain hmem | hmem := h'.trackedAssets_subset other hmem
    · obtain hmem | hmem := h.trackedAssets_subset other hmem
      · exact .inl hmem
      · exact .inr (List.mem_cons.mpr (.inl (List.mem_singleton.mp hmem)))
    · exact .inr (List.mem_cons_of_mem _ hmem)
  buffers_eq := h'.buffers_eq.trans h.buffers_eq

theorem Starts.registerAssets (env : OracleEnv here) (configs : List AssetRegistrationConfig)
    (s : OracleStore) :
    Starts env (configs.map AssetRegistrationConfig.asset) s
      (configs.foldl (registerAsset env) s) := by
  induction configs generalizing s with
  | nil =>
    refine ⟨fun asset => ?_, fun asset hmem => .inl hmem, rfl⟩
    rw [List.map_nil, if_neg List.not_mem_nil, Option.or_none]
    rfl
  | cons config configs ih =>
    have hone : Starts env [config.asset] s (registerAsset env s config) :=
      ⟨(Starts.of_one env config.asset s).lookup_eq,
        (Starts.of_one env config.asset s).trackedAssets_subset,
        (Starts.of_one env config.asset s).buffers_eq⟩
    exact hone.cons (ih (registerAsset env s config))

theorem addAsset_eq_ok (h : addAsset env admin asset s = .ok s') :
    (s.settings.destroyed = false ∧ s.settings.initialized = true ∧ env.auth admin = true ∧
      s.settings.isAuthorized admin = true) ∧
      Starts env [asset] s s' := by
  obtain ⟨_, halive, h⟩ := bind_eq_ok.mp h
  obtain ⟨_, hinit, h⟩ := bind_eq_ok.mp h
  obtain ⟨_, hadmin, h⟩ := bind_eq_ok.mp h
  obtain ⟨hauth, hauthorized⟩ := requireAdmin_eq_ok hadmin
  obtain rfl := pure_eq_ok.mp h
  exact ⟨⟨requireNotDestroyed_eq_ok.mp halive, requireInitialized_eq_ok.mp hinit, hauth,
    hauthorized⟩, Starts.of_one env asset s⟩

theorem registerAssetsWithConfig_eq_ok {validConfigs : List AssetRegistrationConfig → ℤ → Bool}
    {configs : List AssetRegistrationConfig} {maxDeviationBps : ℤ}
    (h : registerAssetsWithConfig env validConfigs admin configs maxDeviationBps s = .ok s') :
    (s.settings.destroyed = false ∧ s.settings.initialized = true ∧ env.auth admin = true ∧
      s.settings.isAuthorized admin = true) ∧
      Starts env (configs.map AssetRegistrationConfig.asset) s s' := by
  obtain ⟨_, halive, h⟩ := bind_eq_ok.mp h
  obtain ⟨_, hinit, h⟩ := bind_eq_ok.mp h
  obtain ⟨_, hadmin, h⟩ := bind_eq_ok.mp h
  obtain ⟨_, -, h⟩ := bind_eq_ok.mp h
  obtain ⟨hauth, hauthorized⟩ := requireAdmin_eq_ok hadmin
  obtain rfl := pure_eq_ok.mp h
  have hstarts := Starts.registerAssets env configs
    { s with settings := { s.settings with maxPriceDeviationBps := some maxDeviationBps } }
  exact ⟨⟨requireNotDestroyed_eq_ok.mp halive, requireInitialized_eq_ok.mp hinit, hauth,
    hauthorized⟩, ⟨hstarts.lookup_eq, hstarts.trackedAssets_subset, hstarts.buffers_eq⟩⟩

theorem removeAsset_eq_ok (h : removeAsset env admin asset s = .ok s') :
    s'.verifiedPrices = s.verifiedPrices.erase asset ∧
      s'.trackedAssets = s.trackedAssets.erase asset ∧ s'.buffers = s.buffers := by
  obtain ⟨_, -, h⟩ := bind_eq_ok.mp h
  obtain ⟨_, -, h⟩ := bind_eq_ok.mp h
  obtain ⟨_, -, h⟩ := bind_eq_ok.mp h
  obtain rfl := pure_eq_ok.mp h
  exact ⟨rfl, rfl, rfl⟩

end Effects

end StellarFlow.Oracle
