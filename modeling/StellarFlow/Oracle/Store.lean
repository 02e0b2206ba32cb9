import StellarFlow.Host

/-!
# The price oracle

The oracle keeps a verified price for each tracked asset, a buffer of the prices submitted in the
current ledger, and an average that new prices are compared with. Who may submit prices, and which
prices are refused, is a matter of its settings: providers, admins and their delegates, floors,
bounds, the largest deviation and a bypass that switches the checks off for an hour.
-/
namespace StellarFlow.Oracle

open Foundation

def maxMedianEntries : ℕ := 11
def maxPercentChangeBps : ℤ := 1000
def minSafeMaxDeviationBps : ℤ := 100
def deviationThresholdBps : ℤ := 1500
def minLedgerGap : ℕ := 3
def minQuorum : ℕ := 3
def priceWindowLedgers : ℕ := 5
def priceImpactThresholdBps : ℤ := 500
/-- Seconds until a bypass expires. -/
def bypassDuration : ℕ := 3600

inductive OracleError
  | assetNotFound
  | minimumQuorumNotMet
  | invalidPrice
  | priceMathOverflow
  | liquidityBelowThreshold
  | invalidLiquidity
  | contractDestroyed
  | notInitialized
  | reentrancyDetected
  | ledgerGapTooSmall
  | priceOutOfBounds
  | alreadyInitialized
  | invalidNormalizedPrice
  | notAuthorized
  | contractFrozen
  | flashCrashDetected
  | invalidDelegate
  | invalidConfig
  | unbondingAlreadyQueued
  | unbondingRequestNotFound
  | unbondingDelayActive
  | unbondingAlreadyReleased
  | ledgerSequenceOverflow
  | invalidStakeAmount
  | invalidSlashAmount
  | slashTokenNotSet
  | insufficientStake
  | feeTokenNotSet
  | invalidQueryFee
  | noRewards
  | insufficientVaultBalance
  | emergencyHalted
  | circuitBreakerActive
  | staleRateData
  | actionNotFound
  | actionAlreadyExecuted
  | actionCancelled
  | alreadyVoted
  | quorumNotReached
  | invalidActionType
  | multiSigValidationFailed
  | adminNotSet
  deriving DecidableEq, Repr

abbrev OracleFault := Abort OracleError

structure PriceData where
  price : ℤ
  timestamp : ℕ
  ledgerSequence : ℕ
  provider : Address
  decimals : ℕ
  confidenceScore : ℕ
  ttl : ℕ
  deriving DecidableEq

structure PriceBufferEntry where
  price : ℤ
  provider : Address
  timestamp : ℕ
  deriving DecidableEq

structure PriceBuffer where
  entries : List PriceBufferEntry
  ledgerSequence : ℕ
  decimals : ℕ
  ttl : ℕ
  deriving DecidableEq

structure PriceBounds where
  minPrice : ℤ
  maxPrice : ℤ
  deriving DecidableEq

structure PriceWindowEntry where
  ledgerSequence : ℕ
  price : ℤ
  deriving DecidableEq

/-- What the entry points that do not write prices may change. -/
structure OracleSettings where
  initialized : Bool
  destroyed : Bool
  frozen : Bool
  admins : Option (List Address)
  revoked : Finset Address
  providers : Finset Address
  providerWeights : Store Address ℕ
  /-- The delegate of an admin. -/
  submissionDelegates : Store Address Address
  /-- The admin of a delegate. -/
  delegateOf : Store Address Address
  bypassExpiry : Option ℕ
  baseCurrencyPairs : List Symbol
  priceFloors : Store Symbol ℤ
  priceBounds : Store Symbol PriceBounds
  maxPriceDeviationBps : Option ℤ
  liquidityThresholds : Store Symbol ℤ
  subscribers : List Address
  gasTank : Option Address

structure OracleStore where
  settings : OracleSettings
  verifiedPrices : Store Symbol PriceData
  trackedAssets : Finset Symbol
  /-- The buffers by asset and ledger. -/
  buffers : Store (Symbol × ℕ) PriceBuffer
  /-- The moving average of an asset, and the ledger of its last price. -/
  twaps : Store Symbol (ℤ × ℕ)
  /-- The prices of the last ledgers, oldest first. -/
  priceWindows : Store Symbol (List PriceWindowEntry)
  priceImpactGuards : Store Symbol Bool
  providerLastSeenLedger : Store Address ℕ
  isLocked : Bool

/-- The environment with the answers of other contracts: whether a subscriber takes the news of a
price, and whether the gas tank pays a relayer. -/
structure OracleEnv (here : Address) extends Env here where
  onPriceUpdate : Address → Bool
  reimburse : Address → Bool

def OracleSettings.deployed : OracleSettings where
  initialized := false
  destroyed := false
  frozen := false
  admins := none
  revoked := ∅
  providers := ∅
  providerWeights := ∅
  submissionDelegates := ∅
  delegateOf := ∅
  bypassExpiry := none
  baseCurrencyPairs := []
  priceFloors := ∅
  priceBounds := ∅
  maxPriceDeviationBps := none
  liquidityThresholds := ∅
  subscribers := []
  gasTank := none

def OracleStore.deployed : OracleStore := ⟨.deployed, ∅, ∅, ∅, ∅, ∅, ∅, ∅, false⟩

/-! ## Settings -/

namespace OracleSettings

variable (s : OracleSettings)

def isRevoked (addr : Address) : Bool := addr ∈ s.revoked

/-- The list of admins is read into a buffer of 16 entries. -/
def isAuthorized (caller : Address) : Bool :=
  !s.isRevoked caller && decide (caller ∈ (s.admins.getD []).take 16)

/-- Whitelisted providers, and the delegates of authorised admins. -/
def isProvider (addr : Address) : Bool :=
  !s.isRevoked addr && (decide (addr ∈ s.providers) ||
    match s.delegateOf.lookup addr with
    | some admin => s.isAuthorized admin
    | none => false)

def isBypassActive (timestamp : ℕ) : Bool :=
  match s.bypassExpiry with
  | some expiry => timestamp < expiry
  | none => false

/-- A check that an active bypass switches off. -/
def unlessBypass (timestamp : ℕ) (check : Except OracleFault Unit) : Except OracleFault Unit :=
  if s.isBypassActive timestamp then pure () else check

def getMaxDeviationPercentage : ℤ :=
  max (s.maxPriceDeviationBps.getD maxPercentChangeBps) minSafeMaxDeviationBps

def requireNotDestroyed : Except OracleFault Unit :=
  failIf s.destroyed (.error .contractDestroyed)

def requireInitialized : Except OracleFault Unit :=
  failIf (!s.initialized) (.error .notInitialized)

def requireNotFrozen : Except OracleFault Unit := failIf s.frozen (.error .contractFrozen)

def requireAuthorized (caller : Address) : Except OracleFault Unit :=
  failIf (!s.isAuthorized caller) (.error .notAuthorized)

/-- A delegate that the admin had before is no delegate any longer. -/
def setDelegate (admin delegate : Address) : OracleSettings :=
  let delegateOf := match s.submissionDelegates.lookup admin with
    | some oldDelegate => s.delegateOf.erase oldDelegate
    | none => s.delegateOf
  { s with
    submissionDelegates := s.submissionDelegates.insert admin delegate
    delegateOf := delegateOf.insert delegate admin }

def getAdmin : Except OracleFault (List Address) := okOr s.admins (.error .adminNotSet)

/-- A revoked key is not added. -/
def addAuthorized (newAdmin : Address) : Except OracleFault OracleSettings :=
  if s.isRevoked newAdmin then pure s
  else do
    let admins ← s.getAdmin
    pure { s with admins := some (if newAdmin ∈ admins then admins else admins ++ [newAdmin]) }

def removeAuthorized (adminToRemove : Address) : OracleSettings :=
  { s with admins := s.admins.map fun admins => admins.filter fun admin => admin ≠ adminToRemove }

end OracleSettings

/-! ## Price checks -/

def isValid (price : ℤ) : Bool := 0 < price

/-- Prices are taken as they come. -/
def normalizePrice (price : ℤ) : ℤ := price

def calculatePercentageChangeBps (oldPrice newPrice : ℤ) : Option ℤ :=
  if oldPrice = 0 then none
  else do
    let delta ← i128.check (newPrice - oldPrice)
    let scaled ← i128.check (delta * 10000)
    i128.checkedDiv scaled oldPrice

def calculatePercentageDifferenceBps (oldPrice newPrice : ℤ) : Option ℤ :=
  (calculatePercentageChangeBps oldPrice newPrice).map fun bps => |bps|

/-- An overflow lets the price pass. -/
def deviatesTooFar (maxDeviationBps oldPrice newPrice : ℤ) : Bool :=
  match calculatePercentageDifferenceBps oldPrice newPrice with
  | some pctChangeBps => maxDeviationBps < pctChangeBps
  | none => false

/-- An overflow is far out of range. -/
def withinThreshold (price baseline : ℤ) : Bool :=
  if baseline ≤ 0 then true
  else
    match (do i128.checkedDiv (← i128.check (|price - baseline| * 10000)) baseline) with
    | some deviationBps => deviationBps ≤ deviationThresholdBps
    | none => false

def filterFeedsByDeviation (twapEma : Option ℤ) (feeds : List PriceBufferEntry) :
    List PriceBufferEntry :=
  match twapEma with
  | some baseline => feeds.filter fun entry => withinThreshold entry.price baseline
  | none => feeds

def requireLedgerSequenceAdvanced {here : Address} (env : OracleEnv here)
    (previous : Option PriceData) : Except OracleFault ℕ := do
  failIf (previous.any fun prev => env.sequence ≤ prev.ledgerSequence) (.error .ledgerGapTooSmall)
  pure env.sequence

namespace OracleStore

variable {here : Address} (env : OracleEnv here) (s : OracleStore)

def enforcePriceFloor (asset : Symbol) (price : ℤ) : Except OracleFault Unit :=
  match s.settings.priceFloors.lookup asset with
  | some priceFloor => failIf (price < priceFloor) (.error .priceOutOfBounds)
  | none => pure ()

def enforcePriceBounds (asset : Symbol) (price : ℤ) : Except OracleFault Unit :=
  match s.settings.priceBounds.lookup asset with
  | some bounds =>
    failIf (price < bounds.minPrice ∨ bounds.maxPrice < price) (.error .priceOutOfBounds)
  | none => pure ()

/-- A provider that has never been seen has 0 as its last ledger. -/
def enforceLedgerGap (provider : Address) : Except OracleFault Unit :=
  let lastSeen := (s.providerLastSeenLedger.lookup provider).getD 0
  failIf (lastSeen ≠ 0 ∧ env.sequence - lastSeen < minLedgerGap) (.error .ledgerGapTooSmall)

def validateLiquidity (asset : Symbol) (reportedLiquidity : ℤ) : Except OracleFault Unit := do
  failIf (reportedLiquidity ≤ 0) (.error .invalidLiquidity)
  match s.settings.liquidityThresholds.lookup asset with
  | some threshold => failIf (reportedLiquidity < threshold) (.error .liquidityBelowThreshold)
  | none => pure ()

end OracleStore

end StellarFlow.Oracle
