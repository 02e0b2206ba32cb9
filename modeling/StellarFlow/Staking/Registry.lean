import StellarFlow.Host

/-!
# Stake registry

A node stakes for the network as a whole or for single currency feeds. The registry maps
nodes to their stake, a separate aggregate holds the total, and every feed stake has its
own entry. Ingestion penalties take stake away, doubling with every fault of the node on
the feed within a window of ledgers.
-/
namespace StellarFlow.Staking

open Foundation

/-! ## Tiers -/

inductive StakingTier
  | regional
  | standard
  | premier
  deriving DecidableEq, Repr

structure AssetFeedMetrics where
  volumeScore : ℕ
  volatilityBps : ℕ

structure StakingTierConfig where
  regionalMinStake : ℕ
  standardMinStake : ℕ
  premierMinStake : ℕ

def StakingTierConfig.default : StakingTierConfig := ⟨100, 1000, 10000⟩

def deriveVolumeScoreFromCorridor (collected : ℕ) : ℕ :=
  if collected < 1000000 then 10
  else if collected < 10000000 then 30
  else if collected < 100000000 then 50
  else if collected < 1000000000 then 75
  else 95

def effectiveVolumeScore (adminScore corridorCollected : ℕ) : ℕ :=
  min (max adminScore (deriveVolumeScoreFromCorridor corridorCollected)) 100

def assignTier (metrics : AssetFeedMetrics) : StakingTier :=
  if metrics.volumeScore < 33 ∧ metrics.volatilityBps < 300 then .regional
  else if 67 ≤ metrics.volumeScore ∧ 800 ≤ metrics.volatilityBps then .premier
  else .standard

def requiredStakeForTier (tier : StakingTier) (config : StakingTierConfig) : ℕ :=
  match tier with
  | .regional => config.regionalMinStake
  | .standard => config.standardMinStake
  | .premier => config.premierMinStake

/-! ## State -/

/-- What a staking call reads besides the stakes themselves: settings kept by other
entry points of the contract. -/
structure StakeEnv (here : Address) extends Env here where
  admin : Option Address
  paused : Bool
  revoked : Address → Bool
  metrics : Symbol → Option AssetFeedMetrics
  /-- Fees collected by the corridor of the asset. -/
  collected : Symbol → ℕ
  tierConfig : Option StakingTierConfig

/-- The stakes in storage. -/
structure StakeBook where
  /-- Keys read by the registration and written by no staking call. -/
  stakeByNode : Store Address ℕ
  registry : Store Address ℕ
  totalStaked : ℕ
  feedStakes : Store (Address × Symbol) ℕ
  faults : Store (Address × Symbol) (List ℕ)

namespace StakeBook

def empty : StakeBook := ⟨∅, ∅, 0, ∅, ∅⟩

/-- Stake of a node, zero when it has none. -/
def nodeTotal (s : StakeBook) (node : Address) : ℕ := (s.registry.lookup node).getD 0

/-- Replace the stake of a node, dropping an entry that became zero. -/
def setOrRemove (s : StakeBook) (node : Address) (stake : ℕ) : Store Address ℕ :=
  if stake = 0 then s.registry.erase node else s.registry.insert node stake

end StakeBook

structure StakeRecord where
  node : Address
  amount : ℕ
  registeredAt : ℕ

structure FeedStakeRecord where
  node : Address
  asset : Symbol
  amount : ℕ
  tier : StakingTier
  registeredAt : ℕ

section Calls

variable {here : Address} (env : StakeEnv here)

def getStakingTier (asset : Symbol) : StakingTier :=
  let stored := (env.metrics asset).getD ⟨0, 0⟩
  assignTier ⟨effectiveVolumeScore stored.volumeScore (env.collected asset), stored.volatilityBps⟩

def getRequiredStake (asset : Symbol) : ℕ :=
  requiredStakeForTier (getStakingTier env asset) (env.tierConfig.getD .default)

def stakeAndRegister (node : Address) (amount : ℕ) (s : StakeBook) :
    Except Fault (StakeRecord × StakeBook) := do
  failIf (amount = 0) (Fault.error .invalidStakeAmount)
  failIf (env.revoked node = true) (Fault.error .revokedAddress)
  env.requireAuth node
  failIf ((s.stakeByNode.lookup node).isSome = true) (Fault.error .alreadyRegistered)
  let newTotal ← okOr (checkBits 64 (s.totalStaked + amount)) (Fault.error .overflow)
  pure (⟨node, amount, env.timestamp⟩, { s with
    registry := s.registry.insert node amount, totalStaked := newTotal })

def unstake (node : Address) (s : StakeBook) : Except Fault (ℕ × StakeBook) := do
  env.requireAuth node
  let amount ← okOr (s.registry.lookup node) (Fault.error .notRegistered)
  pure (amount, { s with
    registry := s.registry.erase node, totalStaked := s.totalStaked - amount })

def stakeAndRegisterForFeed (node : Address) (asset : Symbol) (amount : ℕ) (s : StakeBook) :
    Except Fault (FeedStakeRecord × StakeBook) := do
  failIf (amount = 0) (Fault.error .invalidStakeAmount)
  failIf (env.revoked node = true) (Fault.error .revokedAddress)
  env.requireAuth node
  failIf ((s.feedStakes.lookup (node, asset)).isSome = true) (Fault.error .feedAlreadyRegistered)
  failIf (amount < getRequiredStake env asset) (Fault.error .insufficientStakeForTier)
  let newNodeTotal ← okOr (checkBits 64 (s.nodeTotal node + amount)) (Fault.error .overflow)
  let newTotal ← okOr (checkBits 64 (s.totalStaked + amount)) (Fault.error .overflow)
  pure (⟨node, asset, amount, getStakingTier env asset, env.timestamp⟩, { s with
    registry := s.registry.insert node newNodeTotal
    totalStaked := newTotal
    feedStakes := s.feedStakes.insert (node, asset) amount })

/-- The node's stake and the total are each reduced, saturating at zero. -/
def unstakeFromFeed (node : Address) (asset : Symbol) (s : StakeBook) :
    Except Fault (ℕ × StakeBook) := do
  env.requireAuth node
  let amount ← okOr (s.feedStakes.lookup (node, asset)) (Fault.error .notRegistered)
  pure (amount, { s with
    registry := s.setOrRemove node (s.nodeTotal node - amount)
    totalStaked := s.totalStaked - amount
    feedStakes := s.feedStakes.erase (node, asset) })

/-! ## Penalties -/

def rollingFaultWindowLedgers : ℕ := 100
def maxPenaltyMultiplier : ℕ := 1024

/-- Faults of the window that ends at the current ledger. -/
def pruneFaultHistory (history : List ℕ) (currentLedger : ℕ) : List ℕ :=
  history.filter fun ledger =>
    currentLedger - rollingFaultWindowLedgers ≤ ledger ∧ ledger ≤ currentLedger

def countFaultsInWindow (history : List ℕ) (currentLedger : ℕ) : ℕ :=
  min (pruneFaultHistory history currentLedger).length (2 ^ 32 - 1)

def recordTrackingFault (validator : Address) (asset : Symbol) (s : StakeBook) : ℕ × StakeBook :=
  let history := pruneFaultHistory ((s.faults.lookup (validator, asset)).getD []) env.sequence ++
    [env.sequence]
  (countFaultsInWindow history env.sequence,
    { s with faults := s.faults.insert (validator, asset) history })

def getPenaltyMultiplier (faultCount : ℕ) : ℕ :=
  if faultCount = 0 then 1 else min (2 ^ min (faultCount - 1) 10) maxPenaltyMultiplier

def calculateBondDeduction (baseBond faultCount : ℕ) : Except Fault ℕ := do
  failIf (baseBond = 0) (Fault.error .invalidStakeAmount)
  okOr (checkBits 64 (baseBond * getPenaltyMultiplier faultCount)) (Fault.error .overflow)

structure IngestionPenaltyResult where
  validator : Address
  asset : Symbol
  faultCount : ℕ
  penaltyMultiplier : ℕ
  bondDeduction : ℕ
  remainingStake : ℕ

/-- Take the deduction from the node's stake and from the total. The feed stake is stored as
a number but read as a record here, so an existing one traps. -/
def applyEscrowPenalty (validator : Address) (asset : Symbol) (baseBond faultCount : ℕ)
    (s : StakeBook) : Except Fault (IngestionPenaltyResult × StakeBook) := do
  let bondDeduction ← calculateBondDeduction baseBond faultCount
  failIf (s.nodeTotal validator = 0) (Fault.error .insufficientBondForPenalty)
  let actualDeduction := min bondDeduction (s.nodeTotal validator)
  let remainingStake := s.nodeTotal validator - actualDeduction
  failIf ((s.feedStakes.lookup (validator, asset)).isSome = true) Fault.trap
  pure (⟨validator, asset, faultCount, getPenaltyMultiplier faultCount, actualDeduction,
    remainingStake⟩, { s with
      registry := s.setOrRemove validator remainingStake
      totalStaked := s.totalStaked - actualDeduction })

def applyIngestionPenalty (admin validator : Address) (asset : Symbol) (baseBond : ℕ)
    (s : StakeBook) : Except Fault (IngestionPenaltyResult × StakeBook) := do
  let current ← okOr env.admin (Fault.error .notInitialized)
  failIf (env.paused = true) (Fault.error .contractPaused)
  failIf (current ≠ admin) (Fault.error .notAdmin)
  env.requireAuth admin
  let (faultCount, s) := recordTrackingFault env validator asset s
  applyEscrowPenalty validator asset baseBond faultCount s

end Calls

inductive StakeCall
  | stakeAndRegister (node : Address) (amount : ℕ)
  | unstake (node : Address)
  | stakeAndRegisterForFeed (node : Address) (asset : Symbol) (amount : ℕ)
  | unstakeFromFeed (node : Address) (asset : Symbol)
  | applyIngestionPenalty (admin validator : Address) (asset : Symbol) (baseBond : ℕ)

/-- A call together with the environment it runs in. -/
abbrev StakeStep (here : Address) := StakeEnv here × StakeCall

def stakeStep {here : Address} (i : StakeStep here) (s : StakeBook) : Except Fault StakeBook :=
  match i.2 with
  | .stakeAndRegister node amount => Prod.snd <$> stakeAndRegister i.1 node amount s
  | .unstake node => Prod.snd <$> unstake i.1 node s
  | .stakeAndRegisterForFeed node asset amount =>
    Prod.snd <$> stakeAndRegisterForFeed i.1 node asset amount s
  | .unstakeFromFeed node asset => Prod.snd <$> unstakeFromFeed i.1 node asset s
  | .applyIngestionPenalty admin validator asset baseBond =>
    Prod.snd <$> applyIngestionPenalty i.1 admin validator asset baseBond s

end StellarFlow.Staking
