import StellarFlow.Host
import StellarFlow.Foundation.RewardIndex

/-!
# Liquidity farming

Stakers of a liquidity token share an emission of rewards per ledger. The pool keeps the
reward per share in fixed point and is brought up to the present ledger before shares or the
emission change; a user is settled against it before its shares change. Payouts are not
limited by what was funded.
-/
namespace StellarFlow.Vaults

open Foundation

def rewardPrecision : ℤ := 1000000000000000000
def defaultEmissionMultiplier : ℕ := 10000
def maxEmissionMultiplier : ℕ := 100000

structure FarmingConfig where
  admin : Address
  lpToken : Address
  rewardToken : Address
  emissionPerLedger : ℤ
  emissionMultiplier : ℕ
  deriving DecidableEq, Repr

structure Farm where
  config : Option FarmingConfig
  totalShares : ℤ
  accRewardPerShare : ℤ
  lastRewardLedger : Option ℕ
  shares : Store Address ℤ
  rewardDebt : Store Address ℤ
  accruedRewards : Store Address ℤ

def Farm.empty : Farm := ⟨none, 0, 0, none, ∅, ∅, ∅⟩

/-- The farm and the balances of all tokens. -/
structure FarmState extends Farm where
  tokens : Tokens

def FarmState.fresh (tokens : Tokens) : FarmState := { Farm.empty with tokens }

section Storage

def readI128 (entries : Store Address ℤ) (user : Address) : ℤ := (entries.lookup user).getD 0

/-- An entry that became zero is removed. -/
def writeI128 (entries : Store Address ℤ) (user : Address) (value : ℤ) : Store Address ℤ :=
  if value = 0 then entries.erase user else entries.insert user value

end Storage

/-- The value of a number of shares at the given reward per share. -/
def rewardValue (shares acc : ℤ) : Except Fault ℤ := do
  let product ← okOr (i128.check (shares * acc)) (Fault.error .mathOverflow)
  okOr (i128.checkedDiv product rewardPrecision) (Fault.error .divisionByZero)

/-- Increase of the reward per share after a number of ledgers. -/
def rewardPerShare (config : FarmingConfig) (elapsed : ℕ) (shares : ℤ) : Except Fault ℤ := do
  let product ← okOr (i128.check (config.emissionPerLedger * elapsed)) (Fault.error .mathOverflow)
  let product ← okOr (i128.check (product * config.emissionMultiplier)) (Fault.error .mathOverflow)
  let emitted ← okOr (i128.checkedDiv product defaultEmissionMultiplier)
    (Fault.error .divisionByZero)
  let scaled ← okOr (i128.check (emitted * rewardPrecision)) (Fault.error .mathOverflow)
  okOr (i128.checkedDiv scaled shares) (Fault.error .divisionByZero)

/-- Bring the pool up to the present ledger; returns the reward per share. -/
def updatePool (currentLedger : ℕ) (config : FarmingConfig) (f : Farm) :
    Except Fault (ℤ × Farm) :=
  let lastLedger := f.lastRewardLedger.getD currentLedger
  if currentLedger ≤ lastLedger then pure (f.accRewardPerShare, f)
  else if 0 < f.totalShares then do
    let reward ← rewardPerShare config (currentLedger - lastLedger) f.totalShares
    let acc ← okOr (i128.check (f.accRewardPerShare + reward)) (Fault.error .mathOverflow)
    pure (acc, { f with accRewardPerShare := acc, lastRewardLedger := some currentLedger })
  else pure (f.accRewardPerShare, { f with lastRewardLedger := some currentLedger })

/-- Add the pending reward of a user to its accrued rewards. -/
def creditPending (user : Address) (pending : ℤ) (f : Farm) : Except Fault Farm :=
  if 0 < pending then do
    let updated ← okOr (i128.check (readI128 f.accruedRewards user + pending))
      (Fault.error .mathOverflow)
    pure { f with accruedRewards := writeI128 f.accruedRewards user updated }
  else pure f

def settleUser (user : Address) (acc : ℤ) (f : Farm) : Except Fault Farm := do
  let accrued ← rewardValue (readI128 f.shares user) acc
  let pending ← okOr (i128.check (accrued - readI128 f.rewardDebt user))
    (Fault.error .mathOverflow)
  let f ← creditPending user pending f
  pure { f with rewardDebt := writeI128 f.rewardDebt user accrued }

section Calls

variable {here : Address} (env : Env here)

def initFarm (admin lpToken rewardToken : Address) (emissionPerLedger : ℤ) (s : FarmState) :
    Except Fault (FarmingConfig × FarmState) := do
  failIf (s.config.isSome = true) (Fault.error .alreadyInitialized)
  failIf (emissionPerLedger < 0) (Fault.error .invalidStakeAmount)
  env.requireAuth admin
  let config : FarmingConfig :=
    ⟨admin, lpToken, rewardToken, emissionPerLedger, defaultEmissionMultiplier⟩
  pure (config, { s with config := some config, lastRewardLedger := some env.sequence })

def fundRewards (funder : Address) (amount : ℤ) (s : FarmState) : Except Fault FarmState := do
  failIf (amount ≤ 0) (Fault.error .invalidStakeAmount)
  let config ← okOr s.config (Fault.error .notInitialized)
  env.requireAuth funder
  let tokens ← env.transfer config.rewardToken funder here amount s.tokens
  pure { s with tokens }

/-- The debt is taken anew for the shares after the stake. -/
def stakePreauthorized (user : Address) (amount : ℤ) (s : FarmState) :
    Except Fault (ℤ × FarmState) := do
  failIf (amount ≤ 0) (Fault.error .invalidStakeAmount)
  let config ← okOr s.config (Fault.error .notInitialized)
  let (acc, f) ← updatePool env.sequence config s.toFarm
  let f ← settleUser user acc f
  let tokens ← env.transfer config.lpToken user here amount s.tokens
  let newShares ← okOr (i128.check (readI128 f.shares user + amount)) (Fault.error .mathOverflow)
  let debt ← rewardValue newShares acc
  let totalShares ← okOr (i128.check (f.totalShares + amount)) (Fault.error .mathOverflow)
  pure (amount, { f with
    shares := writeI128 f.shares user newShares
    rewardDebt := writeI128 f.rewardDebt user debt
    totalShares, tokens })

def stake (user : Address) (amount : ℤ) (s : FarmState) : Except Fault (ℤ × FarmState) := do
  failIf (amount ≤ 0) (Fault.error .invalidStakeAmount)
  let _ ← okOr s.config (Fault.error .notInitialized)
  env.requireAuth user
  stakePreauthorized env user amount s

/-- Pay out the accrued rewards of a user. -/
def payReward (config : FarmingConfig) (user : Address) (reward : ℤ) (s : FarmState) :
    Except Fault FarmState :=
  if 0 < reward then do
    let tokens ← env.transfer config.rewardToken here user reward s.tokens
    pure { s with accruedRewards := writeI128 s.accruedRewards user 0, tokens }
  else pure s

def claimRewards (user : Address) (s : FarmState) : Except Fault (ℤ × FarmState) := do
  let config ← okOr s.config (Fault.error .notInitialized)
  env.requireAuth user
  let (acc, f) ← updatePool env.sequence config s.toFarm
  let f ← settleUser user acc f
  let amount := readI128 f.accruedRewards user
  let s ← payReward env config user amount { f with tokens := s.tokens }
  pure (amount, s)

/-- Return the whole stake of a user. -/
def returnStake (config : FarmingConfig) (user : Address) (shares : ℤ) (s : FarmState) :
    Except Fault FarmState :=
  if 0 < shares then do
    let totalShares ← okOr (i128.check (s.totalShares - shares)) (Fault.error .mathOverflow)
    let tokens ← env.transfer config.lpToken here user shares s.tokens
    pure { s with
      shares := writeI128 s.shares user 0
      rewardDebt := writeI128 s.rewardDebt user 0
      totalShares, tokens }
  else pure s

/-- The reward is paid before the stake, so a reward that cannot be paid also keeps the
stake. -/
def exit (user : Address) (s : FarmState) : Except Fault ((ℤ × ℤ) × FarmState) := do
  let config ← okOr s.config (Fault.error .notInitialized)
  env.requireAuth user
  let (acc, f) ← updatePool env.sequence config s.toFarm
  let f ← settleUser user acc f
  let reward := readI128 f.accruedRewards user
  let shares := readI128 f.shares user
  let s ← payReward env config user reward { f with tokens := s.tokens }
  let s ← returnStake env config user shares s
  pure ((shares, reward), s)

def setEmissionMultiplier (governance : Address) (multiplier : ℕ) (s : FarmState) :
    Except Fault (FarmingConfig × FarmState) := do
  let config ← okOr s.config (Fault.error .notInitialized)
  failIf (config.admin ≠ governance) (Fault.error .notAdmin)
  env.requireAuth governance
  failIf (maxEmissionMultiplier < multiplier) (Fault.error .feeCeilingExceeded)
  let (_, f) ← updatePool env.sequence config s.toFarm
  let config := { config with emissionMultiplier := multiplier }
  pure (config, { f with config := some config, tokens := s.tokens })

/-- A query that also brings the pool up to date. -/
def pendingRewards (user : Address) (s : FarmState) : Except Fault (ℤ × FarmState) := do
  let config ← okOr s.config (Fault.error .notInitialized)
  let (acc, f) ← updatePool env.sequence config s.toFarm
  let accrued ← rewardValue (readI128 f.shares user) acc
  let pending ← okOr (i128.check (accrued - readI128 f.rewardDebt user)) (Fault.error .mathOverflow)
  let total ← okOr (i128.check (readI128 f.accruedRewards user + pending))
    (Fault.error .mathOverflow)
  pure (total, { f with tokens := s.tokens })

end Calls

inductive FarmCall
  | initFarm (admin lpToken rewardToken : Address) (emissionPerLedger : i128.Value)
  | fundRewards (funder : Address) (amount : i128.Value)
  | stake (user : Address) (amount : i128.Value)
  | claimRewards (user : Address)
  | exit (user : Address)
  | setEmissionMultiplier (governance : Address) (multiplier : ℕ)
  | pendingRewards (user : Address)
  deriving DecidableEq

/-- The reward that a call pays out, and the state after it. -/
def FarmCall.exec {here : Address} (env : Env here) (s : FarmState) :
    FarmCall → Except Fault (ℤ × FarmState)
  | .initFarm admin lpToken rewardToken emissionPerLedger => do
    let (_, s) ← Vaults.initFarm env admin lpToken rewardToken emissionPerLedger.1 s
    pure (0, s)
  | .fundRewards funder amount => do
    let s ← Vaults.fundRewards env funder amount.1 s
    pure (0, s)
  | .stake user amount => do
    let (_, s) ← Vaults.stake env user amount.1 s
    pure (0, s)
  | .claimRewards user => Vaults.claimRewards env user s
  | .exit user => do
    let ((_, reward), s) ← Vaults.exit env user s
    pure (reward, s)
  | .setEmissionMultiplier governance multiplier => do
    let (_, s) ← Vaults.setEmissionMultiplier env governance multiplier s
    pure (0, s)
  | .pendingRewards user => do
    let (_, s) ← Vaults.pendingRewards env user s
    pure (0, s)

/-- A call together with the environment it runs in. -/
abbrev FarmStep (here : Address) := Env here × FarmCall

def farmStep {here : Address} (i : FarmStep here) (s : FarmState) : Except Fault FarmState :=
  Prod.snd <$> i.2.exec i.1 s

end StellarFlow.Vaults
