import StellarFlow.Host
import StellarFlow.Foundation.Shares

/-!
# Auto-compounding vault

Depositors hold shares of a single asset. A harvest adds yield without minting shares, a
flash loan lends assets for the duration of a call, and a drawdown of the share value from
its recorded peak stops harvests. Deposits, withdrawals and harvests trap unless the tokens
held by the contract are exactly the booked assets.
-/
namespace StellarFlow.Vaults

open Foundation

def bpsDenominator : ℤ := 10000
def defaultPerformanceFeeBps : ℕ := 200
def maxPerformanceFeeBps : ℕ := 2000
def shareValuePrecision : ℤ := 1000000000000000000
def maxDrawdownBps : ℤ := 1000

structure VaultConfig where
  admin : Address
  asset : Address
  feeBps : ℕ
  feeRecipient : Address
  deriving DecidableEq, Repr

/-- Storage of the vault, with the two pause flags that its circuit breaker sets. -/
structure Vault where
  config : Option VaultConfig
  totalShares : ℤ
  totalAssets : ℤ
  shares : Store Address ℤ
  peakShareValue : ℤ
  drawdownState : Bool
  vaultPaused : Bool
  emergencyWithdrawal : Bool

def Vault.empty : Vault := ⟨none, 0, 0, ∅, 0, false, false, false⟩

/-- The vault and the balances of all tokens. -/
structure VaultState extends Vault where
  tokens : Tokens

def VaultState.fresh (tokens : Tokens) : VaultState := { Vault.empty with tokens }

/-- What a vault call sees besides the storage. -/
structure VaultEnv (here : Address) extends Env here where
  /-- Token balances after the callback of a borrower, given asset, amount and fee of the
  loan; nothing when the callback fails. -/
  onFlashLoan : Address → Address → ℤ → ℤ → Tokens → Option Tokens

structure HarvestResult where
  grossYield : ℤ
  performanceFee : ℤ
  compounded : ℤ
  totalAssets : ℤ
  deriving DecidableEq, Repr

section Storage

def Vault.shareBalanceOf (v : Vault) (holder : Address) : ℤ := (v.shares.lookup holder).getD 0

/-- An entry that became zero is removed. -/
def Vault.setShareBalance (v : Vault) (holder : Address) (balance : ℤ) : Store Address ℤ :=
  if balance = 0 then v.shares.erase holder else v.shares.insert holder balance

def calculateShareValue (totalAssets totalShares : ℤ) : Option ℤ :=
  if totalShares ≤ 0 then none
  else (i128.check (totalAssets * shareValuePrecision)).bind fun scaled =>
    i128.checkedDiv scaled totalShares

/-- The peak after a share value was observed. -/
def updatePeakShareValue (peak : ℤ) (value : Option ℤ) : ℤ :=
  match value with
  | none => peak
  | some currentVal =>
    if currentVal ≤ 0 then peak
    else if peak < currentVal then currentVal
    else peak

/-- Traps when the tokens held by the contract are not exactly the booked assets. -/
def assertBalanceInvariant (here : Address) (config : VaultConfig) (s : VaultState) :
    Except Fault Unit :=
  failIf (s.tokens config.asset here ≠ s.totalAssets) Fault.trap

/-- A part of an amount in basis points. -/
def feeOf (amount : ℤ) (feeBps : ℕ) : Except Fault ℤ := do
  let product ← okOr (i128.check (amount * feeBps)) (Fault.error .mathOverflow)
  okOr (i128.checkedDiv product bpsDenominator) (Fault.error .divisionByZero)

end Storage

section Breaker

def Vault.triggerCircuitBreaker (v : Vault) : Vault :=
  { v with drawdownState := true, vaultPaused := true, emergencyWithdrawal := true }

/-- Loss from the peak in basis points. -/
def lossBps (peak currentVal : ℤ) : Except Fault ℤ := do
  let loss ← okOr (i128.check (peak - currentVal)) (Fault.error .mathOverflow)
  let scaled ← okOr (i128.check (loss * bpsDenominator)) (Fault.error .mathOverflow)
  okOr (i128.checkedDiv scaled peak) (Fault.error .divisionByZero)

/-- Whether the breaker is or gets triggered, and the vault after it. -/
def checkAndTriggerCircuitBreaker (v : Vault) : Except Fault (Bool × Vault) :=
  if v.drawdownState then pure (true, v)
  else if 0 < v.totalShares ∧ 0 < v.peakShareValue then
    match calculateShareValue v.totalAssets v.totalShares with
    | none => pure (false, v)
    | some currentVal =>
      if currentVal < v.peakShareValue then do
        let bps ← lossBps v.peakShareValue currentVal
        if maxDrawdownBps < bps then pure (true, v.triggerCircuitBreaker) else pure (false, v)
      else pure (false, v)
  else pure (false, v)

end Breaker

section Calls

variable {here : Address} (env : VaultEnv here)

def initVault (admin asset feeRecipient : Address) (s : VaultState) :
    Except Fault (VaultConfig × VaultState) := do
  failIf (s.config.isSome = true) (Fault.error .vaultAlreadyInitialized)
  env.requireAuth admin
  let config : VaultConfig := ⟨admin, asset, defaultPerformanceFeeBps, feeRecipient⟩
  pure (config, { s with config := some config, totalShares := 0, totalAssets := 0 })

def setPerformanceFee (admin : Address) (feeBps : ℕ) (s : VaultState) :
    Except Fault (VaultConfig × VaultState) := do
  let config ← okOr s.config (Fault.error .vaultNotInitialized)
  failIf (config.admin ≠ admin) (Fault.error .notAdmin)
  env.requireAuth admin
  failIf (maxPerformanceFeeBps < feeBps) (Fault.error .vaultInvalidPerformanceFee)
  pure ({ config with feeBps }, { s with config := some { config with feeBps } })

/-- Shares for a deposit: one to one into a vault without shares or without assets. -/
def mintedShares (v : Vault) (amount : ℤ) : Except Fault ℤ :=
  if v.totalShares = 0 ∨ v.totalAssets = 0 then pure amount
  else do
    let product ← okOr (i128.check (amount * v.totalShares)) (Fault.error .mathOverflow)
    okOr (i128.checkedDiv product v.totalAssets) (Fault.error .divisionByZero)

def deposit (depositor : Address) (amount : ℤ) (s : VaultState) :
    Except Fault (ℤ × VaultState) := do
  failIf (amount ≤ 0) (Fault.error .vaultZeroAmount)
  let config ← okOr s.config (Fault.error .vaultNotInitialized)
  env.requireAuth depositor
  assertBalanceInvariant here config s
  let minted ← mintedShares s.toVault amount
  failIf (minted ≤ 0) (Fault.error .vaultZeroAmount)
  let tokens ← env.transfer config.asset depositor here amount s.tokens
  let newAssets ← okOr (i128.check (s.totalAssets + amount)) (Fault.error .mathOverflow)
  let newShares ← okOr (i128.check (s.totalShares + minted)) (Fault.error .mathOverflow)
  let balance ← okOr (i128.check (s.shareBalanceOf depositor + minted)) (Fault.error .mathOverflow)
  let s' : VaultState := { s with
    totalAssets := newAssets
    totalShares := newShares
    peakShareValue :=
      updatePeakShareValue s.peakShareValue (calculateShareValue newAssets newShares)
    shares := s.setShareBalance depositor balance
    tokens }
  assertBalanceInvariant here config s'
  pure (minted, s')

def withdraw (owner : Address) (shares : ℤ) (s : VaultState) : Except Fault (ℤ × VaultState) := do
  failIf (shares ≤ 0) (Fault.error .vaultZeroAmount)
  let config ← okOr s.config (Fault.error .vaultNotInitialized)
  env.requireAuth owner
  assertBalanceInvariant here config s
  failIf (s.shareBalanceOf owner < shares) (Fault.error .vaultInsufficientShares)
  failIf (s.totalShares = 0) (Fault.error .vaultInsufficientShares)
  let product ← okOr (i128.check (shares * s.totalAssets)) (Fault.error .mathOverflow)
  let owed ← okOr (i128.checkedDiv product s.totalShares) (Fault.error .divisionByZero)
  failIf (owed ≤ 0 ∨ s.totalAssets < owed) (Fault.error .vaultInsufficientBalance)
  let balance ← okOr (i128.check (s.shareBalanceOf owner - shares)) Fault.trap
  let totalShares ← okOr (i128.check (s.totalShares - shares)) Fault.trap
  let totalAssets ← okOr (i128.check (s.totalAssets - owed)) Fault.trap
  let tokens ← env.transfer config.asset here owner owed s.tokens
  let s' : VaultState := { s with
    totalShares, totalAssets, shares := s.setShareBalance owner balance, tokens }
  assertBalanceInvariant here config s'
  pure (owed, s')

/-- Pay the performance fee, unless it is zero. -/
def skimFee (config : VaultConfig) (fee : ℤ) (tokens : Tokens) : Except Fault Tokens :=
  if 0 < fee then env.transfer config.asset here config.feeRecipient fee tokens else pure tokens

/-- A triggered breaker refuses the harvest, which also undoes the triggering. -/
def harvest (keeper : Address) (yieldAmount : ℤ) (s : VaultState) :
    Except Fault (HarvestResult × VaultState) := do
  failIf (s.vaultPaused = true) (Fault.error .vaultPaused)
  failIf (yieldAmount ≤ 0) (Fault.error .vaultZeroAmount)
  let config ← okOr s.config (Fault.error .vaultNotInitialized)
  env.requireAuth keeper
  let (triggered, _) ← checkAndTriggerCircuitBreaker s.toVault
  failIf (triggered = true) (Fault.error .vaultMaxDrawdownExceeded)
  assertBalanceInvariant here config s
  let tokens ← env.transfer config.asset keeper here yieldAmount s.tokens
  let fee ← feeOf yieldAmount config.feeBps
  let compounded ← okOr (i128.check (yieldAmount - fee)) (Fault.error .mathOverflow)
  let tokens ← skimFee env config fee tokens
  let newAssets ← okOr (i128.check (s.totalAssets + compounded)) (Fault.error .mathOverflow)
  let s' : VaultState := { s with
    totalAssets := newAssets
    peakShareValue :=
      updatePeakShareValue s.peakShareValue (calculateShareValue newAssets s.totalShares)
    tokens }
  assertBalanceInvariant here config s'
  pure (⟨yieldAmount, fee, compounded, newAssets⟩, s')

/-- The fee has to be in the balance afterwards but is booked nowhere. -/
def flashLoan (borrower : Address) (amount : ℤ) (s : VaultState) :
    Except Fault (ℤ × VaultState) := do
  failIf (amount ≤ 0) (Fault.error .vaultZeroAmount)
  let config ← okOr s.config (Fault.error .vaultNotInitialized)
  let initialBalance := s.tokens config.asset here
  let fee ← feeOf amount config.feeBps
  let requiredBalance ← okOr (i128.check (initialBalance + fee)) (Fault.error .mathOverflow)
  let tokens ← env.transfer config.asset here borrower amount s.tokens
  let tokens ← okOr (env.onFlashLoan borrower config.asset amount fee tokens) Fault.trap
  failIf (tokens config.asset here < requiredBalance) Fault.trap
  pure (fee, { s with tokens })

end Calls

inductive VaultCall
  | initVault (admin asset feeRecipient : Address)
  | setPerformanceFee (admin : Address) (feeBps : ℕ)
  | deposit (depositor : Address) (amount : i128.Value)
  | withdraw (owner : Address) (shares : i128.Value)
  | harvest (keeper : Address) (yieldAmount : i128.Value)
  | flashLoan (borrower : Address) (amount : i128.Value)

/-- A call together with the environment it runs in. -/
abbrev VaultStep (here : Address) := VaultEnv here × VaultCall

def vaultStep {here : Address} (i : VaultStep here) (s : VaultState) : Except Fault VaultState :=
  match i.2 with
  | .initVault admin asset feeRecipient => Prod.snd <$> initVault i.1 admin asset feeRecipient s
  | .setPerformanceFee admin feeBps => Prod.snd <$> setPerformanceFee i.1 admin feeBps s
  | .deposit depositor amount => Prod.snd <$> deposit i.1 depositor amount.1 s
  | .withdraw owner shares => Prod.snd <$> withdraw i.1 owner shares.1 s
  | .harvest keeper yieldAmount => Prod.snd <$> harvest i.1 keeper yieldAmount.1 s
  | .flashLoan borrower amount => Prod.snd <$> flashLoan i.1 borrower amount.1 s

end StellarFlow.Vaults
