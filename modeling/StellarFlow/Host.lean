import StellarFlow.Foundation.Checked
import StellarFlow.Foundation.Store
import StellarFlow.Foundation.Transaction

/-!
# Host environment of a contract call

Addresses are opaque. A call runs with the ledger sequence and timestamp of its
ledger, the set of addresses whose authorisation it carries, and the token
contracts it may call into. A token may refuse any transfer; one it accepts moves
exactly the stated amount. A contract error and a trap both abort the call.
-/
namespace StellarFlow

open Foundation

structure Address where
  raw : ℕ
  deriving DecidableEq, Repr

/-- Numeric identifier of a pool's asset. -/
abbrev AssetId := ℕ

/-- A short name such as the code of a currency feed. -/
structure Symbol where
  raw : ℕ
  deriving DecidableEq, Repr

/-- The contract errors raised by the modelled entry points. -/
inductive ContractError
  | alreadyInitialized
  | notInitialized
  | notAdmin
  | alreadyRegistered
  | notRegistered
  | invalidStakeAmount
  | overflow
  | unauthorized
  | insufficientStakeForTier
  | feedAlreadyRegistered
  | feeCeilingExceeded
  | divisionByZero
  | invalidVarianceConfig
  | insufficientLiquidityDepth
  | contractPaused
  | revokedAddress
  | insufficientBondForPenalty
  | slippageExceeded
  | amountTooLow
  | invalidInput
  | invalidTickSpacing
  | tickIndexAlreadyExists
  | tickIndexNotFound
  | tickNotAligned
  | tickOutOfBounds
  | tooManyTicks
  | commitmentExpired
  | commitmentHashMismatch
  | commitmentNotActive
  | commitmentNotExpired
  | commitmentNotFound
  | commitmentNotRevealWindow
  | commitmentWindowTooLong
  | commitmentWindowTooShort
  | tooManyActiveCommitments
  | positionNotFound
  | invalidDelegate
  | noVotingWeight
  | noActiveDelegation
  | invalidCircuitBreakerConfig
  | htlcNotFound
  | htlcNotActive
  | invalidPreImage
  | deadlineReached
  | deadlineNotReached
  | deadlineTooSoon
  | deadlineTooFar
  | zeroSwapAmount
  | tooManyActiveHtlcs
  | anchorAssignmentsPaused
  | anchorUndercollateralized
  | insufficientReserveBalance
  | invalidArgument
  | invalidEscrowState
  | yieldPriceNotPositive
  | yieldStalePriceSample
  | yieldInvalidDrawdownLimit
  | yieldInvalidConversionPath
  | yieldConversionProducedNothing
  | yieldCompoundingPaused
  | vaultDebtImbalance
  | protocolFeeCapExceeded
  | adminChangePending
  | noAdminChangePending
  | adminTimelockNotSatisfied
  | notEmergencyGuardian
  | noPendingUpgrade
  | upgradeTimelockNotSatisfied
  | invalidHeartbeatInterval
  | invalidNonce
  | targetNotAdmin
  | proposalAlreadyActive
  | noActiveProposal
  | alreadyVoted
  | thresholdNotReached
  | signatureExpired
  | invalidSaltSignature
  | transferAlreadyPending
  | noPendingOwner
  | noActiveEmergencyRevocation
  | emergencyRevocationAlreadyActive
  | cosignerCannotBeProposer
  | invalidThreshold
  | notRecoveryKey
  | recoveryKeyNotConfigured
  | recoveryNotAvailableYet
  | invalidTierConfig
  | notSecurityCouncil
  | proposalNotFound
  | proposalAlreadyVetoed
  | proposalAlreadyCancelledOrExecuted
  | emergencyOverrideDisabled
  | notEmergencySigner
  | overrideThresholdNotReached
  | invalidProof
  | reentrancyDetected
  | merkleTreeFull
  | protectedAssetNotRescueable
  | rescueProposalNotFound
  | rescueProposalNotPending
  | rescueTimelockNotExpired
  | bridgeRateLimitExceeded
  | capacityExceeded
  | invalidBridgeRateLimit
  | invalidMerkleProof
  | bridgeCapInvalidCollateral
  | bridgeCapInvalidConfig
  | bridgeCapInvalidAmount
  | bridgeCapExceeded
  | bridgeCapInsufficientCollateral
  | bridgeCapUndercollateralized
  | circuitBreakerTripped
  | poolNotFound
  | routeExecutionFailed
  | invariantViolation
  deriving DecidableEq, Repr

namespace ContractError

/-! Names that share the code of another error. -/

def mathOverflow : ContractError := overflow
def bridgeInsufficientBalance : ContractError := overflow
def orderNotFound : ContractError := notRegistered
def orderZeroAmount : ContractError := amountTooLow
def orderInvalidPrice : ContractError := notInitialized
def orderAlreadyClosed : ContractError := unauthorized
def orderInsufficientRemaining : ContractError := overflow
def orderNotMaker : ContractError := unauthorized
def orderSideMismatch : ContractError := unauthorized
def orderPairMismatch : ContractError := notInitialized
def orderPriceNotCrossed : ContractError := slippageExceeded
def vaultZeroAmount : ContractError := amountTooLow
def vaultInsufficientShares : ContractError := overflow
def vaultInsufficientBalance : ContractError := overflow
def vaultAlreadyInitialized : ContractError := alreadyInitialized
def vaultNotInitialized : ContractError := notInitialized
def vaultPaused : ContractError := contractPaused
def vaultInvalidPerformanceFee : ContractError := invalidVarianceConfig
def vaultMaxDrawdownExceeded : ContractError := contractPaused
def invalidSplitBoundary : ContractError := invalidVarianceConfig
def stagingNotAuthorized : ContractError := unauthorized
def nullifierAlreadyUsed : ContractError := alreadyRegistered
def bridgeAssetNotRegistered : ContractError := notRegistered
def bridgeInvalidMaxSupply : ContractError := overflow
def bridgeAssetAlreadyRegistered : ContractError := alreadyRegistered
def bridgeInvalidAmount : ContractError := amountTooLow
def bridgeNotController : ContractError := unauthorized
def bridgeSupplyCapExceeded : ContractError := overflow
def bridgeEscrowNotConfigured : ContractError := notInitialized
def emptyRoute : ContractError := amountTooLow
def routeTooLong : ContractError := overflow
def inconsistentRouteAssets : ContractError := notInitialized

end ContractError

/-- Why a call aborts: an error value of the contract, or a host trap (a failed
authorisation, a refused token transfer, an arithmetic panic, a failed assertion). -/
inductive Fault
  | error (e : ContractError)
  | trap
  deriving DecidableEq, Repr

instance : Coe ContractError Fault := ⟨Fault.error⟩

/-- A default in place of an error value. A trap is not caught. -/
def unwrapOr {α : Type} (x : Except Fault α) (default : α) : Except Fault α :=
  match x with
  | .ok a => .ok a
  | .error (.error _) => .ok default
  | .error .trap => .error .trap

theorem unwrapOr_of_ne_trap {α : Type} {x : Except Fault α} (h : x ≠ .error .trap) (default : α) :
    ∃ a, unwrapOr x default = .ok a := by
  match x, h with
  | .ok a, _ => exact ⟨a, rfl⟩
  | .error (.error _), _ => exact ⟨default, rfl⟩
  | .error .trap, h => exact absurd rfl h

/-- Why a call of a contract with error codes of its own aborts. A division by zero is told
apart from the other traps. -/
inductive Abort (ε : Type)
  | error (e : ε)
  | divideByZero
  | trap
  deriving DecidableEq, Repr

/-- Calls into the host abort by a trap only, whatever the errors of the contract. -/
def hostCall {ε α : Type} (x : Except Fault α) : Except (Abort ε) α :=
  match x with
  | .ok a => .ok a
  | .error _ => .error .trap

@[simp] theorem hostCall_eq_ok {ε α : Type} {x : Except Fault α} {a : α} :
    (hostCall x : Except (Abort ε) α) = .ok a ↔ x = .ok a := by
  cases x <;> simp [hostCall]

@[simp] theorem hostCall_eq_error {ε α : Type} {x : Except Fault α} {e : Abort ε} :
    (hostCall x : Except (Abort ε) α) = .error e ↔ (∃ f, x = .error f) ∧ e = .trap := by
  cases x <;> simp [hostCall, eq_comm]

def i32 : IntRange := IntRange.signed 31
def i64 : IntRange := IntRange.signed 63
def i128 : IntRange := IntRange.signed 127

theorem fits_natCast_iff {x : ℕ} : i128.Fits x ↔ x < 2 ^ 127 := by
  have hlo : i128.lo ≤ 0 := i128.lo_nonpos
  have hhi : i128.hi = ((2 ^ 127 - 1 : ℕ) : ℤ) := rfl
  rw [IntRange.Fits, hhi, Nat.cast_le]
  omega

theorem check_natCast {x : ℕ} (h : x < 2 ^ 127) : i128.check (x : ℤ) = some (x : ℤ) :=
  (fits_natCast_iff.mpr h).check_eq

/-- An amount of tokens as an argument, wrapped into the range of the type. -/
def units (n : ℕ) : i128.Value :=
  ⟨(n % 2 ^ 127 : ℕ), by
    have hlt : n % 2 ^ 127 < 2 ^ 127 := Nat.mod_lt _ (by norm_num)
    have hlo : i128.lo ≤ 0 := i128.lo_nonpos
    have hhi : i128.hi = 2 ^ 127 - 1 := rfl
    constructor <;> omega⟩

/-- Result of an arithmetic operator on 128-bit values, which traps out of range. -/
def arith {ε : Type} (x : ℤ) : Except (Abort ε) ℤ := okOr (i128.check x) .trap

@[simp] theorem arith_eq_ok {ε : Type} {x y : ℤ} :
    (arith x : Except (Abort ε) ℤ) = .ok y ↔ i128.Fits x ∧ x = y := by
  simp [arith]

@[simp] theorem arith_eq_error {ε : Type} {x : ℤ} {e : Abort ε} :
    (arith x : Except (Abort ε) ℤ) = .error e ↔ i128.check x = none ∧ .trap = e := by
  simp [arith]

/-- The division operator. -/
def divide {ε : Type} (x y : ℤ) : Except (Abort ε) ℤ := do
  failIf (y = 0) .divideByZero
  arith (x.tdiv y)

theorem divide_eq_ok {ε : Type} {x y z : ℤ} (hx : 0 ≤ x)
    (h : (divide x y : Except (Abort ε) ℤ) = .ok z) : y ≠ 0 ∧ z = x / y := by
  simp only [divide, bind_eq_ok, failIf_eq_ok, arith_eq_ok] at h
  obtain ⟨_, hy, _, rfl⟩ := h
  exact ⟨hy, Int.tdiv_eq_ediv_of_nonneg hx⟩

theorem divide_eq_divideByZero {ε : Type} {x y : ℤ} :
    (divide x y : Except (Abort ε) ℤ) = .error .divideByZero ↔ y = 0 := by
  simp [divide, bind_eq_error]

theorem divide_nonneg {ε : Type} {x y z : ℤ} (hx : 0 ≤ x) (hy : 0 ≤ y)
    (h : (divide x y : Except (Abort ε) ℤ) = .ok z) : 0 ≤ z := by
  rw [(divide_eq_ok hx h).2]
  exact Int.ediv_nonneg hx hy

/-- Balances by token contract and holder. -/
abbrev Tokens := Address → Address → ℤ

/-- Move an amount of one token between two holders. A transfer to oneself is neutral. -/
def Tokens.move (t : Tokens) (token src dst : Address) (amount : ℤ) : Tokens :=
  fun tok holder =>
    t tok holder + (if tok = token ∧ holder = dst then amount else 0) -
      (if tok = token ∧ holder = src then amount else 0)

@[simp] theorem Tokens.move_zero (t : Tokens) (token src dst : Address) :
    t.move token src dst 0 = t := by
  funext tok holder
  simp [Tokens.move]

/-- Only a transfer of nothing or to oneself leaves the balances as they are. -/
theorem Tokens.eq_move_iff {t : Tokens} {token src dst : Address} {amount : ℤ} :
    t = t.move token src dst amount ↔ amount = 0 ∨ dst = src := by
  constructor
  · intro h
    by_contra hne
    obtain ⟨hamount, hdst⟩ := not_or.mp hne
    have hat := congrFun (congrFun h token) dst
    simp only [Tokens.move, hdst, and_false, true_and, if_true, if_false] at hat
    omega
  · rintro (rfl | rfl)
    · exact (Tokens.move_zero ..).symm
    · funext tok holder
      simp [Tokens.move]

theorem Tokens.move_apply_of_ne (t : Tokens) {token src dst holder : Address} (amount : ℤ)
    (tok : Address) (hs : holder ≠ src) (hd : holder ≠ dst) :
    t.move token src dst amount tok holder = t tok holder := by
  simp [Tokens.move, hs, hd]

theorem Tokens.move_apply_src (t : Tokens) {token src dst : Address} (amount : ℤ)
    (tok : Address) (h : src ≠ dst) :
    t.move token src dst amount tok src = t tok src - if tok = token then amount else 0 := by
  simp [Tokens.move, h]

theorem Tokens.move_apply_dst (t : Tokens) {token src dst : Address} (amount : ℤ)
    (tok : Address) (h : dst ≠ src) :
    t.move token src dst amount tok dst = t tok dst + if tok = token then amount else 0 := by
  simp [Tokens.move, h]

/-- Balances after new units of a token were given to a holder; a burn gives a negative
amount. -/
def Tokens.credit (t : Tokens) (token holder : Address) (amount : ℤ) : Tokens :=
  fun tok h => t tok h + if tok = token ∧ h = holder then amount else 0

theorem Tokens.credit_apply_of_ne (t : Tokens) {token holder other : Address} (amount : ℤ)
    (tok : Address) (h : other ≠ holder) :
    t.credit token holder amount tok other = t tok other := by
  simp [Tokens.credit, h]

/-- What one call of the contract at address `here` sees of its surroundings. The
host forbids re-entry, so the contract itself never authorises a call into it. -/
structure Env (here : Address) where
  sequence : ℕ
  timestamp : ℕ
  /-- The protocol treasury in instance storage, absent before `initialize`. -/
  treasury : Option Address
  auth : Address → Bool
  /-- Whether the token contract accepts a transfer in the given token state. -/
  accepts : Tokens → Address → Address → Address → ℤ → Bool
  here_auth : auth here = false

namespace Env

variable {here : Address} (env : Env here)

def requireAuth (a : Address) : Except Fault Unit := failIf (¬ env.auth a) Fault.trap

def transfer (token src dst : Address) (amount : ℤ) (t : Tokens) : Except Fault Tokens := do
  failIf (¬ env.accepts t token src dst amount) Fault.trap
  pure (t.move token src dst amount)

variable {env}

@[simp] theorem requireAuth_eq_ok {a : Address} {u : Unit} :
    env.requireAuth a = .ok u ↔ env.auth a = true := by
  simp [requireAuth]

theorem ne_here_of_auth {a : Address} (h : env.auth a = true) : a ≠ here := by
  rintro rfl
  simp [env.here_auth] at h

@[simp] theorem transfer_eq_ok {token src dst : Address} {amount : ℤ} {t t' : Tokens} :
    env.transfer token src dst amount t = .ok t' ↔
      env.accepts t token src dst amount = true ∧ t' = t.move token src dst amount := by
  simp only [transfer, bind_eq_ok, failIf_eq_ok, pure_eq_ok, not_not, exists_const]
  exact and_congr_right fun _ => eq_comm

@[simp] theorem requireAuth_eq_error {a : Address} {e : Fault} :
    env.requireAuth a = .error e ↔ env.auth a = false ∧ Fault.trap = e := by
  simp [requireAuth]

@[simp] theorem transfer_eq_error {token src dst : Address} {amount : ℤ} {t : Tokens} {e : Fault} :
    env.transfer token src dst amount t = .error e ↔
      env.accepts t token src dst amount = false ∧ Fault.trap = e := by
  simp only [transfer, bind_eq_error, failIf_eq_error, pure_ne_error, and_false, exists_false,
    or_false, Bool.not_eq_true]

/-- The token contracts accept what the contract can cover. -/
def PaysOut (env : Env here) : Prop :=
  ∀ t token dst amount, 0 ≤ amount → amount ≤ t token here →
    env.accepts t token here dst amount = true

/-- Everybody but the contract signs, and a token accepts what its source can cover. -/
def standard (here : Address) (sequence : ℕ) (treasury : Option Address) : Env here where
  sequence
  timestamp := 0
  treasury
  auth a := a ≠ here
  accepts t token src _ amount := 0 ≤ amount ∧ amount ≤ t token src
  here_auth := by simp

end Env

end StellarFlow
