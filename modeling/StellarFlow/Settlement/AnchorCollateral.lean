import StellarFlow.Host
import StellarFlow.Foundation.RatioCompare

/-!
# Collateral of fiat anchors

An anchor posts collateral for a corridor and is assigned payouts, which wait in a queue
until they are settled off the ledger. Assignments and withdrawals are refused when they
would bring the collateral below a minimum ratio of the unsettled volume. Every call on an
anchor evaluates the ratio again and pauses or resumes its assignments.
-/
namespace StellarFlow.Settlement

open Foundation

/-! ## Ratios -/

def anchorBps : ℕ := 10000
def defaultMinCollateralRatioBps : ℕ := 12000
def minAllowedCollateralRatioBps : ℕ := anchorBps
def maxAllowedCollateralRatioBps : ℕ := 100000

/-- The ratio in basis points as monitors see it, truncated and saturated. -/
def backingRatioBps (collateralLocked volumeUnsettled : ℕ) : ℕ :=
  if volumeUnsettled = 0 then 0
  else
    let whole := collateralLocked / volumeUnsettled
    if (2 ^ 32 - 1) / anchorBps < whole then 2 ^ 32 - 1
    else
      let rem := collateralLocked % volumeUnsettled
      let shrink := volumeUnsettled / (2 ^ 32 - 1) + 1
      let fracBps := if rem = 0 then 0 else rem / shrink * anchorBps / (volumeUnsettled / shrink)
      (whole * anchorBps + fracBps) % 2 ^ 32

def isCollateralSufficient (collateralLocked volumeUnsettled minRatioBps : ℕ) : Bool :=
  if volumeUnsettled = 0 then true
  else ratioGe collateralLocked volumeUnsettled minRatioBps anchorBps

/-! ## State -/

structure FiatPayoutEntry where
  id : ℕ
  amount : ℕ
  openedAt : ℕ
  deriving DecidableEq, Repr

structure AnchorCollateralState where
  anchor : Address
  corridor : AssetId
  collateralLocked : ℕ
  volumeUnsettled : ℕ
  assignmentsPaused : Bool
  pausedAt : ℕ
  lastPausedAt : ℕ
  lastRatioBps : ℕ
  deriving DecidableEq, Repr

structure AnchorCollateralStatus where
  anchor : Address
  corridor : AssetId
  collateralLocked : ℕ
  volumeUnsettled : ℕ
  ratioBps : ℕ
  minRatioBps : ℕ
  healthy : Bool
  assignmentsPaused : Bool
  queueLen : ℕ

/-- An anchor on a corridor. -/
abbrev AnchorKey := Address × AssetId

structure AnchorBook where
  states : Store AnchorKey AnchorCollateralState
  payoutQueues : Store AnchorKey (List FiatPayoutEntry)
  nextPayoutIds : Store AnchorKey ℕ
  minRatios : Store AssetId ℕ

structure AnchorEnv (here : Address) extends Env here where
  admin : Option Address

namespace AnchorBook

def empty : AnchorBook := ⟨∅, ∅, ∅, ∅⟩

variable (b : AnchorBook)

def getAnchorState (anchor : Address) (corridor : AssetId) : AnchorCollateralState :=
  (b.states.lookup (anchor, corridor)).getD ⟨anchor, corridor, 0, 0, false, 0, 0, 0⟩

def storeAnchorState (state : AnchorCollateralState) : AnchorBook :=
  { b with states := b.states.insert (state.anchor, state.corridor) state }

def readPayoutQueue (anchor : Address) (corridor : AssetId) : List FiatPayoutEntry :=
  (b.payoutQueues.lookup (anchor, corridor)).getD []

def corridorMinRatioBps (corridor : AssetId) : ℕ :=
  (b.minRatios.lookup corridor).getD defaultMinCollateralRatioBps

def nextPayoutId (anchor : Address) (corridor : AssetId) : ℕ :=
  (b.nextPayoutIds.lookup (anchor, corridor)).getD 0

def getAnchorStatus (anchor : Address) (corridor : AssetId) : AnchorCollateralStatus :=
  let state := b.getAnchorState anchor corridor
  let minRatioBps := b.corridorMinRatioBps corridor
  { anchor := state.anchor
    corridor := state.corridor
    collateralLocked := state.collateralLocked
    volumeUnsettled := state.volumeUnsettled
    ratioBps := backingRatioBps state.collateralLocked state.volumeUnsettled
    minRatioBps
    healthy := isCollateralSufficient state.collateralLocked state.volumeUnsettled minRatioBps
    assignmentsPaused := state.assignmentsPaused
    queueLen := (b.readPayoutQueue anchor corridor).length }

end AnchorBook

/-- Evaluate the ratio and move the pause flag accordingly. -/
def syncRatioStatus (timestamp minRatioBps : ℕ) (state : AnchorCollateralState) :
    AnchorCollateralState :=
  let healthy :=
    isCollateralSufficient state.collateralLocked state.volumeUnsettled minRatioBps
  let state := { state with
    lastRatioBps := backingRatioBps state.collateralLocked state.volumeUnsettled }
  if healthy then
    if state.assignmentsPaused then { state with assignmentsPaused := false, pausedAt := 0 }
    else state
  else if state.assignmentsPaused then state
  else { state with assignmentsPaused := true, pausedAt := timestamp, lastPausedAt := timestamp }

/-! ## Calls -/

section Calls

variable {here : Address} (env : AnchorEnv here)

/-- Evaluate a changed record and write it back. -/
def evaluateAndStore (state : AnchorCollateralState) (b : AnchorBook) :
    AnchorCollateralState × AnchorBook :=
  let state := syncRatioStatus env.timestamp (b.corridorMinRatioBps state.corridor) state
  (state, b.storeAnchorState state)

def setMinCollateralRatioBps (admin : Address) (corridor : AssetId) (minRatioBps : ℕ)
    (b : AnchorBook) : Except Fault (ℕ × AnchorBook) := do
  let current ← okOr env.admin (Fault.error .notInitialized)
  failIf (current ≠ admin) (Fault.error .notAdmin)
  env.requireAuth admin
  failIf (¬ (minAllowedCollateralRatioBps ≤ minRatioBps ∧
    minRatioBps ≤ maxAllowedCollateralRatioBps)) (Fault.error .invalidArgument)
  pure (minRatioBps, { b with minRatios := b.minRatios.insert corridor minRatioBps })

def depositCollateral (caller anchor : Address) (corridor : AssetId) (amount : ℕ)
    (b : AnchorBook) : Except Fault (AnchorCollateralState × AnchorBook) := do
  env.requireAuth caller
  failIf (amount = 0) (Fault.error .amountTooLow)
  let state := b.getAnchorState anchor corridor
  let locked ← okOr (checkBits 128 (state.collateralLocked + amount)) (Fault.error .overflow)
  pure (evaluateAndStore env { state with collateralLocked := locked } b)

def withdrawCollateral (caller anchor : Address) (corridor : AssetId) (amount : ℕ)
    (b : AnchorBook) : Except Fault (AnchorCollateralState × AnchorBook) := do
  env.requireAuth caller
  failIf (amount = 0) (Fault.error .amountTooLow)
  let state := b.getAnchorState anchor corridor
  failIf (state.assignmentsPaused = true) (Fault.error .anchorUndercollateralized)
  failIf (state.collateralLocked < amount) (Fault.error .insufficientReserveBalance)
  let remaining := state.collateralLocked - amount
  failIf (isCollateralSufficient remaining state.volumeUnsettled
    (b.corridorMinRatioBps corridor) = false) (Fault.error .anchorUndercollateralized)
  pure (evaluateAndStore env { state with collateralLocked := remaining } b)

def assignFiatPayout (caller anchor : Address) (corridor : AssetId) (amount : ℕ)
    (b : AnchorBook) : Except Fault (FiatPayoutEntry × AnchorBook) := do
  env.requireAuth caller
  failIf (amount = 0) (Fault.error .amountTooLow)
  let state := b.getAnchorState anchor corridor
  failIf (state.assignmentsPaused = true) (Fault.error .anchorAssignmentsPaused)
  let nextVolume ← okOr (checkBits 128 (state.volumeUnsettled + amount)) (Fault.error .overflow)
  failIf (isCollateralSufficient state.collateralLocked nextVolume
    (b.corridorMinRatioBps corridor) = false) (Fault.error .anchorUndercollateralized)
  let id ← okOr (checkBits 64 (b.nextPayoutId anchor corridor + 1)) (Fault.error .overflow)
  let entry : FiatPayoutEntry := ⟨id, amount, env.timestamp⟩
  let b := { b with
    nextPayoutIds := b.nextPayoutIds.insert (anchor, corridor) id
    payoutQueues := b.payoutQueues.insert (anchor, corridor)
      (b.readPayoutQueue anchor corridor ++ [entry]) }
  pure (entry, (evaluateAndStore env { state with volumeUnsettled := nextVolume } b).2)

/-- The first entry with the identifier is settled, at exactly its amount. -/
def settleFiatPayout (caller anchor : Address) (corridor : AssetId) (payoutId amount : ℕ)
    (b : AnchorBook) : Except Fault (AnchorCollateralState × AnchorBook) := do
  env.requireAuth caller
  failIf (amount = 0) (Fault.error .amountTooLow)
  let queue := b.readPayoutQueue anchor corridor
  let queued ← okOr (queue.find? fun entry => entry.id = payoutId)
    (Fault.error .invalidEscrowState)
  failIf (queued.amount ≠ amount) (Fault.error .invalidArgument)
  let state := b.getAnchorState anchor corridor
  failIf (state.volumeUnsettled < amount) (Fault.error .invalidEscrowState)
  failIf (state.collateralLocked < amount) (Fault.error .insufficientReserveBalance)
  let b := { b with
    payoutQueues := b.payoutQueues.insert (anchor, corridor)
      (queue.eraseP fun entry => entry.id = payoutId) }
  pure (evaluateAndStore env { state with
    volumeUnsettled := state.volumeUnsettled - amount
    collateralLocked := state.collateralLocked - amount } b)

def syncAnchorRatio (anchor : Address) (corridor : AssetId) (b : AnchorBook) :
    Except Fault (AnchorCollateralStatus × AnchorBook) :=
  let b := (evaluateAndStore env (b.getAnchorState anchor corridor) b).2
  pure (b.getAnchorStatus anchor corridor, b)

end Calls

inductive AnchorCall
  | setMinCollateralRatioBps (admin : Address) (corridor : AssetId) (minRatioBps : ℕ)
  | depositCollateral (caller anchor : Address) (corridor : AssetId) (amount : ℕ)
  | withdrawCollateral (caller anchor : Address) (corridor : AssetId) (amount : ℕ)
  | assignFiatPayout (caller anchor : Address) (corridor : AssetId) (amount : ℕ)
  | settleFiatPayout (caller anchor : Address) (corridor : AssetId) (payoutId amount : ℕ)
  | syncAnchorRatio (anchor : Address) (corridor : AssetId)

/-- A call together with the environment it runs in. -/
abbrev AnchorStep (here : Address) := AnchorEnv here × AnchorCall

def anchorStep {here : Address} (i : AnchorStep here) (b : AnchorBook) : Except Fault AnchorBook :=
  match i.2 with
  | .setMinCollateralRatioBps admin corridor minRatioBps =>
    Prod.snd <$> setMinCollateralRatioBps i.1 admin corridor minRatioBps b
  | .depositCollateral caller anchor corridor amount =>
    Prod.snd <$> depositCollateral i.1 caller anchor corridor amount b
  | .withdrawCollateral caller anchor corridor amount =>
    Prod.snd <$> withdrawCollateral i.1 caller anchor corridor amount b
  | .assignFiatPayout caller anchor corridor amount =>
    Prod.snd <$> assignFiatPayout i.1 caller anchor corridor amount b
  | .settleFiatPayout caller anchor corridor payoutId amount =>
    Prod.snd <$> settleFiatPayout i.1 caller anchor corridor payoutId amount b
  | .syncAnchorRatio anchor corridor => Prod.snd <$> syncAnchorRatio i.1 anchor corridor b

end StellarFlow.Settlement
