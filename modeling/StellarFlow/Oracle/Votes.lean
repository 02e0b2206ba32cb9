import StellarFlow.Oracle.Relayers

/-!
# Voting on the actions of the oracle

An admin proposes an action, admins vote for it themselves or through a delegate, and an admin
executes it once the weight of its voters reaches a threshold. With a veFLOW lock contract the
votes are weighed by voting power and recorded by side instead. The execution only counts votes
of the first kind.
-/
namespace StellarFlow.Votes

open Foundation Oracle Relayers

/-- No threshold on the number of votes is below this one. -/
def minSafeQuorumThreshold : ℕ := 2

inductive ActionType
  | togglePause
  | registerAdmin
  | removeAdmin
  | selfDestruct
  | upgrade
  | slash
  deriving DecidableEq, Repr

def ActionType.ofCode : ℕ → Option ActionType
  | 0 => some togglePause
  | 1 => some registerAdmin
  | 2 => some removeAdmin
  | 3 => some selfDestruct
  | 4 => some upgrade
  | 5 => some slash
  | _ => none

structure ProposedAction where
  actionType : ActionType
  target : Option Address
  data : List Char
  proposedAt : ℕ
  executed : Bool
  cancelled : Bool
  deriving DecidableEq

/-- What votes depend on besides the votes. The settings are those of the stakes. -/
structure VoteConfig where
  stakes : StakeStore
  paused : Bool
  adminWeight : Store Address ℕ
  weightThreshold : Option ℕ
  minQuorumThreshold : Option ℕ

structure VoteStore where
  config : VoteConfig
  actionIdCounter : ℕ
  proposedAction : Store ℕ ProposedAction
  actionVotes : Store ℕ (List Address)
  /-- The voters of an action on the affirmative and on the negative side. -/
  sideVotes : Store (Bool × ℕ) (List Address)
  sideWeight : Store (Bool × ℕ) ℤ
  actionVoteWeight : Store (ℕ × Address) ℤ
  veflowLockContract : Option Address
  voteDelegate : Store Address Address

/-- The environment with the answers of the lock contract, and the codes that the host knows. -/
structure VoteEnv (here : Address) extends Env here where
  getVotingPower : Address → Address → ℕ → ℤ
  checkpointReclaimOnVote : Address → Address → Bool
  updateCurrentContractWasm : List Char → Bool

def VoteConfig.deployed (tokens : Tokens) : VoteConfig := ⟨.deployed tokens, false, ∅, none, none⟩

def VoteStore.deployed (tokens : Tokens) : VoteStore :=
  ⟨.deployed tokens, 0, ∅, ∅, ∅, ∅, ∅, none, ∅⟩

namespace VoteStore

variable (s : VoteStore)

def settings : OracleSettings := s.config.stakes.settings

def withSettings (settings : OracleSettings) : VoteStore :=
  { s with config := { s.config with stakes := { s.config.stakes with settings } } }

def getActionVotes (actionId : ℕ) : List Address := (s.actionVotes.lookup actionId).getD []

def getSideVotes (affirmative : Bool) (actionId : ℕ) : List Address :=
  (s.sideVotes.lookup (affirmative, actionId)).getD []

def getAdminWeight (admin : Address) : ℕ := (s.config.adminWeight.lookup admin).getD 1

def getMinQuorumThreshold : ℕ :=
  max (s.config.minQuorumThreshold.getD minSafeQuorumThreshold) minSafeQuorumThreshold

/-- Without a threshold on the weight, two or three votes. -/
def getRequiredThreshold : Except OracleFault ℕ :=
  match s.config.weightThreshold with
  | some weight => pure weight
  | none => do
    let admins ← s.settings.getAdmin
    pure (if admins.length ≤ 3 then 2 else 3)

/-- The weight of the voters, which stays at the largest 32-bit number. -/
def accumulatedWeight (voters : List Address) : ℕ :=
  voters.foldl (fun weight voter => min (2 ^ 32 - 1) (weight + s.getAdminWeight voter)) 0

def hasReachedThreshold (actionId threshold : ℕ) : Bool :=
  s.config.weightThreshold.getD threshold ≤ s.accumulatedWeight (s.getActionVotes actionId)

/-- An action that is neither executed nor cancelled. -/
def openAction (actionId : ℕ) : Except OracleFault ProposedAction := do
  let proposed ← okOr (s.proposedAction.lookup actionId) (.error .actionNotFound)
  failIf proposed.executed (.error .actionAlreadyExecuted)
  failIf proposed.cancelled (.error .actionCancelled)
  pure proposed

end VoteStore

/-- A voter is counted once. -/
def addVoter (voters : List Address) (voter : Address) : List Address :=
  if voter ∈ voters then voters else voters ++ [voter]

/-- The admins that a voter speaks for: itself, unless it named a delegate, and all those that
named it as theirs. -/
def representedBy (admins : List Address) (voteDelegate : Store Address Address)
    (voter : Address) : List Address :=
  (if voter ∈ admins ∧ voteDelegate.lookup voter = none then [voter] else []) ++
    admins.filter fun admin => admin ≠ voter ∧ voteDelegate.lookup admin = some voter

def addEffectiveActionVotes (actionId : ℕ) (voter : Address) (s : VoteStore) :
    Except OracleFault (ℕ × VoteStore) := do
  let admins ← s.settings.getAdmin
  let voters :=
    (representedBy admins s.voteDelegate voter).foldl addVoter (s.getActionVotes actionId)
  pure (voters.length, { s with actionVotes := s.actionVotes.insert actionId voters })

section Calls

variable {here : Address} (env : VoteEnv here)

def requireSignedAdmin (admin : Address) (s : VoteStore) : Except OracleFault Unit := do
  hostCall (env.requireAuth admin)
  s.settings.requireAuthorized admin

def requireOpenAdmin (admin : Address) (s : VoteStore) : Except OracleFault Unit := do
  s.settings.requireNotDestroyed
  s.settings.requireNotFrozen
  requireSignedAdmin env admin s

/-- Propose an action. The proposer votes for it, unless votes are weighed by veFLOW. -/
def proposeAction (admin : Address) (actionType : ℕ) (target : Option Address) (data : List Char)
    (s : VoteStore) : Except OracleFault (ℕ × VoteStore) := do
  requireOpenAdmin env admin s
  let actionType ← okOr (ActionType.ofCode actionType) (.error .invalidActionType)
  let actionId ← okOr (checkBits 64 (s.actionIdCounter + 1)) .trap
  let proposed : ProposedAction :=
    ⟨actionType, target, data, env.timestamp, false, false⟩
  let s := { s with
    actionIdCounter := actionId
    proposedAction := s.proposedAction.insert actionId proposed }
  match s.veflowLockContract with
  | some _ => pure (actionId, s)
  | none => do
    let (_, s) ← addEffectiveActionVotes actionId admin s
    pure (actionId, s)

/-- Whether the contract is destroyed or initialised is looked up, but not enforced. -/
def setVeflowGovernance (admin lockContract : Address) (circulatingSupply : i128.Value)
    (s : VoteStore) : Except OracleFault VoteStore := do
  requireSignedAdmin env admin s
  failIf (circulatingSupply.1 ≤ 0) (.error .invalidStakeAmount)
  pure { s with veflowLockContract := some lockContract }

/-- The weight of a vote: voting power at the time of the proposal, or the weight of an admin. -/
def voteWeight (voter : Address) (proposedAt : ℕ) (s : VoteStore) : Except OracleFault ℤ :=
  match s.veflowLockContract with
  | some lockContract => do
    let weight := env.getVotingPower lockContract voter proposedAt
    failIf (weight ≤ 0) (.error .notAuthorized)
    pure weight
  | none => pure (s.getAdminWeight voter)

/-- Record a vote on one side. Nobody votes on both sides, or twice. -/
def recordVote (voter : Address) (actionId : ℕ) (affirmative : Bool) (s : VoteStore) :
    Except OracleFault (ℕ × VoteStore) := do
  let proposed ← s.openAction actionId
  let voters := s.getSideVotes affirmative actionId
  failIf (voter ∈ voters ∨ voter ∈ s.getSideVotes (!affirmative) actionId) (.error .alreadyVoted)
  let weight ← voteWeight env voter proposed.proposedAt s
  let total ← arith ((s.sideWeight.lookup (affirmative, actionId)).getD 0 + weight)
  pure ((voters ++ [voter]).length, { s with
    sideVotes := s.sideVotes.insert (affirmative, actionId) (voters ++ [voter])
    actionVoteWeight := s.actionVoteWeight.insert (actionId, voter) weight
    sideWeight := s.sideWeight.insert (affirmative, actionId) total })

/-- An admin votes unless it named a delegate, and a delegate always. -/
def voteForAction (voter : Address) (actionId : ℕ) (s : VoteStore) :
    Except OracleFault (ℕ × VoteStore) := do
  s.settings.requireNotDestroyed
  s.settings.requireNotFrozen
  hostCall (env.requireAuth voter)
  match s.veflowLockContract with
  | some lockContract => do
    failIf (¬ env.checkpointReclaimOnVote lockContract voter) .trap
    recordVote env voter actionId true s
  | none => do
    let admins ← s.settings.getAdmin
    let delegatedVoters := admins.filter fun admin => s.voteDelegate.lookup admin = some voter
    failIf ((s.settings.isAuthorized voter = false ∨ (s.voteDelegate.lookup voter).isSome) ∧
      delegatedVoters = []) (.error .notAuthorized)
    let _ ← s.openAction actionId
    addEffectiveActionVotes actionId voter s

def voteAgainstAction (voter : Address) (actionId : ℕ) (s : VoteStore) :
    Except OracleFault (ℕ × VoteStore) := do
  s.settings.requireNotFrozen
  hostCall (env.requireAuth voter)
  failIf (s.veflowLockContract = none ∧ s.settings.isAuthorized voter = false)
    (.error .notAuthorized)
  recordVote env voter actionId false s

def delegateVote (owner delegate : Address) (s : VoteStore) : Except OracleFault VoteStore := do
  s.settings.requireNotFrozen
  hostCall (env.requireAuth owner)
  failIf (owner = delegate) (.error .invalidDelegate)
  pure { s with voteDelegate := s.voteDelegate.insert owner delegate }

def clearVoteDelegate (owner : Address) (s : VoteStore) : Except OracleFault VoteStore := do
  hostCall (env.requireAuth owner)
  pure { s with voteDelegate := s.voteDelegate.erase owner }

/-- Two different admins sign together. -/
def requireTwoAdmins (admin1 admin2 : Address) (s : VoteStore) :
    Except OracleFault (List Address) := do
  s.settings.requireNotFrozen
  failIf (admin1 = admin2) (.error .multiSigValidationFailed)
  hostCall (env.requireAuth admin1)
  hostCall (env.requireAuth admin2)
  s.settings.requireAuthorized admin1
  s.settings.requireAuthorized admin2
  s.settings.getAdmin

def registerAdmin (admin1 admin2 newAdmin : Address) (s : VoteStore) :
    Except OracleFault VoteStore := do
  let admins ← requireTwoAdmins env admin1 admin2 s
  failIf (3 ≤ admins.length) (.error .multiSigValidationFailed)
  let settings ← s.settings.addAuthorized newAdmin
  pure (s.withSettings settings)

def removeAdmin (admin1 admin2 adminToRemove : Address) (s : VoteStore) :
    Except OracleFault VoteStore := do
  let admins ← requireTwoAdmins env admin1 admin2 s
  failIf (admins.length ≤ 1) (.error .multiSigValidationFailed)
  failIf (adminToRemove ∉ admins) (.error .notAuthorized)
  pure (s.withSettings (s.settings.removeAuthorized adminToRemove))

def cancelProposedAction (canceller : Address) (actionId : ℕ) (s : VoteStore) :
    Except OracleFault VoteStore := do
  requireOpenAdmin env canceller s
  let proposed ← s.openAction actionId
  pure { s with
    proposedAction := s.proposedAction.insert actionId { proposed with cancelled := true } }

/-- The digits of a decimal number. -/
def parseDigits (digits : List Char) : Option ℤ :=
  if digits ≠ [] ∧ digits.all Char.isDigit then
    some (digits.foldl (fun n c => 10 * n + ((c.toNat - '0'.toNat : ℕ) : ℤ)) 0)
  else none

/-- A decimal number with an optional sign. -/
def parseSlashAmount (data : List Char) : Except OracleFault ℤ := do
  let amount ← okOr (match data with
    | '-' :: digits => (parseDigits digits).map Int.neg
    | '+' :: digits => parseDigits digits
    | digits => parseDigits digits) (.error .invalidSlashAmount)
  okOr (i128.check amount) (.error .invalidSlashAmount)

def isHexDigit (c : Char) : Bool := c.isDigit || ('a' ≤ c && c ≤ 'f') || ('A' ≤ c && c ≤ 'F')

/-- The effect of an action, by its type. -/
def performAction (executor : Address) (proposed : ProposedAction) (s : VoteStore) :
    Except OracleFault VoteStore :=
  match proposed.actionType with
  | .togglePause => pure { s with config := { s.config with paused := !s.config.paused } }
  | .registerAdmin => do
    let newAdmin ← okOr proposed.target (.error .invalidActionType)
    let settings ← s.settings.addAuthorized newAdmin
    pure (s.withSettings settings)
  | .removeAdmin => do
    let adminToRemove ← okOr proposed.target (.error .invalidActionType)
    let admins ← s.settings.getAdmin
    failIf (admins.length ≤ 1) (.error .multiSigValidationFailed)
    pure (s.withSettings (s.settings.removeAuthorized adminToRemove))
  | .selfDestruct => do
    let admins ← s.settings.getAdmin
    failIf (admins.length < 2) (.error .multiSigValidationFailed)
    let s := { s with config := { s.config with paused := false } }
    pure (s.withSettings { s.settings with
      admins := none, baseCurrencyPairs := [], initialized := false, destroyed := true })
  | .upgrade => do
    -- the hash of the new code, as 32 bytes in hexadecimal
    failIf (¬ (proposed.data.length = 64 ∧ proposed.data.all isHexDigit))
      (.error .invalidActionType)
    failIf (¬ env.updateCurrentContractWasm proposed.data) .trap
    pure s
  | .slash => do
    let badRelayer ← okOr proposed.target (.error .invalidActionType)
    let amount ← parseSlashAmount proposed.data
    let stakes ← executeSlashInternal env.toEnv executor badRelayer amount s.config.stakes
    pure { s with config := { s.config with stakes } }

/-- Perform an open action and mark it as executed. -/
def completeAction (executor : Address) (actionId : ℕ) (proposed : ProposedAction)
    (s : VoteStore) : Except OracleFault VoteStore := do
  let s ← performAction env executor proposed s
  pure { s with
    proposedAction := s.proposedAction.insert actionId { proposed with executed := true } }

/-- Execute an action with enough votes. -/
def executeProposedAction (executor : Address) (actionId : ℕ) (s : VoteStore) :
    Except OracleFault VoteStore := do
  requireOpenAdmin env executor s
  let proposed ← s.openAction actionId
  let threshold ← s.getRequiredThreshold
  failIf (s.hasReachedThreshold actionId threshold = false) (.error .quorumNotReached)
  failIf ((s.getActionVotes actionId).length < s.getMinQuorumThreshold) (.error .quorumNotReached)
  completeAction env executor actionId proposed s

end Calls

end StellarFlow.Votes
