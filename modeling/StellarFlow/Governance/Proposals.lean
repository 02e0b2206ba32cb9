import StellarFlow.Admin.Upgrade

/-!
# Governance proposals, vetoes and emergency overrides

One upgrade proposal is open at a time. Signers may vote to cancel it, the security council may
veto it, and emergency signers may vote to execute it without waiting. There is one slot for the
last veto and one set of override votes for each proposal number.
-/
namespace StellarFlow.Governance

open Foundation Admin

def defaultEmergencyOverrideThresholdBps : ℕ := 6667
def minEmergencyOverrideThresholdBps : ℕ := 5001
def maxEmergencyOverrideThresholdBps : ℕ := 10000

inductive ProposalStatus
  | pending
  | executable
  | cancelled
  deriving DecidableEq, Repr

structure GovernanceProposal where
  proposalId : ℕ
  wasmHash : Digest
  proposer : Address
  stagedAt : ℕ
  status : ProposalStatus
  cancellationVotes : Finset Address
  deriving DecidableEq

/-- Neither cancelled nor executed. -/
def GovernanceProposal.IsOpen (p : GovernanceProposal) : Prop :=
  p.status = .pending ∨ p.status = .executable

instance : DecidablePred GovernanceProposal.IsOpen := fun _ => inferInstanceAs (Decidable (_ ∨ _))

structure ProposalVeto where
  proposalId : ℕ
  vetoedBy : Address
  vetoedAt : ℕ
  reasonHash : String
  deriving DecidableEq, Repr

structure EmergencyOverrideConfig where
  emergencySigners : List Address
  thresholdBps : ℕ
  enabled : Bool
  deriving DecidableEq, Repr

def EmergencyOverrideConfig.default : EmergencyOverrideConfig :=
  ⟨[], defaultEmergencyOverrideThresholdBps, true⟩

structure EmergencyOverrideResult where
  proposalId : ℕ
  totalSigners : ℕ
  votesFor : ℕ
  thresholdBps : ℕ
  succeeded : Bool
  executedAt : ℕ
  deriving DecidableEq, Repr

structure GovernanceStore where
  admin : AdminStore
  counter : Option ℕ
  proposal : Option GovernanceProposal
  securityCouncil : Option Address
  veto : Option ProposalVeto
  override : Option EmergencyOverrideConfig
  /-- For each proposal number, who voted for the override. -/
  overrideVotes : Store ℕ (Finset Address)

/-- What a governance call reads of its surroundings. -/
structure GovernanceEnv (here : Address) extends UpgradeEnv here where
  /-- Whether the code with a hash counts as vetoed. -/
  hashVetoed : Digest → Bool

namespace GovernanceStore

variable (g : GovernanceStore)

def loadEmergencyOverrideConfig : EmergencyOverrideConfig := g.override.getD .default

def getOverrideVotes (proposalId : ℕ) : Finset Address :=
  (g.overrideVotes.lookup proposalId).getD ∅

/-- The counter starts again once it has run out. -/
def nextProposalId : ℕ := (checkBits 64 (g.counter.getD 0 + 1)).getD 1

/-- The record of the last veto, if it is about this proposal. -/
def getVetoRecord (proposalId : ℕ) : Option ProposalVeto :=
  g.veto.filter fun record => record.proposalId = proposalId

def IsProposalVetoed (proposalId : ℕ) : Prop := (g.getVetoRecord proposalId).isSome

instance : DecidablePred g.IsProposalVetoed := fun _ => inferInstanceAs (Decidable (_ = true))

end GovernanceStore

/-! ## Proposals -/

variable {here : Address} (env : GovernanceEnv here)

def submitGovernanceProposal (proposer : Address) (wasmHash : Digest) (g : GovernanceStore) :
    Except Fault (ℕ × GovernanceStore) := do
  Admin.assertNotRevoked proposer g.admin
  failIf (∃ existing ∈ g.proposal, existing.IsOpen) (Fault.error .proposalAlreadyActive)
  failIf (env.hashVetoed wasmHash) (Fault.error .proposalAlreadyVetoed)
  env.requireAuth proposer
  let proposalId := g.nextProposalId
  pure (proposalId, { g with
    counter := some proposalId
    proposal := some ⟨proposalId, wasmHash, proposer, env.sequence, .pending, ∅⟩ })

/-- The open proposal under a number. -/
def loadPending (proposalId : ℕ) (g : GovernanceStore) : Except Fault GovernanceProposal := do
  let proposal ← okOr g.proposal (Fault.error .noActiveProposal)
  failIf (proposal.proposalId ≠ proposalId) (Fault.error .noActiveProposal)
  failIf (proposal.status ≠ .pending) (Fault.error .proposalAlreadyCancelledOrExecuted)
  pure proposal

def cancellationThreshold (signerCount : ℕ) : ℕ :=
  if signerCount < 2 then 1 else signerCount / 2 + 1

def voteCancelGovernanceProposal (voter : Address) (proposalId sigExpiresAt : ℕ)
    (g : GovernanceStore) : Except Fault GovernanceStore := do
  Admin.assertNotRevoked voter g.admin
  let data ← g.admin.getData
  failIf (voter ∉ g.admin.getSigners ∧ data.admin ≠ voter) (Fault.error .unauthorized)
  checkSignatureTime env.toEnv sigExpiresAt
  env.requireAuth voter
  let proposal ← loadPending proposalId g
  failIf (voter ∈ proposal.cancellationVotes) (Fault.error .alreadyVoted)
  let cancellationVotes := insert voter proposal.cancellationVotes
  let status := if cancellationThreshold g.admin.getSigners.card ≤ cancellationVotes.card then
    .cancelled else proposal.status
  pure { g with proposal := some { proposal with cancellationVotes, status } }

def cancelGovernanceProposal (canceller : Address) (proposalId : ℕ) (g : GovernanceStore) :
    Except Fault GovernanceStore := do
  let _ ← requireAdmin env.toEnv canceller g.admin
  let proposal ← loadPending proposalId g
  pure { g with proposal := some { proposal with status := .cancelled } }

/-! ## Vetoes -/

def setSecurityCouncil (caller council : Address) (g : GovernanceStore) :
    Except Fault GovernanceStore := do
  let _ ← requireAdmin env.toEnv caller g.admin
  pure { g with securityCouncil := some council }

/-- The proposal need not exist; the record replaces the last one. -/
def vetoProposal (caller : Address) (proposalId : ℕ) (reason : String) (g : GovernanceStore) :
    Except Fault GovernanceStore := do
  let council ← okOr g.securityCouncil (Fault.error .notSecurityCouncil)
  failIf (caller ≠ council) (Fault.error .notSecurityCouncil)
  env.requireAuth caller
  let _ ← g.admin.getData
  pure { g with veto := some ⟨proposalId, caller, env.timestamp, reason⟩ }

/-! ## Emergency overrides -/

def setEmergencyOverrideConfig (caller : Address) (emergencySigners : List Address)
    (thresholdBps : ℕ) (enabled : Bool) (g : GovernanceStore) : Except Fault GovernanceStore := do
  let _ ← requireAdmin env.toEnv caller g.admin
  failIf (emergencySigners.length = 0) (Fault.error .invalidThreshold)
  failIf (thresholdBps < minEmergencyOverrideThresholdBps ∨
    maxEmergencyOverrideThresholdBps < thresholdBps) (Fault.error .invalidThreshold)
  pure { g with override := some ⟨emergencySigners, thresholdBps, enabled⟩ }

/-- The open proposal under a number, for an emergency signer. -/
def loadForOverride (signer : Address) (proposalId : ℕ) (g : GovernanceStore) :
    Except Fault GovernanceProposal := do
  let config := g.loadEmergencyOverrideConfig
  failIf (¬ config.enabled) (Fault.error .emergencyOverrideDisabled)
  failIf (signer ∉ config.emergencySigners) (Fault.error .notEmergencySigner)
  env.requireAuth signer
  let proposal ← okOr g.proposal (Fault.error .proposalNotFound)
  failIf (proposal.proposalId ≠ proposalId) (Fault.error .proposalNotFound)
  failIf (¬ proposal.IsOpen) (Fault.error .proposalAlreadyCancelledOrExecuted)
  pure proposal

/-- The reason is kept with the vote, but nothing reads it. -/
def voteEmergencyOverride (signer : Address) (proposalId : ℕ) (g : GovernanceStore) :
    Except Fault GovernanceStore := do
  let _ ← loadForOverride env signer proposalId g
  let votes := g.getOverrideVotes proposalId
  failIf (signer ∈ votes) (Fault.error .alreadyVoted)
  pure { g with overrideVotes := g.overrideVotes.insert proposalId (insert signer votes) }

/-- The share of the votes, cut to 32 bits. -/
def weightAchievedBps (votesFor totalSigners : ℕ) : ℕ := truncate (votesFor * 10000 / totalSigners)

def executeEmergencyOverride (executor : Address) (proposalId : ℕ) (g : GovernanceStore) :
    Except Fault (EmergencyOverrideResult × GovernanceStore) := do
  let proposal ← loadForOverride env executor proposalId g
  let config := g.loadEmergencyOverrideConfig
  let votesFor := (g.getOverrideVotes proposalId).card
  let totalSigners := config.emergencySigners.length
  failIf (totalSigners = 0) (Fault.error .emergencyOverrideDisabled)
  failIf (weightAchievedBps votesFor totalSigners < config.thresholdBps)
    (Fault.error .overrideThresholdNotReached)
  failIf (¬ env.uploaded proposal.wasmHash) Fault.trap
  pure (⟨proposalId, totalSigners, votesFor, config.thresholdBps, true, env.timestamp⟩, { g with
    proposal := none
    overrideVotes := g.overrideVotes.erase proposalId })

/-! ## Calls -/

inductive GovernanceCall
  | submitGovernanceProposal (proposer : Address) (wasmHash : Digest)
  | voteCancelGovernanceProposal (voter : Address) (proposalId sigExpiresAt : ℕ)
  | cancelGovernanceProposal (canceller : Address) (proposalId : ℕ)
  | setSecurityCouncil (caller council : Address)
  | vetoProposal (caller : Address) (proposalId : ℕ) (reason : String)
  | setEmergencyOverrideConfig (caller : Address) (emergencySigners : List Address)
      (thresholdBps : ℕ) (enabled : Bool)
  | voteEmergencyOverride (signer : Address) (proposalId : ℕ)
  | executeEmergencyOverride (executor : Address) (proposalId : ℕ)

def GovernanceCall.exec (call : GovernanceCall) (g : GovernanceStore) :
    Except Fault GovernanceStore :=
  match call with
  | .submitGovernanceProposal proposer wasmHash =>
    Prod.snd <$> Governance.submitGovernanceProposal env proposer wasmHash g
  | .voteCancelGovernanceProposal voter proposalId sigExpiresAt =>
    Governance.voteCancelGovernanceProposal env voter proposalId sigExpiresAt g
  | .cancelGovernanceProposal canceller proposalId =>
    Governance.cancelGovernanceProposal env canceller proposalId g
  | .setSecurityCouncil caller council => Governance.setSecurityCouncil env caller council g
  | .vetoProposal caller proposalId reason => Governance.vetoProposal env caller proposalId reason g
  | .setEmergencyOverrideConfig caller emergencySigners thresholdBps enabled =>
    Governance.setEmergencyOverrideConfig env caller emergencySigners thresholdBps enabled g
  | .voteEmergencyOverride signer proposalId =>
    Governance.voteEmergencyOverride env signer proposalId g
  | .executeEmergencyOverride executor proposalId =>
    Prod.snd <$> Governance.executeEmergencyOverride env executor proposalId g

section Proposals

variable {here : Address} {env : GovernanceEnv here} {g g' : GovernanceStore}
  {proposer voter caller signer council : Address} {wasmHash : Digest} {proposalId : ℕ}
  {p : GovernanceProposal}

theorem GovernanceStore.isProposalVetoed_iff :
    g.IsProposalVetoed proposalId ↔ ∃ record, g.veto = some record ∧
      record.proposalId = proposalId := by
  rw [GovernanceStore.IsProposalVetoed, GovernanceStore.getVetoRecord, Option.isSome_iff_exists]
  simp only [Option.filter_eq_some_iff, decide_eq_true_eq]

theorem submitGovernanceProposal_eq_ok {r : ℕ}
    (h : submitGovernanceProposal env proposer wasmHash g = .ok (r, g')) :
    (∀ existing, g.proposal = some existing → ¬ existing.IsOpen) ∧ env.auth proposer = true ∧
      g' = { g with
        counter := some g.nextProposalId
        proposal := some ⟨g.nextProposalId, wasmHash, proposer, env.sequence, .pending, ∅⟩ } := by
  simp only [submitGovernanceProposal, bind_eq_ok, failIf_eq_ok, Env.requireAuth_eq_ok, pure_eq_ok,
    Prod.mk.injEq, not_exists, not_and] at h
  obtain ⟨_, _, _, hclosed, _, _, _, hauth, _, rfl⟩ := h
  exact ⟨hclosed, hauth, rfl⟩

theorem loadPending_eq_ok : loadPending proposalId g = .ok p ↔
    g.proposal = some p ∧ p.proposalId = proposalId ∧ p.status = .pending := by
  simp only [loadPending, bind_eq_ok, okOr_eq_ok, failIf_eq_ok, pure_eq_ok, not_not]
  constructor
  · rintro ⟨_, hproposal, _, hid, _, hstatus, rfl⟩
    exact ⟨hproposal, hid, hstatus⟩
  · rintro ⟨hproposal, hid, hstatus⟩
    exact ⟨p, hproposal, (), hid, (), hstatus, rfl⟩

theorem voteCancelGovernanceProposal_eq_ok {sigExpiresAt : ℕ}
    (h : voteCancelGovernanceProposal env voter proposalId sigExpiresAt g = .ok g') :
    ∃ data p, g.admin.data = some data ∧ (voter ∈ g.admin.getSigners ∨ data.admin = voter) ∧
      g.proposal = some p ∧ p.status = .pending ∧ voter ∉ p.cancellationVotes ∧
      g' = { g with proposal := some { p with
        cancellationVotes := insert voter p.cancellationVotes
        status := if cancellationThreshold g.admin.getSigners.card ≤
            (insert voter p.cancellationVotes).card then .cancelled else p.status } } := by
  simp only [voteCancelGovernanceProposal, AdminStore.getData, bind_eq_ok, okOr_eq_ok, failIf_eq_ok,
    loadPending_eq_ok, pure_eq_ok, not_and_or, not_not] at h
  obtain ⟨_, _, data, hdata, _, hmember, _, _, _, _, p, ⟨hproposal, _, hstatus⟩, _, hnew, rfl⟩ := h
  exact ⟨data, p, hdata, hmember, hproposal, hstatus, hnew, rfl⟩

theorem cancelGovernanceProposal_eq_ok
    (h : cancelGovernanceProposal env caller proposalId g = .ok g') :
    ∃ p, g.proposal = some p ∧
      g' = { g with proposal := some { p with status := .cancelled } } := by
  simp only [cancelGovernanceProposal, bind_eq_ok, loadPending_eq_ok, pure_eq_ok] at h
  obtain ⟨_, _, p, ⟨hproposal, _, _⟩, rfl⟩ := h
  exact ⟨p, hproposal, rfl⟩

theorem setSecurityCouncil_eq_ok (h : setSecurityCouncil env caller council g = .ok g') :
    g' = { g with securityCouncil := some council } := by
  simp only [setSecurityCouncil, bind_eq_ok, pure_eq_ok] at h
  obtain ⟨_, _, rfl⟩ := h
  rfl

theorem vetoProposal_eq_ok {reason : String}
    (h : vetoProposal env caller proposalId reason g = .ok g') :
    g.securityCouncil = some caller ∧ env.auth caller = true ∧
      g' = { g with veto := some ⟨proposalId, caller, env.timestamp, reason⟩ } := by
  simp only [vetoProposal, bind_eq_ok, okOr_eq_ok, failIf_eq_ok, Env.requireAuth_eq_ok, pure_eq_ok,
    not_not] at h
  obtain ⟨_, hcouncil, _, rfl, _, hauth, _, _, rfl⟩ := h
  exact ⟨hcouncil, hauth, rfl⟩

theorem setEmergencyOverrideConfig_eq_ok {emergencySigners : List Address} {thresholdBps : ℕ}
    {enabled : Bool}
    (h : setEmergencyOverrideConfig env caller emergencySigners thresholdBps enabled g = .ok g') :
    g' = { g with override := some ⟨emergencySigners, thresholdBps, enabled⟩ } := by
  simp only [setEmergencyOverrideConfig, bind_eq_ok, pure_eq_ok] at h
  obtain ⟨_, _, _, _, _, _, rfl⟩ := h
  rfl

theorem loadForOverride_eq_ok (h : loadForOverride env signer proposalId g = .ok p) :
    signer ∈ g.loadEmergencyOverrideConfig.emergencySigners ∧ g.proposal = some p ∧
      p.proposalId = proposalId ∧ p.IsOpen := by
  simp only [loadForOverride, bind_eq_ok, okOr_eq_ok, failIf_eq_ok, pure_eq_ok, not_not] at h
  obtain ⟨_, _, _, hsigner, _, _, _, hproposal, _, hid, _, hopen, rfl⟩ := h
  exact ⟨hsigner, hproposal, hid, hopen⟩

theorem voteEmergencyOverride_eq_ok (h : voteEmergencyOverride env signer proposalId g = .ok g') :
    ∃ p, signer ∈ g.loadEmergencyOverrideConfig.emergencySigners ∧ g.proposal = some p ∧
      p.proposalId = proposalId ∧ p.IsOpen ∧ g' = { g with
        overrideVotes := g.overrideVotes.insert proposalId
          (insert signer (g.getOverrideVotes proposalId)) } := by
  simp only [voteEmergencyOverride, bind_eq_ok, pure_eq_ok] at h
  obtain ⟨p, hload, _, _, rfl⟩ := h
  obtain ⟨hsigner, hproposal, hid, hopen⟩ := loadForOverride_eq_ok hload
  exact ⟨p, hsigner, hproposal, hid, hopen, rfl⟩

theorem executeEmergencyOverride_eq_ok {r : EmergencyOverrideResult}
    (h : executeEmergencyOverride env signer proposalId g = .ok (r, g')) :
    ∃ p, g.proposal = some p ∧ p.proposalId = proposalId ∧ p.IsOpen ∧
      g.loadEmergencyOverrideConfig.thresholdBps ≤
        weightAchievedBps (g.getOverrideVotes proposalId).card
          g.loadEmergencyOverrideConfig.emergencySigners.length ∧
      g' = { g with proposal := none, overrideVotes := g.overrideVotes.erase proposalId } := by
  simp only [executeEmergencyOverride, bind_eq_ok, failIf_eq_ok, pure_eq_ok, Prod.mk.injEq,
    not_lt] at h
  obtain ⟨p, hload, _, _, _, hle, _, _, _, rfl⟩ := h
  obtain ⟨_, hproposal, hid, hopen⟩ := loadForOverride_eq_ok hload
  exact ⟨p, hproposal, hid, hopen, hle, rfl⟩

end Proposals

end StellarFlow.Governance
