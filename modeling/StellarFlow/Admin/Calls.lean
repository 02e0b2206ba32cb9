import StellarFlow.Admin.Upgrade
import StellarFlow.Admin.Emergency
import StellarFlow.Admin.Handover

/-!
# The calls of the administration

All operations on the administration in one type, with whoever signs them and whether they
note the time as activity of the admin.
-/
namespace StellarFlow.Admin

open Foundation

def recoveryInactivityThresholdSeconds : ℕ := 15552000

variable {here : Address} (env : Env here)

def setRecoveryKey (caller recoveryKey : Address) (s : AdminStore) : Except Fault AdminStore := do
  let _ ← requireAdmin env caller s
  pure { s with recoveryKey := some recoveryKey }

def getLastAdminActivity (s : AdminStore) : ℕ := s.lastAdminActivity.getD 0

def IsRecoveryAvailable (s : AdminStore) : Prop :=
  recoveryInactivityThresholdSeconds ≤ env.timestamp - getLastAdminActivity s

instance (s : AdminStore) : Decidable (IsRecoveryAvailable env s) :=
  inferInstanceAs (Decidable (_ ≤ _))

/-- The recovery key becomes the admin. -/
def recoverAdmin (recoveryKey : Address) (s : AdminStore) : Except Fault AdminStore := do
  let storedKey ← okOr s.recoveryKey (Fault.error .recoveryKeyNotConfigured)
  failIf (recoveryKey ≠ storedKey) (Fault.error .notRecoveryKey)
  env.requireAuth recoveryKey
  failIf (¬ IsRecoveryAvailable env s) (Fault.error .recoveryNotAvailableYet)
  let data ← s.getData
  let s := { s with data := some { data with admin := recoveryKey } }
  pure (s.updateAdminActivity env)

/-- Operations of the admin on other stores. -/
inductive Routine
  | addCorridorFees
  | setCorridorWeight
  | reportIngestionDropout
  | pruneExpiredKeys
  | applyIngestionPenalty
  | updateHeartbeat
  | upsertNodeProfile
  | setStakingTierConfig
  | setAssetFeedMetrics
  | setGovWeightConfig
  | setDynamicFeeConfig
  | setLpRewardPool
  | setSecurityCouncil
  | setEmergencyOverrideConfig
  | cancelGovernanceProposal
  | registerProtectedAsset
  | queueTokenRescue
  | cancelTokenRescue
  | registerPool
  | removePool
  | setRouterConfig
  | proposePoolFeeTierChange
  | cancelPoolFeeTierChange
  | registerZkVerificationKey
  | removeZkVerificationKey
  deriving DecidableEq, Repr

def Routine.records : Routine → Bool
  | .addCorridorFees | .setCorridorWeight | .reportIngestionDropout | .pruneExpiredKeys => true
  | _ => false

/-- What a routine operation does here; `passes` stands for its other checks. -/
def routine (operation : Routine) (admin : Address) (passes : Bool) (s : AdminStore) :
    Except Fault AdminStore := do
  let _ ← requireAdmin env admin s
  failIf (¬ passes) Fault.trap
  pure (if operation.records then s.updateAdminActivity env else s)

/-! ## Calls -/

inductive AdminCall
  | initializeContract (admin : Address)
  | setPaused (caller : Address) (paused : Bool)
  | setValue (newValue : ℕ) (caller : Address) (nonce : ℕ) (salt : Bytes) (signature : Digest)
      (sigExpiresAt : ℕ)
  | setHeartbeatInterval (interval : ℕ) (admin : Address)
  | routine (operation : Routine) (admin : Address) (passes : Bool)
  | upgrade (call : UpgradeCall)
  | emergency (call : EmergencyCall)
  | purgeEmergencyRevocationProposal
  | voteRevocation (voter : Address) (sigExpiresAt : ℕ)
  | rotateAdminKeys (signers newSigners : List Address) (newThreshold : ℕ)
  | handover (call : HandoverCall)
  | setRecoveryKey (caller recoveryKey : Address)
  | recoverAdmin (recoveryKey : Address)

/-- An operation that leaves the upgrade in progress alone. -/
def UpgradeStore.onAdmin (f : AdminStore → Except Fault AdminStore) (u : UpgradeStore) :
    Except Fault UpgradeStore := do
  let admin ← f u.admin
  pure { u with admin }

-- The hash function of the host.
variable (env : UpgradeEnv here) (sha256 : Bytes → Digest)

def AdminCall.exec (call : AdminCall) (u : UpgradeStore) : Except Fault UpgradeStore :=
  match call with
  | .initializeContract admin => u.onAdmin (Admin.initializeContract env.toEnv admin)
  | .setPaused caller paused => u.onAdmin (Admin.setPaused env.toEnv caller paused)
  | .setValue newValue caller nonce salt signature sigExpiresAt =>
    u.onAdmin (Admin.setValue env.toEnv sha256 newValue caller nonce salt signature sigExpiresAt)
  | .setHeartbeatInterval interval admin =>
    u.onAdmin (Admin.setHeartbeatInterval env.toEnv interval admin)
  | .routine operation admin passes => u.onAdmin (Admin.routine env.toEnv operation admin passes)
  | .upgrade call => call.exec env sha256 u
  | .emergency call => u.onAdmin (emergencyStep (env.toEnv, call))
  | .purgeEmergencyRevocationProposal => u.onAdmin Admin.purgeEmergencyRevocationProposal
  | .voteRevocation voter sigExpiresAt =>
    u.onAdmin (Admin.voteRevocation env.toEnv voter sigExpiresAt)
  | .rotateAdminKeys signers newSigners newThreshold =>
    u.onAdmin (Admin.rotateAdminKeys signers newSigners newThreshold)
  | .handover call => u.onAdmin (call.exec env.toEnv)
  | .setRecoveryKey caller recoveryKey =>
    u.onAdmin (Admin.setRecoveryKey env.toEnv caller recoveryKey)
  | .recoverAdmin recoveryKey => u.onAdmin (Admin.recoverAdmin env.toEnv recoveryKey)

def UpgradeCall.actor : UpgradeCall → Option Address
  | .proposeUpgrade _ proposer .. => some proposer
  | .executeUpgrade executor .. => some executor
  | .cancelUpgrade canceller => some canceller
  | .cleanupExpiredProposals => none
  | .registerSigner _ caller => some caller
  | .removeSigner _ caller => some caller

/-- Whoever signs the call. -/
def AdminCall.actor : AdminCall → Option Address
  | .initializeContract admin => some admin
  | .setPaused caller _ => some caller
  | .setValue _ caller .. => some caller
  | .setHeartbeatInterval _ admin => some admin
  | .routine _ admin _ => some admin
  | .upgrade call => call.actor
  | .emergency call => some call.caller
  | .purgeEmergencyRevocationProposal => none
  | .voteRevocation voter _ => some voter
  | .rotateAdminKeys .. => none
  | .handover call => some call.actor
  | .setRecoveryKey caller _ => some caller
  | .recoverAdmin recoveryKey => some recoveryKey

/-- The call is signed by the admin, for an initialisation by the admin to be. -/
def AdminCall.byAdmin (call : AdminCall) (s : AdminStore) : Bool :=
  match call with
  | .initializeContract _ => true
  | call => call.actor.any fun a => decide (s.IsAdmin a)

/-- The call notes the time as activity of the admin. -/
def AdminCall.records : AdminCall → Bool
  | .routine operation _ _ => operation.records
  | .handover (.executeAdminChangeByTimelock _) => true
  | .handover (.cancelAdminChange _) => true
  | .recoverAdmin _ => true
  | _ => false

/-- The target of an emergency call and its replacement. -/
def EmergencyCall.order (env : Env here) (call : EmergencyCall) (s : AdminStore) :
    Option (Address × Address) :=
  match call with
  | .propose _ target replacement => some (target, replacement)
  | .vote .. => (openProposal env s).map fun proposal => (proposal.target, proposal.replacement)

/-- The registered signers after an upgrade call. -/
def UpgradeCall.committee (call : UpgradeCall) (s : AdminStore) : Finset Address :=
  match call with
  | .registerSigner signer _ => insert signer s.getSigners
  | .removeSigner signer _ => s.getSigners.erase signer
  | _ => s.getSigners

section Calls

variable {here : Address} {env : UpgradeEnv here} {sha256 : Bytes → Digest} {s s' : AdminStore}
  {u u' : UpgradeStore} {admin caller recoveryKey : Address}

@[simp] theorem UpgradeStore.onAdmin_eq_ok {f : AdminStore → Except Fault AdminStore} :
    u.onAdmin f = .ok u' ↔ ∃ admin, f u.admin = .ok admin ∧ u' = { u with admin } := by
  simp only [UpgradeStore.onAdmin, bind_eq_ok, pure_eq_ok]
  exact exists_congr fun _ => and_congr_right fun _ => eq_comm

theorem setRecoveryKey_eq_ok (h : setRecoveryKey env.toEnv caller recoveryKey s = .ok s') :
    s.IsAdmin caller ∧ env.auth caller = true ∧
      s' = { s with recoveryKey := some recoveryKey } := by
  simp only [setRecoveryKey, bind_eq_ok, requireAdmin_eq_ok, pure_eq_ok] at h
  obtain ⟨data, ⟨hdata, hadmin, hauth⟩, rfl⟩ := h
  exact ⟨⟨data, hdata, hadmin⟩, hauth, rfl⟩

theorem recoverAdmin_eq_ok (h : recoverAdmin env.toEnv recoveryKey s = .ok s') :
    ∃ data, s.data = some data ∧ s.recoveryKey = some recoveryKey ∧
      env.auth recoveryKey = true ∧ IsRecoveryAvailable env.toEnv s ∧ s' = { s with
        data := some { data with admin := recoveryKey },
        lastAdminActivity := some env.timestamp } := by
  simp only [recoverAdmin, AdminStore.getData, bind_eq_ok, okOr_eq_ok, failIf_eq_ok,
    Env.requireAuth_eq_ok, pure_eq_ok, not_not] at h
  obtain ⟨_, hkey, _, rfl, _, hauth, _, havailable, data, hdata, rfl⟩ := h
  exact ⟨data, hdata, hkey, hauth, havailable, rfl⟩

theorem routine_eq_ok {operation : Routine} {passes : Bool}
    (h : routine env.toEnv operation admin passes s = .ok s') :
    s.IsAdmin admin ∧ env.auth admin = true ∧
      s' = if operation.records then s.updateAdminActivity env.toEnv else s := by
  simp only [routine, bind_eq_ok, requireAdmin_eq_ok, pure_eq_ok] at h
  obtain ⟨data, ⟨hdata, hadmin, hauth⟩, _, _, rfl⟩ := h
  exact ⟨⟨data, hdata, hadmin⟩, hauth, rfl⟩

theorem purgeEmergencyRevocationProposal_eq_ok
    (h : purgeEmergencyRevocationProposal s = .ok s') : s' = { s with emergency := none } := by
  simp only [purgeEmergencyRevocationProposal, bind_eq_ok, pure_eq_ok] at h
  obtain ⟨_, _, rfl⟩ := h
  rfl

/-- A tally that does not trap finds no set of signers, and then a single vote decides. -/
theorem tallyEmergency_eq_ok {data : ContractData} {proposal : EmergencyRevocationProposal}
    {ttl : ℕ}
    (hvotes : proposal.votes ≠ []) (h : tallyEmergency env.toEnv data proposal ttl s = .ok s') :
    s.signers = none ∧ s' = executeEmergencyRevocation data proposal s := by
  have hlength : 0 < proposal.votes.length := List.length_pos_of_ne_nil hvotes
  unfold tallyEmergency revocationThreshold at h
  cases hsigners : s.signers with
  | some signers =>
    rw [hsigners] at h
    cases h
  | none =>
    rw [hsigners] at h
    simp only [majority, if_true, bind_eq_ok, pure_eq_ok] at h
    obtain ⟨_, rfl, h⟩ := h
    rw [if_pos (Nat.succ_le_of_lt hlength)] at h
    exact ⟨rfl, (pure_eq_ok.mp h).symm⟩

/-- An accepted emergency call revokes its target at once. -/
theorem emergencyStep_eq_ok {call : EmergencyCall}
    (h : emergencyStep (env.toEnv, call) s = .ok s') :
    s.signers = none ∧ ∃ data proposal, s.data = some data ∧
      call.order env.toEnv s = some (proposal.target, proposal.replacement) ∧
      s' = executeEmergencyRevocation data proposal s := by
  cases call with
  | propose proposer target replacement =>
    simp only [emergencyStep, proposeEmergencyRevocation, AdminStore.getData, bind_eq_ok,
      okOr_eq_ok] at h
    obtain ⟨_, _, _, _, data, hdata, _, _, _, _, _, _, _, _, _, _, h⟩ := h
    obtain ⟨hsigners, rfl⟩ := tallyEmergency_eq_ok (List.cons_ne_nil _ _) h
    exact ⟨hsigners, data, _, hdata, rfl, rfl⟩
  | vote voter sigExpiresAt =>
    simp only [emergencyStep, voteEmergencyRevocation, AdminStore.getData, bind_eq_ok,
      okOr_eq_ok] at h
    obtain ⟨_, _, _, _, data, hdata, _, _, proposal, hproposal, _, _, _, _, h⟩ := h
    obtain ⟨hsigners, rfl⟩ := tallyEmergency_eq_ok (List.append_ne_nil_of_right_ne_nil _
      (List.cons_ne_nil _ _)) h
    refine ⟨hsigners, data, _, hdata, ?_, rfl⟩
    rw [EmergencyCall.order, hproposal, Option.map_some]

theorem upgradeCall_eq_ok {call : UpgradeCall} (h : call.exec env sha256 u = .ok u') :
    ∃ nonces signers, u'.admin = { u.admin with nonces, signers } ∧
      signers.getD ∅ = call.committee u.admin := by
  cases call with
  | proposeUpgrade newWasmHash proposer signers nonce salt saltSignature sigExpiresAt =>
    simp only [UpgradeCall.exec, proposeUpgrade, bind_eq_ok, pure_eq_ok] at h
    obtain ⟨_, _, _, _, _, _, _, hnonce, _, _, _, _, _, _, rfl⟩ := h
    obtain ⟨nonces, rfl⟩ := consumeNonce_eq_ok hnonce
    exact ⟨nonces, _, rfl, rfl⟩
  | executeUpgrade executor nonce salt signature sigExpiresAt =>
    simp only [UpgradeCall.exec, executeUpgrade, bind_eq_ok, pure_eq_ok] at h
    obtain ⟨_, _, _, _, _, hnonce, _, _, _, _, _, _, rfl⟩ := h
    obtain ⟨nonces, rfl⟩ := consumeNonce_eq_ok hnonce
    exact ⟨nonces, _, rfl, rfl⟩
  | cancelUpgrade canceller =>
    simp only [UpgradeCall.exec, cancelUpgrade, bind_eq_ok, pure_eq_ok] at h
    obtain ⟨_, _, rfl⟩ := h
    exact ⟨_, _, rfl, rfl⟩
  | cleanupExpiredProposals =>
    obtain ⟨r, h⟩ := snd_map_eq_ok.mp h
    unfold cleanupExpiredProposals at h
    refine ⟨u.admin.nonces, u.admin.signers, ?_, rfl⟩
    split at h
    · obtain ⟨_, rfl⟩ := Prod.mk.inj (pure_eq_ok.mp h)
      rfl
    · split_ifs at h
      · obtain ⟨_, rfl⟩ := Prod.mk.inj (pure_eq_ok.mp h)
        rfl
      · obtain ⟨_, rfl⟩ := Prod.mk.inj (pure_eq_ok.mp h)
        rfl
  | registerSigner signer caller =>
    simp only [UpgradeCall.exec, bind_eq_ok, pure_eq_ok] at h
    obtain ⟨_, hregister, rfl⟩ := h
    obtain ⟨_, _, _, ⟨hin, rfl⟩ | rfl⟩ := registerSigner_eq_ok hregister
    · exact ⟨_, _, rfl, (Finset.insert_eq_of_mem hin).symm⟩
    · exact ⟨_, _, rfl, rfl⟩
  | removeSigner signer caller =>
    simp only [UpgradeCall.exec, bind_eq_ok, pure_eq_ok] at h
    obtain ⟨_, hremove, rfl⟩ := h
    obtain ⟨_, _, rfl⟩ := removeSigner_eq_ok hremove
    exact ⟨_, _, rfl, rfl⟩

end Calls

end StellarFlow.Admin
