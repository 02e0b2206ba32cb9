import StellarFlow.Host

/-!
# The administration in instance storage

The contract data name the admin. Next to them stand two registers of signers that no entry
point keeps in step, the set under one key that the governance functions read and the entries
per address that the emergency procedure reads, and the records of the hand-over, revocation
and recovery procedures. A read of the set as a number traps, since the stored value has
another type.
-/
namespace StellarFlow.Admin

open Foundation

abbrev Bytes := List UInt8
abbrev Digest := Vector UInt8 32

/-! ## Records -/

structure ContractData where
  admin : Address
  value : ℕ
  maxFeeCeiling : ℕ
  deriving DecidableEq, Repr

structure GovernanceConfig where
  quorumThreshold : ℕ
  deriving DecidableEq, Repr

def GovernanceConfig.default : GovernanceConfig := ⟨2⟩

structure MultiSigConfig where
  requiredWeight : ℕ
  maxSignerWeight : ℕ
  deriving DecidableEq, Repr

def MultiSigConfig.default : MultiSigConfig := ⟨1, 1⟩

structure StagingConfig where
  active : Bool
  testers : List Address
  deriving DecidableEq, Repr

structure NonceState where
  nonce : ℕ
  saltSignature : Digest
  deriving DecidableEq

def NonceState.zero : NonceState := ⟨0, Vector.replicate 32 0⟩

structure PendingOwner where
  nominee : Address
  proposedBy : Address
  deriving DecidableEq, Repr

structure AdminChangeProposal where
  newAdmin : Address
  proposer : Address
  proposedAt : ℕ
  deriving DecidableEq, Repr

structure EmergencyRevocationProposal where
  target : Address
  replacement : Address
  proposer : Address
  proposedAt : ℕ
  votes : List Address
  deriving DecidableEq, Repr

structure RevocationProposal where
  target : Address
  replacement : Address
  proposer : Address
  proposedAt : ℕ
  votes : Finset Address
  deriving DecidableEq

/-- A temporary entry is gone after its last ledger. -/
structure Temporary (α : Type) where
  value : α
  liveUntil : ℕ
  deriving DecidableEq, Repr

/-- What the admin operations keep in storage. -/
structure AdminStore where
  data : Option ContractData
  /-- The set under `SIGNERS`, absent until it is first written. -/
  signers : Option (Finset Address)
  /-- The entries `SignerByAddress`. -/
  signerKeys : Finset Address
  revoked : Finset Address
  weights : Store Address ℕ
  governance : Option GovernanceConfig
  multisig : Option MultiSigConfig
  staging : Option StagingConfig
  nonces : Store Address NonceState
  paused : Bool
  heartbeatInterval : Option ℕ
  pendingOwner : Option PendingOwner
  pendingAdmin : Option AdminChangeProposal
  emergency : Option (Temporary EmergencyRevocationProposal)
  revocation : Option RevocationProposal
  recoveryKey : Option Address
  lastAdminActivity : Option ℕ

namespace AdminStore

/-- The storage of a contract just deployed. -/
def empty : AdminStore where
  data := none
  signers := none
  signerKeys := ∅
  revoked := ∅
  weights := ∅
  governance := none
  multisig := none
  staging := none
  nonces := ∅
  paused := false
  heartbeatInterval := none
  pendingOwner := none
  pendingAdmin := none
  emergency := none
  revocation := none
  recoveryKey := none
  lastAdminActivity := none

/-- The storage after `initialize`. -/
def initialized (admin : Address) : AdminStore :=
  { empty with data := some ⟨admin, 0, 10000⟩ }

variable (s : AdminStore)

def getData : Except Fault ContractData := okOr s.data (Fault.error .notInitialized)

/-- The registered signers, none while the set is absent. -/
def getSigners : Finset Address := s.signers.getD ∅

def getGovernanceConfig : GovernanceConfig := s.governance.getD .default

def getMultisigConfig : MultiSigConfig := s.multisig.getD .default

def getStagingConfig : StagingConfig := s.staging.getD ⟨false, []⟩

/-- The admin is the given address. -/
def IsAdmin (a : Address) : Prop := ∃ data, s.data = some data ∧ data.admin = a

instance (a : Address) : Decidable (s.IsAdmin a) :=
  match h : s.data with
  | none => .isFalse fun ⟨_, hdata, _⟩ => by simp [h] at hdata
  | some data => decidable_of_iff (data.admin = a) (by simp [IsAdmin, h])

variable {s}

theorem isAdmin_iff {data : ContractData} (h : s.data = some data) (a : Address) :
    s.IsAdmin a ↔ data.admin = a := by
  simp [IsAdmin, h]

end AdminStore

/-! ## Checks -/

def assertNotRevoked (a : Address) (s : AdminStore) : Except Fault Unit :=
  failIf (a ∈ s.revoked) (Fault.error .revokedAddress)

def checkStagingAccess (caller : Address) (s : AdminStore) : Except Fault Unit :=
  let config := s.getStagingConfig
  if config.active then do
    let data ← s.getData
    failIf (data.admin ≠ caller ∧ caller ∉ config.testers) (Fault.error .stagingNotAuthorized)
  else pure ()

variable {here : Address} (env : Env here)

/-- The data of the contract, for the admin only. -/
def requireAdmin (caller : Address) (s : AdminStore) : Except Fault ContractData := do
  let data ← s.getData
  failIf (data.admin ≠ caller) (Fault.error .notAdmin)
  env.requireAuth caller
  pure data

/-- A signature must not have expired. -/
def checkSignatureTime (sigExpiresAt : ℕ) : Except Fault Unit :=
  failIf (sigExpiresAt < env.timestamp) (Fault.error .signatureExpired)

/-- The bytes of a 64-bit number, the most significant first. -/
def toBeBytes (n : ℕ) : Bytes := (List.range 8).map fun k => UInt8.ofNat (n / 256 ^ (7 - k))

-- The hash function of the host.
variable (sha256 : Bytes → Digest)

def deriveSaltSignature (nonce : ℕ) (salt : Bytes) : Digest := sha256 (toBeBytes nonce ++ salt)

def consumeNonce (coordinator : Address) (incomingNonce : ℕ) (salt : Bytes)
    (saltSignature : Digest) (s : AdminStore) : Except Fault AdminStore := do
  let state := (s.nonces.lookup coordinator).getD .zero
  failIf (incomingNonce ≠ state.nonce) (Fault.error .invalidNonce)
  failIf (saltSignature ≠ deriveSaltSignature sha256 incomingNonce salt)
    (Fault.error .invalidSaltSignature)
  let nonce ← okOr (checkBits 64 (state.nonce + 1)) Fault.trap
  pure { s with nonces := s.nonces.insert coordinator ⟨nonce, saltSignature⟩ }

/-! ## Initialisation and settings -/

def initializeContract (admin : Address) (s : AdminStore) : Except Fault AdminStore := do
  failIf (s.data.isSome) (Fault.error .alreadyInitialized)
  env.requireAuth admin
  pure { s with data := some ⟨admin, 0, 10000⟩ }

def setPaused (caller : Address) (paused : Bool) (s : AdminStore) : Except Fault AdminStore := do
  let _ ← requireAdmin env caller s
  pure { s with paused }

def setValue (newValue : ℕ) (caller : Address) (nonce : ℕ) (salt : Bytes) (signature : Digest)
    (sigExpiresAt : ℕ) (s : AdminStore) : Except Fault AdminStore := do
  checkSignatureTime env sigExpiresAt
  let data ← requireAdmin env caller s
  let s ← consumeNonce sha256 caller nonce salt signature s
  pure { s with data := some { data with value := newValue } }

def setHeartbeatInterval (interval : ℕ) (admin : Address) (s : AdminStore) :
    Except Fault AdminStore := do
  failIf (interval = 0) (Fault.error .invalidHeartbeatInterval)
  let _ ← requireAdmin env admin s
  pure { s with heartbeatInterval := some interval }

/-! ## Registered signers -/

def registerSigner (signer caller : Address) (s : AdminStore) : Except Fault AdminStore := do
  assertNotRevoked caller s
  let _ ← requireAdmin env caller s
  if signer ∈ s.getSigners then pure s
  else pure { s with signers := some (insert signer s.getSigners) }

def assertContractIsActive (s : AdminStore) : Except Fault Unit := do
  failIf (s.data.isNone) (Fault.error .notInitialized)
  failIf s.paused (Fault.error .contractPaused)

def removeSigner (signer caller : Address) (s : AdminStore) : Except Fault AdminStore := do
  assertContractIsActive s
  let _ ← requireAdmin env caller s
  pure { s with signers := some (s.getSigners.erase signer) }

/-- The votes that revoke the admin or change a fee tier, a majority of the signers. -/
def majority (signerCount : ℕ) : ℕ := if signerCount = 0 then 1 else signerCount / 2 + 1

def voteRevocation (voter : Address) (sigExpiresAt : ℕ) (s : AdminStore) :
    Except Fault AdminStore := do
  checkSignatureTime env sigExpiresAt
  assertNotRevoked voter s
  env.requireAuth voter
  let data ← s.getData
  failIf (voter ∉ s.getSigners ∧ data.admin ≠ voter) (Fault.error .unauthorized)
  let proposal ← okOr s.revocation (Fault.error .noActiveProposal)
  failIf (voter ∈ proposal.votes) (Fault.error .alreadyVoted)
  let votes := insert voter proposal.votes
  if majority s.getSigners.card ≤ votes.card then
    pure { s with data := some { data with admin := proposal.replacement }, revocation := none }
  else pure { s with revocation := some { proposal with votes } }

section Checks

variable {here : Address} {env : Env here} {sha256 : Bytes → Digest} {s s' : AdminStore}
  {a caller admin signer voter : Address} {data : ContractData}

@[simp] theorem assertNotRevoked_eq_ok {u : Unit} :
    assertNotRevoked a s = .ok u ↔ a ∉ s.revoked := by
  simp [assertNotRevoked]

@[simp] theorem requireAdmin_eq_ok :
    requireAdmin env caller s = .ok data ↔
      s.data = some data ∧ data.admin = caller ∧ env.auth caller = true := by
  simp only [requireAdmin, AdminStore.getData, bind_eq_ok, okOr_eq_ok, failIf_eq_ok,
    Env.requireAuth_eq_ok, pure_eq_ok, not_not]
  constructor
  · rintro ⟨_, hdata, _, hadmin, _, hauth, rfl⟩
    exact ⟨hdata, hadmin, hauth⟩
  · rintro ⟨hdata, hadmin, hauth⟩
    exact ⟨data, hdata, (), hadmin, (), hauth, rfl⟩

@[simp] theorem checkSignatureTime_eq_ok {sigExpiresAt : ℕ} {u : Unit} :
    checkSignatureTime env sigExpiresAt = .ok u ↔ env.timestamp ≤ sigExpiresAt := by
  simp [checkSignatureTime]

theorem consumeNonce_eq_ok {nonce : ℕ} {salt : Bytes} {signature : Digest}
    (h : consumeNonce sha256 a nonce salt signature s = .ok s') :
    ∃ nonces, s' = { s with nonces } := by
  simp only [consumeNonce, bind_eq_ok, pure_eq_ok] at h
  obtain ⟨_, _, _, _, _, _, rfl⟩ := h
  exact ⟨_, rfl⟩

theorem initializeContract_eq_ok (h : initializeContract env admin s = .ok s') :
    s.data = none ∧ env.auth admin = true ∧ s' = { s with data := some ⟨admin, 0, 10000⟩ } := by
  simp only [initializeContract, bind_eq_ok, failIf_eq_ok, Env.requireAuth_eq_ok, pure_eq_ok,
    Bool.not_eq_true, Option.isSome_eq_false_iff, Option.isNone_iff_eq_none] at h
  obtain ⟨_, hnone, _, hauth, rfl⟩ := h
  exact ⟨hnone, hauth, rfl⟩

theorem setPaused_eq_ok {paused : Bool} (h : setPaused env caller paused s = .ok s') :
    s.IsAdmin caller ∧ env.auth caller = true ∧ s' = { s with paused } := by
  simp only [setPaused, bind_eq_ok, requireAdmin_eq_ok, pure_eq_ok] at h
  obtain ⟨data, ⟨hdata, hadmin, hauth⟩, rfl⟩ := h
  exact ⟨⟨data, hdata, hadmin⟩, hauth, rfl⟩

theorem setValue_eq_ok {newValue nonce sigExpiresAt : ℕ} {salt : Bytes} {signature : Digest}
    (h : setValue env sha256 newValue caller nonce salt signature sigExpiresAt s = .ok s') :
    ∃ data nonces, s.data = some data ∧ data.admin = caller ∧ env.auth caller = true ∧
      s' = { s with data := some { data with value := newValue }, nonces } := by
  simp only [setValue, bind_eq_ok, requireAdmin_eq_ok, pure_eq_ok] at h
  obtain ⟨_, _, data, ⟨hdata, hadmin, hauth⟩, s₁, hnonce, rfl⟩ := h
  obtain ⟨nonces, rfl⟩ := consumeNonce_eq_ok hnonce
  exact ⟨data, nonces, hdata, hadmin, hauth, rfl⟩

theorem setHeartbeatInterval_eq_ok {interval : ℕ}
    (h : setHeartbeatInterval env interval admin s = .ok s') :
    s.IsAdmin admin ∧ env.auth admin = true ∧
      s' = { s with heartbeatInterval := some interval } := by
  simp only [setHeartbeatInterval, bind_eq_ok, requireAdmin_eq_ok, pure_eq_ok] at h
  obtain ⟨_, _, data, ⟨hdata, hadmin, hauth⟩, rfl⟩ := h
  exact ⟨⟨data, hdata, hadmin⟩, hauth, rfl⟩

theorem registerSigner_eq_ok (h : registerSigner env signer caller s = .ok s') :
    caller ∉ s.revoked ∧ s.IsAdmin caller ∧ env.auth caller = true ∧
      (signer ∈ s.getSigners ∧ s' = s ∨
        s' = { s with signers := some (insert signer s.getSigners) }) := by
  simp only [registerSigner, bind_eq_ok, assertNotRevoked_eq_ok, requireAdmin_eq_ok] at h
  obtain ⟨_, hrevoked, data, ⟨hdata, hadmin, hauth⟩, h⟩ := h
  refine ⟨hrevoked, ⟨data, hdata, hadmin⟩, hauth, ?_⟩
  split_ifs at h with hin
  · exact .inl ⟨hin, (pure_eq_ok.mp h).symm⟩
  · exact .inr (pure_eq_ok.mp h).symm

theorem removeSigner_eq_ok (h : removeSigner env signer caller s = .ok s') :
    s.IsAdmin caller ∧ env.auth caller = true ∧
      s' = { s with signers := some (s.getSigners.erase signer) } := by
  simp only [removeSigner, bind_eq_ok, requireAdmin_eq_ok, pure_eq_ok] at h
  obtain ⟨_, _, data, ⟨hdata, hadmin, hauth⟩, rfl⟩ := h
  exact ⟨⟨data, hdata, hadmin⟩, hauth, rfl⟩

/-- A vote either completes the majority and replaces the admin, or it is counted. -/
theorem voteRevocation_eq_ok {sigExpiresAt : ℕ}
    (h : voteRevocation env voter sigExpiresAt s = .ok s') :
    ∃ data proposal, s.data = some data ∧ s.revocation = some proposal ∧
      voter ∉ s.revoked ∧ env.auth voter = true ∧ (voter ∈ s.getSigners ∨ data.admin = voter) ∧
      voter ∉ proposal.votes ∧
      (majority s.getSigners.card ≤ (insert voter proposal.votes).card ∧ s' = { s with
          data := some { data with admin := proposal.replacement }, revocation := none } ∨
        (insert voter proposal.votes).card < majority s.getSigners.card ∧ s' = { s with
          revocation := some { proposal with votes := insert voter proposal.votes } }) := by
  simp only [voteRevocation, AdminStore.getData, bind_eq_ok, assertNotRevoked_eq_ok, okOr_eq_ok,
    Env.requireAuth_eq_ok, failIf_eq_ok, not_and_or, not_not] at h
  obtain ⟨_, _, _, hrevoked, _, hauth, data, hdata, _, hmember, proposal, hproposal, _, hnew,
    h⟩ := h
  refine ⟨data, proposal, hdata, hproposal, hrevoked, hauth, hmember, hnew, ?_⟩
  split_ifs at h with hle
  · exact .inl ⟨hle, (pure_eq_ok.mp h).symm⟩
  · exact .inr ⟨not_le.mp hle, (pure_eq_ok.mp h).symm⟩

end Checks

end StellarFlow.Admin
