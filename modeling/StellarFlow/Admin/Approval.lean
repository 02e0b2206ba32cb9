import StellarFlow.Admin.Upgrade

/-!
# Approvals that nobody signed

Staging an upgrade, rotating keys or validators and setting a fee tier or the treasury all take
the list of approving signers from the caller and weigh it. Only the staging demands an
authorisation at all, that of the admin. The addresses that did sign are therefore a quorum
only under a configuration that the admin alone, or nobody, meets.
-/
namespace StellarFlow.Admin

open Foundation

structure FeeTierConfig where
  feeTierBps : ℕ
  lowFeeTierBps : ℕ
  mediumFeeTierBps : ℕ
  highFeeTierBps : ℕ
  deriving DecidableEq, Repr

def FeeTierConfig.default : FeeTierConfig := ⟨30, 5, 30, 100⟩

/-- The storage that a quorum of signers governs. -/
structure QuorumStore where
  upgrade : UpgradeStore
  validators : Finset Digest
  validatorSequence : ℕ
  feeTier : Option FeeTierConfig
  treasury : Option Address

namespace QuorumStore

variable (q : QuorumStore)

abbrev admin : AdminStore := q.upgrade.admin

def getFeeTierConfig : FeeTierConfig := q.feeTier.getD .default

end QuorumStore

def rotateValidators (signers : List Address) (newValidators : List Digest) (q : QuorumStore) :
    Except Fault (ℕ × QuorumStore) := do
  verifyUpgradeQuorum signers q.admin
  let sequence ← okOr (checkBits 64 (q.validatorSequence + 1)) (Fault.error .overflow)
  pure (sequence, { q with
    validators := newValidators.toFinset, validatorSequence := sequence })

def setFeeTier (signers : List Address) (newFeeTierBps : ℕ) (q : QuorumStore) :
    Except Fault QuorumStore := do
  verifyUpgradeQuorum signers q.admin
  let config := q.getFeeTierConfig
  failIf (newFeeTierBps ≠ config.lowFeeTierBps ∧ newFeeTierBps ≠ config.mediumFeeTierBps ∧
    newFeeTierBps ≠ config.highFeeTierBps) (Fault.error .invalidThreshold)
  pure { q with feeTier := some { config with feeTierBps := newFeeTierBps } }

def setTreasuryVault (signers : List Address) (vault : Address) (q : QuorumStore) :
    Except Fault QuorumStore := do
  verifyUpgradeQuorum signers q.admin
  pure { q with treasury := some vault }

/-- The calls that a quorum approves. -/
inductive QuorumCall
  | proposeUpgrade (newWasmHash : Digest) (proposer : Address) (signers : List Address)
      (nonce : ℕ) (salt : Bytes) (saltSignature : Digest) (sigExpiresAt : ℕ)
  | rotateAdminKeys (signers newSigners : List Address) (newThreshold : ℕ)
  | rotateValidators (signers : List Address) (newValidators : List Digest)
  | setFeeTier (signers : List Address) (newFeeTierBps : ℕ)
  | setTreasuryVault (signers : List Address) (vault : Address)

-- The hash function of the host.
variable {here : Address} (env : UpgradeEnv here) (sha256 : Bytes → Digest)

def QuorumCall.exec (call : QuorumCall) (q : QuorumStore) : Except Fault QuorumStore :=
  match call with
  | .proposeUpgrade newWasmHash proposer signers nonce salt saltSignature sigExpiresAt => do
    let upgrade ← Admin.proposeUpgrade env sha256 newWasmHash proposer signers nonce salt
      saltSignature sigExpiresAt q.upgrade
    pure { q with upgrade }
  | .rotateAdminKeys signers newSigners newThreshold => do
    let admin ← Admin.rotateAdminKeys signers newSigners newThreshold q.admin
    pure { q with upgrade := { q.upgrade with admin } }
  | .rotateValidators signers newValidators =>
    Prod.snd <$> Admin.rotateValidators signers newValidators q
  | .setFeeTier signers newFeeTierBps => Admin.setFeeTier signers newFeeTierBps q
  | .setTreasuryVault signers vault => Admin.setTreasuryVault signers vault q

/-- The addresses whose authorisation the call demands. -/
def QuorumCall.demanded : QuorumCall → Finset Address
  | .proposeUpgrade _ proposer .. => {proposer}
  | _ => ∅

/-- An accepted call demanded the authorisation of a quorum. -/
def QuorumAuthenticated (call : QuorumCall) (q : QuorumStore) : Prop :=
  ∀ q', call.exec env sha256 q = .ok q' →
    ∃ data, q.admin.data = some data ∧ q.admin.MeetsQuorum data call.demanded

/-- The configured count and weight are met by the admin alone where the call demands its
authorisation, and by nobody elsewhere. -/
def QuorumWithoutSigners (call : QuorumCall) (q : QuorumStore) : Prop :=
  match call with
  | .proposeUpgrade _ proposer .. =>
    q.admin.getGovernanceConfig.quorumThreshold ≤ 1 ∧
      q.admin.getMultisigConfig.requiredWeight ≤ max (q.admin.getSignerWeight proposer) 1
  | _ =>
    q.admin.getGovernanceConfig.quorumThreshold = 0 ∧
      q.admin.getMultisigConfig.requiredWeight = 0

section Approval

variable {here : Address} {env : UpgradeEnv here} {sha256 : Bytes → Digest} {q q' : QuorumStore}
  {s : AdminStore} {call : QuorumCall} {data : ContractData} {signers : List Address}

theorem AdminStore.meetsQuorum_empty_iff :
    s.MeetsQuorum data ∅ ↔
      s.getGovernanceConfig.quorumThreshold = 0 ∧ s.getMultisigConfig.requiredWeight = 0 := by
  simp only [AdminStore.MeetsQuorum, AdminStore.approvals, Tally.of_empty, Tally.empty,
    Nat.le_zero]

theorem AdminStore.meetsQuorum_admin_iff :
    s.MeetsQuorum data {data.admin} ↔
      s.getGovernanceConfig.quorumThreshold ≤ 1 ∧
        s.getMultisigConfig.requiredWeight ≤ max (s.getSignerWeight data.admin) 1 := by
  have hadmin : s.IsAuthorized data data.admin := .inl rfl
  obtain ⟨hcount, hweight⟩ := AdminStore.approvals_singleton hadmin
  rw [AdminStore.MeetsQuorum, hcount, hweight, AdminStore.approvalWeight, if_pos rfl]

/-- The calls other than a staging are accepted only with a quorum on the list. -/
theorem exec_verified (hcall : call.demanded = ∅) (h : call.exec env sha256 q = .ok q') :
    ∃ signers, verifyUpgradeQuorum signers q.admin = .ok () := by
  cases call with
  | proposeUpgrade => simp [QuorumCall.demanded] at hcall
  | rotateAdminKeys signers newSigners newThreshold =>
    simp only [QuorumCall.exec, rotateAdminKeys, bind_eq_ok] at h
    obtain ⟨_, ⟨_, hverify, _⟩, _⟩ := h
    exact ⟨signers, hverify⟩
  | rotateValidators signers newValidators =>
    obtain ⟨r, h⟩ := snd_map_eq_ok.mp h
    simp only [rotateValidators, bind_eq_ok] at h
    obtain ⟨_, hverify, _⟩ := h
    exact ⟨signers, hverify⟩
  | setFeeTier signers newFeeTierBps =>
    simp only [QuorumCall.exec, setFeeTier, bind_eq_ok] at h
    obtain ⟨_, hverify, _⟩ := h
    exact ⟨signers, hverify⟩
  | setTreasuryVault signers vault =>
    simp only [QuorumCall.exec, setTreasuryVault, bind_eq_ok] at h
    obtain ⟨_, hverify, _⟩ := h
    exact ⟨signers, hverify⟩

/-- An accepted call carries the demanded authorisations, and it needs no other: with these
alone it has the same effect. -/
theorem exec_demanded (h : call.exec env sha256 q = .ok q') :
    (∀ a ∈ call.demanded, env.auth a = true) ∧
      ∀ (auth : Address → Bool) (hauth : auth here = false), (∀ a ∈ call.demanded, auth a = true) →
        call.exec { env with auth, here_auth := hauth } sha256 q = .ok q' := by
  cases call with
  | proposeUpgrade newWasmHash proposer signers nonce salt saltSignature sigExpiresAt =>
    simp only [QuorumCall.exec, proposeUpgrade, bind_eq_ok, requireAdmin_eq_ok,
      checkSignatureTime_eq_ok, QuorumCall.demanded, Finset.mem_singleton, forall_eq] at h ⊢
    obtain ⟨u, ⟨_, htime, _, hrevoked, data, ⟨hdata, hadmin, hauth⟩, hrest⟩, hq⟩ := h
    exact ⟨hauth, fun auth _ ha =>
      ⟨u, ⟨(), htime, (), hrevoked, data, ⟨hdata, hadmin, ha⟩, hrest⟩, hq⟩⟩
  | _ => exact ⟨fun a ha => absurd ha (Finset.notMem_empty a), fun _ _ _ => h⟩

/-- The authorisations demanded by an accepted call form a quorum exactly when the
configuration asks for no signers besides them. -/
theorem quorumAuthenticated_iff (env : UpgradeEnv here) (sha256 : Bytes → Digest)
    (call : QuorumCall) (q : QuorumStore) :
    QuorumAuthenticated env sha256 call q ↔
      ((∃ q', call.exec env sha256 q = .ok q') → QuorumWithoutSigners call q) := by
  rw [QuorumAuthenticated, forall_exists_index]
  refine forall₂_congr fun q' h => ?_
  cases call with
  | proposeUpgrade newWasmHash proposer signers nonce salt saltSignature sigExpiresAt =>
    simp only [QuorumCall.exec, proposeUpgrade, bind_eq_ok, requireAdmin_eq_ok] at h
    obtain ⟨_, ⟨_, _, _, _, data, ⟨hdata, rfl, _⟩, _⟩, _⟩ := h
    simp only [QuorumCall.demanded, QuorumWithoutSigners, hdata, Option.some.injEq,
      exists_eq_left']
    exact AdminStore.meetsQuorum_admin_iff
  | _ =>
    obtain ⟨signers, hverify⟩ := exec_verified rfl h
    obtain ⟨data, hdata, _⟩ := verifyUpgradeQuorum_eq_ok hverify
    simp only [QuorumCall.demanded, QuorumWithoutSigners, hdata, Option.some.injEq,
      exists_eq_left']
    exact AdminStore.meetsQuorum_empty_iff

/-- An admin and one signer, with the thresholds by default. -/
def twoSigners : QuorumStore :=
  ⟨⟨{ AdminStore.initialized ⟨9⟩ with signers := some {⟨1⟩} }, none, none, none⟩, ∅, 0, none,
    none⟩

/-- A call that nobody signs. -/
def unsigned : UpgradeEnv ⟨0⟩ :=
  { Env.standard ⟨0⟩ 1 none with
    auth := fun _ => false, here_auth := rfl, uploaded := fun _ => true }

theorem listed_signers_suffice :
    (∃ q', (QuorumCall.setTreasuryVault [⟨9⟩, ⟨1⟩] ⟨7⟩).exec unsigned (fun _ => zeroDigest)
      twoSigners = .ok q' ∧ q'.treasury = some ⟨7⟩) ∧
    ¬ QuorumAuthenticated unsigned (fun _ => zeroDigest)
      (.setTreasuryVault [⟨9⟩, ⟨1⟩] ⟨7⟩) twoSigners := by
  have hverify : verifyUpgradeQuorum [⟨9⟩, ⟨1⟩] twoSigners.admin = .ok () := by decide +kernel
  have hexec : (QuorumCall.setTreasuryVault [⟨9⟩, ⟨1⟩] ⟨7⟩).exec unsigned (fun _ => zeroDigest)
      twoSigners = .ok { twoSigners with treasury := some ⟨7⟩ } := by
    simp only [QuorumCall.exec, setTreasuryVault, bind_eq_ok, pure_eq_ok]
    exact ⟨(), hverify, trivial⟩
  refine ⟨⟨_, hexec, rfl⟩, fun hquorum => ?_⟩
  obtain ⟨data, _, hmeets⟩ := hquorum _ hexec
  have hcount : twoSigners.admin.getGovernanceConfig.quorumThreshold ≤ 0 := hmeets.1
  exact absurd hcount (by decide)

end Approval

end StellarFlow.Admin
