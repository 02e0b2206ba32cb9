import StellarFlow.Admin.Quorum

/-!
# Timelocked upgrades

The admin stages an upgrade with the approval of the signers and executes it some ledgers
later. The staging notes the ledger time in seconds, while the execution and the query count
ledger sequence numbers from it, cut to 32 bits. The delay is therefore the documented one
exactly for upgrades staged in a ledger whose time and sequence number agree in those bits.
-/
namespace StellarFlow.Admin

open Foundation

/-- The delay between staging and execution, in ledgers. -/
def minLedgerDelay : ℕ := 5000
/-- The delay that is noted in a staged upgrade, in seconds. -/
def upgradeDelaySeconds : ℕ := 172800
def proposalExpirySeconds : ℕ := 604800

/-! ## State -/

structure StagedUpgrade where
  newWasmHash : Digest
  proposer : Address
  stagedAt : ℕ
  executeAt : ℕ
  deriving DecidableEq

structure GovernanceUpgradeProposal where
  newWasmHash : Digest
  proposer : Address
  stagedAt : ℕ
  signers : List Address
  deriving DecidableEq

inductive ProposalStatus
  | active
  | approved
  | expired
  deriving DecidableEq, Repr

structure ProposalState where
  proposedAt : ℕ
  status : ProposalStatus
  deriving DecidableEq, Repr

/-- The administration with the upgrade in progress. -/
structure UpgradeStore where
  admin : AdminStore
  pending : Option StagedUpgrade
  proposal : Option GovernanceUpgradeProposal
  /-- The tracked state of upgrade proposals. -/
  proposalState : Option ProposalState

/-- What an upgrade reads of its surroundings. -/
structure UpgradeEnv (here : Address) extends Env here where
  /-- Whether the code with a hash has been uploaded. -/
  uploaded : Digest → Bool

/-! ## Entry points -/

-- The hash function of the host.
variable {here : Address} (env : UpgradeEnv here) (sha256 : Bytes → Digest)

def proposeUpgrade (newWasmHash : Digest) (proposer : Address) (signers : List Address)
    (nonce : ℕ) (salt : Bytes) (saltSignature : Digest) (sigExpiresAt : ℕ) (u : UpgradeStore) :
    Except Fault UpgradeStore := do
  checkSignatureTime env.toEnv sigExpiresAt
  assertNotRevoked proposer u.admin
  let data ← requireAdmin env.toEnv proposer u.admin
  let admin ← consumeNonce sha256 proposer nonce salt saltSignature u.admin
  let collectedWeight ← calculateCollectedWeight signers data admin
  failIf (collectedWeight < admin.getMultisigConfig.requiredWeight)
    (Fault.error .thresholdNotReached)
  let stagedAt := env.timestamp
  let executeAt ← okOr (checkBits 64 (stagedAt + upgradeDelaySeconds)) Fault.trap
  pure ⟨admin, some ⟨newWasmHash, proposer, stagedAt, executeAt⟩,
    some ⟨newWasmHash, proposer, stagedAt, signers⟩, some ⟨stagedAt, .active⟩⟩

/-- The conversion to 32 bits. -/
def truncate (n : ℕ) : ℕ := n % 2 ^ 32

def VerifyStagedDelay (stagedAt currentLedger : ℕ) : Prop :=
  minLedgerDelay ≤ currentLedger - stagedAt

instance (stagedAt currentLedger : ℕ) : Decidable (VerifyStagedDelay stagedAt currentLedger) :=
  inferInstanceAs (Decidable (_ ≤ _))

def executeUpgrade (executor : Address) (nonce : ℕ) (salt : Bytes) (signature : Digest)
    (sigExpiresAt : ℕ) (u : UpgradeStore) : Except Fault UpgradeStore := do
  checkSignatureTime env.toEnv sigExpiresAt
  let _ ← requireAdmin env.toEnv executor u.admin
  let admin ← consumeNonce sha256 executor nonce salt signature u.admin
  let pending ← okOr u.pending (Fault.error .noPendingUpgrade)
  failIf (¬ VerifyStagedDelay (truncate pending.stagedAt) env.sequence)
    (Fault.error .upgradeTimelockNotSatisfied)
  failIf (¬ env.uploaded pending.newWasmHash) Fault.trap
  pure { u with admin, pending := none, proposalState := none }

/-- The ledgers still missing, in the ledger with the given sequence number. -/
def getUpgradeTimelockRemaining (sequence : ℕ) (u : UpgradeStore) : Option ℕ :=
  u.pending.map fun pending => minLedgerDelay - (sequence - truncate pending.stagedAt)

def cancelUpgrade (canceller : Address) (u : UpgradeStore) : Except Fault UpgradeStore := do
  let _ ← requireAdmin env.toEnv canceller u.admin
  pure { u with pending := none }

/-- Anybody may drop an upgrade whose proposal is a week old. -/
def cleanupExpiredProposals (u : UpgradeStore) : Except Fault (ℕ × UpgradeStore) :=
  match u.proposalState with
  | none => pure (0, u)
  | some state =>
    if state.status = .active ∧ proposalExpirySeconds ≤ env.timestamp - state.proposedAt then
      pure (1, ⟨u.admin, none, none, some { state with status := .expired }⟩)
    else pure (0, u)

/-! ## Calls and histories -/

inductive UpgradeCall
  | proposeUpgrade (newWasmHash : Digest) (proposer : Address) (signers : List Address)
      (nonce : ℕ) (salt : Bytes) (saltSignature : Digest) (sigExpiresAt : ℕ)
  | executeUpgrade (executor : Address) (nonce : ℕ) (salt : Bytes) (signature : Digest)
      (sigExpiresAt : ℕ)
  | cancelUpgrade (canceller : Address)
  | cleanupExpiredProposals
  | registerSigner (signer caller : Address)
  | removeSigner (signer caller : Address)

def UpgradeCall.exec (call : UpgradeCall) (u : UpgradeStore) : Except Fault UpgradeStore :=
  match call with
  | .proposeUpgrade newWasmHash proposer signers nonce salt saltSignature sigExpiresAt =>
    Admin.proposeUpgrade env sha256 newWasmHash proposer signers nonce salt saltSignature
      sigExpiresAt u
  | .executeUpgrade executor nonce salt signature sigExpiresAt =>
    Admin.executeUpgrade env sha256 executor nonce salt signature sigExpiresAt u
  | .cancelUpgrade canceller => Admin.cancelUpgrade env canceller u
  | .cleanupExpiredProposals => Prod.snd <$> Admin.cleanupExpiredProposals env u
  | .registerSigner signer caller => do
    let admin ← Admin.registerSigner env.toEnv signer caller u.admin
    pure { u with admin }
  | .removeSigner signer caller => do
    let admin ← Admin.removeSigner env.toEnv signer caller u.admin
    pure { u with admin }

/-- A call some ledgers after the last accepted one, at any ledger time. -/
structure UpgradeStep (here : Address) where
  ledgers : ℕ
  env : UpgradeEnv here
  call : UpgradeCall

/-- The store with the sequence numbers of the last accepted call and of the staging. -/
structure UpgradeHistory where
  store : UpgradeStore
  sequence : ℕ
  stagedIn : ℕ

/-- Nothing is staged. -/
def UpgradeHistory.start (admin : AdminStore) : UpgradeHistory := ⟨⟨admin, none, none, none⟩, 0, 0⟩

def UpgradeCall.isPropose : UpgradeCall → Bool
  | .proposeUpgrade .. => true
  | _ => false

/-- Sequence numbers have 32 bits. -/
def upgradeStep (i : UpgradeStep here) (h : UpgradeHistory) : Except Fault UpgradeHistory := do
  let sequence ← okOr (checkBits 32 (h.sequence + i.ledgers)) Fault.trap
  let store ← i.call.exec { i.env with sequence := sequence } sha256 h.store
  pure ⟨store, sequence, if i.call.isPropose then sequence else h.stagedIn⟩

/-- Everything an execution needs besides the delay: an unexpired signature of the admin with
its next nonce, and uploaded code. -/
def MayExecute (executor : Address) (nonce : ℕ) (salt : Bytes) (signature : Digest)
    (sigExpiresAt : ℕ) (u : UpgradeStore) : Prop :=
  env.timestamp ≤ sigExpiresAt ∧ u.admin.IsAdmin executor ∧ env.auth executor = true ∧
    (∃ admin, consumeNonce sha256 executor nonce salt signature u.admin = .ok admin) ∧
    ∀ pending, u.pending = some pending → env.uploaded pending.newWasmHash = true

/-- From now on the staged upgrade can be executed exactly when the delay has passed since it
was staged, and the query reports exactly the ledgers still missing. -/
def TimelockExact (here : Address) (h : UpgradeHistory) : Prop :=
  ∀ pending, h.store.pending = some pending →
    ∀ sequence, h.sequence ≤ sequence → sequence < 2 ^ 32 →
      getUpgradeTimelockRemaining sequence h.store =
        some (minLedgerDelay - (sequence - h.stagedIn)) ∧
      ∀ (env : UpgradeEnv here) (executor : Address) (nonce : ℕ) (salt : Bytes)
        (signature : Digest) (sigExpiresAt : ℕ), env.sequence = sequence →
        MayExecute env sha256 executor nonce salt signature sigExpiresAt h.store →
        ((∃ u, executeUpgrade env sha256 executor nonce salt signature sigExpiresAt h.store =
            .ok u) ↔
          minLedgerDelay ≤ sequence - h.stagedIn)

/-- An accepted upgrade is staged in a ledger whose time is its sequence number in 32 bits. -/
def StagesInStep (h : UpgradeHistory) (i : UpgradeStep here) : Prop :=
  (∃ h', upgradeStep sha256 i h = .ok h') → i.call.isPropose →
    truncate i.env.timestamp = h.sequence + i.ledgers

section Timelock

variable {here : Address} {env : UpgradeEnv here} {sha256 : Bytes → Digest}
  {u u' : UpgradeStore} {call : UpgradeCall} {h h' : UpgradeHistory} {i : UpgradeStep here}
  {executor : Address} {nonce sigExpiresAt : ℕ} {salt : Bytes} {signature : Digest}

theorem proposeUpgrade_pending {newWasmHash saltSignature : Digest} {proposer : Address}
    {signers : List Address}
    (h : proposeUpgrade env sha256 newWasmHash proposer signers nonce salt saltSignature
      sigExpiresAt u = .ok u') :
    ∃ pending, u'.pending = some pending ∧ pending.stagedAt = env.timestamp := by
  simp only [proposeUpgrade, bind_eq_ok, pure_eq_ok] at h
  obtain ⟨_, _, _, _, _, _, _, _, _, _, _, _, _, _, rfl⟩ := h
  exact ⟨_, rfl, rfl⟩

/-- Calls other than a proposal keep what is staged or drop it. -/
theorem exec_pending (h : call.exec env sha256 u = .ok u') (hcall : call.isPropose = false) :
    u'.pending = u.pending ∨ u'.pending = none := by
  cases call with
  | proposeUpgrade => cases hcall
  | executeUpgrade executor nonce salt signature sigExpiresAt =>
    simp only [UpgradeCall.exec, executeUpgrade, bind_eq_ok, pure_eq_ok] at h
    obtain ⟨_, _, _, _, _, _, _, _, _, _, _, _, rfl⟩ := h
    exact .inr rfl
  | cancelUpgrade canceller =>
    simp only [UpgradeCall.exec, cancelUpgrade, bind_eq_ok, pure_eq_ok] at h
    obtain ⟨_, _, rfl⟩ := h
    exact .inr rfl
  | cleanupExpiredProposals =>
    obtain ⟨r, h⟩ := snd_map_eq_ok.mp h
    unfold cleanupExpiredProposals at h
    split at h
    · simp only [pure_eq_ok, Prod.mk.injEq] at h
      exact .inl (h.2 ▸ rfl)
    · split_ifs at h
      · simp only [pure_eq_ok, Prod.mk.injEq] at h
        exact .inr (h.2 ▸ rfl)
      · simp only [pure_eq_ok, Prod.mk.injEq] at h
        exact .inl (h.2 ▸ rfl)
  | registerSigner signer caller =>
    simp only [UpgradeCall.exec, bind_eq_ok, pure_eq_ok] at h
    obtain ⟨_, _, rfl⟩ := h
    exact .inl rfl
  | removeSigner signer caller =>
    simp only [UpgradeCall.exec, bind_eq_ok, pure_eq_ok] at h
    obtain ⟨_, _, rfl⟩ := h
    exact .inl rfl

theorem upgradeStep_eq_ok (h0 : upgradeStep sha256 i h = .ok h') :
    h.sequence + i.ledgers < 2 ^ 32 ∧ ∃ store,
      i.call.exec { i.env with sequence := h.sequence + i.ledgers } sha256 h.store = .ok store ∧
      h' = ⟨store, h.sequence + i.ledgers,
        if i.call.isPropose then h.sequence + i.ledgers else h.stagedIn⟩ := by
  simp only [upgradeStep, bind_eq_ok, okOr_eq_ok, checkBits_eq_some, pure_eq_ok] at h0
  obtain ⟨_, ⟨hlt, rfl⟩, store, hexec, rfl⟩ := h0
  exact ⟨hlt, store, hexec, rfl⟩

/-- With everything else in place, an execution succeeds exactly when the counted delay has
passed. -/
theorem executeUpgrade_ok_iff {pending : StagedUpgrade} (hpending : u.pending = some pending)
    (hmay : MayExecute env sha256 executor nonce salt signature sigExpiresAt u) :
    (∃ u', executeUpgrade env sha256 executor nonce salt signature sigExpiresAt u = .ok u') ↔
      minLedgerDelay ≤ env.sequence - truncate pending.stagedAt := by
  obtain ⟨htime, ⟨data, hdata, hadmin⟩, hauth, ⟨admin, hnonce⟩, huploaded⟩ := hmay
  simp only [executeUpgrade, bind_eq_ok, checkSignatureTime_eq_ok, requireAdmin_eq_ok, okOr_eq_ok,
    failIf_eq_ok, pure_eq_ok, not_not]
  constructor
  · rintro ⟨_, _, _, _, _, _, _, p, hp, _, hdelay, _⟩
    obtain rfl := Option.some.inj (hpending.symm.trans hp)
    exact hdelay
  · intro hdelay
    exact ⟨_, (), htime, data, ⟨hdata, hadmin, hauth⟩, admin, hnonce, pending, hpending, (), hdelay,
      (), huploaded pending hpending, rfl⟩

/-- The timelock is exact exactly when the two ways of counting agree from now on. -/
theorem timelockExact_iff : TimelockExact sha256 here h ↔
    ∀ pending, h.store.pending = some pending →
      ∀ sequence, h.sequence ≤ sequence → sequence < 2 ^ 32 →
        minLedgerDelay - (sequence - truncate pending.stagedAt) =
          minLedgerDelay - (sequence - h.stagedIn) := by
  refine forall₂_congr fun pending hpending => forall₃_congr fun sequence _ _ => ?_
  have hquery : getUpgradeTimelockRemaining sequence h.store =
      some (minLedgerDelay - (sequence - truncate pending.stagedAt)) := by
    rw [getUpgradeTimelockRemaining, hpending, Option.map_some]
  rw [hquery, Option.some.injEq]
  refine and_iff_left_of_imp fun heq env executor nonce salt signature sigExpiresAt hseq hmay => ?_
  rw [executeUpgrade_ok_iff hpending hmay, hseq]
  constructor <;> intro hle <;> omega

/-- Counting from another number than the current one agrees at all later ledgers only if it
is the same number. -/
theorem counts_agree_iff {stagedAt stagedIn : ℕ} (hat : stagedAt < 2 ^ 32)
    (hin : stagedIn < 2 ^ 32) :
    (∀ sequence, stagedIn ≤ sequence → sequence < 2 ^ 32 →
      minLedgerDelay - (sequence - stagedAt) = minLedgerDelay - (sequence - stagedIn)) ↔
      stagedAt = stagedIn := by
  constructor
  · intro hagree
    have hnow := hagree stagedIn le_rfl hin
    by_contra hne
    have hnext := hagree (stagedIn + 1) (by omega)
    simp only [minLedgerDelay] at hnow hnext
    omega
  · rintro rfl _ _ _
    rfl

theorem upgradeStep_timelockExact_iff (hexact : TimelockExact sha256 here h)
    (i : UpgradeStep here) :
    TimelockExact sha256 here (commit (upgradeStep sha256) h i) ↔ StagesInStep sha256 h i := by
  refine commit_iff_of_accepted hexact fun h' hstep => ?_
  obtain ⟨hlt, store, hexec, rfl⟩ := upgradeStep_eq_ok hstep
  rw [forall_prop_of_true ⟨_, hstep⟩, timelockExact_iff]
  cases hpropose : i.call.isPropose with
  | true =>
    obtain ⟨ledgers, env, call⟩ := i
    cases call with
    | proposeUpgrade newWasmHash proposer signers nonce salt saltSignature sigExpiresAt =>
      obtain ⟨pending, hpending, hstaged⟩ := proposeUpgrade_pending hexec
      have htruncate : truncate pending.stagedAt < 2 ^ 32 := Nat.mod_lt _ (by norm_num)
      have hcount := counts_agree_iff htruncate hlt
      simp only [hpending, Option.some.injEq, forall_eq', if_true, forall_true_left]
      rw [hcount, hstaged]
    | _ => cases hpropose
  | false =>
    simp only [Bool.false_eq_true, false_imp_iff, iff_true, if_false]
    intro pending hpending sequence hle hseq
    rcases exec_pending hexec hpropose with hsame | hnone
    · exact timelockExact_iff.mp hexact pending (hsame ▸ hpending) sequence (by omega) hseq
    · rw [hnone] at hpending
      cases hpending

/-- In every history the timelock of staged upgrades is exact throughout exactly if every
upgrade is staged in a ledger whose time is its sequence number in 32 bits. -/
theorem timelock_throughout_iff (sha256 : Bytes → Digest) (admin : AdminStore)
    (run : List (UpgradeStep here)) :
    Throughout (upgradeStep sha256) (TimelockExact sha256 here) (.start admin) run ↔
      Along (upgradeStep sha256) (StagesInStep sha256) (.start admin) run :=
  throughout_iff_along (I := fun _ => True) (P := TimelockExact sha256 here)
    (fun _ _ _ => trivial) (fun _ i _ hexact => upgradeStep_timelockExact_iff hexact i) trivial
    (fun _ hpending => by cases hpending) run

def zeroDigest : Digest := Vector.replicate 32 0

/-- The admin stages an upgrade in a ledger of the public network. -/
def stagedRun : List (UpgradeStep ⟨0⟩) :=
  [⟨50000000,
    { Env.standard ⟨0⟩ 0 none with timestamp := 1700000000, uploaded := fun _ => true },
    .proposeUpgrade zeroDigest ⟨9⟩ [⟨9⟩] 0 [] zeroDigest 1700000000⟩]

/-- When the delay has passed, all of it is still reported as missing. -/
theorem staged_not_due :
    (runAll (upgradeStep fun _ => zeroDigest) (.start (.initialized ⟨9⟩)) stagedRun).stagedIn =
      50000000 ∧
    getUpgradeTimelockRemaining 50005000
        (runAll (upgradeStep fun _ => zeroDigest) (.start (.initialized ⟨9⟩)) stagedRun).store =
      some 5000 ∧
    ¬ Throughout (upgradeStep fun _ => zeroDigest) (TimelockExact (fun _ => zeroDigest) ⟨0⟩)
      (.start (.initialized ⟨9⟩)) stagedRun := by
  have hpending : (runAll (upgradeStep fun _ => zeroDigest) (.start (.initialized ⟨9⟩))
      stagedRun).store.pending = some ⟨zeroDigest, ⟨9⟩, 1700000000, 1700172800⟩ := by
    decide +kernel
  have hstaged : (runAll (upgradeStep fun _ => zeroDigest) (.start (.initialized ⟨9⟩))
      stagedRun).stagedIn = 50000000 := by
    decide +kernel
  have hremaining : getUpgradeTimelockRemaining 50005000
      (runAll (upgradeStep fun _ => zeroDigest) (.start (.initialized ⟨9⟩)) stagedRun).store =
      some 5000 := by
    decide +kernel
  have hsequence : (runAll (upgradeStep fun _ => zeroDigest) (.start (.initialized ⟨9⟩))
      stagedRun).sequence = 50000000 := by
    decide +kernel
  refine ⟨hstaged, hremaining, ?_⟩
  rintro ⟨_, hexact⟩
  have hlast : TimelockExact (fun _ => zeroDigest) ⟨0⟩
      (runAll (upgradeStep fun _ => zeroDigest) (.start (.initialized ⟨9⟩)) stagedRun) := hexact
  clear hexact
  generalize runAll (upgradeStep fun _ => zeroDigest) (.start (.initialized ⟨9⟩)) stagedRun = h
    at hpending hstaged hremaining hsequence hlast
  have hquery := (hlast _ hpending 50005000 (by omega) (by norm_num)).1
  rw [hremaining, hstaged] at hquery
  exact absurd hquery (by decide)

end Timelock

end StellarFlow.Admin
