import StellarFlow.Governance.Proposals

/-!
# Ballots and the members behind them

Four ballots keep the votes cast so far and compare their number with a threshold of the current
membership. Nothing withdraws the vote of an address that ceases to be a member. A decision is
backed by current members as long as nobody with a vote on an open ballot is dismissed.
-/
namespace StellarFlow.Governance

open Foundation Admin

def feeTier005Bps : ℕ := 5
def feeTier030Bps : ℕ := 30
def feeTier100Bps : ℕ := 100
def defaultFeeTierBps : ℕ := feeTier030Bps
def lpShareBps : ℕ := 8000
def treasuryShareBps : ℕ := 2000

structure FeeTierController where
  activeTierBps : ℕ
  minTierBps : ℕ
  maxTierBps : ℕ
  lpShareBps : ℕ
  treasuryShareBps : ℕ
  deriving DecidableEq, Repr

structure PoolFeeTierProposal where
  asset : AssetId
  newTierBps : ℕ
  proposer : Address
  votes : List Address
  createdAt : ℕ
  deriving DecidableEq, Repr

structure BallotStore where
  gov : GovernanceStore
  controller : Option FeeTierController
  poolTiers : Store AssetId ℕ
  feeProposals : Store AssetId PoolFeeTierProposal

/-- No ballot has a vote. A revocation may be under way. -/
def BallotStore.start (admin : AdminStore) : BallotStore where
  gov :=
    { admin := { admin with
        revocation := admin.revocation.map fun proposal => { proposal with votes := ∅ } }
      counter := none
      proposal := none
      securityCouncil := none
      veto := none
      override := none
      overrideVotes := ∅ }
  controller := none
  poolTiers := ∅
  feeProposals := ∅

def BallotStore.getFeeTierController (b : BallotStore) : FeeTierController :=
  b.controller.getD ⟨defaultFeeTierBps, feeTier005Bps, feeTier100Bps, lpShareBps, treasuryShareBps⟩

/-! ## Fee tiers of pools -/

variable {here : Address} (env : GovernanceEnv here)

def proposePoolFeeTierChange (proposer : Address) (asset : AssetId) (newTierBps : ℕ)
    (b : BallotStore) : Except Fault BallotStore := do
  let _ ← requireAdmin env.toEnv proposer b.gov.admin
  let controller := b.getFeeTierController
  failIf (newTierBps < controller.minTierBps ∨ controller.maxTierBps < newTierBps)
    (Fault.error .feeCeilingExceeded)
  failIf (newTierBps ≠ feeTier005Bps ∧ newTierBps ≠ feeTier030Bps ∧ newTierBps ≠ feeTier100Bps)
    (Fault.error .invalidTierConfig)
  failIf ((b.feeProposals.lookup asset).isSome) (Fault.error .proposalAlreadyActive)
  pure { b with
    feeProposals := b.feeProposals.insert asset ⟨asset, newTierBps, proposer, [], env.timestamp⟩ }

def votePoolFeeTierChange (voter : Address) (asset : AssetId) (b : BallotStore) :
    Except Fault BallotStore := do
  env.requireAuth voter
  let data ← b.gov.admin.getData
  failIf (voter ∉ b.gov.admin.getSigners ∧ data.admin ≠ voter) (Fault.error .unauthorized)
  let proposal ← okOr (b.feeProposals.lookup asset) (Fault.error .noActiveProposal)
  failIf (voter ∈ proposal.votes) (Fault.error .alreadyVoted)
  let votes := proposal.votes ++ [voter]
  if majority b.gov.admin.getSigners.card ≤ votes.length then
    pure { b with
      poolTiers := b.poolTiers.insert asset proposal.newTierBps
      controller := some { b.getFeeTierController with activeTierBps := proposal.newTierBps }
      feeProposals := b.feeProposals.erase asset }
  else pure { b with feeProposals := b.feeProposals.insert asset { proposal with votes } }

def cancelPoolFeeTierChange (canceller : Address) (asset : AssetId) (b : BallotStore) :
    Except Fault BallotStore := do
  let _ ← requireAdmin env.toEnv canceller b.gov.admin
  pure { b with feeProposals := b.feeProposals.erase asset }

/-! ## Calls -/

inductive BallotCall
  | registerSigner (signer caller : Address)
  | removeSigner (signer caller : Address)
  | voteRevocation (voter : Address) (sigExpiresAt : ℕ)
  | proposePoolFeeTierChange (proposer : Address) (asset : AssetId) (newTierBps : ℕ)
  | votePoolFeeTierChange (voter : Address) (asset : AssetId)
  | cancelPoolFeeTierChange (canceller : Address) (asset : AssetId)
  | governance (call : GovernanceCall)

/-- An operation that leaves the ballots of governance and pools alone. -/
def BallotStore.onAdmin (f : AdminStore → Except Fault AdminStore) (b : BallotStore) :
    Except Fault BallotStore := do
  let admin ← f b.gov.admin
  pure { b with gov := { b.gov with admin } }

abbrev BallotStep (here : Address) := GovernanceEnv here × BallotCall

def ballotStep (i : BallotStep here) (b : BallotStore) : Except Fault BallotStore :=
  match i.2 with
  | .registerSigner signer caller => b.onAdmin (Admin.registerSigner i.1.toEnv signer caller)
  | .removeSigner signer caller => b.onAdmin (Admin.removeSigner i.1.toEnv signer caller)
  | .voteRevocation voter sigExpiresAt =>
    b.onAdmin (Admin.voteRevocation i.1.toEnv voter sigExpiresAt)
  | .proposePoolFeeTierChange proposer asset newTierBps =>
    Governance.proposePoolFeeTierChange i.1 proposer asset newTierBps b
  | .votePoolFeeTierChange voter asset => Governance.votePoolFeeTierChange i.1 voter asset b
  | .cancelPoolFeeTierChange canceller asset =>
    Governance.cancelPoolFeeTierChange i.1 canceller asset b
  | .governance call => do
    let gov ← call.exec i.1 b.gov
    pure { b with gov }

/-! ## Members and votes -/

/-- The admin and the registered signers may vote. -/
def IsMember (s : AdminStore) (a : Address) : Prop := a ∈ s.getSigners ∨ s.IsAdmin a

instance (s : AdminStore) : DecidablePred (IsMember s) :=
  fun _ => inferInstanceAs (Decidable (_ ∨ _))

namespace BallotStore

variable (b : BallotStore)

/-- The address has voted for the revocation under way. -/
def RevocationVoted (a : Address) : Prop :=
  ∃ proposal, b.gov.admin.revocation = some proposal ∧ a ∈ proposal.votes

/-- The address has voted to cancel the pending proposal. -/
def CancelVoted (a : Address) : Prop :=
  ∃ proposal, b.gov.proposal = some proposal ∧ proposal.status = .pending ∧
    a ∈ proposal.cancellationVotes

/-- The address has voted on an open fee tier change. -/
def FeeTierVoted (a : Address) : Prop :=
  ∃ asset proposal, b.feeProposals.lookup asset = some proposal ∧ a ∈ proposal.votes

/-- The address has voted to override the delay of the open proposal. -/
def OverrideVoted (a : Address) : Prop :=
  ∃ proposal, b.gov.proposal = some proposal ∧ proposal.IsOpen ∧
    a ∈ b.gov.getOverrideVotes proposal.proposalId

end BallotStore

/-- A call that decides a ballot is backed by enough votes of current members. -/
def DecidedByMembers (b : BallotStore) (i : BallotStep here) : Prop :=
  ∀ b', ballotStep i b = .ok b' →
    match i.2 with
    | .voteRevocation voter _ => ∀ proposal, b.gov.admin.revocation = some proposal →
        b'.gov.admin.revocation = none →
        majority b.gov.admin.getSigners.card ≤
          ((insert voter proposal.votes).filter (IsMember b.gov.admin)).card
    | .votePoolFeeTierChange voter asset => ∀ proposal,
        b.feeProposals.lookup asset = some proposal → b'.feeProposals.lookup asset = none →
        majority b.gov.admin.getSigners.card ≤
          ((proposal.votes ++ [voter]).filter (IsMember b.gov.admin)).length
    | .governance (.voteCancelGovernanceProposal voter _ _) => ∀ proposal proposal',
        b.gov.proposal = some proposal → b'.gov.proposal = some proposal' →
        proposal'.status = .cancelled →
        cancellationThreshold b.gov.admin.getSigners.card ≤
          ((insert voter proposal.cancellationVotes).filter (IsMember b.gov.admin)).card
    | .governance (.executeEmergencyOverride _ proposalId) =>
        let config := b.gov.loadEmergencyOverrideConfig
        config.thresholdBps ≤ ((b.gov.getOverrideVotes proposalId).filter
          (· ∈ config.emergencySigners)).card * 10000 / config.emergencySigners.length
    | _ => True

/-- A signer who is removed remains as the admin or has no vote on an open ballot. An admin who
is replaced remains as a signer or has no vote on another ballot. New emergency signers include
all who voted for the open override. The numbers of proposals have not run out. -/
def DismissesNoVoter (b : BallotStore) (i : BallotStep here) : Prop :=
  (∃ b', ballotStep i b = .ok b') →
    match i.2 with
    | .removeSigner signer _ => b.gov.admin.IsAdmin signer ∨
        ¬ b.RevocationVoted signer ∧ ¬ b.CancelVoted signer ∧ ¬ b.FeeTierVoted signer
    | .voteRevocation voter _ => ∀ proposal, b.gov.admin.revocation = some proposal →
        majority b.gov.admin.getSigners.card ≤ (insert voter proposal.votes).card →
        ∀ admin, b.gov.admin.IsAdmin admin →
          admin ∈ b.gov.admin.getSigners ∨ admin = proposal.replacement ∨
            ¬ b.CancelVoted admin ∧ ¬ b.FeeTierVoted admin
    | .governance (.setEmergencyOverrideConfig _ emergencySigners _ _) =>
        ∀ a, b.OverrideVoted a → a ∈ emergencySigners
    | .governance (.submitGovernanceProposal ..) => b.gov.counter.getD 0 + 1 < 2 ^ 64
    | _ => True

/-- Whoever voted on an open ballot is a member, and numbers are given out in order. -/
structure VotersAreMembers (b : BallotStore) : Prop where
  revocation : ∀ a, b.RevocationVoted a → IsMember b.gov.admin a
  cancellation : ∀ a, b.CancelVoted a → IsMember b.gov.admin a
  feeTier : ∀ a, b.FeeTierVoted a → IsMember b.gov.admin a
  override : ∀ a, b.OverrideVoted a → a ∈ b.gov.loadEmergencyOverrideConfig.emergencySigners
  proposal_le : ∀ proposal, b.gov.proposal = some proposal →
    proposal.proposalId ≤ b.gov.counter.getD 0
  votes_le : ∀ proposalId, (b.gov.getOverrideVotes proposalId).Nonempty →
    proposalId ≤ b.gov.counter.getD 0

section Ballots

variable {here : Address} {env : GovernanceEnv here} {b b' : BallotStore} {i : BallotStep here}
  {g' : GovernanceStore} {s s' : AdminStore} {voter signer caller : Address} {asset : AssetId}

@[simp] theorem BallotStore.onAdmin_eq_ok {f : AdminStore → Except Fault AdminStore} :
    b.onAdmin f = .ok b' ↔
      ∃ admin, f b.gov.admin = .ok admin ∧ b' = { b with gov := { b.gov with admin } } := by
  simp only [BallotStore.onAdmin, bind_eq_ok, pure_eq_ok]
  exact exists_congr fun _ => and_congr_right fun _ => eq_comm

theorem isMember_of_or {data : ContractData} (hdata : s.data = some data)
    (h : voter ∈ s.getSigners ∨ data.admin = voter) : IsMember s voter :=
  h.imp_right (AdminStore.isAdmin_iff hdata voter).mpr

theorem proposePoolFeeTierChange_eq_ok {newTierBps : ℕ}
    (h : proposePoolFeeTierChange env caller asset newTierBps b = .ok b') :
    b' = { b with feeProposals :=
      b.feeProposals.insert asset ⟨asset, newTierBps, caller, [], env.timestamp⟩ } := by
  simp only [proposePoolFeeTierChange, bind_eq_ok, pure_eq_ok] at h
  obtain ⟨_, _, _, _, _, _, _, _, rfl⟩ := h
  rfl

/-- A vote either completes the majority and applies the tier, or it is counted. -/
theorem votePoolFeeTierChange_eq_ok (h : votePoolFeeTierChange env voter asset b = .ok b') :
    ∃ proposal, IsMember b.gov.admin voter ∧ b.feeProposals.lookup asset = some proposal ∧
      (majority b.gov.admin.getSigners.card ≤ (proposal.votes ++ [voter]).length ∧
        (∃ poolTiers controller, b' = { b with
          poolTiers, controller, feeProposals := b.feeProposals.erase asset }) ∨
      (proposal.votes ++ [voter]).length < majority b.gov.admin.getSigners.card ∧ b' = { b with
        feeProposals := b.feeProposals.insert asset
          { proposal with votes := proposal.votes ++ [voter] } }) := by
  simp only [votePoolFeeTierChange, AdminStore.getData, bind_eq_ok, okOr_eq_ok, failIf_eq_ok,
    not_and_or, not_not] at h
  obtain ⟨_, _, data, hdata, _, hmember, proposal, hproposal, _, _, h⟩ := h
  refine ⟨proposal, isMember_of_or hdata hmember, hproposal, ?_⟩
  split_ifs at h with hle
  · exact .inl ⟨hle, _, _, (pure_eq_ok.mp h).symm⟩
  · exact .inr ⟨not_le.mp hle, (pure_eq_ok.mp h).symm⟩

theorem cancelPoolFeeTierChange_eq_ok (h : cancelPoolFeeTierChange env caller asset b = .ok b') :
    b' = { b with feeProposals := b.feeProposals.erase asset } := by
  simp only [cancelPoolFeeTierChange, bind_eq_ok, pure_eq_ok] at h
  obtain ⟨_, _, rfl⟩ := h
  rfl

/-! ## Voters stay members -/

/-- Another committee is fine if it keeps those who voted. -/
theorem VotersAreMembers.onAdmin (hv : VotersAreMembers b)
    (hrevocation : ∀ proposal, s'.revocation = some proposal → ∀ a ∈ proposal.votes, IsMember s' a)
    (hvoted : ∀ a, b.CancelVoted a ∨ b.FeeTierVoted a → IsMember s' a) :
    VotersAreMembers { b with gov := { b.gov with admin := s' } } where
  revocation := by
    rintro a ⟨proposal, hproposal, ha⟩
    exact hrevocation proposal hproposal a ha
  cancellation a ha := hvoted a (.inl ha)
  feeTier a ha := hvoted a (.inr ha)
  override := hv.override
  proposal_le := hv.proposal_le
  votes_le := hv.votes_le

/-- Fee tier changes are fine if their new votes are of members. -/
theorem VotersAreMembers.onFeeTiers (hv : VotersAreMembers b)
    {controller : Option FeeTierController}
    {poolTiers : Store AssetId ℕ} {feeProposals : Store AssetId PoolFeeTierProposal}
    (hfee : ∀ asset proposal, feeProposals.lookup asset = some proposal → ∀ a ∈ proposal.votes,
      b.FeeTierVoted a ∨ IsMember b.gov.admin a) :
    VotersAreMembers { b with controller, poolTiers, feeProposals } where
  revocation := hv.revocation
  cancellation := hv.cancellation
  feeTier := by
    rintro a ⟨asset, proposal, hproposal, ha⟩
    exact (hfee asset proposal hproposal a ha).elim (hv.feeTier a) id
  override := hv.override
  proposal_le := hv.proposal_le
  votes_le := hv.votes_le

theorem VotersAreMembers.eraseFeeTier (hv : VotersAreMembers b) (asset : AssetId)
    {controller : Option FeeTierController} {poolTiers : Store AssetId ℕ} :
    VotersAreMembers
      { b with controller, poolTiers, feeProposals := b.feeProposals.erase asset } := by
  refine hv.onFeeTiers fun asset' proposal hproposal a ha => .inl ⟨asset', proposal, ?_, ha⟩
  rw [Store.lookup_erase_ite] at hproposal
  split_ifs at hproposal
  exact hproposal

theorem VotersAreMembers.insertFeeTier (hv : VotersAreMembers b) {proposal : PoolFeeTierProposal}
    (hvotes : ∀ a ∈ proposal.votes, b.FeeTierVoted a ∨ IsMember b.gov.admin a) :
    VotersAreMembers { b with feeProposals := b.feeProposals.insert asset proposal } := by
  refine hv.onFeeTiers fun asset' proposal' hproposal a ha => ?_
  rcases Store.lookup_insert_eq_some.mp hproposal with ⟨_, rfl⟩ | ⟨_, hold⟩
  · exact hvotes a ha
  · exact .inl ⟨asset', proposal', hold, ha⟩

theorem VotersAreMembers.registerSigner (hv : VotersAreMembers b)
    (h : Admin.registerSigner env.toEnv signer caller b.gov.admin = .ok s') :
    VotersAreMembers { b with gov := { b.gov with admin := s' } } := by
  obtain ⟨_, _, _, h⟩ := registerSigner_eq_ok h
  have hmember : ∀ a, IsMember b.gov.admin a → IsMember s' a := by
    intro a ha
    rcases h with ⟨_, rfl⟩ | rfl
    · exact ha
    · exact ha.imp_left fun hin => Finset.mem_insert_of_mem hin
  refine hv.onAdmin (fun proposal hproposal a ha => hmember a (hv.revocation a ⟨proposal, ?_, ha⟩))
    fun a ha => hmember a (ha.elim (hv.cancellation a) (hv.feeTier a))
  rcases h with ⟨_, rfl⟩ | rfl <;> exact hproposal

/-- Whoever is removed remains as the admin or has no vote. -/
theorem VotersAreMembers.removeSigner (hv : VotersAreMembers b)
    (hc : b.gov.admin.IsAdmin signer ∨
      ¬ b.RevocationVoted signer ∧ ¬ b.CancelVoted signer ∧ ¬ b.FeeTierVoted signer)
    (h : Admin.removeSigner env.toEnv signer caller b.gov.admin = .ok s') :
    VotersAreMembers { b with gov := { b.gov with admin := s' } } := by
  obtain ⟨_, _, rfl⟩ := removeSigner_eq_ok h
  have hmember : ∀ a, b.RevocationVoted a ∨ b.CancelVoted a ∨ b.FeeTierVoted a →
      IsMember b.gov.admin a → IsMember { b.gov.admin with
        signers := some (b.gov.admin.getSigners.erase signer) } a := by
    rintro a hvoted (hin | hadmin)
    · by_cases hself : a = signer
      · subst hself
        rcases hc with hadmin | ⟨hrevocation, hcancel, hfee⟩
        · exact .inr hadmin
        · rcases hvoted with hvoted | hvoted | hvoted
          · exact absurd hvoted hrevocation
          · exact absurd hvoted hcancel
          · exact absurd hvoted hfee
      · exact .inl (Finset.mem_erase_of_ne_of_mem hself hin)
    · exact .inr hadmin
  refine hv.onAdmin (fun proposal hproposal a ha => ?_) fun a ha =>
    hmember a (.inr ha) (ha.elim (hv.cancellation a) (hv.feeTier a))
  exact hmember a (.inl ⟨proposal, hproposal, ha⟩) (hv.revocation a ⟨proposal, hproposal, ha⟩)

/-- A replaced admin remains as a signer or has no other vote; otherwise a member votes. -/
theorem VotersAreMembers.voteRevocation {sigExpiresAt : ℕ} (hv : VotersAreMembers b)
    (hc : ∀ proposal, b.gov.admin.revocation = some proposal →
      majority b.gov.admin.getSigners.card ≤ (insert voter proposal.votes).card →
      ∀ admin, b.gov.admin.IsAdmin admin → admin ∈ b.gov.admin.getSigners ∨
        admin = proposal.replacement ∨ ¬ b.CancelVoted admin ∧ ¬ b.FeeTierVoted admin)
    (h : Admin.voteRevocation env.toEnv voter sigExpiresAt b.gov.admin = .ok s') :
    VotersAreMembers { b with gov := { b.gov with admin := s' } } := by
  obtain ⟨data, proposal, hdata, hproposal, _, _, hvoter, _, h⟩ := voteRevocation_eq_ok h
  rcases h with ⟨hle, rfl⟩ | ⟨_, rfl⟩
  · refine hv.onAdmin (fun _ hnone => by cases hnone) fun a ha => ?_
    rcases ha.elim (hv.cancellation a) (hv.feeTier a) with hin | hadmin
    · exact .inl hin
    · rcases hc proposal hproposal hle a hadmin with hin | rfl | ⟨hcancel, hfee⟩
      · exact .inl hin
      · exact .inr ⟨_, rfl, rfl⟩
      · exact absurd ha (not_or.mpr ⟨hcancel, hfee⟩)
  · refine hv.onAdmin (fun proposal' hproposal' a ha => ?_) fun a ha =>
      ha.elim (hv.cancellation a) (hv.feeTier a)
    obtain rfl := Option.some.inj hproposal'
    rcases Finset.mem_insert.mp ha with rfl | hold
    · exact isMember_of_or hdata hvoter
    · exact hv.revocation a ⟨proposal, hproposal, hold⟩

/-- The proposal and the configuration are changed, but not the committee. -/
theorem VotersAreMembers.onGovernance (hv : VotersAreMembers b) (hadmin : g'.admin = b.gov.admin)
    (hcancel : ∀ proposal, g'.proposal = some proposal → proposal.status = .pending →
      ∀ a ∈ proposal.cancellationVotes, b.CancelVoted a ∨ IsMember b.gov.admin a)
    (hoverride : ∀ proposal, g'.proposal = some proposal → proposal.IsOpen →
      ∀ a ∈ g'.getOverrideVotes proposal.proposalId,
        a ∈ g'.loadEmergencyOverrideConfig.emergencySigners)
    (hproposal : ∀ proposal, g'.proposal = some proposal →
      proposal.proposalId ≤ g'.counter.getD 0)
    (hvotes : ∀ proposalId, (g'.getOverrideVotes proposalId).Nonempty →
      proposalId ≤ g'.counter.getD 0) : VotersAreMembers { b with gov := g' } where
  revocation a ha := by
    simp only [BallotStore.RevocationVoted, hadmin] at ha ⊢
    exact hv.revocation a ha
  cancellation := by
    rintro a ⟨proposal, hsome, hstatus, ha⟩
    simp only [hadmin]
    exact (hcancel proposal hsome hstatus a ha).elim (hv.cancellation a) id
  feeTier a ha := by
    simp only [hadmin]
    exact hv.feeTier a ha
  override := by
    rintro a ⟨proposal, hsome, hopen, ha⟩
    exact hoverride proposal hsome hopen a ha
  proposal_le := hproposal
  votes_le := hvotes

/-- The next number has no votes, unless the numbers have run out. -/
theorem VotersAreMembers.submit {wasmHash : Digest} {r : ℕ} (hv : VotersAreMembers b)
    (hc : b.gov.counter.getD 0 + 1 < 2 ^ 64)
    (h : submitGovernanceProposal env caller wasmHash b.gov = .ok (r, g')) :
    VotersAreMembers { b with gov := g' } := by
  obtain ⟨_, _, rfl⟩ := submitGovernanceProposal_eq_ok h
  have hnext : b.gov.nextProposalId = b.gov.counter.getD 0 + 1 := by
    rw [GovernanceStore.nextProposalId, checkBits_eq_some.mpr ⟨hc, rfl⟩, Option.getD_some]
  refine hv.onGovernance rfl ?_ ?_ ?_ ?_
  · rintro _ ⟨rfl⟩ _ a ha
    exact absurd ha (Finset.notMem_empty a)
  · rintro _ ⟨rfl⟩ _ a ha
    have hle := hv.votes_le _ ⟨a, ha⟩
    simp only [hnext] at hle
    omega
  · rintro _ ⟨rfl⟩
    exact le_rfl
  · intro proposalId hsome
    have hle := hv.votes_le proposalId hsome
    simp only [Option.getD_some, hnext]
    omega

theorem VotersAreMembers.voteCancel {proposalId sigExpiresAt : ℕ} (hv : VotersAreMembers b)
    (h : voteCancelGovernanceProposal env voter proposalId sigExpiresAt b.gov = .ok g') :
    VotersAreMembers { b with gov := g' } := by
  obtain ⟨data, p, hdata, hmember, hproposal, hstatus, _, rfl⟩ :=
    voteCancelGovernanceProposal_eq_ok h
  refine hv.onGovernance rfl ?_ ?_ ?_ hv.votes_le
  · rintro _ ⟨rfl⟩ _ a ha
    rcases Finset.mem_insert.mp ha with rfl | hold
    · exact .inr (isMember_of_or hdata hmember)
    · exact .inl ⟨p, hproposal, hstatus, hold⟩
  · rintro _ ⟨rfl⟩ _ a ha
    exact hv.override a ⟨p, hproposal, .inl hstatus, ha⟩
  · rintro _ ⟨rfl⟩
    exact hv.proposal_le p hproposal

theorem VotersAreMembers.cancel {proposalId : ℕ} (hv : VotersAreMembers b)
    (h : cancelGovernanceProposal env caller proposalId b.gov = .ok g') :
    VotersAreMembers { b with gov := g' } := by
  obtain ⟨p, hproposal, rfl⟩ := cancelGovernanceProposal_eq_ok h
  refine hv.onGovernance rfl ?_ ?_ ?_ hv.votes_le
  · rintro _ ⟨rfl⟩ hpending
    cases hpending
  · rintro _ ⟨rfl⟩ hopen
    rcases hopen with hopen | hopen <;> cases hopen
  · rintro _ ⟨rfl⟩
    exact hv.proposal_le p hproposal

theorem GovernanceStore.getOverrideVotes_insert (g : GovernanceStore) (proposalId id : ℕ)
    (votes : Finset Address) :
    ({ g with overrideVotes := g.overrideVotes.insert proposalId votes }).getOverrideVotes id =
      if id = proposalId then votes else g.getOverrideVotes id := by
  simp only [GovernanceStore.getOverrideVotes, Store.lookup_insert_ite]
  split_ifs <;> rfl

theorem VotersAreMembers.voteOverride {proposalId : ℕ} (hv : VotersAreMembers b)
    (h : voteEmergencyOverride env signer proposalId b.gov = .ok g') :
    VotersAreMembers { b with gov := g' } := by
  obtain ⟨p, hsigner, hproposal, rfl, hopen, rfl⟩ := voteEmergencyOverride_eq_ok h
  refine hv.onGovernance rfl ?_ ?_ hv.proposal_le ?_
  · intro proposal hsome hstatus a ha
    exact .inl ⟨proposal, hsome, hstatus, ha⟩
  · intro proposal hsome _ a ha
    obtain rfl := Option.some.inj (hproposal.symm.trans hsome)
    rw [GovernanceStore.getOverrideVotes_insert, if_pos rfl] at ha
    rcases Finset.mem_insert.mp ha with rfl | hold
    · exact hsigner
    · exact hv.override a ⟨p, hproposal, hopen, hold⟩
  · intro id hsome
    rw [GovernanceStore.getOverrideVotes_insert] at hsome
    split_ifs at hsome with hid
    · rw [hid]
      exact hv.proposal_le p hproposal
    · exact hv.votes_le id hsome

theorem VotersAreMembers.executeOverride {proposalId : ℕ} {r : EmergencyOverrideResult}
    (hv : VotersAreMembers b)
    (h : executeEmergencyOverride env signer proposalId b.gov = .ok (r, g')) :
    VotersAreMembers { b with gov := g' } := by
  obtain ⟨_, _, _, _, _, rfl⟩ := executeEmergencyOverride_eq_ok h
  refine hv.onGovernance rfl (fun _ hnone => by cases hnone) (fun _ hnone => by cases hnone)
    (fun _ hnone => by cases hnone) ?_
  intro id hsome
  refine hv.votes_le id ?_
  simp only [GovernanceStore.getOverrideVotes, Store.lookup_erase_ite] at hsome
  split_ifs at hsome
  · exact absurd hsome Finset.not_nonempty_empty
  · exact hsome

theorem VotersAreMembers.governance {call : GovernanceCall} (hv : VotersAreMembers b)
    (hc : match call with
      | .setEmergencyOverrideConfig _ emergencySigners _ _ =>
        ∀ a, b.OverrideVoted a → a ∈ emergencySigners
      | .submitGovernanceProposal .. => b.gov.counter.getD 0 + 1 < 2 ^ 64
      | _ => True)
    (h : call.exec env b.gov = .ok g') : VotersAreMembers { b with gov := g' } := by
  have hpending : ∀ proposal, b.gov.proposal = some proposal → proposal.status = .pending →
      ∀ a ∈ proposal.cancellationVotes, b.CancelVoted a ∨ IsMember b.gov.admin a :=
    fun proposal hsome hstatus a ha => .inl ⟨proposal, hsome, hstatus, ha⟩
  have hvoted : ∀ proposal, b.gov.proposal = some proposal → proposal.IsOpen →
      ∀ a ∈ b.gov.getOverrideVotes proposal.proposalId, b.OverrideVoted a :=
    fun proposal hsome hopen a ha => ⟨proposal, hsome, hopen, ha⟩
  cases call with
  | submitGovernanceProposal proposer wasmHash =>
    obtain ⟨_, h⟩ := snd_map_eq_ok.mp h
    exact hv.submit hc h
  | voteCancelGovernanceProposal voter proposalId sigExpiresAt => exact hv.voteCancel h
  | cancelGovernanceProposal canceller proposalId => exact hv.cancel h
  | setSecurityCouncil caller council =>
    obtain rfl := setSecurityCouncil_eq_ok h
    exact hv.onGovernance rfl hpending
      (fun proposal hsome hopen a ha => hv.override a (hvoted proposal hsome hopen a ha))
      hv.proposal_le hv.votes_le
  | vetoProposal caller proposalId reason =>
    obtain ⟨_, _, rfl⟩ := vetoProposal_eq_ok h
    exact hv.onGovernance rfl hpending
      (fun proposal hsome hopen a ha => hv.override a (hvoted proposal hsome hopen a ha))
      hv.proposal_le hv.votes_le
  | setEmergencyOverrideConfig caller emergencySigners thresholdBps enabled =>
    obtain rfl := setEmergencyOverrideConfig_eq_ok h
    exact hv.onGovernance rfl hpending
      (fun proposal hsome hopen a ha => hc a (hvoted proposal hsome hopen a ha))
      hv.proposal_le hv.votes_le
  | voteEmergencyOverride signer proposalId => exact hv.voteOverride h
  | executeEmergencyOverride executor proposalId =>
    obtain ⟨_, h⟩ := snd_map_eq_ok.mp h
    exact hv.executeOverride h

/-- A step that dismisses no voter keeps the voters members. -/
theorem ballotStep_votersAreMembers (hv : VotersAreMembers b) (hc : DismissesNoVoter b i)
    (h : ballotStep i b = .ok b') : VotersAreMembers b' := by
  have hc := hc ⟨b', h⟩
  obtain ⟨env, call⟩ := i
  cases call with
  | registerSigner signer caller =>
    obtain ⟨_, hregister, rfl⟩ := BallotStore.onAdmin_eq_ok.mp h
    exact hv.registerSigner hregister
  | removeSigner signer caller =>
    obtain ⟨_, hremove, rfl⟩ := BallotStore.onAdmin_eq_ok.mp h
    exact hv.removeSigner hc hremove
  | voteRevocation voter sigExpiresAt =>
    obtain ⟨_, hvote, rfl⟩ := BallotStore.onAdmin_eq_ok.mp h
    exact hv.voteRevocation hc hvote
  | proposePoolFeeTierChange proposer asset newTierBps =>
    obtain rfl := proposePoolFeeTierChange_eq_ok h
    exact hv.insertFeeTier fun a ha => absurd ha List.not_mem_nil
  | votePoolFeeTierChange voter asset =>
    obtain ⟨proposal, hmember, hproposal, ⟨_, _, _, rfl⟩ | ⟨_, rfl⟩⟩ :=
      votePoolFeeTierChange_eq_ok h
    · exact hv.eraseFeeTier asset
    · refine hv.insertFeeTier fun a ha => ?_
      rcases List.mem_append.mp ha with hold | hnew
      · exact .inl ⟨asset, proposal, hproposal, hold⟩
      · exact .inr (List.mem_singleton.mp hnew ▸ hmember)
  | cancelPoolFeeTierChange canceller asset =>
    obtain rfl := cancelPoolFeeTierChange_eq_ok h
    exact hv.eraseFeeTier asset
  | governance call =>
    simp only [ballotStep, bind_eq_ok, pure_eq_ok] at h
    obtain ⟨g', hexec, rfl⟩ := h
    refine hv.governance ?_ hexec
    cases call <;> exact hc

/-! ## Decisions -/

/-- While the voters are members, every vote counted is that of a member. -/
theorem decidedByMembers_of_votersAreMembers (hv : VotersAreMembers b) (i : BallotStep here) :
    DecidedByMembers b i := by
  intro b' h
  obtain ⟨env, call⟩ := i
  cases call with
  | voteRevocation voter sigExpiresAt =>
    intro proposal hproposal hnone
    obtain ⟨_, hvote, rfl⟩ := BallotStore.onAdmin_eq_ok.mp h
    obtain ⟨data, proposal', hdata, hproposal', _, _, hvoter, _, hor⟩ := voteRevocation_eq_ok hvote
    obtain rfl := Option.some.inj (hproposal.symm.trans hproposal')
    have hall : ∀ a ∈ insert voter proposal.votes, IsMember b.gov.admin a := by
      intro a ha
      rcases Finset.mem_insert.mp ha with rfl | hold
      · exact isMember_of_or hdata hvoter
      · exact hv.revocation a ⟨proposal, hproposal, hold⟩
    rw [Finset.filter_true_of_mem hall]
    rcases hor with ⟨hle, _⟩ | ⟨_, rfl⟩
    · exact hle
    · cases hnone
  | votePoolFeeTierChange voter asset =>
    intro proposal hproposal hnone
    obtain ⟨proposal', hmember, hproposal', hor⟩ := votePoolFeeTierChange_eq_ok h
    obtain rfl := Option.some.inj (hproposal.symm.trans hproposal')
    have hall : ∀ a ∈ proposal.votes ++ [voter], decide (IsMember b.gov.admin a) = true := by
      intro a ha
      rw [decide_eq_true_eq]
      rcases List.mem_append.mp ha with hold | hnew
      · exact hv.feeTier a ⟨asset, proposal, hproposal, hold⟩
      · exact List.mem_singleton.mp hnew ▸ hmember
    rw [List.filter_eq_self.mpr hall]
    rcases hor with ⟨hle, _⟩ | ⟨_, rfl⟩
    · exact hle
    · simp at hnone
  | governance call =>
    simp only [ballotStep, bind_eq_ok, pure_eq_ok] at h
    obtain ⟨g', hexec, rfl⟩ := h
    cases call with
    | voteCancelGovernanceProposal voter proposalId sigExpiresAt =>
      intro proposal proposal' hproposal hproposal' hcancelled
      obtain ⟨data, p, hdata, hmember, hp, hstatus, _, rfl⟩ :=
        voteCancelGovernanceProposal_eq_ok hexec
      obtain rfl := Option.some.inj (hproposal.symm.trans hp)
      obtain rfl := Option.some.inj hproposal'
      have hall : ∀ a ∈ insert voter proposal.cancellationVotes, IsMember b.gov.admin a := by
        intro a ha
        rcases Finset.mem_insert.mp ha with rfl | hold
        · exact isMember_of_or hdata hmember
        · exact hv.cancellation a ⟨proposal, hproposal, hstatus, hold⟩
      rw [Finset.filter_true_of_mem hall]
      by_contra hlt
      simp only [if_neg hlt, hstatus] at hcancelled
      cases hcancelled
    | executeEmergencyOverride executor proposalId =>
      obtain ⟨_, hexec⟩ := snd_map_eq_ok.mp hexec
      obtain ⟨p, hproposal, rfl, hopen, hle, _⟩ := executeEmergencyOverride_eq_ok hexec
      have hall : ∀ a ∈ b.gov.getOverrideVotes p.proposalId,
          a ∈ b.gov.loadEmergencyOverrideConfig.emergencySigners :=
        fun a ha => hv.override a ⟨p, hproposal, hopen, ha⟩
      simp only [Finset.filter_true_of_mem hall]
      exact hle.trans (Nat.mod_le _ _)
    | _ => trivial
  | _ => trivial

theorem BallotStore.start_votersAreMembers (admin : AdminStore) :
    VotersAreMembers (.start admin) where
  revocation := by
    rintro a ⟨proposal, hproposal, ha⟩
    obtain ⟨_, _, rfl⟩ := Option.map_eq_some_iff.mp hproposal
    exact absurd ha (Finset.notMem_empty a)
  cancellation := by
    rintro a ⟨proposal, hproposal, _⟩
    cases hproposal
  feeTier := by
    rintro a ⟨asset, proposal, hproposal, _⟩
    simp [BallotStore.start] at hproposal
  override := by
    rintro a ⟨proposal, hproposal, _⟩
    cases hproposal
  proposal_le _ hproposal := by cases hproposal
  votes_le proposalId hsome := by
    simp [BallotStore.start, GovernanceStore.getOverrideVotes] at hsome

/-- In every run whose steps dismiss no voter, current members decide every ballot. -/
theorem decidedByMembers_along {admin : AdminStore} {run : List (BallotStep here)}
    (hc : Along ballotStep DismissesNoVoter (.start admin) run) :
    Along ballotStep DecidedByMembers (.start admin) run :=
  along_of_along (I := VotersAreMembers)
    (fun _ _ _ hv hc h => ballotStep_votersAreMembers hv hc h)
    (fun _ i hv => decidedByMembers_of_votersAreMembers hv i)
    (BallotStore.start_votersAreMembers admin) hc

def everySigner : GovernanceEnv ⟨0⟩ := ⟨⟨.standard ⟨0⟩ 1 none, fun _ => true⟩, fun _ => false⟩

/-- Both signers vote for a fee tier. -/
def tierRun : List (BallotStep ⟨0⟩) :=
  [(everySigner, .registerSigner ⟨1⟩ ⟨9⟩), (everySigner, .registerSigner ⟨2⟩ ⟨9⟩),
    (everySigner, .proposePoolFeeTierChange ⟨9⟩ 5 100),
    (everySigner, .votePoolFeeTierChange ⟨1⟩ 5), (everySigner, .votePoolFeeTierChange ⟨2⟩ 5)]

theorem tierRun_decided :
    (runAll ballotStep (.start (.initialized ⟨9⟩)) tierRun).poolTiers.lookup 5 = some 100 ∧
    Along ballotStep DecidedByMembers (.start (.initialized ⟨9⟩)) tierRun :=
  ⟨by decide +kernel, decidedByMembers_along
    ⟨fun _ => trivial, fun _ => trivial, fun _ => trivial, fun _ => trivial, fun _ => trivial,
      trivial⟩⟩

/-- One of three signers votes and is removed, and another one votes. -/
def removedVoterRun : List (BallotStep ⟨0⟩) :=
  [(everySigner, .registerSigner ⟨1⟩ ⟨9⟩), (everySigner, .registerSigner ⟨2⟩ ⟨9⟩),
    (everySigner, .registerSigner ⟨3⟩ ⟨9⟩), (everySigner, .proposePoolFeeTierChange ⟨9⟩ 5 100),
    (everySigner, .votePoolFeeTierChange ⟨1⟩ 5), (everySigner, .removeSigner ⟨1⟩ ⟨9⟩)]

/-- The second vote decides, although one of two signers has voted. -/
def secondVote : BallotStep ⟨0⟩ := (everySigner, .votePoolFeeTierChange ⟨2⟩ 5)

theorem removed_voter_decides :
    (runAll ballotStep (.start (.initialized ⟨9⟩))
      (removedVoterRun ++ [secondVote])).poolTiers.lookup 5 = some 100 ∧
    ¬ Along ballotStep DecidedByMembers (.start (.initialized ⟨9⟩))
      (removedVoterRun ++ [secondVote]) := by
  have hafter : (runAll ballotStep (.start (.initialized ⟨9⟩))
      (removedVoterRun ++ [secondVote])).poolTiers.lookup 5 = some 100 := by
    decide +kernel
  refine ⟨hafter, ?_⟩
  intro halong
  have hlast : DecidedByMembers (runAll ballotStep (.start (.initialized ⟨9⟩)) removedVoterRun)
      secondVote := halong.last
  have hproposal : (runAll ballotStep (.start (.initialized ⟨9⟩))
      removedVoterRun).feeProposals.lookup 5 = some ⟨5, 100, ⟨9⟩, [⟨1⟩], 0⟩ := by
    decide +kernel
  have hclosed : (runAll ballotStep (.start (.initialized ⟨9⟩))
      (removedVoterRun ++ [secondVote])).feeProposals.lookup 5 = none := by
    decide +kernel
  have hmajority : majority (runAll ballotStep (.start (.initialized ⟨9⟩))
      removedVoterRun).gov.admin.getSigners.card = 2 := by
    decide +kernel
  have hmembers : (([⟨1⟩] ++ [⟨2⟩] : List Address).filter (IsMember (runAll ballotStep
      (.start (.initialized ⟨9⟩)) removedVoterRun).gov.admin)).length = 1 := by
    decide +kernel
  clear halong hafter
  rw [runAll_append] at hclosed
  generalize runAll ballotStep (.start (.initialized ⟨9⟩)) removedVoterRun = b at *
  cases hstep : ballotStep secondVote b with
  | error e =>
    rw [runAll_cons, commit_of_error hstep, runAll_nil, hproposal] at hclosed
    cases hclosed
  | ok b' =>
    rw [runAll_cons, commit_of_ok hstep, runAll_nil] at hclosed
    have hle := hlast b' hstep _ hproposal hclosed
    rw [hmajority, hmembers] at hle
    exact absurd hle (by decide)

end Ballots

end StellarFlow.Governance
