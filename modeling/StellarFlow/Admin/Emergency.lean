import StellarFlow.Admin.Store

/-!
# Emergency revocation

A signer or the admin opens a proposal against a compromised signer or admin, and a majority
revokes it at once. The procedure asks for the entries per address and for a number of signers,
while the registration keeps a set. Whoever is registered is therefore no signer here, and the
procedure works for the registered signers only when there is none besides the admin.
-/
namespace StellarFlow.Admin

open Foundation

def proposalExpirationSeconds : ℕ := 604800
/-- Ledgers for which a proposal is kept after it is opened and after a vote. -/
def defaultProposalTtl : ℕ := 172800
def extendedProposalTtl : ℕ := 259200

/-- A proposal is open for a week. -/
def IsExpired (now proposedAt : ℕ) : Prop := proposalExpirationSeconds ≤ now - proposedAt

instance (now proposedAt : ℕ) : Decidable (IsExpired now proposedAt) :=
  inferInstanceAs (Decidable (_ ≤ _))

/-- The votes needed, from the number of signers under `SIGNERS`. A stored set is not a
number. -/
def revocationThreshold (s : AdminStore) : Except Fault ℕ :=
  match s.signers with
  | none => pure (majority 0)
  | some _ => .error .trap

def executeEmergencyRevocation (data : ContractData) (proposal : EmergencyRevocationProposal)
    (s : AdminStore) : AdminStore :=
  { s with
    revoked := insert proposal.target s.revoked
    signerKeys :=
      if proposal.replacement = proposal.target then s.signerKeys.erase proposal.target
      else insert proposal.replacement (s.signerKeys.erase proposal.target)
    data :=
      if data.admin = proposal.target then some { data with admin := proposal.replacement }
      else s.data
    emergency := none }

variable {here : Address} (env : Env here)

/-- A temporary entry that is still alive. -/
def getTempProposal (s : AdminStore) : Option EmergencyRevocationProposal :=
  (s.emergency.filter fun entry => env.sequence ≤ entry.liveUntil).map Temporary.value

/-- The live proposal, unless it has expired. -/
def openProposal (s : AdminStore) : Option EmergencyRevocationProposal :=
  (getTempProposal env s).filter fun proposal => ¬ IsExpired env.timestamp proposal.proposedAt

/-- Revoke the target when the votes reach the threshold, otherwise keep the proposal. -/
def tallyEmergency (data : ContractData) (proposal : EmergencyRevocationProposal) (ttl : ℕ)
    (s : AdminStore) : Except Fault AdminStore := do
  let threshold ← revocationThreshold s
  if threshold ≤ proposal.votes.length then
    pure (executeEmergencyRevocation data proposal s)
  else pure { s with emergency := some ⟨proposal, env.sequence + ttl⟩ }

/-- An expired proposal is removed before a new one is opened. -/
def proposeEmergencyRevocation (proposer target replacement : Address) (s : AdminStore) :
    Except Fault AdminStore := do
  assertNotRevoked proposer s
  checkStagingAccess proposer s
  let data ← s.getData
  failIf (proposer = target) (Fault.error .unauthorized)
  failIf (data.admin ≠ proposer ∧ proposer ∉ s.signerKeys) (Fault.error .unauthorized)
  env.requireAuth proposer
  failIf ((openProposal env s).isSome) (Fault.error .emergencyRevocationAlreadyActive)
  failIf (data.admin ≠ target ∧ target ∉ s.signerKeys) (Fault.error .targetNotAdmin)
  tallyEmergency env data ⟨target, replacement, proposer, env.timestamp, [proposer]⟩
    defaultProposalTtl s

def voteEmergencyRevocation (voter : Address) (sigExpiresAt : ℕ) (s : AdminStore) :
    Except Fault AdminStore := do
  checkSignatureTime env sigExpiresAt
  env.requireAuth voter
  let data ← s.getData
  failIf (data.admin ≠ voter ∧ voter ∉ s.signerKeys) (Fault.error .unauthorized)
  let proposal ← okOr (openProposal env s) (Fault.error .noActiveEmergencyRevocation)
  failIf (voter ∈ proposal.votes) (Fault.error .alreadyVoted)
  failIf (voter = proposal.target) (Fault.error .unauthorized)
  tallyEmergency env data { proposal with votes := proposal.votes ++ [voter] }
    extendedProposalTtl s

def purgeEmergencyRevocationProposal (s : AdminStore) : Except Fault AdminStore := do
  let _ ← s.getData
  pure { s with emergency := none }

/-! ## Calls -/

inductive SignerCall
  | registerSigner (signer caller : Address)
  | removeSigner (signer caller : Address)

abbrev SignerStep (here : Address) := Env here × SignerCall

def signerStep (i : SignerStep here) (s : AdminStore) : Except Fault AdminStore :=
  match i.2 with
  | .registerSigner signer caller => registerSigner i.1 signer caller s
  | .removeSigner signer caller => removeSigner i.1 signer caller s

inductive EmergencyCall
  | propose (proposer target replacement : Address)
  | vote (voter : Address) (sigExpiresAt : ℕ)

abbrev EmergencyStep (here : Address) := Env here × EmergencyCall

def emergencyStep (i : EmergencyStep here) (s : AdminStore) : Except Fault AdminStore :=
  match i.2 with
  | .propose proposer target replacement =>
    proposeEmergencyRevocation i.1 proposer target replacement s
  | .vote voter sigExpiresAt => voteEmergencyRevocation i.1 voter sigExpiresAt s

def EmergencyCall.caller : EmergencyCall → Address
  | .propose proposer .. => proposer
  | .vote voter _ => voter

/-- The target of a call and the votes against it, that of the caller included. -/
def EmergencyCall.ballot (call : EmergencyCall) (s : AdminStore) :
    Option (Address × List Address) :=
  match call with
  | .propose proposer target _ => some (target, [proposer])
  | .vote voter _ =>
    (openProposal env s).map fun proposal => (proposal.target, proposal.votes ++ [voter])

/-- The votes of the admin and of registered signers, without the target. -/
def eligibleVotes (s : AdminStore) (target : Address) (votes : List Address) : Finset Address :=
  votes.toFinset.filter fun voter =>
    (s.IsAdmin voter ∨ voter ∈ s.getSigners) ∧ voter ≠ target

/-- A registered signer may open a proposal against the admin or another registered signer. -/
def MayOpen (here : Address) (s : AdminStore) : Prop :=
  ∀ (env : Env here) (proposer target replacement : Address), proposer ∈ s.getSigners →
    proposer ≠ target → s.IsAdmin target ∨ target ∈ s.getSigners → env.auth proposer = true →
    ∃ s', proposeEmergencyRevocation env proposer target replacement s = .ok s'

/-- A call that its caller signed does not trap. -/
def DoesNotTrap (s : AdminStore) (i : EmergencyStep here) : Prop :=
  i.1.auth i.2.caller = true → emergencyStep i s ≠ .error .trap

/-- An accepted call revokes its target exactly when the eligible votes are a majority of the
registered signers. -/
def RevokesByMajority (s : AdminStore) (i : EmergencyStep here) : Prop :=
  ∀ s' target votes, emergencyStep i s = .ok s' → i.2.ballot i.1 s = some (target, votes) →
    target ∉ s.revoked →
    (target ∈ s'.revoked ↔ majority s.getSigners.card ≤ (eligibleVotes s target votes).card)

/-- The procedure serves the registered signers, whatever calls follow. -/
def EmergencyWorks (here : Address) (s : AdminStore) : Prop :=
  MayOpen here s ∧ ∀ run : List (EmergencyStep here),
    Along emergencyStep (fun s i => DoesNotTrap s i ∧ RevokesByMajority s i) s run

/-- A registered signer that can sign is the admin, and the only one. -/
def NobodyBesidesAdmin (here : Address) (s : AdminStore) : Prop :=
  ∀ a ∈ s.getSigners, a ≠ here → s.IsAdmin a ∧ ∀ b ∈ s.getSigners, b = a

section Emergency

variable {here : Address} {env : Env here} {s s' : AdminStore} {i : EmergencyStep here}
  {admin a : Address} {data : ContractData} {proposal : EmergencyRevocationProposal}

/-- Registrations leave the emergency procedure as after the initialisation. -/
structure OnlyRegistered (admin : Address) (s : AdminStore) : Prop where
  data_eq : s.data = some ⟨admin, 0, 10000⟩
  signerKeys_eq : s.signerKeys = ∅
  revoked_eq : s.revoked = ∅
  staging_eq : s.staging = none
  emergency_eq : s.emergency = none

theorem OnlyRegistered.initialized (admin : Address) : OnlyRegistered admin (.initialized admin) :=
  ⟨rfl, rfl, rfl, rfl, rfl⟩

theorem signerStep_onlyRegistered {i : SignerStep here} (hs : OnlyRegistered admin s)
    (h : signerStep i s = .ok s') : OnlyRegistered admin s' := by
  obtain ⟨env, call⟩ := i
  obtain ⟨hdata, hkeys, hrevoked, hstaging, hemergency⟩ := hs
  cases call with
  | registerSigner signer caller =>
    obtain ⟨_, _, _, ⟨_, rfl⟩ | rfl⟩ := registerSigner_eq_ok h
    · exact ⟨hdata, hkeys, hrevoked, hstaging, hemergency⟩
    · exact ⟨hdata, hkeys, hrevoked, hstaging, hemergency⟩
  | removeSigner signer caller =>
    obtain ⟨_, _, rfl⟩ := removeSigner_eq_ok h
    exact ⟨hdata, hkeys, hrevoked, hstaging, hemergency⟩

theorem OnlyRegistered.openProposal_eq (hs : OnlyRegistered admin s) (env : Env here) :
    openProposal env s = none := by
  simp [openProposal, getTempProposal, hs.emergency_eq]

theorem OnlyRegistered.isAdmin_iff (hs : OnlyRegistered admin s) : s.IsAdmin a ↔ a = admin := by
  rw [AdminStore.isAdmin_iff hs.data_eq, eq_comm]

/-- Only the admin passes as a proposer, and then nobody passes as a target. -/
theorem OnlyRegistered.propose_eq (hs : OnlyRegistered admin s)
    (proposer target replacement : Address) (hauth : env.auth proposer = true) :
    proposeEmergencyRevocation env proposer target replacement s =
      .error (Fault.error (if proposer = target ∨ proposer ≠ admin then .unauthorized
        else .targetNotAdmin)) := by
  have hnot : assertNotRevoked proposer s = .ok () := by simp [hs.revoked_eq]
  have hstaging : checkStagingAccess proposer s = .ok () := by
    simp [checkStagingAccess, AdminStore.getStagingConfig, hs.staging_eq, pure, Except.pure]
  simp only [proposeEmergencyRevocation, hnot, hstaging, AdminStore.getData, hs.data_eq,
    okOr_some, ok_bind, hs.signerKeys_eq, hs.openProposal_eq, Finset.notMem_empty]
  by_cases hself : proposer = target
  · simp [hself, bind, Except.bind, failIf]
  · by_cases hadmin : admin = proposer
    · subst hadmin
      simp [hself, bind, Except.bind, failIf, Env.requireAuth, hauth]
    · simp [hself, hadmin, Ne.symm hadmin, bind, Except.bind, failIf]

/-- There is nothing to vote on. -/
theorem OnlyRegistered.vote_eq (hs : OnlyRegistered admin s) (voter : Address) (sigExpiresAt : ℕ)
    (hauth : env.auth voter = true) :
    voteEmergencyRevocation env voter sigExpiresAt s =
      .error (Fault.error (if sigExpiresAt < env.timestamp then .signatureExpired
        else if voter ≠ admin then .unauthorized else .noActiveEmergencyRevocation)) := by
  simp only [voteEmergencyRevocation, checkSignatureTime, Env.requireAuth, hauth,
    AdminStore.getData, hs.data_eq, okOr_some, ok_bind, hs.signerKeys_eq, hs.openProposal_eq,
    Finset.notMem_empty]
  by_cases htime : sigExpiresAt < env.timestamp
  · simp [htime, bind, Except.bind, failIf]
  · by_cases hadmin : admin = voter
    · simp [htime, hadmin, bind, Except.bind, failIf, okOr]
    · simp [htime, hadmin, Ne.symm hadmin, bind, Except.bind, failIf]

/-- Every signed call of the procedure is refused, none by a trap. -/
theorem OnlyRegistered.emergencyStep_error (hs : OnlyRegistered admin s) (i : EmergencyStep here)
    (hauth : i.1.auth i.2.caller = true) : ∃ e, emergencyStep i s = .error (Fault.error e) := by
  obtain ⟨env, call⟩ := i
  cases call with
  | propose proposer target replacement =>
    exact ⟨_, hs.propose_eq proposer target replacement hauth⟩
  | vote voter sigExpiresAt => exact ⟨_, hs.vote_eq voter sigExpiresAt hauth⟩

theorem emergencyStep_auth (h : emergencyStep i s = .ok s') : i.1.auth i.2.caller = true := by
  obtain ⟨env, call⟩ := i
  cases call with
  | propose proposer target replacement =>
    simp only [emergencyStep, proposeEmergencyRevocation, bind_eq_ok, Env.requireAuth_eq_ok] at h
    obtain ⟨_, _, _, _, _, _, _, _, _, _, _, hauth, _⟩ := h
    exact hauth
  | vote voter sigExpiresAt =>
    simp only [emergencyStep, voteEmergencyRevocation, bind_eq_ok, Env.requireAuth_eq_ok] at h
    obtain ⟨_, _, _, hauth, _⟩ := h
    exact hauth

theorem OnlyRegistered.not_accepted (hs : OnlyRegistered admin s) (i : EmergencyStep here) :
    emergencyStep i s ≠ .ok s' := by
  intro h
  obtain ⟨e, he⟩ := hs.emergencyStep_error i (emergencyStep_auth h)
  cases h.symm.trans he

/-- No call is accepted, so nothing traps and nobody is revoked. -/
theorem OnlyRegistered.along (hs : OnlyRegistered admin s) (run : List (EmergencyStep here)) :
    Along emergencyStep (fun s i => DoesNotTrap s i ∧ RevokesByMajority s i) s run := by
  refine along_of_invariant (I := OnlyRegistered admin)
    (fun s i s' hs h => absurd h (hs.not_accepted i)) (fun s i hs => ⟨fun hauth => ?_, ?_⟩) hs run
  · obtain ⟨e, he⟩ := hs.emergencyStep_error i hauth
    rw [he]
    simp
  · intro s' _ _ h
    exact absurd h (hs.not_accepted i)

/-- After any registrations the procedure works exactly if there is no registered signer who
could use it: whoever can sign is the admin, and nobody else is registered. -/
theorem OnlyRegistered.mayOpen_iff (hs : OnlyRegistered admin s) :
    MayOpen here s ↔ NobodyBesidesAdmin here s := by
  constructor
  · intro hopen a ha hhere
    let env : Env here := .standard here 0 none
    have hauth : env.auth a = true := by simp [env, Env.standard, hhere]
    have hrefused : ∀ target, a ≠ target → ¬ (s.IsAdmin target ∨ target ∈ s.getSigners) := by
      intro target hne htarget
      obtain ⟨s', h⟩ := hopen env a target a ha hne htarget hauth
      rw [hs.propose_eq a target a hauth] at h
      cases h
    have hadmin : a = admin := by
      by_contra hne
      exact hrefused admin hne (.inl (hs.isAdmin_iff.mpr rfl))
    refine ⟨hs.isAdmin_iff.mpr hadmin, fun b hb => ?_⟩
    by_contra hne
    exact hrefused b (Ne.symm hne) (.inr hb)
  · intro hall env proposer target replacement hproposer hne htarget hauth
    obtain ⟨hadmin, honly⟩ := hall proposer hproposer (Env.ne_here_of_auth hauth)
    rcases htarget with htarget | htarget
    · exact absurd ((hs.isAdmin_iff.mp hadmin).trans (hs.isAdmin_iff.mp htarget).symm) hne
    · exact absurd (honly target htarget).symm hne

/-- In every state that registrations reach from an initialisation, the procedure works exactly
if no signer besides the admin is registered who could use it. -/
theorem emergencyWorks_iff (admin : Address) (run : List (SignerStep here)) :
    EmergencyWorks here (runAll signerStep (.initialized admin) run) ↔
      NobodyBesidesAdmin here (runAll signerStep (.initialized admin) run) := by
  have hs : OnlyRegistered admin (runAll signerStep (.initialized admin) run) :=
    runAll_induction (fun _ _ _ hs h => signerStep_onlyRegistered hs h) (.initialized admin) run
  exact (and_iff_left_of_imp fun _ => hs.along).trans hs.mayOpen_iff

/-- The admin registers a signer. -/
def oneSignerRun : List (SignerStep ⟨0⟩) :=
  [(.standard ⟨0⟩ 1 none, .registerSigner ⟨1⟩ ⟨9⟩)]

/-- Neither the signer nor the admin may open a proposal against the other. -/
theorem registered_signer_refused :
    (runAll signerStep (.initialized ⟨9⟩) oneSignerRun).getSigners = {⟨1⟩} ∧
    ¬ EmergencyWorks ⟨0⟩ (runAll signerStep (.initialized ⟨9⟩) oneSignerRun) := by
  have hsigners : (runAll signerStep (.initialized ⟨9⟩) oneSignerRun).getSigners = {⟨1⟩} := by
    decide +kernel
  have hs : OnlyRegistered ⟨9⟩ (runAll signerStep (.initialized ⟨9⟩) oneSignerRun) :=
    runAll_induction (fun _ _ _ hs h => signerStep_onlyRegistered hs h) (.initialized ⟨9⟩)
      oneSignerRun
  refine ⟨hsigners, ?_⟩
  rintro ⟨hopen, _⟩
  generalize runAll signerStep (.initialized ⟨9⟩) oneSignerRun = s at *
  obtain ⟨s', h⟩ := hopen (.standard ⟨0⟩ 1 none) ⟨1⟩ ⟨9⟩ ⟨2⟩ (by simp [hsigners]) (by decide)
    (.inl (hs.isAdmin_iff.mpr rfl)) (by decide)
  rw [hs.propose_eq ⟨1⟩ ⟨9⟩ ⟨2⟩ (by decide)] at h
  cases h

end Emergency

end StellarFlow.Admin
