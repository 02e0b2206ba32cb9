import StellarFlow.Archive.Merkle

/-!
# The register of votes

The admin registers voters, weighs them and opens proposals. A vote is packed at the index of
its voter, or kept in a detailed list of voters. Once the tally reaches the threshold the
proposal is finalized, and its votes can be replaced by the root of a hash tree over them.
-/
namespace StellarFlow.Archive

open Foundation

/-- The largest threshold that can be set. -/
def maxWeightThreshold : ℕ := 100

structure ProposalState where
  executed : Bool
  cancelled : Bool
  voteCount : ℕ
  finalTally : ℕ
  deriving DecidableEq

/-- What is left of the votes of a proposal after compression. -/
structure ArchiveRecord where
  root : Bytes32
  leafCount : ℕ
  finalTally : ℕ
  deriving DecidableEq

structure Participant where
  index : ℕ
  voter : Address
  weight : ℕ
  deriving DecidableEq

/-- The storage. The index of a voter is its position. -/
structure Register where
  admin : Option Address
  voters : List Address
  weightThreshold : Option ℕ
  proposal : Store UInt64 ProposalState
  actionVotes : Store UInt64 (List Address)
  adminWeight : Store Address ℕ
  voteBits : Store UInt64 Words
  packedWeights : Store UInt64 Words
  archive : Store UInt64 ArchiveRecord

namespace Register

def deployed : Register := ⟨none, [], none, ∅, ∅, ∅, ∅, ∅, ∅⟩

variable (r : Register)

def getVoteBits (proposalId : UInt64) : Words := (r.voteBits.lookup proposalId).getD []

def getPackedWeights (proposalId : UInt64) : Words := (r.packedWeights.lookup proposalId).getD []

def getActionVotes (proposalId : UInt64) : List Address :=
  (r.actionVotes.lookup proposalId).getD []

def getAdminWeight (voter : Address) : ℕ := (r.adminWeight.lookup voter).getD defaultVoteWeight

def voterIndex (voter : Address) : Option ℕ := r.voters.idxOf? voter

def requiredThreshold : ℕ := r.weightThreshold.getD (if r.voters.length ≤ 3 then 2 else 3)

/-- Only the admin passes. The error is that of the operation. -/
def checkAdmin (caller : Address) (e : ArchiveError) : Except ArchiveFault Unit := do
  let admin ← okOr r.admin (.error .notInitialized)
  failIf (caller ≠ admin) (.error e)

/-! ## Configuration -/

def initializeArchive (admin : Address) : Except ArchiveFault Register := do
  failIf (r.admin ≠ none) (.error .alreadyInitialized)
  pure { r with admin := some admin }

def addVoter (caller voter : Address) : Except ArchiveFault (ℕ × Register) := do
  r.checkAdmin caller .notAdmin
  match r.voterIndex voter with
  | some index => pure (index, r)
  | none => do
    let _ ← okOr (checkBits 32 (r.voters.length + 1)) .trap
    pure (r.voters.length, { r with voters := r.voters ++ [voter] })

def setAdminWeight (caller voter : Address) (weight : ℕ) : Except ArchiveFault Register := do
  r.checkAdmin caller .notAdmin
  failIf (r.voterIndex voter = none) (.error .unknownVoter)
  let _ ← packWeight weight
  pure { r with adminWeight := r.adminWeight.insert voter weight }

def setWeightThreshold (caller : Address) (threshold : ℕ) : Except ArchiveFault Register := do
  r.checkAdmin caller .notAdmin
  failIf (threshold < 1 ∨ maxWeightThreshold < threshold) (.error .invalidThreshold)
  pure { r with weightThreshold := some threshold }

/-! ## Proposals and votes -/

def loadProposal (proposalId : UInt64) : Except ArchiveFault ProposalState :=
  okOr (r.proposal.lookup proposalId) (.error .proposalNotFound)

def setProposal (proposalId : UInt64) (state : ProposalState) : Register :=
  { r with proposal := r.proposal.insert proposalId state }

def proposeAction (proposer : Address) (proposalId : UInt64) : Except ArchiveFault Register := do
  r.checkAdmin proposer .notAuthorized
  failIf (r.proposal.lookup proposalId ≠ none) (.error .proposalAlreadyExists)
  pure (r.setProposal proposalId ⟨false, false, 0, 0⟩)

/-- An executed proposal can still be cancelled. -/
def cancelAction (canceller : Address) (proposalId : UInt64) : Except ArchiveFault Register := do
  r.checkAdmin canceller .notAuthorized
  let state ← r.loadProposal proposalId
  failIf state.cancelled (.error .proposalClosed)
  pure (r.setProposal proposalId { state with cancelled := true })

def ensureOpen (proposalId : UInt64) (state : ProposalState) : Except ArchiveFault Unit := do
  failIf (state.executed ∨ state.cancelled) (.error .proposalClosed)
  failIf (r.archive.lookup proposalId ≠ none) (.error .proposalClosed)

/-- Whether the voter with an index has voted, in either layout. -/
def hasVoted (proposalId : UInt64) (voterIndex : ℕ) : Bool :=
  isBitSet (r.getVoteBits proposalId) voterIndex ||
    match r.voters[voterIndex]? with
    | some voter => (r.getActionVotes proposalId).contains voter
    | none => false

def pushActionVote (proposalId : UInt64) (voter : Address) : Register :=
  { r with actionVotes :=
      r.actionVotes.insert proposalId (r.getActionVotes proposalId ++ [voter]) }

/-- Record a vote, packed if its weight can be. -/
def recordVote (proposalId : UInt64) (voter : Address) (index : ℕ) :
    Except ArchiveFault Register := do
  let weight := r.getAdminWeight voter
  match encodingFor weight with
  | .packed => do
    let optionBits := setPackedBit (r.getVoteBits proposalId) index
    let packedWeights ← setPackedWeight (r.getPackedWeights proposalId) index weight
    pure { r with
      voteBits := r.voteBits.insert proposalId optionBits
      packedWeights := r.packedWeights.insert proposalId packedWeights }
  | .detailedFallback => pure (r.pushActionVote proposalId voter)

/-- One more vote of a proposal. -/
def countVote (proposalId : UInt64) (state : ProposalState) :
    Except ArchiveFault (ℕ × Register) := do
  let voteCount ← okOr (checkBits 32 (state.voteCount + 1)) .trap
  pure (voteCount, r.setProposal proposalId { state with voteCount })

def castVote (voter : Address) (proposalId : UInt64) : Except ArchiveFault (ℕ × Register) := do
  let state ← r.loadProposal proposalId
  r.ensureOpen proposalId state
  let index ← okOr (r.voterIndex voter) (.error .notAuthorized)
  failIf (r.hasVoted proposalId index) (.error .alreadyVoted)
  let r ← r.recordVote proposalId voter index
  r.countVote proposalId state

/-- A vote in the detailed layout. Only this layout is searched for an earlier vote. -/
def castVoteDetailed (voter : Address) (proposalId : UInt64) :
    Except ArchiveFault (ℕ × Register) := do
  let state ← r.loadProposal proposalId
  r.ensureOpen proposalId state
  let _ ← okOr (r.voterIndex voter) (.error .notAuthorized)
  failIf (voter ∈ r.getActionVotes proposalId) (.error .alreadyVoted)
  (r.pushActionVote proposalId voter).countVote proposalId state

/-! ## Tally and archive -/

/-- The weight of all votes. Votes of the detailed layout weigh what is configured now. -/
def tally (proposalId : UInt64) : Except ArchiveFault ℕ := do
  let _ ← r.loadProposal proposalId
  match r.archive.lookup proposalId with
  | some record => pure record.finalTally
  | none =>
    let total := packedWeightSum (r.getVoteBits proposalId) (r.getPackedWeights proposalId)
      r.voters.length
    pure ((r.getActionVotes proposalId).foldl (fun total voter =>
      saturatingAdd total (r.getAdminWeight voter)) total)

def finalize (proposalId : UInt64) : Except ArchiveFault (ProposalState × Register) := do
  let state ← r.loadProposal proposalId
  if state.executed then pure (state, r)
  else do
    failIf state.cancelled (.error .proposalClosed)
    let total ← r.tally proposalId
    failIf (total < r.requiredThreshold) (.error .thresholdNotReached)
    let state := { state with finalTally := total, executed := true }
    pure (state, r.setProposal proposalId state)

def packedParticipants (proposalId : UInt64) : Except ArchiveFault (List Participant) :=
  (r.voters.zipIdx.filter fun entry => isBitSet (r.getVoteBits proposalId) entry.2).mapM
    fun entry => do
      let weight ← packedWeight (r.getPackedWeights proposalId) entry.2
      pure ⟨entry.2, entry.1, weight⟩

/-- One voter of the detailed layout, unless it is listed already. -/
def listVoter (list : List Participant) (voter : Address) :
    Except ArchiveFault (List Participant) := do
  let index ← okOr (r.voterIndex voter) (.error .unknownVoter)
  if list.any (fun participant => participant.index == index) then pure list
  else pure (list ++ [⟨index, voter, r.getAdminWeight voter⟩])

/-- All voters of a proposal by their index. -/
def participants (proposalId : UInt64) : Except ArchiveFault (List Participant) := do
  let packed ← r.packedParticipants proposalId
  let list ← (r.getActionVotes proposalId).foldlM r.listVoter packed
  pure (list.mergeSort fun p q => p.index ≤ q.index)

variable (crypto : ArchiveCrypto)

/-- The bytes of the leaf of a participant. -/
def participantPreimage (proposalId : UInt64) (p : Participant) : ByteString :=
  leafPreimage crypto proposalId p.index true p.weight p.voter

def compressAfterExecution (proposalId : UInt64) :
    Except ArchiveFault (ArchiveRecord × Register) := do
  let state ← r.loadProposal proposalId
  failIf (¬ state.executed) (.error .proposalNotExecuted)
  failIf (r.archive.lookup proposalId ≠ none) (.error .alreadyCompressed)
  let participants ← r.participants proposalId
  let leaves := participants.map fun p => leafHash crypto proposalId p.index true p.weight p.voter
  let record := ⟨merkleRoot crypto leaves, leaves.length, state.finalTally⟩
  pure (record, { r with
    archive := r.archive.insert proposalId record
    voteBits := r.voteBits.erase proposalId
    packedWeights := r.packedWeights.erase proposalId
    actionVotes := r.actionVotes.erase proposalId })

def verifyArchivedVote (proposalId : UInt64) (leafPosition voterIndex : UInt32)
    (voter : Address) (option : Bool) (weight : UInt32) (proof : List Bytes32) :
    Except ArchiveFault Bool := do
  let record ← okOr (r.archive.lookup proposalId) (.error .archiveNotFound)
  let leaf := leafHash crypto proposalId voterIndex.toNat option weight.toNat voter
  pure (verifyProof crypto record.root leaf leafPosition.toNat record.leafCount proof)

end Register

/-! ## Calls of the register -/

inductive RegisterCall
  | initializeArchive (admin : Address)
  | addVoter (caller voter : Address)
  | setAdminWeight (caller voter : Address) (weight : ℕ)
  | setWeightThreshold (caller : Address) (threshold : ℕ)
  | proposeAction (proposer : Address) (proposalId : UInt64)
  | cancelAction (canceller : Address) (proposalId : UInt64)
  | castVote (voter : Address) (proposalId : UInt64)
  | castVoteDetailed (voter : Address) (proposalId : UInt64)
  | finalize (proposalId : UInt64)
  | compressAfterExecution (proposalId : UInt64)

variable (crypto : ArchiveCrypto)

def registerStep : RegisterCall → Register → Except ArchiveFault Register
  | .initializeArchive admin, r => r.initializeArchive admin
  | .addVoter caller voter, r => Prod.snd <$> r.addVoter caller voter
  | .setAdminWeight caller voter weight, r => r.setAdminWeight caller voter weight
  | .setWeightThreshold caller threshold, r => r.setWeightThreshold caller threshold
  | .proposeAction proposer proposalId, r => r.proposeAction proposer proposalId
  | .cancelAction canceller proposalId, r => r.cancelAction canceller proposalId
  | .castVote voter proposalId, r => Prod.snd <$> r.castVote voter proposalId
  | .castVoteDetailed voter proposalId, r => Prod.snd <$> r.castVoteDetailed voter proposalId
  | .finalize proposalId, r => Prod.snd <$> r.finalize proposalId
  | .compressAfterExecution proposalId, r =>
    Prod.snd <$> r.compressAfterExecution crypto proposalId

namespace Register

/-- A proposal that takes votes. -/
structure Votable (r : Register) (id : UInt64) (state : ProposalState) : Prop where
  lookup : r.proposal.lookup id = some state
  executed : state.executed = false
  cancelled : state.cancelled = false
  archive : r.archive.lookup id = none

/-- The state after the votes of a proposal were replaced by a record. -/
def compressed (r : Register) (id : UInt64) (record : ArchiveRecord) : Register :=
  { r with
    archive := r.archive.insert id record
    voteBits := r.voteBits.erase id
    packedWeights := r.packedWeights.erase id
    actionVotes := r.actionVotes.erase id }

/-- The record of a list of participants. -/
def recordOf (crypto : ArchiveCrypto) (id : UInt64) (ps : List Participant) (finalTally : ℕ) :
    ArchiveRecord :=
  ⟨merkleRoot crypto ((ps.map (participantPreimage crypto id)).map crypto.sha256), ps.length,
    finalTally⟩

/-- What an accepted call does. -/
inductive Change (r : Register) : RegisterCall → Register → Prop
  | admin (a : Address) : Change r (.initializeArchive a) { r with admin := some a }
  | sameVoter (c v : Address) : Change r (.addVoter c v) r
  | newVoter (c v : Address) (hnew : v ∉ r.voters) (hlt : r.voters.length + 1 < 2 ^ 32) :
      Change r (.addVoter c v) { r with voters := r.voters ++ [v] }
  | weight (c v : Address) (w : ℕ) (hw : 1 ≤ w ∧ w ≤ 100) :
      Change r (.setAdminWeight c v w) { r with adminWeight := r.adminWeight.insert v w }
  | threshold (c : Address) (t : ℕ) (ht : 1 ≤ t) :
      Change r (.setWeightThreshold c t) { r with weightThreshold := some t }
  | propose (c : Address) (id : UInt64) (hnew : r.proposal.lookup id = none) :
      Change r (.proposeAction c id) (r.setProposal id ⟨false, false, 0, 0⟩)
  | cancel (c : Address) (id : UInt64) (state : ProposalState)
      (hstate : r.proposal.lookup id = some state) (hopen : state.cancelled = false) :
      Change r (.cancelAction c id) (r.setProposal id { state with cancelled := true })
  | vote (v : Address) (id : UInt64) (state : ProposalState) (i : ℕ) (r₁ : Register)
      (hopen : r.Votable id state) (hi : r.voterIndex v = some i)
      (hnew : r.hasVoted id i = false) (hrecord : r.recordVote id v i = .ok r₁) :
      Change r (.castVote v id)
        (r₁.setProposal id { state with voteCount := state.voteCount + 1 })
  | detailed (v : Address) (id : UInt64) (state : ProposalState) (i : ℕ)
      (hopen : r.Votable id state) (hi : r.voterIndex v = some i)
      (hnew : v ∉ r.getActionVotes id) :
      Change r (.castVoteDetailed v id)
        ((r.pushActionVote id v).setProposal id { state with voteCount := state.voteCount + 1 })
  | finalizedBefore (id : UInt64) (state : ProposalState)
      (hstate : r.proposal.lookup id = some state) (hexecuted : state.executed = true) :
      Change r (.finalize id) r
  | finalized (id : UInt64) (state : ProposalState) (total : ℕ)
      (hstate : r.proposal.lookup id = some state) (hexecuted : state.executed = false)
      (htotal : r.tally id = .ok total) (hreached : r.requiredThreshold ≤ total) :
      Change r (.finalize id)
        (r.setProposal id { state with finalTally := total, executed := true })
  | compress (id : UInt64) (state : ProposalState) (ps : List Participant)
      (hstate : r.proposal.lookup id = some state) (hexecuted : state.executed = true)
      (harchive : r.archive.lookup id = none) (hps : r.participants id = .ok ps) :
      Change r (.compressAfterExecution id)
        (r.compressed id (recordOf crypto id ps state.finalTally))

variable {crypto} {r r' : Register}

theorem ensureOpen_eq_ok {id : UInt64} {state : ProposalState} {u : Unit} :
    r.ensureOpen id state = .ok u ↔
      (state.executed = false ∧ state.cancelled = false) ∧ r.archive.lookup id = none := by
  simp only [ensureOpen, bind_eq_ok, failIf_eq_ok, not_or, Bool.not_eq_true, ne_eq, not_not,
    exists_const]

theorem loadProposal_eq_ok {id : UInt64} {state : ProposalState} :
    r.loadProposal id = .ok state ↔ r.proposal.lookup id = some state := okOr_eq_ok

theorem countVote_eq_ok {id : UInt64} {state : ProposalState} {n : ℕ}
    (h : r.countVote id state = .ok (n, r')) :
    r' = r.setProposal id { state with voteCount := state.voteCount + 1 } := by
  simp only [countVote, bind_eq_ok, okOr_eq_ok, checkBits_eq_some, pure_eq_ok, Prod.mk.injEq] at h
  obtain ⟨_, ⟨_, rfl⟩, _, rfl⟩ := h
  rfl

end Register

open Register

section Steps

variable {crypto} {r r' : Register}

/-- An accepted call makes one of the changes. -/
theorem registerStep_change {call : RegisterCall} (h : registerStep crypto call r = .ok r') :
    Change crypto r call r' := by
  cases call with
  | initializeArchive admin =>
    obtain ⟨_, _, h⟩ := bind_eq_ok.mp h
    obtain rfl := pure_eq_ok.mp h
    exact .admin admin
  | addVoter caller voter =>
    obtain ⟨index, h⟩ := snd_map_eq_ok.mp h
    obtain ⟨_, _, h⟩ := bind_eq_ok.mp h
    cases hindex : r.voterIndex voter with
    | some i =>
      rw [hindex] at h
      obtain ⟨-, rfl⟩ := Prod.mk.inj (pure_eq_ok.mp h)
      exact .sameVoter caller voter
    | none =>
      rw [hindex] at h
      obtain ⟨_, hlt, h⟩ := bind_eq_ok.mp h
      rw [okOr_eq_ok, checkBits_eq_some] at hlt
      obtain ⟨-, rfl⟩ := Prod.mk.inj (pure_eq_ok.mp h)
      exact .newVoter caller voter (by simpa [voterIndex] using hindex) hlt.1
  | setAdminWeight caller voter weight =>
    obtain ⟨_, _, h⟩ := bind_eq_ok.mp h
    obtain ⟨_, _, h⟩ := bind_eq_ok.mp h
    obtain ⟨_, hweight, h⟩ := bind_eq_ok.mp h
    obtain rfl := pure_eq_ok.mp h
    exact .weight caller voter weight (packWeight_eq_ok.mp hweight).1
  | setWeightThreshold caller threshold =>
    obtain ⟨_, _, h⟩ := bind_eq_ok.mp h
    obtain ⟨_, hthreshold, h⟩ := bind_eq_ok.mp h
    rw [failIf_eq_ok, not_or, not_lt] at hthreshold
    obtain rfl := pure_eq_ok.mp h
    exact .threshold caller threshold hthreshold.1
  | proposeAction proposer id =>
    obtain ⟨_, _, h⟩ := bind_eq_ok.mp h
    obtain ⟨_, hnew, h⟩ := bind_eq_ok.mp h
    rw [failIf_eq_ok, not_not] at hnew
    obtain rfl := pure_eq_ok.mp h
    exact .propose proposer id hnew
  | cancelAction canceller id =>
    obtain ⟨_, _, h⟩ := bind_eq_ok.mp h
    obtain ⟨state, hstate, h⟩ := bind_eq_ok.mp h
    obtain ⟨_, hopen, h⟩ := bind_eq_ok.mp h
    rw [failIf_eq_ok, Bool.not_eq_true] at hopen
    obtain rfl := pure_eq_ok.mp h
    exact .cancel canceller id state (loadProposal_eq_ok.mp hstate) hopen
  | castVote voter id =>
    obtain ⟨n, h⟩ := snd_map_eq_ok.mp h
    obtain ⟨state, hstate, h⟩ := bind_eq_ok.mp h
    obtain ⟨_, hopen, h⟩ := bind_eq_ok.mp h
    obtain ⟨index, hindex, h⟩ := bind_eq_ok.mp h
    obtain ⟨_, hnew, h⟩ := bind_eq_ok.mp h
    obtain ⟨r₁, hrecord, h⟩ := bind_eq_ok.mp h
    obtain ⟨⟨hexecuted, hcancelled⟩, harchive⟩ := ensureOpen_eq_ok.mp hopen
    rw [failIf_eq_ok, Bool.not_eq_true] at hnew
    obtain rfl := countVote_eq_ok h
    exact .vote voter id state index r₁
      ⟨loadProposal_eq_ok.mp hstate, hexecuted, hcancelled, harchive⟩ (okOr_eq_ok.mp hindex) hnew
      hrecord
  | castVoteDetailed voter id =>
    obtain ⟨n, h⟩ := snd_map_eq_ok.mp h
    obtain ⟨state, hstate, h⟩ := bind_eq_ok.mp h
    obtain ⟨_, hopen, h⟩ := bind_eq_ok.mp h
    obtain ⟨index, hindex, h⟩ := bind_eq_ok.mp h
    obtain ⟨_, hnew, h⟩ := bind_eq_ok.mp h
    obtain ⟨⟨hexecuted, hcancelled⟩, harchive⟩ := ensureOpen_eq_ok.mp hopen
    rw [failIf_eq_ok] at hnew
    obtain rfl := countVote_eq_ok h
    exact .detailed voter id state index
      ⟨loadProposal_eq_ok.mp hstate, hexecuted, hcancelled, harchive⟩ (okOr_eq_ok.mp hindex) hnew
  | finalize id =>
    obtain ⟨result, h⟩ := snd_map_eq_ok.mp h
    obtain ⟨state, hstate, h⟩ := bind_eq_ok.mp h
    rw [loadProposal_eq_ok] at hstate
    split_ifs at h with hexecuted
    · obtain ⟨-, rfl⟩ := Prod.mk.inj (pure_eq_ok.mp h)
      exact .finalizedBefore id state hstate hexecuted
    · obtain ⟨_, _, h⟩ := bind_eq_ok.mp h
      obtain ⟨total, htotal, h⟩ := bind_eq_ok.mp h
      obtain ⟨_, hreached, h⟩ := bind_eq_ok.mp h
      rw [failIf_eq_ok, not_lt] at hreached
      obtain ⟨-, rfl⟩ := Prod.mk.inj (pure_eq_ok.mp h)
      exact .finalized id state total hstate (Bool.not_eq_true _ ▸ hexecuted) htotal hreached
  | compressAfterExecution id =>
    obtain ⟨record, h⟩ := snd_map_eq_ok.mp h
    obtain ⟨state, hstate, h⟩ := bind_eq_ok.mp h
    obtain ⟨_, hexecuted, h⟩ := bind_eq_ok.mp h
    obtain ⟨_, harchive, h⟩ := bind_eq_ok.mp h
    obtain ⟨ps, hps, h⟩ := bind_eq_ok.mp h
    rw [failIf_eq_ok, not_not] at hexecuted harchive
    have hrecord : recordOf crypto id ps state.finalTally =
        ⟨merkleRoot crypto (ps.map fun p => leafHash crypto id p.index true p.weight p.voter),
          (ps.map fun p => leafHash crypto id p.index true p.weight p.voter).length,
          state.finalTally⟩ := by
      rw [recordOf, List.map_map, List.length_map]
      rfl
    obtain ⟨-, rfl⟩ := Prod.mk.inj (pure_eq_ok.mp h)
    rw [← hrecord]
    exact .compress id state ps (loadProposal_eq_ok.mp hstate) hexecuted harchive hps

end Steps

end StellarFlow.Archive
