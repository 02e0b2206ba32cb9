import StellarFlow.Archive.Commitment
import StellarFlow.Archive.Packing

/-!
# Reading votes and proving them

While the votes of a proposal are stored, they can be read back for every voter, and the contract
computes a proof for each of them. A proof that was taken once the proposal was executed is good
for the record that replaces the votes, whenever that is written.
-/
namespace StellarFlow.Archive

open Foundation PromotedTree

/-- The leaf of a voter. The last one with the index counts. -/
def leafPosition (participants : List Participant) (voterIndex : ℕ) : Option ℕ :=
  (participants.foldl (fun (s : Option ℕ × ℕ) participant =>
    (if participant.index = voterIndex then some s.2 else s.1, s.2 + 1)) (none, 0)).1

namespace Register

variable (r : Register)

/-- Whether each voter has voted. -/
def getVoteOptions (proposalId : UInt64) : List Bool :=
  (List.range r.voters.length).map (r.hasVoted proposalId)

/-- The weight of the vote at an index, zero without a vote. -/
def voteWeight (proposalId : UInt64) (index : ℕ) : Except ArchiveFault ℕ :=
  if isBitSet (r.getVoteBits proposalId) index then
    packedWeight (r.getPackedWeights proposalId) index
  else
    match r.voters[index]? with
    | some voter =>
      pure (if (r.getActionVotes proposalId).contains voter then r.getAdminWeight voter else 0)
    | none => pure 0

def getVoteWeights (proposalId : UInt64) : Except ArchiveFault (List ℕ) :=
  (List.range r.voters.length).mapM (r.voteWeight proposalId)

/-- The proof of a vote, as long as the votes are stored. -/
def merkleProofForVoter (crypto : ArchiveCrypto) (proposalId : UInt64) (voterIndex : ℕ) :
    Except ArchiveFault (List Bytes32) := do
  let _ ← r.loadProposal proposalId
  failIf (r.archive.lookup proposalId ≠ none) (.error .alreadyCompressed)
  let participants ← r.participants proposalId
  let leaves := participants.map fun p => leafHash crypto proposalId p.index true p.weight p.voter
  let position ← okOr (leafPosition participants voterIndex) (.error .unknownVoter)
  pure (merkleProof crypto leaves position)

end Register

open Register

/-! ## The position of a leaf -/

theorem leafPosition_append (l : List Participant) (p : Participant) (i : ℕ) :
    leafPosition (l ++ [p]) i = if p.index = i then some l.length else leafPosition l i := by
  have hcount : ∀ (l : List Participant) (s : Option ℕ × ℕ), (l.foldl (fun s participant =>
      (if participant.index = i then some s.2 else s.1, s.2 + 1)) s).2 = s.2 + l.length := by
    intro l
    induction l with
    | nil => simp
    | cons q l ih =>
      intro s
      rw [List.foldl_cons, ih, List.length_cons]
      omega
  rw [leafPosition, List.foldl_append, List.foldl_cons, List.foldl_nil, hcount, Nat.zero_add]
  rfl

/-- With increasing indices it is the position of the one participant with the index. -/
theorem leafPosition_eq_some {l : List Participant} {i k : ℕ}
    (h : l.Pairwise fun p q => p.index < q.index) :
    leafPosition l i = some k ↔ ∃ p, l[k]? = some p ∧ p.index = i := by
  induction l using List.reverseRecOn with
  | nil => simp [leafPosition]
  | append_singleton l p ih =>
    obtain ⟨hl, -, hlast⟩ := List.pairwise_append.mp h
    have hold : ∀ q, l[k]? = some q → q.index < p.index := fun q hq =>
      hlast q (List.mem_of_getElem? hq) p (List.mem_singleton_self p)
    rw [leafPosition_append]
    split_ifs with hp
    · constructor
      · intro hk
        cases hk
        exact ⟨p, by simp, hp⟩
      · rintro ⟨q, hq, hi⟩
        rcases Nat.lt_trichotomy k l.length with hlt | rfl | hgt
        · rw [List.getElem?_append_left hlt] at hq
          have := hold q hq
          omega
        · rfl
        · rw [List.getElem?_eq_none (by simp; omega)] at hq
          cases hq
    · rw [ih hl]
      refine exists_congr fun q => and_congr_left fun hi => ?_
      rcases Nat.lt_trichotomy k l.length with hlt | rfl | hgt
      · rw [List.getElem?_append_left hlt]
      · rw [List.getElem?_eq_none le_rfl, List.getElem?_concat_length, Option.some_inj]
        exact iff_of_false (by simp) (by rintro rfl; exact hp hi)
      · rw [List.getElem?_eq_none hgt.le, List.getElem?_eq_none (by simp; omega)]

section Proofs

variable {crypto : ArchiveCrypto} {here : Address} {b b' : Book} {id : UInt64} {i : ℕ}

variable (crypto) in
/-- The siblings of a leaf are a proof of it. -/
theorem verifyProof_merkleProof {leaves : List Bytes32} {leaf : Bytes32} {k : ℕ}
    (h : leaves[k]? = some leaf) :
    verifyProof crypto (merkleRoot crypto leaves) leaf k leaves.length
      (merkleProof crypto leaves k) = true := by
  have hk : k < leaves.length := (List.getElem?_eq_some_iff.mp h).1
  have hne : leaves ≠ [] := List.ne_nil_of_length_pos (Nat.zero_lt_of_lt hk)
  obtain ⟨r, hr⟩ := exists_rootFuel (nodeHash crypto) leaves.length hne
  have hclimb := climbFuel_siblingsFuel leaves.length (Nat.le_succ _) h hr
  rw [verifyProof, if_neg (by omega), merkleProof, if_neg (by omega), hclimb, merkleRoot, hr]
  simp

/-- Exactly the votes of the history have proofs, along their leaves. -/
theorem Linked.merkleProofForVoter_eq_ok (h : Linked crypto b) {proof : List Bytes32} :
    b.register.merkleProofForVoter crypto id i = .ok proof ↔
      b.register.archive.lookup id = none ∧ (∃ state, b.register.proposal.lookup id = some state) ∧
        ∃ k p, (b.votes id)[k]? = some p ∧ p.index = i ∧
          merkleProof crypto ((b.votes id).map fun p =>
            leafHash crypto id p.index true p.weight p.voter) k = proof := by
  have hsorted : (b.votes id).Pairwise fun p q => p.index < q.index := listing_pairwise _ _
  simp only [merkleProofForVoter, bind_eq_ok, loadProposal_eq_ok, failIf_eq_ok, ne_eq, not_not,
    okOr_eq_ok, pure_eq_ok]
  constructor
  · rintro ⟨state, hstate, _, hnone, ps, hps, k, hk, hproof⟩
    obtain rfl := Except.ok.inj ((h.participants_eq hnone).symm.trans hps)
    obtain ⟨p, hp, hi⟩ := (leafPosition_eq_some hsorted).mp hk
    exact ⟨hnone, ⟨state, hstate⟩, k, p, hp, hi, hproof⟩
  · rintro ⟨hnone, ⟨state, hstate⟩, k, p, hp, hi, hproof⟩
    exact ⟨state, hstate, (), hnone, _, h.participants_eq hnone, k,
      (leafPosition_eq_some hsorted).mpr ⟨p, hp, hi⟩, hproof⟩

/-! ## After execution -/

/-- The votes of an executed proposal stay as they are. -/
structure Frozen (b : Book) (id : UInt64) (b' : Book) : Prop where
  executed : ∃ state, b'.register.proposal.lookup id = some state ∧ state.executed = true
  votes : b'.votes id = b.votes id

theorem Frozen.of_votes {b₁ : Book} (h : Frozen b id b₁)
    (hproposal : b'.register.proposal = b₁.register.proposal) (hvotes : b'.votes id = b₁.votes id) :
    Frozen b id b' :=
  ⟨by rw [hproposal]; exact h.executed, hvotes.trans h.votes⟩

theorem Frozen.setProposal {b₁ : Book} (h : Frozen b id b₁) {id' : UInt64} {state : ProposalState}
    (hproposal : b'.register.proposal = b₁.register.proposal.insert id' state)
    (hstate : id = id' → state.executed = true) (hvotes : b'.votes id = b₁.votes id) :
    Frozen b id b' := by
  obtain ⟨before, hbefore, hexecuted⟩ := h.executed
  refine ⟨?_, hvotes.trans h.votes⟩
  rw [hproposal]
  by_cases hid : id = id'
  · subst hid
    exact ⟨state, Finmap.lookup_insert _, hstate rfl⟩
  · exact ⟨before, (Finmap.lookup_insert_of_ne _ hid).trans hbefore, hexecuted⟩

theorem Frozen.change {b₁ : Book} (h : Frozen b id b₁) (hl : Linked crypto b₁) {call : ArchiveCall}
    {r' : Register} (hc : Change crypto b₁.register call.registerCall r') :
    Frozen b id ⟨r', b₁.castsAfter call⟩ := by
  obtain ⟨before, hbefore, hexecuted⟩ := h.executed
  have hsame : ∀ {id' : UInt64} {state : ProposalState},
      b₁.register.proposal.lookup id' = some state → id = id' → state.executed = true := by
    rintro id' state hstate rfl
    exact Option.some_inj.mp (hbefore.symm.trans hstate) ▸ hexecuted
  cases call with
  | initializeArchive a =>
    cases hc with
    | admin => exact h.of_votes rfl rfl
  | addVoter c v =>
    cases hc with
    | sameVoter => exact h
    | newVoter _ _ hnew =>
      exact h.of_votes rfl (listing_append_none (hl.weightOf_unregistered hnew))
  | setAdminWeight c v w =>
    cases hc with
    | weight => exact h.of_votes rfl rfl
  | setWeightThreshold c t =>
    cases hc with
    | threshold => exact h.of_votes rfl rfl
  | proposeAction c id' =>
    cases hc with
    | propose _ _ hnew =>
      refine h.setProposal rfl (fun hid => ?_) rfl
      rw [← hid] at hnew
      cases hnew.symm.trans hbefore
  | cancelAction c id' =>
    cases hc with
    | cancel _ _ state hstate =>
      have hstill : id = id' → state.executed = true := hsame hstate
      exact h.setProposal rfl hstill rfl
  | castVote v id' =>
    cases hc with
    | vote _ _ state j r₁ hopen hj hnew hrecord =>
      have hid : id' ≠ id := by
        rintro rfl
        exact Bool.false_ne_true (hopen.executed.symm.trans (hsame hopen.lookup rfl))
      obtain ⟨ws, hws, rfl⟩ := hl.wellFormed.recordVote_eq_ok hrecord
      refine h.setProposal rfl (fun heq => absurd heq.symm hid) (listing_congr fun k w _ => ?_)
      exact (Linked.weightOf_append _ _).trans
        (by rw [if_neg fun hcast => hid hcast.1, Option.or_none])
  | finalize c id' =>
    cases hc with
    | finalizedBefore => exact h
    | finalized _ state total hstate hopen =>
      exact h.setProposal rfl (fun _ => rfl) rfl
  | compressAfterExecution c id' =>
    cases hc with
    | compress => exact h.of_votes rfl rfl

theorem bookStep_change {call : Env here × ArchiveCall} (h : bookStep crypto call b = .ok b') :
    ∃ r', Change crypto b.register call.2.registerCall r' ∧ b' = ⟨r', b.castsAfter call.2⟩ := by
  obtain ⟨register, hregister, hstep⟩ := bind_eq_ok.mp h
  obtain rfl := pure_eq_ok.mp hstep
  exact ⟨register, registerStep_change (archiveStep_registerStep hregister), rfl⟩

/-- In every continuation the votes of an executed proposal stay as they are. -/
theorem Linked.frozen (h : Linked crypto b) {state : ProposalState}
    (hstate : b.register.proposal.lookup id = some state) (hexecuted : state.executed = true)
    (post : List (Env here × ArchiveCall)) :
    Linked crypto (runAll (bookStep crypto) b post) ∧
      Frozen b id (runAll (bookStep crypto) b post) := by
  refine runAll_induction (P := fun b' => Linked crypto b' ∧ Frozen b id b')
    (fun b₁ call b₂ hb hstep => ?_) ⟨h, ⟨state, hstate, hexecuted⟩, rfl⟩ post
  obtain ⟨r', hc, rfl⟩ := bookStep_change hstep
  exact ⟨(hb.1.change hc).1, hb.2.change hb.1 hc⟩

/-- A proof verifies against the record of the same votes. -/
theorem Linked.verify_of_votes (h' : Linked crypto b') {k : ℕ} {p : Participant}
    (hk : (b'.votes id)[k]? = some p) (harchived : b'.register.archive.lookup id ≠ none)
    {position voterIndex weight : UInt32} (hposition : position.toNat = k)
    (hindex : voterIndex.toNat = p.index) (hweight : weight.toNat = p.weight) :
    b'.register.verifyArchivedVote crypto id position voterIndex p.voter true weight
      (merkleProof crypto ((b'.votes id).map fun p =>
        leafHash crypto id p.index true p.weight p.voter) k) = .ok true := by
  obtain ⟨record, hrecord⟩ := Option.ne_none_iff_exists'.mp harchived
  obtain ⟨state, -, -, rfl⟩ := h'.archived id record hrecord
  have hleaf : ((b'.votes id).map fun p => leafHash crypto id p.index true p.weight p.voter)[k]? =
      some (leafHash crypto id p.index true p.weight p.voter) := by
    rw [List.getElem?_map, hk]
    rfl
  have hverify := verifyProof_merkleProof crypto hleaf
  rw [List.length_map] at hverify
  rw [verifyArchivedVote, hrecord, okOr_some, ok_bind, recordOf, hposition, hindex, hweight,
    List.map_map]
  exact congrArg Except.ok hverify

/-! ## Reading votes -/

/-- What the register says about a proposal besides the weights of its votes. -/
structure Counted (b : Book) : Prop where
  proposed : ∀ c ∈ b.casts, ∃ state, b.register.proposal.lookup c.proposalId = some state
  counted : ∀ id state, b.register.proposal.lookup id = some state →
    state.voteCount = (b.castsOn id).length
  erased : ∀ id, b.register.archive.lookup id ≠ none → b.register.getVoteBits id = []

theorem Counted.deployed : Counted Book.deployed :=
  ⟨fun _ h => (by cases h), fun _ _ h => (by cases h), fun _ _ => rfl⟩

/-- A write to a proposal that keeps its votes. -/
theorem Counted.setProposal (h : Counted b) {state : ProposalState}
    (hcount : state.voteCount = (b.castsOn id).length) :
    Counted ⟨b.register.setProposal id state, b.casts⟩ where
  proposed c hc := by
    obtain ⟨before, hbefore⟩ := h.proposed c hc
    by_cases hid : c.proposalId = id
    · rw [hid]
      exact ⟨state, Finmap.lookup_insert _⟩
    · exact ⟨before, (Finmap.lookup_insert_of_ne _ hid).trans hbefore⟩
  counted id' state' hstate := by
    rcases Store.lookup_insert_eq_some.mp hstate with ⟨rfl, rfl⟩ | ⟨_, hold⟩
    · exact hcount
    · exact h.counted id' state' hold
  erased := h.erased

theorem Counted.castsOn_eq_nil (h : Counted b) (hnew : b.register.proposal.lookup id = none) :
    b.castsOn id = [] := by
  refine List.eq_nil_iff_forall_not_mem.mpr fun c hc => ?_
  obtain ⟨hcast, rfl⟩ := mem_castsOn.mp hc
  obtain ⟨state, hstate⟩ := h.proposed c hcast
  cases hnew.symm.trans hstate

theorem Counted.vote (h : Counted b) {state : ProposalState} {ws : Words} {v : Address} {n : ℕ}
    (hopen : b.register.Votable id state) :
    Counted ⟨(b.register.packVote id i ws).setProposal id
      { state with voteCount := state.voteCount + 1 }, b.casts ++ [⟨id, v, n⟩]⟩ := by
  refine ⟨fun c hc => ?_, fun id' state' hstate => ?_, fun id' harchived => ?_⟩
  · by_cases hid : c.proposalId = id
    · rw [hid]
      exact ⟨_, Finmap.lookup_insert _⟩
    · rcases List.mem_append.mp hc with hc | hc
      · obtain ⟨before, hbefore⟩ := h.proposed c hc
        exact ⟨before, (Finmap.lookup_insert_of_ne _ hid).trans hbefore⟩
      · exact absurd (congrArg Cast.proposalId (List.mem_singleton.mp hc)) hid
  · rw [Linked.castsOn_append, List.length_append]
    rcases Store.lookup_insert_eq_some.mp hstate with ⟨rfl, rfl⟩ | ⟨hne, hold⟩
    · rw [if_pos rfl, List.length_singleton, ← h.counted _ _ hopen.lookup]
    · rw [if_neg (Ne.symm hne), List.length_nil, Nat.add_zero]
      exact h.counted id' state' hold
  · have hid : id' ≠ id := by
      rintro rfl
      exact harchived hopen.archive
    have hread : (b.register.packVote id i ws).getVoteBits id' = [] := by
      rw [getVoteBits_packVote, if_neg hid]
      exact h.erased id' harchived
    exact hread

theorem Counted.change (h : Counted b) (hl : Linked crypto b) {call : ArchiveCall} {r' : Register}
    (hc : Change crypto b.register call.registerCall r') :
    Counted ⟨r', b.castsAfter call⟩ := by
  cases call with
  | initializeArchive a =>
    cases hc with
    | admin => exact ⟨h.proposed, h.counted, h.erased⟩
  | addVoter c v =>
    cases hc with
    | sameVoter => exact h
    | newVoter => exact ⟨h.proposed, h.counted, h.erased⟩
  | setAdminWeight c v w =>
    cases hc with
    | weight => exact ⟨h.proposed, h.counted, h.erased⟩
  | setWeightThreshold c t =>
    cases hc with
    | threshold => exact ⟨h.proposed, h.counted, h.erased⟩
  | proposeAction c id =>
    cases hc with
    | propose _ _ hnew =>
      refine h.setProposal ?_
      rw [h.castsOn_eq_nil hnew]
      rfl
  | cancelAction c id =>
    cases hc with
    | cancel _ _ state hstate => exact h.setProposal (h.counted id state hstate)
  | castVote v id =>
    cases hc with
    | vote _ _ state j r₁ hopen hj hnew hrecord =>
      obtain ⟨ws, hws, rfl⟩ := hl.wellFormed.recordVote_eq_ok hrecord
      exact h.vote hopen
  | finalize c id =>
    cases hc with
    | finalizedBefore => exact h
    | finalized _ state total hstate => exact h.setProposal (h.counted id state hstate)
  | compressAfterExecution c id =>
    cases hc with
    | compress =>
      refine ⟨h.proposed, h.counted, fun id' harchived => getVoteBits_compressed.trans ?_⟩
      split_ifs with hid
      · rfl
      · refine h.erased id' fun hnone => harchived ?_
        exact (Finmap.lookup_insert_of_ne _ hid).trans hnone

section Reads

variable {v : Address}

theorem Linked.voteWeight_eq (h : Linked crypto b) (hnone : b.register.archive.lookup id = none)
    (hv : b.register.voters[i]? = some v) :
    b.register.voteWeight id i = .ok ((b.weightOf id v).getD 0) := by
  rw [h.packed id hnone i v hv, voteWeight, packedVote]
  split_ifs with hbit
  · obtain ⟨w, _, hw⟩ := h.wellFormed.exists_packedWeight hbit
    rw [hw]
    rfl
  · rw [hv, h.detailed]
    rfl

theorem Linked.hasVoted_eq (h : Linked crypto b) (hnone : b.register.archive.lookup id = none)
    (hv : b.register.voters[i]? = some v) :
    b.register.hasVoted id i = (b.weightOf id v).isSome := by
  rw [h.packed id hnone i v hv, Bool.eq_iff_iff, h.wellFormed.packedVote_isSome, hasVoted, hv,
    h.detailed]
  simp

/-- A list over all indices of voters is one over the voters. -/
theorem map_range_voters {α : Type*} (f : ℕ → α) (g : Address → α) (voters : List Address)
    (h : ∀ i v, voters[i]? = some v → f i = g v) :
    (List.range voters.length).map f = voters.map g := by
  refine List.ext_getElem (by simp) fun i hi hi' => ?_
  rw [List.getElem_map, List.getElem_map, List.getElem_range]
  exact h i _ (List.getElem?_eq_getElem (by simpa using hi))

theorem Linked.getVoteWeights_eq (h : Linked crypto b)
    (hnone : b.register.archive.lookup id = none) :
    b.register.getVoteWeights id =
      .ok (b.register.voters.map fun v => (b.weightOf id v).getD 0) := by
  have hread : ∀ j ∈ List.range b.register.voters.length, b.register.voteWeight id j =
      .ok (((b.register.voters[j]?).bind (b.weightOf id)).getD 0) := by
    intro j hj
    have hv := List.getElem?_eq_getElem (List.mem_range.mp hj)
    rw [h.voteWeight_eq hnone hv, hv, Option.bind_some]
  rw [getVoteWeights, mapM_eq_ok hread]
  exact congrArg Except.ok (map_range_voters _ _ _ fun j v hv => by rw [hv, Option.bind_some])

theorem Linked.getVoteOptions_eq (h : Linked crypto b)
    (hnone : b.register.archive.lookup id = none) :
    b.register.getVoteOptions id = b.register.voters.map fun v => (b.weightOf id v).isSome :=
  map_range_voters _ _ _ fun _ _ hv => h.hasVoted_eq hnone hv

/-- Nothing of the votes is left once they were replaced by a record. -/
theorem Counted.reads_of_archived (h : Counted b) (hl : Linked crypto b)
    (harchived : b.register.archive.lookup id ≠ none) :
    b.register.getVoteOptions id = b.register.voters.map (fun _ => false) ∧
      b.register.getVoteWeights id = .ok (b.register.voters.map fun _ => 0) := by
  have hbit : ∀ j, isBitSet (b.register.getVoteBits id) j = false := by
    intro j
    rw [h.erased id harchived]
    rfl
  constructor
  · refine map_range_voters _ _ _ fun j v hv => ?_
    rw [hasVoted, hbit, hv, hl.detailed]
    rfl
  · have hread : ∀ j ∈ List.range b.register.voters.length,
        b.register.voteWeight id j = .ok 0 := by
      intro j hj
      rw [voteWeight, hbit, List.getElem?_eq_getElem (List.mem_range.mp hj), hl.detailed]
      rfl
    rw [getVoteWeights, mapM_eq_ok hread]
    exact congrArg Except.ok (map_range_voters _ _ _ fun _ _ _ => rfl)

/-- The weights of all voters sum to the weight of the casts. -/
theorem Linked.weights_sum (h : Linked crypto b) (id : UInt64) :
    (b.register.voters.map fun v => (b.weightOf id v).getD 0).sum =
      ((b.castsOn id).map Cast.weight).sum := by
  rw [← h.votes_sum, Book.votes, listing]
  have hvoters : b.register.voters = b.register.voters.zipIdx.map Prod.fst :=
    (List.zipIdx_map_fst _ _).symm
  conv_lhs => rw [hvoters]
  generalize b.register.voters.zipIdx = entries
  induction entries with
  | nil => rfl
  | cons entry entries ih =>
    rw [List.map_cons, List.map_cons, List.sum_cons, ih, List.filterMap_cons]
    cases b.weightOf id entry.1 with
    | none => exact Nat.zero_add _
    | some w => rfl

end Reads

theorem linked_counted_keeps {call : Env here × ArchiveCall} (h : Linked crypto b ∧ Counted b)
    (hstep : bookStep crypto call b = .ok b') : Linked crypto b' ∧ Counted b' := by
  obtain ⟨r', hc, rfl⟩ := bookStep_change hstep
  exact ⟨(h.1.change hc).1, h.2.change h.1 hc⟩

end Proofs

variable (crypto : ArchiveCrypto) {here : Address}

/-- In every state of a run the votes that are not archived are read back as they were cast: the
options, the weights at the time of the votes, and their sum as the tally. The number of votes is
that of the casts even later, when nothing else is left to be read. -/
theorem votes_read_back (run : List (Env here × ArchiveCall)) :
    Throughout (bookStep crypto) (fun b => ∀ id,
      (∀ state, b.register.proposal.lookup id = some state →
        state.voteCount = (b.castsOn id).length) ∧
      if b.register.archive.lookup id = none then
        b.register.getVoteOptions id = b.register.voters.map (fun v => (b.weightOf id v).isSome) ∧
        ∃ weights, b.register.getVoteWeights id = .ok weights ∧
          weights = b.register.voters.map (fun v => (b.weightOf id v).getD 0) ∧
          ∀ state, b.register.proposal.lookup id = some state →
            b.register.tally id = .ok weights.sum
      else
        b.register.getVoteOptions id = b.register.voters.map (fun _ => false) ∧
          b.register.getVoteWeights id = .ok (b.register.voters.map fun _ => 0))
      Book.deployed run := by
  refine throughout_of_invariant (I := fun b => Linked crypto b ∧ Counted b)
    (fun b call b' h hstep => linked_counted_keeps h hstep) (fun b h id => ?_)
    ⟨Linked.deployed, Counted.deployed⟩ run
  obtain ⟨hl, hcounted⟩ := h
  refine ⟨hcounted.counted id, ?_⟩
  split_ifs with hnone
  · refine ⟨hl.getVoteOptions_eq hnone, _, hl.getVoteWeights_eq hnone, rfl, fun state hstate => ?_⟩
    rw [hl.tally_eq hstate hnone, hl.weights_sum]
  · exact hcounted.reads_of_archived hl hnone

/-- In every state of a run exactly the voters of a proposal that is not archived have proofs. A
proof that was taken after the execution verifies the vote in every continuation in which the
proposal was archived, with the weight of the cast, at the number of voters before. -/
theorem proofs_survive_compression (run : List (Env here × ArchiveCall)) (id : UInt64)
    (voterIndex : UInt32) :
    let b := runAll (bookStep crypto) Book.deployed run
    ((∃ proof, b.register.merkleProofForVoter crypto id voterIndex.toNat = .ok proof) ↔
      b.register.archive.lookup id = none ∧
        ∃ c ∈ b.castsOn id, b.register.voterIndex c.voter = some voterIndex.toNat) ∧
    ∀ proof state, b.register.merkleProofForVoter crypto id voterIndex.toNat = .ok proof →
      b.register.proposal.lookup id = some state → state.executed = true →
      ∃ c ∈ b.castsOn id, b.register.voterIndex c.voter = some voterIndex.toNat ∧
        ∃ position weight : UInt32, weight.toNat = c.weight ∧
          (position.toNat = (b.castsOn id).countP fun c =>
            b.register.voters.idxOf c.voter < voterIndex.toNat) ∧
          ∀ post : List (Env here × ArchiveCall),
            (runAll (bookStep crypto) b post).register.archive.lookup id ≠ none →
            (runAll (bookStep crypto) b post).register.verifyArchivedVote crypto id position
              voterIndex c.voter true weight proof = .ok true := by
  intro b
  obtain ⟨hl, hcounted⟩ : Linked crypto b ∧ Counted b :=
    runAll_induction (P := fun b => Linked crypto b ∧ Counted b)
      (fun b₁ call b₂ h hstep => linked_counted_keeps h hstep)
      ⟨Linked.deployed, Counted.deployed⟩ run
  have hsorted : (b.votes id).Pairwise fun p q => p.index < q.index := listing_pairwise _ _
  have hcast : ∀ p ∈ b.votes id, castOf id p ∈ b.castsOn id ∧
      b.register.voterIndex p.voter = some p.index := by
    intro p hp
    obtain ⟨hv, hw⟩ := mem_votes.mp hp
    exact ⟨mem_castsOn.mpr ⟨(weightOf_eq_some hl.once).mp hw, rfl⟩,
      (voterIndex_eq_some hl.wellFormed.nodup).mpr hv⟩
  constructor
  · constructor
    · rintro ⟨proof, hproof⟩
      obtain ⟨hnone, -, k, p, hp, hi, -⟩ := hl.merkleProofForVoter_eq_ok.mp hproof
      obtain ⟨hmem, hindex⟩ := hcast p (List.mem_of_getElem? hp)
      exact ⟨hnone, _, hmem, hi ▸ hindex⟩
    · rintro ⟨hnone, c, hc, hi⟩
      obtain ⟨hmem, rfl⟩ := mem_castsOn.mp hc
      have hp : (⟨voterIndex.toNat, c.voter, c.weight⟩ : Participant) ∈ b.votes c.proposalId :=
        mem_votes.mpr ⟨(voterIndex_eq_some hl.wellFormed.nodup).mp hi,
          (weightOf_eq_some hl.once).mpr hmem⟩
      obtain ⟨k, hk⟩ := List.mem_iff_getElem?.mp hp
      exact ⟨_, hl.merkleProofForVoter_eq_ok.mpr
        ⟨hnone, hcounted.proposed c hmem, k, _, hk, rfl, rfl⟩⟩
  · intro proof state hproof hstate hexecuted
    obtain ⟨-, -, k, p, hp, hi, rfl⟩ := hl.merkleProofForVoter_eq_ok.mp hproof
    obtain ⟨hmem, hindex⟩ := hcast p (List.mem_of_getElem? hp)
    obtain ⟨hpmem, hk⟩ := (getElem?_eq_some_iff_countP hsorted).mp hp
    have hweight : p.weight ≤ 100 := (hl.registered _ (mem_castsOn.mp hmem).1).2
    have hlength : (b.votes id).length ≤ b.register.voters.length := by
      rw [Book.votes, listing]
      exact (List.length_filterMap_le _ _).trans_eq List.length_zipIdx
    have hbound : k < 2 ^ 32 := by
      have hlt := (List.getElem?_eq_some_iff.mp hp).1
      have hvoters := hl.wellFormed.voters_lt
      omega
    have htoNat : ∀ n < 2 ^ 32, (UInt32.ofNat n).toNat = n := fun _ =>
      UInt32.toNat_ofNat_of_lt
    refine ⟨_, hmem, hi ▸ hindex, UInt32.ofNat k, UInt32.ofNat p.weight, htoNat _ (by omega), ?_,
      fun post harchived => ?_⟩
    · rw [htoNat _ hbound, hk, hl.countP_votes, hi]
    · obtain ⟨hl', hfrozen⟩ := hl.frozen hstate hexecuted post
      rw [← hfrozen.votes] at hp ⊢
      exact hl'.verify_of_votes hp harchived (htoNat _ hbound) hi.symm (htoNat _ (by omega))

end StellarFlow.Archive
