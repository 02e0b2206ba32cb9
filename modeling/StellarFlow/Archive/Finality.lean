import StellarFlow.Archive.Participants

/-!
# Votes are single and final

A voter votes once as long as nobody votes in both layouts, an executed proposal is final as long
as it is not cancelled, and the leaves of an archive weigh its final tally if the detailed voters
weigh at compression what they did at finalization. The detailed vote does not look at the packed
ones, the cancellation does not ask whether the proposal was executed, and compression reads the
weights of detailed votes again.
-/
namespace StellarFlow.Archive

open Foundation

namespace Register

/-- The voters recorded for a proposal, in either layout. -/
def recordedVoters (r : Register) (id : UInt64) : Finset Address :=
  r.voters.toFinset.filter fun v => r.hasVoted id (r.voters.idxOf v)

/-- Everybody votes once, and the votes are counted. -/
structure SingleVotes (r : Register) : Prop where
  disjoint : ∀ id, r.Disjoint id
  counted : ∀ id state, r.proposal.lookup id = some state → r.archive.lookup id = none →
    state.voteCount = (r.recordedVoters id).card
  leaves : ∀ id state record, r.proposal.lookup id = some state →
    r.archive.lookup id = some record → record.leafCount = state.voteCount

/-- Between two states, executed proposals and archives stay, and a new archive is that of the
participants with the sum of their weights. -/
structure Settled (crypto : ArchiveCrypto) (r r' : Register) : Prop where
  final : ∀ id state, r.proposal.lookup id = some state → state.executed = true →
    r'.proposal.lookup id = some state
  kept : ∀ id record, r.archive.lookup id = some record → r'.archive.lookup id = some record
  leaves : ∀ id record, r.archive.lookup id = none → r'.archive.lookup id = some record →
    ∃ ps, r.participants id = .ok ps ∧
      record = recordOf crypto id ps (ps.map Participant.weight).sum

/-- The packed weights and those configured now for the detailed voters give the final tally. -/
def WeightsStand (r : Register) (id : UInt64) : Prop :=
  ∀ state, r.proposal.lookup id = some state →
    ((r.packedList id).map Participant.weight).sum +
      ((r.getActionVotes id).map r.getAdminWeight).sum = state.finalTally

/-- A detailed vote is by somebody without a packed vote, a cancelled proposal was not executed,
and the weights still stand when a proposal is compressed. -/
def Regular (r : Register) : RegisterCall → Prop
  | .castVoteDetailed v id =>
    ∀ i, r.voterIndex v = some i → isBitSet (r.getVoteBits id) i = false
  | .cancelAction _ id => ∀ state, r.proposal.lookup id = some state → state.executed = false
  | .compressAfterExecution id => r.WeightsStand id
  | _ => True

/-- The condition on accepted calls. -/
def RegularIfAccepted (crypto : ArchiveCrypto) (r : Register) (call : RegisterCall) : Prop :=
  (∃ r', registerStep crypto call r = .ok r') → r.Regular call

/-- Nothing is stored for a proposal before it is proposed. -/
def Proposed (r : Register) : Prop :=
  ∀ id, r.proposal.lookup id = none →
    r.getVoteBits id = [] ∧ r.getActionVotes id = [] ∧ r.archive.lookup id = none

section Recorded

variable {r r₁ : Register} {id id' : UInt64} {i j : ℕ} {v : Address} {ws : Words}

theorem mem_recordedVoters (hnodup : r.voters.Nodup) :
    v ∈ r.recordedVoters id ↔ ∃ i, r.voters[i]? = some v ∧ r.hasVoted id i = true := by
  rw [recordedVoters, Finset.mem_filter, List.mem_toFinset]
  constructor
  · rintro ⟨hv, hvoted⟩
    exact ⟨_, WellFormed.getElem?_idxOf hv, hvoted⟩
  · rintro ⟨i, hi, hvoted⟩
    exact ⟨List.mem_of_getElem? hi, idxOf_voter hnodup hi ▸ hvoted⟩

theorem hasVoted_packVote :
    (r.packVote id i ws).hasVoted id' j = (decide (id' = id ∧ j = i) || r.hasVoted id' j) := by
  rw [hasVoted, hasVoted, getVoteBits_packVote]
  by_cases hid : id' = id
  · subst hid
    rw [if_pos rfl, isBitSet_setPackedBit, Bool.or_assoc]
    simp [packVote, getActionVotes]
  · simp [hid, packVote, getActionVotes]

theorem hasVoted_pushActionVote (hnodup : r.voters.Nodup) (hv : r.voters[i]? = some v) :
    (r.pushActionVote id v).hasVoted id' j =
      (decide (id' = id ∧ j = i) || r.hasVoted id' j) := by
  have hbits : (r.pushActionVote id v).getVoteBits id' = r.getVoteBits id' := rfl
  have hvoters : (r.pushActionVote id v).voters = r.voters := rfl
  rw [hasVoted, hasVoted, getActionVotes_pushActionVote, hbits, hvoters]
  by_cases hid : id' = id
  · subst hid
    cases hw : r.voters[j]? with
    | none =>
      have hne : j ≠ i := fun h => by simp [h, hv] at hw
      simp [hne]
    | some w =>
      rw [Bool.eq_iff_iff]
      simp only [if_pos, List.contains_iff_mem, List.mem_append, List.mem_singleton,
        Bool.or_eq_true, true_and, decide_eq_true_iff, voter_eq_iff hnodup hv hw]
      tauto
  · simp [hid]

/-- One more voter is recorded. -/
theorem recordedVoters_insert (hnodup : r.voters.Nodup) (hvoters : r₁.voters = r.voters)
    (hv : r.voters[i]? = some v)
    (hvoted : ∀ id' j, r₁.hasVoted id' j = (decide (id' = id ∧ j = i) || r.hasVoted id' j)) :
    r₁.recordedVoters id' =
      if id' = id then insert v (r.recordedVoters id) else r.recordedVoters id' := by
  ext w
  rw [mem_recordedVoters (hvoters ▸ hnodup), hvoters]
  simp only [hvoted, Bool.or_eq_true, decide_eq_true_iff]
  split_ifs with hid
  · subst hid
    rw [Finset.mem_insert, mem_recordedVoters hnodup]
    constructor
    · rintro ⟨j, hw, ⟨_, hj⟩ | hold⟩
      · exact .inl ((voter_eq_iff hnodup hv hw).mpr hj)
      · exact .inr ⟨j, hw, hold⟩
    · rintro (rfl | ⟨j, hw, hold⟩)
      · exact ⟨i, hv, .inl ⟨rfl, rfl⟩⟩
      · exact ⟨j, hw, .inr hold⟩
  · rw [mem_recordedVoters hnodup]
    simp [hid]

/-- A new voter has not voted yet. -/
theorem recordedVoters_newVoter (h : WellFormed r) (hnew : v ∉ r.voters) :
    ({ r with voters := r.voters ++ [v] } : Register).recordedVoters id =
      r.recordedVoters id := by
  have hnodup := nodup_append_singleton h.nodup hnew
  have hold : ∀ j < r.voters.length,
      ({ r with voters := r.voters ++ [v] } : Register).hasVoted id j = r.hasVoted id j := by
    intro j hj
    rw [hasVoted, hasVoted, List.getElem?_append_left hj]
    rfl
  ext w
  rw [mem_recordedVoters hnodup, mem_recordedVoters h.nodup]
  constructor
  · rintro ⟨j, hw, hvoted⟩
    by_cases hj : j < r.voters.length
    · rw [hold j hj] at hvoted
      exact ⟨j, by rwa [List.getElem?_append_left hj] at hw, hvoted⟩
    · have hunset : isBitSet (r.getVoteBits id) j = false := by
        by_contra hbit
        exact hj (h.packed id j (Bool.eq_true_of_not_eq_false hbit)).1
      have hwv : w = v := by
        have hmem := List.mem_of_getElem? (List.getElem?_append_right (Nat.not_lt.mp hj) ▸ hw)
        exact List.mem_singleton.mp hmem
      subst hwv
      rw [← Bool.not_eq_false, hasVoted_eq_false hw] at hvoted
      exact absurd ⟨hunset, fun hmem => hnew (h.detailed_mem id w hmem)⟩ hvoted
  · rintro ⟨j, hw, hvoted⟩
    have hj := (List.getElem?_eq_some_iff.mp hw).1
    exact ⟨j, by rwa [List.getElem?_append_left hj], by rwa [hold j hj]⟩

end Recorded

/-! ## One call -/

section Steps

variable {crypto : ArchiveCrypto} {r r' r₁ : Register} {id : UInt64} {i : ℕ} {v : Address}
  {state state' : ProposalState}

theorem Proposed.deployed : Proposed Register.deployed := fun _ _ => ⟨rfl, rfl, rfl⟩

theorem Proposed.setProposal (h : Proposed r) : Proposed (r.setProposal id state) := by
  intro id' hnone
  rw [Register.setProposal, Store.lookup_insert_ite] at hnone
  split_ifs at hnone
  exact h id' hnone

/-- The storage of other proposals is left alone. -/
theorem Proposed.of_eq (h : Proposed r) (hstate : r.proposal.lookup id = some state)
    (hproposal : r₁.proposal = r.proposal)
    (hothers : ∀ id' ≠ id, r₁.getVoteBits id' = r.getVoteBits id' ∧
      r₁.getActionVotes id' = r.getActionVotes id' ∧ r₁.archive.lookup id' = r.archive.lookup id') :
    Proposed r₁ := by
  intro id' hnone
  have hid : id' ≠ id := by
    rintro rfl
    rw [hproposal, hstate] at hnone
    cases hnone
  obtain ⟨hbits, hvotes, harchive⟩ := hothers id' hid
  rw [hbits, hvotes, harchive]
  exact h id' (hproposal ▸ hnone)

theorem Proposed.change (h : Proposed r) (hw : WellFormed r) {call : RegisterCall}
    (hc : Change crypto r call r') : Proposed r' := by
  cases hc with
  | admin a => exact h
  | sameVoter c v => exact h
  | newVoter c v hnew hlt => exact h
  | weight c v w hweight => exact h
  | threshold c t ht => exact h
  | propose c id hnew => exact h.setProposal
  | cancel c id state hstate hopen => exact h.setProposal
  | vote v id state i r₁ hopen hi hnew hrecord =>
    obtain ⟨ws, _, rfl⟩ := hw.recordVote_eq_ok hrecord
    have hpack : Proposed (r.packVote id i ws) := h.of_eq hopen.lookup rfl fun id' hid => by
      rw [getVoteBits_packVote, if_neg hid]
      exact ⟨rfl, rfl, rfl⟩
    exact hpack.setProposal
  | detailed v id state i hopen hi hnew =>
    have hpush : Proposed (r.pushActionVote id v) := h.of_eq hopen.lookup rfl fun id' hid => by
      rw [getActionVotes_pushActionVote, if_neg hid]
      exact ⟨rfl, rfl, rfl⟩
    exact hpush.setProposal
  | finalizedBefore id state hstate hexecuted => exact h
  | finalized id state total hstate hexecuted htotal hreached => exact h.setProposal
  | compress id state ps hstate hexecuted harchive hps =>
    refine h.of_eq hstate rfl fun id' hid => ?_
    rw [getVoteBits_compressed, getActionVotes_compressed, if_neg hid, if_neg hid]
    exact ⟨rfl, rfl, by rw [Register.compressed, Store.lookup_insert_ite, if_neg hid]⟩

theorem SingleVotes.deployed : SingleVotes Register.deployed where
  disjoint := fun id i v hv => by simp [Register.deployed] at hv
  counted := fun id state h => by cases h
  leaves := fun id state record h => by cases h

/-- A change of a proposal that keeps its number of votes. -/
theorem SingleVotes.setProposal (h : SingleVotes r) (hstate : r.proposal.lookup id = some state)
    (hcount : state'.voteCount = state.voteCount) : SingleVotes (r.setProposal id state') where
  disjoint := h.disjoint
  counted := by
    intro id' st hst harchive
    obtain ⟨rfl, rfl⟩ | ⟨_, hold⟩ := Store.lookup_insert_eq_some.mp hst
    · rw [hcount]
      exact h.counted id' state hstate harchive
    · exact h.counted id' st hold harchive
  leaves := by
    intro id' st record hst harchive
    obtain ⟨rfl, rfl⟩ | ⟨_, hold⟩ := Store.lookup_insert_eq_some.mp hst
    · rw [hcount]
      exact h.leaves id' state record hstate harchive
    · exact h.leaves id' st record hold harchive

/-- A new proposal has no votes. -/
theorem SingleVotes.propose (h : SingleVotes r) (hp : Proposed r)
    (hnew : r.proposal.lookup id = none) :
    SingleVotes (r.setProposal id ⟨false, false, 0, 0⟩) where
  disjoint := h.disjoint
  counted := by
    intro id' st hst hnone
    obtain ⟨rfl, rfl⟩ | ⟨_, hold⟩ := Store.lookup_insert_eq_some.mp hst
    · obtain ⟨hbits, hvotes, _⟩ := hp id' hnew
      have hunvoted : ∀ i, r.hasVoted id' i = false := by
        intro i
        rw [hasVoted, hbits, hvotes, isBitSet_nil]
        cases r.voters[i]? <;> rfl
      refine (Finset.card_eq_zero.mpr (Finset.filter_eq_empty_iff.mpr fun v _ => ?_)).symm
      exact fun hvoted => Bool.false_ne_true ((hunvoted _).symm.trans hvoted)
    · exact h.counted id' st hold hnone
  leaves := by
    intro id' st record hst hrecord
    obtain ⟨rfl, rfl⟩ | ⟨_, hold⟩ := Store.lookup_insert_eq_some.mp hst
    · cases (hp id' hnew).2.2.symm.trans hrecord
    · exact h.leaves id' st record hold hrecord

/-- A vote of somebody who has not voted is counted. -/
theorem SingleVotes.vote (h : SingleVotes r) (hnodup : r.voters.Nodup)
    (hopen : r.Votable id state) (hv : r.voters[i]? = some v) (hnew : r.hasVoted id i = false)
    (hvoters : r₁.voters = r.voters) (hproposal : r₁.proposal = r.proposal)
    (harchive : r₁.archive = r.archive) (hdisjoint : ∀ id', r₁.Disjoint id')
    (hvoted : ∀ id' j, r₁.hasVoted id' j = (decide (id' = id ∧ j = i) || r.hasVoted id' j)) :
    SingleVotes (r₁.setProposal id { state with voteCount := state.voteCount + 1 }) where
  disjoint := hdisjoint
  counted := by
    intro id' st hst hnone
    change st.voteCount = (r₁.recordedVoters id').card
    rw [recordedVoters_insert hnodup hvoters hv hvoted]
    have hnone' : r.archive.lookup id' = none := harchive ▸ hnone
    obtain ⟨rfl, rfl⟩ | ⟨hid, hold⟩ := Store.lookup_insert_eq_some.mp hst
    · have hmem : v ∉ r.recordedVoters id' := by
        rw [mem_recordedVoters hnodup]
        rintro ⟨j, hj, hvoted'⟩
        obtain rfl := (voter_eq_iff hnodup hv hj).mp rfl
        rw [hnew] at hvoted'
        cases hvoted'
      rw [if_pos rfl, Finset.card_insert_of_notMem hmem, ← h.counted id' state hopen.lookup hnone']
    · rw [if_neg hid]
      exact h.counted id' st (hproposal ▸ hold) hnone'
  leaves := by
    intro id' st record hst hrecord
    have hrecord' : r.archive.lookup id' = some record := harchive ▸ hrecord
    obtain ⟨rfl, rfl⟩ | ⟨hid, hold⟩ := Store.lookup_insert_eq_some.mp hst
    · rw [hopen.archive] at hrecord'
      cases hrecord'
    · exact h.leaves id' st record (hproposal ▸ hold) hrecord'

theorem Settled.of_eq (hproposal : r'.proposal = r.proposal) (harchive : r'.archive = r.archive) :
    Settled crypto r r' where
  final := fun id state h _ => by rwa [hproposal]
  kept := fun id record h => by rwa [harchive]
  leaves := fun id record hnone h => by
    rw [harchive, hnone] at h
    cases h

/-- A change of a proposal that was not executed. -/
theorem Settled.setProposal (hproposal : r₁.proposal = r.proposal)
    (harchive : r₁.archive = r.archive)
    (hopen : ∀ state, r.proposal.lookup id = some state → state.executed = false) :
    Settled crypto r (r₁.setProposal id state') where
  final := by
    intro id' st hst hexecuted
    have hid : id' ≠ id := by
      rintro rfl
      rw [hopen st hst] at hexecuted
      cases hexecuted
    rwa [Register.setProposal, Store.lookup_insert_ite, if_neg hid, hproposal]
  kept := fun id record h => harchive ▸ h
  leaves := fun id record hnone h => by
    rw [Register.setProposal, harchive, hnone] at h
    cases h

theorem SingleVotes.newVoter (h : SingleVotes r) (hw : WellFormed r) (hnew : v ∉ r.voters) :
    SingleVotes { r with voters := r.voters ++ [v] } where
  disjoint := by
    intro id j w hj hbit
    have hlt := (hw.packed id j hbit).1
    exact h.disjoint id j w (by rwa [List.getElem?_append_left hlt] at hj) hbit
  counted := by
    intro id st hst hnone
    rw [recordedVoters_newVoter hw hnew]
    exact h.counted id st hst hnone
  leaves := h.leaves

/-- Somebody who has not voted can vote in the packed layout. -/
theorem SingleVotes.packVote (h : SingleVotes r) (hw : WellFormed r) (hopen : r.Votable id state)
    (hv : r.voters[i]? = some v) (hnew : r.hasVoted id i = false) (ws : Words) :
    SingleVotes ((r.packVote id i ws).setProposal id
      { state with voteCount := state.voteCount + 1 }) := by
  refine h.vote hw.nodup hopen hv hnew rfl rfl rfl (fun id' j w hj hbit => ?_)
    fun _ _ => hasVoted_packVote
  rw [getVoteBits_packVote] at hbit
  split_ifs at hbit with hid
  · subst hid
    rw [isBitSet_setPackedBit, Bool.or_eq_true, decide_eq_true_iff] at hbit
    obtain rfl | hold := hbit
    · exact ((hasVoted_eq_false (r := r) hj).mp hnew).2
    · exact h.disjoint id' j w hj hold
  · exact h.disjoint id' j w hj hbit

/-- A detailed vote keeps the layouts apart exactly if the voter has no packed vote. -/
theorem SingleVotes.pushActionVote_iff (h : SingleVotes r) (hw : WellFormed r)
    (hopen : r.Votable id state) (hv : r.voters[i]? = some v) (hnew : v ∉ r.getActionVotes id) :
    SingleVotes ((r.pushActionVote id v).setProposal id
      { state with voteCount := state.voteCount + 1 }) ↔
      isBitSet (r.getVoteBits id) i = false := by
  have hself : v ∈ (r.pushActionVote id v).getActionVotes id := by
    rw [getActionVotes_pushActionVote, if_pos rfl]
    exact List.mem_append_right _ List.mem_cons_self
  constructor
  · intro h'
    by_contra hbit
    exact h'.disjoint id i v hv (Bool.eq_true_of_not_eq_false hbit) hself
  · intro hbit
    refine h.vote hw.nodup hopen hv ((hasVoted_eq_false hv).mpr ⟨hbit, hnew⟩) rfl rfl rfl
      (fun id' j w hj hbit' => ?_) fun _ _ => hasVoted_pushActionVote hw.nodup hv
    rw [getActionVotes_pushActionVote]
    split_ifs with hid
    · subst hid
      rw [List.mem_append, List.mem_singleton, not_or]
      refine ⟨h.disjoint id' j w hj hbit', ?_⟩
      rintro rfl
      obtain rfl := (voter_eq_iff hw.nodup hv hj).mp rfl
      exact Bool.false_ne_true (hbit.symm.trans hbit')
    · exact h.disjoint id' j w hj hbit'

/-! ## Compression -/

theorem mem_packedVoters (hw : WellFormed r) :
    v ∈ (r.packedList id).map Participant.voter ↔
      ∃ i, r.voters[i]? = some v ∧ isBitSet (r.getVoteBits id) i = true := by
  rw [List.mem_map]
  constructor
  · rintro ⟨p, hp, rfl⟩
    obtain ⟨hv, hvote⟩ := WellFormed.mem_packedList.mp hp
    exact ⟨p.index, hv, hw.packedVote_isSome.mp (Option.isSome_of_eq_some hvote)⟩
  · rintro ⟨i, hv, hbit⟩
    obtain ⟨w, hvote⟩ := Option.isSome_iff_exists.mp (hw.packedVote_isSome.mpr hbit)
    exact ⟨⟨i, v, w⟩, WellFormed.mem_packedList.mpr ⟨hv, hvote⟩, rfl⟩

theorem detailedList_voters :
    (r.detailedList id).map Participant.voter = r.getActionVotes id := by
  rw [detailedList, List.map_map]
  exact List.map_id _

/-- There are as many participants as voters were recorded. -/
theorem recordedVoters_card (hw : WellFormed r) (hdisjoint : r.Disjoint id) :
    (r.recordedVoters id).card = (r.packedList id ++ r.detailedList id).length := by
  have hnodup : ((r.packedList id ++ r.detailedList id).map Participant.voter).Nodup := by
    rw [List.map_append, detailedList_voters]
    refine List.nodup_append.mpr ⟨listing_voters_nodup hw.nodup _, hw.detailed_nodup id, ?_⟩
    rintro a ha b hb rfl
    obtain ⟨i, hv, hbit⟩ := (mem_packedVoters hw).mp ha
    exact hdisjoint i a hv hbit hb
  have hfinset : r.recordedVoters id =
      ((r.packedList id ++ r.detailedList id).map Participant.voter).toFinset := by
    ext w
    rw [mem_recordedVoters hw.nodup, List.mem_toFinset, List.map_append, List.mem_append,
      mem_packedVoters hw, detailedList_voters]
    constructor
    · rintro ⟨i, hv, hvoted⟩
      simp only [hasVoted, hv, Bool.or_eq_true, List.contains_iff_mem] at hvoted
      exact hvoted.imp_left fun hbit => ⟨i, hv, hbit⟩
    · rintro (⟨i, hv, hbit⟩ | hmem)
      · exact ⟨i, hv, by simp [hasVoted, hbit]⟩
      · exact ⟨_, WellFormed.getElem?_idxOf (hw.detailed_mem id w hmem), by
          simp [hasVoted, WellFormed.getElem?_idxOf (hw.detailed_mem id w hmem), hmem]⟩
  rw [hfinset, List.toFinset_card_of_nodup hnodup, List.length_map]

theorem recordedVoters_compressed {id' : UInt64} (hid : id' ≠ id) (record : ArchiveRecord) :
    (r.compressed id record).recordedVoters id' = r.recordedVoters id' := by
  have hvoted : ∀ j, (r.compressed id record).hasVoted id' j = r.hasVoted id' j := by
    intro j
    rw [hasVoted, hasVoted, getVoteBits_compressed, getActionVotes_compressed, if_neg hid,
      if_neg hid]
    rfl
  rw [recordedVoters, recordedVoters]
  simp only [hvoted]
  rfl

theorem SingleVotes.compressed (h : SingleVotes r) (hw : WellFormed r)
    (hstate : r.proposal.lookup id = some state) (harchive : r.archive.lookup id = none)
    {ps : List Participant} (hps : r.participants id = .ok ps) (finalTally : ℕ) :
    SingleVotes (r.compressed id (recordOf crypto id ps finalTally)) where
  disjoint := by
    intro id' j w hj hbit
    rw [getVoteBits_compressed] at hbit
    rw [getActionVotes_compressed]
    split_ifs at hbit ⊢
    · simp at hbit
    · exact h.disjoint id' j w hj hbit
  counted := by
    intro id' st hst hnone
    have hid : id' ≠ id := by
      rintro rfl
      rw [Register.compressed, Store.lookup_insert_ite, if_pos rfl] at hnone
      cases hnone
    rw [Register.compressed, Store.lookup_insert_ite, if_neg hid] at hnone
    rw [recordedVoters_compressed hid]
    exact h.counted id' st hst hnone
  leaves := by
    intro id' st record hst hrecord
    obtain ⟨rfl, rfl⟩ | ⟨_, hold⟩ := Store.lookup_insert_eq_some.mp hrecord
    · obtain rfl : st = state := Option.some_inj.mp (hst.symm.trans hstate)
      rw [hw.participants_eq (h.disjoint id')] at hps
      obtain rfl := Except.ok.inj hps
      rw [h.counted id' st hst harchive, recordedVoters_card hw (h.disjoint id')]
      exact List.length_mergeSort _
    · exact h.leaves id' st record hst hold

/-- The leaves of a new archive weigh its final tally exactly if the weights still stand. -/
theorem Settled.compressed_iff (h : SingleVotes r) (hw : WellFormed r)
    (hstate : r.proposal.lookup id = some state) (harchive : r.archive.lookup id = none)
    {ps : List Participant} (hps : r.participants id = .ok ps) :
    Settled crypto r (r.compressed id (recordOf crypto id ps state.finalTally)) ↔
      r.WeightsStand id := by
  have hsum : (ps.map Participant.weight).sum = ((r.packedList id).map Participant.weight).sum +
      ((r.getActionVotes id).map r.getAdminWeight).sum := by
    have hall := hps
    rw [hw.participants_eq (h.disjoint id)] at hall
    obtain rfl := Except.ok.inj hall
    rw [((List.mergeSort_perm _ _).map _).sum_eq, List.map_append, List.sum_append, detailedList,
      List.map_map]
    rfl
  have hnew : (r.compressed id (recordOf crypto id ps state.finalTally)).archive.lookup id =
      some (recordOf crypto id ps state.finalTally) := by
    rw [Register.compressed, Store.lookup_insert_ite, if_pos rfl]
  constructor
  · intro hsettled st hst
    obtain rfl : st = state := Option.some_inj.mp (hst.symm.trans hstate)
    obtain ⟨ps', hps', hrecord⟩ := hsettled.leaves id _ harchive hnew
    obtain rfl := Except.ok.inj (hps.symm.trans hps')
    rw [← hsum]
    exact (congrArg ArchiveRecord.finalTally hrecord).symm
  · intro hstand
    refine ⟨fun id' st hst _ => hst, fun id' record hrecord => ?_,
      fun id' record hnone hrecord => ?_⟩
    · rw [Register.compressed, Store.lookup_insert_ite, if_neg]
      · exact hrecord
      · rintro rfl
        rw [harchive] at hrecord
        cases hrecord
    · obtain ⟨rfl, rfl⟩ | ⟨_, hold⟩ := Store.lookup_insert_eq_some.mp hrecord
      · exact ⟨ps, hps, by rw [hsum, hstand state hstate]⟩
      · rw [hnone] at hold
        cases hold

/-! ## Runs -/

/-- An accepted call keeps votes single and settled exactly if it is regular. -/
theorem change_iff (hw : WellFormed r) (hp : Proposed r) (h : SingleVotes r) {call : RegisterCall}
    (hc : Change crypto r call r') :
    SingleVotes r' ∧ Settled crypto r r' ↔ r.Regular call := by
  cases hc with
  | admin a => exact iff_of_true ⟨{ h with }, .of_eq rfl rfl⟩ trivial
  | sameVoter c v => exact iff_of_true ⟨h, .of_eq rfl rfl⟩ trivial
  | newVoter c v hnew hlt => exact iff_of_true ⟨h.newVoter hw hnew, .of_eq rfl rfl⟩ trivial
  | weight c v w hweight => exact iff_of_true ⟨{ h with }, .of_eq rfl rfl⟩ trivial
  | threshold c t ht => exact iff_of_true ⟨{ h with }, .of_eq rfl rfl⟩ trivial
  | propose c id hnew =>
    refine iff_of_true ⟨h.propose hp hnew, .setProposal rfl rfl fun st hst => ?_⟩ trivial
    rw [hnew] at hst
    cases hst
  | cancel c id state hstate hopen =>
    have hsingle : SingleVotes (r.setProposal id { state with cancelled := true }) :=
      h.setProposal hstate rfl
    rw [and_iff_right hsingle]
    constructor
    · intro hsettled st hst
      by_contra hexecuted
      have hfinal := hsettled.final id st hst (Bool.eq_true_of_not_eq_false hexecuted)
      rw [Register.setProposal, Store.lookup_insert_ite, if_pos rfl] at hfinal
      have hcancelled := congrArg ProposalState.cancelled (Option.some_inj.mp hfinal)
      obtain rfl := Option.some_inj.mp (hst.symm.trans hstate)
      rw [hopen] at hcancelled
      cases hcancelled
    · exact fun hregular => .setProposal rfl rfl hregular
  | vote v id state i r₁ hopen hi hnew hrecord =>
    obtain ⟨ws, _, rfl⟩ := hw.recordVote_eq_ok hrecord
    refine iff_of_true ⟨h.packVote hw hopen ((voterIndex_eq_some hw.nodup).mp hi) hnew ws,
      .setProposal rfl rfl fun st hst => ?_⟩ trivial
    obtain rfl : st = state := Option.some_inj.mp (hst.symm.trans hopen.lookup)
    exact hopen.executed
  | detailed v id state i hopen hi hnew =>
    have hsettled : Settled crypto r ((r.pushActionVote id v).setProposal id
        { state with voteCount := state.voteCount + 1 }) :=
      .setProposal rfl rfl fun st hst => by
        obtain rfl : st = state := Option.some_inj.mp (hst.symm.trans hopen.lookup)
        exact hopen.executed
    rw [and_iff_left hsettled,
      h.pushActionVote_iff hw hopen ((voterIndex_eq_some hw.nodup).mp hi) hnew]
    constructor
    · rintro hbit j hj
      obtain rfl := Option.some_inj.mp (hi.symm.trans hj)
      exact hbit
    · exact fun hregular => hregular i hi
  | finalizedBefore id state hstate hexecuted => exact iff_of_true ⟨h, .of_eq rfl rfl⟩ trivial
  | finalized id state total hstate hexecuted htotal hreached =>
    refine iff_of_true ⟨h.setProposal hstate rfl, .setProposal rfl rfl fun st hst => ?_⟩ trivial
    obtain rfl : st = state := Option.some_inj.mp (hst.symm.trans hstate)
    exact hexecuted
  | compress id state ps hstate hexecuted harchive hps =>
    rw [and_iff_right (h.compressed hw hstate harchive hps _)]
    exact Settled.compressed_iff h hw hstate harchive hps

/-- A call keeps votes single and settled exactly if it is regular or refused. -/
theorem commit_iff (hw : WellFormed r) (hp : Proposed r) (h : SingleVotes r)
    (call : RegisterCall) :
    SingleVotes (commit (registerStep crypto) r call) ∧
        Settled crypto r (commit (registerStep crypto) r call) ↔
      r.RegularIfAccepted crypto call := by
  cases hstep : registerStep crypto call r with
  | error e =>
    rw [commit_of_error hstep]
    refine iff_of_true ⟨h, .of_eq rfl rfl⟩ ?_
    rintro ⟨r', hok⟩
    rw [hstep] at hok
    cases hok
  | ok r' =>
    rw [commit_of_ok hstep, change_iff hw hp h (registerStep_change hstep)]
    exact ⟨fun hregular _ => hregular, fun hregular => hregular ⟨r', hstep⟩⟩

end Steps

end Register

open Register

/-- Along a run of the register everybody is recorded in one layout, the votes are counted by
voter, executed proposals and archives never change and the leaves of every archive weigh its
final tally, exactly if all accepted calls are regular. -/
theorem votes_single_and_final_iff (crypto : ArchiveCrypto) (run : List RegisterCall) :
    Throughout (registerStep crypto) SingleVotes Register.deployed run ∧
        Along (registerStep crypto)
          (fun r call => Settled crypto r (commit (registerStep crypto) r call))
          Register.deployed run ↔
      Along (registerStep crypto) (RegularIfAccepted crypto) Register.deployed run := by
  refine throughout_and_along_iff (I := fun r => WellFormed r ∧ Proposed r)
    (fun r call hi => ?_) (fun r call hi h => commit_iff hi.1 hi.2 h call)
    ⟨WellFormed.deployed, Proposed.deployed⟩ SingleVotes.deployed run
  refine commit_induction (P := fun r => WellFormed r ∧ Proposed r) hi fun r' hstep => ?_
  have hchange := registerStep_change hstep
  exact ⟨hi.1.change hchange, hi.2.change hi.1 hchange⟩

/-- One voter and an open proposal with threshold one. -/
def sampleProposal : List RegisterCall :=
  [.initializeArchive ⟨0⟩, .addVoter ⟨0⟩ ⟨1⟩, .setWeightThreshold ⟨0⟩ 1, .proposeAction ⟨0⟩ 7]

/-- A voter can vote in both layouts, an executed proposal can be cancelled, and a new weight of a
detailed voter changes what its leaf weighs but not the final tally. -/
theorem votes_not_single_or_final :
    ¬ Throughout (registerStep sampleCrypto) SingleVotes Register.deployed
        (sampleProposal ++ [.castVote ⟨1⟩ 7, .castVoteDetailed ⟨1⟩ 7]) ∧
      ¬ Along (registerStep sampleCrypto)
        (fun r call => Settled sampleCrypto r (commit (registerStep sampleCrypto) r call))
        Register.deployed
        (sampleProposal ++ [.castVote ⟨1⟩ 7, .finalize 7, .cancelAction ⟨0⟩ 7]) ∧
      ¬ Along (registerStep sampleCrypto)
        (fun r call => Settled sampleCrypto r (commit (registerStep sampleCrypto) r call))
        Register.deployed
        (sampleProposal ++ [.castVoteDetailed ⟨1⟩ 7, .finalize 7, .setAdminWeight ⟨0⟩ ⟨1⟩ 100,
          .compressAfterExecution 7]) := by
  refine ⟨fun h => ?_, fun h => ?_, fun h => ?_⟩
  · have hlast := h.last.disjoint 7 0 ⟨1⟩ (by decide +kernel) (by decide +kernel)
    exact hlast (by decide +kernel)
  · obtain ⟨_, _, _, _, _, _, hcancel, _⟩ := h
    have hfinal := hcancel.final 7 ⟨true, false, 1, 1⟩ (by decide +kernel) rfl
    exact absurd hfinal (by decide +kernel)
  · obtain ⟨_, _, _, _, _, _, _, hcompress, _⟩ := h
    obtain ⟨ps, hps, hrecord⟩ := hcompress.leaves 7
      (recordOf sampleCrypto 7 [⟨0, ⟨1⟩, 100⟩] 1) (by decide +kernel) (by decide +kernel)
    have hlist : ps = [⟨0, ⟨1⟩, 100⟩] := Except.ok.inj (hps.symm.trans (by decide +kernel))
    subst hlist
    exact absurd hrecord (by decide +kernel)

end StellarFlow.Archive
