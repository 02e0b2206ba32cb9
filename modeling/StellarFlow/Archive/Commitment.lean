import StellarFlow.Archive.Participants

/-!
# The archive commits to the votes

Beside the register, every accepted vote is noted with the weight of its voter at that moment.
The record that replaces the votes of a proposal has their number, their weight and the root of
the tree over them in the order of the register. Exactly these votes verify against it.
-/
namespace StellarFlow.Archive

open Foundation Register

/-- The entry points that change the archive. -/
inductive ArchiveCall
  | initializeArchive (admin : Address)
  | addVoter (caller voter : Address)
  | setAdminWeight (caller voter : Address) (weight : ℕ)
  | setWeightThreshold (caller : Address) (threshold : ℕ)
  | proposeAction (proposer : Address) (proposalId : UInt64)
  | cancelAction (canceller : Address) (proposalId : UInt64)
  | castVote (voter : Address) (proposalId : UInt64)
  | finalize (caller : Address) (proposalId : UInt64)
  | compressAfterExecution (caller : Address) (proposalId : UInt64)

/-- The call of the register behind an entry point. -/
def ArchiveCall.registerCall : ArchiveCall → RegisterCall
  | .initializeArchive admin => .initializeArchive admin
  | .addVoter caller voter => .addVoter caller voter
  | .setAdminWeight caller voter weight => .setAdminWeight caller voter weight
  | .setWeightThreshold caller threshold => .setWeightThreshold caller threshold
  | .proposeAction proposer proposalId => .proposeAction proposer proposalId
  | .cancelAction canceller proposalId => .cancelAction canceller proposalId
  | .castVote voter proposalId => .castVote voter proposalId
  | .finalize _ proposalId => .finalize proposalId
  | .compressAfterExecution _ proposalId => .compressAfterExecution proposalId

variable (crypto : ArchiveCrypto) {here : Address}

def requireAdmin (caller : Address) (r : Register) : Except ArchiveFault Unit := do
  let admin ← okOr r.admin (.error .notInitialized)
  failIf (caller ≠ admin) (.error .notAdmin)

/-- One call of an entry point. -/
def archiveStep (env : Env here) : ArchiveCall → Register → Except ArchiveFault Register
  | .initializeArchive admin, r => do
    hostCall (env.requireAuth admin)
    registerStep crypto (.initializeArchive admin) r
  | .addVoter caller voter, r => do
    hostCall (env.requireAuth caller)
    registerStep crypto (.addVoter caller voter) r
  | .setAdminWeight caller voter weight, r => do
    hostCall (env.requireAuth caller)
    registerStep crypto (.setAdminWeight caller voter weight) r
  | .setWeightThreshold caller threshold, r => do
    hostCall (env.requireAuth caller)
    registerStep crypto (.setWeightThreshold caller threshold) r
  | .proposeAction proposer proposalId, r => do
    hostCall (env.requireAuth proposer)
    registerStep crypto (.proposeAction proposer proposalId) r
  | .cancelAction canceller proposalId, r => do
    hostCall (env.requireAuth canceller)
    registerStep crypto (.cancelAction canceller proposalId) r
  | .castVote voter proposalId, r => do
    hostCall (env.requireAuth voter)
    registerStep crypto (.castVote voter proposalId) r
  | .finalize caller proposalId, r => do
    hostCall (env.requireAuth caller)
    requireAdmin caller r
    registerStep crypto (.finalize proposalId) r
  | .compressAfterExecution caller proposalId, r => do
    hostCall (env.requireAuth caller)
    requireAdmin caller r
    registerStep crypto (.compressAfterExecution proposalId) r

/-! ## The history of votes -/

/-- A vote and the weight of its voter when it was cast. -/
structure Cast where
  proposalId : UInt64
  voter : Address
  weight : ℕ
  deriving DecidableEq

structure Book where
  register : Register
  casts : List Cast

namespace Book

def deployed : Book := ⟨Register.deployed, []⟩

variable (b : Book)

def castsOn (id : UInt64) : List Cast := b.casts.filter fun c => c.proposalId = id

/-- The weight that a voter had when it voted. -/
def weightOf (id : UInt64) (v : Address) : Option ℕ :=
  (b.casts.find? fun c => c.proposalId = id ∧ c.voter = v).map Cast.weight

/-- The votes on a proposal in the order of the register. -/
def votes (id : UInt64) : List Participant :=
  listing b.register.voters fun entry => b.weightOf id entry.1

/-- The history after an accepted call. -/
def castsAfter : ArchiveCall → List Cast
  | .castVote voter id => b.casts ++ [⟨id, voter, b.register.getAdminWeight voter⟩]
  | _ => b.casts

end Book

def bookStep (call : Env here × ArchiveCall) (b : Book) : Except ArchiveFault Book := do
  let register ← archiveStep crypto call.1 call.2 b.register
  pure ⟨register, b.castsAfter call.2⟩

/-! ## What the archive promises -/

/-- The record of a proposal is faithful to the votes cast on it. -/
structure Faithful (b : Book) (id : UInt64) (record : ArchiveRecord) : Prop where
  finalTally : record.finalTally = ((b.castsOn id).map Cast.weight).sum
  leafCount : record.leafCount = ((b.castsOn id).map Cast.voter).toFinset.card
  once : ((b.castsOn id).map Cast.voter).Nodup
  pos : 0 < record.leafCount
  tally : b.register.tally id = .ok record.finalTally
  verify : ∀ (position voterIndex : UInt32) (voter : Address) (option : Bool) (weight : UInt32)
    (proof : List Bytes32),
    Set.InjOn crypto.sha256 {x | x ∈ hashedStrings crypto
      ((b.votes id).map (participantPreimage crypto id))
      (leafPreimage crypto id voterIndex.toNat option weight.toNat voter) position.toNat proof} →
    (b.register.verifyArchivedVote crypto id position voterIndex voter option weight proof =
        .ok true ↔
      b.register.voterIndex voter = some voterIndex.toNat ∧
        ⟨id, voter, weight.toNat⟩ ∈ b.casts ∧ option = true ∧
        position.toNat = ((b.castsOn id).countP fun c =>
          b.register.voters.idxOf c.voter < voterIndex.toNat) ∧
        proof = merkleProof crypto ((b.votes id).map fun p =>
          leafHash crypto id p.index true p.weight p.voter) position.toNat)

/-- Records stay, and compression keeps the tally of the proposal. -/
structure RecordsKept (b b' : Book) : Prop where
  kept : ∀ id record, b.register.archive.lookup id = some record →
    b'.register.archive.lookup id = some record
  tally : ∀ id, b.register.archive.lookup id = none → b'.register.archive.lookup id ≠ none →
    b'.register.tally id = b.register.tally id

/-- How the register and the history are linked. -/
structure Linked (b : Book) : Prop where
  wellFormed : WellFormed b.register
  detailed : ∀ id, b.register.getActionVotes id = []
  once : (b.casts.map fun c => (c.proposalId, c.voter)).Nodup
  registered : ∀ c ∈ b.casts, c.voter ∈ b.register.voters ∧ c.weight ≤ 100
  packed : ∀ id, b.register.archive.lookup id = none → ∀ i v,
    b.register.voters[i]? = some v → b.weightOf id v = b.register.packedVote id i
  executed : ∀ id state, b.register.proposal.lookup id = some state → state.executed = true →
    state.finalTally = ((b.castsOn id).map Cast.weight).sum ∧ b.castsOn id ≠ []
  archived : ∀ id record, b.register.archive.lookup id = some record →
    ∃ state, b.register.proposal.lookup id = some state ∧ state.executed = true ∧
      record = recordOf crypto id (b.votes id) state.finalTally

section History

variable {crypto} {b b' : Book} {id id' : UInt64} {v w : Address} {i n : ℕ}

/-- What was found is a cast of the voter on the proposal. -/
theorem find?_cast {c : Cast}
    (h : b.casts.find? (fun c => c.proposalId = id ∧ c.voter = v) = some c) :
    c ∈ b.casts ∧ c.proposalId = id ∧ c.voter = v :=
  ⟨List.mem_of_find?_eq_some h, by simpa using List.find?_some h⟩

/-- If nobody votes twice, the weight of a voter is that of its cast. -/
theorem weightOf_eq_some (honce : (b.casts.map fun c => (c.proposalId, c.voter)).Nodup) :
    b.weightOf id v = some n ↔ (⟨id, v, n⟩ : Cast) ∈ b.casts := by
  rw [Book.weightOf, Option.map_eq_some_iff]
  constructor
  · rintro ⟨c, hc, rfl⟩
    obtain ⟨hmem, rfl, rfl⟩ := find?_cast hc
    exact hmem
  · intro hmem
    obtain ⟨c, hc⟩ := Option.isSome_iff_exists.mp (List.find?_isSome.mpr
      ⟨_, hmem, by simp⟩ : (b.casts.find? fun c => c.proposalId = id ∧ c.voter = v).isSome)
    obtain ⟨hcast, hid, hvoter⟩ := find?_cast hc
    have heq : c = ⟨id, v, n⟩ := List.inj_on_of_nodup_map honce hcast hmem (by rw [hid, hvoter])
    exact ⟨c, hc, by rw [heq]⟩

theorem mem_votes {p : Participant} :
    p ∈ b.votes id ↔ b.register.voters[p.index]? = some p.voter ∧
      b.weightOf id p.voter = some p.weight := mem_listing

/-- A participant as a cast on the proposal. -/
def castOf (id : UInt64) (p : Participant) : Cast := ⟨id, p.voter, p.weight⟩

theorem mem_castsOn {c : Cast} : c ∈ b.castsOn id ↔ c ∈ b.casts ∧ c.proposalId = id := by
  simp [Book.castsOn]

namespace Linked

/-- The votes in the order of the register are the casts. -/
theorem votes_perm (h : Linked crypto b) (id : UInt64) :
    ((b.votes id).map (castOf id)).Perm (b.castsOn id) := by
  have hvotes : ((b.votes id).map (castOf id)).Nodup := by
    have hvoters := listing_voters_nodup h.wellFormed.nodup fun entry => b.weightOf id entry.1
    exact hvoters.of_map.map_on fun p hp q hq heq =>
      List.inj_on_of_nodup_map hvoters hp hq (congrArg Cast.voter heq)
  have hcasts : (b.castsOn id).Nodup := h.once.of_map.filter _
  refine (List.perm_ext_iff_of_nodup hvotes hcasts).mpr fun c => ?_
  rw [List.mem_map, mem_castsOn]
  constructor
  · rintro ⟨p, hp, rfl⟩
    exact ⟨(weightOf_eq_some h.once).mp (mem_votes.mp hp).2, rfl⟩
  · rintro ⟨hc, rfl⟩
    refine ⟨⟨b.register.voters.idxOf c.voter, c.voter, c.weight⟩, mem_votes.mpr ⟨?_, ?_⟩, rfl⟩
    · exact WellFormed.getElem?_idxOf (h.registered c hc).1
    · exact (weightOf_eq_some h.once).mpr hc

theorem votes_sum (h : Linked crypto b) (id : UInt64) :
    ((b.votes id).map Participant.weight).sum = ((b.castsOn id).map Cast.weight).sum := by
  rw [← ((h.votes_perm id).map Cast.weight).sum_eq, List.map_map]
  rfl

/-- Before compression the packed votes are those of the history. -/
theorem packedList_eq (h : Linked crypto b) (hnone : b.register.archive.lookup id = none) :
    b.register.packedList id = b.votes id := by
  exact listing_congr fun i v hv => (h.packed id hnone i v hv).symm

/-- A proposal that is not archived is tallied from the history. -/
theorem tally_eq (h : Linked crypto b) {state : ProposalState}
    (hstate : b.register.proposal.lookup id = some state)
    (hnone : b.register.archive.lookup id = none) :
    b.register.tally id = .ok ((b.castsOn id).map Cast.weight).sum := by
  rw [h.wellFormed.tally_eq hstate hnone, h.packedList_eq hnone, h.votes_sum, detailedList,
    h.detailed]
  rfl

theorem disjoint (h : Linked crypto b) (id : UInt64) : b.register.Disjoint id := by
  intro i v _ _
  rw [h.detailed]
  exact List.not_mem_nil

/-- What is compressed are the votes of the history. -/
theorem participants_eq (h : Linked crypto b) (hnone : b.register.archive.lookup id = none) :
    b.register.participants id = .ok (b.votes id) := by
  rw [h.wellFormed.participants_eq (h.disjoint id), h.packedList_eq hnone, detailedList, h.detailed,
    List.map_nil, List.append_nil]
  exact congrArg Except.ok (List.mergeSort_of_pairwise
    ((listing_pairwise _ _).imp fun hlt => decide_eq_true hlt.le))

/-- The participants with a smaller index, counted in the history. -/
theorem countP_votes (h : Linked crypto b) (id : UInt64) (i : ℕ) :
    ((b.votes id).countP fun q => q.index < i) =
      (b.castsOn id).countP fun c => b.register.voters.idxOf c.voter < i := by
  rw [← (h.votes_perm id).countP_eq, List.countP_map]
  refine List.countP_congr fun q hq => ?_
  rw [Function.comp_apply, castOf,
    idxOf_voter h.wellFormed.nodup (mem_votes.mp hq).1]

/-- The leaf of a participant at a position. -/
theorem getElem?_preimages_iff (h : Linked crypto b) (hxdr : Function.Injective crypto.xdr)
    {position voterIndex weight : ℕ} {voter : Address} {option : Bool}
    (hindex : voterIndex < 2 ^ 32) (hweight : weight < 2 ^ 32) :
    ((b.votes id).map (participantPreimage crypto id))[position]? =
        some (leafPreimage crypto id voterIndex option weight voter) ↔
      (b.votes id)[position]? = some ⟨voterIndex, voter, weight⟩ ∧ option = true := by
  rw [List.getElem?_map, Option.map_eq_some_iff]
  constructor
  · rintro ⟨p, hp, heq⟩
    obtain ⟨hv, hcast⟩ := mem_votes.mp (List.mem_of_getElem? hp)
    have hbound : p.weight ≤ 100 := (h.registered _ ((weightOf_eq_some h.once).mp hcast)).2
    have hlt := (List.getElem?_eq_some_iff.mp hv).1.trans h.wellFormed.voters_lt
    obtain ⟨_, rfl, rfl, rfl, rfl⟩ :=
      leafPreimage_inj hxdr hlt hindex (by omega) hweight heq
    exact ⟨hp, rfl⟩
  · rintro ⟨hp, rfl⟩
    exact ⟨_, hp, rfl⟩

/-- Exactly the votes of the history verify, each at its position and along its siblings. -/
theorem verify_iff (h : Linked crypto b) (hxdr : Function.Injective crypto.xdr)
    {finalTally : ℕ} (hne : b.votes id ≠ [])
    (hrecord : b.register.archive.lookup id =
      some (recordOf crypto id (b.votes id) finalTally))
    {position voterIndex : UInt32} {voter : Address} {option : Bool} {weight : UInt32}
    {proof : List Bytes32}
    (hsha : Set.InjOn crypto.sha256 {x | x ∈ hashedStrings crypto
      ((b.votes id).map (participantPreimage crypto id))
      (leafPreimage crypto id voterIndex.toNat option weight.toNat voter) position.toNat proof}) :
    b.register.verifyArchivedVote crypto id position voterIndex voter option weight proof =
        .ok true ↔
      b.register.voterIndex voter = some voterIndex.toNat ∧
        ⟨id, voter, weight.toNat⟩ ∈ b.casts ∧ option = true ∧
        position.toNat = ((b.castsOn id).countP fun c =>
          b.register.voters.idxOf c.voter < voterIndex.toNat) ∧
        proof = merkleProof crypto ((b.votes id).map fun p =>
          leafHash crypto id p.index true p.weight p.voter) position.toNat := by
  have hleaves : ((b.votes id).map (participantPreimage crypto id)).map crypto.sha256 =
      (b.votes id).map fun p => leafHash crypto id p.index true p.weight p.voter := by
    rw [List.map_map]
    rfl
  have hsorted : (b.votes id).Pairwise fun p q => p.index < q.index := listing_pairwise _ _
  have hverify := verifyProof_iff (mt List.map_eq_nil_iff.mp hne)
    (fun bytes hbytes => by
      obtain ⟨p, _, rfl⟩ := List.mem_map.mp hbytes
      exact leafPreimage_head? _ _ _ _ _) hsha
  rw [List.length_map, h.getElem?_preimages_iff hxdr voterIndex.toNat_lt weight.toNat_lt,
    getElem?_eq_some_iff_countP hsorted, mem_votes, h.countP_votes,
    weightOf_eq_some h.once, hleaves] at hverify
  rw [verifyArchivedVote, hrecord, okOr_some, ok_bind, pure_eq_ok, voterIndex_eq_some
    h.wellFormed.nodup, recordOf, leafHash, hleaves]
  rw [hverify]
  tauto

/-- A linked book keeps the promises of the archive. -/
theorem faithful (h : Linked crypto b) (hxdr : Function.Injective crypto.xdr)
    {record : ArchiveRecord} (hrecord : b.register.archive.lookup id = some record) :
    Faithful crypto b id record := by
  obtain ⟨state, hstate, hexecuted, rfl⟩ := h.archived id record hrecord
  obtain ⟨hfinal, hcasts⟩ := h.executed id state hstate hexecuted
  have hperm := h.votes_perm id
  have hlength : (b.votes id).length = (b.castsOn id).length := by
    rw [← hperm.length_eq, List.length_map]
  have honce : ((b.castsOn id).map Cast.voter).Nodup := by
    refine ((hperm.map Cast.voter).nodup_iff).mp ?_
    rw [List.map_map]
    exact listing_voters_nodup h.wellFormed.nodup _
  have hpos : 0 < (b.votes id).length := hlength ▸ List.length_pos_of_ne_nil hcasts
  refine ⟨hfinal, ?_, honce, hpos, ?_, fun position voterIndex voter option weight proof hsha => ?_⟩
  · rw [List.toFinset_card_of_nodup honce, List.length_map]
    exact hlength
  · rw [Register.tally, loadProposal, hstate, okOr_some, ok_bind, hrecord]
    rfl
  · exact h.verify_iff hxdr (List.ne_nil_of_length_pos hpos) hrecord hsha

end Linked

/-! ## One call -/

/-- A call that leaves the archives alone. -/
theorem RecordsKept.of_eq (h : b'.register.archive = b.register.archive) : RecordsKept b b' where
  kept := fun id record hrecord => by rwa [h]
  tally := fun id hnone hsome => by
    rw [h] at hsome
    exact absurd hnone hsome

theorem Linked.deployed : Linked crypto Book.deployed where
  wellFormed := WellFormed.deployed
  detailed := fun id => rfl
  once := List.nodup_nil
  registered := fun c hc => by cases hc
  packed := fun id _ i v hv => by simp [Book.deployed, Register.deployed] at hv
  executed := fun id state h => by cases h
  archived := fun id record h => by cases h

namespace Linked

/-- A change of the state of a proposal. -/
theorem setProposal (h : Linked crypto b) {state : ProposalState}
    (hexecuted : state.executed = true →
      state.finalTally = ((b.castsOn id).map Cast.weight).sum ∧ b.castsOn id ≠ [])
    (harchived : ∀ record, b.register.archive.lookup id = some record →
      state.executed = true ∧ ∃ before, b.register.proposal.lookup id = some before ∧
        before.finalTally = state.finalTally) :
    Linked crypto ⟨b.register.setProposal id state, b.casts⟩ where
  wellFormed := { h.wellFormed with }
  detailed := h.detailed
  once := h.once
  registered := h.registered
  packed := h.packed
  executed := by
    intro id' st hst hex
    obtain ⟨rfl, rfl⟩ | ⟨_, hold⟩ := Store.lookup_insert_eq_some.mp hst
    · exact hexecuted hex
    · exact h.executed id' st hold hex
  archived := by
    intro id' record hrecord
    obtain ⟨st, hst, hex, heq⟩ := h.archived id' record hrecord
    by_cases hid : id' = id
    · subst hid
      obtain ⟨hexec, before, hbefore, hfinal⟩ := harchived record hrecord
      obtain rfl := Option.some_inj.mp (hst.symm.trans hbefore)
      refine ⟨state, ?_, hexec, by rw [heq, hfinal]; rfl⟩
      rw [Register.setProposal, Store.lookup_insert_ite, if_pos rfl]
    · refine ⟨st, ?_, hex, heq⟩
      rw [Register.setProposal, Store.lookup_insert_ite, if_neg hid]
      exact hst

theorem weightOf_unregistered (h : Linked crypto b) (hnew : v ∉ b.register.voters) :
    b.weightOf id v = none := by
  by_contra hne
  obtain ⟨n, hn⟩ := Option.ne_none_iff_exists'.mp hne
  exact hnew (h.registered _ ((weightOf_eq_some h.once).mp hn)).1

/-- A new voter has no votes. -/
theorem newVoter (h : Linked crypto b) (hnew : v ∉ b.register.voters)
    (hw : WellFormed { b.register with voters := b.register.voters ++ [v] }) :
    Linked crypto ⟨{ b.register with voters := b.register.voters ++ [v] }, b.casts⟩ where
  wellFormed := hw
  detailed := h.detailed
  once := h.once
  registered := fun c hc => (h.registered c hc).imp_left (List.mem_append_left _)
  packed := by
    intro id' hnone i w hi
    by_cases hlt : i < b.register.voters.length
    · exact h.packed id' hnone i w (by rwa [List.getElem?_append_left hlt] at hi)
    · have hwv : w = v := by
        have hmem := List.mem_of_getElem? (List.getElem?_append_right (Nat.not_lt.mp hlt) ▸ hi)
        exact List.mem_singleton.mp hmem
      subst hwv
      have hunset : isBitSet (b.register.getVoteBits id') i = false := by
        by_contra hbit
        exact hlt (h.wellFormed.packed id' i (Bool.eq_true_of_not_eq_false hbit)).1
      have hunpacked : b.register.packedVote id' i = none := by
        rw [packedVote, hunset]
        rfl
      exact (h.weightOf_unregistered hnew).trans hunpacked.symm
  executed := h.executed
  archived := by
    intro id' record hrecord
    obtain ⟨st, hst, hex, heq⟩ := h.archived id' record hrecord
    refine ⟨st, hst, hex, heq.trans ?_⟩
    have hvotes : listing (b.register.voters ++ [v]) (fun entry => b.weightOf id' entry.1) =
        b.votes id' := listing_append_none (h.weightOf_unregistered hnew)
    exact congrArg (fun ps => recordOf crypto id' ps st.finalTally) hvotes.symm

theorem weightOf_append (r : Register) (c : Cast) :
    (⟨r, b.casts ++ [c]⟩ : Book).weightOf id v =
      (b.weightOf id v).or (if c.proposalId = id ∧ c.voter = v then some c.weight else none) := by
  rw [Book.weightOf, Book.weightOf, List.find?_append]
  cases b.casts.find? fun c => c.proposalId = id ∧ c.voter = v with
  | some _ => rfl
  | none =>
    rw [Option.none_or, Option.map_none, Option.none_or, List.find?_singleton]
    by_cases hc : c.proposalId = id ∧ c.voter = v <;> simp [hc]

theorem castsOn_append (r : Register) (c : Cast) :
    (⟨r, b.casts ++ [c]⟩ : Book).castsOn id =
      b.castsOn id ++ if c.proposalId = id then [c] else [] := by
  rw [Book.castsOn, Book.castsOn, List.filter_append, List.filter_singleton]
  by_cases hc : c.proposalId = id <;> simp [hc]

/-- A new vote is packed and noted with the weight of its voter. -/
theorem vote (h : Linked crypto b) {state : ProposalState} {ws : Words}
    (hopen : b.register.Votable id state) (hv : b.register.voters[i]? = some v)
    (hnew : b.register.hasVoted id i = false)
    (hws : setPackedWeight (b.register.getPackedWeights id) i (b.register.getAdminWeight v) =
      .ok ws) (voteCount : ℕ) :
    Linked crypto ⟨(b.register.packVote id i ws).setProposal id { state with voteCount },
      b.casts ++ [⟨id, v, b.register.getAdminWeight v⟩]⟩ := by
  have hunset := ((hasVoted_eq_false hv).mp hnew).1
  have hfirst : b.weightOf id v = none := by
    rw [h.packed id hopen.archive i v hv, packedVote, hunset]
    rfl
  have hothers : ∀ id' ≠ id, ∀ w,
      (⟨(b.register.packVote id i ws).setProposal id { state with voteCount },
        b.casts ++ [⟨id, v, b.register.getAdminWeight v⟩]⟩ : Book).weightOf id' w =
        b.weightOf id' w := by
    intro id' hid w
    rw [weightOf_append, if_neg fun hc => hid hc.1.symm, Option.or_none]
  refine ⟨?_, h.detailed, ?_, ?_, ?_, ?_, ?_⟩
  · exact { h.wellFormed with packed := (h.wellFormed.packVote hv hws).packed }
  · rw [List.map_append, List.map_singleton]
    refine nodup_append_singleton h.once fun hmem => ?_
    obtain ⟨c, hc, hkey⟩ := List.mem_map.mp hmem
    obtain ⟨rfl, rfl⟩ := Prod.mk.inj hkey
    rw [(weightOf_eq_some h.once).mpr hc] at hfirst
    cases hfirst
  · intro c hc
    obtain hold | hlast := List.mem_append.mp hc
    · exact h.registered c hold
    · obtain rfl := List.mem_singleton.mp hlast
      exact ⟨List.mem_of_getElem? hv, (h.wellFormed.getAdminWeight_bounds v).2⟩
  · intro id' hnone j w hj
    refine Eq.trans ?_ (h.wellFormed.packedVote_packVote hws).symm
    by_cases hid : id' = id
    · subst hid
      by_cases hji : j = i
      · obtain rfl := (voter_eq_iff h.wellFormed.nodup hv hj).mpr hji
        rw [weightOf_append, hfirst, if_pos ⟨rfl, rfl⟩, if_pos ⟨rfl, hji⟩]
        rfl
      · have hw : w ≠ v := fun hw => hji ((voter_eq_iff h.wellFormed.nodup hv hj).mp hw)
        rw [weightOf_append, if_neg fun hc => hw hc.2.symm, if_neg fun hc => hji hc.2,
          Option.or_none]
        exact h.packed id' hnone j w hj
    · rw [hothers id' hid, if_neg fun hc => hid hc.1]
      exact h.packed id' hnone j w hj
  · intro id' st hst hex
    obtain ⟨rfl, rfl⟩ | ⟨hid, hold⟩ := Store.lookup_insert_eq_some.mp hst
    · exact absurd hex (by rw [hopen.executed]; exact Bool.false_ne_true)
    · rw [castsOn_append, if_neg (Ne.symm hid), List.append_nil]
      exact h.executed id' st hold hex
  · intro id' record hrecord
    obtain ⟨st, hst, hex, heq⟩ := h.archived id' record hrecord
    have hid : id' ≠ id := by
      rintro rfl
      cases hopen.archive.symm.trans hrecord
    refine ⟨st, ?_, hex, heq.trans ?_⟩
    · rw [Register.setProposal, Store.lookup_insert_ite, if_neg hid]
      exact hst
    · refine congrArg (fun ps => recordOf crypto id' ps st.finalTally) ?_
      exact (listing_congr fun _ w _ => hothers id' hid w).symm

/-- Compression replaces the votes by the record of them. -/
theorem compressed (h : Linked crypto b) {state : ProposalState}
    (hstate : b.register.proposal.lookup id = some state) (hexecuted : state.executed = true) :
    Linked crypto
      ⟨b.register.compressed id (recordOf crypto id (b.votes id) state.finalTally), b.casts⟩ where
  wellFormed := h.wellFormed.compressed id _
  detailed := by
    intro id'
    refine getActionVotes_compressed.trans ?_
    rw [h.detailed, ite_self]
  once := h.once
  registered := h.registered
  packed := by
    intro id' hnone i v hv
    rw [Register.compressed, Store.lookup_insert_ite] at hnone
    have hid : id' ≠ id := by
      rintro rfl
      rw [if_pos rfl] at hnone
      cases hnone
    rw [if_neg hid] at hnone
    refine (h.packed id' hnone i v hv).trans ?_
    rw [packedVote, packedVote, getVoteBits_compressed, getPackedWeights_compressed, if_neg hid,
      if_neg hid]
  executed := h.executed
  archived := by
    intro id' record hrecord
    obtain ⟨rfl, rfl⟩ | ⟨_, hold⟩ := Store.lookup_insert_eq_some.mp hrecord
    · exact ⟨state, hstate, hexecuted, rfl⟩
    · exact h.archived id' record hold

/-- Compression leaves other records and the tally alone. -/
theorem compressed_kept (h : Linked crypto b) {state : ProposalState}
    (hstate : b.register.proposal.lookup id = some state) (hexecuted : state.executed = true)
    (hnone : b.register.archive.lookup id = none) :
    RecordsKept b
      ⟨b.register.compressed id (recordOf crypto id (b.votes id) state.finalTally), b.casts⟩ where
  kept := by
    intro id' record hrecord
    rw [Register.compressed, Store.lookup_insert_ite, if_neg]
    · exact hrecord
    · rintro rfl
      cases hnone.symm.trans hrecord
  tally := by
    intro id' hnone' hsome
    rw [Register.compressed, Store.lookup_insert_ite] at hsome
    have hid : id' = id := by
      by_contra hid
      rw [if_neg hid] at hsome
      exact hsome hnone'
    subst hid
    rw [h.tally_eq hstate hnone, ← (h.executed id' state hstate hexecuted).1, Register.tally,
      loadProposal, Register.compressed, hstate, okOr_some, ok_bind, Store.lookup_insert_ite,
      if_pos rfl]
    rfl

theorem requiredThreshold_pos (h : Linked crypto b) : 1 ≤ b.register.requiredThreshold := by
  unfold requiredThreshold
  cases hthreshold : b.register.weightThreshold with
  | none => split_ifs <;> decide
  | some t => exact h.wellFormed.threshold t hthreshold

/-- A finalized proposal has votes, and their weight is final. -/
theorem finalized (h : Linked crypto b) {state : ProposalState} {total : ℕ}
    (hstate : b.register.proposal.lookup id = some state) (hopen : state.executed = false)
    (htotal : b.register.tally id = .ok total) (hreached : b.register.requiredThreshold ≤ total) :
    Linked crypto ⟨b.register.setProposal id { state with finalTally := total, executed := true },
      b.casts⟩ := by
  have hnone : b.register.archive.lookup id = none := by
    by_contra hne
    obtain ⟨record, hrecord⟩ := Option.ne_none_iff_exists'.mp hne
    obtain ⟨st, hst, hexecuted, _⟩ := h.archived id record hrecord
    obtain rfl := Option.some_inj.mp (hst.symm.trans hstate)
    exact Bool.false_ne_true (hopen.symm.trans hexecuted)
  obtain rfl := Except.ok.inj ((h.tally_eq hstate hnone).symm.trans htotal)
  refine h.setProposal (fun _ => ⟨rfl, fun hempty => ?_⟩) fun record hrecord => ?_
  · have hpos := h.requiredThreshold_pos.trans hreached
    rw [hempty] at hpos
    simp at hpos
  · cases hnone.symm.trans hrecord

/-- Every accepted call keeps the link, the records and the tally. -/
theorem change (h : Linked crypto b) {call : ArchiveCall} {r' : Register}
    (hc : Change crypto b.register call.registerCall r') :
    Linked crypto ⟨r', b.castsAfter call⟩ ∧ RecordsKept b ⟨r', b.castsAfter call⟩ := by
  have hw := h.wellFormed.change hc
  cases call with
  | initializeArchive a =>
    cases hc with
    | admin =>
      exact ⟨⟨hw, h.detailed, h.once, h.registered, h.packed, h.executed, h.archived⟩, .of_eq rfl⟩
  | addVoter c v =>
    cases hc with
    | sameVoter => exact ⟨h, .of_eq rfl⟩
    | newVoter _ _ hnew hlt => exact ⟨h.newVoter hnew hw, .of_eq rfl⟩
  | setAdminWeight c v w =>
    cases hc with
    | weight =>
      exact ⟨⟨hw, h.detailed, h.once, h.registered, h.packed, h.executed, h.archived⟩, .of_eq rfl⟩
  | setWeightThreshold c t =>
    cases hc with
    | threshold =>
      exact ⟨⟨hw, h.detailed, h.once, h.registered, h.packed, h.executed, h.archived⟩, .of_eq rfl⟩
  | proposeAction c id =>
    cases hc with
    | propose _ _ hnew =>
      refine ⟨h.setProposal (fun hexecuted => by cases hexecuted) fun record hrecord => ?_,
        .of_eq rfl⟩
      obtain ⟨st, hst, _⟩ := h.archived id record hrecord
      cases hnew.symm.trans hst
  | cancelAction c id =>
    cases hc with
    | cancel _ _ state hstate hopen =>
      refine ⟨h.setProposal (h.executed id state hstate) fun record hrecord => ?_, .of_eq rfl⟩
      obtain ⟨st, hst, hexecuted, _⟩ := h.archived id record hrecord
      obtain rfl := Option.some_inj.mp (hst.symm.trans hstate)
      exact ⟨hexecuted, st, hst, rfl⟩
  | castVote v id =>
    cases hc with
    | vote _ _ state i r₁ hopen hi hnew hrecord =>
      obtain ⟨ws, hws, rfl⟩ := h.wellFormed.recordVote_eq_ok hrecord
      exact ⟨h.vote hopen ((voterIndex_eq_some h.wellFormed.nodup).mp hi) hnew hws _, .of_eq rfl⟩
  | finalize c id =>
    cases hc with
    | finalizedBefore => exact ⟨h, .of_eq rfl⟩
    | finalized _ state total hstate hopen htotal hreached =>
      exact ⟨h.finalized hstate hopen htotal hreached, .of_eq rfl⟩
  | compressAfterExecution c id =>
    cases hc with
    | compress _ state ps hstate hexecuted hnone hps =>
      obtain rfl := Except.ok.inj ((h.participants_eq hnone).symm.trans hps)
      exact ⟨h.compressed hstate hexecuted, h.compressed_kept hstate hexecuted hnone⟩

end Linked

/-- An accepted entry point makes the call of the register. -/
theorem archiveStep_registerStep {env : Env here} {call : ArchiveCall} {r r' : Register}
    (h : archiveStep crypto env call r = .ok r') :
    registerStep crypto call.registerCall r = .ok r' := by
  cases call with
  | finalize caller id =>
    obtain ⟨_, _, h⟩ := bind_eq_ok.mp h
    obtain ⟨_, _, h⟩ := bind_eq_ok.mp h
    exact h
  | compressAfterExecution caller id =>
    obtain ⟨_, _, h⟩ := bind_eq_ok.mp h
    obtain ⟨_, _, h⟩ := bind_eq_ok.mp h
    exact h
  | _ =>
    obtain ⟨_, _, h⟩ := bind_eq_ok.mp h
    exact h

theorem bookStep_keeps (h : Linked crypto b) {call : Env here × ArchiveCall}
    (hstep : bookStep crypto call b = .ok b') : Linked crypto b' ∧ RecordsKept b b' := by
  obtain ⟨register, hregister, hstep⟩ := bind_eq_ok.mp hstep
  obtain rfl := pure_eq_ok.mp hstep
  exact h.change (registerStep_change (archiveStep_registerStep hregister))

end History

/-- In every state of a run of the entry points, the record of a compressed proposal is faithful
to the votes cast on it, and no call changes a record or, by compression, a tally. -/
theorem archive_commits (hxdr : Function.Injective crypto.xdr)
    (run : List (Env here × ArchiveCall)) :
    Throughout (bookStep crypto) (fun b => ∀ id record,
        b.register.archive.lookup id = some record → Faithful crypto b id record)
        Book.deployed run ∧
      Along (bookStep crypto) (fun b call => RecordsKept b (commit (bookStep crypto) b call))
        Book.deployed run := by
  constructor
  · exact throughout_of_invariant (I := Linked crypto) (fun b call b' h hstep =>
      (bookStep_keeps h hstep).1) (fun b h id record => h.faithful hxdr) Linked.deployed run
  · refine along_of_invariant (I := Linked crypto) (fun b call b' h hstep =>
      (bookStep_keeps h hstep).1) (fun b call h => ?_) Linked.deployed run
    exact commit_induction (.of_eq rfl) fun b' hstep => (bookStep_keeps h hstep).2

/-! ## A sample -/

section Sample

def sampleArchiveEnv : Env ⟨0⟩ := Env.standard ⟨0⟩ 0 none

theorem injOn_list {α β : Type*} {f : α → β} {l : List α}
    (h : ∀ x ∈ l, ∀ y ∈ l, f x = f y → x = y) : Set.InjOn f {x | x ∈ l} :=
  fun x hx y hy => h x hx y hy

/-- Two voters vote against their order in the register, the second of them with weight five. -/
def sampleArchiveRun : List (Env ⟨0⟩ × ArchiveCall) :=
  [.initializeArchive ⟨1⟩, .addVoter ⟨1⟩ ⟨2⟩, .addVoter ⟨1⟩ ⟨3⟩, .setAdminWeight ⟨1⟩ ⟨3⟩ 5,
    .proposeAction ⟨1⟩ 7, .castVote ⟨3⟩ 7, .castVote ⟨2⟩ 7, .finalize ⟨1⟩ 7,
    .compressAfterExecution ⟨1⟩ 7].map fun call => (sampleArchiveEnv, call)

/-- The vote of the second voter verifies along the leaf of the first. -/
theorem sampleVote_verifies :
    (runAll (bookStep sampleCrypto) Book.deployed sampleArchiveRun).register.verifyArchivedVote
      sampleCrypto 7 1 1 ⟨3⟩ true 5 [leafHash sampleCrypto 7 0 true 1 ⟨2⟩] = .ok true := by
  obtain ⟨record, hrecord⟩ := Option.isSome_iff_exists.mp (show
    ((runAll (bookStep sampleCrypto) Book.deployed sampleArchiveRun).register.archive.lookup
      7).isSome = true by decide +kernel)
  have hfaithful := (archive_commits sampleCrypto sampleCrypto_xdr sampleArchiveRun).1.last 7
    record hrecord
  refine (hfaithful.verify 1 1 ⟨3⟩ true 5 _ ?_).mpr ⟨?_, ?_, rfl, ?_, ?_⟩
  · exact injOn_list (by decide +kernel)
  all_goals decide +kernel

end Sample

end StellarFlow.Archive
