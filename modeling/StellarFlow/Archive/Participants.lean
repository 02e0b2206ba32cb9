import StellarFlow.Archive.Register

/-!
# Who is recorded as a voter of a proposal

The participants are the voters whose bit is set, in the order of the register, and the voters of
the detailed list. As long as nobody is in both, their weights sum to the tally.
-/
namespace StellarFlow.Archive

open Foundation

theorem nodup_append_singleton {α : Type*} {l : List α} {a : α} (hnodup : l.Nodup)
    (hnew : a ∉ l) : (l ++ [a]).Nodup := by
  rw [← List.concat_eq_append]
  exact hnodup.concat hnew

/-- The voters that have a weight, in the order of the register. -/
def listing (voters : List Address) (f : Address × ℕ → Option ℕ) : List Participant :=
  voters.zipIdx.filterMap fun entry =>
    (f entry).map fun weight => ⟨entry.2, entry.1, weight⟩

theorem mem_listing {voters : List Address} {f : Address × ℕ → Option ℕ} {p : Participant} :
    p ∈ listing voters f ↔
      voters[p.index]? = some p.voter ∧ f (p.voter, p.index) = some p.weight := by
  simp only [listing, List.mem_filterMap, Option.map_eq_some_iff]
  constructor
  · rintro ⟨entry, hentry, w, hw, rfl⟩
    exact ⟨List.mem_zipIdx_iff_getElem?.mp hentry, hw⟩
  · rintro ⟨hv, hw⟩
    exact ⟨(p.voter, p.index), List.mem_zipIdx_iff_getElem?.mpr hv, p.weight, hw, rfl⟩

theorem listing_pairwise (voters : List Address) (f : Address × ℕ → Option ℕ) :
    (listing voters f).Pairwise fun p q => p.index < q.index := by
  have hentries : voters.zipIdx.Pairwise fun e e' => e.2 < e'.2 := by
    rw [← List.pairwise_map (f := Prod.snd) (R := (· < ·)), List.zipIdx_map_snd]
    exact List.pairwise_lt_range'
  refine List.Pairwise.filterMap _ (fun e e' hlt p hp q hq => ?_) hentries
  obtain ⟨_, _, rfl⟩ := Option.map_eq_some_iff.mp hp
  obtain ⟨_, _, rfl⟩ := Option.map_eq_some_iff.mp hq
  exact hlt

theorem listing_congr {voters : List Address} {f g : Address × ℕ → Option ℕ}
    (h : ∀ i v, voters[i]? = some v → f (v, i) = g (v, i)) : listing voters f = listing voters g :=
  List.filterMap_congr fun entry hentry => by
    rw [h entry.2 entry.1 (List.mem_zipIdx_iff_getElem?.mp hentry)]

/-- A last voter without a weight is not listed. -/
theorem listing_append_none {voters : List Address} {f : Address × ℕ → Option ℕ} {v : Address}
    (h : f (v, voters.length) = none) : listing (voters ++ [v]) f = listing voters f := by
  simp [listing, List.zipIdx_append, List.filterMap_append, h]

/-- In a list with increasing indices a position counts the smaller ones. -/
theorem getElem?_eq_some_iff_countP {l : List Participant}
    (h : l.Pairwise fun p q => p.index < q.index) {n : ℕ} {p : Participant} :
    l[n]? = some p ↔ p ∈ l ∧ n = l.countP fun q => q.index < p.index := by
  have hposition : ∀ {n}, l[n]? = some p → n = l.countP fun q => q.index < p.index := by
    induction l with
    | nil => simp
    | cons q l ih =>
      obtain ⟨hfirst, hrest⟩ := List.pairwise_cons.mp h
      intro n hn
      cases n with
      | zero =>
        obtain rfl : q = p := by simpa using hn
        rw [List.countP_cons_of_neg (by simp), eq_comm, List.countP_eq_zero]
        intro q' hq'
        simpa using (hfirst q' hq').le
      | succ n =>
        rw [List.getElem?_cons_succ] at hn
        rw [List.countP_cons_of_pos (by simpa using hfirst p (List.mem_of_getElem? hn)),
          ← ih hrest hn]
  constructor
  · exact fun hn => ⟨List.mem_of_getElem? hn, hposition hn⟩
  · rintro ⟨hmem, rfl⟩
    obtain ⟨m, hm⟩ := List.mem_iff_getElem?.mp hmem
    rwa [← hposition hm]

/-- Different participants are different voters. -/
theorem listing_voters_nodup {voters : List Address} (hnodup : voters.Nodup)
    (f : Address × ℕ → Option ℕ) : ((listing voters f).map Participant.voter).Nodup := by
  rw [List.Nodup, List.pairwise_map]
  refine (listing_pairwise voters f).imp_of_mem fun {p q} hp hq hlt heq => ?_
  have hpv := (mem_listing.mp hp).1
  have hqv := (mem_listing.mp hq).1
  obtain ⟨hpi, hpv⟩ := List.getElem?_eq_some_iff.mp hpv
  obtain ⟨hqi, hqv⟩ := List.getElem?_eq_some_iff.mp hqv
  exact hlt.ne (hnodup.getElem_inj_iff.mp (hpv.trans (heq.trans hqv.symm)))

namespace Register

/-- What every call keeps, whatever was voted. -/
structure WellFormed (r : Register) : Prop where
  nodup : r.voters.Nodup
  voters_lt : r.voters.length < 2 ^ 32
  weight : ∀ v w, r.adminWeight.lookup v = some w → 1 ≤ w ∧ w ≤ 100
  threshold : ∀ t, r.weightThreshold = some t → 1 ≤ t
  packed : ∀ id i, isBitSet (r.getVoteBits id) i = true →
    i < r.voters.length ∧ i / 9 < (r.getPackedWeights id).length
  detailed_nodup : ∀ id, (r.getActionVotes id).Nodup
  detailed_mem : ∀ id, ∀ v ∈ r.getActionVotes id, v ∈ r.voters

section Definitions

variable (r : Register)

/-- The weight of the packed vote at an index. -/
def packedVote (id : UInt64) (i : ℕ) : Option ℕ :=
  if isBitSet (r.getVoteBits id) i then (packedWeight (r.getPackedWeights id) i).toOption else none

def packedList (id : UInt64) : List Participant :=
  listing r.voters fun entry => r.packedVote id entry.2

/-- A voter of the detailed layout, with the weight configured now. -/
def detailedParticipant (v : Address) : Participant :=
  ⟨r.voters.idxOf v, v, r.getAdminWeight v⟩

def detailedList (id : UInt64) : List Participant :=
  (r.getActionVotes id).map r.detailedParticipant

/-- Nobody has voted in both layouts. -/
def Disjoint (id : UInt64) : Prop :=
  ∀ i v, r.voters[i]? = some v → isBitSet (r.getVoteBits id) i = true → v ∉ r.getActionVotes id

/-- The state after a vote was packed. -/
def packVote (id : UInt64) (i : ℕ) (packedWeights : Words) : Register :=
  { r with
    voteBits := r.voteBits.insert id (setPackedBit (r.getVoteBits id) i)
    packedWeights := r.packedWeights.insert id packedWeights }

end Definitions

section Reads

variable {r : Register} {id id' : UInt64} {i j : ℕ} {v : Address} {ws : Words}

theorem getVoteBits_packVote :
    (r.packVote id i ws).getVoteBits id' =
      if id' = id then setPackedBit (r.getVoteBits id) i else r.getVoteBits id' := by
  simp only [getVoteBits, packVote, Store.lookup_insert_ite]
  split_ifs <;> rfl

theorem getPackedWeights_packVote :
    (r.packVote id i ws).getPackedWeights id' =
      if id' = id then ws else r.getPackedWeights id' := by
  simp only [getPackedWeights, packVote, Store.lookup_insert_ite]
  split_ifs <;> rfl

theorem getActionVotes_pushActionVote :
    (r.pushActionVote id v).getActionVotes id' =
      if id' = id then r.getActionVotes id ++ [v] else r.getActionVotes id' := by
  simp only [getActionVotes, pushActionVote, Store.lookup_insert_ite]
  split_ifs <;> rfl

theorem getVoteBits_compressed {record : ArchiveRecord} :
    (r.compressed id record).getVoteBits id' = if id' = id then [] else r.getVoteBits id' := by
  simp only [getVoteBits, compressed, Store.lookup_erase_ite]
  split_ifs <;> rfl

theorem getPackedWeights_compressed {record : ArchiveRecord} :
    (r.compressed id record).getPackedWeights id' =
      if id' = id then [] else r.getPackedWeights id' := by
  simp only [getPackedWeights, compressed, Store.lookup_erase_ite]
  split_ifs <;> rfl

theorem getActionVotes_compressed {record : ArchiveRecord} :
    (r.compressed id record).getActionVotes id' =
      if id' = id then [] else r.getActionVotes id' := by
  simp only [getActionVotes, compressed, Store.lookup_erase_ite]
  split_ifs <;> rfl

theorem voterIndex_eq_some (hnodup : r.voters.Nodup) :
    r.voterIndex v = some i ↔ r.voters[i]? = some v := by
  rw [voterIndex, List.idxOf?_eq_some_iff, List.getElem?_eq_some_iff]
  constructor
  · rintro ⟨hi, hv, _⟩
    exact ⟨hi, hv⟩
  · rintro ⟨hi, hv⟩
    refine ⟨hi, hv, fun j hji heq => ?_⟩
    exact hji.ne (hnodup.getElem_inj_iff.mp (heq.trans hv.symm))

theorem idxOf_voter (hnodup : r.voters.Nodup) (hv : r.voters[i]? = some v) :
    r.voters.idxOf v = i := by
  obtain ⟨hi, rfl⟩ := List.getElem?_eq_some_iff.mp hv
  exact hnodup.idxOf_getElem i hi

theorem voter_eq_iff (hnodup : r.voters.Nodup) (hv : r.voters[i]? = some v) {w : Address}
    (hw : r.voters[j]? = some w) : w = v ↔ j = i := by
  constructor
  · rintro rfl
    rw [← idxOf_voter hnodup hv, idxOf_voter hnodup hw]
  · rintro rfl
    exact Option.some_inj.mp (hw.symm.trans hv)

theorem hasVoted_eq_false (hv : r.voters[i]? = some v) :
    r.hasVoted id i = false ↔
      isBitSet (r.getVoteBits id) i = false ∧ v ∉ r.getActionVotes id := by
  simp [hasVoted, hv]

end Reads

namespace WellFormed

variable {r r' : Register} {id : UInt64} {crypto : ArchiveCrypto}

theorem deployed : WellFormed Register.deployed where
  nodup := List.nodup_nil
  voters_lt := by norm_num [Register.deployed]
  weight := fun v w h => by cases h
  threshold := fun t h => by cases h
  packed := fun id i h => by simp [getVoteBits, Register.deployed] at h
  detailed_nodup := fun id => List.nodup_nil
  detailed_mem := fun id v h => by cases h

theorem getAdminWeight_bounds (h : WellFormed r) (v : Address) :
    1 ≤ r.getAdminWeight v ∧ r.getAdminWeight v ≤ 100 := by
  unfold getAdminWeight
  cases hlookup : r.adminWeight.lookup v with
  | none => exact ⟨le_rfl, by decide⟩
  | some w => exact h.weight v w hlookup

/-- Every configured weight is packed. -/
theorem recordVote_eq_ok (h : WellFormed r) {v : Address} {i : ℕ}
    (hrecord : r.recordVote id v i = .ok r') :
    ∃ ws, setPackedWeight (r.getPackedWeights id) i (r.getAdminWeight v) = .ok ws ∧
      r' = r.packVote id i ws := by
  have hpacked := encodingFor_eq_packed.mpr (h.getAdminWeight_bounds v)
  rw [recordVote, hpacked] at hrecord
  obtain ⟨ws, hws, hrecord⟩ := bind_eq_ok.mp hrecord
  obtain rfl := pure_eq_ok.mp hrecord
  exact ⟨ws, hws, rfl⟩

theorem packVote (h : WellFormed r) {v : Address} {i weight : ℕ} {ws : Words}
    (hv : r.voters[i]? = some v)
    (hws : setPackedWeight (r.getPackedWeights id) i weight = .ok ws) :
    WellFormed (r.packVote id i ws) := by
  obtain ⟨-, rfl⟩ := setPackedWeight_eq_ok.mp hws
  refine { h with packed := fun id' j hbit => ?_ }
  rw [getVoteBits_packVote] at hbit
  rw [getPackedWeights_packVote]
  split_ifs at hbit ⊢ with hid
  · rw [isBitSet_setPackedBit, Bool.or_eq_true, decide_eq_true_iff] at hbit
    rw [PackedFields.write_length, lt_max_iff]
    obtain rfl | hold := hbit
    · exact ⟨(List.getElem?_eq_some_iff.mp hv).1, .inr (Nat.lt_succ_self _)⟩
    · exact (h.packed id j hold).imp_right .inl
  · exact h.packed id' j hbit

theorem pushActionVote (h : WellFormed r) {v : Address} (hv : v ∈ r.voters)
    (hnew : v ∉ r.getActionVotes id) : WellFormed (r.pushActionVote id v) := by
  refine { h with detailed_nodup := fun id' => ?_, detailed_mem := fun id' w hw => ?_ }
  · rw [getActionVotes_pushActionVote]
    split_ifs
    · exact nodup_append_singleton (h.detailed_nodup id) hnew
    · exact h.detailed_nodup id'
  · rw [getActionVotes_pushActionVote] at hw
    split_ifs at hw
    · obtain hold | hsame := List.mem_append.mp hw
      · exact h.detailed_mem id w hold
      · exact List.mem_singleton.mp hsame ▸ hv
    · exact h.detailed_mem id' w hw

theorem compressed (h : WellFormed r) (id : UInt64) (record : ArchiveRecord) :
    WellFormed (r.compressed id record) := by
  refine { h with
    packed := fun id' i hbit => ?_
    detailed_nodup := fun id' => ?_
    detailed_mem := fun id' v hv => ?_ }
  · rw [getVoteBits_compressed] at hbit
    rw [getPackedWeights_compressed]
    split_ifs at hbit ⊢
    · simp at hbit
    · exact h.packed id' i hbit
  · rw [getActionVotes_compressed]
    split_ifs
    · exact List.nodup_nil
    · exact h.detailed_nodup id'
  · rw [getActionVotes_compressed] at hv
    split_ifs at hv
    · cases hv
    · exact h.detailed_mem id' v hv

/-- Every accepted call keeps the register well formed. -/
theorem change (h : WellFormed r) {call : RegisterCall} (hc : Change crypto r call r') :
    WellFormed r' := by
  cases hc with
  | admin a => exact { h with }
  | sameVoter c v => exact h
  | newVoter c v hnew hlt =>
    exact { h with
      nodup := nodup_append_singleton h.nodup hnew
      voters_lt := by simpa using hlt
      packed := fun id i hbit => by
        obtain ⟨hi, hword⟩ := h.packed id i hbit
        exact ⟨by simpa using Nat.lt_succ_of_lt hi, hword⟩
      detailed_mem := fun id w hw => List.mem_append_left _ (h.detailed_mem id w hw) }
  | weight c v w hw =>
    refine { h with weight := fun v' w' hlookup => ?_ }
    obtain ⟨rfl, rfl⟩ | ⟨_, hold⟩ := Store.lookup_insert_eq_some.mp hlookup
    · exact hw
    · exact h.weight v' w' hold
  | threshold c t ht =>
    refine { h with threshold := fun t' hsome => ?_ }
    cases hsome
    exact ht
  | propose c id hnew => exact { h with }
  | cancel c id state hstate hopen => exact { h with }
  | vote v id state i r₁ hopen hi hnew hrecord =>
    obtain ⟨ws, hws, rfl⟩ := h.recordVote_eq_ok hrecord
    exact { h with packed := (h.packVote ((voterIndex_eq_some h.nodup).mp hi) hws).packed }
  | detailed v id state i hopen hi hnew =>
    have hv := List.mem_of_getElem? ((voterIndex_eq_some h.nodup).mp hi)
    have hpush := h.pushActionVote hv hnew
    exact { h with detailed_nodup := hpush.detailed_nodup, detailed_mem := hpush.detailed_mem }
  | finalizedBefore id state hstate hexecuted => exact h
  | finalized id state total hstate hexecuted htotal hreached => exact { h with }
  | compress id state ps hstate hexecuted harchive hps => exact h.compressed id _

/-! ## Packed votes -/

theorem exists_packedWeight (h : WellFormed r) {i : ℕ}
    (hbit : isBitSet (r.getVoteBits id) i = true) :
    ∃ w < 2 ^ 7, packedWeight (r.getPackedWeights id) i = .ok w :=
  Archive.exists_packedWeight (h.packed id i hbit).2

theorem packedVote_isSome (h : WellFormed r) {i : ℕ} :
    (r.packedVote id i).isSome ↔ isBitSet (r.getVoteBits id) i = true := by
  unfold packedVote
  split_ifs with hbit
  · obtain ⟨w, _, hw⟩ := h.exists_packedWeight hbit
    simp [hw, hbit, Except.toOption]
  · simp [hbit]

theorem countedWeight_eq (i : ℕ) :
    countedWeight (r.getVoteBits id) (r.getPackedWeights id) i = (r.packedVote id i).getD 0 := by
  unfold countedWeight packedVote
  split_ifs <;> rfl

/-- A packed vote is read back with its weight, and the other votes are left alone. -/
theorem packedVote_packVote (h : WellFormed r) {id' : UInt64} {i j weight : ℕ} {ws : Words}
    (hws : setPackedWeight (r.getPackedWeights id) i weight = .ok ws) :
    (r.packVote id i ws).packedVote id' j =
      if id' = id ∧ j = i then some weight else r.packedVote id' j := by
  rw [packedVote, packedVote, getVoteBits_packVote, getPackedWeights_packVote]
  by_cases hid : id' = id
  · subst hid
    rw [if_pos rfl, if_pos rfl, isBitSet_setPackedBit]
    by_cases hj : j = i
    · subst hj
      simp [(packedWeight_setPackedWeight (j := j) (w := 0) hws).1, Except.toOption]
    · have hother : ¬ (id' = id' ∧ j = i) := fun hc => hj hc.2
      rw [if_neg hother, decide_eq_false hj, Bool.false_or]
      split_ifs with hbit
      · obtain ⟨w, _, hw⟩ := h.exists_packedWeight hbit
        rw [hw, (packedWeight_setPackedWeight hws).2 hj hw]
      · rfl
  · have hother : ¬ (id' = id ∧ j = i) := fun hc => hid hc.1
    rw [if_neg hid, if_neg hid, if_neg hother]

theorem packedVote_le (i : ℕ) (h : WellFormed r) : (r.packedVote id i).getD 0 ≤ 127 := by
  unfold packedVote
  split_ifs with hbit
  · obtain ⟨w, hlt, hw⟩ := h.exists_packedWeight hbit
    rw [hw]
    exact Nat.le_of_lt_succ hlt
  · exact Nat.zero_le _

theorem packedParticipants_eq (h : WellFormed r) (id : UInt64) :
    r.packedParticipants id = .ok (r.packedList id) := by
  unfold packedParticipants packedList listing
  generalize r.voters.zipIdx = entries
  induction entries with
  | nil => rfl
  | cons entry entries ih =>
    rw [List.filter_cons, List.filterMap_cons]
    dsimp only
    rw [packedVote]
    split_ifs with hbit
    · obtain ⟨w, _, hw⟩ := h.exists_packedWeight hbit
      rw [List.mapM_cons, hw, ih]
      rfl
    · exact ih

/-- The weights of the packed votes sum to their part of the tally. -/
theorem packedList_sum (r : Register) (id : UInt64) :
    ((r.packedList id).map Participant.weight).sum =
      ((List.range r.voters.length).map
        (countedWeight (r.getVoteBits id) (r.getPackedWeights id))).sum := by
  have hrange : List.range r.voters.length = r.voters.zipIdx.map Prod.snd := by
    rw [List.zipIdx_map_snd, List.range_eq_range']
  rw [hrange, packedList, listing]
  generalize r.voters.zipIdx = entries
  induction entries with
  | nil => rfl
  | cons entry entries ih =>
    rw [List.filterMap_cons, List.map_cons, List.map_cons, List.sum_cons, countedWeight_eq, ← ih]
    cases r.packedVote id entry.2 with
    | none => exact (Nat.zero_add _).symm
    | some w => rfl

theorem sum_lt (h : WellFormed r) (id : UInt64) :
    ((r.packedList id).map Participant.weight).sum +
      ((r.detailedList id).map Participant.weight).sum < 2 ^ 64 - 1 := by
  have hvoters := h.voters_lt
  have hpacked : ((r.packedList id).map Participant.weight).sum ≤ r.voters.length * 127 := by
    rw [packedList_sum]
    refine (List.sum_le_card_nsmul _ 127 ?_).trans_eq (by simp)
    intro x hx
    obtain ⟨i, _, rfl⟩ := List.mem_map.mp hx
    rw [countedWeight_eq]
    exact h.packedVote_le i
  have hdetailed : ((r.detailedList id).map Participant.weight).sum ≤
      (r.getActionVotes id).length * 100 := by
    refine (List.sum_le_card_nsmul _ 100 ?_).trans_eq (by simp [detailedList])
    intro x hx
    simp only [detailedList, List.map_map, List.mem_map, Function.comp_apply] at hx
    obtain ⟨v, _, rfl⟩ := hx
    exact (h.getAdminWeight_bounds v).2
  have hlength : (r.getActionVotes id).length ≤ r.voters.length :=
    ((h.detailed_nodup id).subperm (h.detailed_mem id)).length_le
  omega

/-- The tally of a proposal that is not archived is the sum of both layouts. -/
theorem tally_eq (h : WellFormed r) {state : ProposalState}
    (hstate : r.proposal.lookup id = some state) (harchive : r.archive.lookup id = none) :
    r.tally id = .ok (((r.packedList id).map Participant.weight).sum +
      ((r.detailedList id).map Participant.weight).sum) := by
  have hlt := h.sum_lt id
  have hdetailed : (r.detailedList id).map Participant.weight =
      (r.getActionVotes id).map r.getAdminWeight := by
    rw [detailedList, List.map_map]
    rfl
  have hadd : ∀ total v, total ≤ 2 ^ 64 - 1 → saturatingAdd total (r.getAdminWeight v) =
      min (2 ^ 64 - 1) (total + r.getAdminWeight v) := fun _ _ _ => rfl
  rw [tally, loadProposal, hstate, okOr_some, ok_bind, harchive]
  dsimp only
  rw [packedWeightSum_eq, ← packedList_sum,
    foldl_eq_min hadd _ (Nat.min_le_left _ _), ← hdetailed,
    Nat.min_eq_right (by omega), Nat.min_eq_right (by omega)]
  rfl

/-! ## Participants -/

theorem mem_packedList {p : Participant} :
    p ∈ r.packedList id ↔ r.voters[p.index]? = some p.voter ∧
      r.packedVote id p.index = some p.weight := mem_listing

theorem getElem?_idxOf {v : Address} (hv : v ∈ r.voters) :
    r.voters[r.voters.idxOf v]? = some v := by
  rw [List.getElem?_eq_getElem (List.idxOf_lt_length_of_mem hv), List.getElem_idxOf]

/-- Different voters that are not listed yet are all listed. -/
theorem listVoters (h : WellFormed r) {votes : List Address} (hnodup : votes.Nodup)
    (hmem : ∀ v ∈ votes, v ∈ r.voters) {list : List Participant}
    (hnew : ∀ p ∈ list, ∀ v ∈ votes, p.index ≠ r.voters.idxOf v) :
    votes.foldlM r.listVoter list = .ok (list ++ votes.map r.detailedParticipant) := by
  induction votes generalizing list with
  | nil => simp [pure, Except.pure]
  | cons v votes ih =>
    obtain ⟨hv, hvotes⟩ := List.nodup_cons.mp hnodup
    have hindex : r.voterIndex v = some (r.voters.idxOf v) :=
      (voterIndex_eq_some h.nodup).mpr (getElem?_idxOf (hmem v List.mem_cons_self))
    have hlist : list.any (fun p => p.index == r.voters.idxOf v) = false := by
      simp only [List.any_eq_false, beq_iff_eq]
      exact fun p hp => hnew p hp v List.mem_cons_self
    have hstep : r.listVoter list v = .ok (list ++ [r.detailedParticipant v]) := by
      rw [listVoter, hindex, okOr_some, ok_bind, hlist]
      rfl
    rw [List.foldlM_cons, hstep, ok_bind, ih hvotes
      (fun w hw => hmem w (List.mem_cons_of_mem _ hw)), List.map_cons, List.append_assoc,
      List.singleton_append]
    intro p hp w hw
    obtain hold | hlast := List.mem_append.mp hp
    · exact hnew p hold w (List.mem_cons_of_mem _ hw)
    · obtain rfl := List.mem_singleton.mp hlast
      intro heq
      have hsame := getElem?_idxOf (hmem v List.mem_cons_self)
      rw [show r.voters.idxOf v = r.voters.idxOf w from heq,
        getElem?_idxOf (hmem w (List.mem_cons_of_mem _ hw))] at hsame
      exact hv (Option.some_inj.mp hsame ▸ hw)

/-- If nobody has voted in both layouts, everybody is listed once. -/
theorem participants_eq (h : WellFormed r) (hdisjoint : r.Disjoint id) :
    r.participants id = .ok ((r.packedList id ++ r.detailedList id).mergeSort
      fun p q => p.index ≤ q.index) := by
  rw [participants, h.packedParticipants_eq, ok_bind,
    h.listVoters (h.detailed_nodup id) (h.detailed_mem id)]
  · rfl
  · intro p hp v hv heq
    obtain ⟨hvoter, hvote⟩ := mem_packedList.mp hp
    have hbit := h.packedVote_isSome.mp (Option.isSome_of_eq_some hvote)
    rw [heq, getElem?_idxOf (h.detailed_mem id v hv)] at hvoter
    rw [heq] at hbit
    exact hdisjoint _ v (getElem?_idxOf (h.detailed_mem id v hv)) hbit hv

end WellFormed

end Register

end StellarFlow.Archive
