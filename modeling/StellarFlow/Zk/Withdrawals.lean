import StellarFlow.Foundation.Transaction
import StellarFlow.Zk.Membership

/-!
# Withdrawals of deposits

The history beside the store holds the commitments in order and the accepted withdrawals. The
nullifier of a withdrawal is any value that has not been used, and the empty leaves beyond the
deposits have proofs too. Deposits are withdrawn at most once as long as nobody names another
nullifier for a position than before, or a position that the root does not cover.
-/
namespace StellarFlow.Zk

open Foundation

inductive DepositCall where
  | insert (commitment : Bytes32)
  | withdraw (w : WithdrawalProof)

/-- The store with the commitments in order and the accepted withdrawals. -/
structure DepositHistory where
  store : DepositStore
  commitments : List Bytes32
  withdrawals : List WithdrawalProof

def DepositHistory.empty : DepositHistory := ⟨.empty, [], []⟩

/-- The position in the tree that a withdrawal proves. -/
def WithdrawalProof.position (w : WithdrawalProof) : ℕ := w.leafIndex % 2 ^ treeDepth

section Model

variable (sha256 : ByteString → Bytes32) {here : Address}

def DepositCall.exec (env : Env here) (h : DepositHistory) :
    DepositCall → Except Fault DepositHistory
  | insert commitment => do
    let (_, store) ← insertDeposit sha256 env commitment h.store
    pure { h with store, commitments := h.commitments ++ [commitment] }
  | withdraw w => do
    let store ← verifyWithdrawalAndSpend sha256 env w h.store
    pure { h with store, withdrawals := w :: h.withdrawals }

def depositStep (i : Env here × DepositCall) (h : DepositHistory) : Except Fault DepositHistory :=
  i.2.exec sha256 i.1 h

end Model

/-- Every withdrawal is of an inserted commitment, and none is of the position of another. -/
structure NoDoubleWithdrawal (h : DepositHistory) : Prop where
  count_le : h.withdrawals.length ≤ h.commitments.length
  inserted : ∀ w ∈ h.withdrawals, h.commitments[w.position]? = some w.leaf
  once : (h.withdrawals.map WithdrawalProof.position).Nodup

/-- A failed call leaves the nullifiers as they were. -/
def KeepsNullifiers (sha256 : ByteString → Bytes32) {here : Address} (h : DepositHistory)
    (i : Env here × DepositCall) : Prop :=
  ∀ e, depositStep sha256 i h = .error e →
    ∀ nullifier, isNullifierUsed nullifier (commit (depositStep sha256) h i).store =
      isNullifierUsed nullifier h.store

/-- The root of a withdrawal covers its position, or an empty leaf has been inserted there since,
and the position has not been withdrawn under another nullifier. -/
structure WithdrawsOwn (sha256 : ByteString → Bytes32) (h : DepositHistory)
    (w : WithdrawalProof) : Prop where
  covered : ∀ record, h.store.rootRecords.lookup w.root = some record →
    w.position < record.leafCount ∨ h.commitments[w.position]? = some (sha256 zeroLeafSeed)
  same_nullifier : ∀ w' ∈ h.withdrawals, w'.position = w.position → w'.nullifier = w.nullifier

/-- An accepted withdrawal is of this kind. -/
def OwnWithdrawal (sha256 : ByteString → Bytes32) {here : Address} (h : DepositHistory)
    (i : Env here × DepositCall) : Prop :=
  ∀ w, i.2 = .withdraw w → (∃ h', depositStep sha256 i h = .ok h') → WithdrawsOwn sha256 h w

/-- No two pairs collide that a proof and the tree of its root hash. -/
def NoCollision (sha256 : ByteString → Bytes32) {here : Address} (h : DepositHistory)
    (i : Env here × DepositCall) : Prop :=
  ∀ w, i.2 = .withdraw w → ∀ record, h.store.rootRecords.lookup w.root = some record →
    Set.InjOn sha256 (Set.image pairBytes (hashedPairs sha256
      (h.commitments.take record.leafCount) w.leaf w.path w.leafIndex))

/-- The roots of the buffer are those of the tree at some time, and accepted nullifiers are
used. -/
structure DepositInvariant (sha256 : ByteString → Bytes32) (h : DepositHistory) : Prop where
  tree : Represents sha256 h.store h.commitments
  roots : ∀ root record, h.store.rootRecords.lookup root = some record →
    record.leafCount ≤ h.commitments.length ∧
      root = fullRoot sha256 (h.commitments.take record.leafCount)
  spent : ∀ w ∈ h.withdrawals, isNullifierUsed w.nullifier h.store = true

section Invariant

variable {sha256 : ByteString → Bytes32} {here : Address} {env : Env here} {h h' : DepositHistory}
  {t t' : DepositStore}

theorem lookup_recordHistoricalRoot {root r : Bytes32} {leafCount : ℕ} {record : RootRecord}
    (hlookup : (recordHistoricalRoot env root leafCount t).rootRecords.lookup r = some record) :
    r = root ∧ record.leafCount = leafCount ∨ t.rootRecords.lookup r = some record := by
  have hinsert : ∀ record, (t.rootRecords.insert root
      ⟨root, env.timestamp, env.sequence, leafCount⟩).lookup r = some record →
      r = root ∧ record.leafCount = leafCount ∨ t.rootRecords.lookup r = some record := by
    intro record hlookup
    obtain ⟨rfl, rfl⟩ | ⟨_, hold⟩ := Store.lookup_insert_eq_some.mp hlookup
    · exact .inl ⟨rfl, rfl⟩
    · exact .inr hold
  unfold recordHistoricalRoot at hlookup
  dsimp only at hlookup
  split_ifs at hlookup with hfull
  · rw [Store.lookup_erase_ite] at hlookup
    split_ifs at hlookup
    exact hinsert record hlookup
  · exact hinsert record hlookup

/-- What an accepted withdrawal has checked, and the one entry that it writes. -/
theorem verifyWithdrawalAndSpend_eq_ok {w : WithdrawalProof} :
    verifyWithdrawalAndSpend sha256 env w t = .ok t' ↔
      (∃ record, validateRoot env w.root t = .ok record) ∧
      isNullifierUsed w.nullifier t = false ∧
      verifyMerkleProof sha256 w.leaf w.path w.leafIndex w.root = true ∧
      t' = { t with nullifiers := t.nullifiers.insert w.nullifier env.timestamp } := by
  simp only [verifyWithdrawalAndSpend, registerNullifier, bind_eq_ok, failIf_eq_ok, pure_eq_ok,
    exists_const, Bool.not_eq_true, Bool.not_eq_false]
  constructor
  · rintro ⟨record, hvalid, hfresh, hproof, -, rfl⟩
    exact ⟨⟨record, hvalid⟩, hfresh, hproof, rfl⟩
  · rintro ⟨⟨record, hvalid⟩, hfresh, hproof, rfl⟩
    exact ⟨record, hvalid, hfresh, hproof, hfresh, rfl⟩

theorem lookup_of_validateRoot {root : Bytes32} {record : RootRecord}
    (hvalid : validateRoot env root t = .ok record) : t.rootRecords.lookup root = some record := by
  rw [validateRoot] at hvalid
  obtain ⟨record', hlookup, hvalid⟩ := bind_eq_ok.mp hvalid
  obtain ⟨_, -, hrecord⟩ := bind_eq_ok.mp hvalid
  rw [okOr_eq_ok] at hlookup
  rw [hlookup, pure_eq_ok.mp hrecord]

theorem withdraw_eq_ok {w : WithdrawalProof} :
    depositStep sha256 (env, .withdraw w) h = .ok h' ↔
      (∃ record, validateRoot env w.root h.store = .ok record) ∧
      isNullifierUsed w.nullifier h.store = false ∧
      verifyMerkleProof sha256 w.leaf w.path w.leafIndex w.root = true ∧
      h' = { h with
        store := { h.store with
          nullifiers := h.store.nullifiers.insert w.nullifier env.timestamp }
        withdrawals := w :: h.withdrawals } := by
  rw [depositStep, DepositCall.exec, bind_eq_ok]
  simp only [verifyWithdrawalAndSpend_eq_ok, pure_eq_ok]
  constructor
  · rintro ⟨_, ⟨hvalid, hfresh, hproof, rfl⟩, rfl⟩
    exact ⟨hvalid, hfresh, hproof, rfl⟩
  · rintro ⟨hvalid, hfresh, hproof, rfl⟩
    exact ⟨_, ⟨hvalid, hfresh, hproof, rfl⟩, rfl⟩

/-- An accepted insertion adds a commitment to the tree. -/
theorem insert_inserted (hi : DepositInvariant sha256 h) {commitment : Bytes32}
    (hexec : depositStep sha256 (env, .insert commitment) h = .ok h') :
    h.commitments.length < 2 ^ treeDepth ∧
      Inserted sha256 env h.store commitment h'.store ∧
      h'.commitments = h.commitments ++ [commitment] ∧ h'.withdrawals = h.withdrawals := by
  rw [depositStep, DepositCall.exec, bind_eq_ok] at hexec
  obtain ⟨⟨result, store⟩, hinsert, hpure⟩ := hexec
  obtain rfl := pure_eq_ok.mp hpure
  have hroom : h.store.nextLeafIndex < 2 ^ treeDepth := by
    rw [insertDeposit] at hinsert
    obtain ⟨_, hfits, -⟩ := bind_eq_ok.mp hinsert
    exact not_le.mp (failIf_eq_ok.mp hfits)
  obtain ⟨t', hspec, hinserted⟩ := insertDeposit_spec hi.tree.wellFormed hroom env commitment
  obtain ⟨-, rfl⟩ := Prod.mk.inj (Except.ok.inj (hspec.symm.trans hinsert))
  exact ⟨hi.tree.nextLeafIndex_eq ▸ hroom, hinserted, rfl, rfl⟩

theorem DepositInvariant.empty : DepositInvariant sha256 .empty where
  tree := Represents.empty
  roots _ _ hlookup := by cases hlookup
  spent _ hw := absurd hw List.not_mem_nil

theorem DepositInvariant.insert {commitment : Bytes32} (hi : DepositInvariant sha256 h)
    (hexec : depositStep sha256 (env, .insert commitment) h = .ok h') :
    DepositInvariant sha256 h' := by
  obtain ⟨hroom, hinserted, hcommitments, hwithdrawals⟩ := insert_inserted hi hexec
  have htree := hi.tree.inserted hroom hinserted
  have hrecorded := hinserted.recorded
  refine ⟨hcommitments ▸ htree, fun root record hlookup => ?_, fun w hw => ?_⟩
  · rw [hrecorded] at hlookup
    rw [hcommitments]
    obtain ⟨rfl, hcount⟩ | hold := lookup_recordHistoricalRoot hlookup
    · rw [hi.tree.nextLeafIndex_eq] at hcount
      rw [hi.tree.pathHash_eq hroom, hcount, List.take_of_length_le (by simp)]
      exact ⟨by simp, rfl⟩
    · obtain ⟨hle, hroot⟩ := hi.roots root record hold
      rw [List.take_append_of_le_length hle, List.length_append]
      exact ⟨Nat.le_add_right_of_le hle, hroot⟩
  · rw [hwithdrawals] at hw
    rw [hrecorded, isNullifierUsed, recordHistoricalRoot_nullifiers]
    exact hi.spent w hw

theorem DepositInvariant.withdraw {w : WithdrawalProof} (hi : DepositInvariant sha256 h)
    (hexec : depositStep sha256 (env, .withdraw w) h = .ok h') : DepositInvariant sha256 h' := by
  obtain ⟨-, -, -, rfl⟩ := withdraw_eq_ok.mp hexec
  refine ⟨⟨⟨hi.tree.wellFormed.zeros_cached, hi.tree.wellFormed.packed_length,
    hi.tree.wellFormed.started⟩, hi.tree.nextLeafIndex_eq, hi.tree.frontier,
    hi.tree.currentRoot_eq⟩, hi.roots, fun w' hw' => ?_⟩
  rw [isNullifierUsed, Store.lookup_insert_ite]
  split_ifs with heq
  · rfl
  · obtain rfl | hold := List.mem_cons.mp hw'
    · exact absurd rfl heq
    · exact hi.spent w' hold

theorem depositInvariant_commit (hi : DepositInvariant sha256 h) (i : Env here × DepositCall) :
    DepositInvariant sha256 (commit (depositStep sha256) h i) := by
  refine commit_induction hi fun h' hexec => ?_
  obtain ⟨env, commitment | w⟩ := i
  · exact hi.insert hexec
  · exact hi.withdraw hexec

end Invariant

/-! ## Withdrawals of the own position -/

section Exact

variable {sha256 : ByteString → Bytes32} {here : Address} {env : Env here} {h h' : DepositHistory}

theorem noDoubleWithdrawal_cons_iff {w : WithdrawalProof} (hp : NoDoubleWithdrawal h)
    {store : DepositStore} :
    NoDoubleWithdrawal ⟨store, h.commitments, w :: h.withdrawals⟩ ↔
      h.commitments[w.position]? = some w.leaf ∧
        ∀ w' ∈ h.withdrawals, w'.position ≠ w.position := by
  constructor
  · intro hn
    refine ⟨hn.inserted w List.mem_cons_self, fun w' hw' heq => ?_⟩
    exact (List.nodup_cons.mp hn.once).1 (List.mem_map.mpr ⟨w', hw', heq⟩)
  · rintro ⟨hleaf, hfresh⟩
    have hinserted : ∀ w' ∈ w :: h.withdrawals, h.commitments[w'.position]? = some w'.leaf :=
      List.forall_mem_cons.mpr ⟨hleaf, hp.inserted⟩
    have honce : ((w :: h.withdrawals).map WithdrawalProof.position).Nodup := by
      refine List.nodup_cons.mpr ⟨fun hmem => ?_, hp.once⟩
      obtain ⟨w', hw', heq⟩ := List.mem_map.mp hmem
      exact hfresh w' hw' heq
    refine ⟨?_, hinserted, honce⟩
    -- The positions are different and below the number of commitments.
    have hsub : (w :: h.withdrawals).map WithdrawalProof.position ⊆
        List.range h.commitments.length := by
      intro position hmem
      obtain ⟨w', hw', rfl⟩ := List.mem_map.mp hmem
      obtain ⟨hlt, -⟩ := List.getElem?_eq_some_iff.mp (hinserted w' hw')
      exact List.mem_range.mpr hlt
    have hle := (honce.subperm hsub).length_le
    rwa [List.length_map, List.length_range] at hle

/-- The leaf of an accepted withdrawal is the one of its position in the tree of its root. -/
theorem withdrawn_leaf {w : WithdrawalProof} (hi : DepositInvariant sha256 h)
    (hcollide : NoCollision sha256 h (env, .withdraw w)) {record : RootRecord}
    (hlookup : h.store.rootRecords.lookup w.root = some record)
    (hproof : verifyMerkleProof sha256 w.leaf w.path w.leafIndex w.root = true) :
    w.leaf = HashTree.leaves (sha256 zeroLeafSeed) (h.commitments.take record.leafCount)
      w.position := by
  obtain ⟨hle, hroot⟩ := hi.roots w.root record hlookup
  rw [hroot, verifyMerkleProof_fullRoot_iff (hcollide w rfl record hlookup)] at hproof
  exact hproof.leaf_eq

theorem withdrawn_iff {w : WithdrawalProof} {record : RootRecord}
    (hle : record.leafCount ≤ h.commitments.length)
    (hleaf : w.leaf = HashTree.leaves (sha256 zeroLeafSeed)
      (h.commitments.take record.leafCount) w.position) :
    h.commitments[w.position]? = some w.leaf ↔ w.position < record.leafCount ∨
      h.commitments[w.position]? = some (sha256 zeroLeafSeed) := by
  rw [hleaf, HashTree.leaves, List.getD_eq_getElem?_getD]
  by_cases hlt : w.position < record.leafCount
  · rw [List.getElem?_take_of_lt hlt, List.getElem?_eq_getElem (hlt.trans_le hle)]
    exact iff_of_true rfl (.inl hlt)
  · rw [List.getElem?_take_eq_none (not_lt.mp hlt), Option.getD_none]
    exact (or_iff_right hlt).symm

/-- One call keeps deposits from double withdrawals exactly if it is an own withdrawal or fails. -/
theorem noDoubleWithdrawal_commit_iff (hi : DepositInvariant sha256 h)
    (hp : NoDoubleWithdrawal h) (i : Env here × DepositCall) (hcollide : NoCollision sha256 h i) :
    NoDoubleWithdrawal (commit (depositStep sha256) h i) ↔ OwnWithdrawal sha256 h i := by
  obtain ⟨env, commitment | w⟩ := i
  · refine iff_of_true (commit_induction hp fun h' hexec => ?_) fun w hw => by cases hw
    obtain ⟨-, -, hcommitments, hwithdrawals⟩ := insert_inserted hi hexec
    refine ⟨?_, fun w hw => ?_, hwithdrawals ▸ hp.once⟩
    · rw [hwithdrawals, hcommitments, List.length_append]
      exact Nat.le_add_right_of_le hp.count_le
    · rw [hwithdrawals] at hw
      rw [hcommitments]
      obtain ⟨hlt, -⟩ := List.getElem?_eq_some_iff.mp (hp.inserted w hw)
      rw [List.getElem?_append_left hlt]
      exact hp.inserted w hw
  · have hown : OwnWithdrawal sha256 h (env, .withdraw w) ↔
        ((∃ h', depositStep sha256 (env, .withdraw w) h = .ok h') → WithdrawsOwn sha256 h w) :=
      ⟨fun ho => ho w rfl, fun ho w' hw' => by cases hw'; exact ho⟩
    rw [hown]
    refine commit_iff_of_accepted hp fun h' hexec => ?_
    rw [forall_prop_of_true ⟨h', hexec⟩]
    obtain ⟨⟨record, hvalid⟩, hfresh, hproof, rfl⟩ := withdraw_eq_ok.mp hexec
    have hlookup := lookup_of_validateRoot hvalid
    have hleaf := withdrawn_leaf hi hcollide hlookup hproof
    rw [noDoubleWithdrawal_cons_iff hp, withdrawn_iff (hi.roots w.root record hlookup).1 hleaf]
    refine ⟨fun ⟨hcovered, hother⟩ => ⟨fun record' hlookup' => ?_, fun w' hw' heq => ?_⟩,
      fun ho => ⟨ho.covered record hlookup, fun w' hw' heq => ?_⟩⟩
    · obtain rfl := Option.some.inj (hlookup.symm.trans hlookup')
      exact hcovered
    · exact absurd heq (hother w' hw')
    · -- The nullifier of the earlier withdrawal is used.
      have hused := hi.spent w' hw'
      rw [ho.same_nullifier w' hw' heq, hfresh] at hused
      cases hused

/-- In a run in which no hashed pairs collide, deposits are withdrawn at most once exactly if all
accepted withdrawals are of positions that their root covers and name one nullifier for one
position. Failed calls leave the nullifiers as they were in any case. -/
theorem noDoubleWithdrawal_iff (sha256 : ByteString → Bytes32)
    (run : List (Env here × DepositCall))
    (hcollide : Along (depositStep sha256) (NoCollision sha256) .empty run) :
    (Throughout (depositStep sha256) NoDoubleWithdrawal .empty run ↔
        Along (depositStep sha256) (OwnWithdrawal sha256) .empty run) ∧
      Along (depositStep sha256) (KeepsNullifiers sha256) .empty run := by
  constructor
  · refine throughout_iff_along_of_along (I := DepositInvariant sha256)
      (fun h i hi => depositInvariant_commit hi i)
      (fun h i hi hp hd => noDoubleWithdrawal_commit_iff hi hp i hd) .empty ?_ hcollide
    exact ⟨le_rfl, fun w hw => absurd hw List.not_mem_nil, List.nodup_nil⟩
  · refine along_of_invariant (I := fun _ => True) (fun _ _ _ _ _ => trivial)
      (fun h i _ e herror nullifier => ?_) trivial run
    rw [commit_of_error herror]

end Exact

/-! ## One deposit -/

section Sample

def sampleRoot : Bytes32 := fullRoot sampleHash [sampleNode 0 1]

def sampleWithdrawal (nullifier : Bytes32) : WithdrawalProof :=
  ⟨sampleRoot, nullifier, sampleNode 0 1, samplePath, 0⟩

@[simp] theorem sampleWithdrawal_root (nullifier : Bytes32) :
    (sampleWithdrawal nullifier).root = sampleRoot := by
  rw [sampleWithdrawal]

/-- The history after the deposit and some withdrawals of it. -/
structure OneDeposit (h : DepositHistory) (withdrawals : List WithdrawalProof) : Prop where
  lookup_root : h.store.rootRecords.lookup sampleRoot = some ⟨sampleRoot, 0, 1, 1⟩
  window_eq : h.store.rootValidityWindow = none
  commitments_eq : h.commitments = [sampleNode 0 1]
  withdrawals_eq : h.withdrawals = withdrawals
  used_iff : ∀ nullifier, isNullifierUsed nullifier h.store = true ↔
    nullifier ∈ withdrawals.map WithdrawalProof.nullifier

theorem sample_insert : OneDeposit
    (commit (depositStep sampleHash) .empty (sampleEnv, .insert (sampleNode 0 1))) [] := by
  obtain ⟨t, hinsert, hi⟩ := insertDeposit_spec
    (show DepositStore.WellFormed sampleHash .empty from WellFormed.empty)
    (by decide) sampleEnv (sampleNode 0 1)
  have hroot : pathHash sampleHash .empty 0 (sampleNode 0 1) treeDepth = sampleRoot :=
    Represents.empty.pathHash_eq (by decide) (sampleNode 0 1)
  have hexec : depositStep sampleHash (sampleEnv, .insert (sampleNode 0 1)) .empty =
      .ok ⟨t, [sampleNode 0 1], []⟩ := by
    rw [depositStep, DepositCall.exec]
    exact congrArg (· >>= _) hinsert
  have hrecorded := hi.recorded
  rw [show DepositStore.empty.nextLeafIndex = 0 from rfl, hroot] at hrecorded
  rw [commit_of_ok hexec]
  have hstore : t = { DepositStore.empty with
      nextLeafIndex := 1
      zeroHashes := t.zeroHashes
      packedSubtrees := t.packedSubtrees
      currentRoot := some sampleRoot
      rootRecords := Finmap.insert sampleRoot ⟨sampleRoot, 0, 1, 1⟩ ∅
      rootBufferList := [sampleRoot] } := by
    rw [hrecorded, recordHistoricalRoot]
    exact if_neg (show ¬ 32 < 1 by decide)
  refine ⟨?_, ?_, rfl, rfl, fun nullifier => ?_⟩
  · rw [hstore]
    exact Finmap.lookup_insert _
  · rw [hstore]
    rfl
  · rw [hstore, isNullifierUsed]
    exact iff_of_false (by simp [DepositStore.empty]) List.not_mem_nil

theorem OneDeposit.withdraw {h : DepositHistory} {withdrawals : List WithdrawalProof}
    (ho : OneDeposit h withdrawals) (nullifier : Bytes32)
    (hfresh : nullifier ∉ withdrawals.map WithdrawalProof.nullifier) :
    OneDeposit (commit (depositStep sampleHash) h
      (sampleEnv, .withdraw (sampleWithdrawal nullifier)))
      (sampleWithdrawal nullifier :: withdrawals) := by
  have hvalid : validateRoot sampleEnv (sampleWithdrawal nullifier).root h.store =
      .ok ⟨sampleRoot, 0, 1, 1⟩ := by
    rw [sampleWithdrawal_root, validateRoot, ho.lookup_root, ho.window_eq]
    rfl
  have hproof : verifyMerkleProof sampleHash (sampleNode 0 1) samplePath 0
      (sampleWithdrawal nullifier).root = true := by
    have hinj := sample_injOn (Nat.zero_mod (2 ^ treeDepth))
    rw [sampleWithdrawal_root]
    exact (verifyMerkleProof_fullRoot_iff hinj).mpr (by
      rw [Nat.zero_mod]
      exact samplePath_member)
  have hunused : isNullifierUsed nullifier h.store = false :=
    Bool.not_eq_true _ ▸ mt (ho.used_iff nullifier).mp hfresh
  have hexec : depositStep sampleHash (sampleEnv, .withdraw (sampleWithdrawal nullifier)) h = .ok
      ⟨{ h.store with nullifiers := h.store.nullifiers.insert nullifier 0 }, h.commitments,
        sampleWithdrawal nullifier :: h.withdrawals⟩ :=
    withdraw_eq_ok.mpr ⟨⟨_, hvalid⟩, hunused, hproof, rfl⟩
  rw [commit_of_ok hexec]
  refine ⟨ho.lookup_root, ho.window_eq, ho.commitments_eq,
    congrArg (sampleWithdrawal nullifier :: ·) ho.withdrawals_eq, fun nullifier' => ?_⟩
  rw [isNullifierUsed, Store.lookup_insert_ite, List.map_cons, List.mem_cons,
    ← ho.used_iff nullifier', isNullifierUsed]
  split_ifs with heq
  · exact iff_of_true rfl (.inl heq)
  · exact (or_iff_right heq).symm

theorem OneDeposit.noCollision {h : DepositHistory} {withdrawals : List WithdrawalProof}
    (ho : OneDeposit h withdrawals) (nullifier : Bytes32) :
    NoCollision sampleHash h (sampleEnv, .withdraw (sampleWithdrawal nullifier)) := by
  rintro w hw record hlookup
  obtain rfl := DepositCall.withdraw.inj hw
  rw [sampleWithdrawal_root, ho.lookup_root] at hlookup
  obtain rfl := Option.some.inj hlookup
  have hinj := sample_injOn (Nat.zero_mod (2 ^ treeDepth))
  rw [ho.commitments_eq]
  exact hinj

def onceRun : List (Env ⟨0⟩ × DepositCall) :=
  [(sampleEnv, .insert (sampleNode 0 1)),
    (sampleEnv, .withdraw (sampleWithdrawal (sampleNode 0 7)))]

theorem onceRun_noDoubleWithdrawal :
    Throughout (depositStep sampleHash) NoDoubleWithdrawal .empty onceRun ∧
      Along (depositStep sampleHash) (KeepsNullifiers sampleHash) .empty onceRun := by
  have ho := sample_insert
  obtain ⟨hiff, hkeeps⟩ := noDoubleWithdrawal_iff sampleHash onceRun
    ⟨fun _ hw => (DepositCall.noConfusion hw), ho.noCollision (sampleNode 0 7), trivial⟩
  refine ⟨hiff.mpr ⟨fun _ hw => (DepositCall.noConfusion hw), fun w hw _ => ?_, trivial⟩, hkeeps⟩
  obtain rfl := DepositCall.withdraw.inj hw
  refine ⟨fun record hlookup => .inl ?_, fun w' hw' => ?_⟩
  · rw [sampleWithdrawal_root, ho.lookup_root] at hlookup
    obtain rfl := Option.some.inj hlookup
    exact Nat.one_pos
  · rw [ho.withdrawals_eq] at hw'
    exact absurd hw' List.not_mem_nil

/-- One deposit is withdrawn under two nullifiers. -/
theorem oneDeposit_withdrawn_twice :
    Along (depositStep sampleHash) (NoCollision sampleHash) .empty
        (onceRun ++ [(sampleEnv, .withdraw (sampleWithdrawal (sampleNode 0 8)))]) ∧
      ¬ Throughout (depositStep sampleHash) NoDoubleWithdrawal .empty
        (onceRun ++ [(sampleEnv, .withdraw (sampleWithdrawal (sampleNode 0 8)))]) := by
  have ho := sample_insert
  have hfirst := ho.withdraw (sampleNode 0 7) List.not_mem_nil
  have hsecond := hfirst.withdraw (sampleNode 0 8) (by decide)
  refine ⟨⟨fun _ hw => (DepositCall.noConfusion hw), ho.noCollision _, hfirst.noCollision _,
    trivial⟩, ?_⟩
  rintro ⟨-, -, -, hlast⟩
  have hle := hlast.count_le
  rw [hsecond.commitments_eq, hsecond.withdrawals_eq] at hle
  exact absurd hle (by decide)

end Sample

end StellarFlow.Zk
