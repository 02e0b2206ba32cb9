import StellarFlow.Zk.Withdrawals

/-!
# Private deposits

A private deposit hashes its three secrets to a commitment, inserts that into the tree and hands
out a proof of inclusion at once: at a right child the sibling is the stored left child, at a
left child it is an empty subtree. The tree is shared with plain insertions and with withdrawals.
-/
namespace StellarFlow.Zk

open Foundation

/-- The text `poseidon:commitment`. -/
def poseidonDomain : ByteString :=
  [112, 111, 115, 101, 105, 100, 111, 110, 58, 99, 111, 109, 109, 105, 116, 109, 101, 110, 116]

def maxDepositAmount : ℤ := 2 ^ 63 - 1

def zeroCommitment : Bytes32 := Vector.replicate 32 0

structure DepositParams where
  randomness : Bytes32
  valueCommitment : Bytes32
  spendingKey : Bytes32
  amount : i128.Value

structure DepositResult where
  commitment : Bytes32
  leafIndex : ℕ
  newRoot : Bytes32
  proofPath : List Bytes32

/-- The tree with the commitments that private deposits have registered. -/
structure PrivateStore where
  tree : DepositStore
  deposited : Finset Bytes32

section Model

variable (sha256 : ByteString → Bytes32)

def poseidonHashRvk (randomness valueCommitment spendingKey : Bytes32) : Bytes32 :=
  sha256 (poseidonDomain ++ randomness.toList ++ valueCommitment.toList ++ spendingKey.toList)

def validateCommitment (params : DepositParams) (commitment : Bytes32)
    (deposited : Finset Bytes32) : Except Fault Unit := do
  failIf (params.amount.1 ≤ 0) (Fault.error .amountTooLow)
  failIf (maxDepositAmount < params.amount) (Fault.error .overflow)
  failIf (commitment = zeroCommitment) (Fault.error .invalidProof)
  failIf (commitment ∈ deposited) (Fault.error .alreadyRegistered)
  failIf (poseidonHashRvk sha256 params.randomness params.valueCommitment params.spendingKey ≠
    commitment) (Fault.error .invalidProof)

/-- The loop of a proof of inclusion after the given number of levels. -/
def inclusionLevels (leafIndex : ℕ) (t : DepositStore) : ℕ → List Bytes32 × DepositStore
  | 0 => ([], t)
  | level + 1 =>
    let (path, t) := inclusionLevels leafIndex t level
    let isRightChild := (leafIndex >>> level) &&& 1 = 1
    let (sibling, t) :=
      if isRightChild then getPackedFilledSubtree sha256 level t else getZeroHash sha256 level t
    (path ++ [sibling], t)

def computeInclusionProof (leafIndex : ℕ) (t : DepositStore) : List Bytes32 × DepositStore :=
  inclusionLevels sha256 leafIndex t treeDepth

variable {here : Address}

def processPrivateDeposit (env : Env here) (params : DepositParams) (s : PrivateStore) :
    Except Fault (DepositResult × PrivateStore) := do
  let commitment :=
    poseidonHashRvk sha256 params.randomness params.valueCommitment params.spendingKey
  validateCommitment sha256 params commitment s.deposited
  let deposited := insert commitment s.deposited
  let ((leafIndex, newRoot), tree) ← insertDeposit sha256 env commitment s.tree
  let (proofPath, tree) := computeInclusionProof sha256 leafIndex tree
  pure (⟨commitment, leafIndex, newRoot, proofPath⟩, ⟨tree, deposited⟩)

/-- A call of the pool: a plain insertion, a withdrawal or a private deposit. -/
inductive PrivateCall where
  | tree (call : DepositCall)
  | processPrivateDeposit (params : DepositParams)

/-- The history of the tree, the registered commitments and the results of private deposits, the
last one first. -/
structure PrivateHistory where
  history : DepositHistory
  deposited : Finset Bytes32
  results : List DepositResult

def PrivateHistory.empty : PrivateHistory := ⟨.empty, ∅, []⟩

def privateStep (i : Env here × PrivateCall) (h : PrivateHistory) :
    Except Fault PrivateHistory :=
  match i.2 with
  | .tree call => do
    let history ← depositStep sha256 (i.1, call) h.history
    pure { h with history }
  | .processPrivateDeposit params => do
    let (result, s) ← processPrivateDeposit sha256 i.1 params ⟨h.history.store, h.deposited⟩
    pure {
      history := { h.history with
        store := s.tree
        commitments := h.history.commitments ++ [result.commitment] }
      deposited := s.deposited
      results := result :: h.results }

end Model

/-! ## The proof of inclusion -/

section Inclusion

variable {sha256 : ByteString → Bytes32} {here : Address} {env : Env here} {t t' : DepositStore}
  {commitments : List Bytes32} {commitment : Bytes32}

/-- The siblings that the loop reads. -/
theorem inclusionLevels_spec (ht : DepositStore.WellFormed sha256 t) (leafIndex : ℕ) {level : ℕ}
    (hlevel : level ≤ treeDepth) :
    ∃ t', inclusionLevels sha256 leafIndex t level = ((List.range level).map fun l =>
        if leafIndex / 2 ^ l % 2 = 1 then leftChild sha256 t l else emptyNode sha256 l, t') ∧
      CachesFrom sha256 t t' := by
  induction level with
  | zero => exact ⟨t, rfl, .refl ht.zeros_cached⟩
  | succ level ih =>
    obtain ⟨t₁, hpath, hc⟩ := ih (by omega)
    rw [inclusionLevels, hpath, List.range_succ, List.map_append, List.map_singleton,
      Nat.shiftRight_eq_div_pow, Nat.and_one_is_mod]
    dsimp only
    split_ifs with hbit
    · obtain ⟨t₂, hget, hc₂⟩ := getPackedFilledSubtree_spec hc.zeros_cached
        (hc.packed ▸ ht.packed_length) (show level < treeDepth by omega)
      rw [hget, hc.leftChild]
      exact ⟨t₂, rfl, hc.trans hc₂⟩
    · obtain ⟨t₂, hget, hc₂⟩ := getZeroHash_spec hc.zeros_cached level
      rw [hget]
      exact ⟨t₂, rfl, hc.trans hc₂⟩

/-- After an insertion these are the siblings of the new leaf in the full tree. -/
theorem Represents.siblings_inserted (hr : Represents sha256 t commitments)
    (hi : Inserted sha256 env t commitment t') :
    ((List.range treeDepth).map fun l => if commitments.length / 2 ^ l % 2 = 1 then
        leftChild sha256 t' l else emptyNode sha256 l) =
      fullSiblings sha256 (commitments ++ [commitment]) commitments.length := by
  rw [fullSiblings, HashTree.siblings]
  refine List.map_congr_left fun l hl => ?_
  have hdepth := List.mem_range.mp hl
  have hhigh : commitments.length < (commitments.length / 2 ^ l + 1) * 2 ^ l := by
    rw [add_mul, one_mul]
    exact Nat.lt_div_mul_add (Nat.two_pow_pos l)
  have hlow := Nat.div_mul_le_self commitments.length (2 ^ l)
  rw [zero_add, HashTree.sibling]
  obtain heven | hodd := Nat.mod_two_eq_zero_or_one (commitments.length / 2 ^ l)
  · rw [if_neg (by omega), if_pos heven, HashTree.node_of_length_le, emptyNode]
    rwa [List.length_append, List.length_singleton]
  · have hwritten := hi.written l hdepth
    rw [hr.nextLeafIndex_eq, nextLeftChild_of_odd hodd, hr.frontier l hdepth hodd] at hwritten
    rw [if_pos hodd, if_neg (by omega), hwritten, HashTree.node_append]
    have hpos : 0 < commitments.length / 2 ^ l := Nat.pos_of_ne_zero fun hzero => by
      simp [hzero] at hodd
    rwa [Nat.sub_add_cancel hpos]

theorem Represents.caches (hr : Represents sha256 t commitments) (hc : CachesFrom sha256 t t') :
    Represents sha256 t' commitments where
  wellFormed := by
    refine ⟨hc.zeros_cached, hc.packed ▸ hr.wellFormed.packed_length, ?_⟩
    rw [hc.frame]
    exact hr.wellFormed.started
  nextLeafIndex_eq := by
    rw [hc.frame]
    exact hr.nextLeafIndex_eq
  frontier := hr.frontier.congr fun l _ _ => hc.leftChild l
  currentRoot_eq := by
    rw [hc.frame]
    exact hr.currentRoot_eq

/-- The siblings of a leaf lead to the root, whatever collides. -/
theorem verifyMerkleProof_fullSiblings {index : ℕ} (hlt : index < 2 ^ treeDepth) :
    verifyMerkleProof sha256 (fullNode sha256 commitments 0 index)
      (fullSiblings sha256 commitments index) index (fullRoot sha256 commitments) = true := by
  have hclimb : HashTree.climb (hashNodes sha256) _ index _ = _ := HashTree.climb_siblings
    (HashTree.leaves (sha256 zeroLeafSeed) commitments) 0 treeDepth index
  rw [zero_add, Nat.div_eq_of_lt hlt] at hclimb
  exact verifyMerkleProof_iff_climb.mpr ⟨HashTree.siblings_length _ _ _, hclimb⟩

end Inclusion

/-! ## Runs -/

section Runs

variable {sha256 : ByteString → Bytes32} {here : Address} {env : Env here}
  {h h' : PrivateHistory} {s s' : PrivateStore} {params : DepositParams}
  {result : DepositResult}

/-- What an accepted private deposit has checked, returns and writes. -/
structure Deposited (sha256 : ByteString → Bytes32) (env : Env here) (s : PrivateStore)
    (params : DepositParams) (result : DepositResult) (s' : PrivateStore) : Prop where
  amount_pos : 0 < params.amount.1
  amount_le : params.amount ≤ maxDepositAmount
  commitment_eq : result.commitment =
    poseidonHashRvk sha256 params.randomness params.valueCommitment params.spendingKey
  ne_zero : result.commitment ≠ zeroCommitment
  fresh : result.commitment ∉ s.deposited
  deposited_eq : s'.deposited = insert result.commitment s.deposited
  inserted : ∃ tree, insertDeposit sha256 env result.commitment s.tree =
      .ok ((result.leafIndex, result.newRoot), tree) ∧
    computeInclusionProof sha256 result.leafIndex tree = (result.proofPath, s'.tree)

theorem processPrivateDeposit_deposited
    (h : processPrivateDeposit sha256 env params s = .ok (result, s')) :
    Deposited sha256 env s params result s' := by
  simp only [processPrivateDeposit, validateCommitment, bind_eq_ok, failIf_eq_ok, pure_eq_ok,
    Prod.mk.injEq, not_le, not_lt] at h
  obtain ⟨_, ⟨_, hpos, _, hle, _, hzero, _, hfresh, _⟩, ⟨⟨leafIndex, newRoot⟩, tree⟩, hinsert,
    rfl, rfl⟩ := h
  exact ⟨hpos, hle, rfl, hzero, hfresh, rfl, tree, hinsert, rfl⟩

/-- The registered commitments are those of the results, all different and none zero, and every
result has the position of its commitment in the tree and its proof there. -/
structure PrivateInvariant (sha256 : ByteString → Bytes32) (h : PrivateHistory) : Prop where
  tree : DepositInvariant sha256 h.history
  nodup : (h.results.map DepositResult.commitment).Nodup
  deposited_eq : h.deposited = (h.results.map DepositResult.commitment).toFinset
  ne_zero : ∀ r ∈ h.results, r.commitment ≠ zeroCommitment
  index_lt : ∀ r ∈ h.results, r.leafIndex < 2 ^ treeDepth
  placed : ∀ r ∈ h.results, h.history.commitments[r.leafIndex]? = some r.commitment
  root_eq : ∀ r ∈ h.results,
    r.newRoot = fullRoot sha256 (h.history.commitments.take (r.leafIndex + 1))
  path_eq : ∀ r ∈ h.results, r.proofPath =
    fullSiblings sha256 (h.history.commitments.take (r.leafIndex + 1)) r.leafIndex

theorem PrivateInvariant.empty : PrivateInvariant sha256 .empty where
  tree := .empty
  nodup := List.nodup_nil
  deposited_eq := rfl
  ne_zero _ hr := absurd hr List.not_mem_nil
  index_lt _ hr := absurd hr List.not_mem_nil
  placed _ hr := absurd hr List.not_mem_nil
  root_eq _ hr := absurd hr List.not_mem_nil
  path_eq _ hr := absurd hr List.not_mem_nil

/-- Commitments are only added at the end. -/
theorem PrivateInvariant.extend (hi : PrivateInvariant sha256 h) {history : DepositHistory}
    (htree : DepositInvariant sha256 history)
    (hmore : h.history.commitments <+: history.commitments) :
    PrivateInvariant sha256 { h with history } := by
  obtain ⟨more, hmore⟩ := hmore
  have hlt : ∀ r ∈ h.results, r.leafIndex + 1 ≤ h.history.commitments.length := fun r hr =>
    (List.getElem?_eq_some_iff.mp (hi.placed r hr)).1
  have htake : ∀ r ∈ h.results, history.commitments.take (r.leafIndex + 1) =
      h.history.commitments.take (r.leafIndex + 1) := fun r hr => by
    rw [← hmore, List.take_append_of_le_length (hlt r hr)]
  refine ⟨htree, hi.nodup, hi.deposited_eq, hi.ne_zero, hi.index_lt, fun r hr => ?_,
    fun r hr => ?_, fun r hr => ?_⟩
  · change history.commitments[r.leafIndex]? = _
    rw [← hmore, List.getElem?_append_left (hlt r hr)]
    exact hi.placed r hr
  · change _ = fullRoot sha256 (history.commitments.take _)
    rw [htake r hr]
    exact hi.root_eq r hr
  · change _ = fullSiblings sha256 (history.commitments.take _) _
    rw [htake r hr]
    exact hi.path_eq r hr

theorem DepositInvariant.caches {history : DepositHistory} (hi : DepositInvariant sha256 history)
    {store : DepositStore} (hc : CachesFrom sha256 history.store store) :
    DepositInvariant sha256 { history with store } where
  tree := hi.tree.caches hc
  roots := by
    rw [hc.frame]
    exact hi.roots
  spent := by
    rw [hc.frame]
    exact hi.spent

theorem PrivateInvariant.tree_step {call : DepositCall} (hi : PrivateInvariant sha256 h)
    (hexec : privateStep sha256 (env, .tree call) h = .ok h') : PrivateInvariant sha256 h' := by
  rw [privateStep] at hexec
  obtain ⟨history, hstep, hpure⟩ := bind_eq_ok.mp hexec
  obtain rfl := pure_eq_ok.mp hpure
  cases call with
  | insert commitment =>
    refine hi.extend (hi.tree.insert hstep) ?_
    rw [(insert_inserted hi.tree hstep).2.2.1]
    exact List.prefix_append _ _
  | withdraw w =>
    refine hi.extend (hi.tree.withdraw hstep) ?_
    obtain ⟨-, -, -, rfl⟩ := withdraw_eq_ok.mp hstep
    exact List.prefix_rfl

/-- A private deposit inserts its commitment, and its proof is the one of the new leaf. -/
theorem PrivateInvariant.deposit_step (hi : PrivateInvariant sha256 h)
    (hexec : privateStep sha256 (env, .processPrivateDeposit params) h = .ok h') :
    PrivateInvariant sha256 h' := by
  rw [privateStep] at hexec
  obtain ⟨⟨result, s'⟩, hprocess, hpure⟩ := bind_eq_ok.mp hexec
  obtain rfl := pure_eq_ok.mp hpure
  have hd := processPrivateDeposit_deposited hprocess
  obtain ⟨tree, hinsert, hproof⟩ := hd.inserted
  have hstep : depositStep sha256 (env, .insert result.commitment) h.history =
      .ok { h.history with
        store := tree
        commitments := h.history.commitments ++ [result.commitment] } := by
    rw [depositStep, DepositCall.exec]
    exact congrArg (· >>= _) hinsert
  obtain ⟨hroom, hinserted, -, -⟩ := insert_inserted hi.tree hstep
  have htree := hi.tree.insert hstep
  obtain ⟨t', hpath, hc⟩ :=
    inclusionLevels_spec htree.tree.wellFormed result.leafIndex (le_refl treeDepth)
  obtain ⟨hsiblings, rfl⟩ := Prod.mk.inj (hproof.symm.trans hpath)
  obtain ⟨t₁, hspec, -⟩ := insertDeposit_spec hi.tree.tree.wellFormed
    (hi.tree.tree.nextLeafIndex_eq ▸ hroom) env result.commitment
  obtain ⟨hresult, -⟩ := Prod.mk.inj (Except.ok.inj (hinsert.symm.trans hspec))
  obtain ⟨hindex, hroot⟩ := Prod.mk.inj hresult
  rw [hi.tree.tree.pathHash_eq hroom] at hroot
  rw [hi.tree.tree.nextLeafIndex_eq] at hindex
  have hold := hi.extend (htree.caches hc) (List.prefix_append _ _)
  have hnew : h.history.commitments.length + 1 =
      (h.history.commitments ++ [result.commitment]).length := by
    rw [List.length_append, List.length_singleton]
  have hfresh : result.commitment ∉ h.results.map DepositResult.commitment := fun hmem =>
    hd.fresh (by rw [hi.deposited_eq]; exact List.mem_toFinset.mpr hmem)
  refine ⟨hold.tree, List.nodup_cons.mpr ⟨hfresh, hi.nodup⟩, ?_,
    List.forall_mem_cons.mpr ⟨hd.ne_zero, hi.ne_zero⟩,
    List.forall_mem_cons.mpr ⟨hindex ▸ hroom, hi.index_lt⟩,
    List.forall_mem_cons.mpr ⟨?_, hold.placed⟩, List.forall_mem_cons.mpr ⟨?_, hold.root_eq⟩,
    List.forall_mem_cons.mpr ⟨?_, hold.path_eq⟩⟩
  · rw [List.map_cons, List.toFinset_cons, ← hi.deposited_eq]
    exact hd.deposited_eq
  · rw [hindex]
    exact List.getElem?_concat_length
  · rw [hindex, hroot, hnew, List.take_length]
  · rw [hsiblings, hindex, hnew, List.take_length]
    exact hi.tree.tree.siblings_inserted hinserted

theorem privateInvariant_step (hi : PrivateInvariant sha256 h) {i : Env here × PrivateCall}
    (hexec : privateStep sha256 i h = .ok h') : PrivateInvariant sha256 h' := by
  obtain ⟨env, call | params⟩ := i
  · exact hi.tree_step hexec
  · exact hi.deposit_step hexec

/-- In every run of insertions, withdrawals and private deposits, each private deposit has a
commitment of its own that is not zero, and the proof that it returned shows this commitment at
its index of the tree with the returned root. -/
theorem privateDeposits_included (sha256 : ByteString → Bytes32)
    (run : List (Env here × PrivateCall)) :
    Throughout (privateStep sha256) (fun h =>
      (h.results.map DepositResult.commitment).Nodup ∧
      (∀ commitment, commitment ∈ h.deposited ↔
        commitment ∈ h.results.map DepositResult.commitment) ∧
      ∀ r ∈ h.results, r.commitment ≠ zeroCommitment ∧
        h.history.commitments[r.leafIndex]? = some r.commitment ∧
        r.newRoot = fullRoot sha256 (h.history.commitments.take (r.leafIndex + 1)) ∧
        verifyMerkleProof sha256 r.commitment r.proofPath r.leafIndex r.newRoot = true)
      .empty run := by
  refine throughout_of_invariant (I := PrivateInvariant sha256)
    (fun h i h' hi hexec => privateInvariant_step hi hexec)
    (fun h hi => ⟨hi.nodup, fun commitment => ?_, fun r hr => ?_⟩) .empty run
  · rw [hi.deposited_eq, List.mem_toFinset]
  · have hplaced := hi.placed r hr
    have hleaf : fullNode sha256 (h.history.commitments.take (r.leafIndex + 1)) 0 r.leafIndex =
        r.commitment := by
      change (h.history.commitments.take _).getD _ _ = _
      rw [List.getD_eq_getElem?_getD, List.getElem?_take_of_lt (Nat.lt_succ_self _), hplaced]
      rfl
    refine ⟨hi.ne_zero r hr, hplaced, hi.root_eq r hr, ?_⟩
    rw [hi.root_eq r hr, hi.path_eq r hr, ← hleaf]
    exact verifyMerkleProof_fullSiblings (hi.index_lt r hr)

end Runs

end StellarFlow.Zk
