import StellarFlow.Zk.Insertion

/-!
# Membership in the deposit tree

Insertions into an empty store compute the roots of the full tree. A proof is accepted exactly
from the right leaf and the right siblings, but only the low bits of the leaf index count: an
index beyond the tree stands for the position that it has modulo the number of leaves.
-/
namespace StellarFlow.Zk

open Foundation

section Definitions

variable (sha256 : ByteString → Bytes32)

/-- The hash of a subtree of the tree with the given leaves, in order. -/
def fullNode (commitments : List Bytes32) (level index : ℕ) : Bytes32 :=
  HashTree.node (hashNodes sha256) (HashTree.leaves (sha256 zeroLeafSeed) commitments) level index

def fullRoot (commitments : List Bytes32) : Bytes32 := fullNode sha256 commitments treeDepth 0

def fullSiblings (commitments : List Bytes32) (index : ℕ) : List Bytes32 :=
  HashTree.siblings (hashNodes sha256) (HashTree.leaves (sha256 zeroLeafSeed) commitments) 0
    treeDepth index

/-- The store after insertions into an empty one. -/
structure Represents (t : DepositStore) (commitments : List Bytes32) : Prop where
  wellFormed : DepositStore.WellFormed sha256 t
  nextLeafIndex_eq : t.nextLeafIndex = commitments.length
  frontier : HashTree.Frontier (hashNodes sha256) (sha256 zeroLeafSeed) treeDepth commitments
    (leftChild sha256 t)
  currentRoot_eq : t.currentRoot =
    if commitments = [] then none else some (fullRoot sha256 commitments)

/-- Insert one commitment after another, each in a call of its own, and collect what the calls
return. -/
def insertDeposits {here : Address} :
    List (Env here × Bytes32) → DepositStore → Except Fault (List (ℕ × Bytes32) × DepositStore)
  | [], t => pure ([], t)
  | (env, commitment) :: calls, t => do
    let (result, t) ← insertDeposit sha256 env commitment t
    let (results, t) ← insertDeposits calls t
    pure (result :: results, t)

/-- The pairs of nodes that the tree and a membership proof hash. -/
def hashedPairs (commitments : List Bytes32) (leaf : Bytes32) (path : List Bytes32)
    (leafIndex : ℕ) : Set (Bytes32 × Bytes32) :=
  {p | p ∈ HashTree.climbPairs (hashNodes sha256) path leafIndex leaf} ∪
    HashTree.treePairs (hashNodes sha256) (HashTree.leaves (sha256 zeroLeafSeed) commitments)
      treeDepth

/-- The leaf at an index of the tree, with its siblings from the leaves up. -/
structure IsMember (commitments : List Bytes32) (leaf : Bytes32) (path : List Bytes32)
    (leafIndex : ℕ) : Prop where
  index_lt : leafIndex < 2 ^ treeDepth
  leaf_eq : leaf = fullNode sha256 commitments 0 leafIndex
  path_eq : path = fullSiblings sha256 commitments leafIndex

end Definitions

section Runs

variable {sha256 : ByteString → Bytes32} {here : Address} {t : DepositStore}
  {commitments : List Bytes32}

theorem WellFormed.empty : DepositStore.WellFormed sha256 .empty where
  zeros_cached := .empty
  packed_length := fun _ h => by cases h
  started _ := rfl

theorem Represents.empty : Represents sha256 .empty [] where
  wellFormed := WellFormed.empty
  nextLeafIndex_eq := rfl
  frontier := HashTree.frontier_nil _ _ _
  currentRoot_eq := rfl

theorem Represents.pathHash_eq (hr : Represents sha256 t commitments)
    (hroom : commitments.length < 2 ^ treeDepth) (commitment : Bytes32) :
    pathHash sha256 t t.nextLeafIndex commitment treeDepth =
      fullRoot sha256 (commitments ++ [commitment]) := by
  rw [pathHash, hr.nextLeafIndex_eq, hr.frontier.rise_eq commitment le_rfl,
    Nat.div_eq_of_lt hroom]
  rfl

theorem Represents.inserted {env : Env here} {commitment : Bytes32} {t' : DepositStore}
    (hr : Represents sha256 t commitments) (hroom : commitments.length < 2 ^ treeDepth)
    (hi : Inserted sha256 env t commitment t') :
    Represents sha256 t' (commitments ++ [commitment]) where
  wellFormed := hi.wellFormed
  nextLeafIndex_eq := by
    rw [hi.recorded, recordHistoricalRoot_nextLeafIndex, List.length_append,
      List.length_singleton, hr.nextLeafIndex_eq]
  frontier := (hr.frontier.append commitment).congr fun l hl _ => by
    rw [hi.written l hl, hr.nextLeafIndex_eq, nextLeftChild]
  currentRoot_eq := by
    rw [hi.recorded, recordHistoricalRoot_currentRoot, hr.pathHash_eq hroom, if_neg (by simp)]

theorem insertDeposits_spec (hr : Represents sha256 t commitments)
    (calls : List (Env here × Bytes32))
    (hroom : commitments.length + calls.length ≤ 2 ^ treeDepth) :
    ∃ t', insertDeposits sha256 calls t = .ok ((List.range calls.length).map fun i =>
        (commitments.length + i,
          fullRoot sha256 (commitments ++ (calls.map Prod.snd).take (i + 1))), t') ∧
      Represents sha256 t' (commitments ++ calls.map Prod.snd) := by
  induction calls generalizing t commitments with
  | nil => exact ⟨t, rfl, by rwa [List.map_nil, List.append_nil]⟩
  | cons call calls ih =>
    obtain ⟨env, commitment⟩ := call
    rw [List.length_cons] at hroom
    obtain ⟨t₁, hinsert, hi⟩ := insertDeposit_spec hr.wellFormed
      (by rw [hr.nextLeafIndex_eq]; omega) env commitment
    rw [hr.pathHash_eq (by omega), hr.nextLeafIndex_eq] at hinsert
    have hr₁ := hr.inserted (by omega) hi
    obtain ⟨t₂, hrest, hr₂⟩ := ih hr₁ (by rw [List.length_append, List.length_singleton]; omega)
    rw [List.append_assoc, List.singleton_append] at hr₂
    refine ⟨t₂, ?_, hr₂⟩
    simp only [insertDeposits, hinsert, ok_bind, hrest, pure_eq_ok, Prod.mk.injEq, and_true]
    rw [List.length_cons, List.range_succ_eq_map, List.map_cons, List.map_map]
    congr 1
    refine List.map_congr_left fun i _ => ?_
    simp
    omega

end Runs

/-! ## Membership proofs -/

section Proofs

variable {sha256 : ByteString → Bytes32} {commitments : List Bytes32} {leaf : Bytes32}
  {path : List Bytes32} {leafIndex : ℕ}

theorem injOn_hashNodes {S : Set (Bytes32 × Bytes32)}
    (h : Set.InjOn sha256 (Set.image pairBytes S)) :
    Set.InjOn (Function.uncurry (hashNodes sha256)) S := injOn_hashPair h

theorem verifyMerkleProof_iff_climb {root : Bytes32} :
    verifyMerkleProof sha256 leaf path leafIndex root = true ↔
      path.length = treeDepth ∧
        HashTree.climb (hashNodes sha256) path leafIndex leaf = root := by
  rw [verifyMerkleProof]
  split_ifs with h
  · simp [h]
  · simp [not_not.mp h]

/-- A proof against the root of the tree is accepted exactly for the leaf at the position that
the index has modulo the number of leaves. -/
theorem verifyMerkleProof_fullRoot_iff
    (hinj : Set.InjOn sha256 (Set.image pairBytes (hashedPairs sha256 commitments leaf path
      leafIndex))) :
    verifyMerkleProof sha256 leaf path leafIndex (fullRoot sha256 commitments) = true ↔
      IsMember sha256 commitments leaf path (leafIndex % 2 ^ treeDepth) := by
  have hlt : leafIndex % 2 ^ treeDepth < 2 ^ treeDepth := Nat.mod_lt _ (Nat.two_pow_pos _)
  rw [verifyMerkleProof_iff_climb]
  constructor
  · rintro ⟨hlength, hclimb⟩
    obtain ⟨hleaf, hpath⟩ := (HashTree.climb_eq_root_iff hlength (injOn_hashNodes hinj)).mp hclimb
    exact ⟨hlt, hleaf, hpath⟩
  · intro h
    have hlength : path.length = treeDepth := by
      rw [h.path_eq, fullSiblings, HashTree.siblings_length]
    exact ⟨hlength, (HashTree.climb_eq_root_iff hlength (injOn_hashNodes hinj)).mpr
      ⟨h.leaf_eq, h.path_eq⟩⟩

/-- Insertions into an empty store lead to the root of the full tree, and where no two hashed
pairs collide a proof against it is judged right exactly if it is not one of the position modulo
the number of leaves under an index beyond the tree. -/
theorem insertDeposits_membership_iff {here : Address} (sha256 : ByteString → Bytes32)
    (calls : List (Env here × Bytes32)) (hroom : calls.length ≤ 2 ^ 20) :
    ∃ t, insertDeposits sha256 calls .empty = .ok ((List.range calls.length).map fun i =>
        (i, fullRoot sha256 ((calls.map Prod.snd).take (i + 1))), t) ∧
      t.currentRoot = (if calls.map Prod.snd = [] then none
        else some (fullRoot sha256 (calls.map Prod.snd))) ∧
      ∀ leaf path leafIndex,
        Set.InjOn sha256 (Set.image pairBytes (hashedPairs sha256 (calls.map Prod.snd) leaf path
          leafIndex)) →
        ((verifyMerkleProof sha256 leaf path leafIndex (fullRoot sha256 (calls.map Prod.snd)) =
            true ↔ IsMember sha256 (calls.map Prod.snd) leaf path leafIndex) ↔
          ¬ (2 ^ 20 ≤ leafIndex ∧
            IsMember sha256 (calls.map Prod.snd) leaf path (leafIndex % 2 ^ 20))) := by
  obtain ⟨t, hall, hr⟩ := insertDeposits_spec Represents.empty calls
    (by rwa [List.length_nil, zero_add])
  refine ⟨t, by simpa using hall, hr.currentRoot_eq, fun leaf path leafIndex hinj => ?_⟩
  rw [verifyMerkleProof_fullRoot_iff hinj]
  change (IsMember sha256 _ leaf path (leafIndex % 2 ^ 20) ↔ _) ↔ _
  by_cases hlt : leafIndex < 2 ^ 20
  · rw [Nat.mod_eq_of_lt hlt]
    exact iff_of_true Iff.rfl fun h => absurd h.1 (Nat.not_le.mpr hlt)
  · have hout : ¬ IsMember sha256 (calls.map Prod.snd) leaf path leafIndex :=
      fun h => hlt h.index_lt
    rw [iff_false_right hout, not_and]
    exact ⟨fun h _ => h, fun h => h (not_lt.mp hlt)⟩

end Proofs

/-! ## A tree with one leaf -/

section Sample

def sampleEnv : Env ⟨0⟩ := .standard ⟨0⟩ 1 none

def samplePath : List Bytes32 := (List.range treeDepth).map fun l => sampleNode (.ofNat l) 0

theorem sample_seed : sampleHash zeroLeafSeed = sampleNode 0 0 := rfl

theorem sample_padding (l : ℕ) :
    HashTree.padding (hashNodes sampleHash) (sampleHash zeroLeafSeed) l =
      sampleNode (.ofNat l) 0 := by
  induction l with
  | zero => exact sample_seed
  | succ l ih =>
    rw [HashTree.padding, ih]
    exact (hashPair_sampleHash _ _ _).trans (by rw [UInt8.ofNat_add]; rfl)

/-- The mark of the one leaf is passed on to the first node of each level. -/
theorem sample_fullNode (l i : ℕ) :
    fullNode sampleHash [sampleNode 0 1] l i =
      sampleNode (.ofNat l) (if i = 0 then 1 else 0) := by
  induction l generalizing i with
  | zero => cases i <;> rfl
  | succ l ih =>
    have hnode : fullNode sampleHash [sampleNode 0 1] (l + 1) i = hashPair sampleHash
      (fullNode sampleHash [sampleNode 0 1] l (2 * i))
      (fullNode sampleHash [sampleNode 0 1] l (2 * i + 1)) := rfl
    rw [hnode, ih, ih, hashPair_sampleHash, UInt8.ofNat_add]
    simp

theorem samplePath_eq : samplePath = fullSiblings sampleHash [sampleNode 0 1] 0 := by
  rw [samplePath, fullSiblings, HashTree.siblings]
  refine List.map_congr_left fun l _ => ?_
  have hnode := sample_fullNode l 1
  rw [fullNode, if_neg one_ne_zero] at hnode
  rw [zero_add, Nat.zero_div, ← hnode]
  rfl

theorem samplePath_member :
    IsMember sampleHash [sampleNode 0 1] (sampleNode 0 1) samplePath 0 :=
  ⟨Nat.two_pow_pos _, rfl, samplePath_eq⟩

/-- At an index whose low bits are zero, a path of empty siblings hashes sample pairs only. -/
theorem sample_climbPairs (a : UInt8) (d : ℕ) {l i : ℕ} (hi : i % 2 ^ d = 0) :
    ∀ p ∈ HashTree.climbPairs (hashNodes sampleHash)
      ((List.range' l d).map fun l => sampleNode (.ofNat l) 0) i (sampleNode (.ofNat l) a),
      ∃ l a, p = (sampleNode l a, sampleNode l 0) := by
  induction d generalizing l i with
  | zero => simp [HashTree.climbPairs]
  | succ d ih =>
    have hbit : i % 2 = 0 :=
      Nat.mod_eq_zero_of_dvd ((dvd_pow_self 2 (Nat.succ_ne_zero d)).trans
        (Nat.dvd_of_mod_eq_zero hi))
    have hhalf : i / 2 % 2 ^ d = 0 := by
      rw [pow_succ'] at hi
      rw [← Nat.mod_mul_right_div_self, hi, Nat.zero_div]
    rw [List.range'_succ, List.map_cons, HashTree.climbPairs, if_neg (by omega)]
    refine List.forall_mem_cons.mpr ⟨⟨_, _, rfl⟩, ?_⟩
    have hnext : hashNodes sampleHash (sampleNode (.ofNat l) a) (sampleNode (.ofNat l) 0) =
        sampleNode (.ofNat (l + 1)) a :=
      (hashPair_sampleHash _ _ _).trans (by rw [UInt8.ofNat_add]; rfl)
    rw [hnext]
    exact ih hhalf

theorem sample_injOn {leafIndex : ℕ} (h : leafIndex % 2 ^ treeDepth = 0) :
    Set.InjOn sampleHash (Set.image pairBytes
      (hashedPairs sampleHash [sampleNode 0 1] (sampleNode 0 1) samplePath leafIndex)) := by
  refine injOn_sampleHash fun p hp => ?_
  obtain hp | ⟨l, i, _, rfl⟩ := hp
  · rw [Set.mem_ofPred_eq, samplePath, List.range_eq_range'] at hp
    exact sample_climbPairs 1 treeDepth h p hp
  · have hright := sample_fullNode l (2 * i + 1)
    rw [if_neg (Nat.succ_ne_zero _)] at hright
    exact ⟨_, _, Prod.ext (sample_fullNode l (2 * i)) hright⟩

theorem oneDeposit_membership :
    ∃ t, insertDeposits sampleHash [(sampleEnv, sampleNode 0 1)] .empty =
        .ok ([(0, fullRoot sampleHash [sampleNode 0 1])], t) ∧
      t.currentRoot = some (fullRoot sampleHash [sampleNode 0 1]) ∧
      ((verifyMerkleProof sampleHash (sampleNode 0 1) samplePath 0
          (fullRoot sampleHash [sampleNode 0 1]) = true ↔
        IsMember sampleHash [sampleNode 0 1] (sampleNode 0 1) samplePath 0) ↔
        ¬ (2 ^ 20 ≤ 0 ∧
          IsMember sampleHash [sampleNode 0 1] (sampleNode 0 1) samplePath (0 % 2 ^ 20))) := by
  obtain ⟨t, hall, hroot, hmember⟩ :=
    insertDeposits_membership_iff sampleHash [(sampleEnv, sampleNode 0 1)] (by decide)
  exact ⟨t, hall, hroot, hmember (sampleNode 0 1) samplePath 0 (sample_injOn (Nat.zero_mod _))⟩

/-- After one deposit its proof is also accepted under the index `2 ^ 20`. -/
theorem deposit_beyond_tree :
    ∃ t, insertDeposits sampleHash [(sampleEnv, sampleNode 0 1)] .empty =
        .ok ([(0, fullRoot sampleHash [sampleNode 0 1])], t) ∧
      t.currentRoot = some (fullRoot sampleHash [sampleNode 0 1]) ∧
      Set.InjOn sampleHash (Set.image pairBytes
        (hashedPairs sampleHash [sampleNode 0 1] (sampleNode 0 1) samplePath (2 ^ 20))) ∧
      verifyMerkleProof sampleHash (sampleNode 0 1) samplePath (2 ^ 20)
        (fullRoot sampleHash [sampleNode 0 1]) = true ∧
      ¬ IsMember sampleHash [sampleNode 0 1] (sampleNode 0 1) samplePath (2 ^ 20) := by
  have hinj := sample_injOn (Nat.mod_self (2 ^ 20))
  obtain ⟨t, hall, hr⟩ := insertDeposits_spec
    (show Represents sampleHash .empty [] from Represents.empty)
    [(sampleEnv, sampleNode 0 1)] (by decide)
  refine ⟨t, hall, hr.currentRoot_eq, hinj, (verifyMerkleProof_fullRoot_iff hinj).mpr ?_,
    fun h => absurd h.index_lt (lt_irrefl _)⟩
  have hmod : 2 ^ 20 % 2 ^ treeDepth = 0 := Nat.mod_self (2 ^ 20)
  rw [hmod]
  exact samplePath_member

end Sample

end StellarFlow.Zk
