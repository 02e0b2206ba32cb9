import StellarFlow.Bytes
import StellarFlow.Foundation.Ring
import StellarFlow.Host
import Mathlib.Data.Nat.Bitwise

/-!
# The commitment tree of private remittances

An insertion writes one leaf and the nodes on its path. The siblings to the left are nodes
written before; the siblings to the right have not been written, and the tree takes them from a
table of the hashes of empty subtrees, which it fills when it first needs them. The last hundred
roots are kept in a circular buffer.
-/
namespace StellarFlow.Escrow

open Foundation

def treeDepth : ℕ := 32
def rootHistorySize : ℕ := 100
def treeCapacity : ℕ := 2 ^ treeDepth

structure MerkleTreeState where
  nextIndex : ℕ
  currentRoot : Bytes32
  rootCount : ℕ
  rootCursor : ℕ
  deriving DecidableEq

/-- The entries of the tree in persistent storage. -/
structure MerkleStore where
  state : Option MerkleTreeState
  nodes : Store (ℕ × ℕ) Bytes32
  zeros : Store ℕ Bytes32
  roots : Store ℕ Bytes32

def MerkleStore.empty : MerkleStore := ⟨none, ∅, ∅, ∅⟩

def zeroLeaf : Bytes32 := Vector.replicate 32 0

-- The hash function of the host.
variable (sha256 : ByteString → Bytes32)

def zeroHash (level : ℕ) (t : MerkleStore) : Bytes32 × MerkleStore :=
  let (hash, zeros) := HashTree.cachedPadding (hashPair sha256) zeroLeaf level t.zeros
  (hash, { t with zeros })

def loadState (t : MerkleStore) : MerkleTreeState × MerkleStore :=
  match t.state with
  | some state => (state, t)
  | none =>
    let (root, t) := zeroHash sha256 treeDepth t
    (⟨0, root, 0, 0⟩, t)

def loadNode (level index : ℕ) (t : MerkleStore) : Bytes32 × MerkleStore :=
  match t.nodes.lookup (level, index) with
  | some hash => (hash, t)
  | none => zeroHash sha256 level t

def storeNode (level index : ℕ) (hash : Bytes32) (t : MerkleStore) : MerkleStore :=
  { t with nodes := t.nodes.insert (level, index) hash }

/-- The loop of an insertion after the given number of levels, with its index and its hash. -/
def insertPath (leafIndex : ℕ) (commitment : Bytes32) (t : MerkleStore) :
    ℕ → ℕ × Bytes32 × MerkleStore
  | 0 => (leafIndex, commitment, t)
  | level + 1 =>
    let (index, current, t) := insertPath leafIndex commitment t level
    let siblingIndex := index ^^^ 1
    let (sibling, t) := loadNode sha256 level siblingIndex t
    let current := if index &&& 1 = 0 then hashPair sha256 current sibling
      else hashPair sha256 sibling current
    let index := index / 2
    (index, current, storeNode (level + 1) index current t)

/-- The end of an insertion: the new root goes into the history. -/
def recordRoot (state : MerkleTreeState) (current : Bytes32) (t : MerkleStore) : MerkleStore :=
  let rootSlot := state.rootCursor
  let t := { t with roots := t.roots.insert rootSlot current }
  { t with state := some ⟨state.nextIndex + 1, current,
      min (state.rootCount + 1) rootHistorySize, (rootSlot + 1) % rootHistorySize⟩ }

def insert (commitment : Bytes32) (t : MerkleStore) :
    Except Fault ((ℕ × Bytes32) × MerkleStore) := do
  let (state, t) := loadState sha256 t
  failIf (treeCapacity ≤ state.nextIndex) (Fault.error .merkleTreeFull)
  let leafIndex := state.nextIndex
  let path := insertPath sha256 leafIndex commitment (storeNode 0 leafIndex commitment t) treeDepth
  pure ((leafIndex, path.2.1), recordRoot state path.2.1 path.2.2)

def currentRoot (t : MerkleStore) : Bytes32 := (loadState sha256 t).1.currentRoot

def nextIndex (t : MerkleStore) : ℕ := (loadState sha256 t).1.nextIndex

/-- The slot of a root, by its age. -/
def rootSlot (state : MerkleTreeState) (offset : ℕ) : ℕ :=
  (state.rootCursor + rootHistorySize - 1 - offset) % rootHistorySize

def isKnownRoot (root : Bytes32) (t : MerkleStore) : Bool :=
  let (state, t) := loadState sha256 t
  (List.range state.rootCount).any fun offset => t.roots.lookup (rootSlot state offset) = some root

/-- Past roots from newest to oldest. -/
def rootHistory (t : MerkleStore) : List Bytes32 :=
  let (state, t) := loadState sha256 t
  (List.range state.rootCount).filterMap fun offset => t.roots.lookup (rootSlot state offset)

/-! ## The full tree -/

/-- The hash of a subtree of the tree with the given leaves, in order. -/
def fullNode (commitments : List Bytes32) (level index : ℕ) : Bytes32 :=
  HashTree.node (hashPair sha256) (HashTree.leaves zeroLeaf commitments) level index

def fullRoot (commitments : List Bytes32) : Bytes32 := fullNode sha256 commitments treeDepth 0

/-- The roots after each of the insertions, the last one first. -/
def fullRoots (commitments : List Bytes32) : List Bytes32 :=
  (List.range commitments.length).map fun k =>
    fullRoot sha256 (commitments.take (commitments.length - k))

/-- The store after insertions into an empty one. -/
structure Represents (t : MerkleStore) (commitments : List Bytes32) : Prop where
  zeros_cached : HashTree.PaddingTable (hashPair sha256) zeroLeaf t.zeros
  state_eq : t.state = none ∧ commitments = [] ∨ ∃ count cursor, t.state =
    some ⟨commitments.length, fullRoot sha256 commitments, count, cursor⟩ ∧
    Ring.Holds rootHistorySize ⟨t.roots, count, cursor⟩ (fullRoots sha256 commitments)
  nodes_eq : ∀ level index, t.nodes.lookup (level, index) =
    if level ≤ treeDepth ∧ index * 2 ^ level < commitments.length then
      some (fullNode sha256 commitments level index) else none

section Insertion

variable {sha256 : ByteString → Bytes32} {t t' : MerkleStore} {commitments : List Bytes32}

/-- The same entries apart from the table of empty subtrees, which stays right. -/
structure CachesFrom (sha256 : ByteString → Bytes32) (t t' : MerkleStore) : Prop where
  zeros_cached : HashTree.PaddingTable (hashPair sha256) zeroLeaf t'.zeros
  state_eq : t'.state = t.state
  nodes_eq : t'.nodes = t.nodes
  roots_eq : t'.roots = t.roots

theorem CachesFrom.refl (h : HashTree.PaddingTable (hashPair sha256) zeroLeaf t.zeros) :
    CachesFrom sha256 t t := ⟨h, rfl, rfl, rfl⟩

theorem zeroHash_spec (hz : HashTree.PaddingTable (hashPair sha256) zeroLeaf t.zeros)
    (level : ℕ) :
    ∃ t', zeroHash sha256 level t = (HashTree.padding (hashPair sha256) zeroLeaf level, t') ∧
      CachesFrom sha256 t t' := by
  obtain ⟨zeros, heq, hz'⟩ := HashTree.cachedPadding_spec hz level
  exact ⟨{ t with zeros }, by rw [zeroHash, heq], hz', rfl, rfl, rfl⟩

theorem loadState_spec (hr : Represents sha256 t commitments) :
    ∃ state t', loadState sha256 t = (state, t') ∧ CachesFrom sha256 t t' ∧
      state.nextIndex = commitments.length ∧
      state.currentRoot = fullRoot sha256 commitments ∧
      Ring.Holds rootHistorySize ⟨t.roots, state.rootCount, state.rootCursor⟩
        (fullRoots sha256 commitments) := by
  rw [loadState]
  rcases hr.state_eq with ⟨hnone, rfl⟩ | ⟨count, cursor, hsome, hring⟩
  · obtain ⟨t', heq, hc⟩ := zeroHash_spec hr.zeros_cached treeDepth
    refine ⟨_, t', by rw [hnone, heq], hc, rfl, ?_, Ring.holds_nil t.roots⟩
    exact (HashTree.node_of_length_le (by simp)).symm
  · exact ⟨_, t, by rw [hsome], .refl hr.zeros_cached, rfl, rfl, hring⟩

theorem loadNode_spec (hz : HashTree.PaddingTable (hashPair sha256) zeroLeaf t.zeros)
    (level index : ℕ) :
    ∃ t', loadNode sha256 level index t = ((t.nodes.lookup (level, index)).getD
        (HashTree.padding (hashPair sha256) zeroLeaf level), t') ∧ CachesFrom sha256 t t' := by
  rw [loadNode]
  cases hlookup : t.nodes.lookup (level, index) with
  | some hash => exact ⟨t, rfl, .refl hz⟩
  | none => exact zeroHash_spec hz level

theorem xor_one_eq_sibling (i : ℕ) : i ^^^ 1 = HashTree.sibling i := by
  have hhalf : (i ^^^ 1) / 2 = i / 2 := by
    rw [Nat.xor_div_two]
    simp
  have hbit : (i ^^^ 1) % 2 = (i + 1) % 2 := Nat.xor_mod_two_eq
  unfold HashTree.sibling
  split_ifs with h <;> omega

/-- The siblings that an insertion finds to its left. -/
def leftSiblings (sha256 : ByteString → Bytes32) (t : MerkleStore) (leafIndex level : ℕ) :
    Bytes32 :=
  (t.nodes.lookup (level, leafIndex / 2 ^ level - 1)).getD
    (HashTree.padding (hashPair sha256) zeroLeaf level)

theorem Represents.frontier (hr : Represents sha256 t commitments) :
    HashTree.Frontier (hashPair sha256) zeroLeaf treeDepth commitments
      (leftSiblings sha256 t commitments.length) := by
  intro level hlevel hodd
  have hlow := Nat.div_mul_le_self commitments.length (2 ^ level)
  have hpow := Nat.two_pow_pos level
  have hwritten : (commitments.length / 2 ^ level - 1) * 2 ^ level < commitments.length := by
    generalize commitments.length / 2 ^ level = i at *
    refine lt_of_lt_of_le ?_ hlow
    exact Nat.mul_lt_mul_of_pos_right (by omega) hpow
  rw [leftSiblings, hr.nodes_eq, if_pos ⟨hlevel.le, hwritten⟩, Option.getD_some, fullNode]

/-- The hash that an insertion writes at a level. -/
def pathHash (sha256 : ByteString → Bytes32) (t : MerkleStore) (leafIndex : ℕ)
    (commitment : Bytes32) (level : ℕ) : Bytes32 :=
  HashTree.rise (hashPair sha256) zeroLeaf (leftSiblings sha256 t leafIndex) leafIndex commitment
    level

/-- What an insertion has written up to a level. -/
structure WritesPath (sha256 : ByteString → Bytes32) (t : MerkleStore) (leafIndex : ℕ)
    (commitment : Bytes32) (level : ℕ) (t' : MerkleStore) : Prop where
  zeros_cached : HashTree.PaddingTable (hashPair sha256) zeroLeaf t'.zeros
  state_eq : t'.state = t.state
  roots_eq : t'.roots = t.roots
  nodes_eq : ∀ l k, t'.nodes.lookup (l, k) = if l ≤ level ∧ k = leafIndex / 2 ^ l then
    some (pathHash sha256 t leafIndex commitment l) else t.nodes.lookup (l, k)

theorem CachesFrom.writesLeaf (ht : CachesFrom sha256 t t') (leafIndex : ℕ) (commitment : Bytes32) :
    WritesPath sha256 t leafIndex commitment 0 (storeNode 0 leafIndex commitment t') where
  zeros_cached := ht.zeros_cached
  state_eq := ht.state_eq
  roots_eq := ht.roots_eq
  nodes_eq l k := by
    change (t'.nodes.insert (0, leafIndex) commitment).lookup (l, k) = _
    rw [Store.lookup_insert_ite, ht.nodes_eq]
    by_cases hl : l = 0
    · subst hl
      simp [pathHash, HashTree.rise]
    · rw [if_neg (by simp [hl]), if_neg (by simp [hl])]

/-- The sibling that an insertion loads: the left one was written before, the right one never. -/
theorem WritesPath.sibling {leafIndex level : ℕ} {commitment : Bytes32}
    (hr : Represents sha256 t commitments) (hleaf : leafIndex = commitments.length)
    (hw : WritesPath sha256 t leafIndex commitment level t') :
    (t'.nodes.lookup (level, leafIndex / 2 ^ level ^^^ 1)).getD
        (HashTree.padding (hashPair sha256) zeroLeaf level) =
      if leafIndex / 2 ^ level % 2 = 0 then HashTree.padding (hashPair sha256) zeroLeaf level
      else leftSiblings sha256 t leafIndex level := by
  have hhigh : commitments.length < (leafIndex / 2 ^ level + 1) * 2 ^ level := by
    rw [add_mul, one_mul, hleaf]
    exact Nat.lt_div_mul_add (Nat.two_pow_pos level)
  rw [leftSiblings, xor_one_eq_sibling, HashTree.sibling, hw.nodes_eq]
  generalize leafIndex / 2 ^ level = i at *
  by_cases heven : i % 2 = 0
  · rw [if_pos heven, if_pos heven, if_neg (by omega), hr.nodes_eq, if_neg (by omega)]
    rfl
  · rw [if_neg heven, if_neg heven, if_neg (by omega)]

theorem insertPath_spec {leafIndex : ℕ} (hr : Represents sha256 t commitments)
    (hleaf : leafIndex = commitments.length) (commitment : Bytes32) (ht : CachesFrom sha256 t t')
    (level : ℕ) :
    ∃ t'', insertPath sha256 leafIndex commitment (storeNode 0 leafIndex commitment t') level =
        (leafIndex / 2 ^ level, pathHash sha256 t leafIndex commitment level, t'') ∧
      WritesPath sha256 t leafIndex commitment level t'' := by
  induction level with
  | zero =>
    refine ⟨_, ?_, ht.writesLeaf leafIndex commitment⟩
    rw [insertPath, pow_zero, Nat.div_one]
    rfl
  | succ level ih =>
    obtain ⟨t₁, hpath, hw⟩ := ih
    obtain ⟨t₂, hload, hc⟩ := loadNode_spec hw.zeros_cached level (leafIndex / 2 ^ level ^^^ 1)
    rw [hw.sibling hr hleaf] at hload
    have hhalf : leafIndex / 2 ^ level / 2 = leafIndex / 2 ^ (level + 1) := by
      rw [Nat.div_div_eq_div_mul, ← pow_succ]
    refine ⟨storeNode (level + 1) (leafIndex / 2 ^ (level + 1))
      (pathHash sha256 t leafIndex commitment (level + 1)) t₂, ?_, hc.zeros_cached,
      hc.state_eq.trans hw.state_eq, hc.roots_eq.trans hw.roots_eq, fun l k => ?_⟩
    · simp only [insertPath, hpath, hload, Nat.and_one_is_mod, hhalf]
      have hrise : pathHash sha256 t leafIndex commitment (level + 1) =
          if leafIndex / 2 ^ level % 2 = 0 then
            hashPair sha256 (pathHash sha256 t leafIndex commitment level)
              (HashTree.padding (hashPair sha256) zeroLeaf level)
          else hashPair sha256 (leftSiblings sha256 t leafIndex level)
            (pathHash sha256 t leafIndex commitment level) := rfl
      rw [hrise]
      split_ifs <;> rfl
    · change (t₂.nodes.insert (level + 1, leafIndex / 2 ^ (level + 1)) _).lookup (l, k) = _
      rw [Store.lookup_insert_ite, hc.nodes_eq, hw.nodes_eq]
      by_cases hl : l = level + 1
      · subst hl
        simp
      · have hle : l ≤ level + 1 ↔ l ≤ level := by omega
        rw [if_neg (by simp [hl])]
        exact if_congr (and_congr_left fun _ => hle.symm) rfl rfl

theorem pathHash_eq {commitment : Bytes32} (hr : Represents sha256 t commitments) {level : ℕ}
    (hlevel : level ≤ treeDepth) :
    pathHash sha256 t commitments.length commitment level =
      fullNode sha256 (commitments ++ [commitment]) level (commitments.length / 2 ^ level) :=
  hr.frontier.rise_eq commitment hlevel

/-- The nodes after an insertion are those of the full tree with one more leaf. -/
theorem WritesPath.nodes_full {commitment : Bytes32} (hr : Represents sha256 t commitments)
    (hw : WritesPath sha256 t commitments.length commitment treeDepth t') (level index : ℕ) :
    t'.nodes.lookup (level, index) =
      if level ≤ treeDepth ∧ index * 2 ^ level < (commitments ++ [commitment]).length then
        some (fullNode sha256 (commitments ++ [commitment]) level index) else none := by
  have hlow := Nat.div_mul_le_self commitments.length (2 ^ level)
  have hhigh : commitments.length < (commitments.length / 2 ^ level + 1) * 2 ^ level := by
    rw [add_mul, one_mul]
    exact Nat.lt_div_mul_add (Nat.two_pow_pos level)
  rw [hw.nodes_eq, hr.nodes_eq, List.length_append, List.length_singleton]
  by_cases hlevel : level ≤ treeDepth
  · by_cases hpath : index = commitments.length / 2 ^ level
    · rw [if_pos ⟨hlevel, hpath⟩, if_pos ⟨hlevel, by rw [hpath]; omega⟩, pathHash_eq hr hlevel,
        hpath]
    · rw [if_neg fun h => hpath h.2]
      by_cases hwritten : index * 2 ^ level < commitments.length
      · have hbefore : (index + 1) * 2 ^ level ≤ commitments.length := by
          refine le_trans (Nat.mul_le_mul_right _ ?_) hlow
          have : index ≤ commitments.length / 2 ^ level :=
            (Nat.le_div_iff_mul_le (Nat.two_pow_pos level)).mpr hwritten.le
          omega
        rw [if_pos ⟨hlevel, hwritten⟩, if_pos ⟨hlevel, by omega⟩]
        exact congrArg some (HashTree.node_append hbefore).symm
      · rw [if_neg fun h => hwritten h.2, if_neg]
        rintro ⟨_, hle⟩
        have heq : index * 2 ^ level = commitments.length := by omega
        exact hpath (by rw [← heq, Nat.mul_div_cancel _ (Nat.two_pow_pos level)])
  · rw [if_neg fun h => hlevel h.1, if_neg fun h => hlevel h.1, if_neg fun h => hlevel h.1]

theorem fullRoots_append (commitments : List Bytes32) (commitment : Bytes32) :
    fullRoots sha256 (commitments ++ [commitment]) =
      fullRoot sha256 (commitments ++ [commitment]) :: fullRoots sha256 commitments := by
  rw [fullRoots, List.length_append, List.length_singleton, List.range_succ_eq_map, List.map_cons,
    List.map_map, Nat.sub_zero, List.take_of_length_le (by simp)]
  congr 1
  refine List.map_congr_left fun k _ => ?_
  rw [Function.comp_apply, Nat.succ_eq_add_one, Nat.add_sub_add_right,
    List.take_append_of_le_length (Nat.sub_le _ _)]

/-- An insertion with room left adds a leaf to the full tree. -/
theorem insert_spec (hr : Represents sha256 t commitments)
    (hroom : commitments.length < treeCapacity) (commitment : Bytes32) :
    ∃ t', insert sha256 commitment t =
        .ok ((commitments.length, fullRoot sha256 (commitments ++ [commitment])), t') ∧
      Represents sha256 t' (commitments ++ [commitment]) := by
  obtain ⟨state, t₁, hload, hc, hnext, _, hring⟩ := loadState_spec hr
  obtain ⟨t₂, hpath, hw⟩ := insertPath_spec hr rfl commitment hc treeDepth
  have hroot : pathHash sha256 t commitments.length commitment treeDepth =
      fullRoot sha256 (commitments ++ [commitment]) := by
    have hindex : commitments.length / 2 ^ treeDepth = 0 := Nat.div_eq_of_lt hroom
    rw [pathHash_eq hr le_rfl, hindex, fullRoot]
  refine ⟨recordRoot state (fullRoot sha256 (commitments ++ [commitment])) t₂, ?_,
    hw.zeros_cached, .inr ⟨_, _, by rw [List.length_append, ← hnext]; rfl, ?_⟩,
    fun level index => (hw.nodes_full hr level index :)⟩
  · rw [insert, hload]
    simp only [hnext, failIf_of_not (Nat.not_le.mpr hroom), ok_bind]
    rw [hpath, hroot]
    rfl
  · rw [← hw.roots_eq] at hring
    rw [fullRoots_append]
    exact hring.push _

theorem insert_full (hr : Represents sha256 t commitments)
    (hfull : treeCapacity ≤ commitments.length) (commitment : Bytes32) :
    insert sha256 commitment t = .error (.error .merkleTreeFull) := by
  obtain ⟨state, t₁, hload, _, hnext, _⟩ := loadState_spec hr
  rw [insert, hload]
  simp only [hnext, failIf, if_pos hfull]
  rfl

end Insertion

/-! ## Runs of insertions -/

section Runs

variable (sha256 : ByteString → Bytes32)

/-- Insert one commitment after another and collect what the calls return. -/
def insertAll : List Bytes32 → MerkleStore → Except Fault (List (ℕ × Bytes32) × MerkleStore)
  | [], t => pure ([], t)
  | commitment :: commitments, t => do
    let (result, t) ← insert sha256 commitment t
    let (results, t) ← insertAll commitments t
    pure (result :: results, t)

/-- What the store of the tree shows is the full tree over the commitments. -/
structure MatchesFullTree (t : MerkleStore) (commitments : List Bytes32) : Prop where
  currentRoot_eq : currentRoot sha256 t = fullRoot sha256 commitments
  nextIndex_eq : nextIndex sha256 t = commitments.length
  node_eq : ∀ level index hash, t.nodes.lookup (level, index) = some hash →
    level ≤ treeDepth ∧ hash = fullNode sha256 commitments level index
  rootHistory_eq : rootHistory sha256 t =
    (List.range (min commitments.length rootHistorySize)).map fun k =>
      fullRoot sha256 (commitments.take (commitments.length - k))
  isKnownRoot_iff : ∀ root, isKnownRoot sha256 root t = true ↔
    ∃ k < min commitments.length rootHistorySize,
      root = fullRoot sha256 (commitments.take (commitments.length - k))
  full : commitments.length = treeCapacity → ∀ commitment,
    insert sha256 commitment t = .error (.error .merkleTreeFull) ∧
      commit (fun c t => Prod.snd <$> insert sha256 c t) t commitment = t

variable {sha256} {t : MerkleStore} {commitments : List Bytes32}

theorem Represents.empty : Represents sha256 .empty [] where
  zeros_cached := .empty
  state_eq := .inl ⟨rfl, rfl⟩
  nodes_eq level index := by
    rw [if_neg (by simp)]
    rfl

theorem take_fullRoots (commitments : List Bytes32) (n : ℕ) :
    (fullRoots sha256 commitments).take n = (List.range (min commitments.length n)).map fun k =>
      fullRoot sha256 (commitments.take (commitments.length - k)) := by
  rw [fullRoots, ← List.map_take, List.take_range, min_comm]

theorem Represents.matchesFullTree (hr : Represents sha256 t commitments) :
    MatchesFullTree sha256 t commitments := by
  obtain ⟨state, t₁, hload, hc, hnext, hroot, hring⟩ := loadState_spec hr
  rw [← hc.roots_eq] at hring
  have hhistory : rootHistory sha256 t =
      (List.range (min commitments.length rootHistorySize)).map fun k =>
        fullRoot sha256 (commitments.take (commitments.length - k)) := by
    rw [← take_fullRoots, ← hring.newest_eq, rootHistory, hload]
    rfl
  refine ⟨?_, ?_, ?_, hhistory, ?_, ?_⟩
  · rw [currentRoot, hload, hroot]
  · rw [nextIndex, hload, hnext]
  · intro level index hash hlookup
    rw [hr.nodes_eq] at hlookup
    split_ifs at hlookup with h
    exact ⟨h.1, (Option.some.inj hlookup).symm⟩
  · intro root
    have hmem : isKnownRoot sha256 root t = true ↔ root ∈ rootHistory sha256 t := by
      rw [isKnownRoot, rootHistory, hload]
      simp
    rw [hmem, hhistory]
    simp [eq_comm]
  · intro hfull commitment
    have herror := insert_full hr hfull.ge commitment
    exact ⟨herror, commit_of_error (by rw [herror]; rfl)⟩

theorem insertAll_spec (hr : Represents sha256 t commitments) (more : List Bytes32)
    (hroom : commitments.length + more.length ≤ treeCapacity) :
    ∃ t', insertAll sha256 more t = .ok ((List.range more.length).map fun i =>
        (commitments.length + i, fullRoot sha256 (commitments ++ more.take (i + 1))), t') ∧
      Represents sha256 t' (commitments ++ more) := by
  induction more generalizing t commitments with
  | nil => exact ⟨t, rfl, by rwa [List.append_nil]⟩
  | cons commitment more ih =>
    rw [List.length_cons] at hroom
    obtain ⟨t₁, hinsert, hr₁⟩ := insert_spec hr (by omega) commitment
    obtain ⟨t₂, hrest, hr₂⟩ := ih hr₁ (by rw [List.length_append, List.length_singleton]; omega)
    rw [List.append_assoc, List.singleton_append] at hr₂
    refine ⟨t₂, ?_, hr₂⟩
    simp only [insertAll, hinsert, ok_bind, hrest, pure_eq_ok, Prod.mk.injEq, and_true]
    rw [List.length_cons, List.range_succ_eq_map, List.map_cons, List.map_map]
    congr 1
    refine List.map_congr_left fun i _ => ?_
    simp
    omega

/-- Insertions into an empty store return the leaf indices in order and the roots of the full
trees, and leave a store that matches the full tree over all commitments. -/
theorem insertAll_refines (sha256 : ByteString → Bytes32) (commitments : List Bytes32)
    (hroom : commitments.length ≤ 2 ^ 32) :
    ∃ t, insertAll sha256 commitments .empty = .ok ((List.range commitments.length).map fun i =>
        (i, fullRoot sha256 (commitments.take (i + 1))), t) ∧
      MatchesFullTree sha256 t commitments := by
  obtain ⟨t, hall, hr⟩ := insertAll_spec Represents.empty commitments
    (by rwa [List.length_nil, zero_add])
  refine ⟨t, ?_, hr.matchesFullTree⟩
  simpa using hall

theorem twoInsertions_refine :
    ∃ t, insertAll sampleHash [sampleNode 0 1, sampleNode 0 2] .empty =
        .ok ([(0, fullRoot sampleHash [sampleNode 0 1]),
          (1, fullRoot sampleHash [sampleNode 0 1, sampleNode 0 2])], t) ∧
      MatchesFullTree sampleHash t [sampleNode 0 1, sampleNode 0 2] :=
  insertAll_refines sampleHash [sampleNode 0 1, sampleNode 0 2] (by decide)

end Runs

end StellarFlow.Escrow
