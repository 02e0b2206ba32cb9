import StellarFlow.Zk.Merkle

/-!
# What insertions compute

The stored left children are the frontier of the tree, so an insertion computes the root of the
full tree. A membership proof is accepted exactly from the right leaf and the right siblings, but
only the low bits of the leaf index count: an index beyond the tree stands for the position that
it has modulo the number of leaves.
-/
namespace StellarFlow.Zk

open Foundation

section Definitions

variable (sha256 : ByteString → Bytes32)

/-- The hash of an empty subtree. -/
def emptyNode (level : ℕ) : Bytes32 :=
  HashTree.padding (hashNodes sha256) (sha256 zeroLeafSeed) level

/-- The stored left child of a level. -/
def leftChild (t : DepositStore) (level : ℕ) : Bytes32 :=
  match t.packedSubtrees with
  | some packed => packedAt packed level
  | none => (t.filledSubtrees.lookup level).getD (emptyNode sha256 level)

/-- The hash that an insertion computes at a level. -/
def pathHash (t : DepositStore) (leafIndex : ℕ) (commitment : Bytes32) (level : ℕ) : Bytes32 :=
  HashTree.rise (hashNodes sha256) (sha256 zeroLeafSeed) (leftChild sha256 t) leafIndex commitment
    level

/-- The left child of a level after an insertion. -/
def nextLeftChild (t : DepositStore) (leafIndex : ℕ) (commitment : Bytes32) (level : ℕ) :
    Bytes32 :=
  HashTree.remember (hashNodes sha256) (sha256 zeroLeafSeed) (leftChild sha256 t) leafIndex
    commitment level

/-- The table of empty subtrees is right, and the left children are packed from the first
insertion on. -/
structure DepositStore.WellFormed (t : DepositStore) : Prop where
  zeros_cached : HashTree.PaddingTable (hashNodes sha256) (sha256 zeroLeafSeed) t.zeroHashes
  packed_length : ∀ packed, t.packedSubtrees = some packed → packed.length = treeDepth * 32
  started : t.packedSubtrees = none → t.nextLeafIndex = 0

/-- The same entries apart from the table of empty subtrees, which stays right. -/
structure CachesFrom (t t' : DepositStore) : Prop where
  frame : t' = { t with zeroHashes := t'.zeroHashes }
  zeros_cached : HashTree.PaddingTable (hashNodes sha256) (sha256 zeroLeafSeed) t'.zeroHashes

/-- What the loop of an insertion has written after the given number of levels. -/
structure Climbs (t : DepositStore) (leafIndex : ℕ) (commitment : Bytes32) (level : ℕ)
    (t' : DepositStore) : Prop where
  frame : t' = { t with zeroHashes := t'.zeroHashes, packedSubtrees := t'.packedSubtrees }
  zeros_cached : HashTree.PaddingTable (hashNodes sha256) (sha256 zeroLeafSeed) t'.zeroHashes
  packed_length : ∀ packed, t'.packedSubtrees = some packed → packed.length = treeDepth * 32
  started : t'.packedSubtrees = none → leafIndex = 0 ∧ level = 0
  written : ∀ l < level, leftChild sha256 t' l = nextLeftChild sha256 t leafIndex commitment l
  kept : ∀ l < treeDepth, level ≤ l → leafIndex / 2 ^ l % 2 = 1 →
    leftChild sha256 t' l = leftChild sha256 t l

end Definitions

/-! ## The packed left children -/

section Packed

variable {packed : ByteString} {hash : Bytes32} {l level : ℕ}

@[simp] theorem packedWith_length : (packedWith packed level hash).length = packed.length := by
  simp [packedWith]

theorem getD_packedWith {i : ℕ} (hi : i < packed.length) :
    (packedWith packed level hash).getD i 0 =
      if level * 32 ≤ i ∧ i < level * 32 + 32 then hash.toList.getD (i - level * 32) 0
      else packed.getD i 0 := by
  rw [List.getD_eq_getElem?_getD, packedWith, List.getElem?_map, List.getElem?_range hi]
  rfl

/-- Replacing one level leaves the others alone. -/
theorem packedAt_packedWith (hlength : packed.length = treeDepth * 32) (hl : l < treeDepth) :
    packedAt (packedWith packed level hash) l = if l = level then hash else packedAt packed l := by
  apply Vector.ext
  intro i hi
  have hbound : l * 32 + i < packed.length := by
    rw [hlength]
    omega
  rw [packedAt, Vector.getElem_ofFn, getD_packedWith hbound]
  split_ifs with hin h h
  · subst h
    simp [List.getD_eq_getElem?_getD, hi]
  · omega
  · omega
  · rw [packedAt, Vector.getElem_ofFn]

end Packed

/-! ## Insertion -/

section Insertion

variable {sha256 : ByteString → Bytes32} {t t' : DepositStore} {leafIndex level : ℕ}
  {commitment : Bytes32}

theorem getZeroHash_spec
    (hz : HashTree.PaddingTable (hashNodes sha256) (sha256 zeroLeafSeed) t.zeroHashes)
    (level : ℕ) :
    ∃ t', getZeroHash sha256 level t = (emptyNode sha256 level, t') ∧ CachesFrom sha256 t t' := by
  obtain ⟨zeros, heq, hz'⟩ := HashTree.cachedPadding_spec hz level
  exact ⟨{ t with zeroHashes := zeros }, by rw [getZeroHash, heq, emptyNode], rfl, hz'⟩

theorem getPackedFilledSubtree_spec
    (hz : HashTree.PaddingTable (hashNodes sha256) (sha256 zeroLeafSeed) t.zeroHashes)
    (hlength : ∀ packed, t.packedSubtrees = some packed → packed.length = treeDepth * 32)
    (hlevel : level < treeDepth) :
    ∃ t', getPackedFilledSubtree sha256 level t = (leftChild sha256 t level, t') ∧
      CachesFrom sha256 t t' := by
  rw [getPackedFilledSubtree, leftChild]
  cases hpacked : t.packedSubtrees with
  | some packed =>
    have hfits : level * 32 + 32 ≤ packed.length := by
      rw [hlength packed hpacked]
      omega
    exact ⟨t, if_pos hfits, rfl, hz⟩
  | none =>
    dsimp only
    rw [legacyFilledSubtree]
    cases hlegacy : t.filledSubtrees.lookup level with
    | some hash => exact ⟨t, rfl, rfl, hz⟩
    | none => exact getZeroHash_spec hz level

theorem leftChild_set
    (hlength : ∀ packed, t.packedSubtrees = some packed → packed.length = treeDepth * 32)
    {hash : Bytes32} {l : ℕ} (hl : l < treeDepth)
    (hset : l = level ∨ t.packedSubtrees ≠ none) :
    leftChild sha256 (setPackedFilledSubtree level hash t) l =
      if l = level then hash else leftChild sha256 t l := by
  change packedAt (packedWith _ level hash) l = _
  cases hpacked : t.packedSubtrees with
  | some packed =>
    rw [Option.getD_some, packedAt_packedWith (hlength packed hpacked) hl, leftChild, hpacked]
  | none =>
    have hl' : l = level := hset.resolve_right fun h => h hpacked
    rw [Option.getD_none, packedAt_packedWith (by simp) hl, if_pos hl', if_pos hl']

theorem CachesFrom.refl
    (h : HashTree.PaddingTable (hashNodes sha256) (sha256 zeroLeafSeed) t.zeroHashes) :
    CachesFrom sha256 t t := ⟨rfl, h⟩

theorem CachesFrom.trans {t'' : DepositStore} (h : CachesFrom sha256 t t')
    (h' : CachesFrom sha256 t' t'') : CachesFrom sha256 t t'' :=
  ⟨by rw [h'.frame, h.frame], h'.zeros_cached⟩

theorem CachesFrom.leftChild (h : CachesFrom sha256 t t') (l : ℕ) :
    leftChild sha256 t' l = leftChild sha256 t l := by
  rw [h.frame]
  rfl

theorem CachesFrom.packed (h : CachesFrom sha256 t t') :
    t'.packedSubtrees = t.packedSubtrees := by
  rw [h.frame]

theorem CachesFrom.trans_frame {t₀ : DepositStore} (h : CachesFrom sha256 t t')
    (h0 : t = { t₀ with zeroHashes := t.zeroHashes, packedSubtrees := t.packedSubtrees }) :
    t' = { t₀ with zeroHashes := t'.zeroHashes, packedSubtrees := t'.packedSubtrees } := by
  rw [h.frame, h0]

theorem pathHash_succ (t : DepositStore) (leafIndex : ℕ) (commitment : Bytes32) (level : ℕ) :
    pathHash sha256 t leafIndex commitment (level + 1) =
      if leafIndex / 2 ^ level % 2 = 0 then
        hashNodes sha256 (pathHash sha256 t leafIndex commitment level) (emptyNode sha256 level)
      else hashNodes sha256 (leftChild sha256 t level)
        (pathHash sha256 t leafIndex commitment level) := rfl

theorem nextLeftChild_of_even (heven : leafIndex / 2 ^ level % 2 = 0) :
    nextLeftChild sha256 t leafIndex commitment level =
      pathHash sha256 t leafIndex commitment level := by
  rw [nextLeftChild, HashTree.remember, if_pos heven, pathHash]

theorem nextLeftChild_of_odd (hodd : leafIndex / 2 ^ level % 2 = 1) :
    nextLeftChild sha256 t leafIndex commitment level = leftChild sha256 t level := by
  rw [nextLeftChild, HashTree.remember, if_neg (by omega)]

theorem Climbs.start (hz : DepositStore.WellFormed sha256 t) (commitment : Bytes32) :
    Climbs sha256 t t.nextLeafIndex commitment 0 t where
  frame := rfl
  zeros_cached := hz.zeros_cached
  packed_length := hz.packed_length
  started hnone := ⟨hz.started hnone, rfl⟩
  written _ hl := absurd hl (Nat.not_lt_zero _)
  kept _ _ _ _ := rfl

/-- A right child reads the stored left child. -/
theorem Climbs.right {t₁ t₂ : DepositStore} (h : Climbs sha256 t leafIndex commitment level t₁)
    (hc : CachesFrom sha256 t₁ t₂) (hlevel : level < treeDepth)
    (hodd : leafIndex / 2 ^ level % 2 = 1) :
    Climbs sha256 t leafIndex commitment (level + 1) t₂ where
  frame := hc.trans_frame h.frame
  zeros_cached := hc.zeros_cached
  packed_length := hc.packed ▸ h.packed_length
  started := by
    intro hnone
    have hzero := (h.started (hc.packed ▸ hnone)).1
    simp [hzero] at hodd
  written l hl := by
    rw [hc.leftChild]
    obtain hl | rfl := Nat.lt_succ_iff_lt_or_eq.mp hl
    · exact h.written l hl
    · rw [h.kept l hlevel le_rfl hodd, nextLeftChild_of_odd hodd]
  kept l hl hle hbit := by
    rw [hc.leftChild]
    exact h.kept l hl (by omega) hbit

/-- A left child is stored. -/
theorem Climbs.left {t₁ t₂ : DepositStore} (h : Climbs sha256 t leafIndex commitment level t₁)
    (hc : CachesFrom sha256 (setPackedFilledSubtree level
      (pathHash sha256 t leafIndex commitment level) t₁) t₂) (hlevel : level < treeDepth)
    (heven : leafIndex / 2 ^ level % 2 = 0) :
    Climbs sha256 t leafIndex commitment (level + 1) t₂ where
  frame := hc.trans_frame (by
    rw [setPackedFilledSubtree, h.frame])
  zeros_cached := hc.zeros_cached
  packed_length packed hpacked := by
    rw [hc.packed] at hpacked
    obtain rfl := Option.some.inj hpacked
    rw [packedWith_length]
    cases hold : t₁.packedSubtrees with
    | none => simp
    | some packed => exact h.packed_length packed hold
  started hnone := by
    rw [hc.packed] at hnone
    cases hnone
  written l hl := by
    rw [hc.leftChild, leftChild_set h.packed_length (by omega)]
    · split_ifs with hl'
      · rw [hl', nextLeftChild_of_even heven]
      · exact h.written l (by omega)
    · by_cases hl' : l = level
      · exact .inl hl'
      · refine .inr fun hnone => ?_
        have hstarted := (h.started hnone).2
        omega
  kept l hl hle hbit := by
    rw [hc.leftChild, leftChild_set h.packed_length hl, if_neg (by omega)]
    · exact h.kept l hl (by omega) hbit
    · -- The first insertion has no right child.
      refine .inr fun hnone => ?_
      have hzero := (h.started hnone).1
      simp [hzero] at hbit

theorem insertLevels_spec (ht : DepositStore.WellFormed sha256 t) (commitment : Bytes32)
    (hlevel : level ≤ treeDepth) :
    ∃ t', insertLevels sha256 t.nextLeafIndex commitment t level =
        (pathHash sha256 t t.nextLeafIndex commitment level, t.nextLeafIndex / 2 ^ level, t') ∧
      Climbs sha256 t t.nextLeafIndex commitment level t' := by
  induction level with
  | zero =>
    refine ⟨t, ?_, .start ht commitment⟩
    rw [insertLevels, pow_zero, Nat.div_one]
    rfl
  | succ level ih =>
    obtain ⟨t₁, hpath, h⟩ := ih (by omega)
    have hhalf : t.nextLeafIndex / 2 ^ level / 2 = t.nextLeafIndex / 2 ^ (level + 1) := by
      rw [Nat.div_div_eq_div_mul, ← pow_succ]
    rw [insertLevels, hpath, pathHash_succ]
    dsimp only
    by_cases hodd : t.nextLeafIndex / 2 ^ level % 2 = 1
    · obtain ⟨t₂, hget, hc⟩ :=
        getPackedFilledSubtree_spec h.zeros_cached h.packed_length (show level < treeDepth by omega)
      refine ⟨t₂, ?_, h.right hc (by omega) hodd⟩
      rw [if_pos hodd, hget, if_neg (by omega), h.kept level (by omega) le_rfl hodd, hhalf]
    · obtain ⟨t₂, hget, hc⟩ := getZeroHash_spec
        (t := setPackedFilledSubtree level (pathHash sha256 t t.nextLeafIndex commitment level) t₁)
        h.zeros_cached level
      refine ⟨t₂, ?_, h.left hc (by omega) (by omega)⟩
      rw [if_neg hodd, hget, if_pos (by omega), hhalf]

end Insertion

/-! ## Recording a root -/

section Recording

variable {here : Address} {env : Env here} {root : Bytes32} {leafCount : ℕ} {t : DepositStore}

@[simp] theorem recordHistoricalRoot_currentRoot :
    (recordHistoricalRoot env root leafCount t).currentRoot = some root := by
  unfold recordHistoricalRoot
  dsimp only
  split_ifs <;> rfl

/-- Besides the current root only the buffer of roots changes. -/
theorem recordHistoricalRoot_frame :
    recordHistoricalRoot env root leafCount t = { t with
      currentRoot := (recordHistoricalRoot env root leafCount t).currentRoot
      rootRecords := (recordHistoricalRoot env root leafCount t).rootRecords
      rootBufferList := (recordHistoricalRoot env root leafCount t).rootBufferList } := by
  unfold recordHistoricalRoot
  dsimp only
  split_ifs <;> rfl

/-- What a successful insertion leaves in the store. -/
structure Inserted (sha256 : ByteString → Bytes32) (env : Env here) (t : DepositStore)
    (commitment : Bytes32) (t' : DepositStore) : Prop where
  wellFormed : DepositStore.WellFormed sha256 t'
  written : ∀ l < treeDepth,
    leftChild sha256 t' l = nextLeftChild sha256 t t.nextLeafIndex commitment l
  recorded : t' = recordHistoricalRoot env
    (pathHash sha256 t t.nextLeafIndex commitment treeDepth) (t.nextLeafIndex + 1)
    { t with
      nextLeafIndex := t.nextLeafIndex + 1
      zeroHashes := t'.zeroHashes
      packedSubtrees := t'.packedSubtrees }

@[simp] theorem recordHistoricalRoot_zeroHashes :
    (recordHistoricalRoot env root leafCount t).zeroHashes = t.zeroHashes := by
  rw [recordHistoricalRoot_frame]

@[simp] theorem recordHistoricalRoot_packedSubtrees :
    (recordHistoricalRoot env root leafCount t).packedSubtrees = t.packedSubtrees := by
  rw [recordHistoricalRoot_frame]

@[simp] theorem recordHistoricalRoot_nextLeafIndex :
    (recordHistoricalRoot env root leafCount t).nextLeafIndex = t.nextLeafIndex := by
  rw [recordHistoricalRoot_frame]

@[simp] theorem recordHistoricalRoot_nullifiers :
    (recordHistoricalRoot env root leafCount t).nullifiers = t.nullifiers := by
  rw [recordHistoricalRoot_frame]

theorem WellFormed.recordHistoricalRoot {sha256 : ByteString → Bytes32}
    (h : DepositStore.WellFormed sha256 t) :
    DepositStore.WellFormed sha256 (recordHistoricalRoot env root leafCount t) := by
  rw [recordHistoricalRoot_frame]
  exact ⟨h.zeros_cached, h.packed_length, h.started⟩

theorem leftChild_recordHistoricalRoot {sha256 : ByteString → Bytes32} (l : ℕ) :
    leftChild sha256 (recordHistoricalRoot env root leafCount t) l = leftChild sha256 t l := by
  rw [recordHistoricalRoot_frame]
  rfl

/-- An insertion with room left returns the next index and the root of its path. -/
theorem insertDeposit_spec {sha256 : ByteString → Bytes32} (ht : DepositStore.WellFormed sha256 t)
    (hroom : t.nextLeafIndex < 2 ^ treeDepth) (env : Env here) (commitment : Bytes32) :
    ∃ t', insertDeposit sha256 env commitment t = .ok ((t.nextLeafIndex,
        pathHash sha256 t t.nextLeafIndex commitment treeDepth), t') ∧
      Inserted sha256 env t commitment t' := by
  obtain ⟨t₁, hpath, h⟩ := insertLevels_spec ht commitment (le_refl treeDepth)
  have hframe : { t₁ with nextLeafIndex := t.nextLeafIndex + 1 } = { t with
      nextLeafIndex := t.nextLeafIndex + 1
      zeroHashes := t₁.zeroHashes
      packedSubtrees := t₁.packedSubtrees } := by
    rw [h.frame]
  refine ⟨recordHistoricalRoot env (pathHash sha256 t t.nextLeafIndex commitment treeDepth)
    (t.nextLeafIndex + 1) { t₁ with nextLeafIndex := t.nextLeafIndex + 1 }, ?_,
    WellFormed.recordHistoricalRoot ⟨h.zeros_cached, h.packed_length, fun hnone => ?_⟩,
    fun l hl => ?_, ?_⟩
  · rw [insertDeposit]
    simp only [failIf_of_not (Nat.not_le.mpr hroom), ok_bind, hpath]
    rfl
  · exact absurd (h.started hnone).2 (by decide)
  · rw [leftChild_recordHistoricalRoot]
    exact h.written l hl
  · rw [recordHistoricalRoot_zeroHashes, recordHistoricalRoot_packedSubtrees]
    exact congrArg (Zk.recordHistoricalRoot env _ _) hframe

end Recording

end StellarFlow.Zk
