import StellarFlow.Foundation.HashBatch
import StellarFlow.Zk.Membership

/-!
# Batch insertion of deposits

A batch loads the stored left children into an array, inserts its commitments over the array and
writes it back. A right child takes its left sibling out of the array, although the next leaves
may need it again: they then read the hash of an empty subtree, and what is missing at the end is
not written back.
-/
namespace StellarFlow.Zk

open Foundation

def maxBatchSize : ℕ := 64

/-- The array of left children in memory. -/
abbrev Filled := ℕ → Option Bytes32

structure BatchInsertResult where
  firstLeafIndex : ℕ
  lastLeafIndex : ℕ
  count : ℕ
  newRoot : Bytes32
  deriving DecidableEq

section Model

variable (sha256 : ByteString → Bytes32)

/-- The loop of one insertion after the given number of levels. -/
def inMemoryLevels (leafIndex : ℕ) (commitment : Bytes32) (filled : Filled) (t : DepositStore) :
    ℕ → Bytes32 × ℕ × Filled × DepositStore
  | 0 => (commitment, leafIndex, filled, t)
  | level + 1 =>
    let (currentHash, currentIndex, filled, t) :=
      inMemoryLevels leafIndex commitment filled t level
    if currentIndex % 2 = 1 then
      let (leftSibling, t) := match filled level with
        | some hash => (hash, t)
        | none => getZeroHash sha256 level t
      (hashNodes sha256 leftSibling currentHash, currentIndex / 2,
        Function.update filled level none, t)
    else
      let (zero, t) := getZeroHash sha256 level t
      (hashNodes sha256 currentHash zero, currentIndex / 2,
        Function.update filled level (some currentHash), t)

def insertOneInMemory (commitment : Bytes32) (leafIndex : ℕ) (filled : Filled)
    (t : DepositStore) : Bytes32 × Filled × DepositStore :=
  let path := inMemoryLevels sha256 leafIndex commitment filled t treeDepth
  (path.1, path.2.2)

/-- The array after loading the given number of levels. -/
def loadFilled (t : DepositStore) : ℕ → Filled × DepositStore
  | 0 => (fun _ => none, t)
  | level + 1 =>
    let (filled, t) := loadFilled t level
    let (hash, t) := getPackedFilledSubtree sha256 level t
    (Function.update filled level (some hash), t)

/-- The loop of a batch after the given number of commitments. -/
def batchLoop (commitments : List Bytes32) (startIndex : ℕ) (filled : Filled)
    (t : DepositStore) : ℕ → Except Fault (Bytes32 × Filled × DepositStore)
  | 0 => pure (Vector.replicate 32 0, filled, t)
  | i + 1 => do
    let (_, filled, t) ← batchLoop commitments startIndex filled t i
    let commitment ← okOr commitments[i]? (Fault.error .overflow)
    pure (insertOneInMemory sha256 commitment (startIndex + i) filled t)

/-- The store after writing the given number of levels back. -/
def flushFilled (filled : Filled) (t : DepositStore) : ℕ → DepositStore
  | 0 => t
  | level + 1 =>
    let t := flushFilled filled t level
    match filled level with
    | some hash => setPackedFilledSubtree level hash t
    | none => t

def batchInsertDeposits {here : Address} (env : Env here) (commitments : List Bytes32)
    (t : DepositStore) : Except Fault (BatchInsertResult × DepositStore) := do
  let count := commitments.length
  failIf (count = 0) (Fault.error .amountTooLow)
  failIf (maxBatchSize < count) (Fault.error .overflow)
  let startIndex := t.nextLeafIndex
  let endIndex := startIndex + count
  failIf (2 ^ 32 ≤ endIndex) (Fault.error .overflow)
  failIf (2 ^ treeDepth < endIndex) (Fault.error .merkleTreeFull)
  let (filled, t) := loadFilled sha256 t treeDepth
  let (currentRoot, filled, t) ← batchLoop sha256 commitments startIndex filled t count
  let t := flushFilled filled t treeDepth
  pure (⟨startIndex, endIndex - 1, count, currentRoot⟩,
    recordHistoricalRoot env currentRoot endIndex { t with nextLeafIndex := endIndex })

/-- The hash that an insertion over the array computes at a level. -/
def inMemoryHash (filled : Filled) (leafIndex : ℕ) (commitment : Bytes32) (level : ℕ) : Bytes32 :=
  HashTree.rise (hashNodes sha256) (sha256 zeroLeafSeed)
    (HashTree.readHeld (hashNodes sha256) (sha256 zeroLeafSeed) filled) leafIndex commitment level

/-- The array after an insertion. -/
def nextFilled (filled : Filled) (leafIndex : ℕ) (commitment : Bytes32) : Filled :=
  HashTree.consume (hashNodes sha256) (sha256 zeroLeafSeed) filled leafIndex commitment

/-- The array in a batch, after the given number of commitments. -/
def filledAt (t : DepositStore) (commitments : List Bytes32) (k : ℕ) : Filled :=
  HashTree.heldAt (hashNodes sha256) (sha256 zeroLeafSeed) (leftChild sha256 t) t.nextLeafIndex
    (HashTree.leaves (sha256 zeroLeafSeed) commitments) k

/-- The root in a batch, after the given number of commitments. -/
def rootAt (t : DepositStore) (commitments : List Bytes32) : ℕ → Bytes32
  | 0 => Vector.replicate 32 0
  | k + 1 => inMemoryHash sha256 (filledAt sha256 t commitments k) (t.nextLeafIndex + k)
    (HashTree.leaves (sha256 zeroLeafSeed) commitments k) treeDepth

/-- The bytes of a level in the packed string, which starts out as zeros. -/
def storedChild (t : DepositStore) (level : ℕ) : Bytes32 :=
  packedAt (t.packedSubtrees.getD (List.replicate (treeDepth * 32) 0)) level

end Model

/-! ## What a batch computes -/

section Batch

variable {sha256 : ByteString → Bytes32} {t t' : DepositStore} {filled : Filled} {level : ℕ}

theorem loadFilled_spec (ht : DepositStore.WellFormed sha256 t) (hlevel : level ≤ treeDepth) :
    ∃ t', loadFilled sha256 t level =
        (fun l => if l < level then some (leftChild sha256 t l) else none, t') ∧
      CachesFrom sha256 t t' := by
  induction level with
  | zero => exact ⟨t, rfl, .refl ht.zeros_cached⟩
  | succ level ih =>
    obtain ⟨t₁, hload, hc⟩ := ih (by omega)
    obtain ⟨t₂, hget, hc'⟩ := getPackedFilledSubtree_spec hc.zeros_cached
      (hc.packed ▸ ht.packed_length) (show level < treeDepth by omega)
    refine ⟨t₂, ?_, hc.trans hc'⟩
    rw [loadFilled, hload]
    dsimp only
    rw [hget, hc.leftChild]
    refine congrArg (·, t₂) (funext fun l => ?_)
    rw [Function.update_apply]
    by_cases hl : l = level
    · subst hl
      rw [if_pos rfl, if_pos (Nat.lt_succ_self l)]
    · rw [if_neg hl]
      exact if_congr (by omega) rfl rfl

theorem inMemoryHash_succ (filled : Filled) (leafIndex : ℕ) (commitment : Bytes32) (level : ℕ) :
    inMemoryHash sha256 filled leafIndex commitment (level + 1) =
      if leafIndex / 2 ^ level % 2 = 0 then
        hashNodes sha256 (inMemoryHash sha256 filled leafIndex commitment level)
          (emptyNode sha256 level)
      else hashNodes sha256 ((filled level).getD (emptyNode sha256 level))
        (inMemoryHash sha256 filled leafIndex commitment level) := rfl

/-- One more level of the array. -/
theorem update_nextFilled (sha256 : ByteString → Bytes32) (filled : Filled) (leafIndex : ℕ)
    (commitment : Bytes32) (level : ℕ) :
    Function.update (fun l => if l < level then nextFilled sha256 filled leafIndex commitment l
      else filled l) level (nextFilled sha256 filled leafIndex commitment level) =
      fun l => if l < level + 1 then nextFilled sha256 filled leafIndex commitment l
        else filled l := by
  funext l
  rw [Function.update_apply]
  by_cases hl : l = level
  · subst hl
    rw [if_pos rfl, if_pos (Nat.lt_succ_self l)]
  · rw [if_neg hl]
    exact if_congr (by omega) rfl rfl

theorem inMemoryLevels_spec (leafIndex : ℕ) (commitment : Bytes32) (filled : Filled)
    (hz : HashTree.PaddingTable (hashNodes sha256) (sha256 zeroLeafSeed) t.zeroHashes)
    (level : ℕ) :
    ∃ t', inMemoryLevels sha256 leafIndex commitment filled t level =
        (inMemoryHash sha256 filled leafIndex commitment level, leafIndex / 2 ^ level,
          fun l => if l < level then nextFilled sha256 filled leafIndex commitment l
            else filled l, t') ∧
      CachesFrom sha256 t t' := by
  induction level with
  | zero =>
    refine ⟨t, ?_, .refl hz⟩
    rw [inMemoryLevels, pow_zero, Nat.div_one]
    rfl
  | succ level ih =>
    obtain ⟨t₁, hpath, hc⟩ := ih
    obtain ⟨t₂, hzero, hc'⟩ := getZeroHash_spec hc.zeros_cached level
    have hhalf : leafIndex / 2 ^ level / 2 = leafIndex / 2 ^ (level + 1) := by
      rw [Nat.div_div_eq_div_mul, ← pow_succ]
    have hfilled := update_nextFilled sha256 filled leafIndex commitment level
    rw [inMemoryLevels, hpath, inMemoryHash_succ, ← hfilled]
    dsimp only
    rw [if_neg (Nat.lt_irrefl level), hzero]
    by_cases hodd : leafIndex / 2 ^ level % 2 = 1
    · have hnext : nextFilled sha256 filled leafIndex commitment level = none :=
        if_neg (by omega)
      rw [if_pos hodd, if_neg (by omega), hnext, hhalf]
      cases hheld : filled level with
      | some hash => exact ⟨t₁, rfl, hc⟩
      | none => exact ⟨t₂, rfl, hc.trans hc'⟩
    · have hnext : nextFilled sha256 filled leafIndex commitment level =
          some (inMemoryHash sha256 filled leafIndex commitment level) := if_pos (by omega)
      rw [if_neg hodd, if_pos (by omega), hnext, hhalf]
      exact ⟨t₂, rfl, hc.trans hc'⟩

theorem inMemoryHash_congr {filled' : Filled} (h : ∀ l < treeDepth, filled l = filled' l)
    (leafIndex : ℕ) (commitment : Bytes32) :
    inMemoryHash sha256 filled leafIndex commitment treeDepth =
      inMemoryHash sha256 filled' leafIndex commitment treeDepth :=
  HashTree.rise_congr fun l hl _ => by rw [HashTree.readHeld, HashTree.readHeld, h l hl]

theorem batchLoop_spec {commitments : List Bytes32} (hc : CachesFrom sha256 t t') (filled : Filled)
    (hfilled : ∀ l < treeDepth, filled l = some (leftChild sha256 t l)) {k : ℕ}
    (hk : k ≤ commitments.length) :
    ∃ filled' t'', batchLoop sha256 commitments t.nextLeafIndex filled t' k =
        .ok (rootAt sha256 t commitments k, filled', t'') ∧ CachesFrom sha256 t t'' ∧
      ∀ l < treeDepth, filled' l = filledAt sha256 t commitments k l := by
  induction k with
  | zero => exact ⟨filled, t', rfl, hc, hfilled⟩
  | succ k ih =>
    obtain ⟨filled₁, t₁, hloop, hc₁, hfilled₁⟩ := ih (by omega)
    obtain ⟨t₂, hpath, hc₂⟩ := inMemoryLevels_spec (t.nextLeafIndex + k)
      (HashTree.leaves (sha256 zeroLeafSeed) commitments k) filled₁ hc₁.zeros_cached treeDepth
    have hleaf : commitments[k]? = some (HashTree.leaves (sha256 zeroLeafSeed) commitments k) := by
      rw [HashTree.leaves, List.getD_eq_getElem _ _ hk, List.getElem?_eq_getElem hk]
    refine ⟨fun l => if l < treeDepth then nextFilled sha256 filled₁ (t.nextLeafIndex + k)
      (HashTree.leaves (sha256 zeroLeafSeed) commitments k) l else filled₁ l, t₂, ?_,
      hc₁.trans hc₂, fun l hl => ?_⟩
    · rw [batchLoop, hloop]
      simp only [ok_bind, hleaf, okOr_some, insertOneInMemory, hpath, pure_eq_ok]
      rw [rootAt, inMemoryHash_congr hfilled₁]
    · exact (if_pos hl).trans (HashTree.consume_congr hfilled₁ _ hl)

/-- Writing the array back replaces what it holds. -/
structure Flushed (filled : Filled) (t : DepositStore) (level : ℕ) (t' : DepositStore) : Prop where
  frame : t' = { t with packedSubtrees := t'.packedSubtrees }
  packed_length : ∀ packed, t'.packedSubtrees = some packed → packed.length = treeDepth * 32
  none_iff : t'.packedSubtrees = none ↔
    t.packedSubtrees = none ∧ ∀ l < level, filled l = none
  stored : ∀ l < treeDepth, storedChild t' l =
    if l < level then (filled l).getD (storedChild t l) else storedChild t l

theorem packed_length_set (level : ℕ) (hash : Bytes32)
    (hlength : ∀ packed, t.packedSubtrees = some packed → packed.length = treeDepth * 32) :
    (t.packedSubtrees.getD (List.replicate (treeDepth * 32) 0)).length = treeDepth * 32 ∧
      ∀ packed, (setPackedFilledSubtree level hash t).packedSubtrees = some packed →
        packed.length = treeDepth * 32 := by
  have hold : (t.packedSubtrees.getD (List.replicate (treeDepth * 32) 0)).length =
      treeDepth * 32 := by
    cases hpacked : t.packedSubtrees with
    | none => simp
    | some packed => exact hlength packed hpacked
  refine ⟨hold, fun packed hpacked => ?_⟩
  obtain rfl := Option.some.inj hpacked
  rw [packedWith_length, hold]

theorem flushFilled_spec (filled : Filled)
    (hlength : ∀ packed, t.packedSubtrees = some packed → packed.length = treeDepth * 32)
    (level : ℕ) : Flushed filled t level (flushFilled filled t level) := by
  induction level with
  | zero => exact ⟨rfl, hlength, by simp [flushFilled], fun l _ => rfl⟩
  | succ level ih =>
    rw [flushFilled]
    cases hheld : filled level with
    | none =>
      refine ⟨ih.frame, ih.packed_length, ih.none_iff.trans ?_, fun l hl => ?_⟩
      · rw [Nat.forall_lt_succ_right, hheld, eq_self, and_true]
      · rw [ih.stored l hl]
        obtain hlt | rfl | hgt := lt_trichotomy l level
        · rw [if_pos hlt, if_pos (hlt.trans (Nat.lt_succ_self _))]
        · rw [if_neg (lt_irrefl l), if_pos (Nat.lt_succ_self l), hheld, Option.getD_none]
        · rw [if_neg hgt.not_gt, if_neg (by omega)]
    | some hash =>
      obtain ⟨hold, hnew⟩ := packed_length_set level hash ih.packed_length
      refine ⟨?_, hnew, ?_, fun l hl => ?_⟩
      · dsimp only
        rw [setPackedFilledSubtree, ih.frame]
      · refine iff_of_false (fun h => by cases h) fun h => ?_
        rw [h.2 level (Nat.lt_succ_self level)] at hheld
        cases hheld
      · change packedAt (packedWith _ level hash) l = _
        rw [packedAt_packedWith hold hl]
        obtain hlt | rfl | hgt := lt_trichotomy l level
        · rw [if_neg hlt.ne, if_pos (hlt.trans (Nat.lt_succ_self _))]
          exact (ih.stored l hl).trans (if_pos hlt)
        · rw [if_pos rfl, if_pos (Nat.lt_succ_self l), hheld, Option.getD_some]
        · rw [if_neg hgt.ne', if_neg (by omega)]
          exact (ih.stored l hl).trans (if_neg hgt.not_gt)

/-- What a successful batch returns and leaves in the store. -/
structure BatchInserted {here : Address} (sha256 : ByteString → Bytes32) (env : Env here)
    (t : DepositStore) (commitments : List Bytes32) (result : BatchInsertResult)
    (t' : DepositStore) : Prop where
  result_eq : result = ⟨t.nextLeafIndex, t.nextLeafIndex + commitments.length - 1,
    commitments.length, rootAt sha256 t commitments commitments.length⟩
  wellFormed : DepositStore.WellFormed sha256 t'
  nextLeafIndex_eq : t'.nextLeafIndex = t.nextLeafIndex + commitments.length
  currentRoot_eq : t'.currentRoot = some (rootAt sha256 t commitments commitments.length)
  stored : ∀ l < treeDepth, leftChild sha256 t' l =
    (filledAt sha256 t commitments commitments.length l).getD (storedChild t l)

theorem leftChild_eq_storedChild (h : t.packedSubtrees ≠ none) (l : ℕ) :
    leftChild sha256 t l = storedChild t l := by
  rw [leftChild, storedChild]
  cases hpacked : t.packedSubtrees with
  | none => exact absurd hpacked h
  | some packed => rfl

/-- The batch in the array ends below the top of the tree, so a first batch writes the string. -/
theorem filledAt_top (sha256 : ByteString → Bytes32) (commitments : List Bytes32)
    (hnone : t.nextLeafIndex = 0) {k : ℕ} (hk : k + 1 ≤ maxBatchSize) :
    filledAt sha256 t commitments (k + 1) 19 ≠ none := by
  have htop : (t.nextLeafIndex + k) / 2 ^ 19 = 0 := by
    rw [hnone]
    exact Nat.div_eq_of_lt (lt_of_lt_of_le (show 0 + k < 64 by unfold maxBatchSize at hk; omega)
      (by norm_num))
  rw [filledAt, HashTree.heldAt, HashTree.consume, if_pos (by rw [htop])]
  exact Option.some_ne_none _

theorem batchInsertDeposits_spec {here : Address} (ht : DepositStore.WellFormed sha256 t)
    (env : Env here) (commitments : List Bytes32) (hpos : 1 ≤ commitments.length)
    (hmax : commitments.length ≤ maxBatchSize)
    (hroom : t.nextLeafIndex + commitments.length ≤ 2 ^ treeDepth) :
    ∃ result t', batchInsertDeposits sha256 env commitments t = .ok (result, t') ∧
      BatchInserted sha256 env t commitments result t' := by
  obtain ⟨t₁, hload, hc₁⟩ := loadFilled_spec ht (le_refl treeDepth)
  obtain ⟨filled, t₂, hloop, hc₂, hfilled⟩ := batchLoop_spec hc₁
    (fun l => if l < treeDepth then some (leftChild sha256 t l) else none)
    (fun l hl => if_pos hl) (le_refl commitments.length)
  obtain ⟨t₃, hflushed, hflush⟩ : ∃ t₃, flushFilled filled t₂ treeDepth = t₃ ∧
      Flushed filled t₂ treeDepth t₃ :=
    ⟨_, rfl, flushFilled_spec filled (hc₂.packed ▸ ht.packed_length) treeDepth⟩
  have hsome : t₃.packedSubtrees ≠ none := by
    intro hnone
    obtain ⟨hold, hheld⟩ := hflush.none_iff.mp hnone
    obtain ⟨k, hk⟩ := Nat.exists_eq_add_of_le' hpos
    have htop := filledAt_top sha256 commitments
      (ht.started (hc₂.packed ▸ hold)) (hk ▸ hmax)
    rw [← hk, ← hfilled 19 (by decide)] at htop
    exact htop (hheld 19 (by decide))
  have hsmall : ¬ 2 ^ 32 ≤ t.nextLeafIndex + commitments.length :=
    Nat.not_le.mpr (hroom.trans_lt (by decide))
  refine ⟨⟨t.nextLeafIndex, t.nextLeafIndex + commitments.length - 1, commitments.length,
      rootAt sha256 t commitments commitments.length⟩,
    recordHistoricalRoot env (rootAt sha256 t commitments commitments.length)
      (t.nextLeafIndex + commitments.length)
      { t₃ with nextLeafIndex := t.nextLeafIndex + commitments.length }, ?_, rfl,
    WellFormed.recordHistoricalRoot ⟨?_, hflush.packed_length, fun hnone => absurd hnone hsome⟩,
    recordHistoricalRoot_nextLeafIndex, recordHistoricalRoot_currentRoot, fun l hl => ?_⟩
  · rw [batchInsertDeposits]
    simp only [failIf_of_not (show ¬ commitments.length = 0 by omega),
      failIf_of_not (Nat.not_lt.mpr hmax), failIf_of_not hsmall,
      failIf_of_not (Nat.not_lt.mpr hroom), ok_bind, hload, hloop, hflushed]
    rfl
  · rw [hflush.frame]
    exact hc₂.zeros_cached
  · rw [leftChild_recordHistoricalRoot]
    calc leftChild sha256 { t₃ with nextLeafIndex := t.nextLeafIndex + commitments.length } l
        = storedChild t₃ l := leftChild_eq_storedChild hsome l
      _ = (filled l).getD (storedChild t₂ l) := (hflush.stored l hl).trans (if_pos hl)
      _ = _ := by rw [hfilled l hl, storedChild, hc₂.packed, storedChild]

theorem batchInsertDeposits_fits {here : Address} {env : Env here} {commitments : List Bytes32}
    {r : BatchInsertResult × DepositStore}
    (h : batchInsertDeposits sha256 env commitments t = .ok r) :
    1 ≤ commitments.length ∧ commitments.length ≤ maxBatchSize ∧
      t.nextLeafIndex + commitments.length ≤ 2 ^ treeDepth := by
  rw [batchInsertDeposits] at h
  obtain ⟨_, hpos, h⟩ := bind_eq_ok.mp h
  obtain ⟨_, hmax, h⟩ := bind_eq_ok.mp h
  obtain ⟨_, -, h⟩ := bind_eq_ok.mp h
  obtain ⟨_, hroom, -⟩ := bind_eq_ok.mp h
  rw [failIf_eq_ok] at hpos hmax hroom
  exact ⟨Nat.one_le_iff_ne_zero.mpr hpos, not_lt.mp hmax, not_lt.mp hroom⟩

end Batch

end StellarFlow.Zk
