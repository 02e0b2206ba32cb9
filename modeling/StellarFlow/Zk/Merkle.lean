import StellarFlow.Bytes
import StellarFlow.Host

/-!
# The tree of anonymous deposits

The tree keeps for each level the last left child, all of them packed into one byte string. An
insertion climbs from the new leaf: at a left child it stores its hash and pairs it with an empty
subtree, at a right child it pairs it with the stored left child. New roots go into a buffer of
bounded length. A withdrawal names a root of the buffer, a nullifier that has not been used and a
leaf with a path to the root.
-/
namespace StellarFlow.Zk

open Foundation

def treeDepth : ℕ := 20
def rootBufferCapacity : ℕ := 32
def defaultRootValidityDuration : ℕ := 7 * 24 * 60 * 60

structure RootRecord where
  root : Bytes32
  insertedAt : ℕ
  sequence : ℕ
  leafCount : ℕ
  deriving DecidableEq

/-- The persistent entries of the tree and of the nullifiers. -/
structure DepositStore where
  currentRoot : Option Bytes32
  nextLeafIndex : ℕ
  /-- Left children by level, as an earlier version stored them. -/
  filledSubtrees : Store ℕ Bytes32
  zeroHashes : Store ℕ Bytes32
  rootRecords : Store Bytes32 RootRecord
  rootBufferList : List Bytes32
  rootValidityWindow : Option ℕ
  packedSubtrees : Option ByteString
  /-- Time at which each nullifier was used. -/
  nullifiers : Store Bytes32 ℕ

def DepositStore.empty : DepositStore := ⟨none, 0, ∅, ∅, ∅, [], none, none, ∅⟩

/-- The text `stellarflow:anonymity:zero_leaf`. -/
def zeroLeafSeed : ByteString :=
  [115, 116, 101, 108, 108, 97, 114, 102, 108, 111, 119, 58, 97, 110, 111, 110, 121, 109, 105, 116,
    121, 58, 122, 101, 114, 111, 95, 108, 101, 97, 102]

-- The hash function of the host.
variable (sha256 : ByteString → Bytes32)

def hashNodes (left right : Bytes32) : Bytes32 := hashPair sha256 left right

def getZeroHash (level : ℕ) (t : DepositStore) : Bytes32 × DepositStore :=
  let (zero, zeroHashes) :=
    HashTree.cachedPadding (hashNodes sha256) (sha256 zeroLeafSeed) level t.zeroHashes
  (zero, { t with zeroHashes })

/-! ## Stored left children -/

/-- The 32 bytes of a level. -/
def packedAt (packed : ByteString) (level : ℕ) : Bytes32 :=
  Vector.ofFn fun i => packed.getD (level * 32 + i.1) 0

/-- The byte string with the 32 bytes of one level replaced. -/
def packedWith (packed : ByteString) (level : ℕ) (hash : Bytes32) : ByteString :=
  (List.range packed.length).map fun i =>
    if level * 32 ≤ i ∧ i < level * 32 + 32 then hash.toList.getD (i - level * 32) 0
    else packed.getD i 0

def legacyFilledSubtree (level : ℕ) (t : DepositStore) : Bytes32 × DepositStore :=
  match t.filledSubtrees.lookup level with
  | some hash => (hash, t)
  | none => getZeroHash sha256 level t

def getPackedFilledSubtree (level : ℕ) (t : DepositStore) : Bytes32 × DepositStore :=
  match t.packedSubtrees with
  | some packed =>
    if level * 32 + 32 ≤ packed.length then (packedAt packed level, t)
    else legacyFilledSubtree sha256 level t
  | none => legacyFilledSubtree sha256 level t

def setPackedFilledSubtree (level : ℕ) (hash : Bytes32) (t : DepositStore) : DepositStore :=
  let packed := t.packedSubtrees.getD (List.replicate (treeDepth * 32) 0)
  { t with packedSubtrees := some (packedWith packed level hash) }

/-! ## Roots -/

section Calls

variable {here : Address} (env : Env here)

def recordHistoricalRoot (root : Bytes32) (leafCount : ℕ) (t : DepositStore) : DepositStore :=
  let record : RootRecord := ⟨root, env.timestamp, env.sequence, leafCount⟩
  let records := t.rootRecords.insert root record
  let rootList := t.rootBufferList ++ [root]
  if rootBufferCapacity < rootList.length then
    { t with
      currentRoot := some root
      rootRecords := records.erase (rootList.headD root)
      rootBufferList := rootList.drop 1 }
  else { t with currentRoot := some root, rootRecords := records, rootBufferList := rootList }

def validateRoot (root : Bytes32) (t : DepositStore) : Except Fault RootRecord := do
  let record ← okOr (t.rootRecords.lookup root) (Fault.error .invalidMerkleProof)
  let window := t.rootValidityWindow.getD defaultRootValidityDuration
  -- The sum saturates.
  failIf (0 < window ∧ min (record.insertedAt + window) (2 ^ 64 - 1) < env.timestamp)
    (Fault.error .invalidMerkleProof)
  pure record

/-! ## Insertion -/

/-- The loop of an insertion after the given number of levels, with its hash and its index. -/
def insertLevels (leafIndex : ℕ) (commitment : Bytes32) (t : DepositStore) :
    ℕ → Bytes32 × ℕ × DepositStore
  | 0 => (commitment, leafIndex, t)
  | level + 1 =>
    let (currentHash, currentIndex, t) := insertLevels leafIndex commitment t level
    if currentIndex % 2 = 1 then
      let (leftSibling, t) := getPackedFilledSubtree sha256 level t
      (hashNodes sha256 leftSibling currentHash, currentIndex / 2, t)
    else
      let (zero, t) := getZeroHash sha256 level (setPackedFilledSubtree level currentHash t)
      (hashNodes sha256 currentHash zero, currentIndex / 2, t)

def insertDeposit (commitment : Bytes32) (t : DepositStore) :
    Except Fault ((ℕ × Bytes32) × DepositStore) := do
  let nextIndex := t.nextLeafIndex
  failIf (2 ^ treeDepth ≤ nextIndex) (Fault.error .capacityExceeded)
  let path := insertLevels sha256 nextIndex commitment t treeDepth
  let newLeafCount := nextIndex + 1
  pure ((nextIndex, path.1), recordHistoricalRoot env path.1 newLeafCount
    { path.2.2 with nextLeafIndex := newLeafCount })

/-! ## Withdrawal -/

def verifyMerkleProof (leaf : Bytes32) (path : List Bytes32) (leafIndex : ℕ) (root : Bytes32) :
    Bool :=
  if path.length ≠ treeDepth then false
  else HashTree.climb (hashNodes sha256) path leafIndex leaf = root

def isNullifierUsed (nullifier : Bytes32) (t : DepositStore) : Bool :=
  (t.nullifiers.lookup nullifier).isSome

def registerNullifier (nullifier : Bytes32) (t : DepositStore) : Except Fault DepositStore := do
  failIf (isNullifierUsed nullifier t) (Fault.error .nullifierAlreadyUsed)
  pure { t with nullifiers := t.nullifiers.insert nullifier env.timestamp }

structure WithdrawalProof where
  root : Bytes32
  nullifier : Bytes32
  leaf : Bytes32
  path : List Bytes32
  leafIndex : ℕ
  deriving DecidableEq

def verifyWithdrawalAndSpend (w : WithdrawalProof) (t : DepositStore) :
    Except Fault DepositStore := do
  let _ ← validateRoot env w.root t
  failIf (isNullifierUsed w.nullifier t) (Fault.error .nullifierAlreadyUsed)
  failIf (¬ verifyMerkleProof sha256 w.leaf w.path w.leafIndex w.root)
    (Fault.error .invalidMerkleProof)
  registerNullifier env w.nullifier t

end Calls

end StellarFlow.Zk
