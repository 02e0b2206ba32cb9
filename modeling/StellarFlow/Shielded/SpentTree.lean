import StellarFlow.Bytes
import StellarFlow.Foundation.Checked
import Mathlib.Data.Nat.Bitwise

/-!
# The tree of spent nullifiers

Every nullifier has a slot of its own in a tree of depth 256, which it takes when it is spent.
The contract keeps the root only. A spender shows with a path of siblings that the slot is
empty, and the same path gives the root with the slot taken. The verification of the proof
behind a withdrawal is a placeholder that rejects.
-/
namespace StellarFlow.Shielded

open Foundation

abbrev Nullifier := Bytes32

def spentTreeDepth : ℕ := 256

inductive SpendError
  | nullifierAlreadySpent
  | invalidProof
  | invalidMerkleProof
  deriving DecidableEq, Repr

/-- An empty slot. It is no nullifier. -/
def zeroNullifier : Nullifier := Vector.replicate 32 0

/-- The bits of a nullifier, counted from the end of its last byte. -/
def nullifierBit (nullifier : Nullifier) (level : ℕ) : Bool :=
  let byteIndex := 31 - level / 8
  have hindex : byteIndex < 32 := by omega
  let bitIndex := level % 8
  nullifier[byteIndex] &&& (1 <<< UInt8.ofNat bitIndex) ≠ 0

section Definitions

-- The hash function of the host.
variable (sha256 : ByteString → Bytes32)

def emptyRoot : Bytes32 :=
  (List.range spentTreeDepth).foldl (fun root _ => hashPair sha256 root root) zeroNullifier

/-- One level of the loop, for the empty and for the spent slot at once. -/
def climbLevel (nullifier : Nullifier) (path : List Bytes32) (roots : Bytes32 × Bytes32)
    (level : ℕ) : Except SpendError (Bytes32 × Bytes32) := do
  let sibling ← okOr path[level]? .invalidMerkleProof
  if nullifierBit nullifier level then
    pure (hashPair sha256 sibling roots.1, hashPair sha256 sibling roots.2)
  else pure (hashPair sha256 roots.1 sibling, hashPair sha256 roots.2 sibling)

/-- The root after the nullifier is spent, if its slot is empty below the current root. -/
def verifyUnspentAndComputeRoot (nullifier : Nullifier) (path : List Bytes32)
    (currentRoot : Bytes32) : Except SpendError Bytes32 := do
  failIf (nullifier = zeroNullifier) .invalidMerkleProof
  failIf (path.length ≠ spentTreeDepth) .invalidMerkleProof
  let (emptyRoot, spentRoot) ← (List.range spentTreeDepth).foldlM
    (climbLevel sha256 nullifier path) (zeroNullifier, nullifier)
  failIf (spentRoot = currentRoot) .nullifierAlreadySpent
  failIf (emptyRoot ≠ currentRoot) .invalidMerkleProof
  pure spentRoot

end Definitions

/-! ## The contract -/

/-- Any proof is rejected as long as no proof system is wired up. -/
def verifyZkProof (_proof : Vector UInt8 256) (_nullifier : Nullifier) (_publicInputs : Bytes32) :
    Bool := false

structure SpentStore where
  nullifiers : Finset Nullifier
  spentTreeRoot : Option Bytes32

section Contract

variable (sha256 : ByteString → Bytes32)

def SpentStore.root (s : SpentStore) : Bytes32 := s.spentTreeRoot.getD (emptyRoot sha256)

def verifyWithdrawal (nullifier : Nullifier) (proof : Vector UInt8 256) (publicInputs : Bytes32)
    (spentPath : List Bytes32) (s : SpentStore) : Except SpendError Bytes32 := do
  failIf (nullifier ∈ s.nullifiers) .nullifierAlreadySpent
  let updatedSpentRoot ← verifyUnspentAndComputeRoot sha256 nullifier spentPath (s.root sha256)
  failIf (verifyZkProof proof nullifier publicInputs = false) .invalidProof
  pure updatedSpentRoot

def withdraw (nullifier : Nullifier) (proof : Vector UInt8 256) (publicInputs : Bytes32)
    (spentPath : List Bytes32) (s : SpentStore) : Except SpendError SpentStore := do
  let updatedSpentRoot ← verifyWithdrawal sha256 nullifier proof publicInputs spentPath s
  pure ⟨insert nullifier s.nullifiers, some updatedSpentRoot⟩

/-- The contract fails closed. -/
theorem withdraw_ne_ok (nullifier : Nullifier) (proof : Vector UInt8 256) (publicInputs : Bytes32)
    (spentPath : List Bytes32) (s s' : SpentStore) :
    withdraw sha256 nullifier proof publicInputs spentPath s ≠ .ok s' := by
  intro h
  simp only [withdraw, verifyWithdrawal, verifyZkProof, bind_eq_ok, failIf_eq_ok] at h
  obtain ⟨_, ⟨_, _, _, _, _, hproof, _⟩, _⟩ := h
  exact hproof trivial

end Contract

/-! ## The tree over a set of nullifiers -/

/-- A nullifier as a number. -/
def slotOf (nullifier : Nullifier) : ℕ :=
  Nat.ofBits fun level : Fin spentTreeDepth => nullifierBit nullifier level

/-- The slots of the spent nullifiers hold them, and the others are empty. -/
def spentLeaf (spent : List Nullifier) (slot : ℕ) : Bytes32 :=
  (spent.find? fun nullifier => slotOf nullifier = slot).getD zeroNullifier

section Slots

theorem and_bit_ne_zero (byte : UInt8) {k : ℕ} (hk : k < 8) :
    byte &&& (1 <<< UInt8.ofNat k) ≠ 0 ↔ byte.toNat.testBit k = true := by
  have hall : ∀ b : Fin 256, ∀ k : Fin 8,
      UInt8.ofNat b.1 &&& (1 <<< UInt8.ofNat k.1) ≠ 0 ↔ b.1.testBit k.1 = true := by
    decide +kernel
  have hbyte := hall ⟨byte.toNat, byte.toNat_lt⟩ ⟨k, hk⟩
  rwa [UInt8.ofNat_toNat] at hbyte

/-- The bit of a byte, counted from the end. -/
theorem nullifierBit_eq (nullifier : Nullifier) {j k : ℕ} (hj : j < 32) (hk : k < 8) :
    nullifierBit nullifier ((31 - j) * 8 + k) = nullifier[j].toNat.testBit k := by
  have hbyte : 31 - ((31 - j) * 8 + k) / 8 = j := by omega
  have hbit : ((31 - j) * 8 + k) % 8 = k := by omega
  simp only [nullifierBit, hbyte, hbit]
  rw [Bool.eq_iff_iff, decide_eq_true_iff]
  exact and_bit_ne_zero _ hk

theorem testBit_slotOf (nullifier : Nullifier) {level : ℕ} (h : level < spentTreeDepth) :
    (slotOf nullifier).testBit level = nullifierBit nullifier level :=
  Nat.testBit_ofBits_lt _ level h

theorem slotOf_lt (nullifier : Nullifier) : slotOf nullifier < 2 ^ spentTreeDepth :=
  Nat.ofBits_lt_two_pow _

/-- Different nullifiers have different slots. -/
theorem slotOf_injective : Function.Injective slotOf := by
  intro m n h
  refine Vector.ext fun j hj => UInt8.toNat_inj.mp (Nat.eq_of_testBit_eq fun k => ?_)
  by_cases hk : k < 8
  · have hlevel : (31 - j) * 8 + k < spentTreeDepth := by
      unfold spentTreeDepth
      omega
    rw [← nullifierBit_eq m hj hk, ← nullifierBit_eq n hj hk, ← testBit_slotOf m hlevel, h,
      testBit_slotOf n hlevel]
  · have hpow : 2 ^ 8 ≤ 2 ^ k := Nat.pow_le_pow_right (by norm_num) (not_lt.mp hk)
    rw [Nat.testBit_lt_two_pow (lt_of_lt_of_le m[j].toNat_lt hpow),
      Nat.testBit_lt_two_pow (lt_of_lt_of_le n[j].toNat_lt hpow)]

theorem slotOf_div_mod (nullifier : Nullifier) {level : ℕ} (h : level < spentTreeDepth) :
    slotOf nullifier / 2 ^ level % 2 = 1 ↔ nullifierBit nullifier level = true := by
  rw [← testBit_slotOf nullifier h, Nat.testBit_eq_decide_div_mod_eq, decide_eq_true_iff]

variable {spent : List Nullifier} {nullifier : Nullifier}

theorem spentLeaf_slotOf (spent : List Nullifier) (nullifier : Nullifier) :
    spentLeaf spent (slotOf nullifier) =
      if nullifier ∈ spent then nullifier else zeroNullifier := by
  rw [spentLeaf]
  split_ifs with hmem
  · cases hfind : spent.find? fun n => slotOf n = slotOf nullifier with
    | none =>
      have hnone := List.find?_eq_none.mp hfind nullifier hmem
      simp at hnone
    | some n =>
      have hslot := List.find?_some hfind
      exact slotOf_injective (by simpa using hslot)
  · have hnone : (spent.find? fun n => slotOf n = slotOf nullifier) = none := by
      refine List.find?_eq_none.mpr fun n hn => ?_
      have hne : n ≠ nullifier := fun heq => hmem (heq ▸ hn)
      simpa using fun heq => hne (slotOf_injective heq)
    rw [hnone, Option.getD_none]

/-- A new nullifier fills its own slot only. -/
theorem spentLeaf_append_of_ne {slot : ℕ} (h : slot ≠ slotOf nullifier) :
    spentLeaf (spent ++ [nullifier]) slot = spentLeaf spent slot := by
  have hone : ([nullifier].find? fun n => slotOf n = slot) = none := by
    simpa using fun heq => h heq.symm
  rw [spentLeaf, List.find?_append, hone, Option.or_none, spentLeaf]

end Slots

section Roots

variable (sha256 : ByteString → Bytes32)

/-- The root of the tree in which exactly the given nullifiers are spent. -/
def spentRoot (spent : List Nullifier) : Bytes32 :=
  HashTree.node (hashPair sha256) (spentLeaf spent) spentTreeDepth 0

/-- The siblings of the slot of a nullifier in this tree. -/
def spentSiblings (spent : List Nullifier) (nullifier : Nullifier) : List Bytes32 :=
  HashTree.siblings (hashPair sha256) (spentLeaf spent) 0 spentTreeDepth (slotOf nullifier)

/-- The pairs of nodes that the tree and the verification of a path hash. -/
def hashedPairs (spent : List Nullifier) (nullifier : Nullifier) (path : List Bytes32) :
    Set (Bytes32 × Bytes32) :=
  {p | p ∈ HashTree.climbPairs (hashPair sha256) path (slotOf nullifier) zeroNullifier ∨
    p ∈ HashTree.climbPairs (hashPair sha256) path (slotOf nullifier) nullifier} ∪
    HashTree.treePairs (hashPair sha256) (spentLeaf spent) spentTreeDepth

variable {sha256} {spent : List Nullifier} {nullifier : Nullifier} {path : List Bytes32}

theorem emptyRoot_eq : emptyRoot sha256 = spentRoot sha256 [] := by
  have hfold (n : ℕ) : (List.range n).foldl (fun root _ => hashPair sha256 root root)
      zeroNullifier = HashTree.padding (hashPair sha256) zeroNullifier n := by
    induction n with
    | zero => rfl
    | succ n ih => rw [List.range_succ, List.foldl_append, ih]; rfl
  rw [emptyRoot, hfold, spentRoot]
  exact (HashTree.node_const (hashPair sha256) zeroNullifier spentTreeDepth 0).symm

/-- The loop climbs from both leaves along the path. -/
theorem foldlM_climbLevel (h : path.length ≤ spentTreeDepth) (x y : Bytes32) {n : ℕ}
    (hn : n ≤ path.length) :
    (List.range n).foldlM (climbLevel sha256 nullifier path) (x, y) =
      .ok (HashTree.climb (hashPair sha256) (path.take n) (slotOf nullifier) x,
        HashTree.climb (hashPair sha256) (path.take n) (slotOf nullifier) y) := by
  induction n with
  | zero => rfl
  | succ n ih =>
    have hget : path[n]? = some path[n] := List.getElem?_eq_getElem hn
    have hlength : (path.take n).length = n := List.length_take_of_le (by omega)
    rw [List.range_succ, List.foldlM_append, ih (by omega), List.take_succ_eq_append_getElem hn]
    simp only [HashTree.climb_concat, hlength, slotOf_div_mod nullifier (by omega : n < _)]
    simp only [ok_bind, List.foldlM_cons, List.foldlM_nil, climbLevel, hget, okOr_some]
    split_ifs <;> rfl

/-- Without collisions a leaf reaches the root exactly if it is in the slot and the path consists
of the siblings of the slot. -/
theorem climb_eq_spentRoot_iff (hlength : path.length = spentTreeDepth) {x : Bytes32}
    (hx : x = zeroNullifier ∨ x = nullifier)
    (hinj : Set.InjOn sha256 (Set.image pairBytes (hashedPairs sha256 spent nullifier path))) :
    HashTree.climb (hashPair sha256) path (slotOf nullifier) x = spentRoot sha256 spent ↔
      x = (if nullifier ∈ spent then nullifier else zeroNullifier) ∧
        path = spentSiblings sha256 spent nullifier := by
  have hsub : {p | p ∈ HashTree.climbPairs (hashPair sha256) path (slotOf nullifier) x} ∪
      HashTree.treePairs (hashPair sha256) (spentLeaf spent) spentTreeDepth ⊆
      hashedPairs sha256 spent nullifier path := by
    refine Set.union_subset_union_left _ fun p hp => ?_
    obtain rfl | rfl := hx
    · exact .inl hp
    · exact .inr hp
  rw [spentRoot, HashTree.climb_eq_root_iff hlength ((injOn_hashPair hinj).mono hsub),
    Nat.mod_eq_of_lt (slotOf_lt nullifier), spentLeaf_slotOf, spentSiblings]

/-- The siblings of an empty slot lead from the nullifier to the root with the slot taken. -/
theorem climb_spentSiblings :
    HashTree.climb (hashPair sha256) (spentSiblings sha256 spent nullifier) (slotOf nullifier)
      nullifier = spentRoot sha256 (spent ++ [nullifier]) := by
  have hleaf : HashTree.node (hashPair sha256) (spentLeaf (spent ++ [nullifier])) 0
      (slotOf nullifier) = nullifier := by
    rw [HashTree.node, spentLeaf_slotOf, if_pos (by simp)]
  have hclimb : HashTree.climb (hashPair sha256) _ (slotOf nullifier) _ = _ :=
    HashTree.climb_siblings (spentLeaf (spent ++ [nullifier])) 0 spentTreeDepth (slotOf nullifier)
  rw [hleaf, zero_add, Nat.div_eq_of_lt (slotOf_lt nullifier)] at hclimb
  rw [spentRoot, ← hclimb, spentSiblings,
    HashTree.siblings_congr fun slot hslot => (spentLeaf_append_of_ne hslot).symm]

/-- A path proves a slot empty or taken exactly if it consists of the siblings of the slot. Then
the nullifier is either spent already or it takes the slot. -/
theorem verifyUnspent_spentRoot
    (hinj : Set.InjOn sha256 (Set.image pairBytes (hashedPairs sha256 spent nullifier path))) :
    verifyUnspentAndComputeRoot sha256 nullifier path (spentRoot sha256 spent) =
      if nullifier = zeroNullifier ∨ path ≠ spentSiblings sha256 spent nullifier then
        .error .invalidMerkleProof
      else if nullifier ∈ spent then .error .nullifierAlreadySpent
      else .ok (spentRoot sha256 (spent ++ [nullifier])) := by
  rw [verifyUnspentAndComputeRoot]
  by_cases hn : nullifier = zeroNullifier
  · simp [hn, failIf, bind, Except.bind]
  by_cases hlength : path.length = spentTreeDepth
  · have hempty := climb_eq_spentRoot_iff hlength (.inl rfl) hinj
    have hspent := climb_eq_spentRoot_iff hlength (.inr rfl) hinj
    rw [failIf_of_not hn, failIf_of_not (not_not.mpr hlength), ok_bind, ok_bind,
      foldlM_climbLevel hlength.le _ _ hlength.ge, List.take_of_length_le hlength.le, ok_bind]
    by_cases hpath : path = spentSiblings sha256 spent nullifier
    · rw [if_neg (by simp [hn, hpath])]
      by_cases hmem : nullifier ∈ spent
      · rw [if_pos hmem] at hspent ⊢
        simp only [hspent.mpr ⟨rfl, hpath⟩, failIf, if_pos]
        rfl
      · rw [if_neg hmem] at hspent hempty ⊢
        simp only [failIf_of_not fun h => hn (hspent.mp h).1, hempty.mpr ⟨rfl, hpath⟩, ne_eq,
          not_true_eq_false, failIf_of_not not_false, ok_bind]
        rw [hpath, climb_spentSiblings]
        rfl
    · rw [if_pos (.inr hpath)]
      simp only [failIf_of_not fun h => hpath (hspent.mp h).2, ok_bind]
      rw [failIf, if_pos fun h => hpath (hempty.mp h).2]
      rfl
  · have hpath : path ≠ spentSiblings sha256 spent nullifier := by
      rintro rfl
      exact hlength (HashTree.siblings_length _ _ _)
    rw [failIf_of_not hn, ok_bind, if_pos (.inr hpath), failIf, if_pos hlength]
    rfl

end Roots

/-! ## Runs -/

section Runs

variable (sha256 : ByteString → Bytes32)

/-- Spend one nullifier after another, each against the root that the one before it left. -/
def spendAll (spends : List (Nullifier × List Bytes32)) (root : Bytes32) :
    Except SpendError Bytes32 :=
  spends.foldlM (fun root spend => verifyUnspentAndComputeRoot sha256 spend.1 spend.2 root) root

/-- Nullifiers that are new each time, with the siblings of their slots. -/
def SpendsInOrder : List Nullifier → List (Nullifier × List Bytes32) → Prop
  | _, [] => True
  | spent, (nullifier, path) :: spends =>
    (nullifier ≠ zeroNullifier ∧ nullifier ∉ spent ∧
      path = spentSiblings sha256 spent nullifier) ∧
      SpendsInOrder (spent ++ [nullifier]) spends

/-- The pairs of nodes that the verifications of a run hash. -/
def runPairs : List Nullifier → List (Nullifier × List Bytes32) → Set (Bytes32 × Bytes32)
  | _, [] => ∅
  | spent, (nullifier, path) :: spends =>
    hashedPairs sha256 spent nullifier path ∪ runPairs (spent ++ [nullifier]) spends

variable {sha256}

theorem spendAll_spentRoot (spends : List (Nullifier × List Bytes32)) {spent : List Nullifier}
    (hinj : Set.InjOn sha256 (Set.image pairBytes (runPairs sha256 spent spends)))
    (root : Bytes32) :
    spendAll sha256 spends (spentRoot sha256 spent) = .ok root ↔
      SpendsInOrder sha256 spent spends ∧
        root = spentRoot sha256 (spent ++ spends.map Prod.fst) := by
  induction spends generalizing spent with
  | nil => simp [spendAll, SpendsInOrder, pure, Except.pure, eq_comm]
  | cons spend spends ih =>
    obtain ⟨nullifier, path⟩ := spend
    have hfirst : Set.InjOn sha256
        (Set.image pairBytes (hashedPairs sha256 spent nullifier path)) :=
      hinj.mono (Set.image_mono Set.subset_union_left)
    have hrest : Set.InjOn sha256
        (Set.image pairBytes (runPairs sha256 (spent ++ [nullifier]) spends)) :=
      hinj.mono (Set.image_mono Set.subset_union_right)
    have hih := ih hrest
    rw [spendAll, List.foldlM_cons, verifyUnspent_spentRoot hfirst, SpendsInOrder, List.map_cons]
    by_cases hbad : nullifier = zeroNullifier ∨ path ≠ spentSiblings sha256 spent nullifier
    · rw [if_pos hbad]
      refine iff_of_false (by simp [bind, Except.bind]) ?_
      rintro ⟨⟨⟨hn, _, hpath⟩, _⟩, _⟩
      exact hbad.elim hn fun h => h hpath
    · rw [if_neg hbad]
      obtain ⟨hn, hpath⟩ := not_or.mp hbad
      by_cases hmem : nullifier ∈ spent
      · rw [if_pos hmem]
        refine iff_of_false (by simp [bind, Except.bind]) ?_
        rintro ⟨⟨⟨_, hnew, _⟩, _⟩, _⟩
        exact hnew hmem
      · rw [if_neg hmem, ok_bind]
        rw [List.append_assoc] at hih
        exact hih.trans (and_congr_left fun _ =>
          (and_iff_right ⟨hn, hmem, not_not.mp hpath⟩).symm)

/-- Without collisions a run of spends from the empty tree is accepted exactly if every nullifier
is new at its time and comes with the siblings of its slot, and it ends in the root of the tree
in which exactly the nullifiers of the run are spent. -/
theorem spendAll_refines (sha256 : ByteString → Bytes32)
    (spends : List (Nullifier × List Bytes32))
    (hinj : Set.InjOn sha256 (Set.image pairBytes (runPairs sha256 [] spends))) (root : Bytes32) :
    spendAll sha256 spends (emptyRoot sha256) = .ok root ↔
      SpendsInOrder sha256 [] spends ∧ root = spentRoot sha256 (spends.map Prod.fst) := by
  rw [emptyRoot_eq]
  exact spendAll_spentRoot spends hinj root

end Runs

/-! ## One spend -/

section Sample

/-- A hash function that raises the level and joins the marks of both nodes. -/
def joinHash (bytes : ByteString) : Bytes32 :=
  if bytes.length = 64 then sampleNode (bytes.getD 0 0 + 1) (bytes.getD 1 0 ||| bytes.getD 33 0)
  else sampleNode 0 0

@[simp] theorem hashPair_joinHash (l a l' b : UInt8) :
    hashPair joinHash (sampleNode l a) (sampleNode l' b) = sampleNode (l + 1) (a ||| b) := by
  have hget : ∀ i, (pairBytes (sampleNode l a, sampleNode l' b)).getD i 0 =
      if i < 32 then (sampleNode l a).toList.getD i 0
      else (sampleNode l' b).toList.getD (i - 32) 0 := by
    intro i
    rw [pairBytes]
    split_ifs with hi
    · exact List.getD_append _ _ _ _ (by simpa using hi)
    · rw [List.getD_append_right _ _ _ _ (by simpa using not_lt.mp hi)]
      simp
  rw [hashPair, joinHash, if_pos (by simp [pairBytes]), hget, hget, hget]
  simp [sampleNode, List.getD_eq_getElem?_getD]

def sampleNullifier : Nullifier := sampleNode 0 1

def samplePath : List Bytes32 :=
  (List.range spentTreeDepth).map fun l => sampleNode (.ofNat l) 0

/-- The pairs of one node of each level with an empty one, on the sides that the slot says. -/
def SamplePair (slot : ℕ) (p : Bytes32 × Bytes32) : Prop :=
  ∃ k < spentTreeDepth, ∃ a : UInt8, p =
    if slot / 2 ^ k % 2 = 1 then (sampleNode (.ofNat k) 0, sampleNode (.ofNat k) a)
    else (sampleNode (.ofNat k) a, sampleNode (.ofNat k) 0)

theorem injOn_joinHash (slot : ℕ) :
    Set.InjOn joinHash (Set.image pairBytes {p | SamplePair slot p}) := by
  have hhash : ∀ k a, joinHash (pairBytes
      (if slot / 2 ^ k % 2 = 1 then (sampleNode (.ofNat k) 0, sampleNode (.ofNat k) a)
        else (sampleNode (.ofNat k) a, sampleNode (.ofNat k) 0))) =
      sampleNode (.ofNat k + 1) a := by
    intro k a
    split_ifs
    · exact (hashPair_joinHash _ _ _ _).trans (by rw [UInt8.zero_or])
    · exact (hashPair_joinHash _ _ _ _).trans (by rw [UInt8.or_zero])
  rintro _ ⟨_, ⟨k, hk, a, rfl⟩, rfl⟩ _ ⟨_, ⟨k', hk', a', rfl⟩, rfl⟩ heq
  rw [hhash, hhash] at heq
  obtain ⟨hlevel, rfl⟩ := sampleNode_inj heq
  have hmod := congrArg UInt8.toNat ((UInt8.add_left_inj 1).mp hlevel)
  rw [UInt8.toNat_ofNat_of_lt' hk, UInt8.toNat_ofNat_of_lt' hk'] at hmod
  rw [hmod]

theorem sample_climbPairs (slot d : ℕ) {l : ℕ} (hd : l + d ≤ spentTreeDepth) (a : UInt8) :
    ∀ p ∈ HashTree.climbPairs (hashPair joinHash)
      ((List.range' l d).map fun l => sampleNode (.ofNat l) 0) (slot / 2 ^ l)
      (sampleNode (.ofNat l) a), SamplePair slot p := by
  induction d generalizing l with
  | zero => simp [HashTree.climbPairs]
  | succ d ih =>
    rw [List.range'_succ, List.map_cons, HashTree.climbPairs]
    refine List.forall_mem_cons.mpr ⟨⟨l, by omega, a, rfl⟩, ?_⟩
    have hnext : hashPair joinHash
        (if slot / 2 ^ l % 2 = 1 then (sampleNode (.ofNat l) 0, sampleNode (.ofNat l) a)
          else (sampleNode (.ofNat l) a, sampleNode (.ofNat l) 0)).1
        (if slot / 2 ^ l % 2 = 1 then (sampleNode (.ofNat l) 0, sampleNode (.ofNat l) a)
          else (sampleNode (.ofNat l) a, sampleNode (.ofNat l) 0)).2 =
        sampleNode (.ofNat (l + 1)) a := by
      split_ifs <;> simp [UInt8.ofNat_add]
    rw [hnext, Nat.div_div_eq_div_mul, ← pow_succ]
    exact ih (by omega)

theorem samplePath_climbPairs (slot : ℕ) (a : UInt8) :
    ∀ p ∈ HashTree.climbPairs (hashPair joinHash) samplePath slot (sampleNode 0 a),
      SamplePair slot p := by
  have hclimb := sample_climbPairs slot spentTreeDepth (Nat.zero_add _).le a
  rwa [pow_zero, Nat.div_one, ← List.range_eq_range'] at hclimb

theorem zeroNullifier_eq : zeroNullifier = sampleNode 0 0 := by decide +kernel

theorem sample_emptyNode (l i : ℕ) :
    HashTree.node (hashPair joinHash) (spentLeaf []) l i = sampleNode (.ofNat l) 0 := by
  induction l generalizing i with
  | zero => exact zeroNullifier_eq
  | succ l ih =>
    rw [HashTree.node, ih, ih, hashPair_joinHash, UInt8.ofNat_add]
    rfl

theorem sample_runPairs {p : Bytes32 × Bytes32}
    (hp : p ∈ runPairs joinHash [] [(sampleNullifier, samplePath)]) :
    SamplePair (slotOf sampleNullifier) p := by
  rw [runPairs, runPairs, Set.union_empty, hashedPairs, Set.mem_union, Set.mem_ofPred_eq,
    zeroNullifier_eq] at hp
  rcases hp with (hp | hp) | ⟨l, i, hle, rfl⟩
  · exact samplePath_climbPairs _ 0 p hp
  · exact samplePath_climbPairs _ 1 p hp
  · have hlevel : l < spentTreeDepth := by
      by_contra hge
      have hpow : 2 ^ spentTreeDepth < 2 ^ (l + 1) :=
        Nat.pow_lt_pow_right (by norm_num) (by omega)
      have hmul : 2 ^ (l + 1) ≤ (i + 1) * 2 ^ (l + 1) :=
        Nat.le_mul_of_pos_left _ (Nat.succ_pos i)
      exact absurd (hmul.trans hle) (not_le.mpr hpow)
    refine ⟨l, hlevel, 0, ?_⟩
    rw [sample_emptyNode, sample_emptyNode, ite_self]

/-- The first spend of the sample nullifier, with the path of an empty tree, is accepted. -/
theorem sampleSpend_accepted :
    spendAll joinHash [(sampleNullifier, samplePath)] (emptyRoot joinHash) =
      .ok (spentRoot joinHash [sampleNullifier]) := by
  refine (spendAll_refines joinHash [(sampleNullifier, samplePath)] ?_ _).mpr
    ⟨⟨⟨?_, List.not_mem_nil, ?_⟩, trivial⟩, rfl⟩
  · exact (injOn_joinHash (slotOf sampleNullifier)).mono (Set.image_mono fun p hp =>
      sample_runPairs hp)
  · decide +kernel
  · rw [samplePath, spentSiblings, HashTree.siblings]
    refine List.map_congr_left fun l _ => ?_
    rw [zero_add, sample_emptyNode]

end Sample

end StellarFlow.Shielded
