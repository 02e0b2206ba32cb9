import StellarFlow.Foundation.Transaction
import StellarFlow.Zk.BatchInsert

/-!
# Batches against single insertions

A batch that fits does what single insertions do exactly if the left siblings that two of its
commitments need are empty and those that its last commitment and the next insertion need are
stored already. One commitment always meets this, and two do in an empty tree.
-/
namespace StellarFlow.Zk

open Foundation

section Comparison

variable (sha256 : ByteString → Bytes32) {here : Address}

/-- The left sibling of a level that the tree remembers in a batch, after the given number of
commitments. -/
def siblingAt (t : DepositStore) (commitments : List Bytes32) (k level : ℕ) : Bytes32 :=
  HashTree.slotsAt (hashNodes sha256) (sha256 zeroLeafSeed) (leftChild sha256 t) t.nextLeafIndex
    (HashTree.leaves (sha256 zeroLeafSeed) commitments) k level

/-- The left child of a level that a batch leaves behind. -/
def flushedChild (t : DepositStore) (commitments : List Bytes32) (level : ℕ) : Bytes32 :=
  (filledAt sha256 t commitments commitments.length level).getD (storedChild t level)

/-- The batch does what single insertions do: it returns and records the same root and the same
indices, and all later insertions return the same. -/
def BatchAgrees (env : Env here) (calls : List (Env here × Bytes32)) (t : DepositStore) : Prop :=
  ∃ result t₁ results t₂,
    batchInsertDeposits sha256 env (calls.map Prod.snd) t = .ok (result, t₁) ∧
    insertDeposits sha256 calls t = .ok (results, t₂) ∧
    results.head?.map Prod.fst = some result.firstLeafIndex ∧
    results.getLast? = some (result.lastLeafIndex, result.newRoot) ∧
    t₁.nextLeafIndex = t₂.nextLeafIndex ∧ t₁.currentRoot = t₂.currentRoot ∧
    ∀ later : List (Env here × Bytes32),
      Prod.fst <$> insertDeposits sha256 later t₁ = Prod.fst <$> insertDeposits sha256 later t₂

/-- Left siblings that two commitments of the batch need are empty, and those that its last
commitment and the next insertion need are stored already. -/
structure Unharmed (t : DepositStore) (commitments : List Bytes32) : Prop where
  reads_empty : ∀ k < commitments.length, 0 < k → ∀ l < treeDepth,
    (t.nextLeafIndex + k) / 2 ^ l % 2 = 1 →
    (t.nextLeafIndex + k) / 2 ^ l = (t.nextLeafIndex + k - 1) / 2 ^ l →
    siblingAt sha256 t commitments k l = emptyNode sha256 l
  keeps_stored : ∀ l < treeDepth,
    (t.nextLeafIndex + commitments.length) / 2 ^ l % 2 = 1 →
    (t.nextLeafIndex + commitments.length) / 2 ^ l =
      (t.nextLeafIndex + commitments.length - 1) / 2 ^ l →
    siblingAt sha256 t commitments commitments.length l = storedChild t l

/-- The pairs that the batch and the single insertions hash, and an empty leaf after either. -/
def comparedPairs (t : DepositStore) (commitments : List Bytes32) : Set (Bytes32 × Bytes32) :=
  HashTree.batchPairs (hashNodes sha256) (sha256 zeroLeafSeed) treeDepth (leftChild sha256 t)
      t.nextLeafIndex (HashTree.leaves (sha256 zeroLeafSeed) commitments) commitments.length ∪
    (HashTree.risePairs (hashNodes sha256) (sha256 zeroLeafSeed)
        (siblingAt sha256 t commitments commitments.length)
        (t.nextLeafIndex + commitments.length) (sha256 zeroLeafSeed) treeDepth ∪
      HashTree.risePairs (hashNodes sha256) (sha256 zeroLeafSeed)
        (flushedChild sha256 t commitments)
        (t.nextLeafIndex + commitments.length) (sha256 zeroLeafSeed) treeDepth)

end Comparison

section Later

variable {sha256 : ByteString → Bytes32} {here : Address} {t t₁ t₂ : DepositStore}
  {commitments : List Bytes32}

/-- The root that a run of single insertions computes after the given number of commitments. -/
def runRoot (sha256 : ByteString → Bytes32) (slot : ℕ → Bytes32) (start : ℕ)
    (commitments : List Bytes32) (k : ℕ) : Bytes32 :=
  HashTree.rise (hashNodes sha256) (sha256 zeroLeafSeed)
    (HashTree.slotsAt (hashNodes sha256) (sha256 zeroLeafSeed) slot start
      (HashTree.leaves (sha256 zeroLeafSeed) commitments) k) (start + k)
    (HashTree.leaves (sha256 zeroLeafSeed) commitments k) treeDepth

/-- What a run of single insertions leaves in the store. -/
structure RunInserted (sha256 : ByteString → Bytes32) (t : DepositStore)
    (commitments : List Bytes32) (slot : ℕ → Bytes32) (t' : DepositStore) : Prop where
  wellFormed : DepositStore.WellFormed sha256 t'
  nextLeafIndex_eq : t'.nextLeafIndex = t.nextLeafIndex + commitments.length
  siblings : HashTree.AgreeAt treeDepth (HashTree.slotsAt (hashNodes sha256)
    (sha256 zeroLeafSeed) slot t.nextLeafIndex (HashTree.leaves (sha256 zeroLeafSeed) commitments)
    commitments.length) (leftChild sha256 t') (t.nextLeafIndex + commitments.length)

theorem Inserted.agreeAt {env : Env here} {commitment : Bytes32} {slot : ℕ → Bytes32}
    (h : Inserted sha256 env t commitment t₁)
    (hagree : HashTree.AgreeAt treeDepth slot (leftChild sha256 t) t.nextLeafIndex) :
    HashTree.AgreeAt treeDepth (HashTree.remember (hashNodes sha256) (sha256 zeroLeafSeed) slot
      t.nextLeafIndex commitment) (leftChild sha256 t₁) (t.nextLeafIndex + 1) := by
  intro l hl hodd
  rw [h.written l hl, nextLeftChild]
  exact hagree.remember commitment l hl hodd

theorem Inserted.nextLeafIndex_eq {env : Env here} {commitment : Bytes32}
    (h : Inserted sha256 env t commitment t₁) : t₁.nextLeafIndex = t.nextLeafIndex + 1 := by
  rw [h.recorded, recordHistoricalRoot_nextLeafIndex]

theorem runRoot_cons (slot : ℕ → Bytes32) (start : ℕ) (commitment : Bytes32)
    (commitments : List Bytes32) (k : ℕ) :
    runRoot sha256 slot start (commitment :: commitments) (k + 1) =
      runRoot sha256 (HashTree.remember (hashNodes sha256) (sha256 zeroLeafSeed) slot start
        commitment) (start + 1) commitments k := by
  have hslots := HashTree.slotsAt_succ (hashNodes sha256) (sha256 zeroLeafSeed) slot start
    (HashTree.leaves (sha256 zeroLeafSeed) (commitment :: commitments)) k
  rw [runRoot, runRoot, ← hslots, show start + (k + 1) = start + 1 + k by omega]
  rfl

theorem insertDeposits_run (ht : DepositStore.WellFormed sha256 t)
    (calls : List (Env here × Bytes32)) (hroom : t.nextLeafIndex + calls.length ≤ 2 ^ treeDepth)
    {slot : ℕ → Bytes32}
    (hagree : HashTree.AgreeAt treeDepth slot (leftChild sha256 t) t.nextLeafIndex) :
    ∃ t', insertDeposits sha256 calls t = .ok ((List.range calls.length).map fun k =>
        (t.nextLeafIndex + k, runRoot sha256 slot t.nextLeafIndex (calls.map Prod.snd) k), t') ∧
      RunInserted sha256 t (calls.map Prod.snd) slot t' ∧
      ∀ n, calls.length = n + 1 →
        t'.currentRoot = some (runRoot sha256 slot t.nextLeafIndex (calls.map Prod.snd) n) := by
  induction calls generalizing t slot with
  | nil => exact ⟨t, rfl, ⟨ht, rfl, hagree⟩, fun n hn => by cases hn⟩
  | cons call calls ih =>
    obtain ⟨env, commitment⟩ := call
    rw [List.length_cons] at hroom
    obtain ⟨t₁, hinsert, hi⟩ := insertDeposit_spec ht (by omega) env commitment
    obtain ⟨t₂, hrest, hrun, hcurrent⟩ := ih hi.wellFormed
      (by rw [hi.nextLeafIndex_eq]; omega) (hi.nextLeafIndex_eq ▸ hi.agreeAt hagree)
    have hroot : pathHash sha256 t t.nextLeafIndex commitment treeDepth =
        runRoot sha256 slot t.nextLeafIndex (commitment :: calls.map Prod.snd) 0 :=
      (hagree.rise_eq commitment le_rfl).symm
    rw [hi.nextLeafIndex_eq] at hrest hcurrent
    refine ⟨t₂, ?_, ⟨hrun.wellFormed, ?_, ?_⟩, fun n hn => ?_⟩
    · simp only [insertDeposits, hinsert, ok_bind, hrest, pure_eq_ok, hroot, Prod.mk.injEq,
        and_true]
      rw [List.length_cons, List.range_succ_eq_map, List.map_cons, List.map_map]
      congr 1
      refine List.map_congr_left fun k _ => ?_
      rw [Function.comp_apply, List.map_cons, runRoot_cons,
        show t.nextLeafIndex + k.succ = t.nextLeafIndex + 1 + k by omega]
    · rw [hrun.nextLeafIndex_eq, hi.nextLeafIndex_eq, List.map_cons, List.length_cons]
      omega
    · have hslots := HashTree.slotsAt_succ (hashNodes sha256) (sha256 zeroLeafSeed)
        slot t.nextLeafIndex
        (HashTree.leaves (sha256 zeroLeafSeed) (commitment :: calls.map Prod.snd))
        (calls.map Prod.snd).length
      have hsiblings := hrun.siblings
      rw [hi.nextLeafIndex_eq, add_assoc, add_comm 1] at hsiblings
      rw [List.map_cons, List.length_cons, ← hslots]
      exact hsiblings
    · obtain _ | n := n
      · obtain rfl := List.eq_nil_of_length_eq_zero (Nat.succ.inj hn)
        obtain ⟨-, rfl⟩ := Prod.mk.inj (Except.ok.inj hrest)
        rw [hi.recorded, recordHistoricalRoot_currentRoot, hroot]
        rfl
      · rw [hcurrent n (by simpa using hn), List.map_cons, runRoot_cons]

theorem insertDeposit_full (hfull : 2 ^ treeDepth ≤ t.nextLeafIndex) (env : Env here)
    (commitment : Bytes32) :
    insertDeposit sha256 env commitment t = .error (.error .capacityExceeded) := by
  rw [insertDeposit]
  simp only [failIf, if_pos hfull]
  rfl

theorem insertDeposits_cons_fst {env : Env here} {commitment : Bytes32} {result : ℕ × Bytes32}
    (hinsert : insertDeposit sha256 env commitment t = .ok (result, t₁))
    (later : List (Env here × Bytes32)) :
    Prod.fst <$> insertDeposits sha256 ((env, commitment) :: later) t =
      (result :: ·) <$> Prod.fst <$> insertDeposits sha256 later t₁ := by
  simp only [insertDeposits, hinsert, ok_bind]
  cases insertDeposits sha256 later t₁ <;> rfl

/-- Stores that agree on the left siblings of the next leaf cannot be told apart by insertions. -/
theorem insertDeposits_agree (h₁ : DepositStore.WellFormed sha256 t₁)
    (h₂ : DepositStore.WellFormed sha256 t₂) (hnext : t₁.nextLeafIndex = t₂.nextLeafIndex)
    (hagree : HashTree.AgreeAt treeDepth (leftChild sha256 t₁) (leftChild sha256 t₂)
      t₂.nextLeafIndex) (later : List (Env here × Bytes32)) :
    Prod.fst <$> insertDeposits sha256 later t₁ = Prod.fst <$> insertDeposits sha256 later t₂ := by
  induction later generalizing t₁ t₂ with
  | nil => rfl
  | cons call later ih =>
    obtain ⟨env, commitment⟩ := call
    by_cases hfull : 2 ^ treeDepth ≤ t₂.nextLeafIndex
    · rw [insertDeposits, insertDeposits, insertDeposit_full hfull,
        insertDeposit_full (hnext ▸ hfull)]
    · obtain ⟨t₁', hinsert₁, hi₁⟩ := insertDeposit_spec h₁ (by omega) env commitment
      obtain ⟨t₂', hinsert₂, hi₂⟩ := insertDeposit_spec h₂ (by omega) env commitment
      have hroot : pathHash sha256 t₁ t₁.nextLeafIndex commitment treeDepth =
          pathHash sha256 t₂ t₂.nextLeafIndex commitment treeDepth := by
        rw [hnext]
        exact hagree.rise_eq commitment le_rfl
      have hagree' := hi₁.agreeAt .refl
      rw [hnext] at hagree'
      rw [insertDeposits_cons_fst hinsert₁, insertDeposits_cons_fst hinsert₂, hroot, hnext,
        ih hi₁.wellFormed hi₂.wellFormed
          (by rw [hi₁.nextLeafIndex_eq, hi₂.nextLeafIndex_eq, hnext])
          (by
            rw [hi₂.nextLeafIndex_eq]
            exact (hagree'.symm.trans (hagree.remember commitment)).trans (hi₂.agreeAt .refl))]

theorem pathHash_eq_of_agree (h₁ : DepositStore.WellFormed sha256 t₁)
    (h₂ : DepositStore.WellFormed sha256 t₂) (hnext : t₁.nextLeafIndex = t₂.nextLeafIndex)
    (hroom : t₂.nextLeafIndex < 2 ^ treeDepth) {env : Env here} {commitment : Bytes32}
    (h : Prod.fst <$> insertDeposits sha256 [(env, commitment)] t₁ =
      Prod.fst <$> insertDeposits sha256 [(env, commitment)] t₂) :
    pathHash sha256 t₁ t₁.nextLeafIndex commitment treeDepth =
      pathHash sha256 t₂ t₂.nextLeafIndex commitment treeDepth := by
  obtain ⟨t₁', hinsert₁, -⟩ := insertDeposit_spec h₁ (hnext ▸ hroom) env commitment
  obtain ⟨t₂', hinsert₂, -⟩ := insertDeposit_spec h₂ hroom env commitment
  rw [insertDeposits_cons_fst hinsert₁, insertDeposits_cons_fst hinsert₂] at h
  exact (Prod.mk.inj (List.cons.inj (Except.ok.inj h)).1).2

end Later

section Exact

variable {sha256 : ByteString → Bytes32} {here : Address} {t : DepositStore}

theorem Unharmed.agreeAt {commitments : List Bytes32} (h : Unharmed sha256 t commitments)
    (hpos : 1 ≤ commitments.length) :
    HashTree.AgreeAt treeDepth (flushedChild sha256 t commitments)
      (siblingAt sha256 t commitments commitments.length)
      (t.nextLeafIndex + commitments.length) := by
  intro l hl hodd
  have hkeeps := h.keeps_stored l hl hodd
  obtain ⟨m, hm⟩ := Nat.exists_eq_add_of_le' hpos
  have hreads : HashTree.ReadsPadding (hashNodes sha256) (sha256 zeroLeafSeed) treeDepth
    (leftChild sha256 t) t.nextLeafIndex (HashTree.leaves (sha256 zeroLeafSeed) commitments)
    (m + 1) := hm ▸ h.reads_empty
  rw [hm, ← add_assoc, Nat.add_sub_cancel] at hkeeps
  rw [hm, ← add_assoc] at hodd
  rw [flushedChild, hm]
  obtain hsame | ⟨hnext, -⟩ := HashTree.div_two_pow_succ_eq (t.nextLeafIndex + m) l
  · rw [hkeeps hsame, filledAt, HashTree.heldAt, HashTree.consume, if_neg (by omega),
      Option.getD_none]
  · have heven : (t.nextLeafIndex + m) / 2 ^ l % 2 = 0 := by
      rw [hnext] at hodd
      generalize (t.nextLeafIndex + m) / 2 ^ l = i at hodd
      omega
    rw [filledAt, HashTree.heldAt_eq_slotsAt hreads hl heven, Option.getD_some, siblingAt]

/-- The root of a batch against the root of the last single insertion. -/
theorem rootAt_eq_iff {commitments : List Bytes32} {m : ℕ} (hm : commitments.length = m + 1)
    (hroom : t.nextLeafIndex + commitments.length ≤ 2 ^ treeDepth)
    (hinj : Set.InjOn sha256 (Set.image pairBytes (comparedPairs sha256 t commitments))) :
    rootAt sha256 t commitments commitments.length =
        runRoot sha256 (leftChild sha256 t) t.nextLeafIndex commitments m ↔
      ∀ k < commitments.length, 0 < k → ∀ l < treeDepth,
        (t.nextLeafIndex + k) / 2 ^ l % 2 = 1 →
        (t.nextLeafIndex + k) / 2 ^ l = (t.nextLeafIndex + k - 1) / 2 ^ l →
        siblingAt sha256 t commitments k l = emptyNode sha256 l := by
  have hiff := HashTree.heldRoot_eq_iff (injOn_hashNodes hinj) (fun p hp => .inl hp) hm hroom
  rw [hm] at hiff ⊢
  exact hiff

theorem rootAt_eq_of_unharmed {commitments : List Bytes32} {m : ℕ}
    (hm : commitments.length = m + 1) (h : Unharmed sha256 t commitments) :
    rootAt sha256 t commitments commitments.length =
      runRoot sha256 (leftChild sha256 t) t.nextLeafIndex commitments m := by
  have hreads : HashTree.ReadsPadding (hashNodes sha256) (sha256 zeroLeafSeed) treeDepth
    (leftChild sha256 t) t.nextLeafIndex (HashTree.leaves (sha256 zeroLeafSeed) commitments)
    (m + 1) := hm ▸ h.reads_empty
  rw [hm]
  exact (HashTree.readHeld_eq_slotsAt hreads (Nat.lt_succ_self m)).rise_eq _ le_rfl

/-- An empty leaf after the batch shows what the batch has left behind. -/
theorem keeps_stored_of_later {commitments : List Bytes32} (hpos : 1 ≤ commitments.length)
    (hinj : Set.InjOn sha256 (Set.image pairBytes (comparedPairs sha256 t commitments)))
    (hroot : HashTree.rise (hashNodes sha256) (sha256 zeroLeafSeed)
        (flushedChild sha256 t commitments) (t.nextLeafIndex + commitments.length)
        (sha256 zeroLeafSeed) treeDepth =
      HashTree.rise (hashNodes sha256) (sha256 zeroLeafSeed)
        (siblingAt sha256 t commitments commitments.length)
        (t.nextLeafIndex + commitments.length) (sha256 zeroLeafSeed) treeDepth) {l : ℕ}
    (hl : l < treeDepth) (hodd : (t.nextLeafIndex + commitments.length) / 2 ^ l % 2 = 1)
    (hsame : (t.nextLeafIndex + commitments.length) / 2 ^ l =
      (t.nextLeafIndex + commitments.length - 1) / 2 ^ l) :
    siblingAt sha256 t commitments commitments.length l = storedChild t l := by
  rw [HashTree.rise_eq_iff (injOn_hashNodes hinj) (fun p hp => .inr (.inr hp))
    (fun p hp => .inr (.inl hp)) le_rfl] at hroot
  have hslot := hroot.2 l hl hodd
  obtain ⟨m, hm⟩ := Nat.exists_eq_add_of_le' hpos
  rw [hm, ← add_assoc, Nat.add_sub_cancel] at hsame
  rw [hm, ← add_assoc] at hodd
  rw [← hslot, flushedChild, hm, filledAt, HashTree.heldAt, HashTree.consume,
    if_neg (by omega), Option.getD_none]

/-- If the batch agrees, it returns the root of the last single insertion. -/
theorem BatchAgrees.rootAt_eq {env : Env here} {calls : List (Env here × Bytes32)} {m : ℕ}
    (h : BatchAgrees sha256 env calls t) (ht : DepositStore.WellFormed sha256 t)
    (hm : calls.length = m + 1) (hmax : calls.length ≤ maxBatchSize)
    (hroom : t.nextLeafIndex + calls.length ≤ 2 ^ treeDepth) :
    rootAt sha256 t (calls.map Prod.snd) calls.length =
      runRoot sha256 (leftChild sha256 t) t.nextLeafIndex (calls.map Prod.snd) m := by
  have hlength : (calls.map Prod.snd).length = calls.length := List.length_map _
  obtain ⟨result, t₁, results, t₂, hbatch, hrun, -, hlast, -⟩ := h
  obtain ⟨result', t₁', hbatch', hb⟩ := batchInsertDeposits_spec ht env
    (calls.map Prod.snd) (by omega) (hlength.symm ▸ hmax) (hlength.symm ▸ hroom)
  obtain ⟨t₂', hrun', -⟩ := insertDeposits_run ht calls hroom .refl
  obtain ⟨rfl, rfl⟩ := Prod.mk.inj (Except.ok.inj (hbatch.symm.trans hbatch'))
  obtain ⟨rfl, rfl⟩ := Prod.mk.inj (Except.ok.inj (hrun.symm.trans hrun'))
  rw [hm, List.range_succ, List.map_append, List.map_singleton, List.getLast?_concat,
    hb.result_eq, hlength] at hlast
  exact (Prod.mk.inj (Option.some.inj hlast)).2.symm

/-- Where the batch fits, it agrees with single insertions if it is unharmed, and only then if no
two hashed pairs collide. -/
theorem batchAgrees_of_wellFormed (ht : DepositStore.WellFormed sha256 t) (env : Env here)
    (calls : List (Env here × Bytes32)) (hpos : 1 ≤ calls.length)
    (hmax : calls.length ≤ maxBatchSize)
    (hroom : t.nextLeafIndex + calls.length ≤ 2 ^ treeDepth) :
    (Unharmed sha256 t (calls.map Prod.snd) → BatchAgrees sha256 env calls t) ∧
      (Set.InjOn sha256 (Set.image pairBytes (comparedPairs sha256 t (calls.map Prod.snd))) →
        BatchAgrees sha256 env calls t → Unharmed sha256 t (calls.map Prod.snd)) := by
  have hlength : (calls.map Prod.snd).length = calls.length := List.length_map _
  obtain ⟨result, t₁, hbatch, hb⟩ := batchInsertDeposits_spec ht env (calls.map Prod.snd)
    (hlength.symm ▸ hpos) (hlength.symm ▸ hmax) (hlength.symm ▸ hroom)
  obtain ⟨t₂, hrun, hr, hcurrent⟩ := insertDeposits_run ht calls hroom .refl
  obtain ⟨m, hm⟩ := Nat.exists_eq_add_of_le' hpos
  have hflushed : HashTree.AgreeAt treeDepth (leftChild sha256 t₁)
      (flushedChild sha256 t (calls.map Prod.snd))
      (t.nextLeafIndex + (calls.map Prod.snd).length) := fun l hl _ => hb.stored l hl
  have hnext : t₁.nextLeafIndex = t₂.nextLeafIndex :=
    hb.nextLeafIndex_eq.trans hr.nextLeafIndex_eq.symm
  have hsecond := hr.nextLeafIndex_eq
  constructor
  · intro h
    have hroot := rootAt_eq_of_unharmed (hlength.trans hm) h
    refine ⟨result, t₁, _, t₂, hbatch, hrun, ?_, ?_, hnext, ?_, ?_⟩
    · rw [hm, List.range_succ_eq_map, hb.result_eq]
      rfl
    · rw [hm, List.range_succ, List.map_append, List.map_singleton, List.getLast?_concat,
        hb.result_eq, hroot, hlength, hm]
      rfl
    · rw [hb.currentRoot_eq, hcurrent m hm, hroot]
    · refine insertDeposits_agree hb.wellFormed hr.wellFormed hnext ?_
      rw [hsecond]
      exact (hflushed.trans (h.agreeAt (hlength.symm ▸ hpos))).trans hr.siblings
  · intro hinj hagrees
    have hroot := hagrees.rootAt_eq ht hm hmax hroom
    obtain ⟨result', t₁', results, t₂', hbatch', hrun', -, -, -, -, hlater⟩ := hagrees
    obtain ⟨-, rfl⟩ := Prod.mk.inj (Except.ok.inj (hbatch.symm.trans hbatch'))
    obtain ⟨-, rfl⟩ := Prod.mk.inj (Except.ok.inj (hrun.symm.trans hrun'))
    rw [← hlength] at hroot
    refine ⟨(rootAt_eq_iff (hlength.trans hm) (hlength.symm ▸ hroom) hinj).mp hroot,
      fun l hl hodd hsame => ?_⟩
    have hlt : t.nextLeafIndex + (calls.map Prod.snd).length < 2 ^ treeDepth := by
      refine lt_of_le_of_ne (hlength.symm ▸ hroom) fun hfull => ?_
      rw [hfull, Nat.pow_div hl.le (by norm_num), show treeDepth - l = treeDepth - l - 1 + 1 by
        omega, pow_succ, Nat.mul_mod_left] at hodd
      exact zero_ne_one hodd
    have hpath := pathHash_eq_of_agree hb.wellFormed hr.wellFormed hnext (hsecond ▸ hlt)
      (hlater [(env, sha256 zeroLeafSeed)])
    rw [pathHash, pathHash, hnext, hsecond, hflushed.rise_eq _ le_rfl,
      ← hr.siblings.rise_eq _ le_rfl] at hpath
    exact keeps_stored_of_later (hlength.symm ▸ hpos) hinj hpath hl hodd hsame

end Exact

/-! ## Batches in reachable trees -/

inductive TreeCall where
  | insert (commitment : Bytes32)
  | batch (commitments : List Bytes32)

def TreeCall.exec (sha256 : ByteString → Bytes32) {here : Address} (env : Env here)
    (t : DepositStore) : TreeCall → Except Fault DepositStore
  | insert commitment => Prod.snd <$> insertDeposit sha256 env commitment t
  | batch commitments => Prod.snd <$> batchInsertDeposits sha256 env commitments t

/-- The tree after a run of single insertions and batches. -/
def treeAfter (sha256 : ByteString → Bytes32) {here : Address}
    (run : List (Env here × TreeCall)) : DepositStore :=
  runAll (fun i t => i.2.exec sha256 i.1 t) .empty run

section Reachable

variable {sha256 : ByteString → Bytes32} {here : Address} {t : DepositStore}

theorem TreeCall.exec_wellFormed {env : Env here} {call : TreeCall} {t' : DepositStore}
    (ht : DepositStore.WellFormed sha256 t) (hexec : call.exec sha256 env t = .ok t') :
    DepositStore.WellFormed sha256 t' := by
  cases call with
  | insert commitment =>
    rw [TreeCall.exec] at hexec
    by_cases hroom : t.nextLeafIndex < 2 ^ treeDepth
    · obtain ⟨t₁, hinsert, hi⟩ := insertDeposit_spec ht hroom env commitment
      rw [hinsert] at hexec
      obtain rfl := Except.ok.inj hexec
      exact hi.wellFormed
    · rw [insertDeposit_full (not_lt.mp hroom)] at hexec
      cases hexec
  | batch commitments =>
    obtain ⟨_, hbatch⟩ := snd_map_eq_ok.mp hexec
    obtain ⟨hpos, hmax, hroom⟩ := batchInsertDeposits_fits hbatch
    obtain ⟨result, t₁, hspec, hb⟩ := batchInsertDeposits_spec ht env commitments hpos hmax hroom
    obtain ⟨-, rfl⟩ := Prod.mk.inj (Except.ok.inj (hspec.symm.trans hbatch))
    exact hb.wellFormed

theorem treeAfter_wellFormed (run : List (Env here × TreeCall)) :
    DepositStore.WellFormed sha256 (treeAfter sha256 run) :=
  runAll_induction (fun _ _ _ ht hexec => TreeCall.exec_wellFormed ht hexec) WellFormed.empty run

/-- A batch of one commitment is unharmed. -/
theorem unharmed_of_single (ht : DepositStore.WellFormed sha256 t) (commitment : Bytes32) :
    Unharmed sha256 t [commitment] where
  reads_empty k hk hpos := by
    rw [List.length_singleton] at hk
    omega
  keeps_stored l _ hodd hsame := by
    rw [List.length_singleton] at hodd hsame
    rw [Nat.add_sub_cancel] at hsame
    have hsome : t.packedSubtrees ≠ none := by
      intro hnone
      rw [hsame, ht.started hnone, Nat.zero_div] at hodd
      exact zero_ne_one hodd
    rw [← leftChild_eq_storedChild hsome, siblingAt, List.length_singleton, HashTree.slotsAt,
      HashTree.remember, if_neg (by rw [add_zero]; omega)]
    rfl

/-- So are two commitments in an empty tree. -/
theorem unharmed_of_pair (hempty : t.nextLeafIndex = 0) (first second : Bytes32) :
    Unharmed sha256 t [first, second] where
  reads_empty k hk hpos l _ hodd hsame := by
    have hone : k = 1 := by
      change k < 2 at hk
      omega
    rw [hsame, hempty, hone, Nat.zero_div] at hodd
    exact absurd hodd zero_ne_one
  keeps_stored l _ hodd hsame := by
    have hlength : [first, second].length = 2 := rfl
    rw [hempty, hlength] at hodd hsame
    obtain _ | l := l
    · simp at hodd
    · have hzero : (0 + 2 - 1) / 2 ^ (l + 1) = 0 :=
        Nat.div_eq_of_lt (Nat.one_lt_two_pow (Nat.succ_ne_zero l))
      rw [hsame, hzero] at hodd
      exact absurd hodd zero_ne_one

/-- In a reachable tree a batch that fits agrees with single insertions if it is unharmed, and
only then if no two hashed pairs collide. -/
theorem batchInsertDeposits_agrees_iff (sha256 : ByteString → Bytes32)
    (run : List (Env here × TreeCall)) (env : Env here) (calls : List (Env here × Bytes32))
    (hpos : 1 ≤ calls.length) (hmax : calls.length ≤ 64)
    (hroom : (treeAfter sha256 run).nextLeafIndex + calls.length ≤ 2 ^ 20) :
    (Unharmed sha256 (treeAfter sha256 run) (calls.map Prod.snd) →
        BatchAgrees sha256 env calls (treeAfter sha256 run)) ∧
      (Set.InjOn sha256 (Set.image pairBytes
          (comparedPairs sha256 (treeAfter sha256 run) (calls.map Prod.snd))) →
        BatchAgrees sha256 env calls (treeAfter sha256 run) →
          Unharmed sha256 (treeAfter sha256 run) (calls.map Prod.snd)) :=
  batchAgrees_of_wellFormed (treeAfter_wellFormed run) env calls hpos hmax hroom

end Reachable

/-! ## Small batches into the empty tree -/

section Sample

/-- Above the highest bit of the index the mark of the sample nodes is passed on. -/
theorem sample_rise {slot : ℕ → Bytes32} {i j l : ℕ} {x : Bytes32} {a : UInt8} (hi : i < 2 ^ j)
    (hrise : HashTree.rise (hashNodes sampleHash) (sampleHash zeroLeafSeed) slot i x j =
      sampleNode (.ofNat j) a) (hl : j ≤ l) :
    HashTree.rise (hashNodes sampleHash) (sampleHash zeroLeafSeed) slot i x l =
      sampleNode (.ofNat l) a := by
  induction l, hl using Nat.le_induction with
  | base => exact hrise
  | succ l hl ih =>
    have hzero : i / 2 ^ l = 0 :=
      Nat.div_eq_of_lt (hi.trans_le (Nat.pow_le_pow_right (by norm_num) hl))
    rw [HashTree.rise, hzero, if_pos (Nat.zero_mod 2), ih, sample_padding]
    exact (hashPair_sampleHash _ _ _).trans (by rw [UInt8.ofNat_add]; rfl)

theorem sample_rise_odd {slot : ℕ → Bytes32} {i l : ℕ} {x : Bytes32} {a : UInt8}
    (hodd : i / 2 ^ l % 2 = 1) (hslot : slot l = sampleNode (.ofNat l) a) :
    HashTree.rise (hashNodes sampleHash) (sampleHash zeroLeafSeed) slot i x (l + 1) =
      sampleNode (.ofNat (l + 1)) a := by
  rw [HashTree.rise, if_neg (by omega), hslot, UInt8.ofNat_add]
  exact hashPair_sampleHash _ _ _

theorem sample_risePairs {slot : ℕ → Bytes32} {i j d : ℕ} {x : Bytes32} {a : UInt8}
    (hi : i < 2 ^ j)
    (hrise : HashTree.rise (hashNodes sampleHash) (sampleHash zeroLeafSeed) slot i x j =
      sampleNode (.ofNat j) a)
    (hlow : ∀ p ∈ HashTree.risePairs (hashNodes sampleHash) (sampleHash zeroLeafSeed) slot i x j,
      ∃ l a, p = (sampleNode l a, sampleNode l 0)) :
    ∀ p ∈ HashTree.risePairs (hashNodes sampleHash) (sampleHash zeroLeafSeed) slot i x d,
      ∃ l a, p = (sampleNode l a, sampleNode l 0) := by
  rintro p ⟨l, -, hp⟩
  obtain hl | hl := lt_or_ge l j
  · exact hlow p ⟨l, hl, hp⟩
  · have hzero : i / 2 ^ l = 0 :=
      Nat.div_eq_of_lt (hi.trans_le (Nat.pow_le_pow_right (by norm_num) hl))
    rw [hzero, if_pos (Nat.zero_mod 2), sample_rise hi hrise hl, sample_padding] at hp
    exact ⟨_, _, hp⟩

/-- The pairs that one commitment and an empty leaf after it hash. -/
theorem sample_comparedPairs :
    ∀ p ∈ comparedPairs sampleHash .empty [sampleNode 0 1],
      ∃ l a, p = (sampleNode l a, sampleNode l 0) := by
  have hzero : ∀ {slot : ℕ → Bytes32}, ∀ p ∈ HashTree.risePairs (hashNodes sampleHash)
      (sampleHash zeroLeafSeed) slot 0 (sampleNode 0 1) treeDepth,
      ∃ l a, p = (sampleNode l a, sampleNode l 0) := fun {slot} =>
    sample_risePairs (j := 0) (by decide) rfl
      (by rintro p ⟨l, hl, -⟩; exact absurd hl (Nat.not_lt_zero l))
  -- The commitment is the left sibling of the empty leaf.
  have hone : ∀ {slot : ℕ → Bytes32}, slot 0 = sampleNode 0 1 → ∀ p ∈ HashTree.risePairs
      (hashNodes sampleHash) (sampleHash zeroLeafSeed) slot 1 (sampleHash zeroLeafSeed) treeDepth,
      ∃ l a, p = (sampleNode l a, sampleNode l 0) := fun {slot} hslot =>
    sample_risePairs (j := 1) (by decide) (sample_rise_odd (l := 0) (by decide) hslot) (by
      rintro p ⟨l, hl, rfl⟩
      obtain rfl := Nat.lt_one_iff.mp hl
      exact ⟨0, 1, Prod.ext hslot sample_seed⟩)
  intro p hp
  obtain hp | hp | hp := hp
  · obtain ⟨k, hk, hp⟩ | ⟨l, -, rfl⟩ := hp
    · obtain rfl := Nat.lt_one_iff.mp hk
      exact hp.elim (hzero p) (hzero p)
    · exact ⟨_, _, Prod.ext (sample_padding l) (sample_padding l)⟩
  · exact hone rfl p hp
  · exact hone rfl p hp

theorem oneCommitment_agrees :
    BatchAgrees sampleHash sampleEnv [(sampleEnv, sampleNode 0 1)]
        (treeAfter sampleHash ([] : List (Env ⟨0⟩ × TreeCall))) ∧
      Unharmed sampleHash (treeAfter sampleHash ([] : List (Env ⟨0⟩ × TreeCall)))
        [sampleNode 0 1] := by
  obtain ⟨hsafe, hexact⟩ := batchInsertDeposits_agrees_iff sampleHash [] sampleEnv
    [(sampleEnv, sampleNode 0 1)] (by decide) (by decide) (by decide)
  have hagrees := hsafe (unharmed_of_single WellFormed.empty (sampleNode 0 1))
  exact ⟨hagrees, hexact (injOn_sampleHash sample_comparedPairs) hagrees⟩

def sampleCalls : List (Env ⟨0⟩ × Bytes32) :=
  [(sampleEnv, sampleNode 0 1), (sampleEnv, sampleNode 0 2), (sampleEnv, sampleNode 0 3),
    (sampleEnv, sampleNode 0 4)]

/-- The fourth commitment needs the left sibling that the third one has taken out. -/
theorem fourCommitments_disagree : ¬ BatchAgrees sampleHash sampleEnv sampleCalls .empty := by
  intro h
  have hroot := h.rootAt_eq WellFormed.empty (m := 3) rfl (by decide) (by decide)
  have hbatch : rootAt sampleHash .empty (sampleCalls.map Prod.snd) 4 = sampleNode 20 0 :=
    sample_rise (j := 2) (by decide)
      (sample_rise_odd (l := 1) (by decide) (sample_padding 1)) (by decide)
  have hsingle : runRoot sampleHash (leftChild sampleHash .empty) 0
      (sampleCalls.map Prod.snd) 3 = sampleNode 20 1 :=
    sample_rise (j := 2) (by decide)
      (sample_rise_odd (l := 1) (by decide) (hashPair_sampleHash 0 1 (sampleNode 0 2))) (by decide)
  have hmark := sampleNode_inj ((hbatch.symm.trans hroot).trans hsingle)
  exact absurd hmark.2 (by decide)

end Sample

end StellarFlow.Zk
