import StellarFlow.Foundation.PackedFields
import StellarFlow.Host

/-!
# The packed votes of a proposal

A vote is one bit at the index of its voter, and its weight one of nine seven-bit fields of a
word. Both are lists of 64-bit words that grow with the index.
-/
namespace StellarFlow.Archive

open Foundation PackedFields

/-- The contract errors of the vote archive. -/
inductive ArchiveError
  | alreadyInitialized
  | notInitialized
  | notAdmin
  | notAuthorized
  | alreadyVoted
  | proposalNotFound
  | proposalAlreadyExists
  | proposalClosed
  | thresholdNotReached
  | proposalNotExecuted
  | alreadyCompressed
  | invalidVoteWeight
  | archiveNotFound
  | unknownVoter
  | invalidPackedLength
  | invalidThreshold
  deriving DecidableEq, Repr

abbrev ArchiveFault := Abort ArchiveError

abbrev Words := List (BitVec 64)

def weightBits : ℕ := 7
def weightsPerWord : ℕ := 9
def minVoteWeight : ℕ := 1
def maxVoteWeight : ℕ := 100
def defaultVoteWeight : ℕ := 1
def weightFieldMax : ℕ := 2 ^ weightBits - 1
def wordBits : ℕ := 64
def weightMask : BitVec 64 := (1 <<< weightBits) - 1

/-! ## Which votes are packed -/

structure VoteModelEvidence where
  weightMin : ℕ
  weightMax : ℕ
  weightDefault : ℕ
  hasFractionalWeights : Bool

def observedVoteModel : VoteModelEvidence :=
  ⟨minVoteWeight, maxVoteWeight, defaultVoteWeight, false⟩

def VoteModelEvidence.weightsArePackable (model : VoteModelEvidence) : Bool :=
  !model.hasFractionalWeights && minVoteWeight ≤ model.weightMin &&
    model.weightMax ≤ weightFieldMax

def packWeight (weight : ℕ) : Except ArchiveFault (BitVec 64) := do
  failIf (weight < minVoteWeight ∨ maxVoteWeight < weight) (.error .invalidVoteWeight)
  pure (BitVec.ofNat 64 weight)

inductive Encoding
  | packed
  | detailedFallback
  deriving DecidableEq, Repr

def encodingFor (weight : ℕ) : Encoding :=
  if observedVoteModel.weightsArePackable && (packWeight weight).isOk then .packed
  else .detailedFallback

/-! ## Reading and writing -/

def isBitSet (words : Words) (index : ℕ) : Bool :=
  match words[index / wordBits]? with
  | some w => (w >>> (index % wordBits)) &&& 1 == 1
  | none => false

def setPackedBit (words : Words) (index : ℕ) : Words :=
  let words := extend words (index / wordBits + 1)
  let current := words.getD (index / wordBits) 0
  words.set (index / wordBits) (current ||| (1 <<< (index % wordBits)))

def packedWeight (words : Words) (index : ℕ) : Except ArchiveFault ℕ := do
  let packed ← okOr words[index / weightsPerWord]? (.error .invalidPackedLength)
  pure ((packed >>> (index % weightsPerWord * weightBits)) &&& weightMask).toNat

def setPackedWeight (words : Words) (index weight : ℕ) : Except ArchiveFault Words := do
  let value ← packWeight weight
  let shift := index % weightsPerWord * weightBits
  let words := extend words (index / weightsPerWord + 1)
  let current := words.getD (index / weightsPerWord) 0
  let cleared := current &&& ~~~(weightMask <<< shift)
  pure (words.set (index / weightsPerWord) (cleared ||| (value <<< shift)))

/-- Addition of 64-bit numbers that stays at the largest one. -/
def saturatingAdd (x y : ℕ) : ℕ := min (2 ^ 64 - 1) (x + y)

def packedWeightSum (words weights : Words) (len : ℕ) : ℕ :=
  (List.range len).foldl (fun total i =>
    if isBitSet words i then
      match packedWeight weights i with
      | .ok weight => saturatingAdd total weight
      | .error _ => total
    else total) 0

section Bits

variable {words weights : Words} {i j weight : ℕ}

theorem or_not_and_self (word mask : BitVec 64) : word &&& ~~~mask ||| mask = word ||| mask := by
  apply BitVec.eq_of_getLsbD_eq
  intro k hk
  simp only [BitVec.getLsbD_or, BitVec.getLsbD_and, BitVec.getLsbD_not, hk, decide_true,
    Bool.true_and]
  cases word.getLsbD k <;> cases mask.getLsbD k <;> rfl

theorem packWeight_eq_ok {value : BitVec 64} :
    packWeight weight = .ok value ↔
      (1 ≤ weight ∧ weight ≤ 100) ∧ BitVec.ofNat 64 weight = value := by
  simp only [packWeight, bind_eq_ok, failIf_eq_ok, pure_eq_ok, not_or, not_lt, exists_const]
  exact Iff.rfl

/-- Exactly the weights of the configured range are packed. -/
theorem encodingFor_eq_packed : encodingFor weight = .packed ↔ 1 ≤ weight ∧ weight ≤ 100 := by
  have hmodel : observedVoteModel.weightsArePackable = true := by decide
  rw [encodingFor, hmodel, Bool.true_and]
  constructor
  · intro h
    cases hpack : packWeight weight with
    | ok value => exact (packWeight_eq_ok.mp hpack).1
    | error e => simp [hpack, Except.isOk, Except.toBool] at h
  · intro h
    rw [packWeight_eq_ok.mpr ⟨h, rfl⟩]
    rfl

theorem isBitSet_eq_read : isBitSet words i = decide (PackedFields.read 1 64 words i = 1#1) := by
  rw [Bool.eq_iff_iff, decide_eq_true_iff, isBitSet, PackedFields.read, List.getD_eq_getElem?_getD,
    wordBits]
  cases words[i / 64]? with
  | none => simp
  | some word =>
    rw [Option.getD_some, mul_one, beq_iff_eq, ← BitVec.toNat_inj, ← BitVec.toNat_inj,
      BitVec.toNat_and, BitVec.toNat_ushiftRight, BitVec.extractLsb'_toNat, pow_one]
    exact Eq.congr (Nat.and_one_is_mod _) rfl

theorem setPackedBit_eq_write : setPackedBit words i = write 64 words i 1#1 := by
  have hmask : (BitVec.allOnes 1).setWidth 64 = 1 := by decide
  have hbit : (1#1).setWidth 64 = 1 := by decide
  rw [setPackedBit, write, insertField, getD_extend, wordBits, mul_one, hmask, hbit]
  congr 1
  exact (or_not_and_self _ _).symm

theorem packedWeight_eq_read :
    packedWeight words i = if i / 9 < words.length then
      .ok (PackedFields.read 7 9 words i).toNat else .error (.error .invalidPackedLength) := by
  rw [packedWeight, PackedFields.read, List.getD_eq_getElem?_getD, weightsPerWord, weightBits]
  split_ifs with h
  · have hmask : weightMask.toNat = 2 ^ 7 - 1 := by decide
    rw [List.getElem?_eq_getElem h, okOr_some, ok_bind, Option.getD_some, BitVec.toNat_and,
      BitVec.toNat_ushiftRight, hmask, Nat.and_two_pow_sub_one_eq_mod, BitVec.extractLsb'_toNat]
    rfl
  · rw [List.getElem?_eq_none (by omega)]
    rfl

theorem setPackedWeight_eq_ok {words' : Words} :
    setPackedWeight words i weight = .ok words' ↔
      (1 ≤ weight ∧ weight ≤ 100) ∧ write 9 words i (BitVec.ofNat 7 weight) = words' := by
  have hmask : (BitVec.allOnes 7).setWidth 64 = weightMask := by decide
  have hvalue (h : weight ≤ 100) : (BitVec.ofNat 7 weight).setWidth 64 = BitVec.ofNat 64 weight :=
    BitVec.eq_of_toNat_eq (by
      rw [BitVec.toNat_setWidth, BitVec.toNat_ofNat, BitVec.toNat_ofNat]
      omega)
  simp only [setPackedWeight, bind_eq_ok, packWeight_eq_ok, pure_eq_ok, write, insertField, hmask,
    getD_extend, weightBits, weightsPerWord]
  constructor
  · rintro ⟨_, ⟨hweight, rfl⟩, rfl⟩
    exact ⟨hweight, by rw [hvalue hweight.2]⟩
  · rintro ⟨hweight, rfl⟩
    exact ⟨_, ⟨hweight, rfl⟩, by rw [hvalue hweight.2]⟩

/-- A bit reads as set once it was, whatever was set besides. -/
theorem isBitSet_setPackedBit :
    isBitSet (setPackedBit words i) j = (decide (j = i) || isBitSet words j) := by
  rw [isBitSet_eq_read, isBitSet_eq_read, setPackedBit_eq_write,
    read_write (by norm_num) (by norm_num)]
  split_ifs with h <;> simp [h]

@[simp] theorem isBitSet_nil : isBitSet [] i = false := by
  simp [isBitSet]

/-- A written weight is read back, and the weights written before are still read. -/
theorem packedWeight_setPackedWeight {words' : Words} {w : ℕ}
    (h : setPackedWeight words i weight = .ok words') :
    packedWeight words' i = .ok weight ∧
      (j ≠ i → packedWeight words j = .ok w → packedWeight words' j = .ok w) := by
  obtain ⟨hweight, rfl⟩ := setPackedWeight_eq_ok.mp h
  constructor
  · rw [packedWeight_eq_read, if_pos (by simp), read_write (by norm_num) (by norm_num),
      if_pos rfl, BitVec.toNat_ofNat, Nat.mod_eq_of_lt (by omega)]
  · intro hne hread
    rw [packedWeight_eq_read] at hread ⊢
    split_ifs at hread with hlt
    rw [write_length, if_pos (lt_max_of_lt_left hlt),
      read_write (by norm_num) (by norm_num), if_neg hne]
    exact hread

/-- What a field holds if it was ever written. -/
theorem exists_packedWeight (hlt : i / 9 < words.length) :
    ∃ w < 2 ^ 7, packedWeight words i = .ok w :=
  ⟨_, (PackedFields.read 7 9 words i).isLt, by rw [packedWeight_eq_read, if_pos hlt]⟩

/-- The weight counted for the vote at an index. -/
def countedWeight (words weights : Words) (i : ℕ) : ℕ :=
  if isBitSet words i then (packedWeight weights i).toOption.getD 0 else 0

theorem packedWeightSum_eq (len : ℕ) :
    packedWeightSum words weights len =
      min (2 ^ 64 - 1) ((List.range len).map (countedWeight words weights)).sum := by
  rw [packedWeightSum, foldl_eq_min (f := countedWeight words weights) ?_ _ (Nat.zero_le _),
    Nat.zero_add]
  intro total i htotal
  rw [countedWeight]
  split_ifs
  · cases packedWeight weights i with
    | ok weight => rfl
    | error e => exact (Nat.min_eq_right htotal).symm
  · exact (Nat.min_eq_right htotal).symm

end Bits

end StellarFlow.Archive
