import StellarFlow.Archive.Bits

/-!
# Packing whole lists of votes

A list of options or weights is packed into words that were counted out before, and read back
field by field. Single writes let the words grow with the index, so that options which are not
set at the end leave no words behind.
-/
namespace StellarFlow.Archive

open Foundation PackedFields

/-- Words that hold the given number of fields. -/
def wordCount (len perWord : ℕ) : ℕ := if len = 0 then 0 else (len - 1) / perWord + 1

def optionWordCount (len : ℕ) : ℕ := wordCount len wordBits

def weightWordCount (len : ℕ) : ℕ := wordCount len weightsPerWord

/-- Set the bit of an option that is opted for, in words that reach as far. -/
def packOption (words : Words) (option : Bool × ℕ) : Words :=
  if option.1 then
    words.set (option.2 / wordBits)
      (words.getD (option.2 / wordBits) 0 ||| ((1 : BitVec 64) <<< (option.2 % wordBits)))
  else words

def packVoteOptions (options : List Bool) : Words :=
  options.zipIdx.foldl packOption (List.replicate (optionWordCount options.length) 0)

def unpackVoteOptions (words : Words) (len : ℕ) : Except ArchiveFault (List Bool) := do
  failIf (words.length < optionWordCount len) (.error .invalidPackedLength)
  pure ((List.range len).map (isBitSet words))

/-- Clearing does not make the words longer. -/
def clearPackedBit (words : Words) (index : ℕ) : Words :=
  match words[index / wordBits]? with
  | some current =>
    words.set (index / wordBits) (current &&& ~~~((1 : BitVec 64) <<< (index % wordBits)))
  | none => words

/-- Set the field of a weight, in words that reach as far. -/
def packField (words : Words) (weight : ℕ × ℕ) : Except ArchiveFault Words := do
  let value ← packWeight weight.1
  let word := weight.2 / weightsPerWord
  let shift := weight.2 % weightsPerWord * weightBits
  pure (words.set word (words.getD word 0 ||| (value <<< shift)))

def packWeights (weights : List ℕ) : Except ArchiveFault Words :=
  weights.zipIdx.foldlM packField (List.replicate (weightWordCount weights.length) 0)

def unpackWeights (words : Words) (len : ℕ) : Except ArchiveFault (List ℕ) := do
  failIf (words.length < weightWordCount len) (.error .invalidPackedLength)
  (List.range len).mapM (packedWeight words)

/-- One write for every option that is opted for. -/
def setOptions (options : List Bool) : Words :=
  options.zipIdx.foldl (fun words option => if option.1 then setPackedBit words option.2 else words)
    []

/-- One write for every weight. -/
def setWeights (weights : List ℕ) : Except ArchiveFault Words :=
  weights.zipIdx.foldlM (fun words weight => setPackedWeight words weight.2 weight.1) []

section WordCount

variable {len i perWord : ℕ}

/-- The words hold exactly the fields below the length. -/
theorem div_lt_wordCount (h : i < len) : i / perWord < wordCount len perWord := by
  rw [wordCount, if_neg (by omega), Nat.lt_succ_iff]
  exact Nat.div_le_div_right (by omega)

theorem wordCount_le (h : 0 < len → (len - 1) / perWord < i) : wordCount len perWord ≤ i := by
  rw [wordCount]
  split_ifs with hzero
  · exact Nat.zero_le i
  · exact h (Nat.pos_of_ne_zero hzero)

end WordCount

/-! ## Options -/

section Options

variable {words : Words} {options : List Bool} {i j n : ℕ}

/-- In words that reach as far, packing an option is writing its bit. -/
theorem packOption_eq (hi : i / 64 < words.length) (opted : Bool) :
    packOption words (opted, i) = if opted then setPackedBit words i else words := by
  rw [packOption, setPackedBit, extend_of_le (show i / wordBits + 1 ≤ words.length from hi)]
  rfl

theorem setPackedBit_extend (hi : i / 64 < n) :
    setPackedBit (extend words n) i = extend (setPackedBit words i) n := by
  rw [setPackedBit_eq_write, setPackedBit_eq_write, write_extend hi]

/-- Packing into longer words lengthens what single writes give. -/
theorem foldl_packOption (hn : ∀ j, j < i + options.length → j / 64 < n) :
    (options.zipIdx i).foldl packOption (extend words n) =
      extend ((options.zipIdx i).foldl
        (fun words option => if option.1 then setPackedBit words option.2 else words) words) n := by
  induction options generalizing i words with
  | nil => rfl
  | cons opted options ih =>
    rw [List.length_cons] at hn
    have hi : i / 64 < n := hn i (by omega)
    have hlength : i / 64 < (extend words n).length := by
      rw [extend_length]
      exact lt_max_of_lt_right hi
    rw [List.zipIdx_cons, List.foldl_cons, List.foldl_cons, packOption_eq hlength,
      setPackedBit_extend hi]
    cases opted with
    | true => exact ih fun j hj => hn j (by omega)
    | false => exact ih fun j hj => hn j (by omega)

theorem isBitSet_setOptions (words : Words) (options : List Bool) (i j : ℕ) :
    isBitSet ((options.zipIdx i).foldl
        (fun words option => if option.1 then setPackedBit words option.2 else words) words) j =
      (decide (i ≤ j) && options.getD (j - i) false || isBitSet words j) := by
  induction options generalizing i words with
  | nil => simp
  | cons opted options ih =>
    have hhead : isBitSet (if opted = true then setPackedBit words i else words) j =
        (decide (j = i) && opted || isBitSet words j) := by
      cases opted with
      | true => rw [if_pos rfl, isBitSet_setPackedBit, Bool.and_true]
      | false => simp
    rw [List.zipIdx_cons, List.foldl_cons, ih, hhead]
    rcases Nat.lt_trichotomy i j with hlt | rfl | hgt
    · have hsub : j - i = j - (i + 1) + 1 := by omega
      rw [hsub, List.getD_cons_succ]
      simp [hlt, hlt.le, hlt.ne']
    · simp
    · simp [hgt.ne, hgt.not_ge, show ¬ i + 1 ≤ j by omega]

/-- Packing gives the words of the single writes, lengthened to the counted ones. -/
theorem packVoteOptions_eq (options : List Bool) :
    packVoteOptions options = extend (setOptions options) (optionWordCount options.length) := by
  rw [packVoteOptions, setOptions, ← extend_nil]
  exact foldl_packOption fun j hj => div_lt_wordCount (by omega)

theorem isBitSet_extend (words : Words) (n j : ℕ) :
    isBitSet (extend words n) j = isBitSet words j := by
  rw [isBitSet_eq_read, isBitSet_eq_read, PackedFields.read, getD_extend, PackedFields.read]

theorem isBitSet_packVoteOptions (options : List Bool) (j : ℕ) :
    isBitSet (packVoteOptions options) j = options.getD j false := by
  rw [packVoteOptions_eq, isBitSet_extend, setOptions, isBitSet_setOptions]
  simp

/-- What was packed is read back. -/
theorem unpackVoteOptions_packVoteOptions (options : List Bool) :
    unpackVoteOptions (packVoteOptions options) options.length = .ok options := by
  have hlength : optionWordCount options.length ≤ (packVoteOptions options).length := by
    rw [packVoteOptions_eq, extend_length]
    exact le_max_right _ _
  rw [unpackVoteOptions, failIf_of_not (not_lt.mpr hlength), ok_bind]
  refine congrArg Except.ok (List.ext_getElem (by simp) fun j hj hj' => ?_)
  rw [List.getElem_map, List.getElem_range, isBitSet_packVoteOptions, List.getD_eq_getElem _ _ hj']

/-- In words that reach as far, clearing a bit is a write. -/
theorem clearPackedBit_eq_write (hi : i / 64 < words.length) :
    clearPackedBit words i = write 64 words i 0#1 := by
  have hmask : (BitVec.allOnes 1).setWidth 64 = 1 := by decide
  have hzero : (0#1).setWidth 64 = 0#64 := by decide
  rw [clearPackedBit, wordBits, List.getElem?_eq_getElem hi, write, insertField, mul_one, hmask,
    hzero, BitVec.zero_shiftLeft, BitVec.or_zero,
    extend_of_le (show i / 64 + 1 ≤ words.length from hi), List.getD_eq_getElem _ _ hi]

/-- A cleared bit reads as not set, and the others as before. -/
theorem isBitSet_clearPackedBit (words : Words) (i j : ℕ) :
    isBitSet (clearPackedBit words i) j = (!decide (j = i) && isBitSet words j) := by
  by_cases hi : i / 64 < words.length
  · rw [clearPackedBit_eq_write hi, isBitSet_eq_read, isBitSet_eq_read,
      read_write (by norm_num) (by norm_num)]
    split_ifs with h <;> simp [h]
  · have hnone : words[i / wordBits]? = none := List.getElem?_eq_none (not_lt.mp hi)
    rw [clearPackedBit, hnone]
    by_cases h : j = i
    · rw [h, isBitSet, hnone]
      simp
    · simp [h]

end Options

/-! ## Weights -/

section Weights

variable {words : Words} {weights : List ℕ} {i j n : ℕ}

/-- A weight that the model of the vote allows. -/
def ValidWeight (weight : ℕ) : Prop := minVoteWeight ≤ weight ∧ weight ≤ maxVoteWeight

instance (weight : ℕ) : Decidable (ValidWeight weight) := inferInstanceAs (Decidable (_ ∧ _))

/-- The fields of a list of weights. -/
def fieldsOf (weights : List ℕ) : List (BitVec 7) := weights.map (BitVec.ofNat 7)

theorem packWeight_of_not {weight : ℕ} (h : ¬ ValidWeight weight) :
    packWeight weight = .error (.error .invalidVoteWeight) := by
  have hrange : weight < minVoteWeight ∨ maxVoteWeight < weight := by
    unfold ValidWeight at h
    omega
  rw [packWeight, failIf, if_pos hrange]
  rfl

theorem packWeight_of_valid {weight : ℕ} (h : ValidWeight weight) :
    packWeight weight = .ok (BitVec.ofNat 64 weight) := packWeight_eq_ok.mpr ⟨h, rfl⟩

theorem setPackedWeight_of_valid {weight : ℕ} (h : ValidWeight weight) :
    setPackedWeight words i weight = .ok (write 9 words i (BitVec.ofNat 7 weight)) :=
  setPackedWeight_eq_ok.mpr ⟨h, rfl⟩

theorem setPackedWeight_of_not {weight : ℕ} (h : ¬ ValidWeight weight) :
    setPackedWeight words i weight = .error (.error .invalidVoteWeight) := by
  rw [setPackedWeight, packWeight_of_not h]
  rfl

/-- In words that reach as far, packing a weight into a field that is zero is writing it. -/
theorem packField_of_valid {weight : ℕ} (h : ValidWeight weight) (hi : i / 9 < words.length)
    (hzero : PackedFields.read 7 9 words i = 0) :
    packField words (weight, i) = .ok (write 9 words i (BitVec.ofNat 7 weight)) := by
  have hvalue : (BitVec.ofNat 7 weight).setWidth 64 = BitVec.ofNat 64 weight := by
    refine BitVec.eq_of_toNat_eq ?_
    have hle : weight ≤ 100 := h.2
    rw [BitVec.toNat_setWidth, BitVec.toNat_ofNat, BitVec.toNat_ofNat]
    omega
  rw [packField, packWeight_of_valid h, ok_bind, write, insertField_of_zero hzero, hvalue,
    extend_of_le (show i / 9 + 1 ≤ words.length from hi)]
  rfl

theorem packField_of_not {weight : ℕ} (h : ¬ ValidWeight weight) :
    packField words (weight, i) = .error (.error .invalidVoteWeight) := by
  rw [packField, packWeight_of_not h]
  rfl

/-- Single writes of a list of weights: the first weight out of range stops them. -/
theorem foldlM_setPackedWeight (weights : List ℕ) (i : ℕ) (words : Words) :
    (weights.zipIdx i).foldlM (fun words weight => setPackedWeight words weight.2 weight.1) words =
      if ∀ weight ∈ weights, ValidWeight weight then
        .ok (writeFrom 9 i (fieldsOf weights) words)
      else .error (.error .invalidVoteWeight) := by
  induction weights generalizing i words with
  | nil => simp [fieldsOf, writeFrom, pure, Except.pure]
  | cons weight weights ih =>
    rw [List.zipIdx_cons, List.foldlM_cons]
    simp only [List.forall_mem_cons]
    by_cases hvalid : ValidWeight weight
    · rw [setPackedWeight_of_valid hvalid, ok_bind, ih]
      simp only [hvalid, true_and]
      rfl
    · rw [setPackedWeight_of_not hvalid, if_neg (fun h => hvalid h.1)]
      rfl

/-- Packing into fields that are zero does the same. -/
theorem foldlM_packField (weights : List ℕ) (i : ℕ) (words : Words)
    (hlength : ∀ j, j < i + weights.length → j / 9 < words.length)
    (hzero : ∀ j, i ≤ j → PackedFields.read 7 9 words j = 0) :
    (weights.zipIdx i).foldlM packField words =
      (weights.zipIdx i).foldlM (fun words weight => setPackedWeight words weight.2 weight.1)
        words := by
  induction weights generalizing i words with
  | nil => rfl
  | cons weight weights ih =>
    rw [List.length_cons] at hlength
    rw [List.zipIdx_cons, List.foldlM_cons, List.foldlM_cons]
    by_cases hvalid : ValidWeight weight
    · rw [packField_of_valid hvalid (hlength i (by omega)) (hzero i le_rfl),
        setPackedWeight_of_valid hvalid, ok_bind, ok_bind]
      refine ih (i + 1) _ (fun j hj => ?_) fun j hj => ?_
      · rw [write_length]
        exact lt_max_of_lt_left (hlength j (by omega))
      · rw [read_write (by norm_num) (by norm_num), if_neg (by omega)]
        exact hzero j (by omega)
    · rw [packField_of_not hvalid, setPackedWeight_of_not hvalid]
      rfl

theorem read_replicate (n j : ℕ) :
    PackedFields.read 7 9 (List.replicate n (0 : BitVec 64)) j = 0 := by
  rw [PackedFields.read, ← extend_nil, getD_extend, List.getD_nil]
  simp

/-- The words of the single writes are as many as are counted out for packing. -/
theorem writeFrom_replicate (fields : List (BitVec 7)) :
    writeFrom 9 0 fields (List.replicate (weightWordCount fields.length) (0 : BitVec 64)) =
      writeFrom 9 0 fields [] := by
  have hcounted : ∀ j, j < 0 + fields.length → j / 9 < weightWordCount fields.length :=
    fun j hj => div_lt_wordCount (by omega)
  rw [← extend_nil, writeFrom_extend fields 0 [] hcounted, extend_of_le]
  refine wordCount_le fun hpos => div_lt_length_writeFrom fields [] (Nat.zero_le _) ?_
  omega

theorem setWeights_eq (weights : List ℕ) :
    setWeights weights =
      if ∀ weight ∈ weights, ValidWeight weight then .ok (writeFrom 9 0 (fieldsOf weights) [])
      else .error (.error .invalidVoteWeight) :=
  foldlM_setPackedWeight weights 0 []

/-- Packing all weights and writing one after the other come to the same. -/
theorem packWeights_eq (weights : List ℕ) : packWeights weights = setWeights weights := by
  have hcount : weightWordCount weights.length = weightWordCount (fieldsOf weights).length := by
    rw [fieldsOf, List.length_map]
  rw [packWeights, foldlM_packField, foldlM_setPackedWeight, setWeights_eq, hcount,
    writeFrom_replicate]
  · intro j hj
    rw [List.length_replicate]
    exact div_lt_wordCount (by omega)
  · intro j _
    exact read_replicate _ j

theorem mapM_eq_ok {α β ε : Type} {f : α → Except ε β} {g : α → β} {l : List α}
    (h : ∀ a ∈ l, f a = .ok (g a)) : l.mapM f = .ok (l.map g) := by
  induction l with
  | nil => rfl
  | cons a l ih =>
    obtain ⟨ha, hl⟩ := List.forall_mem_cons.mp h
    rw [List.mapM_cons, ha, ok_bind, ih hl, ok_bind]
    rfl

/-- What was packed is read back. -/
theorem unpackWeights_packWeights (h : ∀ weight ∈ weights, ValidWeight weight) :
    ∃ words, packWeights weights = .ok words ∧
      unpackWeights words weights.length = .ok weights := by
  have hfields : (fieldsOf weights).length = weights.length := List.length_map _
  refine ⟨writeFrom 9 0 (fieldsOf weights) [], ?_, ?_⟩
  · rw [packWeights_eq, setWeights_eq, if_pos h]
  · have hword : ∀ j < weights.length,
        j / 9 < (writeFrom 9 0 (fieldsOf weights) ([] : Words)).length :=
      fun j hj => div_lt_length_writeFrom (fieldsOf weights) [] (Nat.zero_le j) (by omega)
    have hlength : weightWordCount weights.length ≤
        (writeFrom 9 0 (fieldsOf weights) ([] : Words)).length :=
      wordCount_le fun hpos => hword _ (by omega)
    have hread : ∀ j ∈ List.range weights.length,
        packedWeight (writeFrom 9 0 (fieldsOf weights) []) j = .ok (weights.getD j 0) := by
      intro j hj
      have hlt : j < weights.length := List.mem_range.mp hj
      have hvalid : weights[j] ≤ 100 := (h _ (List.getElem_mem hlt)).2
      rw [packedWeight_eq_read, if_pos (hword j hlt), read_writeFrom (by norm_num) (by norm_num),
        if_pos ⟨Nat.zero_le j, by omega⟩, Nat.sub_zero, fieldsOf,
        List.getD_eq_getElem _ _ (by rwa [List.length_map]), List.getElem_map,
        BitVec.toNat_ofNat, Nat.mod_eq_of_lt (by omega), List.getD_eq_getElem _ _ hlt]
    rw [unpackWeights, failIf_of_not (not_lt.mpr hlength), ok_bind, mapM_eq_ok hread]
    refine congrArg Except.ok (List.ext_getElem (by simp) fun j hj hj' => ?_)
    rw [List.getElem_map, List.getElem_range, List.getD_eq_getElem _ _ hj']

end Weights

/-! ## Runs of single writes -/

inductive BitWrite where
  | setPackedBit (index : ℕ)
  | clearPackedBit (index : ℕ)

namespace BitWrite

def apply (words : Words) : BitWrite → Words
  | setPackedBit index => Archive.setPackedBit words index
  | clearPackedBit index => Archive.clearPackedBit words index

def index : BitWrite → ℕ
  | setPackedBit index | clearPackedBit index => index

def value : BitWrite → Bool
  | setPackedBit _ => true
  | clearPackedBit _ => false

end BitWrite

/-- A call that writes a weight at an index. -/
def weightStep (write : ℕ × ℕ) (words : Words) : Except ArchiveFault Words :=
  setPackedWeight words write.1 write.2

/-- The options after a run of writes, as a map. -/
def writtenBits (writes : List BitWrite) : ℕ → Bool :=
  writes.foldl (fun bits write => Function.update bits write.index write.value) fun _ => false

/-- The weights after a run of writes, as a map. A refused weight is not written. -/
def writtenWeights (writes : List (ℕ × ℕ)) : ℕ → Option ℕ :=
  writes.foldl (fun weights write => if ValidWeight write.2 then
    Function.update weights write.1 (some write.2) else weights) fun _ => none

section Runs

variable {words : Words} {j : ℕ}

theorem isBitSet_apply (words : Words) (write : BitWrite) :
    isBitSet (write.apply words) =
      Function.update (isBitSet words) write.index write.value := by
  funext j
  cases write with
  | setPackedBit index =>
    rw [BitWrite.apply, isBitSet_setPackedBit, Function.update_apply]
    by_cases h : j = index <;> simp [h, BitWrite.index, BitWrite.value]
  | clearPackedBit index =>
    rw [BitWrite.apply, isBitSet_clearPackedBit, Function.update_apply]
    by_cases h : j = index <;> simp [h, BitWrite.index, BitWrite.value]

theorem isBitSet_foldl_apply (writes : List BitWrite) (words : Words) :
    isBitSet (writes.foldl BitWrite.apply words) =
      writes.foldl (fun bits write => Function.update bits write.index write.value)
        (isBitSet words) := by
  induction writes generalizing words with
  | nil => rfl
  | cons write writes ih => rw [List.foldl_cons, List.foldl_cons, ih, isBitSet_apply]

/-- The fields hold a map: what was written is there, and everything else is zero. -/
structure Holds (words : Words) (weights : ℕ → Option ℕ) : Prop where
  written : ∀ i weight, weights i = some weight → packedWeight words i = .ok weight
  unwritten : ∀ i, weights i = none → PackedFields.read 7 9 words i = 0

theorem Holds.nil : Holds [] fun _ => none := by
  refine ⟨fun i weight h => ?_, fun i _ => read_replicate 0 i⟩
  cases h

theorem Holds.update {weights : ℕ → Option ℕ} {i weight : ℕ} (hh : Holds words weights)
    (hvalid : ValidWeight weight) :
    Holds (write 9 words i (BitVec.ofNat 7 weight)) (Function.update weights i (some weight)) := by
  have hset : setPackedWeight words i weight = .ok (write 9 words i (BitVec.ofNat 7 weight)) :=
    setPackedWeight_of_valid hvalid
  constructor
  · intro j w hw
    have hread : packedWeight (write 9 words i (BitVec.ofNat 7 weight)) i = .ok weight ∧
        (j ≠ i → packedWeight words j = .ok w →
          packedWeight (write 9 words i (BitVec.ofNat 7 weight)) j = .ok w) :=
      packedWeight_setPackedWeight hset
    rw [Function.update_apply] at hw
    split_ifs at hw with heq
    · obtain rfl := Option.some.inj hw
      rw [heq]
      exact hread.1
    · exact hread.2 heq (hh.written j w hw)
  · intro j hj
    rw [Function.update_apply] at hj
    split_ifs at hj with heq
    rw [read_write (by norm_num) (by norm_num), if_neg heq]
    exact hh.unwritten j hj

theorem Holds.runAll {weights : ℕ → Option ℕ} (hh : Holds words weights)
    (writes : List (ℕ × ℕ)) :
    Holds (runAll weightStep words writes)
      (writes.foldl (fun weights write => if ValidWeight write.2 then
        Function.update weights write.1 (some write.2) else weights) weights) := by
  induction writes generalizing words weights with
  | nil => exact hh
  | cons write writes ih =>
    rw [runAll_cons, List.foldl_cons]
    by_cases hvalid : ValidWeight write.2
    · rw [if_pos hvalid, commit_of_ok (setPackedWeight_of_valid hvalid)]
      exact ih (hh.update hvalid)
    · rw [if_neg hvalid, commit_of_error (setPackedWeight_of_not hvalid)]
      exact ih hh

/-- An index reads as its last weight. Where none was written it reads as zero, or as an error
if the words do not reach as far. -/
theorem packedWeight_runAll (writes : List (ℕ × ℕ)) (j : ℕ) :
    packedWeight (runAll weightStep [] writes) j =
      match writtenWeights writes j with
      | some weight => .ok weight
      | none => if j / 9 < (runAll weightStep ([] : Words) writes).length then .ok 0
        else .error (.error .invalidPackedLength) := by
  have hholds : Holds (runAll weightStep [] writes) (writtenWeights writes) :=
    Holds.nil.runAll writes
  cases hwritten : writtenWeights writes j with
  | some weight => exact hholds.written j weight hwritten
  | none =>
    rw [packedWeight_eq_read, hholds.unwritten j hwritten]
    rfl

/-- A count below the range of the index leaves the sum far below the largest number. -/
theorem packedWeightSum_exact (words weights : Words) {len : ℕ} (hlen : len < 2 ^ 32) :
    packedWeightSum words weights len =
      ((List.range len).map (countedWeight words weights)).sum := by
  have hfield : ∀ i, countedWeight words weights i ≤ 127 := by
    intro i
    rw [countedWeight, packedWeight_eq_read]
    split_ifs
    · exact Nat.le_of_lt_succ (PackedFields.read 7 9 weights i).isLt
    · exact Nat.zero_le _
    · exact Nat.zero_le _
  have hsum : ((List.range len).map (countedWeight words weights)).sum ≤ len * 127 := by
    have hle := List.sum_le_card_nsmul ((List.range len).map (countedWeight words weights)) 127
      (by simpa using fun i _ => hfield i)
    simpa using hle
  rw [packedWeightSum_eq, Nat.min_eq_right]
  omega

/-- Packed fields are read back as they were packed, and runs of single writes from empty fields
read as the map of the last values. Single writes of weights give the packed words, and those of
options the packed words up to the zeros at the end. -/
theorem packed_votes_are_maps :
    (∀ options, unpackVoteOptions (packVoteOptions options) options.length = .ok options) ∧
    (∀ weights, ((∃ e, packWeights weights = .error e) ↔
        ∃ weight ∈ weights, ¬ (1 ≤ weight ∧ weight ≤ 100)) ∧
      ((∀ weight ∈ weights, 1 ≤ weight ∧ weight ≤ 100) → ∃ words, packWeights weights = .ok words ∧
        unpackWeights words weights.length = .ok weights)) ∧
    (∀ writes, isBitSet (writes.foldl BitWrite.apply []) = writtenBits writes) ∧
    (∀ writes j, packedWeight (runAll weightStep [] writes) j =
      match writtenWeights writes j with
      | some weight => .ok weight
      | none => if j / 9 < (runAll weightStep ([] : Words) writes).length then .ok 0
        else .error (.error .invalidPackedLength)) ∧
    (∀ options, extend (setOptions options) (optionWordCount options.length) =
      packVoteOptions options) ∧
    (∀ weights, setWeights weights = packWeights weights) ∧
    ∀ words weights len, len < 2 ^ 32 → packedWeightSum words weights len =
      ((List.range len).map (countedWeight words weights)).sum := by
  refine ⟨unpackVoteOptions_packVoteOptions,
    fun weights => ⟨?_, fun hvalid => unpackWeights_packWeights hvalid⟩, fun writes => ?_,
    packedWeight_runAll, fun options => (packVoteOptions_eq options).symm,
    fun weights => (packWeights_eq weights).symm,
    fun words weights len hlen => packedWeightSum_exact words weights hlen⟩
  · rw [packWeights_eq, setWeights_eq]
    change _ ↔ ∃ weight ∈ weights, ¬ ValidWeight weight
    split_ifs with hvalid
    · refine iff_of_false (fun ⟨e, h⟩ => ?_) fun ⟨weight, hmem, h⟩ => h (hvalid weight hmem)
      cases h
    · push Not at hvalid
      exact iff_of_true ⟨_, rfl⟩ hvalid
  · rw [isBitSet_foldl_apply, writtenBits]
    congr 1

theorem packed_votes_are_maps_sample :
    (∃ words, packWeights [1, 50, 100] = .ok words ∧ unpackWeights words 3 = .ok [1, 50, 100]) ∧
      packedWeightSum [5] [258] 3 = ((List.range 3).map (countedWeight [5] [258])).sum := by
  obtain ⟨_, hweights, _, _, _, _, hsum⟩ := packed_votes_are_maps
  exact ⟨(hweights [1, 50, 100]).2 (by decide), hsum [5] [258] 3 (by decide)⟩

/-- An option that is not set leaves no word behind when it is written alone, and a weight that
was never written reads as zero once the words reach as far. -/
theorem singleWrites_differ :
    setOptions [false] ≠ packVoteOptions [false] ∧
      packedWeight [] 1 = .error (.error .invalidPackedLength) ∧
      packedWeight (runAll weightStep [] [(0, 5)]) 1 = .ok 0 := by
  decide

end Runs

end StellarFlow.Archive
