import Mathlib.Data.List.GetD
import Mathlib.Tactic

/-!
# Small fields packed into words

A list of words of `w` bits holds fields of `b` bits, `k` to a word, from the low end of the word
on. Fields beyond the words are zero. A write lengthens the list as far as its field, clears
the field and then sets its bits.
-/
namespace StellarFlow.Foundation.PackedFields

variable {w b k : ℕ}

/-- A word with the field from bit `p` on overwritten. -/
def insertField (word : BitVec w) (p : ℕ) (v : BitVec b) : BitVec w :=
  (word &&& ~~~((BitVec.allOnes b).setWidth w <<< p)) ||| (v.setWidth w <<< p)

/-- At least the given number of words. -/
def extend (words : List (BitVec w)) (n : ℕ) : List (BitVec w) :=
  words ++ List.replicate (n - words.length) 0

/-- The field with the given index. -/
def read (b k : ℕ) (words : List (BitVec w)) (i : ℕ) : BitVec b :=
  (words.getD (i / k) 0).extractLsb' (i % k * b) b

/-- The words after the field with the given index was overwritten. -/
def write (k : ℕ) (words : List (BitVec w)) (i : ℕ) (v : BitVec b) : List (BitVec w) :=
  (extend words (i / k + 1)).set (i / k) (insertField (words.getD (i / k) 0) (i % k * b) v)

theorem getLsbD_insertField (word : BitVec w) (p : ℕ) (v : BitVec b) {q : ℕ} (hq : q < w) :
    (insertField word p v).getLsbD q =
      if p ≤ q ∧ q < p + b then v.getLsbD (q - p) else word.getLsbD q := by
  have hsub : q - p < w := by omega
  simp only [insertField, BitVec.getLsbD_or, BitVec.getLsbD_and, BitVec.getLsbD_not,
    BitVec.getLsbD_shiftLeft, BitVec.getLsbD_setWidth, BitVec.getLsbD_allOnes, hq, hsub,
    decide_true, Bool.true_and]
  by_cases hlow : q < p
  · simp [hlow, Nat.not_le.mpr hlow]
  · by_cases hhigh : q < p + b
    · simp [hlow, show p ≤ q by omega, hhigh, show q - p < b by omega]
    · have hout : b ≤ q - p := by omega
      simp [hlow, hhigh, Nat.not_lt.mpr hout, BitVec.getLsbD_of_ge v (q - p) hout]

@[simp] theorem extend_length (words : List (BitVec w)) (n : ℕ) :
    (extend words n).length = max words.length n := by
  simp only [extend, List.length_append, List.length_replicate]
  omega

@[simp] theorem getD_extend (words : List (BitVec w)) (n i : ℕ) :
    (extend words n).getD i 0 = words.getD i 0 := by
  rw [extend]
  by_cases hi : i < words.length
  · exact List.getD_append _ _ _ _ hi
  · rw [List.getD_append_right _ _ _ _ (by omega), List.getD_eq_default words _ (by omega)]
    by_cases hj : i - words.length < n - words.length
    · rw [List.getD_eq_getElem _ _ (by simpa using hj), List.getElem_replicate]
    · exact List.getD_eq_default _ _ (by simpa using hj)

@[simp] theorem write_length (words : List (BitVec w)) (i : ℕ) (v : BitVec b) :
    (write k words i v).length = max words.length (i / k + 1) := by
  simp [write]

theorem getD_write (words : List (BitVec w)) (i : ℕ) (v : BitVec b) (m : ℕ) :
    (write k words i v).getD m 0 =
      if m = i / k then insertField (words.getD (i / k) 0) (i % k * b) v
      else words.getD m 0 := by
  by_cases h : m = i / k
  · subst h
    rw [if_pos rfl, write, List.getD_eq_getElem?_getD, List.getElem?_set_self (by simp),
      Option.getD_some]
  · rw [if_neg h, write, List.getD_eq_getElem?_getD, List.getElem?_set_ne (Ne.symm h),
      ← List.getD_eq_getElem?_getD, getD_extend]

/-- Different fields of a word do not overlap. -/
theorem fields_disjoint {p q t : ℕ} (ht : t < b) (hne : p ≠ q) :
    ¬ (p * b ≤ q * b + t ∧ q * b + t < p * b + b) := by
  rintro ⟨hle, hlt⟩
  obtain h | h := Nat.lt_or_gt_of_ne hne
  · have := Nat.mul_le_mul_right b (Nat.succ_le_of_lt h)
    rw [Nat.succ_mul] at this
    omega
  · have := Nat.mul_le_mul_right b (Nat.succ_le_of_lt h)
    rw [Nat.succ_mul] at this
    omega

/-- A field reads as it was last written, whatever was written to the others. -/
theorem read_write (hk : 0 < k) (hw : k * b ≤ w) (words : List (BitVec w)) (i j : ℕ)
    (v : BitVec b) :
    read b k (write k words i v) j = if j = i then v else read b k words j := by
  have hbit : ∀ n t, t < b → n % k * b + t < w := by
    intro n t ht
    have hmod := Nat.mul_le_mul_right b (Nat.succ_le_of_lt (Nat.mod_lt n hk))
    rw [Nat.succ_mul] at hmod
    omega
  have hij := Nat.div_add_mod j k
  have hii := Nat.div_add_mod i k
  rw [read, getD_write]
  apply BitVec.eq_of_getLsbD_eq
  intro t ht
  by_cases hword : j / k = i / k
  · rw [if_pos hword, BitVec.getLsbD_extractLsb', getLsbD_insertField _ _ _ (hbit j t ht)]
    by_cases hfield : j % k = i % k
    · rw [if_pos (show j = i by rw [← hij, ← hii, hword, hfield]), hfield,
        if_pos (by omega), Nat.add_sub_cancel_left]
      simp [ht]
    · have hne : j ≠ i := fun h => hfield (by rw [h])
      rw [if_neg hne, if_neg (fields_disjoint ht (Ne.symm hfield)), read,
        BitVec.getLsbD_extractLsb', hword]
  · have hne : j ≠ i := fun h => hword (by rw [h])
    rw [if_neg hword, if_neg hne, read]

/-! ## Words that were lengthened before -/

theorem extend_of_le {words : List (BitVec w)} {n : ℕ} (h : n ≤ words.length) :
    extend words n = words := by
  rw [extend, Nat.sub_eq_zero_of_le h, List.replicate_zero, List.append_nil]

theorem extend_nil (n : ℕ) : extend ([] : List (BitVec w)) n = List.replicate n 0 := by
  rw [extend, List.nil_append, List.length_nil, Nat.sub_zero]

/-- Words of one length with the same entries are the same. -/
theorem words_ext {words words' : List (BitVec w)} (hlength : words.length = words'.length)
    (h : ∀ m, words.getD m 0 = words'.getD m 0) : words = words' := by
  refine List.ext_getElem hlength fun m hm hm' => ?_
  have hget := h m
  rwa [List.getD_eq_getElem _ _ hm, List.getD_eq_getElem _ _ hm'] at hget

/-- A write within the words that are there already does not depend on their number. -/
theorem write_extend {i n : ℕ} (hi : i / k < n) (words : List (BitVec w)) (v : BitVec b) :
    write k (extend words n) i v = extend (write k words i v) n := by
  refine words_ext ?_ fun m => ?_
  · rw [write_length, extend_length, extend_length, write_length]
    omega
  · rw [getD_write, getD_extend, getD_extend, getD_extend, getD_write]

/-- Setting the bits of a field that is zero is a write. -/
theorem insertField_of_zero {word : BitVec w} {p : ℕ} (hzero : word.extractLsb' p b = 0)
    (v : BitVec b) : insertField word p v = word ||| (v.setWidth w <<< p) := by
  apply BitVec.eq_of_getLsbD_eq
  intro q hq
  rw [getLsbD_insertField word p v hq, BitVec.getLsbD_or, BitVec.getLsbD_shiftLeft,
    BitVec.getLsbD_setWidth]
  have hsub : q - p < w := by omega
  by_cases hlow : q < p
  · simp [hlow, Nat.not_le.mpr hlow]
  · have hbit : q < p + b → word.getLsbD q = false := by
      intro hhigh
      have hfield := congrArg (fun x => x.getLsbD (q - p)) hzero
      simp only [BitVec.getLsbD_extractLsb', show q - p < b by omega, decide_true, Bool.true_and,
        Nat.add_sub_cancel' (not_lt.mp hlow)] at hfield
      exact hfield.trans (by simp)
    by_cases hhigh : q < p + b
    · rw [if_pos ⟨not_lt.mp hlow, hhigh⟩, hbit hhigh]
      simp [hlow, hq, hsub]
    · have hout : b ≤ q - p := by omega
      simp [hlow, hhigh, BitVec.getLsbD_of_ge v (q - p) hout]

/-! ## Fields in a row -/

/-- Write values to the fields from a first one on. -/
def writeFrom (k : ℕ) : ℕ → List (BitVec b) → List (BitVec w) → List (BitVec w)
  | _, [], words => words
  | i, v :: vs, words => writeFrom k (i + 1) vs (write k words i v)

/-- Every written field reads as its value, and the others as before. -/
theorem read_writeFrom (hk : 0 < k) (hw : k * b ≤ w) (vs : List (BitVec b)) (i j : ℕ)
    (words : List (BitVec w)) :
    read b k (writeFrom k i vs words) j =
      if i ≤ j ∧ j < i + vs.length then vs.getD (j - i) 0 else read b k words j := by
  induction vs generalizing i words with
  | nil => simp [writeFrom]
  | cons v vs ih =>
    rw [writeFrom, ih, read_write hk hw, List.length_cons]
    by_cases hij : j = i
    · subst hij
      simp
    · by_cases hlater : i + 1 ≤ j ∧ j < i + 1 + vs.length
      · rw [if_pos hlater, if_pos (by omega), show j - i = j - (i + 1) + 1 by omega,
          List.getD_cons_succ]
      · rw [if_neg hlater, if_neg hij, if_neg (by omega)]

theorem length_le_writeFrom (vs : List (BitVec b)) (i : ℕ) (words : List (BitVec w)) :
    words.length ≤ (writeFrom k i vs words).length := by
  induction vs generalizing i words with
  | nil => exact le_rfl
  | cons v vs ih =>
    refine le_trans ?_ (ih (i + 1) (write k words i v))
    rw [write_length]
    exact le_max_left _ _

/-- Every written field has a word. -/
theorem div_lt_length_writeFrom (vs : List (BitVec b)) {i j : ℕ} (words : List (BitVec w))
    (hlower : i ≤ j) (hupper : j < i + vs.length) :
    j / k < (writeFrom k i vs words).length := by
  induction vs generalizing i words with
  | nil => rw [List.length_nil] at hupper; omega
  | cons v vs ih =>
    rw [List.length_cons] at hupper
    rcases Nat.eq_or_lt_of_le hlower with rfl | hlt
    · refine lt_of_lt_of_le ?_ (length_le_writeFrom vs (i + 1) (write k words i v))
      rw [write_length]
      exact lt_max_of_lt_right (Nat.lt_succ_self _)
    · exact ih (write k words i v) hlt (by omega)

theorem writeFrom_extend {n : ℕ} (vs : List (BitVec b)) (i : ℕ) (words : List (BitVec w))
    (hn : ∀ j, j < i + vs.length → j / k < n) :
    writeFrom k i vs (extend words n) = extend (writeFrom k i vs words) n := by
  induction vs generalizing i words with
  | nil => rfl
  | cons v vs ih =>
    rw [List.length_cons] at hn
    rw [writeFrom, writeFrom, write_extend (hn i (by omega)),
      ih (i + 1) (write k words i v) fun j hj => hn j (by omega)]

end StellarFlow.Foundation.PackedFields
