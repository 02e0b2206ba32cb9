import Mathlib.Tactic

/-!
# Bitmaps over the integers

A set of integers is kept in words of a fixed width. Division rounding down finds the word of an
integer and the remainder its bit, so that neighbours in a word are neighbours among the
integers on both sides of zero. A masked word gives the nearest member below or above an
integer by counting zeros.
-/
namespace StellarFlow.Foundation.Bitmap

variable {w : ℕ}

/-- The bit of an integer. -/
def bitAt (load : ℤ → BitVec w) (c : ℤ) : Bool := (load (c / w)).getLsbD (c % w).toNat

/-- The bits of a word up to the given one. -/
def upTo (x : BitVec w) (b : ℕ) : BitVec w := x &&& (BitVec.allOnes w >>> (w - 1 - b))

/-- The bits of a word from the given one on. -/
def fromOn (x : BitVec w) (b : ℕ) : BitVec w := x &&& (BitVec.allOnes w <<< b)

section Words

variable {x : BitVec w} {b i : ℕ}

theorem getLsbD_upTo (hb : b < w) : (upTo x b).getLsbD i = (x.getLsbD i && decide (i ≤ b)) := by
  have hiff : w - 1 - b + i < w ↔ i ≤ b := by omega
  rw [upTo, BitVec.getLsbD_and, BitVec.getLsbD_ushiftRight, BitVec.getLsbD_allOnes,
    decide_eq_decide.mpr hiff]

theorem getLsbD_fromOn : (fromOn x b).getLsbD i = (x.getLsbD i && decide (b ≤ i)) := by
  rw [fromOn, BitVec.getLsbD_and, BitVec.getLsbD_shiftLeft, BitVec.getLsbD_allOnes]
  by_cases hi : i < w
  · have hsub : i - b < w := by omega
    have hiff : ¬ i < b ↔ b ≤ i := Nat.not_lt
    rw [decide_eq_true hi, decide_eq_true hsub, Bool.true_and, Bool.and_true, ← decide_not,
      decide_eq_decide.mpr hiff]
  · rw [BitVec.getLsbD_of_ge x i (Nat.le_of_not_lt hi), Bool.false_and, Bool.false_and]

/-- Counting the leading zeros gives the highest bit that is set. -/
theorem highest_spec (hx : x ≠ 0#w) : w - 1 - x.clz.toNat < w ∧
    x.getLsbD (w - 1 - x.clz.toNat) = true ∧
    ∀ i, w - 1 - x.clz.toNat < i → x.getLsbD i = false := by
  have hw : 0 < w := by
    rcases Nat.eq_zero_or_pos w with rfl | hw
    · exact absurd (BitVec.eq_nil x) hx
    · exact hw
  refine ⟨by omega, BitVec.getLsbD_true_clz_of_ne_zero hw hx, fun i hi => ?_⟩
  refine Nat.testBit_lt_two_pow (BitVec.toNat_lt_two_pow_sub_clz.trans_le ?_)
  exact Nat.pow_le_pow_right (by norm_num) (by omega)

/-- Masking all bits but one tells whether it is set. -/
theorem and_one_shiftLeft_ne_zero (hb : b < w) :
    x &&& 1#w <<< b ≠ 0#w ↔ x.getLsbD b = true := by
  have hbit : ∀ i, (x &&& 1#w <<< b).getLsbD i = (x.getLsbD i && decide (b = i)) := by
    intro i
    rw [BitVec.getLsbD_and, ← BitVec.twoPow_eq, BitVec.getLsbD_twoPow, decide_eq_true hb,
      Bool.true_and]
  constructor
  · intro hne
    by_contra hclear
    refine hne (BitVec.eq_of_getLsbD_eq fun i _ => ?_)
    rw [hbit, BitVec.getLsbD_zero]
    by_cases hi : b = i
    · rw [← hi, Bool.eq_false_of_not_eq_true hclear, Bool.false_and]
    · rw [decide_eq_false hi, Bool.and_false]
  · intro hset hzero
    have hb' := hbit b
    rw [hzero, BitVec.getLsbD_zero, hset, decide_eq_true rfl] at hb'
    cases hb'

theorem clear_of_eq_zero (hx : x = 0#w) (i : ℕ) : x.getLsbD i = false := by
  rw [hx, BitVec.getLsbD_zero]

end Words

section Signed

variable {load : ℤ → BitVec w} {c : ℤ} {b j : ℕ}

theorem bitAt_word (hj : j < w) (q : ℤ) : bitAt load (q * w + j) = (load q).getLsbD j := by
  have hjw : (j : ℤ) < w := by exact_mod_cast hj
  have hw : (w : ℤ) ≠ 0 := by omega
  rw [bitAt, add_comm, Int.add_mul_ediv_right _ _ hw, Int.ediv_eq_zero_of_lt (by omega) hjw,
    zero_add, Int.add_mul_emod_self_right, Int.emod_eq_of_lt (by omega) hjw, Int.toNat_natCast]

/-- The integers between the ends of a word are its bits. -/
theorem bitAt_within (load : ℤ → BitVec w) (q c' : ℤ) (hlow : q * w ≤ c')
    (hhigh : c' < q * w + w) :
    ∃ i : ℕ, c' = q * w + i ∧ bitAt load c' = (load q).getLsbD i := by
  obtain ⟨i, hi⟩ := Int.eq_ofNat_of_zero_le (show 0 ≤ c' - q * w by omega)
  have hc' : c' = q * w + i := by omega
  refine ⟨i, hc', ?_⟩
  rw [hc', bitAt_word (by omega)]

/-- An integer is the start of its word plus its bit. -/
theorem word_add_bit (hw : 0 < w) (c : ℤ) : ∃ b : ℕ, b < w ∧ (c % w).toNat = b ∧
    c = c / w * w + b := by
  have hpos : (0 : ℤ) < w := by exact_mod_cast hw
  have h0 := Int.emod_nonneg c hpos.ne'
  have hlt := Int.emod_lt_of_pos c hpos
  have heq := Int.ediv_mul_add_emod c w
  exact ⟨(c % w).toNat, by omega, rfl, by omega⟩

/-- Toggling one bit of one word toggles one integer. -/
theorem bitAt_toggle (hw : 0 < w) (load : ℤ → BitVec w) (c c' : ℤ) :
    bitAt (Function.update load (c / w) (load (c / w) ^^^ (1#w <<< (c % w).toNat))) c' =
      (bitAt load c' ^^ decide (c' = c)) := by
  obtain ⟨b, hb, hbit, hc⟩ := word_add_bit hw c
  obtain ⟨b', _, hbit', hc'⟩ := word_add_bit hw c'
  rw [bitAt, bitAt, hbit, hbit']
  by_cases hq : c' / w = c / w
  · have hiff : b = b' ↔ c' = c := by
      rw [hc, hc', hq]
      omega
    rw [hq, Function.update_self, BitVec.getLsbD_xor, ← BitVec.twoPow_eq, BitVec.getLsbD_twoPow,
      decide_eq_true hb, Bool.true_and, decide_eq_decide.mpr hiff]
  · have hne : c' ≠ c := fun h => hq (congrArg (· / (w : ℤ)) h)
    rw [Function.update_of_ne hq, decide_eq_false hne, Bool.xor_false]

/-- The highest bit up to that of an integer is its nearest member at or below it in its word. -/
theorem down_hit (hw : 0 < w) (hx : upTo (load (c / w)) (c % w).toNat ≠ 0#w) :
    ∃ j : ℕ, w - 1 - (upTo (load (c / w)) (c % w).toNat).clz.toNat = j ∧ j ≤ (c % w).toNat ∧
      bitAt load (c - ((c % w).toNat - j : ℕ)) = true ∧
      ∀ c', c - ((c % w).toNat - j : ℕ) < c' → c' ≤ c → bitAt load c' = false := by
  obtain ⟨b, hb, hbit, hc⟩ := word_add_bit hw c
  rw [hbit] at hx ⊢
  obtain ⟨hlt, hset, habove⟩ := highest_spec hx
  generalize w - 1 - (upTo (load (c / w)) b).clz.toNat = j at *
  rw [getLsbD_upTo hb, Bool.and_eq_true, decide_eq_true_eq] at hset
  have hstart : c - (b - j : ℕ) = c / w * w + j := by omega
  refine ⟨j, rfl, hset.2, ?_, fun c' hlow hhigh => ?_⟩
  · rw [hstart, bitAt_word hlt]
    exact hset.1
  · obtain ⟨i, hi, hword⟩ := bitAt_within load (c / w) c' (by omega) (by omega)
    have hclear := habove i (by omega)
    rw [getLsbD_upTo hb, decide_eq_true (show i ≤ b by omega), Bool.and_true] at hclear
    rw [hword, hclear]

theorem down_miss (hw : 0 < w) (hx : upTo (load (c / w)) (c % w).toNat = 0#w) :
    ∀ c', c - (c % w).toNat ≤ c' → c' ≤ c → bitAt load c' = false := by
  obtain ⟨b, hb, hbit, hc⟩ := word_add_bit hw c
  rw [hbit] at hx ⊢
  intro c' hlow hhigh
  obtain ⟨i, hi, hword⟩ := bitAt_within load (c / w) c' (by omega) (by omega)
  have hclear := clear_of_eq_zero hx i
  rw [getLsbD_upTo hb, decide_eq_true (show i ≤ b by omega), Bool.and_true] at hclear
  rw [hword, hclear]

/-- The lowest bit from that of an integer on is its nearest member at or above it. -/
theorem up_hit (hw : 0 < w) (hx : fromOn (load (c / w)) (c % w).toNat ≠ 0#w) :
    ∃ j : ℕ, (fromOn (load (c / w)) (c % w).toNat).ctz.toNat = j ∧ (c % w).toNat ≤ j ∧ j < w ∧
      bitAt load (c + (j - (c % w).toNat : ℕ)) = true ∧
      ∀ c', c ≤ c' → c' < c + (j - (c % w).toNat : ℕ) → bitAt load c' = false := by
  obtain ⟨b, hb, hbit, hc⟩ := word_add_bit hw c
  rw [hbit] at hx ⊢
  have hset := BitVec.getLsbD_true_ctz_of_ne_zero hx
  have hbelow : ∀ i < (fromOn (load (c / w)) b).ctz.toNat,
      (fromOn (load (c / w)) b).getLsbD i = false :=
    fun i hi => BitVec.getLsbD_false_of_lt_ctz hi
  generalize (fromOn (load (c / w)) b).ctz.toNat = j at *
  rw [getLsbD_fromOn, Bool.and_eq_true, decide_eq_true_eq] at hset
  have hlt : j < w := BitVec.lt_of_getLsbD hset.1
  have hstart : c + (j - b : ℕ) = c / w * w + j := by omega
  refine ⟨j, rfl, hset.2, hlt, ?_, fun c' hlow hhigh => ?_⟩
  · rw [hstart, bitAt_word hlt]
    exact hset.1
  · obtain ⟨i, hi, hword⟩ := bitAt_within load (c / w) c' (by omega) (by omega)
    have hclear := hbelow i (by omega)
    rw [getLsbD_fromOn, decide_eq_true (show b ≤ i by omega), Bool.and_true] at hclear
    rw [hword, hclear]

theorem up_miss (hw : 0 < w) (hx : fromOn (load (c / w)) (c % w).toNat = 0#w) :
    ∀ c', c ≤ c' → c' ≤ c + (w - 1 - (c % w).toNat : ℕ) → bitAt load c' = false := by
  obtain ⟨b, hb, hbit, hc⟩ := word_add_bit hw c
  rw [hbit] at hx ⊢
  intro c' hlow hhigh
  obtain ⟨i, hi, hword⟩ := bitAt_within load (c / w) c' (by omega) (by omega)
  have hclear := clear_of_eq_zero hx i
  rw [getLsbD_fromOn, decide_eq_true (show b ≤ i by omega), Bool.and_true] at hclear
  rw [hword, hclear]

end Signed

end StellarFlow.Foundation.Bitmap
