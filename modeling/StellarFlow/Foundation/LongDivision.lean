import Mathlib.Tactic

/-!
# Long division in a register of bounded width

The numerator is scanned from the top. The partial remainder is shifted, takes in the next
bit and gives up the divisor when it can. A register of `w` bits loses what the shift moves
past its end. The loop computes quotient and remainder exactly when this never happens, and
otherwise the quotient comes out too small.
-/
namespace StellarFlow.Foundation.LongDivision

variable (w n d : ℕ)

/-- The partial remainder after the shift, with bit `i` of the numerator. -/
def shifted (i r : ℕ) : ℕ := r * 2 % 2 ^ w + n / 2 ^ i % 2

/-- Quotient and remainder, with the low `i` bits of the numerator still to be scanned. -/
def loop : ℕ → ℕ → ℕ → ℕ × ℕ
  | 0, r, q => (q, r)
  | i + 1, r, q =>
    if d ≤ shifted w n i r then loop i (shifted w n i r - d) (q + 2 ^ i)
    else loop i (shifted w n i r) q

/-- No shift of an exact partial remainder leaves the register. -/
def NothingDropped (i : ℕ) : Prop := ∀ j < i, n / 2 ^ (j + 1) % d * 2 < 2 ^ w

instance (i : ℕ) : Decidable (NothingDropped w n d i) :=
  inferInstanceAs (Decidable (∀ j < i, _))

variable {w n d}

theorem bit_lt (n i : ℕ) : n / 2 ^ i % 2 < 2 := Nat.mod_lt _ two_pos

theorem div_two_pow_succ (n i : ℕ) :
    n / 2 ^ i = n / 2 ^ (i + 1) * 2 + n / 2 ^ i % 2 := by
  rw [pow_succ, ← Nat.div_div_eq_div_mul]
  omega

/-- Only the low bits of the numerator are read. -/
theorem loop_add_mul (n m i r q : ℕ) : loop w (n + m * 2 ^ i) d i r q = loop w n d i r q := by
  induction i generalizing m r q with
  | zero => rfl
  | succ i ih =>
    have hsplit : n + m * 2 ^ (i + 1) = n + m * 2 * 2 ^ i := by ring
    have hbit : shifted w (n + m * 2 * 2 ^ i) i r = shifted w n i r := by
      unfold shifted
      rw [Nat.add_mul_div_right _ _ (Nat.two_pow_pos i), Nat.add_mul_mod_self_right]
    rw [hsplit, loop, loop, hbit]
    split_ifs
    · exact ih _ _ _
    · exact ih _ _ _

/-- The bits still to be set add up to less than the last one set. -/
theorem loop_fst_lt (i r q : ℕ) : (loop w n d i r q).1 < q + 2 ^ i := by
  induction i generalizing r q with
  | zero => simp [loop]
  | succ i ih =>
    have hpow : 2 ^ (i + 1) = 2 ^ i + 2 ^ i := by ring
    rw [loop]
    split_ifs
    · have := ih (shifted w n i r - d) (q + 2 ^ i)
      omega
    · have := ih (shifted w n i r) q
      have := Nat.two_pow_pos i
      omega

/-- The loop never accounts for more than it was given. -/
theorem loop_le (i r q : ℕ) :
    (loop w n d i r q).1 * d + (loop w n d i r q).2 ≤ q * d + 2 ^ i * r + n % 2 ^ i := by
  induction i generalizing r q with
  | zero => simp [loop, Nat.mod_one]
  | succ i ih =>
    have hmod : n % 2 ^ (i + 1) = 2 ^ i * (n / 2 ^ i % 2) + n % 2 ^ i := by
      rw [pow_succ, Nat.mod_mul, add_comm]
    have hshift : 2 ^ i * shifted w n i r ≤ 2 ^ (i + 1) * r + 2 ^ i * (n / 2 ^ i % 2) := by
      have hle : r * 2 % 2 ^ w ≤ r * 2 := Nat.mod_le _ _
      rw [shifted, mul_add, pow_succ, mul_assoc, mul_comm 2 r]
      exact Nat.add_le_add_right (Nat.mul_le_mul_left _ hle) _
    rw [loop]
    split_ifs with hd
    · refine (ih _ _).trans ?_
      have hsub : 2 ^ i * (shifted w n i r - d) + 2 ^ i * d = 2 ^ i * shifted w n i r := by
        rw [← mul_add, Nat.sub_add_cancel hd]
      rw [add_mul]
      omega
    · exact (ih _ _).trans (by omega)

section Exact

variable (hd : 0 < d)
include hd

/-- Quotient and remainder of a prefix, from those of the prefix that is a bit shorter. -/
theorem stage_restore {i : ℕ} (h : d ≤ n / 2 ^ (i + 1) % d * 2 + n / 2 ^ i % 2) :
    n / 2 ^ i / d = n / 2 ^ (i + 1) / d * 2 + 1 ∧
      n / 2 ^ i % d = n / 2 ^ (i + 1) % d * 2 + n / 2 ^ i % 2 - d := by
  have hlt := Nat.mod_lt (n / 2 ^ (i + 1)) hd
  have hbit := bit_lt n i
  have heuclid := Nat.div_add_mod (n / 2 ^ (i + 1)) d
  refine (Nat.div_mod_unique hd).mpr ⟨?_, by omega⟩
  rw [div_two_pow_succ n i]
  generalize n / 2 ^ (i + 1) = m at *
  have hexpand : d * (m / d * 2 + 1) = d * (m / d) * 2 + d := by ring
  omega

theorem stage_keep {i : ℕ} (h : n / 2 ^ (i + 1) % d * 2 + n / 2 ^ i % 2 < d) :
    n / 2 ^ i / d = n / 2 ^ (i + 1) / d * 2 ∧
      n / 2 ^ i % d = n / 2 ^ (i + 1) % d * 2 + n / 2 ^ i % 2 := by
  have heuclid := Nat.div_add_mod (n / 2 ^ (i + 1)) d
  refine (Nat.div_mod_unique hd).mpr ⟨?_, h⟩
  rw [div_two_pow_succ n i]
  generalize n / 2 ^ (i + 1) = m at *
  have hexpand : d * (m / d * 2) = d * (m / d) * 2 := by ring
  omega

/-- A shift that fits takes the loop from one exact prefix to the next. -/
theorem loop_stage {i : ℕ} (h : n / 2 ^ (i + 1) % d * 2 < 2 ^ w) :
    loop w n d (i + 1) (n / 2 ^ (i + 1) % d) (n / 2 ^ (i + 1) / d * 2 ^ (i + 1)) =
      loop w n d i (n / 2 ^ i % d) (n / 2 ^ i / d * 2 ^ i) := by
  have hshift : shifted w n i (n / 2 ^ (i + 1) % d) =
      n / 2 ^ (i + 1) % d * 2 + n / 2 ^ i % 2 := by
    rw [shifted, Nat.mod_eq_of_lt h]
  rw [loop, hshift]
  split_ifs with hle
  · obtain ⟨hdiv, hmod⟩ := stage_restore hd hle
    rw [hdiv, hmod]
    congr 1
    ring
  · obtain ⟨hdiv, hmod⟩ := stage_keep hd (not_le.mp hle)
    rw [hdiv, hmod]
    congr 1
    ring

/-- The loop divides when nothing is dropped. -/
theorem loop_eq {i : ℕ} (h : NothingDropped w n d i) :
    loop w n d i (n / 2 ^ i % d) (n / 2 ^ i / d * 2 ^ i) = (n / d, n % d) := by
  induction i with
  | zero => simp [loop]
  | succ i ih =>
    rw [loop_stage hd (h i (Nat.lt_succ_self i))]
    exact ih fun j hj => h j (hj.trans (Nat.lt_succ_self i))

/-- A dropped bit costs the quotient bit of its position, which the lower bits cannot make
up for. -/
theorem loop_fst_lt_div {i : ℕ} (hw : d ≤ 2 ^ w) (h : ¬ NothingDropped w n d i) :
    (loop w n d i (n / 2 ^ i % d) (n / 2 ^ i / d * 2 ^ i)).1 < n / d := by
  induction i with
  | zero => exact absurd (fun j hj => absurd hj (Nat.not_lt_zero j)) h
  | succ i ih =>
    by_cases hfit : n / 2 ^ (i + 1) % d * 2 < 2 ^ w
    · rw [loop_stage hd hfit]
      refine ih fun hall => h fun j hj => ?_
      rcases Nat.lt_succ_iff_lt_or_eq.mp hj with hlt | rfl
      · exact hall j hlt
      · exact hfit
    · push Not at hfit
      have hr := Nat.mod_lt (n / 2 ^ (i + 1)) hd
      have hbit := bit_lt n i
      have hdrop : n / 2 ^ (i + 1) % d * 2 % 2 ^ w = n / 2 ^ (i + 1) % d * 2 - 2 ^ w := by
        rw [Nat.mod_eq_sub_mod hfit, Nat.mod_eq_of_lt (by omega)]
      have hkeep : ¬ d ≤ shifted w n i (n / 2 ^ (i + 1) % d) := by
        rw [shifted, hdrop]
        omega
      obtain ⟨hdiv, _⟩ := stage_restore (n := n) (i := i) hd (by omega)
      have hprefix : n / 2 ^ i / d * 2 ^ i ≤ n / d := by
        rw [Nat.div_div_eq_div_mul, mul_comm (2 ^ i), ← Nat.div_div_eq_div_mul]
        exact Nat.div_mul_le_self _ _
      rw [loop, if_neg hkeep]
      refine (loop_fst_lt i _ _).trans_le (le_of_eq_of_le ?_ hprefix)
      rw [hdiv]
      ring

/-- The quotient is right exactly when nothing is dropped. -/
theorem loop_fst_eq_iff {i : ℕ} (hw : d ≤ 2 ^ w) :
    (loop w n d i (n / 2 ^ i % d) (n / 2 ^ i / d * 2 ^ i)).1 = n / d ↔
      NothingDropped w n d i := by
  constructor
  · intro heq
    by_contra h
    exact (loop_fst_lt_div hd hw h).ne heq
  · intro h
    rw [loop_eq hd h]

/-- A divisor of at most half the range never loses a bit. -/
theorem nothingDropped_of_le (hw : d * 2 ≤ 2 ^ w) (i : ℕ) : NothingDropped w n d i := by
  intro j _
  have hr := Nat.mod_lt (n / 2 ^ (j + 1)) hd
  omega

end Exact

end StellarFlow.Foundation.LongDivision
