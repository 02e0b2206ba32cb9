import Mathlib.Tactic

/-!
# Truncated compounding

A value grows or decays by a fixed factor, one period after the other, and each period
truncates the result. Growth stays within a constant of the exact power. Decay loses at
least one unit a period and reaches zero.

An exact value after many periods is evaluated by doubling: every intermediate value is
computed before it is used, and only logarithmically many calls are nested.
-/
namespace StellarFlow.Foundation.Compounding

/-- One period of growth by the factor `(m + 1) / m`. -/
def grow (m p : ℕ) : ℕ := p * (m + 1) / m

/-- One period of decay by the inverse factor. -/
def decay (m p : ℕ) : ℕ := p * m / (m + 1)

section Growth

variable {m p : ℕ} (hm : 0 < m)
include hm

theorem grow_eq (p : ℕ) : grow m p = p + p / m := by
  rw [grow, mul_add, mul_one, add_comm, Nat.add_mul_div_right _ _ hm, add_comm]

theorem lt_grow (hp : m ≤ p) : p < grow m p := by
  have hpos := Nat.div_pos hp hm
  rw [grow_eq hm]
  omega

theorem le_grow (p : ℕ) : p ≤ grow m p := by
  rw [grow_eq hm]
  exact Nat.le_add_right _ _

theorem le_iterate_grow (n p : ℕ) : p ≤ (grow m)^[n] p := by
  induction n with
  | zero => rfl
  | succ n ih =>
    rw [Function.iterate_succ_apply']
    exact ih.trans (le_grow hm _)

/-- From one unit for each part on, every period gains. -/
theorem strictMono_iterate_grow (hp : m ≤ p) : StrictMono fun n => (grow m)^[n] p := by
  refine strictMono_nat_of_lt_succ fun n => ?_
  rw [Function.iterate_succ_apply']
  exact lt_grow hm (hp.trans (le_iterate_grow hm n p))

theorem lt_iterate_grow {n : ℕ} (hp : m ≤ p) (hn : 0 < n) : p < (grow m)^[n] p :=
  strictMono_iterate_grow hm hp hn

omit hm in
theorem iterate_grow_mul_le (n p : ℕ) : (grow m)^[n] p * m ^ n ≤ p * (m + 1) ^ n := by
  induction n with
  | zero => simp
  | succ n ih =>
    rw [Function.iterate_succ_apply']
    calc grow m ((grow m)^[n] p) * m ^ (n + 1)
        = grow m ((grow m)^[n] p) * m * m ^ n := by ring
      _ ≤ (grow m)^[n] p * (m + 1) * m ^ n :=
          Nat.mul_le_mul_right _ (Nat.div_mul_le_self _ _)
      _ = (grow m)^[n] p * m ^ n * (m + 1) := by ring
      _ ≤ p * (m + 1) ^ n * (m + 1) := Nat.mul_le_mul_right _ ih
      _ = p * (m + 1) ^ (n + 1) := by ring

/-- What exceeds the truncation bound grows by at least the exact factor. -/
theorem grow_excess (p : ℕ) : (p + 1 - m) * (m + 1) ≤ (grow m p + 1 - m) * m := by
  rcases Nat.lt_or_ge p m with hlt | hle
  · simp [Nat.sub_eq_zero_of_le hlt]
  · have hg : p * (m + 1) < grow m p * m + m := by
      have heuclid := Nat.div_add_mod (p * (m + 1)) m
      have hrest := Nat.mod_lt (p * (m + 1)) hm
      rw [grow, mul_comm _ m]
      omega
    have hge := hle.trans (le_grow hm p)
    obtain ⟨k, rfl⟩ := Nat.exists_eq_add_of_le hle
    obtain ⟨l, hl⟩ := Nat.exists_eq_add_of_le hge
    rw [hl] at hg ⊢
    rw [show m + k + 1 - m = k + 1 by omega, show m + l + 1 - m = l + 1 by omega]
    nlinarith

theorem iterate_grow_excess (n p : ℕ) :
    (p + 1 - m) * (m + 1) ^ n ≤ ((grow m)^[n] p + 1 - m) * m ^ n := by
  induction n with
  | zero => simp
  | succ n ih =>
    rw [Function.iterate_succ_apply']
    calc (p + 1 - m) * (m + 1) ^ (n + 1)
        = (p + 1 - m) * (m + 1) ^ n * (m + 1) := by ring
      _ ≤ ((grow m)^[n] p + 1 - m) * m ^ n * (m + 1) := Nat.mul_le_mul_right _ ih
      _ = ((grow m)^[n] p + 1 - m) * (m + 1) * m ^ n := by ring
      _ ≤ (grow m ((grow m)^[n] p) + 1 - m) * m * m ^ n :=
          Nat.mul_le_mul_right _ (grow_excess hm _)
      _ = (grow m ((grow m)^[n] p) + 1 - m) * m ^ (n + 1) := by ring

omit hm in
/-- A bound on the value, from the exact power. -/
theorem iterate_grow_mul_lt {n p b c : ℕ} (h : p * (m + 1) ^ n * c < b * m ^ n) :
    (grow m)^[n] p * c < b := by
  refine Nat.lt_of_mul_lt_mul_right (a := m ^ n) (lt_of_le_of_lt ?_ h)
  calc (grow m)^[n] p * c * m ^ n
      = (grow m)^[n] p * m ^ n * c := by ring
    _ ≤ p * (m + 1) ^ n * c := Nat.mul_le_mul_right _ (iterate_grow_mul_le n p)

theorem le_iterate_grow_mul {n p b c : ℕ} (h : b * m ^ n ≤ (p + 1 - m) * (m + 1) ^ n * c) :
    b ≤ (grow m)^[n] p * c := by
  refine Nat.le_of_mul_le_mul_right (h.trans ?_) (Nat.pow_pos hm (n := n))
  calc (p + 1 - m) * (m + 1) ^ n * c
      ≤ ((grow m)^[n] p + 1 - m) * m ^ n * c := Nat.mul_le_mul_right _ (iterate_grow_excess hm n p)
    _ = ((grow m)^[n] p + 1 - m) * c * m ^ n := by ring
    _ ≤ (grow m)^[n] p * c * m ^ n := by
        refine Nat.mul_le_mul_right _ (Nat.mul_le_mul_right _ ?_)
        omega

end Growth

section Decay

variable {m p : ℕ}

@[simp] theorem decay_zero (m : ℕ) : decay m 0 = 0 := by simp [decay]

theorem decay_lt (hp : 0 < p) : decay m p < p := by
  rw [decay, Nat.div_lt_iff_lt_mul (Nat.succ_pos m)]
  nlinarith

theorem decay_le (m p : ℕ) : decay m p ≤ p := by
  rcases Nat.eq_zero_or_pos p with rfl | hp
  · simp
  · exact (decay_lt hp).le

theorem iterate_decay_antitone (m p : ℕ) : Antitone fun n => (decay m)^[n] p := by
  refine antitone_nat_of_succ_le fun n => ?_
  rw [Function.iterate_succ_apply']
  exact decay_le m _

theorem iterate_decay_le (m n p : ℕ) : (decay m)^[n] p ≤ p :=
  iterate_decay_antitone m p (Nat.zero_le n)

/-- As long as something is left, it has been strictly more before. -/
theorem iterate_decay_lt {n k : ℕ} (hnk : n < k) (hpos : 0 < (decay m)^[n] p) :
    (decay m)^[k] p < (decay m)^[n] p := by
  refine (iterate_decay_antitone m p (Nat.succ_le_of_lt hnk)).trans_lt ?_
  simp only [Nat.succ_eq_add_one, Function.iterate_succ_apply']
  exact decay_lt hpos

/-- A value within one part loses one unit. -/
theorem decay_of_le (hp : p ≤ m + 1) : decay m p = p - 1 := by
  rcases Nat.eq_zero_or_pos p with rfl | hpos
  · simp
  · obtain ⟨k, rfl⟩ := Nat.exists_eq_add_of_lt hpos
    rw [decay, zero_add, Nat.add_sub_cancel]
    refine Nat.div_eq_of_lt_le ?_ ?_ <;> nlinarith

theorem iterate_decay_of_le (n : ℕ) (hp : p ≤ m + 1) : (decay m)^[n] p = p - n := by
  induction n with
  | zero => rfl
  | succ n ih =>
    rw [Function.iterate_succ_apply', ih, decay_of_le (by omega)]
    omega

end Decay

section Doubling

/-- Hand on a number once its value is known. -/
def force {α : Type*} (x : ℕ) (g : ℕ → α) : α :=
  match x with
  | 0 => g 0
  | y + 1 => g (y + 1)

theorem force_eq {α : Type*} (x : ℕ) (g : ℕ → α) : force x g = g x := by
  cases x <;> rfl

/-- Twice as many steps for every level. -/
def doubling (f : ℕ → ℕ) : ℕ → ℕ → ℕ
  | 0, x => f x
  | k + 1, x => force (doubling f k x) (doubling f k)

theorem doubling_eq (f : ℕ → ℕ) (k x : ℕ) : doubling f k x = f^[2 ^ k] x := by
  induction k generalizing x with
  | zero => rfl
  | succ k ih =>
    rw [doubling, force_eq, ih, ih, ← Function.iterate_add_apply]
    congr 1
    ring

/-- Doubling over blocks of steps. -/
theorem doubling_iterate_eq (f : ℕ → ℕ) (b k x : ℕ) :
    doubling f^[b] k x = f^[b * 2 ^ k] x := by
  rw [doubling_eq, Function.iterate_mul]

end Doubling

end StellarFlow.Foundation.Compounding
