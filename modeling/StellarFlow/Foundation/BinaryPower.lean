import Mathlib.Tactic

/-!
# Truncated binary exponentiation

A power is the product of tabulated factors, one for every binary digit of the exponent that is
set. The factors are in fixed point and every product is truncated. The powers of neighbouring
exponents stay apart by a relative gap: it starts where the exponents differ, at the factor of
the carry, and every product afterwards costs at most one part of it.
-/
namespace StellarFlow.Foundation

/-- Multiply by the factors of the digits of `m`, the lowest digit first. -/
def binaryPower (scale : ℕ) : List ℕ → ℕ → ℕ → ℕ
  | [], _, p => p
  | f :: factors, m, p =>
    binaryPower scale factors (m / 2) (if m % 2 = 1 then p * f / scale else p)

/-- The second value is larger by at least one part in `n`. -/
def Apart (n p q : ℕ) : Prop := p * (n + 1) ≤ q * n

instance (n p q : ℕ) : Decidable (Apart n p q) := inferInstanceAs (Decidable (_ ≤ _))

/-- Every factor is apart from the product of all the factors before it. -/
def CarriesApart (scale n : ℕ) : List ℕ → ℕ → Prop
  | [], _ => True
  | f :: factors, p => Apart n p f ∧ CarriesApart scale n factors (p * f / scale)

instance CarriesApart.decide (scale n : ℕ) :
    ∀ factors p, Decidable (CarriesApart scale n factors p)
  | [], _ => .isTrue trivial
  | f :: factors, p =>
    have := CarriesApart.decide scale n factors (p * f / scale)
    inferInstanceAs (Decidable (_ ∧ _))

namespace Apart

variable {n k p q f scale : ℕ}

theorem le (h : Apart n p q) (hn : 0 < n) : p ≤ q := by
  refine Nat.le_of_mul_le_mul_right ?_ hn
  exact (Nat.mul_le_mul_left p (Nat.le_succ n)).trans h

theorem lt (h : Apart n p q) (hp : 0 < p) : p < q := by
  refine Nat.lt_of_mul_lt_mul_right (a := n) (lt_of_lt_of_le ?_ h)
  exact Nat.mul_lt_mul_of_pos_left (Nat.lt_succ_self n) hp

theorem mono (h : Apart n p q) (hn : 0 < n) (hk : n ≤ k) : Apart k p q := by
  obtain ⟨j, rfl⟩ := Nat.exists_eq_add_of_le hk
  have hle := Nat.mul_le_mul_right j (h.le hn)
  calc p * (n + j + 1) = p * (n + 1) + p * j := by ring
    _ ≤ q * n + q * j := add_le_add h hle
    _ = q * (n + j) := by ring

/-- A truncated product costs one part of the gap. -/
theorem mul_div (h : Apart n p q) (hn : 0 < n) (hs : 0 < scale)
    (hbig : n ^ 2 ≤ p * f / scale) : Apart (n + 1) (p * f / scale) (q * f / scale) := by
  have hp := Nat.div_mul_le_self (p * f) scale
  have hq : q * f < (q * f / scale + 1) * scale := by
    rw [Nat.add_mul, one_mul]
    exact Nat.lt_div_mul_add hs
  generalize p * f / scale = a at *
  generalize q * f / scale = b at *
  have hab : a * (n + 1) < (b + 1) * n := by
    refine Nat.lt_of_mul_lt_mul_right (a := scale) ?_
    calc a * (n + 1) * scale = a * scale * (n + 1) := by ring
      _ ≤ p * f * (n + 1) := Nat.mul_le_mul_right _ hp
      _ = p * (n + 1) * f := by ring
      _ ≤ q * n * f := Nat.mul_le_mul_right _ h
      _ = q * f * n := by ring
      _ < (b + 1) * scale * n := Nat.mul_lt_mul_of_pos_right hq hn
      _ = (b + 1) * n * scale := by ring
  refine Nat.le_of_mul_le_mul_right ?_ hn
  nlinarith

/-- Two values apart in at most as many parts as fit into a quotient have different quotients,
in the opposite order. -/
theorem div_lt_div {m : ℕ} (h : Apart n p q) (hn : 0 < n) (hp : 0 < p) (hm : n ≤ m / q) :
    m / q < m / p := by
  have hq : 0 < q := hp.trans_le (h.le hn)
  have hr := Nat.div_mul_le_self m q
  rw [Nat.lt_iff_add_one_le, Nat.le_div_iff_mul_le hp]
  have hqn : q * n ≤ m := by
    rw [mul_comm]
    exact (Nat.mul_le_mul_right q hm).trans hr
  refine Nat.le_of_mul_le_mul_right ?_ (Nat.succ_pos n)
  calc (m / q + 1) * p * (n + 1) = (m / q + 1) * (p * (n + 1)) := by ring
    _ ≤ (m / q + 1) * (q * n) := Nat.mul_le_mul_left _ h
    _ = m / q * q * n + q * n := by ring
    _ ≤ m * n + m := add_le_add (Nat.mul_le_mul_right n hr) hqn
    _ = m * (n + 1) := by ring

end Apart

section Powers

variable {scale n m p q : ℕ} {factors : List ℕ}

theorem le_mul_div {f : ℕ} (hs : 0 < scale) (hf : scale ≤ f) (p : ℕ) : p ≤ p * f / scale := by
  rw [Nat.le_div_iff_mul_le hs]
  exact Nat.mul_le_mul_left p hf

theorem le_binaryPower (hs : 0 < scale) (hf : ∀ f ∈ factors, scale ≤ f) (m p : ℕ) :
    p ≤ binaryPower scale factors m p := by
  induction factors generalizing m p with
  | nil => exact le_rfl
  | cons f factors ih =>
    obtain ⟨hhead, htail⟩ := List.forall_mem_cons.mp hf
    rw [binaryPower]
    refine le_trans ?_ (ih htail _ _)
    split_ifs
    · exact le_mul_div hs hhead p
    · exact le_rfl

/-- The same digits applied to values that are apart. -/
theorem Apart.binaryPower (h : Apart n p q) (hn : 0 < n) (hs : 0 < scale)
    (hf : ∀ f ∈ factors, scale ≤ f) (hbig : (n + factors.length) ^ 2 ≤ p) :
    Apart (n + factors.length) (binaryPower scale factors m p)
      (binaryPower scale factors m q) := by
  induction factors generalizing n m p q with
  | nil => exact h
  | cons f factors ih =>
    obtain ⟨hhead, htail⟩ := List.forall_mem_cons.mp hf
    have hlen : n + (f :: factors).length = n + 1 + factors.length := by
      rw [List.length_cons]
      omega
    rw [hlen] at hbig ⊢
    rw [Foundation.binaryPower, Foundation.binaryPower]
    have hle := le_mul_div hs hhead p
    split_ifs with hbit
    · have hsq : n ^ 2 ≤ (n + 1 + factors.length) ^ 2 := Nat.pow_le_pow_left (by omega) 2
      exact ih (h.mul_div hn hs ((hsq.trans hbig).trans hle)) (Nat.succ_pos n) htail
        (hbig.trans hle)
    · exact ih (h.mono hn (Nat.le_succ n)) (Nat.succ_pos n) htail hbig

/-- Neighbouring exponents give values that are apart. Below the lowest digit that is not set
the carry has consumed the product of the factors so far. -/
theorem binaryPower_succ_apart (hn : 0 < n) (hs : 0 < scale) (hf : ∀ f ∈ factors, scale ≤ f)
    (hbig : (n + factors.length) ^ 2 ≤ p) (hsp : scale ≤ p) (hc : CarriesApart scale n factors p)
    (hm : m + 1 < 2 ^ factors.length) :
    Apart (n + factors.length) (binaryPower scale factors m p)
      (binaryPower scale factors (m + 1) scale) := by
  induction factors generalizing n m p with
  | nil => simp at hm
  | cons f factors ih =>
    obtain ⟨hhead, htail⟩ := List.forall_mem_cons.mp hf
    have hlen : n + (f :: factors).length = n + 1 + factors.length := by
      rw [List.length_cons]
      omega
    rw [List.length_cons, pow_succ] at hm
    have hle := le_mul_div hs hhead p
    rw [hlen] at hbig ⊢
    rw [binaryPower, binaryPower]
    rcases Nat.mod_two_eq_zero_or_one m with h0 | h1
    · have hsucc : (m + 1) % 2 = 1 := by omega
      have hhalf : (m + 1) / 2 = m / 2 := by omega
      rw [if_neg (by omega), if_pos hsucc, hhalf, Nat.mul_div_cancel_left f hs]
      exact (hc.1.mono hn (Nat.le_succ n)).binaryPower (Nat.succ_pos n) hs htail hbig
    · have hsucc : ¬ (m + 1) % 2 = 1 := by omega
      have hhalf : (m + 1) / 2 = m / 2 + 1 := by omega
      have hsq : (n + factors.length) ^ 2 ≤ (n + 1 + factors.length) ^ 2 :=
        Nat.pow_le_pow_left (by omega) 2
      rw [if_pos h1, if_neg hsucc, hhalf]
      refine (ih hn htail (hsq.trans (hbig.trans hle)) (hsp.trans hle) hc.2 (by omega)).mono ?_ ?_
      <;> omega

end Powers

end StellarFlow.Foundation
