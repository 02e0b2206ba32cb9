import Mathlib.Data.Nat.Digits.Defs
import Mathlib.Tactic

/-!
# Comparing big-endian numbers digit by digit

Two strings of digits of one length are compared from the most significant digit on, and the
first difference decides. This is the comparison of the numbers they stand for.
-/
namespace StellarFlow.Foundation

/-- The number whose digits are listed most significant first. -/
def bigEndian (B : ℕ) (digits : List ℕ) : ℕ := Nat.ofDigits B digits.reverse

theorem bigEndian_cons (B d : ℕ) (digits : List ℕ) :
    bigEndian B (d :: digits) = bigEndian B digits + B ^ digits.length * d := by
  simp [bigEndian, Nat.ofDigits_append]

theorem bigEndian_lt {B : ℕ} (hB : 1 < B) {l : List ℕ} (h : ∀ d ∈ l, d < B) :
    bigEndian B l < B ^ l.length := by
  simpa [bigEndian] using Nat.ofDigits_lt_base_pow_length hB (l := l.reverse) (by simpa)

section Compare

variable {α : Type*} [LT α] [DecidableLT α]

/-- The first difference decides, and equal strings are at least each other. -/
def atLeast : List α → List α → Bool
  | x :: xs, y :: ys => if y < x then true else if x < y then false else atLeast xs ys
  | _, _ => true

theorem atLeast_eq_true {B : ℕ} (hB : 1 < B) {f : α → ℕ} (hf : ∀ a b, a < b ↔ f a < f b)
    (hlt : ∀ a, f a < B) {xs ys : List α} (hlength : xs.length = ys.length) :
    atLeast xs ys = true ↔ bigEndian B (ys.map f) ≤ bigEndian B (xs.map f) := by
  induction xs generalizing ys with
  | nil =>
    obtain rfl := List.length_eq_zero_iff.mp hlength.symm
    simp [atLeast]
  | cons x xs ih =>
    obtain ⟨y, ys, rfl⟩ := List.exists_cons_of_length_eq_add_one hlength.symm
    have hrest : xs.length = ys.length := Nat.succ_injective hlength
    have hx : bigEndian B (xs.map f) < B ^ ys.length := by
      simpa [hrest] using bigEndian_lt hB (l := xs.map f) (by simp [hlt])
    have hy : bigEndian B (ys.map f) < B ^ ys.length := by
      simpa using bigEndian_lt hB (l := ys.map f) (by simp [hlt])
    simp only [atLeast, List.map_cons, bigEndian_cons, List.length_map, hrest, hf]
    rcases lt_trichotomy (f x) (f y) with h | h | h
    · have hstep := Nat.mul_le_mul_left (B ^ ys.length) (Nat.succ_le_of_lt h)
      rw [Nat.mul_succ] at hstep
      rw [if_neg (by omega), if_pos h]
      simp only [Bool.false_eq_true, false_iff, not_le]
      omega
    · rw [if_neg (by omega), if_neg (by omega), ih hrest, h]
      exact (Nat.add_le_add_iff_right).symm
    · have hstep := Nat.mul_le_mul_left (B ^ ys.length) (Nat.succ_le_of_lt h)
      rw [Nat.mul_succ] at hstep
      rw [if_pos h]
      simp only [true_iff]
      omega

end Compare

end StellarFlow.Foundation
