import Mathlib.Data.List.GetD
import Mathlib.Tactic

/-!
# Splitting an amount by weights

Every recipient but the last gets the floor of its share, and the last one gets what is left. The
whole amount is split, and the last recipient gains less than one unit for each recipient.
-/
namespace StellarFlow.Foundation

/-- The floors of the shares of some recipients. -/
def floors (amount total : ℕ) (weights : List ℕ) : List ℕ :=
  weights.map fun weight => amount * weight / total

/-- The parts of recipients of whom the last has the weight given apart. -/
def floorSplit (amount total : ℕ) (weights : List ℕ) : List ℕ :=
  floors amount total weights ++ [amount - (floors amount total weights).sum]

/-- What is asked of parts: they add up, all but the last are floors, and the last is its own share
up to less than one unit for each recipient. -/
structure FairSplit (amount : ℕ) (weights parts : List ℕ) : Prop where
  length_eq : parts.length = weights.length
  sum_eq : parts.sum = amount
  floor_eq : ∀ i, i + 1 < weights.length →
    parts.getD i 0 = amount * weights.getD i 0 / weights.sum
  last_lt : parts.getD (weights.length - 1) 0 * weights.sum <
    amount * weights.getD (weights.length - 1) 0 + weights.length * weights.sum

section Split

variable {amount total last : ℕ} {weights : List ℕ}

@[simp] theorem floors_length : (floors amount total weights).length = weights.length :=
  List.length_map _

@[simp] theorem floors_nil : floors amount total [] = [] := rfl

@[simp] theorem floors_cons (weight : ℕ) :
    floors amount total (weight :: weights) =
      amount * weight / total :: floors amount total weights := rfl

/-- The floors lose less than one unit each. -/
theorem mul_floors_sum_bounds (amount : ℕ) (htotal : 0 < total) (weights : List ℕ) :
    total * (floors amount total weights).sum ≤ amount * weights.sum ∧
      amount * weights.sum ≤
        total * (floors amount total weights).sum + weights.length * total := by
  induction weights with
  | nil => simp [floors]
  | cons weight weights ih =>
    obtain ⟨hle, hge⟩ := ih
    have hmod := Nat.div_add_mod (amount * weight) total
    have hlt := Nat.mod_lt (amount * weight) htotal
    rw [floors_cons, List.sum_cons, List.sum_cons, List.length_cons, Nat.mul_add, Nat.mul_add,
      Nat.succ_mul]
    omega

theorem floors_sum_le (htotal : 0 < total) (hle : weights.sum ≤ total) :
    (floors amount total weights).sum ≤ amount := by
  refine Nat.le_of_mul_le_mul_left ?_ htotal
  calc total * (floors amount total weights).sum ≤ amount * weights.sum :=
        (mul_floors_sum_bounds amount htotal weights).1
    _ ≤ amount * total := Nat.mul_le_mul_left amount hle
    _ = total * amount := Nat.mul_comm _ _

/-- The split is fair when the total is that of all weights. -/
theorem floorSplit_fair (htotal : 0 < (weights ++ [last]).sum) :
    FairSplit amount (weights ++ [last])
      (floorSplit amount (weights ++ [last]).sum weights) := by
  have hsum : (weights ++ [last]).sum = weights.sum + last := by simp
  have hle : weights.sum ≤ (weights ++ [last]).sum := by omega
  obtain ⟨_, hge⟩ := mul_floors_sum_bounds amount htotal weights
  have hrest : (floors amount (weights ++ [last]).sum weights).sum ≤ amount :=
    floors_sum_le htotal hle
  constructor
  · simp [floorSplit]
  · rw [floorSplit, List.sum_append, List.sum_singleton]
    omega
  · intro i hi
    have hlt : i < weights.length := by
      rw [List.length_append, List.length_singleton] at hi
      omega
    rw [floorSplit, List.getD_append _ _ _ _ (by rwa [floors_length]),
      List.getD_append _ _ _ _ hlt, floors, List.getD_eq_getElem _ _ (by rwa [List.length_map]),
      List.getElem_map, List.getD_eq_getElem _ _ hlt]
  · have hlast : (weights ++ [last]).length - 1 = weights.length := by simp
    rw [hlast, floorSplit, List.getD_append_right _ _ _ _ (by simp), floors_length, Nat.sub_self,
      List.getD_append_right _ _ _ _ le_rfl, Nat.sub_self, List.getD_cons_zero,
      List.getD_cons_zero, List.length_append, List.length_singleton, Nat.succ_mul]
    generalize (floors amount (weights ++ [last]).sum weights).sum = given at *
    obtain ⟨rest, rfl⟩ := Nat.exists_eq_add_of_le hrest
    rw [Nat.add_sub_cancel_left]
    have hparts : (given + rest) * (weights ++ [last]).sum =
        (given + rest) * weights.sum + (given + rest) * last := by rw [hsum, Nat.mul_add]
    have hwhole : (given + rest) * (weights ++ [last]).sum =
        (weights ++ [last]).sum * given + rest * (weights ++ [last]).sum := by ring
    omega

end Split

end StellarFlow.Foundation
