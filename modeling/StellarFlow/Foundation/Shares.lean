import Mathlib.Tactic

/-!
# Pro-rata shares with floor division

The holder of some units of a pool is entitled to the floor of its part of a reserve.
The first lemma compares shares of two pools through the ratio of reserve to total.
The second one allows each reserve to fall one unit short and each share to be rounded
once more, and bounds what the product of two shares can lose that way.
-/
namespace StellarFlow.Foundation

/-- The part of a reserve that belongs to the given units of a total. -/
def share (reserve units total : ℕ) : ℕ := reserve * units / total

theorem share_mul_le (reserve units total : ℕ) :
    share reserve units total * total ≤ reserve * units :=
  Nat.div_mul_le_self _ _

theorem lt_share_succ_mul (reserve units : ℕ) {total : ℕ} (h : 0 < total) :
    reserve * units < (share reserve units total + 1) * total := by
  rw [mul_comm _ total]
  exact Nat.lt_mul_div_succ _ h

theorem share_zero_units (reserve total : ℕ) : share reserve 0 total = 0 := by
  simp [share]

/-- An amount that is turned into units and back never grows. -/
theorem share_share_le (n s i : ℕ) : share (share n s i) i s ≤ n := by
  exact Nat.div_le_of_le_mul ((share_mul_le n s i).trans_eq (mul_comm n s))

/-- It is kept exactly when it is a whole number of units. -/
theorem le_share_share_iff {n s i : ℕ} (hs : 0 < s) :
    n ≤ share (share n s i) i s ↔ i ∣ n * s := by
  rw [share, Nat.le_div_iff_mul_le hs]
  constructor
  · intro hle
    exact Dvd.intro_left _ (le_antisymm (share_mul_le n s i) hle)
  · exact fun hdvd => (Nat.div_mul_cancel hdvd).ge

/-- A pool with more reserve per unit gives no smaller share. -/
theorem share_le_share {r r' t t' : ℕ} (u : ℕ) (ht : 0 < t) (ht' : 0 < t')
    (h : r * t' ≤ r' * t) : share r u t ≤ share r' u t' := by
  rw [share, share, Nat.le_div_iff_mul_le ht']
  apply Nat.le_of_mul_le_mul_right (c := t) _ ht
  calc r * u / t * t' * t = (r * u / t * t) * t' := by ring
    _ ≤ r * u * t' := Nat.mul_le_mul_right _ (Nat.div_mul_le_self _ _)
    _ = r * t' * u := by ring
    _ ≤ r' * t * u := Nat.mul_le_mul_right _ h
    _ = r' * u * t := by ring

/-- Taking out the floor of a proportional part leaves at least the same ratio. -/
theorem sub_share_mul (r : ℕ) {n t : ℕ} (hn : n ≤ t) :
    r * (t - n) ≤ (r - share r n t) * t := by
  have h := share_mul_le r n t
  have hr : r * (t - n) + r * n = r * t := by
    rw [← mul_add, Nat.sub_add_cancel hn]
  rw [Nat.sub_mul]
  omega

/-- If the product of the reserves per unit is kept up to one unit in each reserve, the
product of the shares is kept up to two units in each share. -/
theorem share_mul_share_le {r s r' s' t t' u : ℕ} (ht : 0 < t) (ht' : 0 < t') (hu : u ≤ t')
    (h : r * s * t' ^ 2 ≤ (r' + 1) * (s' + 1) * t ^ 2) :
    share r u t * share s u t ≤ (share r' u t' + 2) * (share s' u t' + 2) := by
  have hr : (r' + 1) * u ≤ (share r' u t' + 2) * t' := by
    have := (lt_share_succ_mul r' u ht').le
    nlinarith
  have hs : (s' + 1) * u ≤ (share s' u t' + 2) * t' := by
    have := (lt_share_succ_mul s' u ht').le
    nlinarith
  have hpos : 0 < t ^ 2 * t' ^ 2 := by positivity
  apply Nat.le_of_mul_le_mul_right (c := t ^ 2 * t' ^ 2) _ hpos
  calc share r u t * share s u t * (t ^ 2 * t' ^ 2)
      = (share r u t * t) * (share s u t * t) * t' ^ 2 := by ring
    _ ≤ (r * u) * (s * u) * t' ^ 2 :=
        Nat.mul_le_mul_right _ (Nat.mul_le_mul (share_mul_le r u t) (share_mul_le s u t))
    _ = r * s * t' ^ 2 * u ^ 2 := by ring
    _ ≤ (r' + 1) * (s' + 1) * t ^ 2 * u ^ 2 := Nat.mul_le_mul_right _ h
    _ = ((r' + 1) * u) * ((s' + 1) * u) * t ^ 2 := by ring
    _ ≤ ((share r' u t' + 2) * t') * ((share s' u t' + 2) * t') * t ^ 2 :=
        Nat.mul_le_mul_right _ (Nat.mul_le_mul hr hs)
    _ = (share r' u t' + 2) * (share s' u t' + 2) * (t ^ 2 * t' ^ 2) := by ring

section Ratios

/-! Comparisons of reserve per unit, cleared of denominators. -/

variable {r s r' s' t t' a n x : ℤ}

/-- Units minted within the proportion of an addition do not lower the ratio. -/
theorem ratio_le_of_mint (h : n * r ≤ a * t) : r * (t + n) ≤ (r + a) * t := by
  have hl : r * (t + n) = r * t + n * r := by ring
  have hr : (r + a) * t = r * t + a * t := by ring
  rw [hl, hr]
  exact Int.add_le_add_left h _

/-- A payout within the proportion of the burned units does not lower the ratio. -/
theorem ratio_le_of_burn (h : x * t ≤ r * n) : r * (t - n) ≤ (r - x) * t := by
  have hl : r * (t - n) = r * t - r * n := by ring
  have hr : (r - x) * t = r * t - x * t := by ring
  rw [hl, hr]
  exact Int.sub_le_sub_left h _

/-- If neither ratio falls, neither does the product of the two. -/
theorem ratio_mul_le (hr0 : 0 ≤ r * t') (hs0 : 0 ≤ s * t') (hr : r * t' ≤ r' * t)
    (hs : s * t' ≤ s' * t) : r * s * t' ^ 2 ≤ r' * s' * t ^ 2 := by
  calc r * s * t' ^ 2 = (r * t') * (s * t') := by ring
    _ ≤ (r' * t) * (s' * t) := mul_le_mul hr hs hs0 (hr0.trans hr)
    _ = r' * s' * t ^ 2 := by ring

/-- Paying out the floor of a part smaller than the whole leaves something. -/
theorem floor_part_lt (hr : 0 < r) (ht : 0 < t) (hn : n < t) : r * n / t < r := by
  apply Int.ediv_lt_of_lt_mul ht
  exact mul_lt_mul_of_pos_left hn hr

end Ratios

section Apportionment

variable (amount : ℤ) {total : ℤ}

/-- Floors of the parts of an amount, scaled back, never exceed it. -/
theorem mul_sum_floor_le (h : 0 < total) (xs : List ℤ) :
    total * (xs.map fun x => amount * x / total).sum ≤ amount * xs.sum := by
  induction xs with
  | nil => simp
  | cons x xs ih =>
    have hx := Int.mul_ediv_self_le (x := amount * x) (ne_of_gt h)
    simp only [List.map_cons, List.sum_cons, mul_add]
    linarith

/-- Each floor loses less than one unit. -/
theorem mul_sum_lt_floor (h : 0 < total) (xs : List ℤ) :
    amount * xs.sum + xs.length ≤
      total * ((xs.map fun x => amount * x / total).sum + xs.length) := by
  induction xs with
  | nil => simp
  | cons x xs ih =>
    have hx := Int.lt_mul_ediv_self_add (x := amount * x) h
    simp only [List.map_cons, List.sum_cons, List.length_cons, Nat.cast_succ, mul_add] at ih ⊢
    linarith

/-- Splitting an amount by parts that add up to the total pays out at most the amount and
leaves less than one unit for each part. -/
theorem split_bounds (h : 0 < total) {xs : List ℤ} (hsum : xs.sum = total) :
    (xs.map fun x => amount * x / total).sum ≤ amount ∧
      amount < (xs.map fun x => amount * x / total).sum + xs.length := by
  have hle := mul_sum_floor_le amount h xs
  have hlt := mul_sum_lt_floor amount h xs
  have hlen : (0 : ℤ) < xs.length := by
    cases xs with
    | nil => exact absurd hsum (ne_of_lt h)
    | cons x xs => simp only [List.length_cons, Nat.cast_succ]; omega
  rw [hsum, mul_comm amount total] at hle hlt
  exact ⟨le_of_mul_le_mul_left hle h, lt_of_mul_lt_mul_left (by linarith) h.le⟩

end Apportionment

end StellarFlow.Foundation
