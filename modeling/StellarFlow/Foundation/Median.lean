import Mathlib.Data.List.GetD
import Mathlib.Data.List.Sort
import StellarFlow.Foundation.ShiftSort

/-!
# Medians of counted values

Equal values of a list are counted instead of repeated. The counted values are sorted, and the
value at a position of the list is found by adding up the counts. The median found in this way is
the median of the list.
-/
namespace StellarFlow.Foundation

/-- The middle value of a sorted list, or the mean of both, rounded toward zero. -/
def middle (sorted : List ℤ) : ℤ :=
  if sorted.length % 2 = 1 then sorted.getD (sorted.length / 2) 0
  else (sorted.getD (sorted.length / 2 - 1) 0 + sorted.getD (sorted.length / 2) 0).tdiv 2

def median (l : List ℤ) : ℤ := middle (l.insertionSort (· ≤ ·))

@[simp] theorem median_singleton (x : ℤ) : median [x] = x := by
  simp [median, middle]

/-- Sorting forgets the order of the entries. -/
theorem insertionSort_eq_of_perm {l l' : List ℤ} (h : l.Perm l') :
    l.insertionSort (· ≤ ·) = l'.insertionSort (· ≤ ·) :=
  (((List.perm_insertionSort _ l).trans h).trans
    (List.perm_insertionSort _ l').symm).eq_of_pairwise (fun _ _ _ _ h h' => le_antisymm h h')
    (List.pairwise_insertionSort _ l) (List.pairwise_insertionSort _ l')

theorem shiftSort_eq_insertionSort (l : List ℤ) :
    shiftSort (fun key x => decide (key < x)) l = l.insertionSort (· ≤ ·) := by
  have hsorted : (shiftSort (fun key x => decide (key < x)) l).Pairwise (· ≤ ·) := by
    refine (shiftSort_pairwise_not (fun x y h => ?_) (fun x y z h h' => ?_) _).imp fun h => ?_
    · simp only [decide_eq_true_eq, decide_eq_false_iff_not] at h ⊢
      omega
    · simp only [decide_eq_false_iff_not] at h h' ⊢
      omega
    · simp only [decide_eq_false_iff_not] at h
      omega
  exact ((shiftSort_perm _ l).trans (List.perm_insertionSort _ l).symm).eq_of_pairwise
    (fun _ _ _ _ h h' => le_antisymm h h') hsorted (List.pairwise_insertionSort _ l)

namespace Counted

variable {α : Type*} [DecidableEq α]

/-- Count one more occurrence of a value. -/
def bump (x : α) : List (α × ℕ) → List (α × ℕ)
  | [] => [(x, 1)]
  | (value, count) :: rest =>
    if value = x then (value, count + 1) :: rest else (value, count) :: bump x rest

def compact (l : List α) : List (α × ℕ) := l.foldl (fun pairs x => bump x pairs) []

/-- The value at a position, where some occurrences and a last value were passed already. -/
def valueAt (target : ℕ) : ℕ → α → List (α × ℕ) → α
  | _, last, [] => last
  | passed, _, (value, count) :: rest =>
    if target < passed + count then value else valueAt target (passed + count) value rest

def expand (pairs : List (α × ℕ)) : List α := pairs.flatMap fun pair => List.replicate pair.2 pair.1

def total (pairs : List (α × ℕ)) : ℕ := (pairs.map Prod.snd).sum

variable {pairs pairs' : List (α × ℕ)} {x : α} {l : List α}

/-! ## Counting -/

theorem expand_bump (x : α) (pairs : List (α × ℕ)) :
    (expand (bump x pairs)).Perm (x :: expand pairs) := by
  induction pairs with
  | nil => exact List.Perm.refl _
  | cons pair rest ih =>
    obtain ⟨value, count⟩ := pair
    rw [bump]
    split_ifs with h
    · subst h
      exact List.Perm.refl _
    · exact (ih.append_left (List.replicate count value)).trans List.perm_middle

theorem expand_foldl (l : List α) (pairs : List (α × ℕ)) :
    (expand (l.foldl (fun pairs x => bump x pairs) pairs)).Perm (l ++ expand pairs) := by
  induction l generalizing pairs with
  | nil => exact List.Perm.refl _
  | cons x l ih =>
    exact (ih (bump x pairs)).trans (((expand_bump x pairs).append_left l).trans
      List.perm_middle)

/-- No occurrence is lost. -/
theorem expand_compact (l : List α) : (expand (compact l)).Perm l := by
  have h := expand_foldl l []
  rwa [show expand ([] : List (α × ℕ)) = [] from rfl, List.append_nil] at h

omit [DecidableEq α] in
theorem expand_perm (h : pairs.Perm pairs') : (expand pairs).Perm (expand pairs') :=
  h.flatMap_right _

omit [DecidableEq α] in
@[simp] theorem expand_length (pairs : List (α × ℕ)) : (expand pairs).length = total pairs := by
  simp [expand, total, List.length_flatMap]

theorem length_bump_le (x : α) (pairs : List (α × ℕ)) :
    (bump x pairs).length ≤ pairs.length + 1 := by
  induction pairs with
  | nil => exact le_rfl
  | cons pair rest ih =>
    rw [bump]
    split_ifs
    · exact Nat.le_succ _
    · exact Nat.succ_le_succ ih

theorem length_foldl_le (l : List α) (pairs : List (α × ℕ)) :
    (l.foldl (fun pairs x => bump x pairs) pairs).length ≤ pairs.length + l.length := by
  induction l generalizing pairs with
  | nil => exact le_rfl
  | cons x l ih =>
    have h := ih (bump x pairs)
    have hb := length_bump_le x pairs
    rw [List.foldl_cons, List.length_cons]
    omega

theorem length_compact_le (l : List α) : (compact l).length ≤ l.length := by
  have h := length_foldl_le l []
  rwa [List.length_nil, Nat.zero_add] at h

/-! ## Values at positions -/

omit [DecidableEq α] in
theorem valueAt_eq_getD {target passed : ℕ} (last d : α) (hle : passed ≤ target)
    (hlt : target < passed + total pairs) :
    valueAt target passed last pairs = (expand pairs).getD (target - passed) d := by
  induction pairs generalizing passed last with
  | nil =>
    rw [total, List.map_nil, List.sum_nil] at hlt
    omega
  | cons pair rest ih =>
    obtain ⟨value, count⟩ := pair
    have hexpand : expand ((value, count) :: rest) = List.replicate count value ++ expand rest :=
      rfl
    have htotal : total ((value, count) :: rest) = count + total rest := rfl
    have hlength : (List.replicate count value).length = count := List.length_replicate
    rw [valueAt, hexpand, List.getD_eq_getElem?_getD]
    split_ifs with h
    · rw [List.getElem?_append_left (by omega), List.getElem?_replicate, if_pos (by omega),
        Option.getD_some]
    · rw [ih value (by omega) (by omega), List.getElem?_append_right (by omega), hlength,
        Nat.sub_add_eq, List.getD_eq_getElem?_getD]

omit [DecidableEq α] in
theorem valueAt_zero {target : ℕ} (last d : α) (hlt : target < total pairs) :
    valueAt target 0 last pairs = (expand pairs).getD target d := by
  rw [valueAt_eq_getD last d (Nat.zero_le target) (by omega), Nat.sub_zero]

/-! ## Sorted values -/

/-- Sort the counted values. -/
def sortPairs (pairs : List (ℤ × ℕ)) : List (ℤ × ℕ) :=
  shiftSort (fun key pair => decide (key.1 < pair.1)) pairs

theorem expand_pairwise {pairs : List (ℤ × ℕ)} (h : pairs.Pairwise fun x y => x.1 ≤ y.1) :
    (expand pairs).Pairwise (· ≤ ·) := by
  induction pairs with
  | nil => exact List.Pairwise.nil
  | cons pair rest ih =>
    obtain ⟨hfirst, hrest⟩ := List.pairwise_cons.mp h
    change (List.replicate pair.2 pair.1 ++ expand rest).Pairwise (· ≤ ·)
    refine List.pairwise_append.mpr ⟨List.pairwise_replicate.mpr (.inr le_rfl), ih hrest,
      fun x hx y hy => ?_⟩
    obtain rfl := List.eq_of_mem_replicate hx
    obtain ⟨p, hp, hy⟩ := List.mem_flatMap.mp hy
    obtain rfl := List.eq_of_mem_replicate hy
    exact hfirst p hp

/-- The sorted counted values spell out the sorted list. -/
theorem expand_sortPairs_compact (l : List ℤ) :
    expand (sortPairs (compact l)) = l.insertionSort (· ≤ ·) := by
  have hsorted : (sortPairs (compact l)).Pairwise fun x y => x.1 ≤ y.1 := by
    refine (shiftSort_pairwise_not (fun x y h => ?_) (fun x y z h h' => ?_) _).imp fun h => ?_
    · simp only [decide_eq_true_eq, decide_eq_false_iff_not] at h ⊢
      omega
    · simp only [decide_eq_false_iff_not] at h h' ⊢
      omega
    · simp only [decide_eq_false_iff_not] at h
      omega
  have hperm : (expand (sortPairs (compact l))).Perm (l.insertionSort (· ≤ ·)) :=
    ((expand_perm (shiftSort_perm _ _)).trans (expand_compact l)).trans
      (List.perm_insertionSort _ l).symm
  exact hperm.eq_of_pairwise (fun _ _ _ _ h h' => le_antisymm h h') (expand_pairwise hsorted)
    (List.pairwise_insertionSort _ l)

end Counted

/-! ## Majorities -/

section Majority

/-- In a list where a property passes on to everything before, the position of an entry tells
whether it has the property. -/
theorem getElem_iff_lt_countP {α : Type*} {P : α → Bool} {l : List α} {k : ℕ}
    (hbefore : l.Pairwise fun x y => P y = true → P x = true) (hk : k < l.length) :
    P l[k] = true ↔ k < l.countP P := by
  induction l generalizing k with
  | nil => exact absurd hk (Nat.not_lt_zero k)
  | cons x l ih =>
    obtain ⟨hfirst, hrest⟩ := List.pairwise_cons.mp hbefore
    cases hx : P x with
    | true =>
      rw [List.countP_cons_of_pos hx]
      cases k with
      | zero => simp [hx]
      | succ k =>
        rw [List.getElem_cons_succ, ih hrest (Nat.lt_of_succ_lt_succ hk), Nat.succ_lt_succ_iff]
    | false =>
      have hnone : ∀ y ∈ l, P y ≠ true := by
        intro y hy hPy
        rw [hfirst y hy hPy] at hx
        cases hx
      rw [List.countP_cons_of_neg (by simp [hx]), List.countP_eq_zero.mpr hnone]
      cases k with
      | zero => simp [hx]
      | succ k => simpa using hnone _ (List.getElem_mem (Nat.lt_of_succ_lt_succ hk))

/-- Half of a sum, rounded toward zero, lies where both terms do. -/
theorem half_sum_between {a b x y : ℤ} (hx : a ≤ x ∧ x ≤ b) (hy : a ≤ y ∧ y ≤ b) :
    a ≤ (x + y).tdiv 2 ∧ (x + y).tdiv 2 ≤ b := by
  obtain hsum | hsum := le_total 0 (x + y)
  · rw [Int.tdiv_eq_ediv_of_nonneg hsum]
    constructor <;> omega
  · have hneg : (x + y).tdiv 2 = -(-(x + y) / 2) := by
      rw [← Int.tdiv_eq_ediv_of_nonneg (by omega : 0 ≤ -(x + y)), Int.neg_tdiv, neg_neg]
    rw [hneg]
    constructor <;> omega

variable {l : List ℤ} {a b : ℤ} {k : ℕ}

/-- The positions that fewer entries than a majority can reach from either end. -/
theorem getD_insertionSort_between
    (hlow : l.length ≤ k + l.countP fun x => decide (a ≤ x ∧ x ≤ b))
    (hhigh : k < l.countP fun x => decide (a ≤ x ∧ x ≤ b)) :
    a ≤ (l.insertionSort (· ≤ ·)).getD k 0 ∧ (l.insertionSort (· ≤ ·)).getD k 0 ≤ b := by
  have hsorted : (l.insertionSort (· ≤ ·)).Pairwise (· ≤ ·) := List.pairwise_insertionSort _ l
  have hperm : (l.insertionSort (· ≤ ·)).Perm l := List.perm_insertionSort _ l
  rw [← hperm.length_eq] at hlow
  rw [← hperm.countP_eq] at hlow hhigh
  generalize l.insertionSort (· ≤ ·) = s at *
  have hk : k < s.length := hhigh.trans_le List.countP_le_length
  rw [List.getD_eq_getElem _ _ hk]
  constructor
  · have hbelow : ¬ k < s.countP fun x => decide (x < a) := by
      have hsplit := List.length_eq_countP_add_countP (fun x => decide (x < a)) (l := s)
      have hmono : s.countP (fun x => decide (a ≤ x ∧ x ≤ b)) ≤
          s.countP fun x => decide ¬ (decide (x < a)) = true := by
        refine List.countP_mono_left fun x _ hx => ?_
        simp only [decide_eq_true_eq] at hx ⊢
        omega
      omega
    rw [← getElem_iff_lt_countP (hsorted.imp fun {x y} hxy hy => ?_) hk] at hbelow
    · simpa using hbelow
    · simp only [decide_eq_true_eq] at hy ⊢
      omega
  · have hwithin : k < s.countP fun x => decide (x ≤ b) := by
      refine hhigh.trans_le (List.countP_mono_left fun x _ hx => ?_)
      simp only [decide_eq_true_eq] at hx ⊢
      exact hx.2
    rw [← getElem_iff_lt_countP (hsorted.imp fun {x y} hxy hy => ?_) hk] at hwithin
    · simpa using hwithin
    · simp only [decide_eq_true_eq] at hy ⊢
      omega

/-- A strict majority within an interval holds the median there. -/
theorem median_between (h : l.length < 2 * l.countP fun x => decide (a ≤ x ∧ x ≤ b)) :
    a ≤ median l ∧ median l ≤ b := by
  have hpos : 0 < l.length := by
    have hle : (l.countP fun x => decide (a ≤ x ∧ x ≤ b)) ≤ l.length := List.countP_le_length
    omega
  rw [median, middle, List.length_insertionSort]
  split_ifs with hodd
  · exact getD_insertionSort_between (by omega) (by omega)
  · exact half_sum_between (getD_insertionSort_between (by omega) (by omega))
      (getD_insertionSort_between (by omega) (by omega))

end Majority

end StellarFlow.Foundation
