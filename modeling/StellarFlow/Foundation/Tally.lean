import StellarFlow.Foundation.Checked

/-!
# Weighing the distinct elements of a list

A list may repeat elements and contain ineligible ones. The loop skips both, counts the others
and adds their weights up in a machine word. Its result depends only on the set of eligible
elements: their number and their total weight, or an error where that weight does not fit.
-/
namespace StellarFlow.Foundation

universe u v

variable {α : Type u} [DecidableEq α]

structure Tally (α : Type u) where
  seen : Finset α
  count : ℕ
  weight : ℕ

def Tally.empty : Tally α := ⟨∅, 0, 0⟩

variable (eligible : α → Prop) [DecidablePred eligible] (weight : α → ℕ)

/-- Count an element, unless it was seen before or is not eligible. -/
def Tally.add {ε : Type v} (bits : ℕ) (e : ε) (t : Tally α) (a : α) : Except ε (Tally α) :=
  if a ∈ t.seen then .ok t
  else if ¬ eligible a then .ok { t with seen := insert a t.seen }
  else
    match checkBits bits (t.weight + weight a) with
    | some sum => .ok ⟨insert a t.seen, t.count + 1, sum⟩
    | none => .error e

def tally {ε : Type v} (bits : ℕ) (e : ε) : Tally α → List α → Except ε (Tally α)
  | t, [] => .ok t
  | t, a :: xs =>
    match t.add eligible weight bits e a with
    | .ok t => tally bits e t xs
    | .error e => .error e

/-- The count and the weight of the eligible elements of a set. -/
def Tally.of (s : Finset α) : Tally α :=
  ⟨s, (s.filter eligible).card, ∑ a ∈ s.filter eligible, weight a⟩

section Tally

variable {eligible weight} {ε : Type v} {bits : ℕ} {e : ε} {s t : Finset α} {a : α}

omit [DecidableEq α] in
@[simp] theorem Tally.of_empty : Tally.of eligible weight ∅ = Tally.empty := rfl

omit [DecidableEq α] in
theorem Tally.of_mono (h : s ⊆ t) :
    (Tally.of eligible weight s).weight ≤ (Tally.of eligible weight t).weight :=
  Finset.sum_le_sum_of_subset (Finset.filter_subset_filter _ h)

theorem Tally.of_insert_of_mem (h : a ∈ s) :
    Tally.of eligible weight (insert a s) = Tally.of eligible weight s := by
  rw [Finset.insert_eq_of_mem h]

theorem Tally.of_insert_of_not (h : ¬ eligible a) :
    Tally.of eligible weight (insert a s) =
      { Tally.of eligible weight s with seen := insert a s } := by
  simp only [Tally.of, Finset.filter_insert, if_neg h]

theorem Tally.of_insert (h : eligible a) (ha : a ∉ s) :
    Tally.of eligible weight (insert a s) =
      ⟨insert a s, (Tally.of eligible weight s).count + 1,
        (Tally.of eligible weight s).weight + weight a⟩ := by
  have hnot : a ∉ s.filter eligible := fun hm => ha (Finset.mem_filter.mp hm).1
  simp only [Tally.of, Finset.filter_insert, if_pos h, Finset.card_insert_of_notMem hnot,
    Finset.sum_insert hnot, add_comm]

theorem Tally.add_of (hfit : (Tally.of eligible weight s).weight < 2 ^ bits) :
    (Tally.of eligible weight s).add eligible weight bits e a =
      if (Tally.of eligible weight (insert a s)).weight < 2 ^ bits then
        .ok (Tally.of eligible weight (insert a s))
      else .error e := by
  by_cases ha : a ∈ s
  · have hseen : a ∈ (Tally.of eligible weight s).seen := ha
    rw [Tally.of_insert_of_mem ha, if_pos hfit, Tally.add, if_pos hseen]
  · have hseen : a ∉ (Tally.of eligible weight s).seen := ha
    by_cases he : eligible a
    · rw [Tally.of_insert he ha, Tally.add, if_neg hseen, if_neg (not_not.mpr he)]
      unfold checkBits
      split_ifs <;> rfl
    · rw [Tally.of_insert_of_not he, if_pos hfit, Tally.add, if_neg hseen, if_pos he]
      rfl

/-- Induction over the list; the state always weighs the set of elements seen so far. -/
theorem tally_of (xs : List α) (s : Finset α)
    (hfit : (Tally.of eligible weight s).weight < 2 ^ bits) :
    tally eligible weight bits e (Tally.of eligible weight s) xs =
      if (Tally.of eligible weight (s ∪ xs.toFinset)).weight < 2 ^ bits then
        .ok (Tally.of eligible weight (s ∪ xs.toFinset))
      else .error e := by
  induction xs generalizing s with
  | nil => simp [tally, hfit]
  | cons a xs ih =>
    have hunion : s ∪ (a :: xs).toFinset = insert a s ∪ xs.toFinset := by
      rw [List.toFinset_cons, Finset.union_insert, Finset.insert_union]
    rw [tally, Tally.add_of hfit, hunion]
    by_cases hnext : (Tally.of eligible weight (insert a s)).weight < 2 ^ bits
    · simp only [if_pos hnext]
      exact ih (insert a s) hnext
    · -- The weight only grows, so it never fits again.
      have hle : (Tally.of eligible weight (insert a s)).weight ≤
          (Tally.of eligible weight (insert a s ∪ xs.toFinset)).weight :=
        Tally.of_mono Finset.subset_union_left
      have hlast : ¬ (Tally.of eligible weight (insert a s ∪ xs.toFinset)).weight < 2 ^ bits := by
        omega
      simp only [if_neg hnext, if_neg hlast]

/-- The tally of a list weighs the set of its elements. -/
theorem tally_eq (xs : List α) :
    tally eligible weight bits e .empty xs =
      if (Tally.of eligible weight xs.toFinset).weight < 2 ^ bits then
        .ok (Tally.of eligible weight xs.toFinset)
      else .error e := by
  have hzero : (Tally.of eligible weight (∅ : Finset α)).weight < 2 ^ bits := by
    simp [Tally.of]
  have hempty : Tally.of eligible weight (∅ : Finset α) = .empty := Tally.of_empty
  rw [← hempty, tally_of xs ∅ hzero, Finset.empty_union]

theorem tally_eq_ok {xs : List α} {r : Tally α}
    (h : tally eligible weight bits e .empty xs = .ok r) :
    r = Tally.of eligible weight xs.toFinset := by
  rw [tally_eq] at h
  split_ifs at h
  exact (Except.ok.inj h).symm

end Tally

end StellarFlow.Foundation
