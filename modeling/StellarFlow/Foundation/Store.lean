import Mathlib.Data.Finmap
import Mathlib.Algebra.BigOperators.Group.Multiset.Basic
import Mathlib.Algebra.Order.BigOperators.Group.Multiset
import Mathlib.Algebra.BigOperators.Group.Finset.Basic
import Mathlib.Tactic

/-!
# Keyed storage and sums over its entries

A store is a finite map with extensional equality. The lookup lemmas are stated
with a conditional on the key, so that `simp` decides them at concrete keys. The
sum lemmas express an update as an exchange: what the key contributed before on
one side, what it contributes afterwards on the other.
-/
namespace StellarFlow.Foundation

abbrev Store (κ ν : Type*) := Finmap fun _ : κ => ν

namespace Store

variable {κ ν M : Type*} [DecidableEq κ]

theorem lookup_insert_ite (s : Store κ ν) (k k' : κ) (v : ν) :
    (s.insert k v).lookup k' = if k' = k then some v else s.lookup k' := by
  by_cases h : k' = k
  · subst h; simp
  · simp [h, Finmap.lookup_insert_of_ne]

theorem lookup_insert_eq_some {s : Store κ ν} {k k' : κ} {v w : ν} :
    (s.insert k v).lookup k' = some w ↔ k' = k ∧ w = v ∨ k' ≠ k ∧ s.lookup k' = some w := by
  rw [lookup_insert_ite]
  split_ifs with h
  · simp [h, eq_comm]
  · simp [h]

theorem lookup_erase_ite (s : Store κ ν) (k k' : κ) :
    (s.erase k).lookup k' = if k' = k then none else s.lookup k' := by
  by_cases h : k' = k
  · subst h; simp
  · simp [h, Finmap.lookup_erase_ne]

/-- Writing a key, where a zero is stored by dropping the entry. -/
theorem lookup_write_or_erase [Zero ν] [DecidableEq ν] (s : Store κ ν) (k k' : κ) (v : ν) :
    (if v = 0 then s.erase k else s.insert k v).lookup k' =
      if k' = k then if v = 0 then none else some v else s.lookup k' := by
  split_ifs with hv hk hk
  · rw [lookup_erase_ite, if_pos hk]
  · rw [lookup_erase_ite, if_neg hk]
  · rw [lookup_insert_ite, if_pos hk]
  · rw [lookup_insert_ite, if_neg hk]

theorem getD_write_or_erase [Zero ν] [DecidableEq ν] (s : Store κ ν) (k : κ) (v : ν) :
    ((if v = 0 then s.erase k else s.insert k v).lookup k).getD 0 = v := by
  rw [lookup_write_or_erase, if_pos rfl]
  split_ifs with hv
  · exact hv.symm
  · rfl

theorem insert_erase_of_lookup (s : Store κ ν) {k : κ} {v : ν} (h : s.lookup k = some v) :
    (s.erase k).insert k v = s := by
  apply Finmap.ext_lookup
  intro k'
  rw [lookup_insert_ite, lookup_erase_ite]
  by_cases hk : k' = k
  · subst hk; simp [h]
  · simp [hk]

section Total

variable [AddCommMonoid M] (f : κ → ν → M)

/-- Sum of a weight over all entries of the store. -/
def total (s : Store κ ν) : M := (s.entries.map fun e => f e.1 e.2).sum

/-- The contribution of a single key, zero when the key is absent. -/
def part (s : Store κ ν) (k : κ) : M := ((s.lookup k).map (f k)).getD 0

omit [DecidableEq κ] in
@[simp] theorem total_empty : total f (∅ : Store κ ν) = 0 := rfl

theorem part_of_lookup {s : Store κ ν} {k : κ} {v : ν} (h : s.lookup k = some v) :
    part f s k = f k v := by simp [part, h]

theorem part_of_none {s : Store κ ν} {k : κ} (h : s.lookup k = none) : part f s k = 0 := by
  simp [part, h]

theorem total_insert_of_none {s : Store κ ν} {k : κ} (v : ν) (h : s.lookup k = none) :
    total f (s.insert k v) = f k v + total f s := by
  rw [total, total, Finmap.entries_insert_of_notMem (Finmap.lookup_eq_none.mp h),
    Multiset.map_cons, Multiset.sum_cons]

/-- Removing a key removes exactly its contribution. -/
theorem total_erase (s : Store κ ν) (k : κ) : total f (s.erase k) + part f s k = total f s := by
  cases h : s.lookup k with
  | none =>
    have he : s.erase k = s := by
      apply Finmap.ext_lookup
      intro k'
      rw [lookup_erase_ite]
      split_ifs with hk
      · rw [hk, h]
      · rfl
    rw [he, part_of_none f h, add_zero]
  | some v =>
    have hn : (s.erase k).lookup k = none := by simp
    have hi := total_insert_of_none f v hn
    rw [insert_erase_of_lookup s h] at hi
    rw [part_of_lookup f h, hi, add_comm]

/-- Two stores that agree away from one key differ by what that key contributes. -/
theorem total_exchange (s s' : Store κ ν) (k : κ)
    (h : ∀ k', k' ≠ k → s'.lookup k' = s.lookup k') :
    total f s' + part f s k = total f s + part f s' k := by
  have he : s'.erase k = s.erase k := by
    apply Finmap.ext_lookup
    intro k'
    rw [lookup_erase_ite, lookup_erase_ite]
    split_ifs with hk
    · rfl
    · exact h k' hk
  rw [← total_erase f s k, ← total_erase f s' k, he]
  abel

/-- Writing a key exchanges its old contribution for the new one. -/
theorem total_insert (s : Store κ ν) (k : κ) (v : ν) :
    total f (s.insert k v) + part f s k = total f s + f k v := by
  have hx := total_exchange f s (s.insert k v) k
    fun k' hk => Finmap.lookup_insert_of_ne s hk
  rwa [part_of_lookup f (Finmap.lookup_insert s)] at hx

/-- The same when an entry that became zero is dropped. -/
theorem total_write_or_erase [Zero ν] [DecidableEq ν] (s : Store κ ν) (k : κ) (v : ν)
    (hf : f k 0 = 0) :
    total f (if v = 0 then s.erase k else s.insert k v) + part f s k = total f s + f k v := by
  split_ifs with h
  · rw [h, hf, add_zero]
    exact total_erase f s k
  · exact total_insert f s k v

theorem total_congr {f g : κ → ν → M} {s : Store κ ν}
    (h : ∀ k v, s.lookup k = some v → f k v = g k v) : total f s = total g s := by
  unfold total
  congr 1
  apply Multiset.map_congr rfl
  intro e he
  exact h e.1 e.2 (Finmap.mem_lookup_iff.mpr he)

/-- Two weights that agree away from one key differ by what that key contributes. -/
theorem total_reweigh {f g : κ → ν → M} (s : Store κ ν) (k : κ)
    (h : ∀ k' v, k' ≠ k → f k' v = g k' v) :
    total g s + part f s k = total f s + part g s k := by
  have he : total g (s.erase k) = total f (s.erase k) := by
    refine total_congr fun k' v hv => ?_
    rw [lookup_erase_ite] at hv
    split_ifs at hv with hk
    exact (h k' v hk).symm
  rw [← total_erase f s k, ← total_erase g s k, he]
  abel

theorem total_eq_zero {s : Store κ ν} (h : ∀ k v, s.lookup k = some v → f k v = 0) :
    total f s = 0 := by
  rw [total_congr (g := fun _ _ => 0) h]
  simp [total]

end Total

section Saturation

/-- Add a natural number and stay at the bound. -/
def saturatingAdd (hi : ℤ) (d : ℕ) (t : ℤ) : ℤ := min hi (t + d)

instance (hi : ℤ) : LeftCommutative (saturatingAdd hi) where
  left_comm d d' t := by
    unfold saturatingAdd
    omega

/-- Sum of a weight over all entries that stays at the bound. -/
def saturatingTotal (hi : ℤ) (f : κ → ν → ℕ) (s : Store κ ν) : ℤ :=
  (s.entries.map fun e => f e.1 e.2).foldr (saturatingAdd hi) 0

omit [DecidableEq κ] in
/-- Without negative terms only the end of the sum matters. -/
theorem saturatingTotal_eq {hi : ℤ} (h : 0 ≤ hi) (f : κ → ν → ℕ) (s : Store κ ν) :
    saturatingTotal hi f s = min hi (total (fun k v => (f k v : ℤ)) s) := by
  unfold saturatingTotal total
  induction s.entries using Multiset.induction with
  | empty => simpa using h
  | cons e m ih =>
    rw [Multiset.map_cons, Multiset.foldr_cons, ih, Multiset.map_cons, Multiset.sum_cons,
      saturatingAdd]
    dsimp only
    omega

end Saturation

section Order

variable [AddCommMonoid M] [PartialOrder M] [IsOrderedAddMonoid M] {f : κ → ν → M} {s : Store κ ν}

theorem total_nonneg (h : ∀ k v, s.lookup k = some v → 0 ≤ f k v) : 0 ≤ total f s := by
  apply Multiset.sum_nonneg
  intro x hx
  obtain ⟨e, he, rfl⟩ := Multiset.mem_map.mp hx
  exact h e.1 e.2 (Finmap.mem_lookup_iff.mpr he)

/-- With nonnegative weights no single entry exceeds the whole. -/
theorem part_le_total (h : ∀ k v, s.lookup k = some v → 0 ≤ f k v) (k : κ) :
    part f s k ≤ total f s := by
  have he := total_erase f s k
  have hn : 0 ≤ total f (s.erase k) := by
    apply total_nonneg
    intro k' v hv
    rw [lookup_erase_ite] at hv
    split_ifs at hv
    exact h k' v hv
  rw [← he]
  exact le_add_of_nonneg_left hn

/-- Nor do the entries of any set of keys. -/
theorem sum_part_le_total (h : ∀ k v, s.lookup k = some v → 0 ≤ f k v) (keys : Finset κ) :
    ∑ k ∈ keys, part f s k ≤ total f s := by
  induction keys using Finset.induction_on generalizing s with
  | empty => simpa using total_nonneg h
  | insert k keys hk ih =>
    have he : ∑ k' ∈ keys, part f (s.erase k) k' = ∑ k' ∈ keys, part f s k' := by
      apply Finset.sum_congr rfl
      intro k' hk'
      have hne : k' ≠ k := fun heq => hk (heq ▸ hk')
      rw [part, part, lookup_erase_ite, if_neg hne]
    have hrest : ∑ k' ∈ keys, part f (s.erase k) k' ≤ total f (s.erase k) := by
      apply ih
      intro k' v hv
      rw [lookup_erase_ite] at hv
      split_ifs at hv
      exact h k' v hv
    rw [Finset.sum_insert hk, ← total_erase f s k, ← he, add_comm]
    exact add_le_add hrest le_rfl

end Order

end Store

end StellarFlow.Foundation
