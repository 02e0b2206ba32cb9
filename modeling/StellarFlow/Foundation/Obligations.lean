import StellarFlow.Foundation.Store

/-!
# What is owed in several currencies

Every entry of a store is a claim for an amount of one currency. The sum over all entries of a
currency follows each update: a new entry adds its amount, and an entry that changes within its
currency adds the difference.
-/
namespace StellarFlow.Foundation

variable {κ ν τ : Type*} [DecidableEq κ] [DecidableEq τ] (currency : ν → τ) (amount : ν → ℤ)

/-- The sum of the amounts in one currency. -/
def owed (s : Store κ ν) (c : τ) : ℤ :=
  Store.total (fun _ v => if currency v = c then amount v else 0) s

variable {currency amount} {s : Store κ ν} {k : κ} {v : ν}

omit [DecidableEq κ] in
@[simp] theorem owed_empty (c : τ) : owed currency amount (∅ : Store κ ν) c = 0 := rfl

theorem owed_insert_of_none (v : ν) (h : s.lookup k = none) (c : τ) :
    owed currency amount (s.insert k v) c =
      owed currency amount s c + if currency v = c then amount v else 0 := by
  rw [owed, Store.total_insert_of_none _ v h, add_comm]
  rfl

theorem owed_insert_of_lookup (v' : ν) (h : s.lookup k = some v)
    (hcurrency : currency v' = currency v) (c : τ) :
    owed currency amount (s.insert k v') c =
      owed currency amount s c + if currency v = c then amount v' - amount v else 0 := by
  have hx := Store.total_insert (fun _ v => if currency v = c then amount v else 0) s k v'
  rw [Store.part_of_lookup _ h, hcurrency] at hx
  unfold owed
  split_ifs at hx ⊢ <;> omega

theorem owed_erase (h : s.lookup k = some v) (c : τ) :
    owed currency amount (s.erase k) c =
      owed currency amount s c - if currency v = c then amount v else 0 := by
  have hx := Store.total_erase (fun _ v => if currency v = c then amount v else 0) s k
  rw [Store.part_of_lookup _ h] at hx
  unfold owed
  omega

theorem owed_nonneg (h : ∀ k v, s.lookup k = some v → 0 ≤ amount v) (c : τ) :
    0 ≤ owed currency amount s c := by
  refine Store.total_nonneg fun k v hfound => ?_
  split_ifs
  · exact h k v hfound
  · exact le_rfl

/-- With amounts that are not negative, no entry claims more than the sum of its currency. -/
theorem amount_le_owed (h : ∀ k v, s.lookup k = some v → 0 ≤ amount v)
    (hfound : s.lookup k = some v) : amount v ≤ owed currency amount s (currency v) := by
  have hpart := Store.part_le_total
    (f := fun _ w => if currency w = currency v then amount w else 0) (fun k w hw => by
      split_ifs
      · exact h k w hw
      · exact le_rfl) k
  rw [Store.part_of_lookup _ hfound, if_pos rfl] at hpart
  exact hpart

/-- What is booked at the end of a list adds to the sum of its kind. -/
theorem sum_filter_append_singleton {α M : Type*} [AddCommMonoid M] (f : α → M) (P : α → Bool)
    (l : List α) (x : α) : (((l ++ [x]).filter P).map f).sum =
      ((l.filter P).map f).sum + if P x then f x else 0 := by
  by_cases hx : P x <;> simp [List.filter_append, hx]

end StellarFlow.Foundation
