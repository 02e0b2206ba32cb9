import Mathlib.Tactic

/-!
# Greedy consumption of a list

A demand is served from a list of suppliers in order, each up to its capacity, until
the demand is met. Whoever ranks ahead of a supplier that is served is used up.
-/
namespace StellarFlow.Foundation

variable {α : Type*} (cap : α → ℤ)

/-- The suppliers that are used with the amounts taken from them. -/
def greedy : List α → ℤ → List (α × ℤ)
  | [], _ => []
  | x :: xs, demand =>
    if demand = 0 then []
    else (x, min demand (cap x)) :: greedy xs (demand - min demand (cap x))

@[simp] theorem greedy_zero (xs : List α) : greedy cap xs 0 = [] := by
  cases xs <;> simp [greedy]

variable {cap}

/-- Whoever ranks ahead of a supplier that is used is used up. -/
theorem greedy_earlier_full {before : α → α → Prop} (hasymm : ∀ x y, before x y → ¬ before y x)
    {xs : List α} (hsort : xs.Pairwise before) {demand : ℤ} {x y : α} {q : ℤ} (hx : x ∈ xs)
    (hxy : before x y) (h : (y, q) ∈ greedy cap xs demand) :
    (x, cap x) ∈ greedy cap xs demand := by
  induction xs generalizing demand with
  | nil => simp at hx
  | cons z zs ih =>
    obtain ⟨hz, hzs⟩ := List.pairwise_cons.mp hsort
    rw [greedy] at h ⊢
    split_ifs at h ⊢ with hd
    · simp at h
    · rcases List.mem_cons.mp hx with rfl | hxs
      · rcases List.mem_cons.mp h with h | h
        · cases h
          exact absurd hxy (hasymm _ _ hxy)
        · have hrest : demand - min demand (cap x) ≠ 0 := by
            intro h0
            rw [h0, greedy_zero] at h
            simp at h
          have hmin : min demand (cap x) = cap x := by
            rcases min_choice demand (cap x) with hm | hm
            · exact absurd (by rw [hm, sub_self]) hrest
            · exact hm
          rw [hmin]
          exact List.mem_cons_self
      · rcases List.mem_cons.mp h with h | h
        · cases h
          exact absurd hxy (hasymm _ _ (hz x hxs))
        · exact List.mem_cons_of_mem _ (ih hzs hxs h)

end StellarFlow.Foundation
