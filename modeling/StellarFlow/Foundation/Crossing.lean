import Mathlib.Tactic

/-!
# Where a falling and a rising function cross

The smaller one of the two is largest next to the place where they cross.
-/
namespace StellarFlow.Foundation

/-- On a domain, one function falls, another one rises, and they cross between `lo` and `hi`
with nothing of the domain in between. -/
structure Crossing {α β : Type*} [Preorder α] [Preorder β] (falling rising : α → β)
    (domain : Set α) (lo hi : α) : Prop where
  falls : AntitoneOn falling domain
  rises : MonotoneOn rising domain
  lo_mem : lo ∈ domain
  hi_mem : hi ∈ domain
  below : rising lo ≤ falling lo
  above : falling hi ≤ rising hi
  gap : ∀ t ∈ domain, t ≤ lo ∨ hi ≤ t

namespace Crossing

variable {α β : Type*} [Preorder α] [LinearOrder β] {falling rising : α → β} {domain : Set α}
  {lo hi t : α}

theorem min_lo (h : Crossing falling rising domain lo hi) :
    min (falling lo) (rising lo) = rising lo :=
  min_eq_right h.below

theorem min_hi (h : Crossing falling rising domain lo hi) :
    min (falling hi) (rising hi) = falling hi :=
  min_eq_left h.above

theorem min_le (h : Crossing falling rising domain lo hi) (ht : t ∈ domain) :
    min (falling t) (rising t) ≤ max (rising lo) (falling hi) := by
  rcases h.gap t ht with hle | hle
  · have hrise : rising t ≤ rising lo := h.rises ht h.lo_mem hle
    exact (min_le_right _ _).trans (hrise.trans (le_max_left _ _))
  · have hfall : falling t ≤ falling hi := h.falls h.hi_mem ht hle
    exact (min_le_left _ _).trans (hfall.trans (le_max_right _ _))

/-- One of the two sides of the crossing is the best place of the domain. -/
theorem exists_best (h : Crossing falling rising domain lo hi) :
    ∃ best, (best = lo ∨ best = hi) ∧
      ∀ t ∈ domain, min (falling t) (rising t) ≤ min (falling best) (rising best) := by
  rcases le_total (rising lo) (falling hi) with hle | hle
  · refine ⟨hi, .inr rfl, fun t ht => ?_⟩
    rw [h.min_hi, ← max_eq_right hle]
    exact h.min_le ht
  · refine ⟨lo, .inl rfl, fun t ht => ?_⟩
    rw [h.min_lo, ← max_eq_left hle]
    exact h.min_le ht

end Crossing

end StellarFlow.Foundation
