import Mathlib.Data.Set.Basic
import Mathlib.Data.List.Infix

/-!
# Codes read from the end

Where no word of a code ends with another one, the last word of a string is determined by the
string, whatever stands before it. Words of one length are such a code, and so are two codes
none of whose words ends with a word of the other.
-/
namespace StellarFlow.Foundation

variable {α : Type*} {code code' : Set (List α)}

/-- No word of the code ends with another one. -/
def SuffixFree (code : Set (List α)) : Prop := ∀ x ∈ code, ∀ y ∈ code, x <:+ y → x = y

/-- The last word and what stands before it can be read off. -/
theorem SuffixFree.append_inj (h : SuffixFree code) {s t x y : List α} (hx : x ∈ code)
    (hy : y ∈ code) (heq : s ++ x = t ++ y) : s = t ∧ x = y := by
  have hword : x = y := by
    rcases List.suffix_or_suffix_of_suffix (List.suffix_append s x)
      (heq ▸ List.suffix_append t y) with hxy | hyx
    · exact h x hx y hy hxy
    · exact (h y hy x hx hyx).symm
  subst hword
  exact ⟨List.append_cancel_right heq, rfl⟩

theorem suffixFree_of_length {n : ℕ} (h : ∀ x ∈ code, x.length = n) : SuffixFree code := by
  intro x hx y hy hsuffix
  exact hsuffix.eq_of_length ((h x hx).trans (h y hy).symm)

theorem SuffixFree.union (h : SuffixFree code) (h' : SuffixFree code')
    (hcross : ∀ x ∈ code, ∀ y ∈ code', ¬ x <:+ y ∧ ¬ y <:+ x) : SuffixFree (code ∪ code') := by
  rintro x (hx | hx) y (hy | hy) hsuffix
  · exact h x hx y hy hsuffix
  · exact absurd hsuffix (hcross x hx y hy).1
  · exact absurd hsuffix (hcross y hy x hx).2
  · exact h' x hx y hy hsuffix

end StellarFlow.Foundation
