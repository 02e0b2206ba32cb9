import Mathlib.Data.List.Perm.Basic
import Mathlib.Tactic

/-!
# Insertion sort by shifting

The in-place insertion sort over a strict total order. The sorted part is kept from
its right end, which is the order in which the inner loop compares: a new key moves
left past every element it ranks ahead of and stops at the first it does not.
-/
namespace StellarFlow.Foundation

variable {α : Type*} (before : α → α → Bool)

/-- The inner loop: shift the key into the sorted part, given from its right end. -/
def shiftInsert (key : α) : List α → List α
  | [] => [key]
  | x :: rest => if before key x then x :: shiftInsert key rest else key :: x :: rest

/-- The outer loop: take the elements one after the other into the sorted part. -/
def shiftSort (l : List α) : List α :=
  (l.foldl (fun sorted key => shiftInsert before key sorted) []).reverse

theorem shiftInsert_perm (key : α) (l : List α) :
    (shiftInsert before key l).Perm (key :: l) := by
  induction l with
  | nil => exact List.Perm.refl _
  | cons x rest ih =>
    simp only [shiftInsert]
    split_ifs
    · exact (ih.cons x).trans (List.Perm.swap key x rest)
    · exact List.Perm.refl _

theorem shiftLoop_perm (l sorted : List α) :
    (l.foldl (fun sorted key => shiftInsert before key sorted) sorted).Perm (l ++ sorted) := by
  induction l generalizing sorted with
  | nil => exact List.Perm.refl _
  | cons key l ih =>
    refine (ih _).trans ?_
    exact ((shiftInsert_perm before key sorted).append_left l).trans List.perm_middle

theorem shiftSort_perm (l : List α) : (shiftSort before l).Perm l := by
  have h := shiftLoop_perm before l []
  rw [List.append_nil] at h
  exact (List.reverse_perm _).trans h

@[simp] theorem mem_shiftSort {l : List α} {x : α} : x ∈ shiftSort before l ↔ x ∈ l :=
  (shiftSort_perm before l).mem_iff

section Sorted

variable {before} (htrans : ∀ x y z, before x y → before y z → before x z)
  (htotal : ∀ x y, x ≠ y → before x y ∨ before y x)

include htrans htotal

theorem shiftInsert_pairwise {key : α} {l : List α}
    (hl : l.Pairwise fun x y => before y x = true) (hkey : key ∉ l) :
    (shiftInsert before key l).Pairwise fun x y => before y x = true := by
  induction l with
  | nil => exact List.pairwise_singleton _ _
  | cons x rest ih =>
    obtain ⟨hx, hrest⟩ := List.pairwise_cons.mp hl
    obtain ⟨hne, hkey'⟩ := List.ne_and_not_mem_of_not_mem_cons hkey
    simp only [shiftInsert]
    split_ifs with h
    · refine List.pairwise_cons.mpr ⟨fun y hy => ?_, ih hrest hkey'⟩
      rcases List.mem_cons.mp ((shiftInsert_perm before key rest).mem_iff.mp hy) with rfl | hy'
      · exact h
      · exact hx y hy'
    · have hxk : before x key = true := (htotal x key hne.symm).resolve_right h
      refine List.pairwise_cons.mpr ⟨fun y hy => ?_, hl⟩
      rcases List.mem_cons.mp hy with rfl | hy'
      · exact hxk
      · exact htrans y x key (hx y hy') hxk

theorem shiftLoop_pairwise {l sorted : List α} (hnd : (l ++ sorted).Nodup)
    (hs : sorted.Pairwise fun x y => before y x = true) :
    (l.foldl (fun sorted key => shiftInsert before key sorted) sorted).Pairwise
      fun x y => before y x = true := by
  induction l generalizing sorted with
  | nil => exact hs
  | cons key l ih =>
    have hperm : (l ++ shiftInsert before key sorted).Perm (key :: l ++ sorted) :=
      ((shiftInsert_perm before key sorted).append_left l).trans List.perm_middle
    have hkey : key ∉ sorted := fun h =>
      (List.nodup_cons.mp hnd).1 (List.mem_append_right l h)
    exact ih (hperm.nodup_iff.mpr hnd) (shiftInsert_pairwise htrans htotal hs hkey)

/-- Distinct elements come out strictly ordered. -/
theorem shiftSort_pairwise {l : List α} (hnd : l.Nodup) :
    (shiftSort before l).Pairwise fun x y => before x y = true := by
  rw [shiftSort, List.pairwise_reverse]
  exact shiftLoop_pairwise htrans htotal (by simpa using hnd) List.Pairwise.nil

end Sorted

section Weak

variable {before} (hasymm : ∀ x y, before x y = true → before y x = false)
  (htrans : ∀ x y z, before x y = false → before y z = false → before x z = false)

include hasymm htrans

theorem shiftInsert_pairwise_not {key : α} {l : List α}
    (hl : l.Pairwise fun x y => before x y = false) :
    (shiftInsert before key l).Pairwise fun x y => before x y = false := by
  induction l with
  | nil => exact List.pairwise_singleton _ _
  | cons x rest ih =>
    obtain ⟨hx, hrest⟩ := List.pairwise_cons.mp hl
    simp only [shiftInsert]
    split_ifs with h
    · refine List.pairwise_cons.mpr ⟨fun y hy => ?_, ih hrest⟩
      rcases List.mem_cons.mp ((shiftInsert_perm before key rest).mem_iff.mp hy) with rfl | hy'
      · exact hasymm _ _ h
      · exact hx y hy'
    · have hkey : before key x = false := Bool.not_eq_true _ ▸ h
      refine List.pairwise_cons.mpr ⟨fun y hy => ?_, hl⟩
      rcases List.mem_cons.mp hy with rfl | hy'
      · exact hkey
      · exact htrans key x y hkey (hx y hy')

/-- Under a weak order no element comes out ahead of one that ranks before it. -/
theorem shiftSort_pairwise_not (l : List α) :
    (shiftSort before l).Pairwise fun x y => before y x = false := by
  rw [shiftSort, List.pairwise_reverse]
  suffices h : ∀ sorted : List α, sorted.Pairwise (fun x y => before x y = false) →
      (l.foldl (fun sorted key => shiftInsert before key sorted) sorted).Pairwise
        fun x y => before x y = false from h [] List.Pairwise.nil
  induction l with
  | nil => exact fun _ hs => hs
  | cons key l ih => exact fun sorted hs => ih _ (shiftInsert_pairwise_not hasymm htrans hs)

end Weak

end StellarFlow.Foundation
