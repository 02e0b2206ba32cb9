import StellarFlow.Foundation.Store

/-!
# The last entries of a history

A circular store keeps the last entries of a growing history in a fixed number of slots. It is
described by the history itself, newest entry first: what the slots hold is its beginning.
-/
namespace StellarFlow.Foundation

structure Ring (α : Type*) where
  slots : Store ℕ α
  count : ℕ
  /-- The slot that is written next. -/
  cursor : ℕ

namespace Ring

variable {α : Type*} (size : ℕ)

def push (x : α) (r : Ring α) : Ring α :=
  ⟨r.slots.insert r.cursor x, min (r.count + 1) size, (r.cursor + 1) % size⟩

/-- The slot that was written the given number of entries ago. -/
def slot (r : Ring α) (offset : ℕ) : ℕ := (r.cursor + size - 1 - offset) % size

def newest (r : Ring α) : List α :=
  (List.range r.count).filterMap fun offset => r.slots.lookup (r.slot size offset)

/-- The ring after all entries of a history, whose newest entry comes first. -/
structure Holds (r : Ring α) (past : List α) : Prop where
  count_eq : r.count = min past.length size
  cursor_eq : r.cursor = past.length % size
  lookup_eq : ∀ offset < r.count,
    r.slots.lookup ((past.length - 1 - offset) % size) = past[offset]?

variable {size} {r : Ring α} {past : List α}

theorem holds_nil (slots : Store ℕ α) : Holds size ⟨slots, 0, 0⟩ [] where
  count_eq := by simp
  cursor_eq := by simp
  lookup_eq offset hlt := absurd hlt (by simp)

/-- Entries that are both still held lie in different slots. -/
theorem slot_ne {n offset : ℕ} (hn : offset < n) (hlt : offset + 1 < size) :
    (n - 1 - offset) % size ≠ n % size := by
  intro heq
  have hmod : n - 1 - offset + (offset + 1) ≡ n - 1 - offset [MOD size] := by
    rw [show n - 1 - offset + (offset + 1) = n by omega]
    exact heq.symm
  have hdvd : size ∣ offset + 1 := (Nat.modEq_zero_iff_dvd).mp
    (Nat.ModEq.add_left_cancel' (n - 1 - offset) hmod)
  exact absurd (Nat.le_of_dvd (by omega) hdvd) (by omega)

theorem Holds.push (h : Holds size r past) (x : α) :
    Holds size (r.push size x) (x :: past) where
  count_eq := by
    rw [List.length_cons]
    change min (r.count + 1) size = _
    rw [h.count_eq]
    omega
  cursor_eq := by
    rw [Ring.push, h.cursor_eq, List.length_cons, Nat.mod_add_mod]
  lookup_eq := by
    intro offset hlt
    have hcount := h.count_eq
    change offset < min (r.count + 1) size at hlt
    rw [Ring.push, List.length_cons, Nat.add_sub_cancel, Store.lookup_insert_ite, h.cursor_eq]
    cases offset with
    | zero => simp
    | succ offset =>
      have hheld : offset < past.length ∧ offset + 1 < size := by omega
      rw [show past.length - (offset + 1) = past.length - 1 - offset by omega,
        if_neg (slot_ne hheld.1 hheld.2), h.lookup_eq offset (by omega), List.getElem?_cons_succ]

/-- Reading back by offsets finds the history. -/
theorem Holds.lookup_slot (h : Holds size r past) {offset : ℕ} (hlt : offset < r.count) :
    r.slots.lookup (r.slot size offset) = past[offset]? := by
  have hcount := h.count_eq
  have hslot : (past.length - 1 - offset) % size = r.slot size offset := by
    have hn : past.length = past.length % size + size * (past.length / size) :=
      (Nat.mod_add_div _ _).symm
    rw [slot, h.cursor_eq]
    have hmod : past.length % size + size - 1 - offset ≡ past.length - 1 - offset [MOD size] := by
      refine Nat.ModEq.add_right_cancel' (offset + 1) ?_
      rw [show past.length % size + size - 1 - offset + (offset + 1) = past.length % size + size by
          omega,
        show past.length - 1 - offset + (offset + 1) = past.length by omega]
      exact (Nat.add_mod_right _ _).trans (Nat.mod_mod _ _)
    exact hmod.symm
  rw [← hslot, h.lookup_eq offset hlt]

theorem filterMap_range (xs : List α) (n : ℕ) :
    ((List.range n).filterMap fun i => xs[i]?) = xs.take n := by
  induction n with
  | zero => simp
  | succ n ih =>
    rw [List.range_succ, List.filterMap_append, ih, List.take_add_one, List.filterMap_cons,
      List.filterMap_nil]
    cases xs[n]? <;> rfl

theorem Holds.newest_eq (h : Holds size r past) : r.newest size = past.take size := by
  have hlookup : ∀ offset ∈ List.range r.count,
      r.slots.lookup (r.slot size offset) = past[offset]? :=
    fun offset hmem => h.lookup_slot (List.mem_range.mp hmem)
  rw [newest, List.filterMap_congr hlookup, filterMap_range, h.count_eq, min_comm]
  exact List.take_eq_take_min.symm

end Ring

end StellarFlow.Foundation
