import StellarFlow.Foundation.Store

/-!
# The last entries of a history, kept by key

A list holds the keys of the last entries in order, and a store holds the latest entry of every
key. A full window drops its oldest key and the entry stored under it. A key that comes twice
within the window then loses its entry although it is still in the list.
-/
namespace StellarFlow.Foundation

/-- The keys, oldest first, and the entry under each. -/
structure KeyedWindow (κ ν : Type*) where
  keys : List κ
  entries : Store κ ν

namespace KeyedWindow

variable {κ ν τ : Type*} [DecidableEq κ] (size : ℕ)

def push (k : κ) (v : ν) (w : KeyedWindow κ ν) : KeyedWindow κ ν :=
  let entries := w.entries.insert k v
  let keys := w.keys ++ [k]
  if size < keys.length then ⟨keys.drop 1, entries.erase (keys.headD k)⟩ else ⟨keys, entries⟩

/-- The latest value of a key among the last entries, where the newest entry comes first. -/
def latest (past : List (κ × τ)) (k : κ) : Option τ := (past.take size).lookup k

/-- The key that the next entry drops. -/
def oldest (past : List (κ × τ)) : Option κ := past[size - 1]?.map Prod.fst

/-- The window after all entries of a history. A key may be missing from the store, but an entry
is never outdated. -/
structure Follows (f : ν → τ) (w : KeyedWindow κ ν) (past : List (κ × τ)) : Prop where
  keys_eq : w.keys = ((past.take size).map Prod.fst).reverse
  entries_latest : ∀ k v, w.entries.lookup k = some v → latest size past k = some (f v)

variable {size} {f : ν → τ} {w : KeyedWindow κ ν} {past : List (κ × τ)} {k k' : κ} {v : ν}
  {x y : τ}

theorem follows_nil (f : ν → τ) : Follows size f ⟨[], ∅⟩ ([] : List (κ × τ)) where
  keys_eq := by simp
  entries_latest k v h := by simp at h

/-! ## The history -/

theorem lookup_cons_ite (entry : κ × τ) (entries : List (κ × τ)) (k : κ) :
    (entry :: entries).lookup k = if k = entry.1 then some entry.2 else entries.lookup k := by
  rw [List.lookup_cons]
  split <;> simp_all

theorem latest_cons (hsize : 0 < size) :
    latest size ((k, x) :: past) k' =
      if k' = k then some x else latest (size - 1) past k' := by
  obtain ⟨n, rfl⟩ := Nat.exists_eq_succ_of_ne_zero hsize.ne'
  rw [latest, List.take_succ_cons, lookup_cons_ite]
  rfl

/-- The window splits into the entries that stay and the oldest. -/
theorem latest_eq_or (hsize : 0 < size) :
    latest size past k =
      (latest (size - 1) past k).or (past[size - 1]?.toList.lookup k) := by
  obtain ⟨n, rfl⟩ := Nat.exists_eq_succ_of_ne_zero hsize.ne'
  rw [latest, latest, Nat.succ_eq_add_one, List.take_add_one, List.lookup_append,
    Nat.add_sub_cancel]

theorem latest_of_latest_cons (hsize : 0 < size) (hk : k' ≠ k)
    (h : latest size ((k, x) :: past) k' = some y) : latest size past k' = some y := by
  rw [latest_cons hsize, if_neg hk] at h
  rw [latest_eq_or hsize, h, Option.some_or]

theorem latest_cons_of_ne (hsize : 0 < size) (hk : k' ≠ k) (hold : oldest size past ≠ some k') :
    latest size ((k, x) :: past) k' = latest size past k' := by
  rw [latest_cons hsize, if_neg hk, latest_eq_or hsize]
  cases hlast : past[size - 1]? with
  | none => rw [Option.toList_none, List.lookup_nil, Option.or_none]
  | some entry =>
    have hne : k' ≠ entry.1 := by
      rintro rfl
      exact hold (by rw [oldest, hlast, Option.map_some])
    rw [Option.toList_some, lookup_cons_ite, if_neg hne, List.lookup_nil, Option.or_none]

/-! ## One more entry -/

theorem Follows.keys_length (h : Follows size f w past) :
    w.keys.length = min size past.length := by
  rw [h.keys_eq, List.length_reverse, List.length_map, List.length_take]

/-- A full window drops its oldest key. -/
theorem Follows.headD_eq (hsize : 0 < size) (h : Follows size f w past)
    (hfull : size < (w.keys ++ [k]).length) :
    oldest size past = some ((w.keys ++ [k]).headD k) := by
  rw [List.length_append, h.keys_length, List.length_singleton] at hfull
  have hlast : size - 1 < past.length := by omega
  obtain ⟨n, rfl⟩ := Nat.exists_eq_succ_of_ne_zero hsize.ne'
  rw [Nat.succ_eq_add_one, Nat.add_sub_cancel] at hlast
  rw [oldest, h.keys_eq, Nat.succ_eq_add_one, List.take_add_one, Nat.add_sub_cancel,
    List.getElem?_eq_getElem hlast, Option.toList_some, List.map_append, List.reverse_append]
  rfl

theorem Follows.oldest_eq_none (hsize : 0 < size) (h : Follows size f w past)
    (hfull : ¬ size < (w.keys ++ [k]).length) : oldest size past = none := by
  rw [List.length_append, h.keys_length, List.length_singleton] at hfull
  rw [oldest, List.getElem?_eq_none (by omega), Option.map_none]

theorem Follows.lookup_push (hsize : 0 < size) (h : Follows size f w past) (k' : κ) :
    (w.push size k v).entries.lookup k' =
      if oldest size past = some k' then none
      else if k' = k then some v else w.entries.lookup k' := by
  by_cases hfull : size < (w.keys ++ [k]).length
  · rw [KeyedWindow.push, if_pos hfull, h.headD_eq hsize hfull, Store.lookup_erase_ite,
      Store.lookup_insert_ite]
    exact if_congr (by rw [Option.some_inj, eq_comm]) rfl rfl
  · rw [KeyedWindow.push, if_neg hfull, h.oldest_eq_none hsize hfull, Store.lookup_insert_ite,
      if_neg (Option.some_ne_none k').symm]

theorem Follows.push (hsize : 0 < size) (h : Follows size f w past) (k : κ) (v : ν) :
    Follows size f (w.push size k v) ((k, f v) :: past) where
  keys_eq := by
    obtain ⟨n, rfl⟩ := Nat.exists_eq_succ_of_ne_zero hsize.ne'
    have hkeys := h.keys_length
    rw [List.take_succ_cons, List.map_cons, List.reverse_cons]
    by_cases hfull : n + 1 < (w.keys ++ [k]).length
    · rw [KeyedWindow.push, if_pos hfull]
      rw [List.length_append, List.length_singleton, hkeys] at hfull
      have hlast : n < past.length := by omega
      rw [h.keys_eq, Nat.succ_eq_add_one, List.take_add_one, List.getElem?_eq_getElem hlast,
        Option.toList_some, List.map_append, List.reverse_append]
      rfl
    · rw [KeyedWindow.push, if_neg hfull]
      rw [List.length_append, List.length_singleton, hkeys] at hfull
      rw [h.keys_eq, List.take_of_length_le (by omega), List.take_of_length_le (by omega)]
  entries_latest k' v' hlookup := by
    rw [h.lookup_push hsize] at hlookup
    split_ifs at hlookup with hold hk
    · obtain rfl := Option.some.inj hlookup
      rw [latest_cons hsize, if_pos hk]
    · rw [latest_cons_of_ne hsize hk hold]
      exact h.entries_latest k' v' hlookup

end KeyedWindow

end StellarFlow.Foundation
