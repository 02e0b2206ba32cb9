import StellarFlow.Orders.Limit

/-!
# The tick table

`TickTable.Ranked` is the representation of the per-tick volumes: stored volumes are
positive, and the list of active ticks of a side holds exactly the ticks with a stored
volume, in strict priority order. Adding and removing volume keep it, and change the
volume of one tick of one side by the stated amount.
-/
namespace StellarFlow.Orders

open Foundation

theorem tickBefore_trans (isBid : Bool) (x y z : ℤ) (hxy : tickBefore isBid x y = true)
    (hyz : tickBefore isBid y z = true) : tickBefore isBid x z = true := by
  cases isBid <;> simp only [tickBefore, if_true, Bool.false_eq_true, if_false,
    decide_eq_true_eq] at * <;> omega

theorem tickBefore_total (isBid : Bool) (x y : ℤ) (h : x ≠ y) :
    tickBefore isBid x y = true ∨ tickBefore isBid y x = true := by
  cases isBid <;> simp only [tickBefore, if_true, Bool.false_eq_true, if_false,
    decide_eq_true_eq] <;> omega

theorem tickBefore_irrefl (isBid : Bool) (x : ℤ) : tickBefore isBid x x = false := by
  cases isBid <;> simp [tickBefore]

namespace TickTable

structure Ranked (t : TickTable) : Prop where
  volume_pos : ∀ k v, t.tickVolume.lookup k = some v → 0 < v
  ticks_sorted : ∀ p s, (t.getActiveTicks p s).Pairwise fun x y => tickBefore s x y = true
  ticks_mem : ∀ p x s, x ∈ t.getActiveTicks p s ↔ ∃ v, t.tickVolume.lookup (p, x, s) = some v

variable {t t' : TickTable} {p : AssetPair} {x amount : ℤ} {s : Bool}

theorem Ranked.empty : Ranked ⟨∅, ∅⟩ where
  volume_pos := by simp
  ticks_sorted := by simp [getActiveTicks]
  ticks_mem := by simp [getActiveTicks]

theorem Ranked.getTickVolume_nonneg (h : t.Ranked) (p : AssetPair) (x : ℤ) (s : Bool) :
    0 ≤ t.getTickVolume p x s := by
  unfold getTickVolume
  cases hl : t.tickVolume.lookup (p, x, s) with
  | none => simp
  | some v => simpa using (h.volume_pos _ v hl).le

/-- A tick is active exactly when its volume reads as positive. -/
theorem Ranked.mem_getActiveTicks (h : t.Ranked) (p : AssetPair) (x : ℤ) (s : Bool) :
    x ∈ t.getActiveTicks p s ↔ 0 < t.getTickVolume p x s := by
  rw [h.ticks_mem, getTickVolume]
  cases hl : t.tickVolume.lookup (p, x, s) with
  | none => simp
  | some v => simpa using h.volume_pos _ v hl

theorem Ranked.ticks_nodup (h : t.Ranked) (p : AssetPair) (s : Bool) :
    (t.getActiveTicks p s).Nodup := by
  refine (h.ticks_sorted p s).imp ?_
  rintro x _ hx rfl
  simp [tickBefore_irrefl] at hx

/-- What a successful addition of a positive amount stores. -/
theorem addTickLiquidity_eq_ok (ha : 0 < amount)
    (h : t.addTickLiquidity p x amount s = .ok t') :
    t'.tickVolume = t.tickVolume.insert (p, x, s) (t.getTickVolume p x s + amount) ∧
    t'.activeTicks = if t.getTickVolume p x s = 0 then
        t.activeTicks.insert (p, s) (sortTicks s (t.getActiveTicks p s ++ [x]))
      else t.activeTicks := by
  simp only [addTickLiquidity, if_neg (not_le.mpr ha), bind_eq_ok, okOr_eq_ok,
    IntRange.check_eq_some] at h
  obtain ⟨v, ⟨_, rfl⟩, h⟩ := h
  split_ifs at h ⊢ <;> rw [pure_eq_ok] at h <;> subst h <;> exact ⟨rfl, rfl⟩

theorem getTickVolume_add (ha : 0 < amount) (h : t.addTickLiquidity p x amount s = .ok t')
    (p' : AssetPair) (x' : ℤ) (s' : Bool) : t'.getTickVolume p' x' s' =
      t.getTickVolume p' x' s' + if (p', x', s') = (p, x, s) then amount else 0 := by
  simp only [getTickVolume, (addTickLiquidity_eq_ok ha h).1, Store.lookup_insert_ite]
  split_ifs with he
  · cases he; simp
  · simp

theorem Ranked.add (hr : t.Ranked) (ha : 0 < amount)
    (h : t.addTickLiquidity p x amount s = .ok t') : t'.Ranked := by
  obtain ⟨hvol, hticks⟩ := addTickLiquidity_eq_ok ha h
  have hnn := hr.getTickVolume_nonneg p x s
  have hget : ∀ p' s', t'.getActiveTicks p' s' =
      if (p', s') = (p, s) ∧ t.getTickVolume p x s = 0 then
        sortTicks s (t.getActiveTicks p s ++ [x])
      else t.getActiveTicks p' s' := by
    intro p' s'
    simp only [getActiveTicks, hticks]
    by_cases hv : t.getTickVolume p x s = 0
    · simp only [hv, if_true, Store.lookup_insert_ite, and_true]
      split_ifs <;> rfl
    · simp [hv]
  refine ⟨?_, ?_, ?_⟩
  · intro k v hk
    rw [hvol, Store.lookup_insert_ite] at hk
    split_ifs at hk
    · cases hk; omega
    · exact hr.volume_pos k v hk
  · intro p' s'
    rw [hget]
    split_ifs with hc
    · obtain ⟨he, hv⟩ := hc
      cases he
      have hx : x ∉ t.getActiveTicks p s := by
        rw [hr.mem_getActiveTicks, hv]
        exact lt_irrefl 0
      apply shiftSort_pairwise (tickBefore_trans s) (tickBefore_total s)
      exact List.nodup_append.mpr ⟨hr.ticks_nodup p s, List.nodup_singleton x, by
        rintro y hy z hz rfl
        exact hx (List.mem_singleton.mp hz ▸ hy)⟩
    · exact hr.ticks_sorted p' s'
  · intro p' x' s'
    rw [hget, hvol, Store.lookup_insert_ite]
    by_cases hv : t.getTickVolume p x s = 0
    · by_cases he : (p', s') = (p, s)
      · cases he
        simp only [hv, and_self, if_true, sortTicks, mem_shiftSort, List.mem_append,
          List.mem_singleton, Prod.mk.injEq, true_and, and_true]
        split_ifs with hx
        · simp [hx]
        · simp only [hx, or_false]
          exact hr.ticks_mem p x' s
      · have hne : ¬ (p', x', s') = (p, x, s) := fun hc => he (by cases hc; rfl)
        rw [if_neg fun hc => he hc.1, if_neg hne]
        exact hr.ticks_mem p' x' s'
    · rw [if_neg fun hc => hv hc.2, hr.ticks_mem]
      split_ifs with hx
      · cases hx
        have hmem : x ∈ t.getActiveTicks p s := by
          rw [hr.mem_getActiveTicks]
          omega
        simpa using (hr.ticks_mem p x s).mp hmem
      · rfl

theorem removeTickLiquidity_tickVolume (ha : 0 < amount) :
    (t.removeTickLiquidity p x amount s).tickVolume =
      if t.getTickVolume p x s ≤ amount then t.tickVolume.erase (p, x, s)
      else t.tickVolume.insert (p, x, s) (t.getTickVolume p x s - amount) := by
  simp only [removeTickLiquidity, if_neg (not_le.mpr ha)]
  by_cases hle : t.getTickVolume p x s ≤ amount
  · simp only [hle, if_true]
    split
    · rfl
    · split_ifs <;> rfl
  · have hne : t.getTickVolume p x s - amount ≠ 0 := by omega
    simp [hle, hne]

theorem getActiveTicks_remove (ha : 0 < amount) (p' : AssetPair) (s' : Bool) :
    (t.removeTickLiquidity p x amount s).getActiveTicks p' s' =
      if (p', s') = (p, s) ∧ t.getTickVolume p x s ≤ amount then
        (t.getActiveTicks p s).filter (· ≠ x)
      else t.getActiveTicks p' s' := by
  simp only [removeTickLiquidity, if_neg (not_le.mpr ha)]
  by_cases hle : t.getTickVolume p x s ≤ amount
  · simp only [hle, if_true, and_true]
    cases hl : t.activeTicks.lookup (p, s) with
    | none =>
      split_ifs with he
      · cases he; simp [getActiveTicks, hl]
      · rfl
    | some ticks =>
      simp only [getActiveTicks, hl, Option.getD_some]
      split_ifs with hu he he
      · rw [he, hu]; simp
      · rw [Store.lookup_erase_ite, if_neg he]
      · rw [he]; simp
      · rw [Store.lookup_insert_ite, if_neg he]
  · have hne : t.getTickVolume p x s - amount ≠ 0 := by omega
    simp only [hle, if_false, hne, and_false]
    rfl

/-- Removing no more than the tick holds subtracts exactly that amount. -/
theorem getTickVolume_remove (ha : 0 < amount) (hle : amount ≤ t.getTickVolume p x s)
    (p' : AssetPair) (x' : ℤ) (s' : Bool) :
    (t.removeTickLiquidity p x amount s).getTickVolume p' x' s' =
      t.getTickVolume p' x' s' - if (p', x', s') = (p, x, s) then amount else 0 := by
  rw [getTickVolume, removeTickLiquidity_tickVolume ha]
  by_cases hc : t.getTickVolume p x s ≤ amount
  · rw [if_pos hc, Store.lookup_erase_ite]
    split_ifs with he
    · cases he
      simp only [Option.getD_none]
      omega
    · simp [getTickVolume]
  · rw [if_neg hc, Store.lookup_insert_ite]
    split_ifs with he
    · cases he; rfl
    · simp [getTickVolume]

theorem Ranked.remove (hr : t.Ranked) (ha : 0 < amount) :
    (t.removeTickLiquidity p x amount s).Ranked := by
  refine ⟨?_, ?_, ?_⟩
  · intro k v hk
    rw [removeTickLiquidity_tickVolume ha] at hk
    split_ifs at hk with hle
    · rw [Store.lookup_erase_ite] at hk
      split_ifs at hk
      exact hr.volume_pos k v hk
    · rw [Store.lookup_insert_ite] at hk
      split_ifs at hk
      · cases hk; omega
      · exact hr.volume_pos k v hk
  · intro p' s'
    rw [getActiveTicks_remove ha]
    split_ifs with hc
    · obtain ⟨he, _⟩ := hc
      cases he
      exact (hr.ticks_sorted p s).filter _
    · exact hr.ticks_sorted p' s'
  · intro p' x' s'
    rw [getActiveTicks_remove ha, removeTickLiquidity_tickVolume ha]
    by_cases hle : t.getTickVolume p x s ≤ amount
    · rw [if_pos hle, Store.lookup_erase_ite]
      by_cases he : (p', s') = (p, s)
      · cases he
        simp only [hle, and_self, if_true, List.mem_filter, decide_eq_true_eq, Prod.mk.injEq,
          true_and, and_true, hr.ticks_mem]
        split_ifs with hx <;> simp [hx]
      · have hne : ¬ (p', x', s') = (p, x, s) := fun hc => he (by cases hc; rfl)
        rw [if_neg fun hc => he hc.1, if_neg hne]
        exact hr.ticks_mem p' x' s'
    · rw [if_neg fun hc => hle hc.2, if_neg hle, Store.lookup_insert_ite, hr.ticks_mem]
      split_ifs with hx
      · cases hx
        have hmem : x ∈ t.getActiveTicks p s := by
          rw [hr.mem_getActiveTicks]
          omega
        simpa using (hr.ticks_mem p x s).mp hmem
      · rfl

end TickTable

end StellarFlow.Orders
