import StellarFlow.Amm.Traversal

/-!
# The search over initialised ticks

On a strictly ascending list the search counts the ticks below its target, whether it stops at
a hit or with an empty range. The next initialised tick is then the nearest one on its side,
the current one included.
-/
namespace StellarFlow.Amm

open Foundation

section Position

variable {list : List ℤ} {target : ℤ} {pos : ℕ}

theorem binarySearchLoop_le {lo hi : ℕ} (hle : lo ≤ hi) :
    binarySearchLoop list target lo hi ≤ hi := by
  fun_induction binarySearchLoop list target lo hi with
  | case1 lo hi hlt mid hval => omega
  | case2 lo hi hlt mid val hval hne hless ih => exact ih (by omega)
  | case3 lo hi hlt mid val hval hne hless ih => exact (ih (by omega)).trans (by omega)
  | case4 lo hi hlt mid hnone ih => exact (ih (by omega)).trans (by omega)
  | case5 lo hi hge => exact hle

theorem binarySearchTick_le : binarySearchTick list target ≤ list.length :=
  binarySearchLoop_le (Nat.zero_le _)

/-- A position that separates the list counts what is below the target. -/
theorem Separates.eq_countP (h : Separates list target pos) (hpos : pos ≤ list.length) :
    pos = list.countP fun t => decide (t < target) := by
  have hbelow : (list.take pos).countP (fun t => decide (t < target)) = (list.take pos).length := by
    rw [List.countP_eq_length]
    intro t ht
    obtain ⟨i, hi⟩ := List.getElem?_of_mem ht
    rw [List.getElem?_take] at hi
    split_ifs at hi with hlt
    exact decide_eq_true (h.below i t hlt hi)
  have habove : (list.drop pos).countP (fun t => decide (t < target)) = 0 := by
    rw [List.countP_eq_zero]
    intro t ht
    obtain ⟨i, hi⟩ := List.getElem?_of_mem ht
    rw [List.getElem?_drop] at hi
    have hge : target ≤ t := h.above (pos + i) t (Nat.le_add_right pos i) hi
    simpa using hge
  calc pos = (list.take pos).length := (List.length_take_of_le hpos).symm
    _ = (list.take pos ++ list.drop pos).countP fun t => decide (t < target) := by
      rw [List.countP_append, hbelow, habove, Nat.add_zero]
    _ = list.countP fun t => decide (t < target) := by rw [List.take_append_drop]

/-- A listed tick stands at the position or after it exactly when it is not below the target. -/
theorem Separates.le_iff (h : Separates list target pos) {i : ℕ} {t : ℤ}
    (ht : list[i]? = some t) : target ≤ t ↔ pos ≤ i :=
  ⟨fun hle => not_lt.mp fun hlt => (h.below i t hlt ht).not_ge hle, fun hle => h.above i t hle ht⟩

/-- Where the target is not listed, an entry is at most the target exactly when it stands before
the position. -/
theorem Separates.ge_iff (h : Separates list target pos) (hsorted : list.Pairwise (· < ·))
    (hmiss : list[pos]? ≠ some target) {i : ℕ} {t : ℤ} (ht : list[i]? = some t) :
    t ≤ target ↔ i < pos := by
  refine ⟨fun hle => ?_, fun hlt => (h.below i t hlt ht).le⟩
  by_contra hge
  obtain ⟨hbound, _⟩ := List.getElem?_eq_some_iff.mp ht
  have hposlt : pos < list.length := (not_lt.mp hge).trans_lt hbound
  have hpos : list[pos]? = some list[pos] := List.getElem?_eq_getElem hposlt
  have hat : target ≤ list[pos] := h.above pos _ le_rfl hpos
  have hfirst : list[pos] ≤ t := le_of_sorted hsorted (not_lt.mp hge) hpos ht
  exact hmiss (hpos.trans (congrArg some ((hfirst.trans hle).antisymm hat)))

end Position

section Next

variable {p : Pools} {asset : AssetId} {target t : ℤ}

/-- Moving up: the least initialised tick that is not below the target. -/
theorem findNext_up_iff (hsorted : (p.getTickList asset).Pairwise (· < ·)) :
    findNextInitializedTick p asset target true = some t ↔
      IsLeast {x | x ∈ p.getTickList asset ∧ target ≤ x} t := by
  have hsep : Separates (p.getTickList asset) target
      (binarySearchTick (p.getTickList asset) target) := binarySearchTick_separates hsorted
  simp only [findNextInitializedTick, if_pos, Option.filter_eq_some_iff, decide_eq_true_eq]
  generalize p.getTickList asset = list at *
  generalize binarySearchTick list target = pos at *
  constructor
  · rintro ⟨hpos, hle⟩
    refine ⟨⟨List.mem_of_getElem? hpos, hle⟩, ?_⟩
    rintro x ⟨hx, hxle⟩
    obtain ⟨i, hi⟩ := List.getElem?_of_mem hx
    exact le_of_sorted hsorted ((hsep.le_iff hi).mp hxle) hpos hi
  · rintro ⟨⟨hmem, hle⟩, hleast⟩
    obtain ⟨i, hi⟩ := List.getElem?_of_mem hmem
    have hposi : pos ≤ i := (hsep.le_iff hi).mp hle
    obtain ⟨hbound, _⟩ := List.getElem?_eq_some_iff.mp hi
    have hpos : list[pos]? = some list[pos] := List.getElem?_eq_getElem (hposi.trans_lt hbound)
    have hat : target ≤ list[pos] := hsep.above pos _ le_rfl hpos
    have heq : list[pos] = t := (le_of_sorted hsorted hposi hpos hi).antisymm
      (hleast ⟨List.getElem_mem _, hat⟩)
    exact ⟨hpos.trans (congrArg some heq), hle⟩

/-- Moving down: the greatest initialised tick that is not above the target. -/
theorem findNext_down_iff (hsorted : (p.getTickList asset).Pairwise (· < ·)) :
    findNextInitializedTick p asset target false = some t ↔
      IsGreatest {x | x ∈ p.getTickList asset ∧ x ≤ target} t := by
  have hsep : Separates (p.getTickList asset) target
      (binarySearchTick (p.getTickList asset) target) := binarySearchTick_separates hsorted
  have hlen : binarySearchTick (p.getTickList asset) target ≤ (p.getTickList asset).length :=
    binarySearchTick_le
  simp only [findNextInitializedTick, Bool.false_eq_true, if_false]
  generalize p.getTickList asset = list at *
  generalize binarySearchTick list target = pos at *
  split_ifs with hat hpos
  · constructor
    · rintro ⟨⟩
      exact ⟨⟨List.mem_of_getElem? hat, le_rfl⟩, fun x hx => hx.2⟩
    · rintro ⟨⟨_, hle⟩, hgreatest⟩
      exact congrArg some ((hgreatest ⟨List.mem_of_getElem? hat, le_rfl⟩).antisymm hle)
  · constructor
    · intro hlast
      refine ⟨⟨List.mem_of_getElem? hlast, (hsep.ge_iff hsorted hat hlast).mpr (by omega)⟩, ?_⟩
      rintro x ⟨hx, hxle⟩
      obtain ⟨i, hi⟩ := List.getElem?_of_mem hx
      have hlt : i < pos := (hsep.ge_iff hsorted hat hi).mp hxle
      exact le_of_sorted hsorted (by omega) hi hlast
    · rintro ⟨⟨hmem, hle⟩, hgreatest⟩
      obtain ⟨i, hi⟩ := List.getElem?_of_mem hmem
      have hlt : i < pos := (hsep.ge_iff hsorted hat hi).mp hle
      have hlast : list[pos - 1]? = some list[pos - 1] := List.getElem?_eq_getElem (by omega)
      have hlastle : list[pos - 1] ≤ target :=
        (hsep.ge_iff hsorted hat hlast).mpr (by omega)
      have heq : list[pos - 1] = t := (hgreatest ⟨List.getElem_mem _, hlastle⟩).antisymm
        (le_of_sorted hsorted (by omega) hi hlast)
      exact hlast.trans (congrArg some heq)
  · refine ⟨fun h => absurd h (by simp), ?_⟩
    rintro ⟨⟨hmem, hle⟩, _⟩
    obtain ⟨i, hi⟩ := List.getElem?_of_mem hmem
    have hlt : i < pos := (hsep.ge_iff hsorted hat hi).mp hle
    omega

/-- Listed ticks with a property have a least and a greatest one. -/
theorem exists_isLeast_isGreatest {list : List ℤ} {P : ℤ → Prop} [DecidablePred P] {x : ℤ}
    (hx : x ∈ list) (hP : P x) :
    (∃ t, IsLeast {x | x ∈ list ∧ P x} t) ∧ ∃ t, IsGreatest {x | x ∈ list ∧ P x} t := by
  have hset : ((list.toFinset.filter P : Finset ℤ) : Set ℤ) = {x | x ∈ list ∧ P x} := by
    ext y
    simp
  have hne : (list.toFinset.filter P).Nonempty := ⟨x, by simp [hx, hP]⟩
  rw [← hset]
  exact ⟨⟨_, Finset.isLeast_min' _ hne⟩, ⟨_, Finset.isGreatest_max' _ hne⟩⟩

theorem findNext_up_eq_none (hsorted : (p.getTickList asset).Pairwise (· < ·)) :
    findNextInitializedTick p asset target true = none ↔
      ¬ ∃ x ∈ p.getTickList asset, target ≤ x := by
  rw [Option.eq_none_iff_forall_ne_some]
  refine ⟨?_, fun hnone t ht => hnone ⟨t, ((findNext_up_iff hsorted).mp ht).1⟩⟩
  rintro hnone ⟨x, hx, hle⟩
  obtain ⟨⟨t, ht⟩, _⟩ := exists_isLeast_isGreatest hx hle
  exact hnone t ((findNext_up_iff hsorted).mpr ht)

theorem findNext_down_eq_none (hsorted : (p.getTickList asset).Pairwise (· < ·)) :
    findNextInitializedTick p asset target false = none ↔
      ¬ ∃ x ∈ p.getTickList asset, x ≤ target := by
  rw [Option.eq_none_iff_forall_ne_some]
  refine ⟨?_, fun hnone t ht => hnone ⟨t, ((findNext_down_iff hsorted).mp ht).1⟩⟩
  rintro hnone ⟨x, hx, hle⟩
  obtain ⟨_, ⟨t, ht⟩⟩ := exists_isLeast_isGreatest (P := (· ≤ target)) hx hle
  exact hnone t ((findNext_down_iff hsorted).mpr ht)

end Next

/-- The search counts the smaller ticks, and the next tick in a direction is the nearest one
there, missing exactly when there is none. -/
theorem tick_search_exact (p : Pools) (asset : AssetId) (target : ℤ)
    (hsorted : (p.getTickList asset).Pairwise (· < ·)) :
    binarySearchTick (p.getTickList asset) target =
        (p.getTickList asset).countP (fun t => decide (t < target)) ∧
      (∀ t, findNextInitializedTick p asset target true = some t ↔
        IsLeast {x | x ∈ p.getTickList asset ∧ target ≤ x} t) ∧
      (∀ t, findNextInitializedTick p asset target false = some t ↔
        IsGreatest {x | x ∈ p.getTickList asset ∧ x ≤ target} t) ∧
      (findNextInitializedTick p asset target true = none ↔
        ¬ ∃ x ∈ p.getTickList asset, target ≤ x) ∧
      (findNextInitializedTick p asset target false = none ↔
        ¬ ∃ x ∈ p.getTickList asset, x ≤ target) :=
  ⟨(binarySearchTick_separates hsorted).eq_countP binarySearchTick_le,
    fun _ => findNext_up_iff hsorted, fun _ => findNext_down_iff hsorted,
    findNext_up_eq_none hsorted, findNext_down_eq_none hsorted⟩

/-- A pool with three initialised ticks. -/
def threeTicks : Pools :=
  { Pools.empty with lists := Pools.empty.lists.insert 1 [-10, 5, 20] }

/-- From tick 7, two of the three are below, and the next ones are 20 and 5. -/
theorem tick_search_exact_sample :
    binarySearchTick (threeTicks.getTickList 1) 7 = 2 ∧
      findNextInitializedTick threeTicks 1 7 true = some 20 ∧
      findNextInitializedTick threeTicks 1 7 false = some 5 := by
  have hlist : threeTicks.getTickList 1 = [-10, 5, 20] := by decide
  obtain ⟨hpos, hup, hdown, _⟩ := tick_search_exact threeTicks 1 7 (by decide)
  refine ⟨hpos.trans (by decide), (hup 20).mpr ?_, (hdown 5).mpr ?_⟩
  · rw [hlist]
    refine ⟨by simp, ?_⟩
    rintro x ⟨hx, hle⟩
    fin_cases hx <;> omega
  · rw [hlist]
    refine ⟨by simp, ?_⟩
    rintro x ⟨hx, hle⟩
    fin_cases hx <;> omega

end StellarFlow.Amm
