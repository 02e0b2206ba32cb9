import Mathlib.Tactic

/-!
# Hash trees of any size

The leaves are a list of any length. Two neighbours hash to their parent; a last node without a
neighbour is promoted to the next level as it is. A path therefore depends on the number of
leaves: a level gives it no sibling where the node is promoted. It reaches the root exactly from
the leaf and along the siblings of the tree, unless two of the hashed pairs collide.

The recursions have a budget of levels. One level less than there are leaves suffices.
-/
namespace StellarFlow.Foundation.PromotedTree

variable {α : Type*} (hash : α → α → α)

def nextLevel : List α → List α
  | [] => []
  | [x] => [x]
  | x :: y :: rest => hash x y :: nextLevel rest

/-- The only node of the last level. There is none if there are no leaves. -/
def rootFuel : ℕ → List α → Option α
  | 0, xs => xs.head?
  | d + 1, xs => if xs.length ≤ 1 then xs.head? else rootFuel d (nextLevel hash xs)

/-- The neighbour that a node is hashed with. -/
def neighbour (xs : List α) (i : ℕ) : Option α := if i % 2 = 1 then xs[i - 1]? else xs[i + 1]?

def siblingsFuel : ℕ → List α → ℕ → List α
  | 0, _, _ => []
  | d + 1, xs, i =>
    if xs.length ≤ 1 then []
    else (neighbour xs i).toList ++ siblingsFuel d (nextLevel hash xs) (i / 2)

/-- A node and the neighbour with index `i` of its level, in their order. -/
def joined (i : ℕ) (x s : α) : α × α := if i % 2 = 1 then (s, x) else (x, s)

/-- Climb from node `x` with index `i` of a level with `n` nodes. The result is the last node and
what is left of the path; there is none if the path is too short. -/
def climbFuel : ℕ → ℕ → ℕ → α → List α → Option (α × List α)
  | 0, _, _, x, path => some (x, path)
  | d + 1, n, i, x, path =>
    if n ≤ 1 then some (x, path)
    else if i % 2 = 1 ∨ i + 1 < n then
      match path with
      | [] => none
      | s :: path =>
        climbFuel d ((n - 1) / 2 + 1) (i / 2) (Function.uncurry hash (joined i x s)) path
    else climbFuel d ((n - 1) / 2 + 1) (i / 2) x path

/-! ## The pairs that are hashed -/

def levelPairs : List α → List (α × α)
  | [] => []
  | [_] => []
  | x :: y :: rest => (x, y) :: levelPairs rest

def treePairs : ℕ → List α → List (α × α)
  | 0, _ => []
  | d + 1, xs => levelPairs xs ++ treePairs d (nextLevel hash xs)

def climbPairs : ℕ → ℕ → ℕ → α → List α → List (α × α)
  | 0, _, _, _, _ => []
  | d + 1, n, i, x, path =>
    if n ≤ 1 then []
    else if i % 2 = 1 ∨ i + 1 < n then
      match path with
      | [] => []
      | s :: path =>
        let pair := joined i x s
        pair :: climbPairs d ((n - 1) / 2 + 1) (i / 2) (Function.uncurry hash pair) path
    else climbPairs d ((n - 1) / 2 + 1) (i / 2) x path

/-! ## Levels -/

section Levels

variable {hash} {xs : List α} {m d : ℕ}

@[simp] theorem nextLevel_length (hash : α → α → α) (xs : List α) :
    (nextLevel hash xs).length = (xs.length + 1) / 2 := by
  induction xs using nextLevel.induct with
  | case1 => simp [nextLevel]
  | case2 x => simp [nextLevel]
  | case3 x y rest ih =>
    simp only [nextLevel, List.length_cons, ih]
    omega

/-- Two neighbours and their parent. -/
theorem nextLevel_of_pair {x y : α} (hx : xs[2 * m]? = some x) (hy : xs[2 * m + 1]? = some y) :
    (nextLevel hash xs)[m]? = some (hash x y) ∧ (x, y) ∈ levelPairs xs := by
  induction xs using nextLevel.induct generalizing m with
  | case1 => cases hx
  | case2 a => simp at hy
  | case3 a b rest ih =>
    cases m with
    | zero =>
      cases hx
      cases hy
      exact ⟨rfl, List.mem_cons_self⟩
    | succ m =>
      obtain ⟨hparent, hmem⟩ := ih hx hy
      exact ⟨hparent, List.mem_cons_of_mem _ hmem⟩

/-- A last node without a neighbour is promoted. -/
theorem nextLevel_of_last (hm : 2 * m + 1 = xs.length) :
    (nextLevel hash xs)[m]? = xs[2 * m]? := by
  induction xs using nextLevel.induct generalizing m with
  | case1 => cases hm
  | case2 a =>
    obtain rfl : m = 0 := by simpa using hm
    rfl
  | case3 a b rest ih =>
    cases m with
    | zero => simp at hm
    | succ m =>
      simp only [List.length_cons] at hm
      exact ih (by omega)

/-- A tree with leaves has a root. -/
theorem exists_rootFuel (hash : α → α → α) (d : ℕ) (h : xs ≠ []) :
    ∃ r, rootFuel hash d xs = some r := by
  have hhead : ∀ ys : List α, ys ≠ [] → ∃ r, ys.head? = some r := fun ys h =>
    ⟨ys.head h, List.head?_eq_some_head h⟩
  induction d generalizing xs with
  | zero => exact hhead xs h
  | succ d ih =>
    rw [rootFuel]
    split_ifs with hlength
    · exact hhead xs h
    · refine ih (List.ne_nil_of_length_pos ?_)
      rw [nextLevel_length]
      omega

/-- A node of the next level was promoted or hashed. -/
theorem mem_nextLevel {y : α} (h : y ∈ nextLevel hash xs) :
    y ∈ xs ∨ ∃ p ∈ levelPairs xs, y = Function.uncurry hash p := by
  induction xs using nextLevel.induct with
  | case1 => cases h
  | case2 a => exact .inl h
  | case3 a b rest ih =>
    obtain rfl | hrest := List.mem_cons.mp h
    · exact .inr ⟨(a, b), List.mem_cons_self, rfl⟩
    · refine (ih hrest).imp (fun hmem => ?_) fun ⟨p, hp, hy⟩ => ⟨p, List.mem_cons_of_mem _ hp, hy⟩
      exact List.mem_cons_of_mem _ (List.mem_cons_of_mem _ hmem)

/-- The root is a leaf or the hash of a pair of the tree. -/
theorem rootFuel_cases {r : α} (hroot : rootFuel hash d xs = some r) :
    r ∈ xs ∨ ∃ p ∈ treePairs hash d xs, r = Function.uncurry hash p := by
  induction d generalizing xs with
  | zero => exact .inl (List.mem_of_mem_head? hroot)
  | succ d ih =>
    rw [rootFuel] at hroot
    simp only [treePairs, List.mem_append]
    split_ifs at hroot with hone
    · exact .inl (List.mem_of_mem_head? hroot)
    · obtain hnext | ⟨p, hp, hr⟩ := ih hroot
      · exact (mem_nextLevel hnext).imp_right fun ⟨p, hp, hr⟩ => ⟨p, .inl hp, hr⟩
      · exact .inr ⟨p, .inr hp, hr⟩

end Levels

/-! ## Paths -/

section Paths

variable {hash} {S : Set (α × α)} {r : α}

/-- A node that is not promoted has a neighbour, and the two are hashed to their parent. -/
theorem neighbour_spec (hash : α → α → α) {xs : List α} {i : ℕ} {x : α} (hx : xs[i]? = some x)
    (hjoin : i % 2 = 1 ∨ i + 1 < xs.length) :
    ∃ s, neighbour xs i = some s ∧
      (nextLevel hash xs)[i / 2]? = some (Function.uncurry hash (joined i x s)) ∧
      joined i x s ∈ levelPairs xs := by
  have hi : i < xs.length := (List.getElem?_eq_some_iff.mp hx).1
  by_cases hodd : i % 2 = 1
  · have hs : xs[i - 1]? = some xs[i - 1] := List.getElem?_eq_getElem (by omega)
    refine ⟨xs[i - 1], by rw [neighbour, if_pos hodd, hs], ?_⟩
    rw [joined, if_pos hodd]
    refine nextLevel_of_pair (m := i / 2) ?_ ?_
    · rwa [show 2 * (i / 2) = i - 1 by omega]
    · rwa [show 2 * (i / 2) + 1 = i by omega]
  · have hnext : i + 1 < xs.length := by omega
    have hs : xs[i + 1]? = some xs[i + 1] := List.getElem?_eq_getElem hnext
    refine ⟨xs[i + 1], by rw [neighbour, if_neg hodd, hs], ?_⟩
    rw [joined, if_neg hodd]
    refine nextLevel_of_pair (m := i / 2) ?_ ?_
    · rwa [show 2 * (i / 2) = i by omega]
    · rwa [show 2 * (i / 2) + 1 = i + 1 by omega]

theorem joined_inj {i : ℕ} {x s x' s' : α} :
    joined i x s = joined i x' s' ↔ x = x' ∧ s = s' := by
  unfold joined
  split_ifs
  · rw [Prod.mk.injEq, and_comm]
  · rw [Prod.mk.injEq]

/-- On a level with one node nothing of the path is used. -/
theorem last_eq_root_iff {xs : List α} {i : ℕ} {x : α} (hone : xs.length ≤ 1)
    (hi : i < xs.length) (hroot : xs.head? = some r) (path : List α) :
    some (x, path) = some (r, []) ↔ xs[i]? = some x ∧ path = [] := by
  obtain rfl : i = 0 := by omega
  rw [List.head?_eq_getElem?] at hroot
  rw [hroot, Option.some_inj, Option.some_inj, Prod.mk.injEq, eq_comm]

/-- Without collisions exactly the leaf reaches the root, along its siblings. -/
theorem climbFuel_eq_root_iff (hinj : Set.InjOn (Function.uncurry hash) S) (d : ℕ) {xs : List α}
    {i : ℕ} {x : α} {path : List α} (hlength : xs.length ≤ d + 1) (hi : i < xs.length)
    (hroot : rootFuel hash d xs = some r) (htree : ∀ p ∈ treePairs hash d xs, p ∈ S)
    (hclimb : ∀ p ∈ climbPairs hash d xs.length i x path, p ∈ S) :
    climbFuel hash d xs.length i x path = some (r, []) ↔
      xs[i]? = some x ∧ path = siblingsFuel hash d xs i := by
  induction d generalizing xs i x path with
  | zero => exact last_eq_root_iff hlength hi hroot path
  | succ d ih =>
    rw [rootFuel] at hroot
    unfold climbPairs at hclimb
    unfold climbFuel
    rw [siblingsFuel]
    by_cases hone : xs.length ≤ 1
    · rw [if_pos hone] at hroot ⊢
      rw [if_pos hone]
      exact last_eq_root_iff hone hi hroot path
    rw [if_neg hone] at hroot hclimb ⊢
    rw [if_neg hone]
    rw [treePairs, List.forall_mem_append] at htree
    have hnext : (nextLevel hash xs).length = (xs.length - 1) / 2 + 1 := by
      rw [nextLevel_length]
      omega
    have hnode : xs[i]? = some xs[i] := List.getElem?_eq_getElem hi
    by_cases hjoin : i % 2 = 1 ∨ i + 1 < xs.length
    · rw [if_pos hjoin] at hclimb ⊢
      obtain ⟨s', hs', hparent, hpair⟩ := neighbour_spec hash hnode hjoin
      rw [hs', Option.toList_some]
      cases path with
      | nil => simp
      | cons s path =>
        rw [List.forall_mem_cons] at hclimb
        rw [← hnext] at hclimb ⊢
        have heq := hinj.eq_iff (htree.1 _ hpair) hclimb.1
        rw [joined_inj] at heq
        rw [ih (by omega) (by omega) hroot htree.2 hclimb.2, hparent, hnode, Option.some_inj,
          Option.some_inj, heq, List.singleton_append, List.cons.injEq, and_assoc,
          eq_comm (a := s')]
    · rw [if_neg hjoin] at hclimb ⊢
      have hs : neighbour xs i = none := by
        rw [neighbour, if_neg (by omega), List.getElem?_eq_none (by omega)]
      rw [← hnext] at hclimb ⊢
      rw [hs, Option.toList_none, List.nil_append,
        ih (by omega) (by omega) hroot htree.2 hclimb, nextLevel_of_last (by omega),
        show 2 * (i / 2) = i by omega]

/-- The siblings of a leaf lead to the root. -/
theorem climbFuel_siblingsFuel (d : ℕ) {xs : List α} {i : ℕ} {x : α} (hlength : xs.length ≤ d + 1)
    (hx : xs[i]? = some x) (hroot : rootFuel hash d xs = some r) :
    climbFuel hash d xs.length i x (siblingsFuel hash d xs i) = some (r, []) := by
  have hi : i < xs.length := (List.getElem?_eq_some_iff.mp hx).1
  induction d generalizing xs i x with
  | zero => exact (last_eq_root_iff hlength hi hroot []).mpr ⟨hx, rfl⟩
  | succ d ih =>
    rw [rootFuel] at hroot
    rw [siblingsFuel]
    unfold climbFuel
    by_cases hone : xs.length ≤ 1
    · rw [if_pos hone] at hroot ⊢
      rw [if_pos hone]
      exact (last_eq_root_iff hone hi hroot []).mpr ⟨hx, rfl⟩
    rw [if_neg hone] at hroot ⊢
    rw [if_neg hone]
    have hnext : (nextLevel hash xs).length = (xs.length - 1) / 2 + 1 := by
      rw [nextLevel_length]
      omega
    by_cases hjoin : i % 2 = 1 ∨ i + 1 < xs.length
    · obtain ⟨s, hs, hparent, -⟩ := neighbour_spec hash hx hjoin
      rw [if_pos hjoin, hs, Option.toList_some, List.singleton_append, ← hnext]
      exact ih (by omega) hparent hroot (by omega)
    · have hs : neighbour xs i = none := by
        rw [neighbour, if_neg (by omega), List.getElem?_eq_none (by omega)]
      rw [if_neg hjoin, hs, Option.toList_none, List.nil_append, ← hnext]
      refine ih (by omega) ?_ hroot (by omega)
      rw [nextLevel_of_last (by omega), show 2 * (i / 2) = i by omega, hx]

end Paths

end StellarFlow.Foundation.PromotedTree
