import StellarFlow.Foundation.Store
import Mathlib.Data.List.GetD

/-!
# Complete binary hash trees

A tree is given by its leaves, a function of the index, and a hash of two values. Leaves that
are not set are one padding value, so that a subtree without set leaves depends on its level
only. A path climbs from a leaf by hashing with one sibling per level; it reaches the root
exactly from the leaf and the siblings of the tree, unless two of the hashed pairs collide.
A frontier remembers for each level the left sibling that the next leaf needs.
-/
namespace StellarFlow.Foundation.HashTree

variable {α : Type*} (hash : α → α → α)

/-- The hash of the subtree with the given level and index. -/
def node (leaf : ℕ → α) : ℕ → ℕ → α
  | 0, i => leaf i
  | l + 1, i => hash (node leaf l (2 * i)) (node leaf l (2 * i + 1))

/-- The hash of a subtree that only consists of padding. -/
def padding (z : α) : ℕ → α
  | 0 => z
  | l + 1 => hash (padding z l) (padding z l)

/-- The leaves of a list, followed by padding. -/
def leaves (z : α) (xs : List α) (i : ℕ) : α := xs.getD i z

def sibling (i : ℕ) : ℕ := if i % 2 = 0 then i + 1 else i - 1

/-! ## Nodes -/

section Nodes

variable {hash} {leaf leaf' : ℕ → α} {z : α} {xs ys : List α}

/-- A node depends on the leaves below it only. -/
theorem node_congr {l i : ℕ} (h : ∀ j, j / 2 ^ l = i → leaf j = leaf' j) :
    node hash leaf l i = node hash leaf' l i := by
  induction l generalizing i with
  | zero => exact h i (by simp)
  | succ l ih =>
    have hbelow : ∀ k, k / 2 = i → node hash leaf l k = node hash leaf' l k := by
      intro k hk
      refine ih fun j hj => h j ?_
      rw [pow_succ, ← Nat.div_div_eq_div_mul, hj, hk]
    rw [node, node, hbelow (2 * i) (by omega), hbelow (2 * i + 1) (by omega)]

theorem node_const (hash : α → α → α) (z : α) (l i : ℕ) :
    node hash (fun _ => z) l i = padding hash z l := by
  induction l generalizing i with
  | zero => rfl
  | succ l ih => rw [node, ih, ih, padding]

theorem leaves_append_of_lt {j : ℕ} (hj : j < xs.length) :
    leaves z (xs ++ ys) j = leaves z xs j :=
  List.getD_append _ _ _ _ hj

theorem leaves_of_length_le {j : ℕ} (hj : xs.length ≤ j) : leaves z xs j = z :=
  List.getD_eq_default _ _ hj

/-- Beyond the set leaves there is padding. -/
theorem node_of_length_le {l i : ℕ} (h : xs.length ≤ i * 2 ^ l) :
    node hash (leaves z xs) l i = padding hash z l := by
  rw [← node_const hash z l i]
  refine node_congr fun j hj => leaves_of_length_le ?_
  rw [← hj] at h
  exact h.trans (Nat.div_mul_le_self j (2 ^ l))

/-- Appended leaves do not change the subtrees before them. -/
theorem node_append {l i : ℕ} (h : (i + 1) * 2 ^ l ≤ xs.length) :
    node hash (leaves z (xs ++ ys)) l i = node hash (leaves z xs) l i := by
  refine node_congr fun j hj => leaves_append_of_lt ?_
  have hlt : j < (j / 2 ^ l + 1) * 2 ^ l := by
    rw [add_mul, one_mul]
    exact Nat.lt_div_mul_add (Nat.two_pow_pos l)
  rw [hj] at hlt
  exact hlt.trans_le h

/-- A node and its sibling hash to their parent. -/
theorem node_parent (leaf : ℕ → α) (l i : ℕ) :
    node hash leaf (l + 1) (i / 2) =
      if i % 2 = 0 then hash (node hash leaf l i) (node hash leaf l (i + 1))
      else hash (node hash leaf l (i - 1)) (node hash leaf l i) := by
  split_ifs with hi
  · rw [node, show 2 * (i / 2) = i by omega]
  · rw [node, show 2 * (i / 2) = i - 1 by omega, show i - 1 + 1 = i by omega]

end Nodes

/-! ## Tables of padding -/

/-- The hash of a subtree of padding, read from a table that is filled on demand. -/
def cachedPadding (z : α) : ℕ → Store ℕ α → α × Store ℕ α
  | level, table =>
    match table.lookup level with
    | some cached => (cached, table)
    | none =>
      let (value, table) := match level with
        | 0 => (z, table)
        | level + 1 =>
          let (child, table) := cachedPadding z level table
          (hash child child, table)
      (value, table.insert level value)

def PaddingTable (z : α) (table : Store ℕ α) : Prop :=
  ∀ level value, table.lookup level = some value → value = padding hash z level

section Tables

variable {hash} {z : α} {table : Store ℕ α}

theorem PaddingTable.empty : PaddingTable hash z ∅ := fun _ _ h => by cases h

theorem PaddingTable.insert (h : PaddingTable hash z table) (level : ℕ) :
    PaddingTable hash z (table.insert level (padding hash z level)) := by
  intro l value hlookup
  obtain ⟨rfl, rfl⟩ | ⟨_, hold⟩ := Store.lookup_insert_eq_some.mp hlookup
  · rfl
  · exact h l value hold

theorem cachedPadding_spec (h : PaddingTable hash z table) (level : ℕ) :
    ∃ table', cachedPadding hash z level table = (padding hash z level, table') ∧
      PaddingTable hash z table' := by
  induction level with
  | zero =>
    rw [cachedPadding]
    cases hlookup : table.lookup 0 with
    | some value => exact ⟨table, by rw [h 0 value hlookup], h⟩
    | none => exact ⟨_, rfl, h.insert 0⟩
  | succ level ih =>
    rw [cachedPadding]
    cases hlookup : table.lookup (level + 1) with
    | some value => exact ⟨table, by rw [h (level + 1) value hlookup], h⟩
    | none =>
      obtain ⟨table', heq, h'⟩ := ih
      refine ⟨_, ?_, h'.insert (level + 1)⟩
      simp only [heq]
      rfl

end Tables

/-! ## Paths -/

/-- The value that a path of siblings reaches from a leaf. -/
def climb : List α → ℕ → α → α
  | [], _, x => x
  | s :: path, i, x => climb path (i / 2) (if i % 2 = 1 then hash s x else hash x s)

/-- The siblings of a leaf, from its own level on. -/
def siblings (leaf : ℕ → α) (l d i : ℕ) : List α :=
  (List.range d).map fun k => node hash leaf (l + k) (sibling (i / 2 ^ k))

/-- The pairs that a path hashes. -/
def climbPairs : List α → ℕ → α → List (α × α)
  | [], _, _ => []
  | s :: path, i, x =>
    let p := if i % 2 = 1 then (s, x) else (x, s)
    p :: climbPairs path (i / 2) (hash p.1 p.2)

/-- The pairs that a tree of the given depth hashes. -/
def treePairs (leaf : ℕ → α) (d : ℕ) : Set (α × α) :=
  {p | ∃ l i, (i + 1) * 2 ^ (l + 1) ≤ 2 ^ d ∧
    p = (node hash leaf l (2 * i), node hash leaf l (2 * i + 1))}

section Paths

variable {hash} {leaf : ℕ → α} {S : Set (α × α)}

theorem siblings_succ (l d i : ℕ) :
    siblings hash leaf l (d + 1) i =
      node hash leaf l (sibling i) :: siblings hash leaf (l + 1) d (i / 2) := by
  rw [siblings, siblings, List.range_succ_eq_map, List.map_cons, List.map_map, pow_zero,
    Nat.div_one, add_zero]
  congr 1
  refine List.map_congr_left fun k _ => ?_
  rw [Function.comp_apply, Nat.succ_eq_add_one, pow_succ', Nat.div_div_eq_div_mul,
    show l + (k + 1) = l + 1 + k by omega]

@[simp] theorem siblings_length (l d i : ℕ) : (siblings hash leaf l d i).length = d := by
  simp [siblings]

/-- The lowest bit and the other bits of an index below a depth. -/
theorem mod_two_pow_succ (i k : ℕ) :
    i % 2 ^ (k + 1) % 2 = i % 2 ∧ i % 2 ^ (k + 1) / 2 = i / 2 % 2 ^ k := by
  constructor
  · exact Nat.mod_mod_of_dvd i (dvd_pow_self 2 (Nat.succ_ne_zero k))
  · rw [pow_succ', Nat.mod_mul_right_div_self]

/-- A path depends on its index up to the depth only. -/
theorem climb_mod (path : List α) (i : ℕ) (x : α) :
    climb hash path (i % 2 ^ path.length) x = climb hash path i x := by
  induction path generalizing i x with
  | nil => rfl
  | cons s path ih =>
    obtain ⟨hbit, hhalf⟩ := mod_two_pow_succ i path.length
    rw [climb, climb, List.length_cons, hbit, hhalf, ih]

theorem climbPairs_mod (path : List α) (i : ℕ) (x : α) :
    climbPairs hash path (i % 2 ^ path.length) x = climbPairs hash path i x := by
  induction path generalizing i x with
  | nil => rfl
  | cons s path ih =>
    obtain ⟨hbit, hhalf⟩ := mod_two_pow_succ i path.length
    rw [climbPairs, climbPairs, List.length_cons, hbit, hhalf, ih]

theorem mem_treePairs {d k i : ℕ} (hi : i < 2 ^ d) (hk : k < d) :
    (node hash leaf k (2 * (i / 2 ^ (k + 1))), node hash leaf k (2 * (i / 2 ^ (k + 1)) + 1)) ∈
      treePairs hash leaf d := by
  refine ⟨k, i / 2 ^ (k + 1), ?_, rfl⟩
  have hlt : i / 2 ^ (k + 1) < 2 ^ (d - (k + 1)) := by
    rw [Nat.div_lt_iff_lt_mul (Nat.two_pow_pos _), ← pow_add]
    rwa [Nat.sub_add_cancel hk]
  calc (i / 2 ^ (k + 1) + 1) * 2 ^ (k + 1)
      ≤ 2 ^ (d - (k + 1)) * 2 ^ (k + 1) := Nat.mul_le_mul_right _ hlt
    _ = 2 ^ d := by rw [← pow_add, Nat.sub_add_cancel hk]

/-- One level of a path agrees with the tree exactly for the node and its sibling, if the two
pairs do not collide. -/
theorem hash_eq_parent_iff (hinj : Set.InjOn (Function.uncurry hash) S) {l i : ℕ} {x s : α}
    (hpair : (if i % 2 = 1 then (s, x) else (x, s)) ∈ S)
    (htree : (node hash leaf l (2 * (i / 2)), node hash leaf l (2 * (i / 2) + 1)) ∈ S) :
    (if i % 2 = 1 then hash s x else hash x s) = node hash leaf (l + 1) (i / 2) ↔
      x = node hash leaf l i ∧ s = node hash leaf l (sibling i) := by
  rw [node]
  by_cases hi : i % 2 = 1
  · rw [if_pos hi] at hpair ⊢
    have heq := hinj.eq_iff hpair htree
    rw [show 2 * (i / 2) = i - 1 by omega, show i - 1 + 1 = i by omega] at heq ⊢
    rw [sibling, if_neg (by omega), and_comm, ← Prod.mk.injEq]
    exact heq
  · rw [if_neg hi] at hpair ⊢
    have heq := hinj.eq_iff hpair htree
    rw [show 2 * (i / 2) = i by omega] at heq ⊢
    rw [sibling, if_pos (by omega), ← Prod.mk.injEq]
    exact heq

/-- Without collisions a path reaches the node above exactly from the node below and along its
siblings. -/
theorem climb_eq_node_iff (leaf : ℕ → α) (hinj : Set.InjOn (Function.uncurry hash) S)
    (path : List α) {l i : ℕ} {x : α} (hclimb : ∀ p ∈ climbPairs hash path i x, p ∈ S)
    (htree : ∀ k < path.length, (node hash leaf (l + k) (2 * (i / 2 ^ (k + 1))),
      node hash leaf (l + k) (2 * (i / 2 ^ (k + 1)) + 1)) ∈ S) :
    climb hash path i x = node hash leaf (l + path.length) (i / 2 ^ path.length) ↔
      x = node hash leaf l i ∧ path = siblings hash leaf l path.length i := by
  induction path generalizing l i x with
  | nil => simp [climb, siblings]
  | cons s path ih =>
    rw [climbPairs, List.forall_mem_cons] at hclimb
    have hhalf : ∀ k, i / 2 / 2 ^ k = i / 2 ^ (k + 1) := fun k => by
      rw [Nat.div_div_eq_div_mul, ← pow_succ']
    have hrest := ih (l := l + 1) (i := i / 2)
      (x := if i % 2 = 1 then hash s x else hash x s)
      (by
        convert hclimb.2 using 3
        split_ifs <;> rfl)
      (fun k hk => by
        have := htree (k + 1) (by simpa using hk)
        rwa [hhalf, show l + 1 + k = l + (k + 1) by omega])
    have hfirst := htree 0 (by simp)
    rw [zero_add, pow_one, add_zero] at hfirst
    rw [hash_eq_parent_iff hinj hclimb.1 hfirst, hhalf,
      show l + 1 + path.length = l + (path.length + 1) by omega] at hrest
    rw [climb, List.length_cons, hrest, siblings_succ, List.cons.injEq, and_assoc]

/-- Without collisions exactly the leaf of the tree reaches the root, along its siblings. The
index counts up to the depth only. -/
theorem climb_eq_root_iff {d i : ℕ} {x : α} {path : List α} (hlength : path.length = d)
    (hinj : Set.InjOn (Function.uncurry hash)
      ({p | p ∈ climbPairs hash path i x} ∪ treePairs hash leaf d)) :
    climb hash path i x = node hash leaf d 0 ↔
      x = leaf (i % 2 ^ d) ∧ path = siblings hash leaf 0 d (i % 2 ^ d) := by
  subst hlength
  have hlt : i % 2 ^ path.length < 2 ^ path.length := Nat.mod_lt _ (Nat.two_pow_pos _)
  rw [← climb_mod]
  have hroot := climb_eq_node_iff leaf (l := 0) (i := i % 2 ^ path.length) hinj path
    (by
      rw [climbPairs_mod]
      exact fun p hp => .inl hp)
    (fun k hk => .inr (by
      rw [zero_add]
      exact mem_treePairs hlt hk))
  rwa [zero_add, Nat.div_eq_of_lt hlt, node] at hroot

/-- A path with one more sibling at its end. -/
theorem climb_concat (path : List α) (s : α) (i : ℕ) (x : α) :
    climb hash (path ++ [s]) i x =
      if i / 2 ^ path.length % 2 = 1 then hash s (climb hash path i x)
      else hash (climb hash path i x) s := by
  induction path generalizing i x with
  | nil => simp [climb]
  | cons t path ih =>
    rw [List.cons_append, climb, ih, climb, List.length_cons, Nat.div_div_eq_div_mul, ← pow_succ']

/-- The siblings of a node lead to the node above. -/
theorem climb_siblings (leaf : ℕ → α) (l d i : ℕ) :
    climb hash (siblings hash leaf l d i) i (node hash leaf l i) =
      node hash leaf (l + d) (i / 2 ^ d) := by
  induction d generalizing l i with
  | zero => simp [siblings, climb]
  | succ d ih =>
    have hparent : (if i % 2 = 1 then hash (node hash leaf l (sibling i)) (node hash leaf l i)
        else hash (node hash leaf l i) (node hash leaf l (sibling i))) =
        node hash leaf (l + 1) (i / 2) := by
      rw [node_parent, sibling]
      obtain heven | hodd := Nat.mod_two_eq_zero_or_one i
      · simp [heven]
      · simp [hodd]
    rw [siblings_succ, climb, hparent, ih, Nat.div_div_eq_div_mul, ← pow_succ',
      show l + 1 + d = l + (d + 1) by omega]

theorem sibling_ne (i : ℕ) : sibling i ≠ i := by
  rw [sibling]
  split_ifs <;> omega

/-- The siblings of a leaf do not depend on the leaf itself. -/
theorem siblings_congr {leaf' : ℕ → α} {i : ℕ} (h : ∀ j, j ≠ i → leaf j = leaf' j) (d : ℕ) :
    siblings hash leaf 0 d i = siblings hash leaf' 0 d i := by
  refine List.map_congr_left fun k _ => ?_
  rw [zero_add]
  refine node_congr fun j hj => h j ?_
  rintro rfl
  exact sibling_ne _ hj.symm

end Paths

/-! ## Frontiers -/

/-- The value at a level above a new leaf: at an even index its sibling is padding, at an odd
index it is remembered. -/
def rise (z : α) (slot : ℕ → α) (i : ℕ) (x : α) : ℕ → α
  | 0 => x
  | l + 1 =>
    if i / 2 ^ l % 2 = 0 then hash (rise z slot i x l) (padding hash z l)
    else hash (slot l) (rise z slot i x l)

/-- The remembered values after a new leaf. -/
def remember (z : α) (slot : ℕ → α) (i : ℕ) (x : α) (l : ℕ) : α :=
  if i / 2 ^ l % 2 = 0 then rise hash z slot i x l else slot l

/-- Below the depth, every left sibling that the next leaf needs is remembered. -/
def Frontier (z : α) (d : ℕ) (xs : List α) (slot : ℕ → α) : Prop :=
  ∀ l < d, xs.length / 2 ^ l % 2 = 1 →
    slot l = node hash (leaves z xs) l (xs.length / 2 ^ l - 1)

section Frontiers

variable {hash} {z : α} {d : ℕ} {xs : List α} {slot slot' : ℕ → α}

theorem frontier_nil (z : α) (d : ℕ) (slot : ℕ → α) : Frontier hash z d [] slot := by
  intro l _ hodd
  simp at hodd

theorem Frontier.congr (hf : Frontier hash z d xs slot)
    (h : ∀ l < d, xs.length / 2 ^ l % 2 = 1 → slot' l = slot l) : Frontier hash z d xs slot' :=
  fun l hl hodd => (h l hl hodd).trans (hf l hl hodd)

/-- Only the remembered values at odd indices matter to a new leaf. -/
theorem rise_congr {i l : ℕ} {x : α} (h : ∀ k < l, i / 2 ^ k % 2 = 1 → slot k = slot' k) :
    rise hash z slot i x l = rise hash z slot' i x l := by
  induction l with
  | zero => rfl
  | succ l ih =>
    rw [rise, rise, ih fun k hk => h k (by omega)]
    split_ifs with heven
    · rfl
    · rw [h l (by omega) (by omega)]

/-- The new leaf rises through the nodes of the new tree. -/
theorem Frontier.rise_eq (hf : Frontier hash z d xs slot) (x : α) {l : ℕ} (hl : l ≤ d) :
    rise hash z slot xs.length x l =
      node hash (leaves z (xs ++ [x])) l (xs.length / 2 ^ l) := by
  induction l with
  | zero => simp [rise, node, leaves]
  | succ l ih =>
    obtain ⟨i, hi⟩ : ∃ i, xs.length / 2 ^ l = i := ⟨_, rfl⟩
    have hlow : i * 2 ^ l ≤ xs.length := hi ▸ Nat.div_mul_le_self _ _
    have hhigh : xs.length < (i + 1) * 2 ^ l := by
      rw [add_mul, one_mul, ← hi]
      exact Nat.lt_div_mul_add (Nat.two_pow_pos l)
    have hslot := hf l (by omega)
    rw [rise, ih (by omega), pow_succ, ← Nat.div_div_eq_div_mul, hi, node_parent]
    rw [hi] at hslot
    split_ifs with heven
    · rw [node_of_length_le (i := i + 1)]
      rwa [List.length_append, List.length_singleton]
    · have hprev : (i - 1 + 1) * 2 ^ l ≤ xs.length := by
        rwa [show i - 1 + 1 = i by omega]
      rw [hslot (by omega), node_append hprev]

theorem div_two_pow_succ_eq (n l : ℕ) :
    (n + 1) / 2 ^ l = n / 2 ^ l ∨
      (n + 1) / 2 ^ l = n / 2 ^ l + 1 ∧ (n + 1) / 2 ^ l * 2 ^ l = n + 1 := by
  rw [Nat.succ_div]
  split_ifs with hdvd
  · refine .inr ⟨rfl, ?_⟩
    have := Nat.div_mul_cancel hdvd
    rwa [Nat.succ_div_of_dvd hdvd] at this
  · exact .inl rfl

/-- What is remembered after a new leaf is the frontier of the new tree. -/
theorem Frontier.append (hf : Frontier hash z d xs slot) (x : α) :
    Frontier hash z d (xs ++ [x]) (remember hash z slot xs.length x) := by
  intro l hl hodd
  have hold := hf l hl
  have hrise := hf.rise_eq x hl.le
  have hlow := Nat.div_mul_le_self xs.length (2 ^ l)
  rw [List.length_append, List.length_singleton] at hodd ⊢
  rw [remember]
  obtain hsame | ⟨hnext, hstart⟩ := div_two_pow_succ_eq xs.length l
  · rw [hsame] at hodd ⊢
    generalize xs.length / 2 ^ l = i at *
    rw [if_neg (by omega), hold hodd, node_append]
    rwa [Nat.sub_add_cancel (by omega)]
  · -- The new leaf is the last one below the left sibling.
    rw [hnext] at hodd ⊢
    generalize xs.length / 2 ^ l = i at *
    rw [if_pos (by omega), hrise, Nat.add_sub_cancel]

end Frontiers

end StellarFlow.Foundation.HashTree
