import StellarFlow.Foundation.HashTree

/-!
# Batches of leaves with consumed left siblings

A run of new leaves starts at some index. Either every left sibling stays remembered, or a batch
holds them as optional values and gives one up when a right sibling reads it, reading padding
where nothing is held. The two agree on the last root exactly if every left sibling that two
leaves of the batch read is padding, unless hashed pairs collide.
-/
namespace StellarFlow.Foundation.HashTree

variable {α : Type*} (hash : α → α → α) (z : α)

/-- The remembered values after a number of the new leaves. -/
def slotsAt (slot : ℕ → α) (s : ℕ) (x : ℕ → α) : ℕ → ℕ → α
  | 0 => slot
  | k + 1 => remember hash z (slotsAt slot s x k) (s + k) (x k)

/-- What a batch reads from the values that it holds. -/
def readHeld (held : ℕ → Option α) (l : ℕ) : α := (held l).getD (padding hash z l)

/-- A left child is held, and what a right child reads is given up. -/
def consume (held : ℕ → Option α) (i : ℕ) (x : α) (l : ℕ) : Option α :=
  if i / 2 ^ l % 2 = 0 then some (rise hash z (readHeld hash z held) i x l) else none

/-- The values that the batch holds after a number of the new leaves. -/
def heldAt (slot : ℕ → α) (s : ℕ) (x : ℕ → α) : ℕ → ℕ → Option α
  | 0 => fun l => some (slot l)
  | k + 1 => consume hash z (heldAt slot s x k) (s + k) (x k)

/-- The pairs that a new leaf hashes up to a level. -/
def risePairs (slot : ℕ → α) (i : ℕ) (x : α) (d : ℕ) : Set (α × α) :=
  {p | ∃ l < d, p = if i / 2 ^ l % 2 = 0 then (rise hash z slot i x l, padding hash z l)
    else (slot l, rise hash z slot i x l)}

/-- Agreement on the left siblings that the next leaf needs. -/
def AgreeAt (d : ℕ) (slot slot' : ℕ → α) (i : ℕ) : Prop :=
  ∀ l < d, i / 2 ^ l % 2 = 1 → slot l = slot' l

/-- Every left sibling that two consecutive leaves of the batch read is padding. -/
def ReadsPadding (d : ℕ) (slot : ℕ → α) (s : ℕ) (x : ℕ → α) (m : ℕ) : Prop :=
  ∀ k < m, 0 < k → ∀ l < d, (s + k) / 2 ^ l % 2 = 1 →
    (s + k) / 2 ^ l = (s + k - 1) / 2 ^ l → slotsAt hash z slot s x k l = padding hash z l

section Agreement

variable {hash} {z} {d i l : ℕ} {slot slot' : ℕ → α} {x : α}

theorem AgreeAt.refl : AgreeAt d slot slot i := fun _ _ _ => rfl

theorem AgreeAt.symm (h : AgreeAt d slot slot' i) : AgreeAt d slot' slot i :=
  fun l hl hodd => (h l hl hodd).symm

theorem AgreeAt.trans {slot'' : ℕ → α} (h : AgreeAt d slot slot' i)
    (h' : AgreeAt d slot' slot'' i) : AgreeAt d slot slot'' i :=
  fun l hl hodd => (h l hl hodd).trans (h' l hl hodd)

theorem AgreeAt.rise_eq (h : AgreeAt d slot slot' i) (x : α) (hl : l ≤ d) :
    rise hash z slot i x l = rise hash z slot' i x l :=
  rise_congr fun k hk hodd => h k (by omega) hodd

/-- The same leaf keeps the agreement. -/
theorem AgreeAt.remember (h : AgreeAt d slot slot' i) (x : α) :
    AgreeAt d (remember hash z slot i x) (remember hash z slot' i x) (i + 1) := by
  intro l hl _
  rw [HashTree.remember, HashTree.remember]
  split_ifs with heven
  · exact h.rise_eq x hl.le
  · exact h l hl (by omega)

theorem AgreeAt.slotsAt {s : ℕ} (h : AgreeAt d slot slot' s) (x : ℕ → α) (k : ℕ) :
    AgreeAt d (slotsAt hash z slot s x k) (slotsAt hash z slot' s x k) (s + k) := by
  induction k with
  | zero => exact h
  | succ k ih => exact ih.remember (x k)

theorem slotsAt_succ (hash : α → α → α) (z : α) (slot : ℕ → α) (s : ℕ) (x : ℕ → α) (k : ℕ) :
    slotsAt hash z (remember hash z slot s (x 0)) (s + 1) (fun k => x (k + 1)) k =
      slotsAt hash z slot s x (k + 1) := by
  induction k with
  | zero => rfl
  | succ k ih =>
    rw [slotsAt, ih, show s + 1 + k = s + (k + 1) by omega]
    rfl

end Agreement

/-- Held values matter below the depth only. -/
theorem consume_congr {hash : α → α → α} {z : α} {d i l : ℕ} {held held' : ℕ → Option α}
    (h : ∀ l < d, held l = held' l) (x : α) (hl : l < d) :
    consume hash z held i x l = consume hash z held' i x l := by
  have hrise : rise hash z (readHeld hash z held) i x l =
      rise hash z (readHeld hash z held') i x l :=
    rise_congr fun k hk _ => by rw [readHeld, readHeld, h k (hk.trans hl)]
  rw [consume, consume, hrise]

/-! ## Safe batches -/

section Safe

variable {hash} {z} {d m s : ℕ} {slot : ℕ → α} {x : ℕ → α}

/-- A batch without a wrong read reads what is remembered. -/
theorem readHeld_eq_slotsAt (h : ReadsPadding hash z d slot s x m) {k : ℕ} (hk : k < m) :
    AgreeAt d (readHeld hash z (heldAt hash z slot s x k)) (slotsAt hash z slot s x k) (s + k) := by
  induction k with
  | zero => exact fun _ _ _ => rfl
  | succ k ih =>
    intro l hl hodd
    have hprev := ih (by omega)
    have hpad := h (k + 1) hk (Nat.succ_pos k) l hl hodd
    rw [show s + (k + 1) - 1 = s + k by omega] at hpad
    rw [readHeld, heldAt, consume]
    obtain hsame | ⟨hnext, -⟩ := div_two_pow_succ_eq (s + k) l
    · rw [← Nat.add_assoc, hsame] at hodd hpad
      rw [if_neg (by omega), Option.getD_none, hpad rfl]
    · rw [← Nat.add_assoc, hnext] at hodd
      have heven : (s + k) / 2 ^ l % 2 = 0 := by
        generalize (s + k) / 2 ^ l = i at hodd
        omega
      rw [if_pos heven, Option.getD_some, slotsAt, remember, if_pos heven]
      exact hprev.rise_eq (x k) hl.le

/-- What it holds at the end is remembered too. -/
theorem heldAt_eq_slotsAt (h : ReadsPadding hash z d slot s x (m + 1)) {l : ℕ} (hl : l < d)
    (heven : (s + m) / 2 ^ l % 2 = 0) :
    heldAt hash z slot s x (m + 1) l = some (slotsAt hash z slot s x (m + 1) l) := by
  rw [heldAt, consume, if_pos heven, slotsAt, remember, if_pos heven,
    (readHeld_eq_slotsAt h (Nat.lt_succ_self m)).rise_eq (x m) hl.le]

end Safe

/-! ## Wrong reads without collisions -/

/-- The pairs that a batch hashes with either way to remember, and pairs of padding. -/
def batchPairs (d : ℕ) (slot : ℕ → α) (s : ℕ) (x : ℕ → α) (m : ℕ) : Set (α × α) :=
  {p | (∃ k < m, p ∈ risePairs hash z (slotsAt hash z slot s x k) (s + k) (x k) d ∨
      p ∈ risePairs hash z (readHeld hash z (heldAt hash z slot s x k)) (s + k) (x k) d) ∨
    ∃ l < d, p = (padding hash z l, padding hash z l)}

/-- A right child of a batch reads something else than what is remembered. -/
def WrongRead (d : ℕ) (slot : ℕ → α) (s : ℕ) (x : ℕ → α) (k : ℕ) : Prop :=
  ∃ l < d, (s + k) / 2 ^ l % 2 = 1 ∧
    readHeld hash z (heldAt hash z slot s x k) l ≠ slotsAt hash z slot s x k l

section Collisions

variable {hash} {z} {d m s i l : ℕ} {slot slot' : ℕ → α} {x : ℕ → α} {S : Set (α × α)}

/-- Without collisions a value determines the leaf and the left siblings that it is hashed
from. -/
theorem rise_eq_iff (hinj : Set.InjOn (Function.uncurry hash) S) {y y' : α}
    (h : risePairs hash z slot i y d ⊆ S) (h' : risePairs hash z slot' i y' d ⊆ S) (hl : l ≤ d) :
    rise hash z slot i y l = rise hash z slot' i y' l ↔ y = y' ∧ AgreeAt l slot slot' i := by
  constructor
  · intro heq
    induction l with
    | zero => exact ⟨heq, fun k hk => absurd hk (Nat.not_lt_zero k)⟩
    | succ l ih =>
      have hpair := h ⟨l, hl, rfl⟩
      have hpair' := h' ⟨l, hl, rfl⟩
      rw [rise, rise] at heq
      by_cases heven : i / 2 ^ l % 2 = 0
      · rw [if_pos heven] at heq hpair hpair'
        rw [if_pos heven] at heq
        obtain ⟨hy, hagree⟩ := ih (by omega) (Prod.ext_iff.mp (hinj hpair hpair' heq)).1
        refine ⟨hy, fun k hk hodd => hagree k (lt_of_le_of_ne (Nat.le_of_lt_succ hk) ?_) hodd⟩
        rintro rfl
        omega
      · rw [if_neg heven] at heq hpair hpair'
        rw [if_neg heven] at heq
        obtain ⟨hslot, hrise⟩ := Prod.ext_iff.mp (hinj hpair hpair' heq)
        obtain ⟨hy, hagree⟩ := ih (by omega) hrise
        refine ⟨hy, fun k hk hodd => ?_⟩
        obtain hk | rfl := Nat.lt_succ_iff_lt_or_eq.mp hk
        · exact hagree k hk hodd
        · exact hslot
  · rintro ⟨rfl, hagree⟩
    exact hagree.rise_eq y le_rfl

theorem rise_padding (i l : ℕ) : rise hash z (padding hash z) i z l = padding hash z l := by
  induction l with
  | zero => rfl
  | succ l ih =>
    rw [rise, ih, ite_self]
    rfl

theorem risePairs_padding (h : ∀ l < d, (padding hash z l, padding hash z l) ∈ S) (i : ℕ) :
    risePairs hash z (padding hash z) i z d ⊆ S := by
  rintro _ ⟨l, hl, rfl⟩
  rw [rise_padding, ite_self]
  exact h l hl

/-- Above a right child that the next leaf leaves, the next leaf becomes a right child. -/
theorem exists_next_right (hl : l < d) (hodd : i / 2 ^ l % 2 = 1)
    (hnext : (i + 1) / 2 ^ l = i / 2 ^ l + 1) (hlt : i + 1 < 2 ^ d) :
    ∃ j, l < j ∧ j < d ∧ i / 2 ^ j % 2 = 0 ∧ (i + 1) / 2 ^ j % 2 = 1 := by
  induction hn : d - l generalizing l with
  | zero => exact absurd hn (Nat.sub_pos_of_lt hl).ne'
  | succ n ih =>
    have hup : ∀ i, i / 2 ^ (l + 1) = i / 2 ^ l / 2 := fun i => by
      rw [pow_succ, Nat.div_div_eq_div_mul]
    have hnext' : (i + 1) / 2 ^ (l + 1) = i / 2 ^ (l + 1) + 1 := by
      rw [hup, hup, hnext]
      generalize i / 2 ^ l = q at hodd
      omega
    have hl' : l + 1 < d := by
      by_contra hge
      rw [show l + 1 = d by omega, Nat.div_eq_of_lt hlt] at hnext'
      exact (Nat.succ_ne_zero _).symm hnext'
    by_cases heven : i / 2 ^ (l + 1) % 2 = 0
    · refine ⟨l + 1, Nat.lt_succ_self l, hl', heven, ?_⟩
      rw [hnext']
      generalize i / 2 ^ (l + 1) = q at heven
      omega
    · obtain ⟨j, hj, hrest⟩ := ih hl' (Nat.mod_two_ne_zero.mp heven) hnext' (by omega)
      exact ⟨j, by omega, hrest⟩

section Batches

variable (hinj : Set.InjOn (Function.uncurry hash) S) (hS : batchPairs hash z d slot s x m ⊆ S)
include hinj hS

/-- Where padding is remembered, nothing but padding is held. -/
theorem heldAt_eq_padding {k : ℕ} (hk : k ≤ m) {v : α} (hl : l < d)
    (hheld : heldAt hash z slot s x k l = some v)
    (hslot : slotsAt hash z slot s x k l = padding hash z l) : v = padding hash z l := by
  induction k generalizing v l with
  | zero => exact (Option.some.inj hheld).symm.trans hslot
  | succ k ih =>
    rw [heldAt, consume] at hheld
    rw [slotsAt, remember] at hslot
    split_ifs at hheld hslot with heven
    obtain rfl := Option.some.inj hheld
    have hpadding : ∀ l < d, (padding hash z l, padding hash z l) ∈ S :=
      fun l hl => hS (.inr ⟨l, hl, rfl⟩)
    rw [← rise_padding (s + k) l, rise_eq_iff hinj (fun p hp => hS (.inl ⟨k, hk, .inl hp⟩))
      (risePairs_padding hpadding _) hl.le] at hslot
    obtain ⟨hleaf, hagree⟩ := hslot
    have hread : AgreeAt l (readHeld hash z (heldAt hash z slot s x k)) (padding hash z)
        (s + k) := by
      intro j hj hodd
      rw [readHeld]
      cases hheldj : heldAt hash z slot s x k j with
      | none => rfl
      | some w => exact ih (by omega) (by omega) hheldj (hagree j hj hodd)
    rw [hread.rise_eq (x k) le_rfl, hleaf, rise_padding]

/-- What is read wrong is not padding. -/
theorem slotsAt_ne_padding {k : ℕ} (hk : k ≤ m) (hl : l < d)
    (hwrong : readHeld hash z (heldAt hash z slot s x k) l ≠ slotsAt hash z slot s x k l) :
    slotsAt hash z slot s x k l ≠ padding hash z l := by
  intro hslot
  rw [hslot, readHeld] at hwrong
  cases hheld : heldAt hash z slot s x k l with
  | none => exact hwrong (by rw [hheld, Option.getD_none])
  | some v =>
    rw [hheld, Option.getD_some] at hwrong
    exact hwrong (heldAt_eq_padding hinj hS hk hl hheld hslot)

/-- After a wrong read the next leaf reads wrong again: the same sibling, which is no longer
held, or one that was computed from it. -/
theorem WrongRead.succ {k : ℕ} (h : WrongRead hash z d slot s x k) (hk : k < m)
    (hlt : s + k + 1 < 2 ^ d) : WrongRead hash z d slot s x (k + 1) := by
  obtain ⟨l, hl, hodd, hwrong⟩ := h
  obtain hsame | ⟨hnext, -⟩ := div_two_pow_succ_eq (s + k) l
  · refine ⟨l, hl, by rwa [← Nat.add_assoc, hsame], fun heq => ?_⟩
    rw [readHeld, heldAt, consume, if_neg (by omega), Option.getD_none, slotsAt, remember,
      if_neg (by omega)] at heq
    exact slotsAt_ne_padding hinj hS hk.le hl hwrong heq.symm
  · obtain ⟨j, hlj, hj, heven, hodd'⟩ := exists_next_right hl hodd hnext hlt
    refine ⟨j, hj, hodd', fun heq => hwrong ?_⟩
    rw [readHeld, heldAt, consume, if_pos heven, Option.getD_some, slotsAt, remember,
      if_pos heven, rise_eq_iff hinj (fun p hp => hS (.inl ⟨k, hk, .inr hp⟩))
        (fun p hp => hS (.inl ⟨k, hk, .inl hp⟩)) hj.le] at heq
    exact heq.2 l hlj hodd

theorem WrongRead.last {k n : ℕ} (h : WrongRead hash z d slot s x k) (hn : k + n < m)
    (hlt : s + m ≤ 2 ^ d) : WrongRead hash z d slot s x (k + n) := by
  induction n with
  | zero => exact h
  | succ n ih => exact (ih (by omega)).succ hinj hS (by omega) (by omega)

/-- Without collisions the last root of a batch is right exactly if the siblings that two of its
leaves read are padding. -/
theorem heldRoot_eq_iff (hm : m = l + 1) (hlt : s + m ≤ 2 ^ d) :
    rise hash z (readHeld hash z (heldAt hash z slot s x l)) (s + l) (x l) d =
        rise hash z (slotsAt hash z slot s x l) (s + l) (x l) d ↔
      ReadsPadding hash z d slot s x m := by
  constructor
  · intro hroot k hk hpos j hj hodd hsame
    rw [rise_eq_iff hinj (fun p hp => hS (.inl ⟨l, by omega, .inr hp⟩))
      (fun p hp => hS (.inl ⟨l, by omega, .inl hp⟩)) le_rfl] at hroot
    by_contra hne
    have hwrong : WrongRead hash z d slot s x k := by
      obtain ⟨k, rfl⟩ := Nat.exists_eq_succ_of_ne_zero hpos.ne'
      refine ⟨j, hj, hodd, fun heq => hne ?_⟩
      have hright : (s + k) / 2 ^ j % 2 = 1 := by
        rwa [hsame, show s + k.succ - 1 = s + k by omega] at hodd
      rw [← heq, readHeld, heldAt, consume, if_neg (by rw [hright]; exact one_ne_zero),
        Option.getD_none]
    have hlast := hwrong.last hinj hS (n := l - k) (by omega) hlt
    rw [show k + (l - k) = l by omega] at hlast
    obtain ⟨j, hj, hodd, hread⟩ := hlast
    exact hread (hroot.2 j hj hodd)
  · intro h
    exact (readHeld_eq_slotsAt h (by omega)).rise_eq (x l) le_rfl

end Batches

end Collisions

end StellarFlow.Foundation.HashTree
