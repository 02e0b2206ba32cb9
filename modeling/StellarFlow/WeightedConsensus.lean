import StellarFlow.Host

/-!
# Stake-weighted consensus

Entries with the same value are merged into one row before the values are multiplied by their
weights and added up. Every product and sum is a checked one on 64 bits. Merging moves the
additions, but a sum of weights or of products overflows in some order exactly when it does in
every order.
-/
namespace StellarFlow.WeightedConsensus

open Foundation

/-- A submitted value and its weight, both of 64 bits. -/
structure WeightedEntry where
  value : ℕ
  weight : ℕ
  deriving DecidableEq, Repr

def applyWeight (value weight : ℕ) : Except Fault ℕ :=
  okOr (checkBits 64 (value * weight)) (.error .mathOverflow)

/-- Merge an entry into the first row of its value, or append it. -/
def mergeRow (entry : WeightedEntry) : List WeightedEntry → Except Fault (List WeightedEntry)
  | [] => pure [entry]
  | existing :: rest =>
    if existing.value = entry.value then do
      let mergedWeight ← okOr (checkBits 64 (existing.weight + entry.weight)) (.error .mathOverflow)
      pure (⟨existing.value, mergedWeight⟩ :: rest)
    else do
      let rest ← mergeRow entry rest
      pure (existing :: rest)

def compactDuplicatePriceRows (entries : List WeightedEntry) :
    Except Fault (List WeightedEntry) :=
  entries.foldlM (fun compacted entry => mergeRow entry compacted) []

/-- Add a row to the weighted sum and the total weight. -/
def addRow (sums : ℕ × ℕ) (entry : WeightedEntry) : Except Fault (ℕ × ℕ) := do
  let weightedValue ← applyWeight entry.value entry.weight
  let weightedSum ← okOr (checkBits 64 (sums.1 + weightedValue)) (.error .mathOverflow)
  let totalWeight ← okOr (checkBits 64 (sums.2 + entry.weight)) (.error .mathOverflow)
  pure (weightedSum, totalWeight)

def computeWeightedSum (entries : List WeightedEntry) : Except Fault (ℕ × ℕ) := do
  let compacted ← compactDuplicatePriceRows entries
  compacted.foldlM addRow (0, 0)

/-- The average is zero when there is no weight. -/
def computeWeightedAverage (entries : List WeightedEntry) : Except Fault ℕ := do
  let (weightedSum, totalWeight) ← computeWeightedSum entries
  if totalWeight = 0 then pure 0 else pure (weightedSum / totalWeight)

section Exact

/-- Sum of the products, without a limit. -/
def weightedSum (entries : List WeightedEntry) : ℕ :=
  (entries.map fun e => e.value * e.weight).sum

/-- Sum of the weights, without a limit. -/
def totalWeight (entries : List WeightedEntry) : ℕ := (entries.map WeightedEntry.weight).sum

variable {entries rows : List WeightedEntry} {entry : WeightedEntry}

@[simp] theorem weightedSum_nil : weightedSum [] = 0 := rfl

@[simp] theorem weightedSum_cons :
    weightedSum (entry :: entries) = entry.value * entry.weight + weightedSum entries :=
  List.sum_cons

@[simp] theorem totalWeight_nil : totalWeight [] = 0 := rfl

@[simp] theorem totalWeight_cons :
    totalWeight (entry :: entries) = entry.weight + totalWeight entries :=
  List.sum_cons

theorem weightedSum_append (entries rows : List WeightedEntry) :
    weightedSum (entries ++ rows) = weightedSum entries + weightedSum rows := by
  simp [weightedSum]

theorem totalWeight_append (entries rows : List WeightedEntry) :
    totalWeight (entries ++ rows) = totalWeight entries + totalWeight rows := by
  simp [totalWeight]

/-- Both sums of one list are those of the other. -/
structure SameSums (entries rows : List WeightedEntry) : Prop where
  value : weightedSum entries = weightedSum rows
  weight : totalWeight entries = totalWeight rows

theorem SameSums.of_perm (h : entries.Perm rows) : SameSums entries rows :=
  ⟨(h.map _).sum_eq, (h.map _).sum_eq⟩

/-- Two adjacent rows of one value against the merged one. -/
theorem sameSums_merge (before after : List WeightedEntry) (v w w' : ℕ) :
    SameSums (before ++ ⟨v, w⟩ :: ⟨v, w'⟩ :: after) (before ++ ⟨v, w + w'⟩ :: after) := by
  induction before with
  | nil => constructor <;> simp <;> ring
  | cons e before ih =>
    obtain ⟨hvalue, hweight⟩ := ih
    constructor
    · simpa using hvalue
    · simpa using hweight

end Exact

/-! ## Checked sums -/

section Checked

variable {entries rows : List WeightedEntry} {entry : WeightedEntry}

/-- What a merge or a compaction ends with: the sums of what went in, or an overflow of the
weights. -/
def Compacts (entries : List WeightedEntry) (r : Except Fault (List WeightedEntry)) : Prop :=
  (∃ rows, r = .ok rows ∧ SameSums rows entries) ∨
    (r = .error (.error .mathOverflow) ∧ 2 ^ 64 ≤ totalWeight entries)

theorem mergeRow_compacts (entry : WeightedEntry) (rows : List WeightedEntry) :
    Compacts (entry :: rows) (mergeRow entry rows) := by
  induction rows with
  | nil => exact .inl ⟨[entry], rfl, rfl, rfl⟩
  | cons existing rest ih =>
    rw [mergeRow]
    split_ifs with heq
    · by_cases hfits : existing.weight + entry.weight < 2 ^ 64
      · rw [okOr_eq_ok.mpr (checkBits_eq_some.mpr ⟨hfits, rfl⟩), ok_bind]
        refine .inl ⟨_, rfl, ?_, ?_⟩
        · rw [weightedSum_cons, weightedSum_cons, weightedSum_cons, ← heq]
          ring
        · simp only [totalWeight_cons]
          ring
      · rw [checkBits, if_neg hfits]
        refine .inr ⟨rfl, ?_⟩
        simp only [totalWeight_cons]
        omega
    · rcases ih with ⟨rows, hrows, hvalue, hweight⟩ | ⟨herror, hweight⟩
      · rw [hrows, ok_bind]
        refine .inl ⟨_, rfl, ?_, ?_⟩
        · simp only [weightedSum_cons] at hvalue ⊢
          omega
        · simp only [totalWeight_cons] at hweight ⊢
          omega
      · rw [herror]
        refine .inr ⟨rfl, ?_⟩
        simp only [totalWeight_cons] at hweight ⊢
        omega

theorem Compacts.congr {r : Except Fault (List WeightedEntry)} (h : Compacts rows r)
    (hsums : SameSums rows entries) : Compacts entries r := by
  rcases h with ⟨merged, hmerged, hvalue, hweight⟩ | ⟨herror, hweight⟩
  · exact .inl ⟨merged, hmerged, hvalue.trans hsums.value, hweight.trans hsums.weight⟩
  · exact .inr ⟨herror, hsums.weight ▸ hweight⟩

theorem foldlM_mergeRow_compacts (entries rows : List WeightedEntry) :
    Compacts (entries ++ rows)
      (entries.foldlM (fun compacted entry => mergeRow entry compacted) rows) := by
  induction entries generalizing rows with
  | nil => exact .inl ⟨rows, rfl, rfl, rfl⟩
  | cons entry entries ih =>
    rw [List.foldlM_cons]
    rcases mergeRow_compacts entry rows with ⟨merged, hmerged, hvalue, hweight⟩ | ⟨herror, hweight⟩
    · rw [hmerged, ok_bind]
      refine (ih merged).congr ⟨?_, ?_⟩
      · rw [List.cons_append, weightedSum_cons, weightedSum_append, weightedSum_append, hvalue,
          weightedSum_cons]
        ring
      · rw [List.cons_append, totalWeight_cons, totalWeight_append, totalWeight_append, hweight,
          totalWeight_cons]
        ring
    · rw [herror]
      refine .inr ⟨rfl, ?_⟩
      rw [List.cons_append, totalWeight_cons, totalWeight_append]
      rw [totalWeight_cons] at hweight
      omega

theorem compactDuplicatePriceRows_compacts (entries : List WeightedEntry) :
    Compacts entries (compactDuplicatePriceRows entries) := by
  have h := foldlM_mergeRow_compacts entries []
  rwa [List.append_nil] at h

theorem okOr_checkBits_of_le {x : ℕ} (h : 2 ^ 64 ≤ x) (e : Fault) :
    okOr (checkBits 64 x) e = .error e := by
  rw [checkBits, if_neg (not_lt.mpr h)]
  rfl

/-- A row is added exactly when both sums fit afterwards. -/
theorem addRow_eq (a b : ℕ) (entry : WeightedEntry) :
    addRow (a, b) entry =
      if a + entry.value * entry.weight < 2 ^ 64 ∧ b + entry.weight < 2 ^ 64 then
        .ok (a + entry.value * entry.weight, b + entry.weight)
      else .error (.error .mathOverflow) := by
  rw [addRow, applyWeight]
  by_cases hproduct : entry.value * entry.weight < 2 ^ 64
  · rw [okOr_checkBits hproduct, ok_bind]
    by_cases hsum : a + entry.value * entry.weight < 2 ^ 64
    · rw [okOr_checkBits hsum, ok_bind]
      by_cases hweight : b + entry.weight < 2 ^ 64
      · rw [okOr_checkBits hweight, if_pos ⟨hsum, hweight⟩]
        rfl
      · rw [okOr_checkBits_of_le (not_lt.mp hweight), if_neg (fun h => hweight h.2)]
        rfl
    · rw [okOr_checkBits_of_le (not_lt.mp hsum), if_neg (fun h => hsum h.1)]
      rfl
  · rw [okOr_checkBits_of_le (not_lt.mp hproduct), if_neg (fun h => by omega)]
    rfl

theorem foldlM_addRow_eq (rows : List WeightedEntry) {a b : ℕ} (ha : a < 2 ^ 64)
    (hb : b < 2 ^ 64) :
    rows.foldlM addRow (a, b) =
      if a + weightedSum rows < 2 ^ 64 ∧ b + totalWeight rows < 2 ^ 64 then
        .ok (a + weightedSum rows, b + totalWeight rows)
      else .error (.error .mathOverflow) := by
  induction rows generalizing a b with
  | nil =>
    rw [weightedSum_nil, totalWeight_nil, Nat.add_zero, Nat.add_zero, if_pos ⟨ha, hb⟩]
    rfl
  | cons entry rows ih =>
    rw [List.foldlM_cons, addRow_eq, weightedSum_cons, totalWeight_cons, ← Nat.add_assoc,
      ← Nat.add_assoc]
    by_cases hrow : a + entry.value * entry.weight < 2 ^ 64 ∧ b + entry.weight < 2 ^ 64
    · rw [if_pos hrow, ok_bind, ih hrow.1 hrow.2]
    · rw [if_neg hrow, if_neg (fun h => hrow (by omega))]
      rfl

/-- The sums are returned exactly when they fit, however the rows are merged on the way. -/
theorem computeWeightedSum_eq (entries : List WeightedEntry) :
    computeWeightedSum entries =
      if weightedSum entries < 2 ^ 64 ∧ totalWeight entries < 2 ^ 64 then
        .ok (weightedSum entries, totalWeight entries)
      else .error (.error .mathOverflow) := by
  rw [computeWeightedSum]
  rcases compactDuplicatePriceRows_compacts entries with
    ⟨rows, hrows, hvalue, hweight⟩ | ⟨herror, hweight⟩
  · rw [hrows, ok_bind, foldlM_addRow_eq rows (by decide) (by decide), Nat.zero_add, Nat.zero_add,
      hvalue, hweight]
  · rw [herror, if_neg (fun h => by omega)]
    rfl

theorem computeWeightedSum_congr (h : SameSums entries rows) :
    computeWeightedSum entries = computeWeightedSum rows := by
  rw [computeWeightedSum_eq, computeWeightedSum_eq, h.value, h.weight]

end Checked

/-! ## The average -/

section Average

variable {entries : List WeightedEntry} {bound : ℕ}

/-- Rows without weight count for nothing. -/
theorem mul_le_mul_of_weight {x y w : ℕ} (h : 0 < w → x ≤ y) : x * w ≤ y * w := by
  rcases Nat.eq_zero_or_pos w with rfl | hpos
  · exact le_rfl
  · exact Nat.mul_le_mul_right w (h hpos)

theorem mul_totalWeight (bound : ℕ) (entries : List WeightedEntry) :
    bound * totalWeight entries = (entries.map fun e => bound * e.weight).sum :=
  (List.sum_map_mul_left entries WeightedEntry.weight bound).symm

theorem mul_totalWeight_le (h : ∀ e ∈ entries, 0 < e.weight → bound ≤ e.value) :
    bound * totalWeight entries ≤ weightedSum entries := by
  rw [mul_totalWeight]
  exact List.sum_le_sum fun e he => mul_le_mul_of_weight (h e he)

theorem weightedSum_le_mul (h : ∀ e ∈ entries, 0 < e.weight → e.value ≤ bound) :
    weightedSum entries ≤ bound * totalWeight entries := by
  rw [mul_totalWeight]
  exact List.sum_le_sum fun e he => mul_le_mul_of_weight (h e he)

theorem totalWeight_pos (h : ∃ e ∈ entries, 0 < e.weight) : 0 < totalWeight entries := by
  obtain ⟨e, he, hpos⟩ := h
  exact hpos.trans_le (List.single_le_sum (fun _ _ => Nat.zero_le _) _ (List.mem_map_of_mem he))

theorem computeWeightedAverage_eq_ok {average : ℕ}
    (h : computeWeightedAverage entries = .ok average) (hpos : 0 < totalWeight entries) :
    average = weightedSum entries / totalWeight entries := by
  rw [computeWeightedAverage, computeWeightedSum_eq] at h
  split_ifs at h
  · simp only [ok_bind, if_neg hpos.ne'] at h
    exact (pure_eq_ok.mp h).symm
  · cases h

theorem average_between {average lo hi : ℕ} (h : computeWeightedAverage entries = .ok average)
    (hweight : ∃ e ∈ entries, 0 < e.weight)
    (hvalues : ∀ e ∈ entries, 0 < e.weight → lo ≤ e.value ∧ e.value ≤ hi) :
    lo ≤ average ∧ average ≤ hi := by
  have hpos : 0 < totalWeight entries := totalWeight_pos hweight
  rw [computeWeightedAverage_eq_ok h hpos]
  constructor
  · rw [Nat.le_div_iff_mul_le hpos]
    exact mul_totalWeight_le fun e he hw => (hvalues e he hw).1
  · exact Nat.div_le_of_le_mul
      ((weightedSum_le_mul fun e he hw => (hvalues e he hw).2).trans_eq (Nat.mul_comm _ _))

end Average

/-- The weighted sum is the exact one, or an overflow exactly when it does not fit. The order of
the entries and the division of a row make no difference, and the average lies between the values
that have weight. -/
theorem weighted_sum_exact :
    (∀ entries, computeWeightedSum entries =
      if weightedSum entries < 2 ^ 64 ∧ totalWeight entries < 2 ^ 64 then
        .ok (weightedSum entries, totalWeight entries)
      else .error (.error .mathOverflow)) ∧
    (∀ entries rows, entries.Perm rows →
      computeWeightedSum entries = computeWeightedSum rows ∧
        computeWeightedAverage entries = computeWeightedAverage rows) ∧
    (∀ before after v w w',
      computeWeightedSum (before ++ ⟨v, w⟩ :: ⟨v, w'⟩ :: after) =
          computeWeightedSum (before ++ ⟨v, w + w'⟩ :: after) ∧
        computeWeightedAverage (before ++ ⟨v, w⟩ :: ⟨v, w'⟩ :: after) =
          computeWeightedAverage (before ++ ⟨v, w + w'⟩ :: after)) ∧
    (∀ entries average lo hi, computeWeightedAverage entries = .ok average →
      (∃ e ∈ entries, 0 < e.weight) →
      (∀ e ∈ entries, 0 < e.weight → lo ≤ e.value ∧ e.value ≤ hi) →
      lo ≤ average ∧ average ≤ hi) := by
  refine ⟨computeWeightedSum_eq, fun entries rows hperm => ?_, fun before after v w w' => ?_,
    fun entries average lo hi h hweight hvalues => average_between h hweight hvalues⟩
  · have hsum := computeWeightedSum_congr (SameSums.of_perm hperm)
    exact ⟨hsum, by rw [computeWeightedAverage, computeWeightedAverage, hsum]⟩
  · have hsum := computeWeightedSum_congr (sameSums_merge before after v w w')
    exact ⟨hsum, by rw [computeWeightedAverage, computeWeightedAverage, hsum]⟩

/-- Two rows of one price and a third in another order, with the average between both prices. -/
theorem weighted_sum_exact_sample :
    computeWeightedSum [⟨100, 10⟩, ⟨100, 5⟩, ⟨200, 5⟩] =
        computeWeightedSum [⟨200, 5⟩, ⟨100, 10⟩, ⟨100, 5⟩] ∧
      100 ≤ 125 ∧ 125 ≤ 200 := by
  obtain ⟨_, hperm, _, hbetween⟩ := weighted_sum_exact
  refine ⟨(hperm _ _ (by decide)).1,
    hbetween [⟨100, 10⟩, ⟨100, 5⟩, ⟨200, 5⟩] 125 100 200 rfl ⟨⟨100, 10⟩, by decide⟩ (by decide)⟩

end StellarFlow.WeightedConsensus
