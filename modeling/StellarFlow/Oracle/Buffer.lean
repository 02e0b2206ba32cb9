import StellarFlow.Foundation.Median
import StellarFlow.Oracle.Store

/-!
# The buffer of a ledger

The prices submitted for an asset in a ledger are kept under the asset and the ledger. Before the
median is taken the buffer is cut to the entries of the providers with the largest weights, and
equal prices are counted. Both keep it within the fixed memory of the sort.
-/
namespace StellarFlow.Oracle

open Foundation

/-- Entries in the fixed memory of the sort. -/
def maxValidators : ℕ := 15

inductive MedianError
  | emptyInput
  | arithmeticOverflow
  | inputTooLarge
  deriving DecidableEq, Repr

section Model

variable {here : Address} (env : OracleEnv here)

def getPriceBuffer (asset : Symbol) (s : OracleStore) : PriceBuffer :=
  (s.buffers.lookup (asset, env.sequence)).getD ⟨[], env.sequence, 0, 0⟩

def setPriceBuffer (asset : Symbol) (buffer : PriceBuffer) (s : OracleStore) : OracleStore :=
  { s with buffers := s.buffers.insert (asset, buffer.ledgerSequence) buffer }

def clearStaleBuffer (buffer : PriceBuffer) : PriceBuffer :=
  if buffer.ledgerSequence ≠ env.sequence then
    { buffer with entries := [], ledgerSequence := env.sequence }
  else buffer

def hasProviderSubmitted (buffer : PriceBuffer) (provider : Address) : Bool :=
  buffer.entries.any fun entry => entry.provider = provider

def validateConsensusQuorum (buffer : PriceBuffer) : Except OracleFault Unit :=
  let uniqueSources := (buffer.entries.map PriceBufferEntry.provider).dedup
  failIf (uniqueSources.length < minQuorum) (.error .minimumQuorumNotMet)

/-- Keep the entries of the providers with the largest weights, in the order of the weights. -/
def truncateBufferByWeight (settings : OracleSettings) (buffer : PriceBuffer) : PriceBuffer :=
  if buffer.entries.length ≤ maxMedianEntries then buffer
  else
    let weight (entry : PriceBufferEntry) :=
      (settings.providerWeights.lookup entry.provider).getD 0
    let weighted := buffer.entries.map fun entry => (entry, weight entry)
    let sorted := shiftSort (fun key entry => decide (entry.2 < key.2)) weighted
    { buffer with entries := (sorted.take maxMedianEntries).map Prod.fst }

def calculateMedianCompacted (pairs : List (ℤ × ℕ)) : Except MedianError ℤ := do
  failIf (pairs.length = 0) .emptyInput
  failIf (maxValidators < pairs.length) .inputTooLarge
  let total ← okOr (checkBits 64 (Counted.total pairs)) .arithmeticOverflow
  failIf (total = 0) .emptyInput
  let sorted := Counted.sortPairs pairs
  if total % 2 = 1 then pure (Counted.valueAt (total / 2) 0 0 sorted)
  else
    let lo := Counted.valueAt (total / 2 - 1) 0 0 sorted
    let hi := Counted.valueAt (total / 2) 0 0 sorted
    let sum ← okOr (i128.check (lo + hi)) .arithmeticOverflow
    okOr (i128.checkedDiv sum 2) .arithmeticOverflow

/-- The median of a list of prices, which are sorted in place. -/
def calculateMedian (prices : List ℤ) : Except MedianError ℤ := do
  failIf (prices.length = 0) .emptyInput
  failIf (maxValidators < prices.length) .inputTooLarge
  let buf := shiftSort (fun key price => decide (key < price)) prices
  let mid := prices.length / 2
  if prices.length % 2 = 1 then pure (buf.getD mid 0)
  else
    let sum ← okOr (i128.check (buf.getD (mid - 1) 0 + buf.getD mid 0)) .arithmeticOverflow
    okOr (i128.checkedDiv sum 2) .arithmeticOverflow

def calculateMedianFromBuffer (buffer : PriceBuffer) : Option ℤ :=
  if buffer.entries.length = 0 then none
  else
    (calculateMedianCompacted
      (Counted.compact (buffer.entries.map PriceBufferEntry.price))).toOption

end Model

section Median

variable {buffer : PriceBuffer} {settings : OracleSettings} {prices : List ℤ}

theorem valueAt_sortPairs_compact (prices : List ℤ) {target : ℕ} (h : target < prices.length) :
    Counted.valueAt target 0 0 (Counted.sortPairs (Counted.compact prices)) =
      (prices.insertionSort (· ≤ ·)).getD target 0 := by
  rw [Counted.valueAt_zero 0 0, Counted.expand_sortPairs_compact]
  rwa [← Counted.expand_length, Counted.expand_sortPairs_compact, List.length_insertionSort]

theorem total_compact (prices : List ℤ) : Counted.total (Counted.compact prices) =
    prices.length := by
  rw [← Counted.expand_length, (Counted.expand_compact prices).length_eq]

theorem compact_ne_nil (h : prices ≠ []) : (Counted.compact prices).length ≠ 0 := by
  intro hzero
  rw [List.length_eq_zero_iff] at hzero
  have htotal := total_compact prices
  rw [hzero] at htotal
  exact h (List.length_eq_zero_iff.mp htotal.symm)

/-- Sum of the two prices in the middle of the sorted list. -/
def middleSum (prices : List ℤ) : ℤ :=
  (prices.insertionSort (· ≤ ·)).getD (prices.length / 2 - 1) 0 +
    (prices.insertionSort (· ≤ ·)).getD (prices.length / 2) 0

/-- The median, unless it is the mean of two prices whose sum overflows. -/
theorem calculateMedian_eq (hne : prices ≠ []) (hlength : prices.length ≤ maxValidators) :
    calculateMedian prices =
      if prices.length % 2 = 1 ∨ i128.Fits (middleSum prices) then .ok (median prices)
      else .error .arithmeticOverflow := by
  have hpos : prices.length ≠ 0 := by rwa [Ne, List.length_eq_zero_iff]
  rw [calculateMedian, failIf_of_not hpos, ok_bind, failIf_of_not (not_lt.mpr hlength), ok_bind,
    shiftSort_eq_insertionSort, median, middle, List.length_insertionSort]
  dsimp only
  rw [← middleSum]
  by_cases hodd : prices.length % 2 = 1
  · rw [if_pos hodd, if_pos (.inl hodd), if_pos hodd]
    rfl
  · rw [if_neg hodd, if_neg hodd]
    by_cases hfits : i128.Fits (middleSum prices)
    · rw [hfits.check_eq, okOr_some, ok_bind, IntRange.checkedDiv, if_neg two_ne_zero,
        (hfits.tdiv (by decide)).check_eq, okOr_some, if_pos (.inr hfits)]
    · rw [IntRange.check, if_neg hfits, if_neg (not_or.mpr ⟨hodd, hfits⟩)]
      rfl

/-- Counting changes neither the median nor its failure. -/
theorem calculateMedianCompacted_compact_eq (hne : prices ≠ [])
    (hlength : prices.length ≤ maxValidators) :
    calculateMedianCompacted (Counted.compact prices) = calculateMedian prices := by
  have hpos : prices.length ≠ 0 := by rwa [Ne, List.length_eq_zero_iff]
  have hsmall : prices.length < 2 ^ 64 := hlength.trans_lt (by decide)
  have hcompact := (Counted.length_compact_le prices).trans hlength
  rw [calculateMedianCompacted, failIf_of_not (compact_ne_nil hne), ok_bind,
    failIf_of_not (not_lt.mpr hcompact), ok_bind, total_compact,
    okOr_eq_ok.mpr (checkBits_eq_some.mpr ⟨hsmall, rfl⟩), ok_bind, failIf_of_not hpos, ok_bind,
    calculateMedian, failIf_of_not hpos, ok_bind, failIf_of_not (not_lt.mpr hlength), ok_bind,
    shiftSort_eq_insertionSort]
  dsimp only
  rw [valueAt_sortPairs_compact prices (by omega), valueAt_sortPairs_compact prices (by omega)]

/-- Where the median is the mean of two prices, their sum has to be in range. -/
theorem calculateMedianCompacted_compact (hne : prices ≠ [])
    (hlength : prices.length ≤ maxValidators)
    (hsum : prices.length % 2 ≠ 1 → ∀ x ∈ prices, ∀ y ∈ prices, i128.Fits (x + y)) :
    calculateMedianCompacted (Counted.compact prices) = .ok (median prices) := by
  have hpos : 0 < prices.length := List.length_pos_of_ne_nil hne
  have hsorted : (prices.insertionSort (· ≤ ·)).length = prices.length :=
    List.length_insertionSort _ prices
  have hmem : ∀ k < prices.length, (prices.insertionSort (· ≤ ·)).getD k 0 ∈ prices := by
    intro k hk
    rw [List.getD_eq_getElem _ _ (by rw [hsorted]; exact hk)]
    exact (List.mem_insertionSort (· ≤ ·)).mp (List.getElem_mem _)
  rw [calculateMedianCompacted_compact_eq hne hlength, calculateMedian_eq hne hlength]
  refine if_pos (or_iff_not_imp_left.mpr fun hodd => ?_)
  exact hsum hodd _ (hmem (prices.length / 2 - 1) (by omega)) _
    (hmem (prices.length / 2) (by omega))

/-- The median of a buffer is that of its prices. -/
theorem calculateMedianFromBuffer_eq (hne : buffer.entries ≠ [])
    (hlength : buffer.entries.length ≤ maxValidators)
    (hsum : buffer.entries.length % 2 ≠ 1 → ∀ entry ∈ buffer.entries, ∀ other ∈ buffer.entries,
      i128.Fits (entry.price + other.price)) :
    calculateMedianFromBuffer buffer =
      some (median (buffer.entries.map PriceBufferEntry.price)) := by
  have hmedian : calculateMedianCompacted
      (Counted.compact (buffer.entries.map PriceBufferEntry.price)) =
      .ok (median (buffer.entries.map PriceBufferEntry.price)) := by
    refine calculateMedianCompacted_compact ?_ ?_ ?_
    · rwa [Ne, List.map_eq_nil_iff]
    · rwa [List.length_map]
    · intro heven x hx y hy
      rw [List.length_map] at heven
      obtain ⟨entry, hentry, rfl⟩ := List.mem_map.mp hx
      obtain ⟨other, hother, rfl⟩ := List.mem_map.mp hy
      exact hsum heven entry hentry other hother
  rw [calculateMedianFromBuffer, if_neg (by rwa [List.length_eq_zero_iff]), hmedian]
  rfl

/-- What is left of a buffer fits into the fixed memory of the sort. -/
theorem length_truncateBufferByWeight_le (settings : OracleSettings) (buffer : PriceBuffer) :
    (truncateBufferByWeight settings buffer).entries.length ≤ maxMedianEntries := by
  rw [truncateBufferByWeight]
  split_ifs with hshort
  · exact hshort
  · rw [List.length_map]
    exact List.length_take_le _ _

theorem truncateBufferByWeight_of_le (settings : OracleSettings)
    (hshort : buffer.entries.length ≤ maxMedianEntries) :
    truncateBufferByWeight settings buffer = buffer := by
  rw [truncateBufferByWeight, if_pos hshort]

theorem truncateBufferByWeight_ne_nil (settings : OracleSettings) (hne : buffer.entries ≠ []) :
    (truncateBufferByWeight settings buffer).entries ≠ [] := by
  rw [truncateBufferByWeight]
  split_ifs with hshort
  · exact hne
  · have hlong : buffer.entries.length ≠ 0 := by
      rwa [Ne, List.length_eq_zero_iff]
    rw [Ne, ← List.length_eq_zero_iff, List.length_map, List.length_take,
      (shiftSort_perm _ _).length_eq, List.length_map]
    have htake : maxMedianEntries ≠ 0 := by decide
    omega

end Median

end StellarFlow.Oracle
