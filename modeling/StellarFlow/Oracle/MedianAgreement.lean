import StellarFlow.Oracle.Buffer

/-!
# The median of the buffer and of the plain list

The feed counts equal prices before it sorts them. The function that sorts all prices finds the
same median, or fails with it: only the sum of the two middle prices can overflow.
-/
namespace StellarFlow.Oracle

open Foundation

section Buffer

variable {buffer other : PriceBuffer}

/-- The prices of the entries of a buffer. -/
def PriceBuffer.prices (buffer : PriceBuffer) : List ℤ :=
  buffer.entries.map PriceBufferEntry.price

theorem PriceBuffer.prices_ne_nil (hne : buffer.entries ≠ []) : buffer.prices ≠ [] := by
  rwa [PriceBuffer.prices, Ne, List.map_eq_nil_iff]

theorem calculateMedianFromBuffer_eq_plain (hne : buffer.entries ≠ [])
    (hlength : buffer.entries.length ≤ maxValidators) :
    calculateMedianFromBuffer buffer = (calculateMedian buffer.prices).toOption := by
  have hlen : buffer.prices.length ≤ maxValidators := by
    rwa [PriceBuffer.prices, List.length_map]
  rw [calculateMedianFromBuffer, if_neg (by rwa [List.length_eq_zero_iff]), ← PriceBuffer.prices,
    calculateMedianCompacted_compact_eq (PriceBuffer.prices_ne_nil hne) hlen]

/-- The median of a buffer of 1 to 15 entries is that of the plain list of its prices, and is
missing exactly when the sum of two middle prices overflows. The order of the entries makes no
difference, and a strict majority within an interval holds the median there. -/
theorem median_from_buffer_exact (buffer : PriceBuffer) (hne : buffer.entries ≠ [])
    (hlength : buffer.entries.length ≤ maxValidators) :
    calculateMedianFromBuffer buffer = (calculateMedian buffer.prices).toOption ∧
      calculateMedianFromBuffer buffer =
        (if buffer.prices.length % 2 = 1 ∨ i128.Fits (middleSum buffer.prices) then
          some (middle (buffer.prices.insertionSort (· ≤ ·)))
        else none) ∧
      (∀ other : PriceBuffer, other.entries.Perm buffer.entries →
        calculateMedianFromBuffer other = calculateMedianFromBuffer buffer) ∧
      ∀ a b m, buffer.prices.length <
          2 * (buffer.prices.countP fun x => decide (a ≤ x ∧ x ≤ b)) →
        calculateMedianFromBuffer buffer = some m → a ≤ m ∧ m ≤ b := by
  have hvalue : ∀ buf : PriceBuffer, buf.entries ≠ [] → buf.entries.length ≤ maxValidators →
      calculateMedianFromBuffer buf =
        if buf.prices.length % 2 = 1 ∨ i128.Fits (middleSum buf.prices) then
          some (middle (buf.prices.insertionSort (· ≤ ·)))
        else none := by
    intro buf hbuf hlen
    rw [calculateMedianFromBuffer_eq_plain hbuf hlen, calculateMedian_eq
      (PriceBuffer.prices_ne_nil hbuf) (by rwa [PriceBuffer.prices, List.length_map])]
    split_ifs <;> rfl
  refine ⟨calculateMedianFromBuffer_eq_plain hne hlength, hvalue buffer hne hlength,
    fun other hperm => ?_, fun a b m hmajority hm => ?_⟩
  · have hother : other.entries ≠ [] := by
      intro hnil
      rw [hnil] at hperm
      exact hne (List.nil_perm.mp hperm)
    have hprices : other.prices.Perm buffer.prices := hperm.map _
    rw [hvalue buffer hne hlength, hvalue other hother (hperm.length_eq.trans_le hlength),
      middleSum, middleSum, insertionSort_eq_of_perm hprices, hprices.length_eq]
  · rw [hvalue buffer hne hlength] at hm
    split_ifs at hm with hfits
    obtain rfl := Option.some.inj hm
    exact median_between hmajority

/-- Four entries, of which three lie between 100 and 105. -/
def fourEntries : PriceBuffer :=
  ⟨[⟨105, ⟨1⟩, 0⟩, ⟨100, ⟨2⟩, 0⟩, ⟨9000, ⟨3⟩, 0⟩, ⟨100, ⟨4⟩, 0⟩], 1, 0, 0⟩

/-- The one price that is out of line does not move the median past the others. -/
theorem median_from_buffer_exact_sample :
    calculateMedianFromBuffer fourEntries = (calculateMedian fourEntries.prices).toOption ∧
      100 ≤ (102 : ℤ) ∧ (102 : ℤ) ≤ 105 := by
  obtain ⟨hplain, _, _, hbetween⟩ := median_from_buffer_exact fourEntries (by decide) (by decide)
  exact ⟨hplain, hbetween 100 105 102 (by decide) (by decide)⟩

end Buffer

end StellarFlow.Oracle
