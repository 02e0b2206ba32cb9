import StellarFlow.Oracle.Runs
import Mathlib.Data.List.DropRight

/-!
# The guard against price impact

The window of an asset keeps the last price of each of the five latest ledgers. A new price is
compared with the mean of the earlier ledgers of the window, before the price joins it. A later
price of the same ledger finds its predecessor in the window and so one earlier ledger less, and a
difference that does not fit counts as none.
-/
namespace StellarFlow.Oracle

open Foundation

/-- The last price of each ledger, newest first. -/
def lastPrices : List PriceWindowEntry → List PriceWindowEntry
  | [] => []
  | call :: calls =>
    call :: (lastPrices calls).filter fun entry => entry.ledgerSequence ≠ call.ledgerSequence

def before (ledger : ℕ) (entries : List PriceWindowEntry) : List PriceWindowEntry :=
  entries.filter fun entry => entry.ledgerSequence < ledger

/-- The last prices of the five latest ledgers before a ledger. -/
def baseline (ledger : ℕ) (calls : List PriceWindowEntry) : List PriceWindowEntry :=
  (before ledger (lastPrices calls)).take priceWindowLedgers

/-- What the window still holds of them. -/
def retained (ledger : ℕ) (calls : List PriceWindowEntry) : List PriceWindowEntry :=
  before ledger ((lastPrices calls).take priceWindowLedgers)

def totalPrice (entries : List PriceWindowEntry) : ℤ := (entries.map PriceWindowEntry.price).sum

def meanPrice (entries : List PriceWindowEntry) : ℚ := totalPrice entries / entries.length

/-- The price is more than 5 % away from the mean. -/
def Exceeds (entries : List PriceWindowEntry) (price : ℤ) : Prop :=
  meanPrice entries / 20 < |price - meanPrice entries|

/-- The same against a mean without its fraction, in whole basis points that have to fit. -/
def RoundedExceeds (mean price : ℤ) : Prop :=
  i128.Fits ((price - mean) * 10000) ∧
    (priceImpactThresholdBps + 1) * mean ≤ |price - mean| * 10000

/-! ## Runs -/

/-- The calls for an asset, newest first, at ledgers that do not go back. -/
structure ImpactHistory where
  store : OracleStore
  ledger : ℕ
  calls : List PriceWindowEntry

structure ImpactCall (here : Address) where
  env : OracleEnv here
  elapsed : ℕ
  price : ℤ
  price_pos : 0 < price
  price_fits : i128.Fits price

section Runs

variable {here : Address} (asset : Symbol)

def ImpactCall.ledger (i : ImpactCall here) (h : ImpactHistory) : ℕ := h.ledger + i.elapsed

def impactStep (i : ImpactCall here) (h : ImpactHistory) : Except OracleFault ImpactHistory :=
  let env := { i.env with sequence := i.ledger h }
  pure ⟨recordAndEvaluate env asset i.price h.store, i.ledger h,
    ⟨i.ledger h, i.price⟩ :: h.calls⟩

def storedWindow (h : ImpactHistory) : List PriceWindowEntry :=
  (h.store.priceWindows.lookup asset).getD []

def isTripped (h : ImpactHistory) : Bool := (h.store.priceImpactGuards.lookup asset).getD false

/-- The window has the last prices of the latest ledgers, in the order of the ledgers. -/
def WindowExact (h : ImpactHistory) : Prop :=
  storedWindow asset h = ((lastPrices h.calls).take priceWindowLedgers).reverse ∧
    (storedWindow asset h).Pairwise fun entry later => entry.ledgerSequence < later.ledgerSequence

/-- After a call with earlier ledgers the guard is tripped exactly if the price is more than 5 %
away from their mean. -/
def GuardExact (h : ImpactHistory) : Prop :=
  match h.calls with
  | [] => True
  | call :: calls => baseline call.ledgerSequence calls ≠ [] →
    (isTripped asset h = true ↔ Exceeds (baseline call.ledgerSequence calls) call.price)

/-- The rounded test on what the window still holds agrees with the exact one, or where its sum does
not fit, the guard is already as it has to be. -/
def TestAgrees (h : ImpactHistory) (i : ImpactCall here) : Prop :=
  let kept := retained (i.ledger h) h.calls
  baseline (i.ledger h) h.calls ≠ [] →
    if totalPrice kept < 2 ^ 127 then
      (RoundedExceeds (totalPrice kept / kept.length) i.price ↔
        Exceeds (baseline (i.ledger h) h.calls) i.price)
    else isTripped asset h = true ↔ Exceeds (baseline (i.ledger h) h.calls) i.price

end Runs

/-! ## The window -/

section Windows

variable {ledger n : ℕ} {entries : List PriceWindowEntry}

/-- Entries in the order of their ledgers, none later than a ledger. -/
structure Descending (ledger : ℕ) (entries : List PriceWindowEntry) : Prop where
  sorted : entries.Pairwise fun entry earlier => earlier.ledgerSequence < entry.ledgerSequence
  past : ∀ entry ∈ entries, entry.ledgerSequence ≤ ledger

theorem Descending.mono {later : ℕ} (h : Descending ledger entries) (hle : ledger ≤ later) :
    Descending later entries :=
  ⟨h.sorted, fun entry hmem => (h.past entry hmem).trans hle⟩

theorem Descending.take (h : Descending ledger entries) (n : ℕ) :
    Descending ledger (entries.take n) :=
  ⟨h.sorted.sublist (List.take_sublist _ _),
    fun entry hmem => h.past entry (List.mem_of_mem_take hmem)⟩

theorem Descending.filter_ne (h : Descending ledger entries) :
    (entries.filter fun entry => entry.ledgerSequence ≠ ledger) = before ledger entries := by
  refine List.filter_congr fun entry hmem => ?_
  have hle := h.past entry hmem
  exact decide_eq_decide.mpr hle.lt_iff_ne.symm

theorem before_take (h : before ledger entries = entries) (n : ℕ) :
    before ledger (entries.take n) = entries.take n :=
  List.filter_eq_self.mpr fun entry hmem =>
    List.filter_eq_self.mp h entry (List.mem_of_mem_take hmem)

theorem before_cons_self {entry : PriceWindowEntry} (h : entry.ledgerSequence = ledger) :
    before ledger (entry :: entries) = before ledger entries := by
  rw [before, List.filter_cons, if_neg (by simp [h])]
  rfl

/-- At most the newest entry is of the ledger itself. -/
theorem Descending.cases (h : Descending ledger entries) :
    before ledger entries = entries ∨
      ∃ entry, entry.ledgerSequence = ledger ∧ entries = entry :: before ledger entries := by
  cases entries with
  | nil => exact .inl rfl
  | cons entry rest =>
    obtain ⟨hhead, htail⟩ := List.pairwise_cons.mp h.sorted
    have hrest : before ledger rest = rest := by
      refine List.filter_eq_self.mpr fun earlier hmem => decide_eq_true ?_
      exact (hhead earlier hmem).trans_le (h.past entry List.mem_cons_self)
    rcases (h.past entry List.mem_cons_self).lt_or_eq with hlt | heq
    · left
      rw [before, List.filter_cons, if_pos (decide_eq_true hlt)]
      exact congrArg _ hrest
    · refine .inr ⟨entry, heq, ?_⟩
      rw [before_cons_self heq, hrest]

/-- Trimming first takes at most the last entry of what is kept. -/
theorem Descending.take_before_take (h : Descending ledger entries) :
    (before ledger (entries.take (n + 1))).take n = (before ledger entries).take n := by
  rcases h.cases with hall | ⟨entry, hledger, hcons⟩
  · rw [before_take hall, hall, List.take_take, Nat.min_eq_left (Nat.le_succ n)]
  · have hrest : before ledger (before ledger entries) = before ledger entries :=
      List.filter_eq_self.mpr fun entry hmem => (List.mem_filter.mp hmem).2
    rw [hcons, List.take_succ_cons, before_cons_self hledger, before_cons_self hledger,
      before_take hrest, hrest, List.take_take, Nat.min_self]

theorem Descending.record (h : Descending ledger entries) (price : ℤ) :
    Descending ledger (⟨ledger, price⟩ :: before ledger entries) := by
  refine ⟨List.pairwise_cons.mpr ⟨fun entry hmem => ?_, h.sorted.sublist List.filter_sublist⟩, ?_⟩
  · exact of_decide_eq_true (List.mem_filter.mp hmem).2
  · refine List.forall_mem_cons.mpr ⟨le_rfl, fun entry hmem => ?_⟩
    exact h.past entry (List.mem_filter.mp hmem).1

end Windows

/-- What a run keeps about the window. -/
structure Recorded (asset : Symbol) (h : ImpactHistory) : Prop where
  window : storedWindow asset h = ((lastPrices h.calls).take priceWindowLedgers).reverse
  descending : Descending h.ledger (lastPrices h.calls)
  valid : ∀ entry ∈ lastPrices h.calls, 0 < entry.price ∧ i128.Fits entry.price

section Steps

variable {here : Address} {asset : Symbol} {h h' : ImpactHistory} {i : ImpactCall here}

theorem recordAndEvaluate_windows (env : OracleEnv here) (price : ℤ) (s : OracleStore) :
    (recordAndEvaluate env asset price s).priceWindows =
      (writeSample env asset price s).priceWindows := by
  rw [recordAndEvaluate]
  dsimp only
  split
  · split_ifs <;> rfl
  · rfl

theorem writeSample_window (env : OracleEnv here) (price : ℤ) (s : OracleStore) :
    ((writeSample env asset price s).priceWindows.lookup asset).getD [] =
      List.rtake (((s.priceWindows.lookup asset).getD []).filter
          (fun entry : PriceWindowEntry => entry.ledgerSequence ≠ env.sequence) ++
        [⟨env.sequence, price⟩]) priceWindowLedgers := by
  rw [writeSample, Finmap.lookup_insert, Option.getD_some]
  rfl

theorem Recorded.windowExact (hr : Recorded asset h) : WindowExact asset h := by
  refine ⟨hr.window, ?_⟩
  rw [hr.window, List.pairwise_reverse]
  exact hr.descending.sorted.sublist (List.take_sublist _ _)

theorem Recorded.step (hr : Recorded asset h) (h0 : impactStep asset i h = .ok h') :
    Recorded asset h' := by
  obtain rfl := pure_eq_ok.mp h0
  have hdesc : Descending (i.ledger h) (lastPrices h.calls) :=
    hr.descending.mono (Nat.le_add_right h.ledger i.elapsed)
  have hcalls : lastPrices (⟨i.ledger h, i.price⟩ :: h.calls) =
      ⟨i.ledger h, i.price⟩ :: before (i.ledger h) (lastPrices h.calls) := by
    rw [lastPrices]
    exact congrArg _ hdesc.filter_ne
  have hentries : ((storedWindow asset h).filter
      fun entry => entry.ledgerSequence ≠ i.ledger h) =
        (before (i.ledger h) ((lastPrices h.calls).take priceWindowLedgers)).reverse := by
    rw [hr.window, List.filter_reverse, (hdesc.take _).filter_ne]
  refine ⟨?_, ?_, ?_⟩
  · rw [hcalls, storedWindow, recordAndEvaluate_windows, writeSample_window]
    rw [storedWindow] at hentries
    rw [hentries, List.rtake_eq_reverse_take_reverse, List.reverse_append, List.reverse_reverse,
      List.reverse_singleton, List.singleton_append]
    refine congrArg List.reverse (congrArg (List.cons _) ?_)
    exact hdesc.take_before_take
  · rw [hcalls]
    exact hdesc.record i.price
  · rw [hcalls]
    refine List.forall_mem_cons.mpr ⟨⟨i.price_pos, i.price_fits⟩, fun entry hmem => ?_⟩
    exact hr.valid entry (List.mem_filter.mp hmem).1

end Steps

/-! ## The guard -/

section Guard

variable {here : Address} {asset : Symbol} {h h' : ImpactHistory} {i : ImpactCall here}
  {entries : List PriceWindowEntry} {mean price : ℤ}

theorem fits_iff {x : ℤ} : i128.Fits x ↔ -2 ^ 127 ≤ x ∧ x < 2 ^ 127 :=
  IntRange.signed_fits_iff

theorem totalPrice_cons (entry : PriceWindowEntry) (entries : List PriceWindowEntry) :
    totalPrice (entry :: entries) = entry.price + totalPrice entries := rfl

theorem length_le_totalPrice (hpos : ∀ entry ∈ entries, 0 < entry.price) :
    (entries.length : ℤ) ≤ totalPrice entries := by
  induction entries with
  | nil => exact le_rfl
  | cons entry entries ih =>
    obtain ⟨hhead, htail⟩ := List.forall_mem_cons.mp hpos
    have hrest := ih htail
    rw [totalPrice_cons, List.length_cons]
    push_cast
    omega

theorem totalPrice_nonneg (hpos : ∀ entry ∈ entries, 0 < entry.price) :
    0 ≤ totalPrice entries :=
  (Int.natCast_nonneg _).trans (length_le_totalPrice hpos)

theorem foldlM_price_eq (hpos : ∀ entry ∈ entries, 0 < entry.price) {sum : ℤ} (hsum : 0 ≤ sum)
    (hlt : sum < 2 ^ 127) :
    entries.foldlM (fun sum entry => i128.check (sum + entry.price)) sum =
      if sum + totalPrice entries < 2 ^ 127 then some (sum + totalPrice entries) else none := by
  induction entries generalizing sum with
  | nil =>
    change some sum = if sum + 0 < 2 ^ 127 then some (sum + 0) else none
    rw [add_zero, if_pos hlt]
  | cons entry entries ih =>
    obtain ⟨hhead, htail⟩ := List.forall_mem_cons.mp hpos
    have hrest := totalPrice_nonneg htail
    rw [List.foldlM_cons, totalPrice_cons, ← add_assoc]
    by_cases hnext : sum + entry.price < 2 ^ 127
    · have hfits : i128.Fits (sum + entry.price) := fits_iff.mpr ⟨by omega, hnext⟩
      rw [hfits.check_eq]
      exact ih htail (by omega) hnext
    · have hfits : ¬ i128.Fits (sum + entry.price) := fun h => hnext (fits_iff.mp h).2
      rw [IntRange.check, if_neg hfits, if_neg (by omega)]
      rfl

theorem lt_abs_tdiv_iff {x y n : ℤ} (hy : 0 < y) : n < |x.tdiv y| ↔ (n + 1) * y ≤ |x| := by
  have habs : |x.tdiv y| = |x| / y := by
    rw [Int.abs_eq_natAbs, Int.natAbs_tdiv, Int.abs_eq_natAbs]
    change ((x.natAbs / y.natAbs : ℕ) : ℤ) = _
    rw [Int.natCast_div, Int.natAbs_of_nonneg hy.le]
  rw [habs, ← Int.add_one_le_iff, Int.le_ediv_iff_mul_le hy]

/-- The difference in whole basis points exceeds the threshold exactly in the rounded test. -/
theorem deviation_iff (hmean : 0 < mean) (hmeanFits : i128.Fits mean) (hprice : 0 < price)
    (hpriceFits : i128.Fits price) :
    priceImpactThresholdBps < (calculatePercentageDifferenceBps mean price).getD 0 ↔
      RoundedExceeds mean price := by
  obtain ⟨-, hmeanLt⟩ := fits_iff.mp hmeanFits
  obtain ⟨-, hpriceLt⟩ := fits_iff.mp hpriceFits
  have hdelta : i128.Fits (price - mean) := fits_iff.mpr ⟨by omega, by omega⟩
  rw [calculatePercentageDifferenceBps, calculatePercentageChangeBps, if_neg hmean.ne',
    hdelta.check_eq, RoundedExceeds]
  by_cases hscaled : i128.Fits ((price - mean) * 10000)
  · have hquotient : i128.checkedDiv ((price - mean) * 10000) mean =
        some (((price - mean) * 10000).tdiv mean) := by
      rw [IntRange.checkedDiv, if_neg hmean.ne', (hscaled.tdiv hmean).check_eq]
    rw [and_iff_right hscaled]
    change _ < (((i128.check ((price - mean) * 10000) >>= _) : Option ℤ).map _).getD 0 ↔ _
    rw [hscaled.check_eq]
    change _ < ((i128.checkedDiv ((price - mean) * 10000) mean).map _).getD 0 ↔ _
    rw [hquotient]
    change _ < |((price - mean) * 10000).tdiv mean| ↔ _
    rw [lt_abs_tdiv_iff hmean, abs_mul]
    rfl
  · refine iff_of_false ?_ fun h => hscaled h.1
    change ¬ _ < (((i128.check ((price - mean) * 10000) >>= _) : Option ℤ).map _).getD 0
    rw [IntRange.check, if_neg hscaled]
    exact (by decide : ¬ priceImpactThresholdBps < 0)

/-- The mean of what a window holds of the earlier ledgers. -/
theorem trailingAverage_eq {window : List PriceWindowEntry} {ledger : ℕ}
    (hbefore : before ledger window = entries.reverse) (hne : entries ≠ [])
    (hpos : ∀ entry ∈ entries, 0 < entry.price) :
    trailingAverage window ledger =
      if totalPrice entries < 2 ^ 127 then some (totalPrice entries / entries.length)
      else none := by
  have hlength : (entries.reverse).length = entries.length := List.length_reverse
  have htotal : totalPrice entries.reverse = totalPrice entries := by
    rw [totalPrice, List.map_reverse, List.sum_reverse, totalPrice]
  have hsum : entries.reverse.foldlM (fun sum entry => i128.check (sum + entry.price)) 0 =
      if 0 + totalPrice entries.reverse < 2 ^ 127 then some (0 + totalPrice entries.reverse)
      else none :=
    foldlM_price_eq (fun entry hmem => hpos entry (List.mem_reverse.mp hmem)) le_rfl (by norm_num)
  rw [zero_add, htotal] at hsum
  rw [trailingAverage, ← before, hbefore, hsum, hlength]
  have hcount : entries.length ≠ 0 := fun h => hne (List.length_eq_zero_iff.mp h)
  split_ifs with hlt
  · have hfits : i128.Fits (totalPrice entries) :=
      fits_iff.mpr ⟨by have := totalPrice_nonneg hpos; omega, hlt⟩
    change i128.checkedDiv (totalPrice entries) entries.length = _
    rw [IntRange.checkedDiv_of_nonneg hfits (totalPrice_nonneg hpos) (by omega)]
  · rfl

/-- A tripped test is stored, and a test that cannot be made leaves the guard alone. -/
theorem recordAndEvaluate_guard (env : OracleEnv here) (s : OracleStore) :
    ((recordAndEvaluate env asset price s).priceImpactGuards.lookup asset).getD false =
      match trailingAverage ((s.priceWindows.lookup asset).getD []) env.sequence with
      | some average =>
        if 0 < average then
          decide (priceImpactThresholdBps <
            (calculatePercentageDifferenceBps average price).getD 0)
        else (s.priceImpactGuards.lookup asset).getD false
      | none => (s.priceImpactGuards.lookup asset).getD false := by
  rw [recordAndEvaluate]
  cases trailingAverage ((s.priceWindows.lookup asset).getD []) env.sequence with
  | none => rfl
  | some average =>
    dsimp only
    by_cases hpos : 0 < average
    · rw [if_pos hpos, if_pos hpos]
      split_ifs with hflip
      · rw [Finmap.lookup_insert, Option.getD_some]
      · exact (not_not.mp hflip).symm
    · rw [if_neg hpos, if_neg hpos]
      rfl

/-- Some earlier ledger is still held if there is one at all. -/
theorem retained_ne_nil {ledger : ℕ} {calls : List PriceWindowEntry}
    (hdesc : Descending ledger (lastPrices calls)) (hne : baseline ledger calls ≠ []) :
    retained ledger calls ≠ [] := by
  intro hnil
  have htake : (retained ledger calls).take 4 = (before ledger (lastPrices calls)).take 4 :=
    hdesc.take_before_take
  rw [hnil, List.take_nil, eq_comm, List.take_eq_nil_iff] at htake
  exact hne (by rw [baseline, htake.resolve_left (by decide), List.take_nil])

/-- The guard after a call with earlier ledgers. -/
theorem Recorded.tripped_iff (hr : Recorded asset h) (h0 : impactStep asset i h = .ok h')
    (hne : baseline (i.ledger h) h.calls ≠ []) :
    isTripped asset h' = true ↔
      if totalPrice (retained (i.ledger h) h.calls) < 2 ^ 127 then
        RoundedExceeds (totalPrice (retained (i.ledger h) h.calls) /
          (retained (i.ledger h) h.calls).length) i.price
      else isTripped asset h = true := by
  obtain rfl := pure_eq_ok.mp h0
  have hdesc : Descending (i.ledger h) (lastPrices h.calls) :=
    hr.descending.mono (Nat.le_add_right h.ledger i.elapsed)
  have hkept := retained_ne_nil hdesc hne
  have hpos : ∀ entry ∈ retained (i.ledger h) h.calls, 0 < entry.price := fun entry hmem =>
    (hr.valid entry (List.mem_of_mem_take (List.mem_filter.mp hmem).1)).1
  have hbefore : before (i.ledger h) (storedWindow asset h) =
      (retained (i.ledger h) h.calls).reverse := by
    rw [hr.window, before, List.filter_reverse]
    rfl
  have haverage := trailingAverage_eq hbefore hkept hpos
  rw [isTripped, recordAndEvaluate_guard]
  change (match trailingAverage (storedWindow asset h) (i.ledger h) with
    | some average => _
    | none => _) = true ↔ _
  rw [haverage]
  split_ifs with hlt
  · have hcount : 0 < ((retained (i.ledger h) h.calls).length : ℤ) :=
      Int.natCast_pos.mpr (List.length_pos_iff.mpr hkept)
    have hmean : 0 < totalPrice (retained (i.ledger h) h.calls) /
        (retained (i.ledger h) h.calls).length :=
      Int.le_ediv_of_mul_le hcount (by rw [zero_add, one_mul]; exact length_le_totalPrice hpos)
    have hself : totalPrice (retained (i.ledger h) h.calls) /
        (retained (i.ledger h) h.calls).length ≤ totalPrice (retained (i.ledger h) h.calls) :=
      Int.ediv_le_self _ (totalPrice_nonneg hpos)
    have hmeanFits := fits_iff.mpr ⟨by omega, hself.trans_lt hlt⟩
    dsimp only
    rw [if_pos hmean, decide_eq_true_iff,
      deviation_iff hmean hmeanFits i.price_pos i.price_fits]
  · rfl

theorem Recorded.guardExact_iff (hr : Recorded asset h) (h0 : impactStep asset i h = .ok h') :
    GuardExact asset h' ↔ TestAgrees asset h i := by
  have htripped := hr.tripped_iff h0
  obtain rfl := pure_eq_ok.mp h0
  refine forall_congr' fun hne => ?_
  dsimp only
  rw [htripped hne]
  split_ifs <;> rfl

/-- In every run for an asset without history the window is exact, and the guard is exact after
every call if and only if every rounded test agrees with the exact one. -/
theorem priceImpact_exact_iff (s : OracleStore) (ledger : ℕ)
    (hs : s.priceWindows.lookup asset = none) (run : List (ImpactCall here)) :
    Throughout (impactStep asset) (fun h => GuardExact asset h ∧ WindowExact asset h)
        ⟨s, ledger, []⟩ run ↔
      Along (impactStep asset) (TestAgrees asset) ⟨s, ledger, []⟩ run := by
  have hstart : Recorded asset ⟨s, ledger, []⟩ := by
    refine ⟨?_, ⟨List.Pairwise.nil, by simp [lastPrices]⟩, by simp [lastPrices]⟩
    rw [storedWindow, hs]
    rfl
  refine throughout_and_iff_along
    (fun h i hr _ => commit_induction hr fun h' h0 => hr.step h0) (fun h i hr _ => ?_)
    (fun h hr _ => hr.windowExact) hstart trivial run
  rw [commit_of_ok rfl]
  exact hr.guardExact_iff rfl

end Guard

section Sample

/-- The test without fractions. -/
theorem exceeds_iff {entries : List PriceWindowEntry} {price : ℤ} (h : entries ≠ []) :
    Exceeds entries price ↔
      totalPrice entries < 20 * |price * entries.length - totalPrice entries| := by
  have hlength : (0 : ℚ) < entries.length := by
    exact_mod_cast List.length_pos_iff.mpr h
  have hdiff : |(price : ℚ) - meanPrice entries| =
      |price * entries.length - totalPrice entries| / entries.length := by
    rw [meanPrice, sub_div' hlength.ne', abs_div, abs_of_pos hlength]
    push_cast
    rfl
  rw [Exceeds, hdiff, meanPrice, div_div, mul_comm (entries.length : ℚ), ← div_div,
    div_lt_div_iff_of_pos_right hlength, div_lt_iff₀ (by norm_num), mul_comm]
  exact_mod_cast Iff.rfl

def impactCall (elapsed : ℕ) (price : ℤ) (h : 0 < price ∧ i128.Fits price) : ImpactCall ⟨0⟩ :=
  ⟨sampleOracleEnv, elapsed, price, h.1, h.2⟩

/-- A price, and one near it in the next ledger. -/
def calmRun : List (ImpactCall ⟨0⟩) :=
  [impactCall 1 1000 (by decide), impactCall 1 1010 (by decide)]

theorem calmRun_exact :
    Throughout (impactStep ⟨7⟩) (fun h => GuardExact ⟨7⟩ h ∧ WindowExact ⟨7⟩ h)
      ⟨.deployed, 0, []⟩ calmRun := by
  refine (priceImpact_exact_iff .deployed 0 rfl calmRun).mpr ⟨fun h => absurd rfl h, ?_, trivial⟩
  intro hne
  rw [if_pos (by decide)]
  refine iff_of_false ?_ ?_
  · rw [RoundedExceeds]
    decide
  · rw [exceeds_iff hne]
    decide

/-- Five ledgers whose mean the price is near to, and the price again in the same ledger. -/
def repeatedRun : List (ImpactCall ⟨0⟩) :=
  [impactCall 1 1500 (by decide), impactCall 1 1000 (by decide), impactCall 1 1000 (by decide),
    impactCall 1 1000 (by decide), impactCall 1 1000 (by decide), impactCall 1 1140 (by decide),
    impactCall 0 1140 (by decide)]

/-- The largest price. -/
def extremeRun : List (ImpactCall ⟨0⟩) :=
  [impactCall 1 1000000 (by decide), impactCall 1 (2 ^ 127 - 1) (by decide)]

theorem repeatedRun_inexact :
    (¬ Throughout (impactStep ⟨7⟩) (fun h => GuardExact ⟨7⟩ h ∧ WindowExact ⟨7⟩ h)
      ⟨.deployed, 0, []⟩ repeatedRun) ∧
    ¬ Throughout (impactStep ⟨7⟩) (fun h => GuardExact ⟨7⟩ h ∧ WindowExact ⟨7⟩ h)
      ⟨.deployed, 0, []⟩ extremeRun := by
  constructor
  · intro h
    have hexact : isTripped ⟨7⟩ (runAll (impactStep ⟨7⟩) ⟨.deployed, 0, []⟩ repeatedRun) = true ↔
      _ := h.last.1 (by decide)
    rw [exceeds_iff (by decide)] at hexact
    revert hexact
    decide +kernel
  · intro h
    have hexact : isTripped ⟨7⟩ (runAll (impactStep ⟨7⟩) ⟨.deployed, 0, []⟩ extremeRun) = true ↔
      _ := h.last.1 (by decide)
    rw [exceeds_iff (by decide)] at hexact
    revert hexact
    decide +kernel

end Sample

end StellarFlow.Oracle
