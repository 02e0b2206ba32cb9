import StellarFlow.Vaults.Interest

/-!
# Accrual of interest in one settlement and in several

A settlement brings a pool to the ledger of the call. It truncates the exponent, rounds the
exponential, and rounds the index and the borrows down, so a gap settled in pieces rounds in
every piece. The pieces leave what one settlement leaves where at most one of them moves
anything.
-/
namespace StellarFlow.Vaults.Interest

open Foundation

def calculateUtilization (cash borrows : ℤ) : Except Fault ℕ := do
  let totalAssets ← okOr (i128.check (cash + borrows)) Fault.trap
  if totalAssets = 0 then pure 0
  else do
    let scaled ← okOr (i128.check (borrows * 10000)) Fault.trap
    let ratio ← okOr (i128.checkedDiv scaled totalAssets) Fault.trap
    pure (ratio % 2 ^ 32).toNat

/-- The slopes are cast to 32 bits before they are added to the base rate. -/
def calculateInterestRate (utilization : ℕ) (config : InterestRateConfig) : Except Fault ℕ :=
  if utilization ≤ config.optimalUtilizationBps then
    let slope := utilization * config.multiplierBps / 10000
    okOr (checkBits 32 (config.baseRateBps + slope % 2 ^ 32)) Fault.trap
  else do
    let baseSlope := config.optimalUtilizationBps * config.multiplierBps / 10000
    let excessUtilization := utilization - config.optimalUtilizationBps
    let excessSlope := excessUtilization * config.jumpMultiplierBps / 10000
    let rate ← okOr (checkBits 32 (config.baseRateBps + baseSlope % 2 ^ 32)) Fault.trap
    okOr (checkBits 32 (rate + excessSlope % 2 ^ 32)) Fault.trap

/-- The interest on the borrows when the index moves. -/
def interestOn (borrows : ℤ) (indexDelta storedIndex : ℕ) : Except Fault ℤ :=
  if indexDelta = 0 then pure 0
  else do
    let delta ← okOr (i128.check indexDelta) (Fault.error .mathOverflow)
    let index ← okOr (i128.check storedIndex) (Fault.error .mathOverflow)
    let product ← okOr (i128.check (borrows * delta)) (Fault.error .mathOverflow)
    okOr (i128.checkedDiv product index) (Fault.error .divisionByZero)

/-- Settle a pool at the ledger with the given sequence number. -/
def accrueInterest (sequence : ℕ) (pool : PoolState) (config : InterestRateConfig) :
    Except Fault (ℤ × PoolState) :=
  if sequence ≤ pool.lastAccruedLedger then pure (0, pool)
  else do
    let elapsedLedgers := sequence - pool.lastAccruedLedger
    let utilization ← calculateUtilization pool.cash pool.borrows
    let rateBps ← calculateInterestRate utilization config
    let storedIndex := pool.accumulatedInterestIndex
    let newIndex ← advanceDebtShareIndex storedIndex rateBps elapsedLedgers config.ledgersPerYear
    let indexDelta := newIndex - storedIndex
    let interestAccrued ← interestOn pool.borrows indexDelta storedIndex
    failIf (interestAccrued < 0) (Fault.error .invalidInput)
    let borrows ← okOr (i128.check (pool.borrows + interestAccrued)) (Fault.error .mathOverflow)
    pure (interestAccrued, { pool with
      borrows
      accumulatedInterestIndex := newIndex
      lastAccruedLedger := sequence })

/-! ## Settlements -/

/-- A settlement so many ledgers after the previous one. -/
def settle (config : InterestRateConfig) (pool : PoolState) (gap : ℕ) : Except Fault PoolState :=
  Prod.snd <$> accrueInterest (pool.lastAccruedLedger + gap) pool config

/-- One settlement after every gap. -/
def settleAll (config : InterestRateConfig) (pool : PoolState) (gaps : List ℕ) :
    Except Fault PoolState :=
  gaps.foldlM (settle config) pool

/-- The rate is the same at every utilisation. -/
def HasRate (config : InterestRateConfig) (rate : ℕ) : Prop :=
  ∀ utilization < 2 ^ 32, calculateInterestRate utilization config = .ok rate

/-- One of the gaps has the exponent of all of them together, or all of them together are too
short to move the index. -/
def SettlesTogether (rate ledgersPerYear index : ℕ) (gaps : List ℕ) : Prop :=
  (∃ gap ∈ gaps, exponentOver rate gap ledgersPerYear =
    exponentOver rate gaps.sum ledgersPerYear) ∨
  index * growthFactor (exponentOver rate gaps.sum ledgersPerYear) < (index + 1) * indexScale

/-- The index after a growth. -/
def indexAfter (exponent index : ℕ) : ℕ := index * growthFactor exponent / indexScale

/-- The pool after a settlement with the given exponent. -/
def poolAfter (exponent gap : ℕ) (pool : PoolState) : PoolState where
  cash := pool.cash
  borrows := pool.borrows + (pool.borrows * (indexAfter exponent pool.accumulatedInterestIndex -
    pool.accumulatedInterestIndex : ℕ)).tdiv pool.accumulatedInterestIndex
  lastAccruedLedger := pool.lastAccruedLedger + gap
  accumulatedInterestIndex := indexAfter exponent pool.accumulatedInterestIndex

section Exponents

theorem exponentOver_add_le (rate year a b : ℕ) :
    exponentOver rate a year + exponentOver rate b year ≤ exponentOver rate (a + b) year := by
  unfold exponentOver
  rw [mul_add, add_mul]
  exact Nat.div_add_div_le_add_div

theorem exponentOver_mono (rate year : ℕ) {a b : ℕ} (hab : a ≤ b) :
    exponentOver rate a year ≤ exponentOver rate b year :=
  Nat.div_le_div_right (Nat.mul_le_mul_right _ (Nat.mul_le_mul_left _ hab))

theorem exponentOver_zero (rate year : ℕ) : exponentOver rate 0 year = 0 := by simp [exponentOver]

theorem growthFactor_mono {a b : ℕ} (hab : a ≤ b) : growthFactor a ≤ growthFactor b :=
  roundedExp_mono hab 65

theorem indexAfter_zero (index : ℕ) : indexAfter 0 index = index := by
  rw [indexAfter, growthFactor, roundedExp_zero, Nat.mul_div_cancel _ indexScale_pos]

theorem indexAfter_eq_self {exponent index : ℕ}
    (h : index * growthFactor exponent < (index + 1) * indexScale) :
    indexAfter exponent index = index :=
  Nat.le_antisymm (Nat.le_of_lt_succ ((Nat.div_lt_iff_lt_mul indexScale_pos).mpr h))
    (le_mul_growthFactor_div index exponent)

end Exponents

section Settle

variable {config : InterestRateConfig} {pool pool' : PoolState} {rate gap : ℕ}

theorem calculateUtilization_lt {cash borrows : ℤ} {u : ℕ}
    (h : calculateUtilization cash borrows = .ok u) : u < 2 ^ 32 := by
  rw [calculateUtilization, bind_eq_ok] at h
  obtain ⟨_, _, h⟩ := h
  split_ifs at h
  · obtain rfl := pure_eq_ok.mp h
    norm_num
  · simp only [bind_eq_ok, pure_eq_ok] at h
    obtain ⟨_, _, _, _, rfl⟩ := h
    omega

theorem advanceDebtShareIndex_eq_ok {index year updated : ℕ}
    (h : advanceDebtShareIndex index rate gap year = .ok updated) :
    updated = indexAfter (exponentOver rate gap year) index := by
  have hbind := h
  rw [advanceDebtShareIndex, bind_eq_ok] at hbind
  obtain ⟨f, hf, _⟩ := hbind
  rw [advanceDebtShareIndex_eq hf] at h
  split_ifs at h
  exact (Except.ok.inj h).symm

theorem poolAfter_of_unmoved {exponent : ℕ}
    (h : indexAfter exponent pool.accumulatedInterestIndex = pool.accumulatedInterestIndex) :
    poolAfter exponent gap pool =
      { pool with lastAccruedLedger := pool.lastAccruedLedger + gap } := by
  rw [poolAfter, h, Nat.sub_self, Nat.cast_zero, mul_zero, Int.zero_tdiv, add_zero]

theorem interestOn_eq_ok {borrows interest : ℤ} {indexDelta storedIndex : ℕ}
    (h : interestOn borrows indexDelta storedIndex = .ok interest) :
    interest = (borrows * indexDelta).tdiv storedIndex := by
  rw [interestOn] at h
  split_ifs at h with hzero
  · obtain rfl := pure_eq_ok.mp h
    rw [hzero, Nat.cast_zero, mul_zero, Int.zero_tdiv]
  · simp only [bind_eq_ok, okOr_eq_ok, IntRange.check_eq_some, IntRange.checkedDiv] at h
    obtain ⟨_, ⟨_, rfl⟩, _, ⟨_, rfl⟩, _, ⟨_, rfl⟩, h⟩ := h
    split_ifs at h
    exact (IntRange.check_eq_some.mp h).2.symm

/-- Without slopes the rate is the base rate. -/
theorem hasRate_of_flat (h : config.multiplierBps = 0) (hjump : config.jumpMultiplierBps = 0)
    (hbase : config.baseRateBps < 2 ^ 32) : HasRate config config.baseRateBps := by
  intro utilization _
  have hfits : checkBits 32 config.baseRateBps = some config.baseRateBps :=
    checkBits_eq_some.mpr ⟨hbase, rfl⟩
  simp only [calculateInterestRate, h, hjump, mul_zero, Nat.zero_div, Nat.zero_mod, add_zero, hfits,
    okOr_some, ok_bind, ite_self]

/-- What a settlement does to a pool with a rate. -/
theorem settle_eq_ok (hrate : HasRate config rate) (h : settle config pool gap = .ok pool') :
    pool' = poolAfter (exponentOver rate gap config.ledgersPerYear) gap pool := by
  obtain ⟨interest, hrun⟩ := snd_map_eq_ok.mp h
  rw [accrueInterest] at hrun
  split_ifs at hrun with hsealed
  · obtain rfl : gap = 0 := by omega
    obtain ⟨_, rfl⟩ := Prod.mk.inj (pure_eq_ok.mp hrun)
    rw [exponentOver_zero, poolAfter_of_unmoved (indexAfter_zero _)]
    rfl
  · rw [Nat.add_sub_cancel_left] at hrun
    simp only [bind_eq_ok, failIf_eq_ok, okOr_eq_ok, IntRange.check_eq_some, pure_eq_ok,
      Prod.mk.injEq] at hrun
    obtain ⟨u, hu, r, hr, _, hindex, _, hinterest, _, _, _, ⟨_, rfl⟩, _, rfl⟩ := hrun
    obtain rfl : rate = r :=
      Except.ok.inj ((hrate u (calculateUtilization_lt hu)).symm.trans hr)
    obtain rfl := advanceDebtShareIndex_eq_ok hindex
    obtain rfl := interestOn_eq_ok hinterest
    rfl

theorem settleAll_cons {gaps : List ℕ} : settleAll config pool (gap :: gaps) = .ok pool' ↔
    ∃ next, settle config pool gap = .ok next ∧ settleAll config next gaps = .ok pool' := by
  rw [settleAll, List.foldlM_cons, bind_eq_ok]
  rfl

theorem settleAll_append {gaps gaps' : List ℕ} : settleAll config pool (gaps ++ gaps') = .ok pool' ↔
    ∃ next, settleAll config pool gaps = .ok next ∧ settleAll config next gaps' = .ok pool' := by
  rw [settleAll, List.foldlM_append, bind_eq_ok]
  rfl

/-- Settlements that do not move the index leave everything but the ledger as it is. -/
theorem settleAll_unmoved (hrate : HasRate config rate) {gaps : List ℕ}
    (hidle : ∀ gap ∈ gaps, indexAfter (exponentOver rate gap config.ledgersPerYear)
      pool.accumulatedInterestIndex = pool.accumulatedInterestIndex)
    (h : settleAll config pool gaps = .ok pool') :
    pool' = { pool with lastAccruedLedger := pool.lastAccruedLedger + gaps.sum } := by
  induction gaps generalizing pool with
  | nil => exact (pure_eq_ok.mp h).symm
  | cons gap gaps ih =>
    obtain ⟨hgap, hgaps⟩ := List.forall_mem_cons.mp hidle
    obtain ⟨next, hnext, h⟩ := settleAll_cons.mp h
    obtain rfl := (settle_eq_ok hrate hnext).trans (poolAfter_of_unmoved hgap)
    rw [ih (by exact hgaps) h, List.sum_cons, add_assoc]

/-- Beside a gap with the exponent of all of them the others have none. -/
theorem exponentOver_eq_zero {year other : ℕ} {pre post : List ℕ}
    (hwhole : exponentOver rate gap year = exponentOver rate (pre ++ gap :: post).sum year)
    (hother : other ∈ pre ++ post) : exponentOver rate other year = 0 := by
  have hle : other + gap ≤ (pre ++ gap :: post).sum := by
    have hsum := List.le_sum_of_mem hother
    simp only [List.sum_append, List.sum_cons] at hsum ⊢
    omega
  have hadd := exponentOver_add_le rate year other gap
  have hmono := exponentOver_mono rate year hle
  omega

/-- One gap moves the index as all of them together would, and the others do not move it. -/
theorem settleAll_whole (hrate : HasRate config rate) {pre post : List ℕ}
    (hwhole : exponentOver rate gap config.ledgersPerYear =
      exponentOver rate (pre ++ gap :: post).sum config.ledgersPerYear)
    (h : settleAll config pool (pre ++ gap :: post) = .ok pool') :
    pool' = poolAfter (exponentOver rate (pre ++ gap :: post).sum config.ledgersPerYear)
      (pre ++ gap :: post).sum pool := by
  have hidle : ∀ (index : ℕ), ∀ other ∈ pre ++ post,
      indexAfter (exponentOver rate other config.ledgersPerYear) index = index := by
    intro index other hother
    rw [exponentOver_eq_zero hwhole hother, indexAfter_zero]
  obtain ⟨before, hbefore, h⟩ := settleAll_append.mp h
  obtain ⟨moved, hmoved, hafter⟩ := settleAll_cons.mp h
  obtain rfl := settleAll_unmoved hrate
    (fun other h => hidle _ other (List.mem_append_left post h)) hbefore
  obtain rfl := settle_eq_ok hrate hmoved
  rw [settleAll_unmoved hrate
    (fun other h => hidle _ other (List.mem_append_right pre h)) hafter, hwhole]
  simp only [poolAfter, List.sum_append, List.sum_cons, add_assoc]

/-- Gaps that do not move the index together do not move it one by one. -/
theorem settleAll_short (hrate : HasRate config rate) {gaps : List ℕ}
    (hshort : pool.accumulatedInterestIndex *
      growthFactor (exponentOver rate gaps.sum config.ledgersPerYear) <
        (pool.accumulatedInterestIndex + 1) * indexScale)
    (h : settleAll config pool gaps = .ok pool') :
    pool' = poolAfter (exponentOver rate gaps.sum config.ledgersPerYear) gaps.sum pool := by
  have hpieces : ∀ gap ∈ gaps, indexAfter (exponentOver rate gap config.ledgersPerYear)
      pool.accumulatedInterestIndex = pool.accumulatedInterestIndex := by
    intro gap hmem
    have hle := growthFactor_mono
      (exponentOver_mono rate config.ledgersPerYear (List.le_sum_of_mem hmem))
    exact indexAfter_eq_self ((Nat.mul_le_mul_left _ hle).trans_lt hshort)
  rw [settleAll_unmoved hrate hpieces h, poolAfter_of_unmoved (indexAfter_eq_self hshort)]

end Settle

/-- A gap settled in pieces leaves the borrows and the index of one settlement over all of it,
at a rate that is the same at every utilisation, when one piece has the exponent of the whole
gap or the whole gap does not move the index. -/
theorem accrual_split {config : InterestRateConfig} {pool single split : PoolState} {rate : ℕ}
    {gaps : List ℕ} (hrate : HasRate config rate)
    (htogether : SettlesTogether rate config.ledgersPerYear pool.accumulatedInterestIndex gaps)
    (hsingle : settle config pool gaps.sum = .ok single)
    (hsplit : settleAll config pool gaps = .ok split) :
    split.borrows = single.borrows ∧
      split.accumulatedInterestIndex = single.accumulatedInterestIndex := by
  obtain rfl := settle_eq_ok hrate hsingle
  rcases htogether with ⟨gap, hmem, hwhole⟩ | hshort
  · obtain ⟨pre, post, rfl⟩ := List.append_of_mem hmem
    rw [settleAll_whole hrate hwhole hsplit]
    exact ⟨rfl, rfl⟩
  · rw [settleAll_short hrate hshort hsplit]
    exact ⟨rfl, rfl⟩

/-- Two settlements of an index far below its scale, which neither of them moves. -/
theorem accrual_split_sample : ∃ single split,
    settle ⟨500, 0, 0, 8000, 6307200⟩ ⟨0, 1000000000, 1000000, 1000⟩ 2 = .ok single ∧
    settleAll ⟨500, 0, 0, 8000, 6307200⟩ ⟨0, 1000000000, 1000000, 1000⟩ [1, 1] = .ok split ∧
    split.borrows = single.borrows ∧
      split.accumulatedInterestIndex = single.accumulatedInterestIndex := by
  have hsingle : settle ⟨500, 0, 0, 8000, 6307200⟩ ⟨0, 1000000000, 1000000, 1000⟩ [1, 1].sum =
      .ok ⟨0, 1000000000, 1000002, 1000⟩ := by decide +kernel
  have hsplit : settleAll ⟨500, 0, 0, 8000, 6307200⟩ ⟨0, 1000000000, 1000000, 1000⟩ [1, 1] =
      .ok ⟨0, 1000000000, 1000002, 1000⟩ := by decide +kernel
  exact ⟨_, _, hsingle, hsplit, accrual_split (hasRate_of_flat rfl rfl (by decide))
    (.inr (by decide +kernel)) hsingle hsplit⟩

/-- Settled after each of two ledgers a pool at five percent a year accrues less than settled
once, in its borrows and in its index. -/
theorem accrual_split_loses :
    ¬ ∀ (config : InterestRateConfig) (pool single split : PoolState) (rate : ℕ) (gaps : List ℕ),
      HasRate config rate → settle config pool gaps.sum = .ok single →
      settleAll config pool gaps = .ok split → split.borrows = single.borrows ∧
        split.accumulatedInterestIndex = single.accumulatedInterestIndex := by
  intro h
  have hsingle : settle ⟨500, 0, 0, 8000, 6307200⟩ ⟨0, 1000000000, 1000000, 1000000000000000000⟩
      [1, 1].sum = .ok ⟨0, 1000000015, 1000002, 1000000015854896117⟩ := by decide +kernel
  have hsplit : settleAll ⟨500, 0, 0, 8000, 6307200⟩ ⟨0, 1000000000, 1000000, 1000000000000000000⟩
      [1, 1] = .ok ⟨0, 1000000014, 1000002, 1000000015854896114⟩ := by decide +kernel
  obtain ⟨hborrows, _⟩ :=
    h _ _ _ _ 500 [1, 1] (hasRate_of_flat rfl rfl (by decide)) hsingle hsplit
  exact absurd hborrows (by decide)

end StellarFlow.Vaults.Interest
