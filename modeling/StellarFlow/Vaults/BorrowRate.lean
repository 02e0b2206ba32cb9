import StellarFlow.Foundation.KinkedCurve
import StellarFlow.Host

/-!
# The borrow rate of a pool

The rate follows a curve of two slopes over the utilization of the pool. Both the utilization and
the rate are rounded down to whole basis points.
-/
namespace StellarFlow.Vaults.BorrowRate

open Foundation

def bps : ℕ := 10000

inductive ModelError
  | alreadyInitialized
  | notInitialized
  | notAdmin
  | invalidOptimalUtilization
  | negativeAmount
  | overflow
  deriving DecidableEq, Repr

structure RateModel where
  baseRateBps : UInt32
  optimalUtilizationBps : UInt32
  slope1Bps : UInt32
  slope2Bps : UInt32
  deriving DecidableEq

structure RateBook where
  admin : Option Address
  model : Option RateModel
  deriving DecidableEq

def RateBook.empty : RateBook := ⟨none, none⟩

/-- Conversion to 32 bits, refused past their range. -/
def tryU32 (x : ℕ) : Option UInt32 := if x < 2 ^ 32 then some (UInt32.ofNat x) else none

/-- Division, refused by zero. -/
def checkedQuotient (x y : ℕ) : Option ℕ := if y = 0 then none else some (x / y)

def utilizationRate (totalDebt totalCollateral : ℤ) : Except (Abort ModelError) UInt32 := do
  failIf (totalDebt < 0 ∨ totalCollateral < 0) (.error .negativeAmount)
  if totalCollateral = 0 then
    pure (if totalDebt = 0 then 0 else UInt32.ofNat bps)
  else
    let scaled ← okOr (checkBits 128 (totalDebt.toNat * bps)) (.error .overflow)
    let utilization ← okOr (checkedQuotient scaled totalCollateral.toNat) (.error .overflow)
    okOr (tryU32 utilization) (.error .overflow)

def validateModel (model : RateModel) : Except (Abort ModelError) Unit :=
  failIf (model.optimalUtilizationBps = 0 ∨ bps ≤ model.optimalUtilizationBps.toNat)
    (.error .invalidOptimalUtilization)

def borrowRate (utilizationBps : UInt32) (model : RateModel) :
    Except (Abort ModelError) UInt32 := do
  validateModel model
  let base := model.baseRateBps.toNat
  let optimal := model.optimalUtilizationBps.toNat
  let rate ←
    if utilizationBps ≤ model.optimalUtilizationBps then do
      let product ← okOr (checkBits 128 (utilizationBps.toNat * model.slope1Bps.toNat))
        (.error .overflow)
      let scaled ← okOr (checkedQuotient product optimal) (.error .overflow)
      okOr (checkBits 128 (base + scaled)) (.error .overflow)
    else do
      let excess := utilizationBps.toNat - optimal
      let product ← okOr (checkBits 128 (excess * model.slope2Bps.toNat)) (.error .overflow)
      let steep ← okOr (checkedQuotient product (bps - optimal)) (.error .overflow)
      let gentle ← okOr (checkBits 128 (base + model.slope1Bps.toNat)) (.error .overflow)
      okOr (checkBits 128 (gentle + steep)) (.error .overflow)
  okOr (tryU32 rate) (.error .overflow)

section Calls

variable {here : Address} (env : Env here)

def setUp (admin : Address) (model : RateModel) (s : RateBook) :
    Except (Abort ModelError) RateBook := do
  failIf (s.admin.isSome = true) (.error .alreadyInitialized)
  validateModel model
  hostCall (env.requireAuth admin)
  pure ⟨some admin, some model⟩

def setModel (caller : Address) (model : RateModel) (s : RateBook) :
    Except (Abort ModelError) RateBook := do
  let admin ← okOr s.admin (.error .notInitialized)
  failIf (caller ≠ admin) (.error .notAdmin)
  hostCall (env.requireAuth caller)
  validateModel model
  pure { s with model := some model }

end Calls

def rateForUtilization (utilizationBps : UInt32) (s : RateBook) :
    Except (Abort ModelError) UInt32 := do
  let model ← okOr s.model (.error .notInitialized)
  borrowRate utilizationBps model

def borrowRateForPool (totalDebt totalCollateral : ℤ) (s : RateBook) :
    Except (Abort ModelError) UInt32 := do
  let model ← okOr s.model (.error .notInitialized)
  let utilization ← utilizationRate totalDebt totalCollateral
  borrowRate utilization model

inductive RateCall
  | setUp (admin : Address) (model : RateModel)
  | setModel (caller : Address) (model : RateModel)
  deriving DecidableEq

abbrev RateStep (here : Address) := Env here × RateCall

def rateStep {here : Address} (i : RateStep here) (s : RateBook) :
    Except (Abort ModelError) RateBook :=
  match i.2 with
  | .setUp admin model => setUp i.1 admin model s
  | .setModel caller model => setModel i.1 caller model s

/-! ## The curve -/

/-- The rate as a curve over the exact utilization. -/
def RateModel.curve (m : RateModel) (u : ℚ) : ℚ :=
  kinked (m.baseRateBps.toNat : ℚ) m.optimalUtilizationBps.toNat bps m.slope1Bps.toNat
    m.slope2Bps.toNat u

/-- The steeper of the two slopes, for one basis point of utilization. -/
def RateModel.steepest (m : RateModel) : ℚ :=
  max ((m.slope1Bps.toNat : ℚ) / m.optimalUtilizationBps.toNat)
    ((m.slope2Bps.toNat : ℚ) / (bps - m.optimalUtilizationBps.toNat))

/-- The kink lies strictly between nothing and everything. -/
def RateModel.Valid (m : RateModel) : Prop :=
  0 < m.optimalUtilizationBps.toNat ∧ m.optimalUtilizationBps.toNat < bps

section Spec

variable {m : RateModel} {u r : UInt32} {totalDebt totalCollateral : ℤ}

theorem tryU32_eq_some {x : ℕ} : tryU32 x = some r ↔ r.toNat = x := by
  rw [tryU32]
  split_ifs with h
  · rw [Option.some_inj, ← UInt32.toNat_inj, UInt32.toNat_ofNat_of_lt' h]
    exact eq_comm
  · have hr := r.toNat_lt
    simp only [false_iff]
    omega

theorem checkedQuotient_eq_some {x y q : ℕ} : checkedQuotient x y = some q ↔ y ≠ 0 ∧ x / y = q := by
  rw [checkedQuotient]
  split_ifs with h <;> simp [h]

theorem validateModel_eq_ok {v : Unit} : validateModel m = .ok v ↔ m.Valid := by
  simp only [validateModel, failIf_eq_ok, not_or, not_le, RateModel.Valid, Nat.pos_iff_ne_zero,
    ne_eq, ← UInt32.toNat_inj, UInt32.toNat_zero]

theorem mul_lt {x y : UInt32} : x.toNat * y.toNat < 2 ^ 64 := by
  have hx := x.toNat_lt
  have hy := y.toNat_lt
  calc x.toNat * y.toNat < 2 ^ 32 * 2 ^ 32 := Nat.mul_lt_mul'' hx hy
    _ = 2 ^ 64 := by norm_num

/-- No sum and no product leaves 128 bits, so that only the rate itself can be too large. -/
theorem borrowRate_eq_ok : borrowRate u m = .ok r ↔ m.Valid ∧ r.toNat = ⌊m.curve u.toNat⌋₊ := by
  simp only [borrowRate, bind_eq_ok, validateModel_eq_ok, exists_const]
  refine and_congr_right fun hm => ?_
  rw [RateModel.curve, floor_kinked hm.2]
  have hbase := m.baseRateBps.toNat_lt
  have hslope := m.slope1Bps.toNat_lt
  have hdivisor : bps - m.optimalUtilizationBps.toNat ≠ 0 := Nat.sub_ne_zero_of_lt hm.2
  simp only [UInt32.le_iff_toNat_le]
  split_ifs with hu
  · have hproduct := mul_lt (x := u) (y := m.slope1Bps)
    have hquotient := Nat.div_le_self (u.toNat * m.slope1Bps.toNat) m.optimalUtilizationBps.toNat
    simp only [bind_eq_ok, okOr_eq_ok, checkBits_eq_some, checkedQuotient_eq_some,
      tryU32_eq_some]
    constructor
    · rintro ⟨_, ⟨_, rfl⟩, _, ⟨_, rfl⟩, _, ⟨_, rfl⟩, hr⟩
      exact hr
    · intro hr
      exact ⟨_, ⟨by omega, rfl⟩, _, ⟨hm.1.ne', rfl⟩, _, ⟨by omega, rfl⟩, hr⟩
  · have hproduct : (u.toNat - m.optimalUtilizationBps.toNat) * m.slope2Bps.toNat < 2 ^ 64 :=
      (Nat.mul_le_mul_right _ (Nat.sub_le _ _)).trans_lt mul_lt
    have hquotient := Nat.div_le_self
      ((u.toNat - m.optimalUtilizationBps.toNat) * m.slope2Bps.toNat)
      (bps - m.optimalUtilizationBps.toNat)
    simp only [bind_eq_ok, okOr_eq_ok, checkBits_eq_some, checkedQuotient_eq_some,
      tryU32_eq_some]
    constructor
    · rintro ⟨_, ⟨_, rfl⟩, _, ⟨_, rfl⟩, _, ⟨_, rfl⟩, _, ⟨_, rfl⟩, hr⟩
      exact hr
    · intro hr
      exact ⟨_, ⟨by omega, rfl⟩, _, ⟨hdivisor, rfl⟩, _, ⟨by omega, rfl⟩, _, ⟨by omega, rfl⟩, hr⟩

/-- The utilization that is reported, in whole basis points. -/
def utilizationOf (totalDebt totalCollateral : ℤ) : ℕ :=
  if totalCollateral = 0 then if totalDebt = 0 then 0 else bps
  else totalDebt.toNat * bps / totalCollateral.toNat

theorem utilizationRate_eq_ok : utilizationRate totalDebt totalCollateral = .ok u ↔
    0 ≤ totalDebt ∧ 0 ≤ totalCollateral ∧
      (totalCollateral ≠ 0 → totalDebt.toNat * bps < 2 ^ 128) ∧
      u.toNat = utilizationOf totalDebt totalCollateral := by
  simp only [utilizationRate, bind_eq_ok, failIf_eq_ok, exists_const, not_or, not_lt, and_assoc]
  refine and_congr_right fun hdebt => and_congr_right fun hcollateral => ?_
  rw [utilizationOf]
  split_ifs with hzero hnone
  · rw [pure_eq_ok, ← UInt32.toNat_inj, eq_comm]
    simp [hzero]
  · rw [pure_eq_ok, ← UInt32.toNat_inj, eq_comm]
    simp [hzero, bps]
  · have hpos : totalCollateral.toNat ≠ 0 := by omega
    simp only [bind_eq_ok, okOr_eq_ok, checkBits_eq_some, checkedQuotient_eq_some, tryU32_eq_some]
    constructor
    · rintro ⟨_, ⟨hlt, rfl⟩, _, ⟨_, rfl⟩, hu⟩
      exact ⟨fun _ => hlt, hu⟩
    · rintro ⟨hlt, hu⟩
      exact ⟨_, ⟨hlt hzero, rfl⟩, _, ⟨hpos, rfl⟩, hu⟩

theorem borrowRateForPool_eq_ok {s : RateBook} :
    borrowRateForPool totalDebt totalCollateral s = .ok r ↔
      ∃ m, s.model = some m ∧ m.Valid ∧ 0 ≤ totalDebt ∧ 0 ≤ totalCollateral ∧
        (totalCollateral ≠ 0 → totalDebt.toNat * bps < 2 ^ 128) ∧
        utilizationOf totalDebt totalCollateral < 2 ^ 32 ∧
        r.toNat = ⌊m.curve (utilizationOf totalDebt totalCollateral)⌋₊ := by
  simp only [borrowRateForPool, bind_eq_ok, okOr_eq_ok, utilizationRate_eq_ok, borrowRate_eq_ok]
  constructor
  · rintro ⟨m, hm, u, ⟨hdebt, hcollateral, hlt, hu⟩, hvalid, hr⟩
    rw [← hu]
    exact ⟨m, hm, hvalid, hdebt, hcollateral, hlt, u.toNat_lt, hr⟩
  · rintro ⟨m, hm, hvalid, hdebt, hcollateral, hlt, hsmall, hr⟩
    have hu : (UInt32.ofNat (utilizationOf totalDebt totalCollateral)).toNat =
        utilizationOf totalDebt totalCollateral := UInt32.toNat_ofNat_of_lt' hsmall
    refine ⟨m, hm, _, ⟨hdebt, hcollateral, hlt, hu⟩, hvalid, ?_⟩
    rw [hu]
    exact hr

/-! ## The curve and its rounding -/

theorem RateModel.curve_mono (hm : m.Valid) : Monotone m.curve := by
  intro u v huv
  have hkink : (0 : ℚ) < m.optimalUtilizationBps.toNat := by exact_mod_cast hm.1
  have htop : (m.optimalUtilizationBps.toNat : ℚ) < bps := by exact_mod_cast hm.2
  exact kinked_mono hkink htop (Nat.cast_nonneg _) (Nat.cast_nonneg _) huv

theorem RateModel.curve_nonneg (hm : m.Valid) (n : ℕ) : 0 ≤ m.curve n := by
  have hkink : (0 : ℚ) < m.optimalUtilizationBps.toNat := by exact_mod_cast hm.1
  have hzero : m.curve 0 = m.baseRateBps.toNat := by
    rw [RateModel.curve, kinked, if_pos hkink.le]
    ring
  calc (0 : ℚ) ≤ m.baseRateBps.toNat := Nat.cast_nonneg _
    _ = m.curve 0 := hzero.symm
    _ ≤ m.curve n := m.curve_mono hm (Nat.cast_nonneg n)

theorem RateModel.steepest_nonneg (m : RateModel) : 0 ≤ m.steepest :=
  le_max_of_le_left (by positivity)

/-- A utilization within one basis point moves the rate by no more than the steeper slope. -/
theorem RateModel.curve_le (hm : m.Valid) {n : ℕ} {x : ℚ} (hle : (n : ℚ) ≤ x)
    (hlt : x < n + 1) : m.curve x ≤ m.curve n + m.steepest := by
  have hkink : (0 : ℚ) < m.optimalUtilizationBps.toNat := by exact_mod_cast hm.1
  have hslope : m.curve x - m.curve n ≤ m.steepest * (x - n) := kinked_sub_le hkink hle
  have hone : m.steepest * (x - n) ≤ m.steepest * 1 :=
    mul_le_mul_of_nonneg_left (by linarith) m.steepest_nonneg
  linarith

/-- The reported utilization is the exact one, rounded down. -/
theorem utilizationOf_bounds (hdebt : 0 ≤ totalDebt) (hcollateral : 0 < totalCollateral) :
    (utilizationOf totalDebt totalCollateral : ℚ) ≤ totalDebt * bps / totalCollateral ∧
      (totalDebt * bps / totalCollateral : ℚ) < utilizationOf totalDebt totalCollateral + 1 := by
  have hfloor : utilizationOf totalDebt totalCollateral =
      ⌊(totalDebt * bps / totalCollateral : ℚ)⌋₊ := by
    have hcast := Nat.floor_div_eq_div (K := ℚ) (totalDebt.toNat * bps) totalCollateral.toNat
    rw [utilizationOf, if_neg hcollateral.ne', ← hcast]
    congr 1
    obtain ⟨d, rfl⟩ := Int.eq_ofNat_of_zero_le hdebt
    obtain ⟨c, rfl⟩ := Int.eq_ofNat_of_zero_le hcollateral.le
    push_cast [Int.toNat_natCast]
    rfl
  have hnonneg : (0 : ℚ) ≤ totalDebt * bps / totalCollateral := by
    have hd : (0 : ℚ) ≤ totalDebt := by exact_mod_cast hdebt
    have hc : (0 : ℚ) ≤ totalCollateral := by exact_mod_cast hcollateral.le
    positivity
  rw [hfloor]
  exact ⟨Nat.floor_le hnonneg, Nat.lt_floor_add_one _⟩

/-- A pool without collateral counts as fully utilized, whatever it owes. -/
theorem utilizationOf_le {debt debt' collateral collateral' : ℤ} (h0 : 0 ≤ debt)
    (hdebt : debt ≤ debt') (h0' : 0 ≤ collateral') (hcollateral : collateral' ≤ collateral)
    (hcovered : 0 < collateral' ∨ collateral = 0 ∨ debt ≤ collateral) :
    utilizationOf debt collateral ≤ utilizationOf debt' collateral' := by
  by_cases hpos : 0 < collateral'
  · rw [utilizationOf, utilizationOf, if_neg (by omega), if_neg hpos.ne']
    apply Nat.div_le_div
    · exact Nat.mul_le_mul_right _ (Int.toNat_le_toNat hdebt)
    · exact Int.toNat_le_toNat hcollateral
    · omega
  · obtain rfl : collateral' = 0 := by omega
    by_cases hnone : debt = 0
    · simp [utilizationOf, hnone]
    · have hfull : utilizationOf debt' 0 = bps := by
        rw [utilizationOf, if_pos rfl, if_neg (by omega)]
      rw [hfull, utilizationOf]
      split_ifs with hzero
      · exact le_rfl
      · apply Nat.div_le_of_le_mul
        apply Nat.mul_le_mul_right
        omega

theorem le_utilizationOf {debt debt' collateral : ℤ} (hdebt : debt ≤ debt')
    (hpos : 0 < collateral) (hle : collateral ≤ debt) :
    utilizationOf debt' 0 ≤ utilizationOf debt collateral := by
  rw [utilizationOf, utilizationOf, if_pos rfl, if_neg (by omega), if_neg hpos.ne',
    Nat.le_div_iff_mul_le (by omega), Nat.mul_comm]
  exact Nat.mul_le_mul_right _ (Int.toNat_le_toNat hle)

end Spec

theorem setUp_valid {here : Address} (run : List (RateStep here)) {m : RateModel}
    (h : (runAll rateStep .empty run).model = some m) : m.Valid := by
  refine runAll_induction (P := fun s : RateBook => ∀ m, s.model = some m → m.Valid)
    (fun s i s' _ hstep m hm => ?_) (fun m hm => by cases hm) run m h
  obtain ⟨env, call⟩ := i
  cases call with
  | setUp admin model =>
    simp only [rateStep, setUp, bind_eq_ok, validateModel_eq_ok, pure_eq_ok] at hstep
    obtain ⟨_, _, _, hvalid, _, _, rfl⟩ := hstep
    exact Option.some_inj.mp hm ▸ hvalid
  | setModel caller model =>
    simp only [rateStep, setModel, bind_eq_ok, validateModel_eq_ok, pure_eq_ok] at hstep
    obtain ⟨_, _, _, _, _, _, _, hvalid, rfl⟩ := hstep
    exact Option.some_inj.mp hm ▸ hvalid

/-- Whatever model is in force, a pool with collateral has a rate unless a number gets too large.
The rate is never above the curve at the exact utilization, and below it by less than a basis
point and what the steeper slope makes of one basis point of utilization. -/
theorem pool_rate_tracks_curve {here : Address} {run : List (RateStep here)} {m : RateModel}
    (hm : (runAll rateStep .empty run).model = some m) {totalDebt totalCollateral : ℤ}
    (hdebt : 0 ≤ totalDebt) (hcollateral : 0 < totalCollateral) :
    ((∃ r, borrowRateForPool totalDebt totalCollateral (runAll rateStep .empty run) = .ok r) ↔
      totalDebt.toNat * bps < 2 ^ 128 ∧ utilizationOf totalDebt totalCollateral < 2 ^ 32 ∧
        ⌊m.curve (utilizationOf totalDebt totalCollateral)⌋₊ < 2 ^ 32) ∧
    ∀ r, borrowRateForPool totalDebt totalCollateral (runAll rateStep .empty run) = .ok r →
      (r.toNat : ℚ) ≤ m.curve (totalDebt * bps / totalCollateral) ∧
      m.curve (totalDebt * bps / totalCollateral) < r.toNat + 1 + m.steepest := by
  have hvalid := setUp_valid run hm
  constructor
  · constructor
    · rintro ⟨r, h⟩
      obtain ⟨m', hm', -, -, -, hlt, hsmall, hr⟩ := borrowRateForPool_eq_ok.mp h
      obtain rfl := Option.some_inj.mp (hm.symm.trans hm')
      exact ⟨hlt hcollateral.ne', hsmall, hr ▸ r.toNat_lt⟩
    · rintro ⟨hlt, hsmall, hfits⟩
      exact ⟨_, borrowRateForPool_eq_ok.mpr ⟨m, hm, hvalid, hdebt, hcollateral.le, fun _ => hlt,
        hsmall, UInt32.toNat_ofNat_of_lt' hfits⟩⟩
  · intro r h
    obtain ⟨m', hm', -, -, -, -, -, hr⟩ := borrowRateForPool_eq_ok.mp h
    obtain rfl := Option.some_inj.mp (hm.symm.trans hm')
    obtain ⟨hle, hlt⟩ := utilizationOf_bounds hdebt hcollateral
    have hfloor := Nat.floor_le (m.curve_nonneg hvalid (utilizationOf totalDebt totalCollateral))
    have hceil := Nat.lt_floor_add_one (m.curve (utilizationOf totalDebt totalCollateral))
    rw [← hr] at hfloor hceil
    refine ⟨hfloor.trans (m.curve_mono hvalid hle), ?_⟩
    have hslope := m.curve_le hvalid hle hlt
    linarith

/-- With more debt and less collateral the rate does not fall, as long as some collateral is left
or the debt was covered. When the last collateral of an uncovered debt goes, it does not rise. -/
theorem pool_rate_mono {s : RateBook} {debt debt' collateral collateral' : ℤ} {r r' : UInt32}
    (h : borrowRateForPool debt collateral s = .ok r)
    (h' : borrowRateForPool debt' collateral' s = .ok r') (hdebt : debt ≤ debt')
    (hcollateral : collateral' ≤ collateral) :
    (0 < collateral' ∨ collateral = 0 ∨ debt ≤ collateral → r ≤ r') ∧
      (collateral' = 0 → 0 < collateral → collateral ≤ debt → r' ≤ r) := by
  obtain ⟨m, hm, hvalid, h0, -, -, -, hr⟩ := borrowRateForPool_eq_ok.mp h
  obtain ⟨m', hm', -, -, h0', -, -, hr'⟩ := borrowRateForPool_eq_ok.mp h'
  obtain rfl := Option.some_inj.mp (hm.symm.trans hm')
  have hfloor : ∀ {n n' : ℕ}, n ≤ n' → ⌊m.curve n⌋₊ ≤ ⌊m.curve n'⌋₊ := by
    intro n n' hn
    exact Nat.floor_mono (m.curve_mono hvalid (by exact_mod_cast hn))
  rw [UInt32.le_iff_toNat_le, UInt32.le_iff_toNat_le, hr, hr']
  constructor
  · intro hcovered
    exact hfloor (utilizationOf_le h0 hdebt h0' hcollateral hcovered)
  · rintro rfl hpos hle
    exact hfloor (le_utilizationOf hdebt hpos hle)

section Sample

def sampleModel : RateModel := ⟨200, 8000, 1000, 5000⟩

def modelRun : List (RateStep ⟨0⟩) := [(Env.standard ⟨0⟩ 10 none, .setUp ⟨1⟩ sampleModel)]

/-- A pool that lends out a third of its collateral. -/
theorem modelRun_tracks_curve :
    ((∃ r, borrowRateForPool 1 3 (runAll rateStep .empty modelRun) = .ok r) ↔
      (1 : ℤ).toNat * bps < 2 ^ 128 ∧ utilizationOf 1 3 < 2 ^ 32 ∧
        ⌊sampleModel.curve (utilizationOf 1 3)⌋₊ < 2 ^ 32) ∧
    ∀ r, borrowRateForPool 1 3 (runAll rateStep .empty modelRun) = .ok r →
      (r.toNat : ℚ) ≤ sampleModel.curve ((1 : ℤ) * bps / (3 : ℤ)) ∧
      sampleModel.curve ((1 : ℤ) * bps / (3 : ℤ)) < r.toNat + 1 + sampleModel.steepest :=
  pool_rate_tracks_curve (show (runAll rateStep .empty modelRun).model = some sampleModel by
    decide) (by decide) (by decide)

/-- Two units owed against one cost more than against none. -/
theorem modelRun_mono :
    (0 < (0 : ℤ) ∨ (1 : ℤ) = 0 ∨ (2 : ℤ) ≤ 1 → (31200 : UInt32) ≤ 6200) ∧
      ((0 : ℤ) = 0 → 0 < (1 : ℤ) → (1 : ℤ) ≤ 2 → (6200 : UInt32) ≤ 31200) :=
  pool_rate_mono (s := runAll rateStep .empty modelRun)
    (show borrowRateForPool 2 1 _ = .ok 31200 by decide +kernel)
    (show borrowRateForPool 2 0 _ = .ok 6200 by decide +kernel) le_rfl (by decide)

end Sample

end StellarFlow.Vaults.BorrowRate
