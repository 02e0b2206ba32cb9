import StellarFlow.Host

/-!
# Liquidation and deleveraging of vault positions

A position is liquidated below a threshold of its health factor, which is its collateral in
basis points of its debt. Below a second threshold collateral is converted to pay debt off, for
a small fee on the swap. All amounts are unsigned values of 128 bits.
-/
namespace StellarFlow.Vaults.Liquidation

open Foundation

def bpsDenominator : ℕ := 10000
def defaultLiquidationThresholdBps : ℕ := 11000
def liquidatorBonusBps : ℕ := 500
def maxLiquidatorDegradationBps : ℕ := 2000
def maxTotalLiquidatorBps : ℕ := 5000
def distressedThresholdBps : ℕ := 10500
def discountedSwapFeeBps : ℕ := 10

/-- The largest health factor, that of a position without debt. -/
def maxHealth : ℕ := 2 ^ 128 - 1

structure VaultPosition where
  owner : Address
  collateralValue : ℕ
  /-- Zero stands for the default. -/
  liquidationThresholdBps : ℕ
  borrowedValue : ℕ
  deriving DecidableEq, Repr

structure LiquidationResult where
  liquidated : Bool
  healthFactor : ℕ
  liquidatorReward : ℕ
  protocolReserve : ℕ
  deriving DecidableEq, Repr

structure AutoDeleverageResult where
  deleveraged : Bool
  initialHealthFactor : ℕ
  updatedHealthFactor : ℕ
  collateralConverted : ℕ
  debtCleared : ℕ
  feeAppliedBps : ℕ
  remainingCollateralValue : ℕ
  remainingBorrowedValue : ℕ
  deriving DecidableEq, Repr

structure VaultDeleveragedEvent where
  owner : Address
  initialHealthFactor : ℕ
  updatedHealthFactor : ℕ
  collateralConverted : ℕ
  debtCleared : ℕ
  deriving DecidableEq, Repr

/-- An accepted deleveraging: its result, the position after it and the event it emits. -/
structure Deleveraging where
  result : AutoDeleverageResult
  position : VaultPosition
  event : Option VaultDeleveragedEvent
  deriving DecidableEq, Repr

/-! ## The source -/

def healthFactor (position : VaultPosition) : Except Fault ℕ :=
  if position.borrowedValue = 0 then pure maxHealth
  else do
    let scaled ← okOr (checkBits 128 (position.collateralValue * bpsDenominator))
      (Fault.error .mathOverflow)
    pure (scaled / position.borrowedValue)

def threshold (position : VaultPosition) : ℕ :=
  if position.liquidationThresholdBps = 0 then defaultLiquidationThresholdBps
  else position.liquidationThresholdBps

/-- The bonus grows as the position degrades, up to a ceiling. -/
def scaledLiquidatorBonusBps (healthFactorBps : ℕ) : ℕ :=
  let degraded :=
    if bpsDenominator ≤ healthFactorBps then 0
    else (bpsDenominator - healthFactorBps) * maxLiquidatorDegradationBps / bpsDenominator
  min (liquidatorBonusBps + degraded) maxTotalLiquidatorBps

def liquidate (position : VaultPosition) (purchaseCollateral : ℕ) :
    Except Fault LiquidationResult := do
  let hf ← healthFactor position
  if threshold position ≤ hf then
    pure ⟨false, hf, 0, 0⟩
  else
    let product ← okOr (checkBits 128 (purchaseCollateral * scaledLiquidatorBonusBps hf))
      (Fault.error .mathOverflow)
    let reward := product / bpsDenominator
    let protocolReserve ← okOr (checkedSub purchaseCollateral reward) (Fault.error .mathOverflow)
    pure ⟨true, hf, reward, protocolReserve⟩

/-- A liquidation splits exactly the confiscated collateral, and a refused one moves nothing. -/
def conservesCollateral (result : LiquidationResult) (purchaseCollateral : ℕ) : Bool :=
  if result.liquidated = false then
    result.liquidatorReward == 0 && result.protocolReserve == 0
  else
    match checkBits 128 (result.liquidatorReward + result.protocolReserve) with
    | some sum => sum == purchaseCollateral
    | none => false

/-- The collateral that a target asks to convert; without a target all of it. -/
def collateralToConvert (position : VaultPosition) (target : ℕ) : ℕ :=
  if 0 < target then min target position.collateralValue else position.collateralValue

/-- What a conversion yields after the fee. -/
def netProceeds (converted : ℕ) : ℕ :=
  converted - converted * discountedSwapFeeBps / bpsDenominator

/-- The collateral that the cleared debt takes: all of it when the proceeds are used up. -/
def collateralFor (toConvert net debtCleared : ℕ) : Except Fault ℕ :=
  if debtCleared = net then pure toConvert
  else do
    let scaled ← okOr (checkBits 128 (debtCleared * bpsDenominator)) (Fault.error .mathOverflow)
    pure (scaled / (bpsDenominator - discountedSwapFeeBps))

def autoDeleverage (position : VaultPosition) (collateralConversionTarget : ℕ) :
    Except Fault Deleveraging := do
  let initialHf ← healthFactor position
  if distressedThresholdBps ≤ initialHf ∨ position.borrowedValue = 0 then
    pure {
      result := {
        deleveraged := false, initialHealthFactor := initialHf, updatedHealthFactor := initialHf
        collateralConverted := 0, debtCleared := 0, feeAppliedBps := 0
        remainingCollateralValue := position.collateralValue
        remainingBorrowedValue := position.borrowedValue }
      position, event := none }
  else
    let toConvert := collateralToConvert position collateralConversionTarget
    let feeProduct ← okOr (checkBits 128 (toConvert * discountedSwapFeeBps))
      (Fault.error .mathOverflow)
    let net ← okOr (checkedSub toConvert (feeProduct / bpsDenominator)) (Fault.error .mathOverflow)
    let debtCleared := min net position.borrowedValue
    let grossed ← collateralFor toConvert net debtCleared
    let converted := min grossed position.collateralValue
    let collateralValue ← okOr (checkedSub position.collateralValue converted)
      (Fault.error .mathOverflow)
    let borrowedValue ← okOr (checkedSub position.borrowedValue debtCleared)
      (Fault.error .mathOverflow)
    let updated := { position with collateralValue, borrowedValue }
    let updatedHf ← healthFactor updated
    pure {
      result := {
        deleveraged := true, initialHealthFactor := initialHf, updatedHealthFactor := updatedHf
        collateralConverted := converted, debtCleared, feeAppliedBps := discountedSwapFeeBps
        remainingCollateralValue := collateralValue, remainingBorrowedValue := borrowedValue }
      position := updated
      event := some ⟨position.owner, initialHf, updatedHf, converted, debtCleared⟩ }

/-! ## Health factors -/

section Health

variable {position : VaultPosition} {hf purchaseCollateral : ℕ} {result : LiquidationResult}

theorem healthFactor_eq_ok :
    healthFactor position = .ok hf ↔
      position.borrowedValue = 0 ∧ hf = maxHealth ∨
        position.borrowedValue ≠ 0 ∧ position.collateralValue * bpsDenominator < 2 ^ 128 ∧
          hf = position.collateralValue * bpsDenominator / position.borrowedValue := by
  unfold healthFactor
  split_ifs with hzero
  · rw [pure_eq_ok]
    simp [hzero, eq_comm]
  · simp only [bind_eq_ok, okOr_eq_ok, checkBits_eq_some, pure_eq_ok, hzero, false_and, false_or,
      ne_eq, not_false_eq_true, true_and]
    constructor
    · rintro ⟨_, ⟨hfits, rfl⟩, rfl⟩
      exact ⟨hfits, rfl⟩
    · rintro ⟨hfits, rfl⟩
      exact ⟨_, ⟨hfits, rfl⟩, rfl⟩

/-- The reward and the reserve of a liquidation add up to the confiscated collateral. -/
theorem liquidate_conserves (hfits : purchaseCollateral < 2 ^ 128)
    (h : liquidate position purchaseCollateral = .ok result) :
    conservesCollateral result purchaseCollateral = true := by
  simp only [liquidate, bind_eq_ok] at h
  obtain ⟨hf, _, h⟩ := h
  split_ifs at h with hhealthy
  · obtain rfl := pure_eq_ok.mp h
    simp [conservesCollateral]
  · simp only [bind_eq_ok, okOr_eq_ok, checkBits_eq_some, checkedSub_eq_some, pure_eq_ok] at h
    obtain ⟨_, ⟨_, rfl⟩, reserve, ⟨hle, rfl⟩, rfl⟩ := h
    simp [conservesCollateral, Nat.add_sub_cancel' hle, checkBits_eq_some.mpr ⟨hfits, rfl⟩]

end Health

/-! ## Deleveraging -/

section Deleverage

variable {position : VaultPosition} {target collateral debt : ℕ} {d : Deleveraging}

/-- The collateral that is taken: all that was asked for, or what clears the whole debt. -/
def convertedCollateral (position : VaultPosition) (target : ℕ) : ℕ :=
  if netProceeds (collateralToConvert position target) ≤ position.borrowedValue then
    collateralToConvert position target
  else position.borrowedValue * bpsDenominator / (bpsDenominator - discountedSwapFeeBps)

/-- What the holder of a position may expect of a deleveraging. -/
structure HelpsAndConserves (position : VaultPosition) (d : Deleveraging) : Prop where
  healthier : d.result.initialHealthFactor ≤ d.result.updatedHealthFactor
  cleared_le : d.result.debtCleared ≤ netProceeds d.result.collateralConverted
  collateral :
    d.position.collateralValue + d.result.collateralConverted = position.collateralValue
  debt : d.position.borrowedValue + d.result.debtCleared = position.borrowedValue

/-- The proceeds clear the whole debt, or the converted collateral is worth no more than what
the position loses in debt at its own health factor. The remainder is the part of the collateral
that the health factor does not count. -/
def KeepsHealth (position : VaultPosition) (target : ℕ) : Prop :=
  let converted := collateralToConvert position target
  let scaled := position.collateralValue * bpsDenominator
  position.borrowedValue ≤ netProceeds converted ∨
    converted * bpsDenominator ≤
      scaled / position.borrowedValue * netProceeds converted + scaled % position.borrowedValue

instance : Decidable (KeepsHealth position target) := inferInstanceAs (Decidable (_ ∨ _))

theorem collateralToConvert_le :
    collateralToConvert position target ≤ position.collateralValue := by
  unfold collateralToConvert
  split_ifs
  · exact min_le_right _ _
  · exact le_rfl

/-- Dividing by the fee's complement and taking the fee off again gives the debt back. -/
theorem netProceeds_grossed (debt : ℕ) :
    netProceeds (debt * bpsDenominator / (bpsDenominator - discountedSwapFeeBps)) = debt := by
  simp only [netProceeds, bpsDenominator, discountedSwapFeeBps]
  omega

theorem netProceeds_mono {c c' : ℕ} (h : c ≤ c') : netProceeds c ≤ netProceeds c' := by
  simp only [netProceeds, bpsDenominator, discountedSwapFeeBps]
  omega

theorem convertedCollateral_le :
    convertedCollateral position target ≤ position.collateralValue := by
  unfold convertedCollateral
  split_ifs with hle
  · exact collateralToConvert_le
  · by_contra hlt
    have hasked : collateralToConvert position target ≤ position.collateralValue :=
      collateralToConvert_le
    have hmono := netProceeds_mono (hasked.trans (not_le.mp hlt).le)
    rw [netProceeds_grossed] at hmono
    exact hle hmono

theorem netProceeds_convertedCollateral :
    netProceeds (convertedCollateral position target) =
      min (netProceeds (collateralToConvert position target)) position.borrowedValue := by
  unfold convertedCollateral
  split_ifs with hle
  · exact (min_eq_left hle).symm
  · rw [netProceeds_grossed, min_eq_right (not_le.mp hle).le]

theorem collateralFor_eq_ok {grossed : ℕ}
    (h : collateralFor (collateralToConvert position target)
      (netProceeds (collateralToConvert position target))
      (min (netProceeds (collateralToConvert position target)) position.borrowedValue) =
        .ok grossed) : grossed = convertedCollateral position target := by
  unfold collateralFor at h
  unfold convertedCollateral
  split_ifs at h with hall
  · rw [if_pos (min_eq_left_iff.mp hall)]
    exact (pure_eq_ok.mp h).symm
  · have hlt : ¬ netProceeds (collateralToConvert position target) ≤ position.borrowedValue :=
      fun hle => hall (min_eq_left hle)
    simp only [bind_eq_ok, okOr_eq_ok, checkBits_eq_some, pure_eq_ok] at h
    obtain ⟨_, ⟨_, rfl⟩, rfl⟩ := h
    rw [if_neg hlt, min_eq_right (not_le.mp hlt).le]

/-- What an accepted deleveraging does. -/
theorem autoDeleverage_eq_ok (h : autoDeleverage position target = .ok d)
    (hd : d.result.deleveraged = true) :
    position.borrowedValue ≠ 0 ∧
      d.result.initialHealthFactor =
        position.collateralValue * bpsDenominator / position.borrowedValue ∧
      d.result.initialHealthFactor < distressedThresholdBps ∧
      d.result.collateralConverted = convertedCollateral position target ∧
      d.result.debtCleared = netProceeds (convertedCollateral position target) ∧
      d.position = { position with
        collateralValue := position.collateralValue - d.result.collateralConverted
        borrowedValue := position.borrowedValue - d.result.debtCleared } ∧
      healthFactor d.position = .ok d.result.updatedHealthFactor := by
  simp only [autoDeleverage, bind_eq_ok] at h
  obtain ⟨hf, hhealth, h⟩ := h
  split_ifs at h with hhealthy
  · obtain rfl := pure_eq_ok.mp h
    cases hd
  · obtain ⟨hlow, hzero⟩ := not_or.mp hhealthy
    obtain ⟨habs, _⟩ | ⟨_, _, rfl⟩ := healthFactor_eq_ok.mp hhealth
    · exact absurd habs hzero
    simp only [bind_eq_ok, okOr_eq_ok, checkBits_eq_some, checkedSub_eq_some, pure_eq_ok] at h
    obtain ⟨_, ⟨_, rfl⟩, _, ⟨_, rfl⟩, grossed, hgross, _, ⟨_, rfl⟩, _, ⟨_, rfl⟩, updatedHf,
      hupdated, rfl⟩ := h
    have hconverted : min grossed position.collateralValue =
        convertedCollateral position target := by
      rw [collateralFor_eq_ok hgross]
      exact min_eq_left convertedCollateral_le
    refine ⟨hzero, rfl, not_le.mp hlow, hconverted, ?_, rfl, hupdated⟩
    exact netProceeds_convertedCollateral.symm

/-- With debt left, the health factor does not fall exactly when the converted collateral is
worth no more than the debt it clears at that factor. -/
theorem health_le_iff {collateral debt converted net : ℕ} (hc : converted ≤ collateral)
    (hn : net < debt) :
    collateral * bpsDenominator / debt ≤ (collateral - converted) * bpsDenominator / (debt - net) ↔
      converted * bpsDenominator ≤
        collateral * bpsDenominator / debt * net + collateral * bpsDenominator % debt := by
  have hsplit := Nat.div_add_mod' (collateral * bpsDenominator) debt
  have hmul : converted * bpsDenominator ≤ collateral * bpsDenominator :=
    Nat.mul_le_mul_right _ hc
  generalize collateral * bpsDenominator / debt = hf at *
  have hdebt : hf * (debt - net) + hf * net = hf * debt := by
    rw [← Nat.mul_add, Nat.sub_add_cancel hn.le]
  rw [Nat.le_div_iff_mul_le (by omega), Nat.sub_mul]
  omega

/-- A deleveraging conserves collateral and debt, and it helps exactly where the converted
collateral clears the whole debt or is worth no more than the debt it clears. -/
theorem helpsAndConserves_iff (h : autoDeleverage position target = .ok d)
    (hd : d.result.deleveraged = true) :
    HelpsAndConserves position d ↔ KeepsHealth position target := by
  obtain ⟨hzero, hinitial, hlow, hconverted, hcleared, hposition, hupdated⟩ :=
    autoDeleverage_eq_ok h hd
  have hle : convertedCollateral position target ≤ position.collateralValue :=
    convertedCollateral_le
  have hnet : netProceeds (convertedCollateral position target) =
      min (netProceeds (collateralToConvert position target)) position.borrowedValue :=
    netProceeds_convertedCollateral
  have hhealth : HelpsAndConserves position d ↔
      d.result.initialHealthFactor ≤ d.result.updatedHealthFactor := by
    refine ⟨HelpsAndConserves.healthier, fun hup => ⟨hup, ?_, ?_, ?_⟩⟩
    · rw [hcleared, hconverted]
    · rw [hposition, hconverted]
      exact Nat.sub_add_cancel hle
    · rw [hposition, hcleared, hnet]
      exact Nat.sub_add_cancel (min_le_right _ _)
  rw [hhealth, KeepsHealth]
  rw [hposition, hconverted, hcleared] at hupdated
  obtain ⟨hpaid, hmax⟩ | ⟨hleft, _, hvalue⟩ := healthFactor_eq_ok.mp hupdated
  · have hall : position.borrowedValue ≤ netProceeds (collateralToConvert position target) := by
      simp only [hnet] at hpaid
      omega
    refine iff_of_true ?_ (.inl hall)
    rw [hmax]
    exact hlow.le.trans (by decide)
  · have hpart : netProceeds (collateralToConvert position target) < position.borrowedValue := by
      simp only [hnet] at hleft
      omega
    have hasked : convertedCollateral position target = collateralToConvert position target :=
      if_pos hpart.le
    rw [hinitial, hvalue, hasked]
    simp only [hpart.not_ge, false_or]
    exact health_le_iff collateralToConvert_le hpart

/-- A position at the given percentage of a debt of 100. -/
def samplePosition (collateralValue : ℕ) : VaultPosition := ⟨⟨1⟩, collateralValue, 11000, 100⟩

/-- The conversion of 50 units of such a position. -/
def sampleDeleveraging (collateralValue initialHf updatedHf : ℕ) : Deleveraging where
  result := ⟨true, initialHf, updatedHf, 50, 50, 10, collateralValue - 50, 50⟩
  position := ⟨⟨1⟩, collateralValue - 50, 11000, 50⟩
  event := some ⟨⟨1⟩, initialHf, updatedHf, 50, 50⟩

theorem helpsAndConserves_sample :
    autoDeleverage (samplePosition 104) 50 = .ok (sampleDeleveraging 104 10400 10800) ∧
      HelpsAndConserves (samplePosition 104) (sampleDeleveraging 104 10400 10800) := by
  have h : autoDeleverage (samplePosition 104) 50 = .ok (sampleDeleveraging 104 10400 10800) := by
    decide
  exact ⟨h, (helpsAndConserves_iff h rfl).mpr (by decide)⟩

/-- Below par the same conversion takes a position from 90 to 80 percent. -/
theorem autoDeleverage_hurts :
    autoDeleverage (samplePosition 90) 50 = .ok (sampleDeleveraging 90 9000 8000) ∧
      ¬ HelpsAndConserves (samplePosition 90) (sampleDeleveraging 90 9000 8000) :=
  ⟨by decide, fun h => absurd h.healthier (by decide)⟩

end Deleverage

end StellarFlow.Vaults.Liquidation
