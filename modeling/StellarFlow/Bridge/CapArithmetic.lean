import StellarFlow.Bridge.CapGuard
import StellarFlow.Foundation.ShrunkFraction

/-!
# The arithmetic of the collateral cap

Here every product, quotient and sum of the guard is a checked one of its type, so that a result
also says that nothing overflowed on the way. The guard's own mint and burn keep its mirror of the
supply between zero and the collateral, whatever happens to the capacity in between.
-/
namespace StellarFlow.Bridge.CapArithmetic

open Foundation

/-- The ceiling with every operation checked. -/
def allowedSupply (lockedCollateral capacityBps : ℤ) : Except Fault ℤ := do
  failIf (lockedCollateral < 0) (Fault.error .bridgeCapInvalidCollateral)
  failIf (¬ (0 ≤ capacityBps ∧ capacityBps ≤ bpsDenominator))
    (Fault.error .bridgeCapInvalidConfig)
  if lockedCollateral = 0 ∨ capacityBps = 0 then pure 0
  else do
    let whole ← okOr (i128.checkedDiv lockedCollateral bpsDenominator) .trap
    let remainder := lockedCollateral.tmod bpsDenominator
    let share ← okOr (i128.check (whole * capacityBps)) .trap
    let product ← okOr (i128.check (remainder * capacityBps)) .trap
    let part ← okOr (i128.checkedDiv product bpsDenominator) .trap
    okOr (i128.check (share + part)) .trap

/-- The breach of the cap. An error of the ceiling counts as one, a trap does not come back. -/
def mintExceedsCap (wrappedSupply lockedCollateral capacityBps deltaSupply : ℤ) :
    Except Fault Bool :=
  if wrappedSupply < 0 ∨ lockedCollateral < 0 ∨ deltaSupply < 0 then pure true
  else
    match allowedSupply lockedCollateral capacityBps with
    | .error .trap => .error .trap
    | .error (.error _) => pure true
    | .ok ceiling =>
      match i128.check (wrappedSupply + deltaSupply) with
      | some newSupply => pure (decide (ceiling < newSupply))
      | none => pure true

/-- Utilisation of the ceiling, saturating at the greatest value of its type. -/
def utilisationBpsOf (supply allowed : ℤ) : Except Fault ℤ :=
  if allowed ≤ 0 ∨ supply ≤ 0 then pure 0
  else do
    let whole ← okOr (i128.checkedDiv supply allowed) .trap
    if i64.hi / bpsDenominator < whole then pure i64.hi
    else do
      let bps ← okOr (i128.check (whole * bpsDenominator)) .trap
      let remainder := supply.tmod allowed
      let bps ←
        if 0 < remainder then do
          let shrink ← okOr (i128.check (allowed / i64.hi + 1)) .trap
          let scaled ← okOr (i128.check (remainder / shrink * bpsDenominator)) .trap
          let part ← okOr (i128.checkedDiv scaled (allowed / shrink)) .trap
          okOr (i128.check (bps + part)) .trap
        else pure bps
      pure (if i64.hi < bps then i64.hi else bps)

/-- The snapshot that monitoring reads. -/
structure BridgeCapStatus where
  assetCode : Symbol
  wrappedSupply : ℤ
  lockedCollateral : ℤ
  allowedSupply : ℤ
  headroom : ℤ
  capacityBps : ℤ
  atCap : Bool
  utilisationBps : ℤ
  deriving DecidableEq

section Views

variable (assetCode : Symbol) (g : CapGuard)

def mintCeiling : Except Fault ℤ := do
  let config ← g.requireCapConfig assetCode
  allowedSupply (g.lockedCollateralOf assetCode) config.capacityBps

def mintHeadroom : Except Fault ℤ := do
  let ceiling ← mintCeiling assetCode g
  let headroom ← okOr (i128.check (ceiling - g.wrappedSupplyOf assetCode)) .trap
  pure (max headroom 0)

def bridgeCapStatus : Except Fault BridgeCapStatus := do
  let config ← g.requireCapConfig assetCode
  let supply := g.wrappedSupplyOf assetCode
  let locked := g.lockedCollateralOf assetCode
  let allowed ← allowedSupply locked config.capacityBps
  let headroom ← okOr (i128.check (allowed - supply)) .trap
  let utilisationBps ← utilisationBpsOf supply allowed
  pure ⟨assetCode, supply, locked, allowed, max headroom 0, config.capacityBps,
    decide (allowed ≤ supply), utilisationBps⟩

end Views

/-! ## Exactness -/

section Exact

variable {locked capacityBps supply allowed : ℤ}

theorem okOr_check {x : ℤ} (h : i128.Fits x) (e : Fault) : okOr (i128.check x) e = .ok x := by
  rw [h.check_eq, okOr_some]

/-- What lies between zero and a value of the type is of the type. -/
theorem okOr_check_of_le {x y : ℤ} (h : i128.Fits y) (h0 : 0 ≤ x) (hle : x ≤ y) (e : Fault) :
    okOr (i128.check x) e = .ok x :=
  okOr_check (h.of_abs_le h0 hle) e

/-- The quotient of nonnegative values is exact. -/
theorem okOr_checkedDiv {x y : ℤ} (hx : i128.Fits x) (h0 : 0 ≤ x) (hy : 0 < y) (e : Fault) :
    okOr (i128.checkedDiv x y) e = .ok (x / y) := by
  rw [IntRange.checkedDiv_of_nonneg hx h0 hy, okOr_some]

/-- The ceiling is the exact floor, and no step of it overflows. -/
theorem allowedSupply_eq (hfits : i128.Fits locked) (h0 : 0 ≤ locked) (hlower : 0 ≤ capacityBps)
    (hupper : capacityBps ≤ bpsDenominator) :
    allowedSupply locked capacityBps = .ok (locked * capacityBps / bpsDenominator) := by
  rw [allowedSupply, failIf_of_not (not_lt.mpr h0), ok_bind,
    failIf_of_not (not_not.mpr ⟨hlower, hupper⟩), ok_bind]
  split_ifs with hzero
  · rcases hzero with rfl | rfl <;> simp [pure, Except.pure]
  · have hwhole : 0 ≤ locked / bpsDenominator := Int.ediv_nonneg h0 (by decide)
    have hrem : 0 ≤ locked % bpsDenominator := Int.emod_nonneg _ (by decide)
    have hremlt : locked % bpsDenominator < bpsDenominator := Int.emod_lt_of_pos _ (by decide)
    have hshare : 0 ≤ locked / bpsDenominator * capacityBps := mul_nonneg hwhole hlower
    have hproduct : 0 ≤ locked % bpsDenominator * capacityBps := mul_nonneg hrem hlower
    have hpart : 0 ≤ locked % bpsDenominator * capacityBps / bpsDenominator :=
      Int.ediv_nonneg hproduct (by decide)
    have hsum := split_share locked capacityBps
    have hle : locked * capacityBps / bpsDenominator ≤ locked := share_le h0 hupper
    have hsmall : i128.Fits (locked % bpsDenominator * capacityBps) := by
      have hbig : i128.Fits (bpsDenominator * bpsDenominator) := by decide
      exact hbig.of_abs_le hproduct (mul_le_mul hremlt.le hupper hlower (by decide))
    rw [okOr_checkedDiv hfits h0 (by decide), ok_bind, Int.tmod_eq_emod_of_nonneg h0]
    dsimp only
    rw [okOr_check_of_le hfits hshare (by omega), ok_bind, okOr_check hsmall, ok_bind,
      okOr_checkedDiv hsmall hproduct (by decide), ok_bind,
      okOr_check_of_le hfits (by omega) (by omega), hsum]

/-- The ceiling of the guard is the checked one. -/
theorem allowedSupply_eq_model (hfits : i128.Fits locked) :
    allowedSupply locked capacityBps = Bridge.allowedSupply locked capacityBps := by
  by_cases hneg : locked < 0
  · rw [allowedSupply, Bridge.allowedSupply, failIf, if_pos hneg]
    rfl
  · by_cases hrange : 0 ≤ capacityBps ∧ capacityBps ≤ bpsDenominator
    · rw [allowedSupply_eq hfits (not_lt.mp hneg) hrange.1 hrange.2, Bridge.allowedSupply,
        failIf_of_not hneg, ok_bind, failIf_of_not (not_not.mpr hrange), ok_bind]
      split_ifs with hzero
      · rcases hzero with rfl | rfl <;> simp [pure, Except.pure]
      · exact congrArg Except.ok (split_share locked capacityBps).symm
    · rw [allowedSupply, Bridge.allowedSupply, failIf_of_not hneg, ok_bind, ok_bind, failIf,
        if_pos hrange]
      rfl

/-- A mint stays within the cap exactly when the whole of the new supply fits under the floor. -/
def WithinCap (wrappedSupply lockedCollateral capacityBps deltaSupply : ℤ) : Prop :=
  0 ≤ wrappedSupply ∧ 0 ≤ lockedCollateral ∧ 0 ≤ deltaSupply ∧ 0 ≤ capacityBps ∧
    capacityBps ≤ bpsDenominator ∧
    wrappedSupply + deltaSupply ≤ lockedCollateral * capacityBps / bpsDenominator

instance (s c b d : ℤ) : Decidable (WithinCap s c b d) :=
  inferInstanceAs (Decidable (_ ∧ _ ∧ _ ∧ _ ∧ _ ∧ _))

theorem mintExceedsCap_eq (hfits : i128.Fits locked) (deltaSupply : ℤ) :
    mintExceedsCap supply locked capacityBps deltaSupply =
      .ok (decide ¬ WithinCap supply locked capacityBps deltaSupply) := by
  rw [mintExceedsCap]
  split_ifs with hneg
  · have hbreach : ¬ WithinCap supply locked capacityBps deltaSupply := by
      rintro ⟨hsupply, hlocked, hdelta, -⟩
      omega
    rw [decide_eq_true hbreach]
    rfl
  · obtain ⟨hsupply, hlocked, hdelta⟩ : 0 ≤ supply ∧ 0 ≤ locked ∧ 0 ≤ deltaSupply := by omega
    by_cases hrange : 0 ≤ capacityBps ∧ capacityBps ≤ bpsDenominator
    · rw [allowedSupply_eq hfits hlocked hrange.1 hrange.2]
      have hle : locked * capacityBps / bpsDenominator ≤ locked := share_le hlocked hrange.2
      have hiff : WithinCap supply locked capacityBps deltaSupply ↔
          supply + deltaSupply ≤ locked * capacityBps / bpsDenominator :=
        ⟨fun h => h.2.2.2.2.2, fun h => ⟨hsupply, hlocked, hdelta, hrange.1, hrange.2, h⟩⟩
      by_cases hsum : i128.Fits (supply + deltaSupply)
      · rw [hsum.check_eq]
        simp only [hiff, not_le]
        rfl
      · have hbreach : ¬ WithinCap supply locked capacityBps deltaSupply := fun h =>
          hsum (hfits.of_abs_le (add_nonneg hsupply hdelta) ((hiff.mp h).trans hle))
        rw [IntRange.check, if_neg hsum, decide_eq_true hbreach]
        rfl
    · have hbreach : ¬ WithinCap supply locked capacityBps deltaSupply := fun h =>
        hrange ⟨h.2.2.2.1, h.2.2.2.2.1⟩
      rw [allowedSupply, failIf_of_not (not_lt.mpr hlocked), ok_bind, failIf, if_pos hrange,
        decide_eq_true hbreach]
      rfl

theorem allowedSupply_ne_trap (locked capacityBps : ℤ) :
    Bridge.allowedSupply locked capacityBps ≠ .error .trap := by
  refine bind_ne_error (by simp) fun _ => bind_ne_error (by simp) fun _ => ?_
  split_ifs <;> exact pure_ne_error

/-- The check of the guard is the checked one. -/
theorem mintExceedsCap_eq_model (hfits : i128.Fits locked) (deltaSupply : ℤ) :
    mintExceedsCap supply locked capacityBps deltaSupply =
      .ok (Bridge.mintExceedsCap supply locked capacityBps deltaSupply) := by
  rw [mintExceedsCap, Bridge.mintExceedsCap, allowedSupply_eq_model hfits]
  split_ifs with hneg
  · rfl
  · cases hceiling : Bridge.allowedSupply locked capacityBps with
    | ok ceiling => cases i128.check (supply + deltaSupply) <;> rfl
    | error e =>
      cases e with
      | error e => rfl
      | trap => exact absurd hceiling (allowedSupply_ne_trap locked capacityBps)

end Exact

/-! ## Utilisation -/

section Utilisation

variable {supply allowed : ℤ}

/-- Greatest value of the reported type, as the limit of the shrunk denominators. -/
def utilisationLimit : ℕ := 2 ^ 63 - 1

theorem i64_hi_eq : i64.hi = (utilisationLimit : ℤ) := rfl

/-- The denominator of the remainder is shrunk without an overflow. -/
theorem okOr_check_shrink {den : ℕ} (hden : i128.Fits den) (e : Fault) :
    okOr (i128.check ((den : ℤ) / i64.hi + 1)) e =
      .ok ((shrinkFactor utilisationLimit den : ℕ) : ℤ) := by
  have hcast : (den : ℤ) / i64.hi + 1 = ((shrinkFactor utilisationLimit den : ℕ) : ℤ) := by
    rw [i64_hi_eq, shrinkFactor]
    push_cast
    rfl
  have hquot : (den : ℤ) / i64.hi ≤ i128.hi / i64.hi :=
    Int.ediv_le_ediv (by decide) hden.2
  have hlarge : i128.Fits (i128.hi / i64.hi + 1) := by decide
  have h0 : 0 ≤ (den : ℤ) / i64.hi := Int.ediv_nonneg (Int.natCast_nonneg den) i64.hi_nonneg
  rw [okOr_check (hlarge.of_abs_le (by omega) (by omega)), hcast]

/-- The scaled remainder of the shrunk operands. -/
theorem okOr_scaled {rem den : ℕ} (hrem : rem ≤ den) (hpos : 0 < den) (e : Fault) :
    (do
      let scaled ← okOr (i128.check
        ((rem : ℤ) / (shrinkFactor utilisationLimit den : ℕ) * bpsDenominator)) e
      okOr (i128.checkedDiv scaled ((den : ℤ) / (shrinkFactor utilisationLimit den : ℕ))) e) =
      .ok ((shrunkFraction utilisationLimit 10000 rem den : ℕ) : ℤ) := by
  have hle : rem / shrinkFactor utilisationLimit den ≤ utilisationLimit :=
    (Nat.div_le_div_right hrem).trans (div_shrinkFactor_le (by decide))
  have hdenpos : 0 < den / shrinkFactor utilisationLimit den :=
    div_shrinkFactor_pos (by decide) hpos
  rw [shrunkFraction, ← Int.natCast_ediv, ← Int.natCast_ediv]
  generalize rem / shrinkFactor utilisationLimit den = num at *
  generalize den / shrinkFactor utilisationLimit den = divisor at *
  have hnonneg : 0 ≤ (num : ℤ) * bpsDenominator := mul_nonneg (Int.natCast_nonneg num) (by decide)
  have hscaled : i128.Fits ((num : ℤ) * bpsDenominator) := by
    have hlarge : i128.Fits ((utilisationLimit : ℤ) * bpsDenominator) := by decide
    exact hlarge.of_abs_le hnonneg
      (mul_le_mul_of_nonneg_right (by exact_mod_cast hle) (by decide))
  rw [okOr_check hscaled, ok_bind, okOr_checkedDiv hscaled hnonneg (by exact_mod_cast hdenpos)]
  push_cast
  rfl

/-- The utilisation is always reported. -/
theorem utilisationBpsOf_eq_ok (hsupply : i128.Fits supply) (hallowed : i128.Fits allowed) :
    ∃ bps, utilisationBpsOf supply allowed = .ok bps := by
  rw [utilisationBpsOf]
  split_ifs with hempty
  · exact ⟨0, rfl⟩
  · have hpos : 0 < allowed := by omega
    have h0 : 0 ≤ supply := by omega
    rw [okOr_checkedDiv hsupply h0 hpos, ok_bind]
    split_ifs with hbig
    · exact ⟨i64.hi, rfl⟩
    · lift supply to ℕ using h0
      lift allowed to ℕ using hpos.le
      have hmod : (supply : ℤ).tmod allowed = ((supply % allowed : ℕ) : ℤ) := rfl
      have hden : 0 < allowed := by exact_mod_cast hpos
      have hwhole : 0 ≤ (supply : ℤ) / allowed * bpsDenominator :=
        mul_nonneg (Int.ediv_nonneg (by positivity) (by positivity)) (by decide)
      have hbps : (supply : ℤ) / allowed * bpsDenominator ≤ i64.hi := by
        have hle := mul_le_mul_of_nonneg_right (not_lt.mp hbig)
          (show (0 : ℤ) ≤ bpsDenominator by decide)
        exact hle.trans (Int.ediv_mul_le _ (by decide))
      have hfits : i128.Fits ((supply : ℤ) / allowed * bpsDenominator) :=
        (show i128.Fits i64.hi by decide).of_abs_le hwhole hbps
      rw [okOr_check hfits, ok_bind, hmod]
      dsimp only
      split_ifs with hrem
      · have hle : supply % allowed ≤ allowed := (Nat.mod_lt supply hden).le
        obtain ⟨scaled, hscaled, hpart⟩ := bind_eq_ok.mp (okOr_scaled hle hden Fault.trap)
        have hsmall : shrunkFraction utilisationLimit 10000 (supply % allowed) allowed ≤ 10000 :=
          shrunkFraction_le_scale hle
        have hlarge : i128.Fits (i64.hi + 10000) := by decide
        rw [okOr_check_shrink hallowed, ok_bind, hscaled, ok_bind, hpart, ok_bind,
          okOr_check (hlarge.of_abs_le (by omega) (by omega))]
        exact ⟨_, rfl⟩
      · exact ⟨_, rfl⟩

end Utilisation

/-! ## Calls of the guard -/

section Calls

variable {here : Address} (env : BridgeEnv here)

/-- Check, authorise and record a mint in one step. -/
def mintWithinCap (verifier : Address) (assetCode : Symbol) (deltaSupply : ℤ) (g : CapGuard) :
    Except Fault (ℤ × CapGuard) := do
  let config ← g.requireCapConfig assetCode
  failIf (config.verifier ≠ verifier) (Fault.error .bridgeNotController)
  env.requireAuth verifier
  requireMintAllowed assetCode deltaSupply g
  recordWrappedMint verifier assetCode deltaSupply g

def recordWrappedBurn (verifier : Address) (assetCode : Symbol) (deltaSupply : ℤ)
    (g : CapGuard) : Except Fault (ℤ × CapGuard) := do
  let config ← g.requireCapConfig assetCode
  failIf (config.verifier ≠ verifier) (Fault.error .bridgeNotController)
  failIf (deltaSupply ≤ 0) (Fault.error .bridgeCapInvalidAmount)
  let supply := g.wrappedSupplyOf assetCode
  failIf (supply < deltaSupply) (Fault.error .bridgeInsufficientBalance)
  let remaining := supply - deltaSupply
  pure (remaining, { g with wrappedSupply := g.wrappedSupply.insert assetCode remaining })

inductive CapCall where
  | configureCapGuard (admin : Address) (assetCode : Symbol) (verifier : Address)
      (capacityBps : ℤ)
  | depositLockedCollateral (verifier : Address) (assetCode : Symbol) (amount : ℤ)
  | mintWithinCap (verifier : Address) (assetCode : Symbol) (deltaSupply : ℤ)
  | recordWrappedBurn (verifier : Address) (assetCode : Symbol) (deltaSupply : ℤ)
  | releaseLockedCollateral (admin : Address) (assetCode : Symbol) (amount : ℤ)

def CapCall.exec (g : CapGuard) : CapCall → Except Fault CapGuard
  | configureCapGuard admin assetCode verifier capacityBps =>
    Prod.snd <$> Bridge.configureCapGuard env admin assetCode verifier capacityBps g
  | depositLockedCollateral verifier assetCode amount =>
    Prod.snd <$> Bridge.depositLockedCollateral env verifier assetCode amount g
  | mintWithinCap verifier assetCode deltaSupply =>
    Prod.snd <$> CapArithmetic.mintWithinCap env verifier assetCode deltaSupply g
  | recordWrappedBurn verifier assetCode deltaSupply =>
    Prod.snd <$> CapArithmetic.recordWrappedBurn verifier assetCode deltaSupply g
  | releaseLockedCollateral admin assetCode amount =>
    Prod.snd <$> Bridge.releaseLockedCollateral env admin assetCode amount g

def capStep (i : BridgeEnv here × CapCall) (g : CapGuard) : Except Fault CapGuard :=
  i.2.exec i.1 g

end Calls

section Runs

variable {here : Address} {env : BridgeEnv here} {g g' : CapGuard} {assetCode : Symbol}

/-- What an accepted call changes: the configuration of one asset, its collateral, or the mirror
of its supply. -/
inductive CapEffect (g g' : CapGuard) : Prop
  | configured (assetCode : Symbol) (config : BridgeCapConfig) (hlower : 0 ≤ config.capacityBps)
      (hupper : config.capacityBps ≤ bpsDenominator)
      (hwrite : g' = { g with configs := g.configs.insert assetCode config })
  | collateral (assetCode : Symbol) (locked : ℤ) (hfits : i128.Fits locked)
      (hbacked : g.wrappedSupplyOf assetCode ≤ locked)
      (hwrite : g' = { g with lockedCollateral := g.lockedCollateral.insert assetCode locked })
  | mirror (assetCode : Symbol) (supply : ℤ) (hlower : 0 ≤ supply)
      (hbacked : supply ≤ g.lockedCollateralOf assetCode)
      (hwrite : g' = { g with wrappedSupply := g.wrappedSupply.insert assetCode supply })

/-- In every state the mirror of a supply is covered by the collateral, and the values are of
their types. -/
structure Collateralized (g : CapGuard) : Prop where
  covered : ∀ assetCode, 0 ≤ g.wrappedSupplyOf assetCode ∧
    g.wrappedSupplyOf assetCode ≤ g.lockedCollateralOf assetCode
  fits : ∀ assetCode, i128.Fits (g.lockedCollateralOf assetCode)
  capacity : ∀ assetCode config, g.configs.lookup assetCode = some config →
    0 ≤ config.capacityBps ∧ config.capacityBps ≤ bpsDenominator

theorem Collateralized.deployed : Collateralized .deployed := by
  have hzero : i128.Fits 0 := by decide
  refine ⟨fun _ => ⟨le_rfl, le_rfl⟩, fun _ => hzero, fun _ _ h => ?_⟩
  cases h

theorem lookup_insert_getD (m : Store Symbol ℤ) (assetCode code : Symbol) (x : ℤ) :
    ((m.insert assetCode x).lookup code).getD 0 =
      if code = assetCode then x else (m.lookup code).getD 0 := by
  rw [Store.lookup_insert_ite]
  split_ifs <;> rfl

theorem Collateralized.effect (hg : Collateralized g) (he : CapEffect g g') :
    Collateralized g' := by
  cases he with
  | configured assetCode config hlower hupper hwrite =>
    subst hwrite
    refine ⟨hg.covered, hg.fits, fun code config' hlookup => ?_⟩
    rw [Store.lookup_insert_eq_some] at hlookup
    obtain ⟨-, rfl⟩ | ⟨-, hold⟩ := hlookup
    · exact ⟨hlower, hupper⟩
    · exact hg.capacity code config' hold
  | collateral assetCode locked hfits hbacked hwrite =>
    subst hwrite
    have hread (code : Symbol) := lookup_insert_getD g.lockedCollateral assetCode code locked
    refine ⟨fun code => ⟨(hg.covered code).1, ?_⟩, fun code => ?_, hg.capacity⟩
    · rw [CapGuard.lockedCollateralOf, hread]
      split_ifs with heq
      · rw [heq]
        exact hbacked
      · exact (hg.covered code).2
    · rw [CapGuard.lockedCollateralOf, hread]
      split_ifs with heq
      · exact hfits
      · exact hg.fits code
  | mirror assetCode supply hlower hbacked hwrite =>
    subst hwrite
    have hread (code : Symbol) := lookup_insert_getD g.wrappedSupply assetCode code supply
    refine ⟨fun code => ?_, hg.fits, hg.capacity⟩
    rw [CapGuard.wrappedSupplyOf, hread]
    split_ifs with heq
    · rw [heq]
      exact ⟨hlower, hbacked⟩
    · exact hg.covered code

/-- An accepted deposit or release writes the collateral, a mint or burn the mirror. A mint fits
under the ceiling of the moment, which the collateral bounds. -/
theorem capStep_effect (hg : Collateralized g) {i : BridgeEnv here × CapCall}
    (h : capStep i g = .ok g') : CapEffect g g' := by
  obtain ⟨env, call⟩ := i
  cases call with
  | configureCapGuard admin assetCode verifier capacityBps =>
    obtain ⟨config, hcall⟩ := snd_map_eq_ok.mp h
    obtain ⟨_, -, hcall⟩ := bind_eq_ok.mp hcall
    obtain ⟨_, hrange, hcall⟩ := bind_eq_ok.mp hcall
    rw [failIf_eq_ok, not_not] at hrange
    obtain ⟨-, rfl⟩ := Prod.mk.inj (pure_eq_ok.mp hcall)
    exact .configured assetCode _ hrange.1 hrange.2 rfl
  | depositLockedCollateral verifier assetCode amount =>
    obtain ⟨locked, hcall⟩ := snd_map_eq_ok.mp h
    obtain ⟨config, -, hcall⟩ := bind_eq_ok.mp hcall
    obtain ⟨_, -, hcall⟩ := bind_eq_ok.mp hcall
    obtain ⟨_, -, hcall⟩ := bind_eq_ok.mp hcall
    obtain ⟨_, hpos, hcall⟩ := bind_eq_ok.mp hcall
    obtain ⟨sum, hsum, hcall⟩ := bind_eq_ok.mp hcall
    rw [failIf_eq_ok, not_le] at hpos
    obtain ⟨hfits, rfl⟩ := IntRange.check_eq_some.mp (okOr_eq_ok.mp hsum)
    obtain ⟨-, rfl⟩ := Prod.mk.inj (pure_eq_ok.mp hcall)
    have hcovered := (hg.covered assetCode).2
    exact .collateral assetCode _ hfits (by omega) rfl
  | mintWithinCap verifier assetCode deltaSupply =>
    obtain ⟨supply, hcall⟩ := snd_map_eq_ok.mp h
    obtain ⟨_, -, hcall⟩ := bind_eq_ok.mp hcall
    obtain ⟨_, -, hcall⟩ := bind_eq_ok.mp hcall
    obtain ⟨_, -, hcall⟩ := bind_eq_ok.mp hcall
    obtain ⟨_, hallowed, hcall⟩ := bind_eq_ok.mp hcall
    obtain ⟨config, ceiling, -, hceiling, hle⟩ := requireMintAllowed_eq_ok hallowed
    obtain ⟨_, -, hcall⟩ := bind_eq_ok.mp hcall
    obtain ⟨_, -, hcall⟩ := bind_eq_ok.mp hcall
    obtain ⟨_, hpos, hcall⟩ := bind_eq_ok.mp hcall
    obtain ⟨sum, hsum, hcall⟩ := bind_eq_ok.mp hcall
    rw [failIf_eq_ok, not_le] at hpos
    obtain ⟨-, rfl⟩ := IntRange.check_eq_some.mp (okOr_eq_ok.mp hsum)
    obtain ⟨-, rfl⟩ := Prod.mk.inj (pure_eq_ok.mp hcall)
    have hcovered := (hg.covered assetCode).1
    exact .mirror assetCode _ (by omega) (hle.trans (allowedSupply_eq_ok hceiling).2) rfl
  | recordWrappedBurn verifier assetCode deltaSupply =>
    obtain ⟨supply, hcall⟩ := snd_map_eq_ok.mp h
    obtain ⟨_, -, hcall⟩ := bind_eq_ok.mp hcall
    obtain ⟨_, -, hcall⟩ := bind_eq_ok.mp hcall
    obtain ⟨_, hpos, hcall⟩ := bind_eq_ok.mp hcall
    obtain ⟨_, hle, hcall⟩ := bind_eq_ok.mp hcall
    rw [failIf_eq_ok, not_le] at hpos
    rw [failIf_eq_ok, not_lt] at hle
    obtain ⟨-, rfl⟩ := Prod.mk.inj (pure_eq_ok.mp hcall)
    have hcovered := (hg.covered assetCode).2
    exact .mirror assetCode _ (by omega) (by omega) rfl
  | releaseLockedCollateral admin assetCode amount =>
    obtain ⟨remaining, hcall⟩ := snd_map_eq_ok.mp h
    obtain ⟨_, -, hcall⟩ := bind_eq_ok.mp hcall
    obtain ⟨_, -, hcall⟩ := bind_eq_ok.mp hcall
    obtain ⟨_, hpos, hcall⟩ := bind_eq_ok.mp hcall
    obtain ⟨_, -, hcall⟩ := bind_eq_ok.mp hcall
    obtain ⟨_, hbacked, hcall⟩ := bind_eq_ok.mp hcall
    rw [failIf_eq_ok, not_le] at hpos
    rw [failIf_eq_ok, not_lt] at hbacked
    obtain ⟨-, rfl⟩ := Prod.mk.inj (pure_eq_ok.mp hcall)
    have hcovered := (hg.covered assetCode).1
    exact .collateral assetCode _
      ((hg.fits assetCode).of_abs_le (by omega) (by omega)) hbacked rfl

/-- The ceiling of a configured asset is measured, and lies within the collateral. -/
theorem Collateralized.ceiling_eq (hg : Collateralized g) {config : BridgeCapConfig}
    (hconfig : g.configs.lookup assetCode = some config) :
    ∃ ceiling, allowedSupply (g.lockedCollateralOf assetCode) config.capacityBps = .ok ceiling ∧
      0 ≤ ceiling ∧ ceiling ≤ g.lockedCollateralOf assetCode := by
  obtain ⟨hlower, hupper⟩ := hg.capacity assetCode config hconfig
  have h0 : 0 ≤ g.lockedCollateralOf assetCode :=
    (hg.covered assetCode).1.trans (hg.covered assetCode).2
  exact ⟨_, allowedSupply_eq (hg.fits assetCode) h0 hlower hupper,
    Int.ediv_nonneg (mul_nonneg h0 hlower) (by decide), share_le h0 hupper⟩

/-- The difference of two values between zero and the collateral is of its type. -/
theorem Collateralized.headroom_fits (hg : Collateralized g) {ceiling : ℤ} (h0 : 0 ≤ ceiling)
    (hle : ceiling ≤ g.lockedCollateralOf assetCode) :
    i128.Fits (ceiling - g.wrappedSupplyOf assetCode) := by
  have hcovered := hg.covered assetCode
  have hfits := hg.fits assetCode
  have hlo : i128.lo = -(i128.hi + 1) := by decide
  obtain ⟨-, hhi⟩ := hfits
  constructor <;> omega

theorem Collateralized.mintHeadroom_ne_trap (hg : Collateralized g) (assetCode : Symbol) :
    mintHeadroom assetCode g ≠ .error .trap := by
  rw [mintHeadroom, mintCeiling, CapGuard.requireCapConfig]
  cases hconfig : g.configs.lookup assetCode with
  | none => simp [okOr, bind, Except.bind]
  | some config =>
    obtain ⟨ceiling, hceiling, h0, hle⟩ := hg.ceiling_eq hconfig
    rw [okOr_some, ok_bind, hceiling, ok_bind, okOr_check (hg.headroom_fits h0 hle), ok_bind]
    exact pure_ne_error

theorem Collateralized.bridgeCapStatus_ne_trap (hg : Collateralized g) (assetCode : Symbol) :
    bridgeCapStatus assetCode g ≠ .error .trap := by
  rw [bridgeCapStatus, CapGuard.requireCapConfig]
  cases hconfig : g.configs.lookup assetCode with
  | none => simp [okOr, bind, Except.bind]
  | some config =>
    obtain ⟨ceiling, hceiling, h0, hle⟩ := hg.ceiling_eq hconfig
    have hfits := hg.fits assetCode
    obtain ⟨bps, hbps⟩ := utilisationBpsOf_eq_ok
      (hfits.of_abs_le (hg.covered assetCode).1 (hg.covered assetCode).2) (hfits.of_abs_le h0 hle)
    rw [okOr_some, ok_bind]
    dsimp only
    rw [hceiling, ok_bind, okOr_check (hg.headroom_fits h0 hle), ok_bind, hbps, ok_bind]
    exact pure_ne_error

/-- The supply of every asset is covered, and the views of it answer. -/
structure CoveredState (g : CapGuard) : Prop where
  covered : ∀ assetCode, 0 ≤ g.wrappedSupplyOf assetCode ∧
    g.wrappedSupplyOf assetCode ≤ g.lockedCollateralOf assetCode
  headroom : ∀ assetCode, mintHeadroom assetCode g ≠ .error .trap
  status : ∀ assetCode, bridgeCapStatus assetCode g ≠ .error .trap

/-- The ceiling is the exact floor and the check the exact comparison, without an overflow. In
every state of a run the supply of every asset is covered and the views answer. -/
theorem cap_arithmetic_exact :
    (∀ (c : i128.Value) (b : i64.Value), 0 ≤ c.1 → 0 ≤ b.1 → b.1 ≤ bpsDenominator →
      allowedSupply c b = .ok (c * b / bpsDenominator)) ∧
    (∀ (s c d : i128.Value) (b : i64.Value),
      ∃ exceeds, mintExceedsCap s c b d = .ok exceeds ∧
        (exceeds = false ↔ 0 ≤ s.1 ∧ 0 ≤ c.1 ∧ 0 ≤ d.1 ∧ 0 ≤ b.1 ∧ b.1 ≤ bpsDenominator ∧
          s + d ≤ (c * b / bpsDenominator : ℤ))) ∧
    ∀ (here : Address) (run : List (BridgeEnv here × CapCall)),
      Throughout capStep CoveredState .deployed run := by
  refine ⟨fun c b hc hlower hupper => allowedSupply_eq c.2 hc hlower hupper,
    fun s c d b => ⟨_, mintExceedsCap_eq c.2 d, ?_⟩, fun here run => ?_⟩
  · rw [decide_eq_false_iff_not, not_not]
    rfl
  · exact throughout_of_invariant (fun g i g' hg h => hg.effect (capStep_effect hg h))
      (fun g hg => ⟨hg.covered, hg.mintHeadroom_ne_trap, hg.bridgeCapStatus_ne_trap⟩)
      Collateralized.deployed run

/-- All of the greatest collateral may be represented, and one unit more may not. -/
theorem cap_arithmetic_exact_sample :
    allowedSupply (2 ^ 127 - 1) 10000 = .ok ((2 ^ 127 - 1) * 10000 / 10000) ∧
      ∃ exceeds, mintExceedsCap (2 ^ 127 - 1) (2 ^ 127 - 1) 10000 1 = .ok exceeds ∧
        (exceeds = false ↔ 0 ≤ (2 ^ 127 - 1 : ℤ) ∧ 0 ≤ (2 ^ 127 - 1 : ℤ) ∧ 0 ≤ (1 : ℤ) ∧
          0 ≤ (10000 : ℤ) ∧ 10000 ≤ bpsDenominator ∧
          (2 ^ 127 - 1 : ℤ) + 1 ≤ (2 ^ 127 - 1) * 10000 / bpsDenominator) :=
  ⟨cap_arithmetic_exact.1 ⟨2 ^ 127 - 1, by decide⟩ ⟨10000, by decide⟩ (by decide) (by decide)
      (by decide),
    cap_arithmetic_exact.2.1 ⟨2 ^ 127 - 1, by decide⟩ ⟨2 ^ 127 - 1, by decide⟩ ⟨1, by decide⟩
      ⟨10000, by decide⟩⟩

end Runs

end StellarFlow.Bridge.CapArithmetic
