import StellarFlow.Host

/-!
# The dynamic trading fee

Every asset has a band of fees and a current fee. Trades add up to the volume of a period. When
a period ends the fee moves by at most one tier, after the volume, and is clamped to the band;
without a previous volume it stays. The admin replaces the band, and governance picks a tier
inside it. A new band does not move the fee, so the fee stays in its band exactly as long as
every new band contains it.
-/
namespace StellarFlow.Fees

open Foundation

def feeTier5Bps : ℕ := 5
def feeTier30Bps : ℕ := 30
def feeTier100Bps : ℕ := 100
def protocolFeeFloorBps : ℕ := 1
def maxProtocolFeeBps : ℕ := 100
def minPeriodSeconds : ℕ := 300

/-! ## State -/

structure VolumeHistory where
  previousPeriodVolume : ℕ
  currentPeriodVolume : ℕ
  /-- Time at which the period was last rotated. -/
  lastUpdated : ℕ
  deriving DecidableEq, Repr

def VolumeHistory.new : VolumeHistory := ⟨0, 0, 0⟩

structure DynamicFeeState where
  minFeeBps : ℕ
  maxFeeBps : ℕ
  currentFeeBps : ℕ
  periodSeconds : ℕ
  deriving DecidableEq, Repr

def DynamicFeeState.new : DynamicFeeState := ⟨5, feeTier100Bps, 5, 3600⟩

def IsValidFeeTier (feeBps : ℕ) : Prop :=
  feeBps = feeTier5Bps ∨ feeBps = feeTier30Bps ∨ feeBps = feeTier100Bps

instance : DecidablePred IsValidFeeTier := fun _ => inferInstanceAs (Decidable (_ ∨ _ ∨ _))

def IsValidProtocolFeeValue (feeBps : ℕ) : Prop :=
  feeBps = protocolFeeFloorBps ∨ IsValidFeeTier feeBps

instance : DecidablePred IsValidProtocolFeeValue := fun _ => inferInstanceAs (Decidable (_ ∨ _))

/-- Volume histories and fees in instance storage. -/
structure FeeBook where
  volumes : Store AssetId VolumeHistory
  fees : Store AssetId DynamicFeeState

def FeeBook.empty : FeeBook := ⟨∅, ∅⟩

def FeeBook.dynamicFee (b : FeeBook) (asset : AssetId) : DynamicFeeState :=
  (b.fees.lookup asset).getD .new

/-- What the entry points read besides the fees. -/
structure FeeEnv (here : Address) extends Env here where
  admin : Option Address

/-- How the volume of a period compares with that of the period before: more than one and a
half times as much, less than seven tenths, or neither. -/
inductive VolumeTrend
  | up
  | down
  | level

/-! ## Entry points -/

/-- Restrict a value to an interval, which must not be empty. -/
def clamp (x lo hi : ℕ) : Except Fault ℕ := do
  failIf (hi < lo) Fault.trap
  pure (max lo (min x hi))

theorem clamp_eq_ok {x lo hi y : ℕ} :
    clamp x lo hi = .ok y ↔ lo ≤ hi ∧ max lo (min x hi) = y := by
  simp only [clamp, bind_eq_ok, failIf_eq_ok, pure_eq_ok, not_lt, exists_const]

/-- The tier after one move. -/
def moveTier (feeBps : ℕ) : VolumeTrend → ℕ
  | .up =>
    if feeBps = feeTier5Bps then feeTier30Bps
    else if feeBps = feeTier30Bps then feeTier100Bps
    else feeBps
  | .down =>
    if feeBps = feeTier100Bps then feeTier30Bps
    else if feeBps = feeTier30Bps then feeTier5Bps
    else feeBps
  | .level => feeBps

-- The comparison of two volumes, the current one first, in floating point.
variable (trend : ℕ → ℕ → VolumeTrend)

def calculateDynamicFee (history : VolumeHistory) (fee : DynamicFeeState) : Except Fault ℕ :=
  if history.previousPeriodVolume = 0 then pure fee.currentFeeBps
  else
    clamp
      (moveTier fee.currentFeeBps
        (trend history.currentPeriodVolume history.previousPeriodVolume))
      fee.minFeeBps fee.maxFeeBps

variable {here : Address} (env : FeeEnv here)

def updateVolumeAndAdjustFee (asset : AssetId) (tradeVolume : ℕ) (b : FeeBook) :
    Except Fault (ℕ × FeeBook) := do
  let history := (b.volumes.lookup asset).getD .new
  let fee := b.dynamicFee asset
  let periodEnd ← okOr (checkBits 64 (history.lastUpdated + fee.periodSeconds)) Fault.trap
  if periodEnd ≤ env.timestamp then
    let history := ⟨history.currentPeriodVolume, tradeVolume, env.timestamp⟩
    let newFee ← calculateDynamicFee trend history fee
    let fee := { fee with currentFeeBps := max newFee protocolFeeFloorBps }
    pure (fee.currentFeeBps, ⟨b.volumes.insert asset history, b.fees.insert asset fee⟩)
  else
    let volume ← okOr (checkBits 64 (history.currentPeriodVolume + tradeVolume))
      (Fault.error .mathOverflow)
    let history := { history with currentPeriodVolume := volume }
    pure (fee.currentFeeBps, ⟨b.volumes.insert asset history, b.fees.insert asset fee⟩)

def requireFeeAdmin (caller : Address) : Except Fault Unit := do
  env.requireAuth caller
  let admin ← okOr env.admin (Fault.error .notInitialized)
  failIf (admin ≠ caller) (Fault.error .notAdmin)

/-- The band that is stored for the requested one. -/
def clampedMin (minFeeBps : ℕ) : ℕ := max minFeeBps protocolFeeFloorBps
def clampedMax (minFeeBps maxFeeBps : ℕ) : ℕ := max maxFeeBps (clampedMin minFeeBps)

def setDynamicFeeConfig (caller : Address) (asset : AssetId)
    (minFeeBps maxFeeBps periodSeconds : ℕ) (b : FeeBook) : Except Fault FeeBook := do
  requireFeeAdmin env caller
  let lo := clampedMin minFeeBps
  let hi := clampedMax minFeeBps maxFeeBps
  failIf (maxProtocolFeeBps < lo ∨ maxProtocolFeeBps < hi) (Fault.error .protocolFeeCapExceeded)
  failIf (¬ IsValidProtocolFeeValue lo ∨ ¬ IsValidProtocolFeeValue hi ∨ hi ≤ lo)
    (Fault.error .invalidVarianceConfig)
  failIf (periodSeconds < minPeriodSeconds) (Fault.error .invalidVarianceConfig)
  let fee := b.dynamicFee asset
  let currentFeeBps :=
    if fee.currentFeeBps < protocolFeeFloorBps then protocolFeeFloorBps else fee.currentFeeBps
  pure { b with fees := b.fees.insert asset ⟨lo, hi, currentFeeBps, periodSeconds⟩ }

def governanceAdjustFeeTier (governance : Address) (asset : AssetId) (newFeeBps : ℕ)
    (b : FeeBook) : Except Fault (ℕ × FeeBook) := do
  requireFeeAdmin env governance
  let fee := b.dynamicFee asset
  failIf (maxProtocolFeeBps < newFeeBps) (Fault.error .protocolFeeCapExceeded)
  let enforcedFeeBps := max newFeeBps protocolFeeFloorBps
  failIf (¬ IsValidProtocolFeeValue enforcedFeeBps) (Fault.error .invalidVarianceConfig)
  failIf (enforcedFeeBps < fee.minFeeBps ∨ fee.maxFeeBps < enforcedFeeBps)
    (Fault.error .invalidVarianceConfig)
  let fee := { fee with currentFeeBps := enforcedFeeBps }
  pure (enforcedFeeBps, { b with fees := b.fees.insert asset fee })

/-! ## Calls -/

inductive FeeCall
  | updateVolumeAndAdjustFee (asset : AssetId) (tradeVolume : ℕ)
  | setDynamicFeeConfig (caller : Address) (asset : AssetId)
      (minFeeBps maxFeeBps periodSeconds : ℕ)
  | governanceAdjustFeeTier (governance : Address) (asset : AssetId) (newFeeBps : ℕ)

abbrev FeeStep (here : Address) := FeeEnv here × FeeCall

def feeStep (i : FeeStep here) (b : FeeBook) : Except Fault FeeBook :=
  match i.2 with
  | .updateVolumeAndAdjustFee asset tradeVolume =>
    Prod.snd <$> updateVolumeAndAdjustFee trend i.1 asset tradeVolume b
  | .setDynamicFeeConfig caller asset minFeeBps maxFeeBps periodSeconds =>
    setDynamicFeeConfig i.1 caller asset minFeeBps maxFeeBps periodSeconds b
  | .governanceAdjustFeeTier governance asset newFeeBps =>
    Prod.snd <$> governanceAdjustFeeTier i.1 governance asset newFeeBps b

/-- The current fee is a supported value inside the band and under the cap. -/
structure DynamicFeeState.InBand (fee : DynamicFeeState) : Prop where
  min_le : fee.minFeeBps ≤ fee.currentFeeBps
  le_max : fee.currentFeeBps ≤ fee.maxFeeBps
  supported : IsValidProtocolFeeValue fee.currentFeeBps
  le_cap : fee.currentFeeBps ≤ maxProtocolFeeBps

def FeesInBand (b : FeeBook) : Prop :=
  ∀ asset fee, b.fees.lookup asset = some fee → fee.InBand

/-- An accepted configuration names a band that contains the current fee of the asset. -/
def BandContainsFee (b : FeeBook) (i : FeeStep here) : Prop :=
  (∃ b', feeStep trend i b = .ok b') →
    match i.2 with
    | .setDynamicFeeConfig _ asset minFeeBps maxFeeBps _ =>
      clampedMin minFeeBps ≤ (b.dynamicFee asset).currentFeeBps ∧
        (b.dynamicFee asset).currentFeeBps ≤ clampedMax minFeeBps maxFeeBps
    | _ => True

/-! ## What a call writes -/

/-- The fee state that an accepted call stores for the asset in place of the old one. -/
inductive Rewrites (fee : DynamicFeeState) : FeeCall → AssetId → DynamicFeeState → Prop
  | same {asset : AssetId} {tradeVolume : ℕ} :
    Rewrites fee (.updateVolumeAndAdjustFee asset tradeVolume) asset fee
  | rotated {asset : AssetId} {tradeVolume newFee : ℕ} (history : VolumeHistory)
    (calculated : calculateDynamicFee trend history fee = .ok newFee) :
    Rewrites fee (.updateVolumeAndAdjustFee asset tradeVolume) asset
      { fee with currentFeeBps := max newFee protocolFeeFloorBps }
  | configured {caller : Address} {asset : AssetId} {minFeeBps maxFeeBps periodSeconds : ℕ}
    (min_supported : IsValidProtocolFeeValue (clampedMin minFeeBps))
    (max_supported : IsValidProtocolFeeValue (clampedMax minFeeBps maxFeeBps))
    (min_lt_max : clampedMin minFeeBps < clampedMax minFeeBps maxFeeBps) :
    Rewrites fee (.setDynamicFeeConfig caller asset minFeeBps maxFeeBps periodSeconds) asset
      ⟨clampedMin minFeeBps, clampedMax minFeeBps maxFeeBps,
        if fee.currentFeeBps < protocolFeeFloorBps then protocolFeeFloorBps
          else fee.currentFeeBps, periodSeconds⟩
  | adjusted {governance : Address} {asset : AssetId} {newFeeBps : ℕ}
    (supported : IsValidProtocolFeeValue (max newFeeBps protocolFeeFloorBps))
    (min_le : fee.minFeeBps ≤ max newFeeBps protocolFeeFloorBps)
    (le_max : max newFeeBps protocolFeeFloorBps ≤ fee.maxFeeBps) :
    Rewrites fee (.governanceAdjustFeeTier governance asset newFeeBps) asset
      { fee with currentFeeBps := max newFeeBps protocolFeeFloorBps }

section Steps

variable {trend : ℕ → ℕ → VolumeTrend} {here : Address} {i : FeeStep here} {b b' : FeeBook}
  {fee fee' : DynamicFeeState} {call : FeeCall} {asset : AssetId}

/-- An accepted call replaces the fee state of one asset. -/
theorem feeStep_rewrites (h : feeStep trend i b = .ok b') :
    ∃ asset fee', Rewrites trend (b.dynamicFee asset) i.2 asset fee' ∧
      b'.fees = b.fees.insert asset fee' := by
  obtain ⟨env, call⟩ := i
  cases call with
  | updateVolumeAndAdjustFee asset tradeVolume =>
    obtain ⟨r, h⟩ := snd_map_eq_ok.mp h
    simp only [updateVolumeAndAdjustFee, bind_eq_ok, okOr_eq_ok] at h
    obtain ⟨periodEnd, _, h⟩ := h
    split_ifs at h
    · simp only [bind_eq_ok, pure_eq_ok, Prod.mk.injEq] at h
      obtain ⟨newFee, hcalc, _, rfl⟩ := h
      exact ⟨asset, _, .rotated _ hcalc, rfl⟩
    · simp only [bind_eq_ok, pure_eq_ok, Prod.mk.injEq] at h
      obtain ⟨volume, _, _, rfl⟩ := h
      exact ⟨asset, _, .same, rfl⟩
  | setDynamicFeeConfig caller asset minFeeBps maxFeeBps periodSeconds =>
    simp only [feeStep, setDynamicFeeConfig, bind_eq_ok, failIf_eq_ok, pure_eq_ok, not_or, not_not,
      not_le] at h
    obtain ⟨_, _, _, _, _, ⟨hmin, hmax, hlt⟩, _, _, rfl⟩ := h
    exact ⟨asset, _, .configured hmin hmax hlt, rfl⟩
  | governanceAdjustFeeTier governance asset newFeeBps =>
    obtain ⟨r, h⟩ := snd_map_eq_ok.mp h
    simp only [governanceAdjustFeeTier, bind_eq_ok, failIf_eq_ok, pure_eq_ok, not_or, not_not,
      not_lt, Prod.mk.injEq] at h
    obtain ⟨_, _, _, _, _, hvalid, _, ⟨hmin, hmax⟩, _, rfl⟩ := h
    exact ⟨asset, _, .adjusted hvalid hmin hmax, rfl⟩

/-! ## Sound fee states -/

/-- Both ends of the band are supported values in order, and so is the current fee, wherever
it lies. -/
structure DynamicFeeState.Sound (fee : DynamicFeeState) : Prop where
  min_supported : IsValidProtocolFeeValue fee.minFeeBps
  max_supported : IsValidProtocolFeeValue fee.maxFeeBps
  min_lt_max : fee.minFeeBps < fee.maxFeeBps
  supported : IsValidProtocolFeeValue fee.currentFeeBps

def FeeBook.Sound (b : FeeBook) : Prop :=
  ∀ asset fee, b.fees.lookup asset = some fee → fee.Sound

theorem floor_le_of_valid {feeBps : ℕ} (h : IsValidProtocolFeeValue feeBps) :
    protocolFeeFloorBps ≤ feeBps := by
  rcases h with rfl | rfl | rfl | rfl <;> decide

theorem le_cap_of_valid {feeBps : ℕ} (h : IsValidProtocolFeeValue feeBps) :
    feeBps ≤ maxProtocolFeeBps := by
  rcases h with rfl | rfl | rfl | rfl <;> decide

theorem moveTier_valid {feeBps : ℕ} (h : IsValidProtocolFeeValue feeBps) (t : VolumeTrend) :
    IsValidProtocolFeeValue (moveTier feeBps t) := by
  rcases h with rfl | rfl | rfl | rfl <;> cases t <;> decide

/-- Clamping a supported value to a supported band gives a supported value. -/
theorem clamp_valid {x lo hi y : ℕ} (hx : IsValidProtocolFeeValue x)
    (hlo : IsValidProtocolFeeValue lo) (hhi : IsValidProtocolFeeValue hi)
    (h : clamp x lo hi = .ok y) : IsValidProtocolFeeValue y := by
  obtain ⟨_, rfl⟩ := clamp_eq_ok.mp h
  rcases max_choice lo (min x hi) with he | he <;> rw [he]
  · exact hlo
  · rcases min_choice x hi with he | he <;> rw [he]
    · exact hx
    · exact hhi

theorem calculateDynamicFee_valid {history : VolumeHistory} {newFee : ℕ} (hs : fee.Sound)
    (h : calculateDynamicFee trend history fee = .ok newFee) :
    IsValidProtocolFeeValue newFee := by
  unfold calculateDynamicFee at h
  split_ifs at h
  · obtain rfl := pure_eq_ok.mp h
    exact hs.supported
  · exact clamp_valid (moveTier_valid hs.supported _) hs.min_supported hs.max_supported h

/-- A fee inside the band is still inside after a rotation. -/
theorem calculateDynamicFee_mem {history : VolumeHistory} {newFee : ℕ} (hb : fee.InBand)
    (h : calculateDynamicFee trend history fee = .ok newFee) :
    fee.minFeeBps ≤ newFee ∧ newFee ≤ fee.maxFeeBps := by
  unfold calculateDynamicFee at h
  split_ifs at h
  · obtain rfl := pure_eq_ok.mp h
    exact ⟨hb.min_le, hb.le_max⟩
  · obtain ⟨hle, rfl⟩ := clamp_eq_ok.mp h
    omega

theorem DynamicFeeState.new_sound : DynamicFeeState.new.Sound := by
  constructor <;> decide

theorem DynamicFeeState.new_inBand : DynamicFeeState.new.InBand := by
  constructor <;> decide

theorem FeeBook.Sound.dynamicFee (hs : b.Sound) (asset : AssetId) : (b.dynamicFee asset).Sound := by
  cases hl : b.fees.lookup asset with
  | none => simpa [FeeBook.dynamicFee, hl] using DynamicFeeState.new_sound
  | some fee => simpa [FeeBook.dynamicFee, hl] using hs asset fee hl

theorem FeesInBand.dynamicFee (hb : FeesInBand b) (asset : AssetId) :
    (b.dynamicFee asset).InBand := by
  cases hl : b.fees.lookup asset with
  | none => simpa [FeeBook.dynamicFee, hl] using DynamicFeeState.new_inBand
  | some fee => simpa [FeeBook.dynamicFee, hl] using hb asset fee hl

theorem Rewrites.sound (hr : Rewrites trend fee call asset fee') (hs : fee.Sound) :
    fee'.Sound := by
  cases hr with
  | same => exact hs
  | rotated history hcalc =>
    have hvalid := calculateDynamicFee_valid hs hcalc
    have hmax : max _ protocolFeeFloorBps = _ := max_eq_left (floor_le_of_valid hvalid)
    exact ⟨hs.min_supported, hs.max_supported, hs.min_lt_max, by rw [hmax]; exact hvalid⟩
  | configured hmin hmax hlt =>
    rw [if_neg (floor_le_of_valid hs.supported).not_gt]
    exact ⟨hmin, hmax, hlt, hs.supported⟩
  | adjusted hvalid _ _ => exact ⟨hs.min_supported, hs.max_supported, hs.min_lt_max, hvalid⟩

theorem feeStep_sound (hs : b.Sound) (h : feeStep trend i b = .ok b') : b'.Sound := by
  obtain ⟨asset, fee', hr, hfees⟩ := feeStep_rewrites h
  intro a fee hfound
  rw [hfees] at hfound
  rcases Store.lookup_insert_eq_some.mp hfound with ⟨_, rfl⟩ | ⟨_, hold⟩
  · exact hr.sound (hs.dynamicFee asset)
  · exact hs a fee hold

/-! ## When the fee stays in its band -/

theorem configured_inBand_iff {lo hi periodSeconds : ℕ} (hs : fee.Sound) :
    DynamicFeeState.InBand ⟨lo, hi, if fee.currentFeeBps < protocolFeeFloorBps then
        protocolFeeFloorBps else fee.currentFeeBps, periodSeconds⟩ ↔
      lo ≤ fee.currentFeeBps ∧ fee.currentFeeBps ≤ hi := by
  rw [if_neg (floor_le_of_valid hs.supported).not_gt]
  exact ⟨fun h => ⟨h.min_le, h.le_max⟩,
    fun h => ⟨h.1, h.2, hs.supported, le_cap_of_valid hs.supported⟩⟩

/-- What a call other than a configuration stores is in its band. -/
theorem Rewrites.inBand (hr : Rewrites trend fee call asset fee') (hs : fee.Sound)
    (hb : fee.InBand)
    (hcall : ∀ caller a minFeeBps maxFeeBps periodSeconds,
      call ≠ .setDynamicFeeConfig caller a minFeeBps maxFeeBps periodSeconds) :
    fee'.InBand := by
  cases hr with
  | same => exact hb
  | rotated history hcalc =>
    have hvalid := calculateDynamicFee_valid hs hcalc
    obtain ⟨hmin, hmax⟩ := calculateDynamicFee_mem hb hcalc
    rw [max_eq_left (floor_le_of_valid hvalid)]
    exact ⟨hmin, hmax, hvalid, le_cap_of_valid hvalid⟩
  | configured => exact absurd rfl (hcall _ _ _ _ _)
  | adjusted hvalid hmin hmax => exact ⟨hmin, hmax, hvalid, le_cap_of_valid hvalid⟩

/-- Only the fee state that a call writes can leave its band. -/
theorem feesInBand_insert_iff (hb : FeesInBand b) (hfees : b'.fees = b.fees.insert asset fee') :
    FeesInBand b' ↔ fee'.InBand := by
  constructor
  · intro h
    exact h asset fee' (by simp [hfees])
  · intro h a fee hfound
    rw [hfees] at hfound
    rcases Store.lookup_insert_eq_some.mp hfound with ⟨_, rfl⟩ | ⟨_, hold⟩
    · exact h
    · exact hb a fee hold

/-- A call keeps the fees in their bands exactly when it is no configuration of a band that
excludes the current fee. -/
theorem feeStep_inBand_iff (hs : b.Sound) (hb : FeesInBand b) (i : FeeStep here) :
    FeesInBand (commit (feeStep trend) b i) ↔ BandContainsFee trend b i := by
  refine commit_iff_of_accepted hb fun b' h => ?_
  obtain ⟨asset, fee', hr, hfees⟩ := feeStep_rewrites h
  rw [feesInBand_insert_iff hb hfees, forall_prop_of_true ⟨b', h⟩]
  obtain ⟨env, call⟩ := i
  cases call with
  | setDynamicFeeConfig caller a minFeeBps maxFeeBps periodSeconds =>
    cases hr
    exact configured_inBand_iff (hs.dynamicFee asset)
  | _ =>
    exact iff_of_true
      (hr.inBand (hs.dynamicFee asset) (hb.dynamicFee asset) fun _ _ _ _ _ h => by cases h)
      trivial

/-- In every run the fees stay in their bands exactly as long as every accepted configuration
names a band that contains the current fee. -/
theorem feesInBand_throughout_iff (trend : ℕ → ℕ → VolumeTrend) (run : List (FeeStep here)) :
    Throughout (feeStep trend) FeesInBand .empty run ↔
      Along (feeStep trend) (BandContainsFee trend) .empty run := by
  have hsound : FeeBook.empty.Sound := fun _ _ h => by cases h
  have hband : FeesInBand .empty := fun _ _ h => by cases h
  exact throughout_iff_along (I := FeeBook.Sound)
    (fun _ _ hs => commit_induction hs fun _ h => feeStep_sound hs h)
    (fun _ i hs hb => feeStep_inBand_iff hs hb i) hsound hband run

def feeAdmin : FeeEnv ⟨0⟩ := { Env.standard ⟨0⟩ 1 none with admin := some ⟨9⟩ }

/-- The band of an asset is raised above the lowest tier, where its fee is. -/
def raisedBandRun : List (FeeStep ⟨0⟩) :=
  [(feeAdmin, .setDynamicFeeConfig ⟨9⟩ 5 30 100 3600)]

theorem raisedBand_leaves_fee :
    (runAll (feeStep fun _ _ => .level) .empty raisedBandRun).fees.lookup 5 =
      some ⟨30, 100, 5, 3600⟩ ∧
    ¬ Throughout (feeStep fun _ _ => .level) FeesInBand .empty raisedBandRun := by
  have hstored : (runAll (feeStep fun _ _ => .level) .empty raisedBandRun).fees.lookup 5 =
      some ⟨30, 100, 5, 3600⟩ := by
    decide +kernel
  refine ⟨hstored, ?_⟩
  rintro ⟨_, hband⟩
  exact absurd (hband 5 _ hstored).min_le (by decide)

end Steps

end StellarFlow.Fees
