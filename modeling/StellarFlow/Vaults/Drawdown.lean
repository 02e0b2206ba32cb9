import StellarFlow.Vaults.Accounts

/-!
# Drawdown of the share value

The breaker compares the value of a share with the highest value ever seen. While there are
shares the value never falls. Once all shares are gone the next depositor sets a new price,
and the old peak is still there: only then can the breaker report a loss.
-/
namespace StellarFlow.Vaults

open Foundation

variable {here : Address} {env : VaultEnv here} {s s' : VaultState} {v v' : Vault}
  {peak value value' amount : ℤ}

/-- The value is not more than the admitted part below the peak, and the loss can be
computed. -/
def WithinDrawdown (peak value : ℤ) : Prop :=
  peak ≤ value ∨ i128.Fits ((peak - value) * bpsDenominator) ∧
    (peak - value) * bpsDenominator < (maxDrawdownBps + 1) * peak

instance (peak value : ℤ) : Decidable (WithinDrawdown peak value) :=
  inferInstanceAs (Decidable (_ ∨ _ ∧ _))

/-- Value of a share without a bound on the intermediate product. -/
def shareValue (totalAssets totalShares : ℤ) : ℤ := totalAssets * shareValuePrecision / totalShares

/-- The breaker has not fired, and it has no reason to. -/
structure Vault.Undrawn (v : Vault) : Prop where
  sound : v.Sound
  armed : v.drawdownState = false
  running : v.vaultPaused = false
  peak_nonneg : 0 ≤ v.peakShareValue
  within : 0 < v.totalShares →
    WithinDrawdown v.peakShareValue (shareValue v.totalAssets v.totalShares)

/-- The breaker stays silent, and no harvest is refused for a drawdown. -/
def NoFalseDrawdown (here : Address) (s : VaultState) : Prop :=
  checkAndTriggerCircuitBreaker s.toVault = .ok (false, s.toVault) ∧
    ∀ (env : VaultEnv here) keeper yieldAmount,
      harvest env keeper yieldAmount s ≠ .error (Fault.error .vaultMaxDrawdownExceeded)

/-- An accepted deposit into a vault without shares starts with a value of a share within the
admitted drawdown of the recorded peak. -/
def StartsNearPeak (s : VaultState) (i : VaultStep here) : Prop :=
  match i.2 with
  | .deposit depositor amount => (∃ r, deposit i.1 depositor amount.1 s = .ok r) →
    s.totalShares = 0 →
    WithinDrawdown s.peakShareValue (shareValue (s.totalAssets + amount.1) amount.1)
  | _ => True

section Value

theorem calculateShareValue_eq_some {A S : ℤ} (hA : 0 ≤ A)
    (h : calculateShareValue A S = some value) : 0 < S ∧ value = shareValue A S := by
  unfold calculateShareValue at h
  split_ifs at h with hS
  push Not at hS
  obtain ⟨scaled, hscaled, hdiv⟩ := Option.bind_eq_some_iff.mp h
  obtain ⟨hfits, rfl⟩ := IntRange.check_eq_some.mp hscaled
  have h0 : 0 ≤ A * shareValuePrecision := mul_nonneg hA (by decide)
  rw [IntRange.checkedDiv_of_nonneg hfits h0 hS] at hdiv
  exact ⟨hS, (Option.some.inj hdiv).symm⟩

/-- The value of a share follows the assets per share. -/
theorem Vault.PriceKept.shareValue_le (h : v.PriceKept v') (hS : 0 < v.totalShares)
    (hS' : 0 < v'.totalShares) :
    shareValue v.totalAssets v.totalShares ≤ shareValue v'.totalAssets v'.totalShares := by
  have hP : (0 : ℤ) ≤ shareValuePrecision := by decide
  apply (Int.le_ediv_iff_mul_le hS').mpr
  apply le_of_mul_le_mul_right _ hS
  calc shareValue v.totalAssets v.totalShares * v'.totalShares * v.totalShares
      = shareValue v.totalAssets v.totalShares * v.totalShares * v'.totalShares := by ring
    _ ≤ v.totalAssets * shareValuePrecision * v'.totalShares :=
        mul_le_mul_of_nonneg_right (Int.ediv_mul_le _ hS.ne') hS'.le
    _ = v.totalAssets * v'.totalShares * shareValuePrecision := by ring
    _ ≤ v'.totalAssets * v.totalShares * shareValuePrecision := mul_le_mul_of_nonneg_right h hP
    _ = v'.totalAssets * shareValuePrecision * v.totalShares := by ring

theorem WithinDrawdown.mono (h : WithinDrawdown peak value) (hle : value ≤ value') :
    WithinDrawdown peak value' := by
  rcases h with hpeak | ⟨hfits, hlt⟩
  · exact .inl (hpeak.trans hle)
  · rcases le_or_gt peak value' with hpeak | hpeak
    · exact .inl hpeak
    · have hloss : (peak - value') * bpsDenominator ≤ (peak - value) * bpsDenominator :=
        mul_le_mul_of_nonneg_right (by omega) (by decide)
      have h0 : 0 ≤ (peak - value') * bpsDenominator := mul_nonneg (by omega) (by decide)
      exact .inr ⟨hfits.of_abs_le h0 hloss, hloss.trans_lt hlt⟩

/-- Recording a value as the peak leaves no drawdown from it. -/
theorem WithinDrawdown.updatePeak {observed : Option ℤ} (h : WithinDrawdown peak value)
    (hobs : ∀ x, observed = some x → x = value) :
    WithinDrawdown (updatePeakShareValue peak observed) value := by
  unfold updatePeakShareValue
  split
  · exact h
  · next x =>
    split_ifs
    · exact h
    · exact .inl (hobs x rfl).le
    · exact h

theorem updatePeakShareValue_nonneg (h : 0 ≤ peak) (observed : Option ℤ) :
    0 ≤ updatePeakShareValue peak observed := by
  unfold updatePeakShareValue
  split
  · exact h
  · split_ifs
    · exact h
    · omega
    · exact h

theorem WithinDrawdown.lossBps_le (h : WithinDrawdown peak value) (h0 : 0 ≤ value)
    (hlt : value < peak) : ∃ bps, lossBps peak value = .ok bps ∧ bps ≤ maxDrawdownBps := by
  obtain ⟨hfits, hsmall⟩ := h.resolve_left hlt.not_ge
  have hpeak : 0 < peak := by omega
  have hscaled : 0 ≤ (peak - value) * bpsDenominator := mul_nonneg (by omega) (by decide)
  have hloss : peak - value ≤ (peak - value) * bpsDenominator :=
    le_mul_of_one_le_right (by omega) (by decide)
  refine ⟨(peak - value) * bpsDenominator / peak, ?_, ?_⟩
  · simp only [lossBps, bind_eq_ok, okOr_eq_ok, IntRange.check_eq_some]
    exact ⟨_, ⟨hfits.of_abs_le (by omega) hloss, rfl⟩, _, ⟨hfits, rfl⟩,
      IntRange.checkedDiv_of_nonneg hfits hscaled hpeak⟩
  · exact Int.lt_add_one_iff.mp (Int.ediv_lt_of_lt_mul hpeak hsmall)

end Value

section Silence

theorem Vault.Undrawn.check_eq (hv : v.Undrawn) :
    checkAndTriggerCircuitBreaker v = .ok (false, v) := by
  unfold checkAndTriggerCircuitBreaker
  rw [if_neg (by simp [hv.armed])]
  split_ifs with hpos
  · split
    · rfl
    · next currentVal hval =>
      obtain ⟨hS, rfl⟩ := calculateShareValue_eq_some hv.sound.assets_nonneg hval
      split_ifs with hlt
      · have h0 : 0 ≤ shareValue v.totalAssets v.totalShares :=
          Int.ediv_nonneg (mul_nonneg hv.sound.assets_nonneg (by decide)) hS.le
        obtain ⟨bps, hbps, hle⟩ := (hv.within hS).lossBps_le h0 hlt
        rw [hbps, ok_bind, if_neg hle.not_gt]
        rfl
      · rfl
  · rfl

theorem feeOf_ne_paused {feeBps : ℕ} :
    feeOf amount feeBps ≠ .error (Fault.error .contractPaused) := by
  simp [feeOf, bind_eq_error, ContractError.mathOverflow]

theorem skimFee_ne_error {config : VaultConfig} {fee : ℤ} {t : Tokens} {e : ContractError} :
    skimFee env config fee t ≠ .error (Fault.error e) := by
  unfold skimFee
  split_ifs <;> simp

theorem Vault.Undrawn.noFalseDrawdown (hv : s.Undrawn) : NoFalseDrawdown here s := by
  refine ⟨hv.check_eq, fun env keeper yieldAmount h => ?_⟩
  -- No other refusal of a harvest has the code of a drawdown.
  simp [-bind_pure_comp, harvest, hv.check_eq, hv.running, bind_eq_error, skimFee_ne_error,
    assertBalanceInvariant, feeOf_ne_paused, ContractError.vaultMaxDrawdownExceeded,
    ContractError.vaultZeroAmount, ContractError.vaultNotInitialized,
    ContractError.mathOverflow] at h

end Silence

section Steps

/-- A call that keeps the price of a share and records at most the value it leads to. -/
theorem Vault.Undrawn.of_priceKept (hv : v.Undrawn) (hsound : v'.Sound)
    (hprice : 0 < v.totalShares → v.PriceKept v') (hS : 0 < v'.totalShares → 0 < v.totalShares)
    (hflags : v'.drawdownState = v.drawdownState ∧ v'.vaultPaused = v.vaultPaused)
    (observed : Option ℤ)
    (hpeak : v'.peakShareValue = updatePeakShareValue v.peakShareValue observed)
    (hobs : ∀ x, observed = some x → x = shareValue v'.totalAssets v'.totalShares) :
    v'.Undrawn := by
  refine ⟨hsound, hflags.1.trans hv.armed, hflags.2.trans hv.running, ?_, fun hS' => ?_⟩
  · rw [hpeak]
    exact updatePeakShareValue_nonneg hv.peak_nonneg observed
  · have hle := (hprice (hS hS')).shareValue_le (hS hS') hS'
    rw [hpeak]
    exact ((hv.within (hS hS')).mono hle).updatePeak hobs

/-- One call that meets the condition gives the breaker no reason to fire. -/
theorem vaultStep_undrawn {i : VaultStep here} (hv : s.Undrawn) (hc : StartsNearPeak s i)
    (h : vaultStep i s = .ok s') : s'.Undrawn := by
  obtain ⟨hsound, hprice⟩ := vaultStep_sound hv.sound h
  have hobs : ∀ x, calculateShareValue s'.totalAssets s'.totalShares = some x →
      x = shareValue s'.totalAssets s'.totalShares :=
    fun x hx => (calculateShareValue_eq_some hsound.assets_nonneg hx).2
  obtain ⟨env, call⟩ := i
  cases call with
  | initVault admin asset feeRecipient =>
    obtain ⟨r, h⟩ := snd_map_eq_ok.mp h
    obtain ⟨_, rfl⟩ := initVault_eq_ok h
    exact ⟨hsound, hv.armed, hv.running, hv.peak_nonneg, fun h => absurd h (lt_irrefl 0)⟩
  | setPerformanceFee admin feeBps =>
    obtain ⟨r, h⟩ := snd_map_eq_ok.mp h
    obtain ⟨config, _, _, rfl⟩ := setPerformanceFee_eq_ok h
    exact ⟨hsound, hv.armed, hv.running, hv.peak_nonneg, hv.within⟩
  | deposit depositor amount =>
    obtain ⟨r, h⟩ := snd_map_eq_ok.mp h
    obtain ⟨config, _, _, _, _, hminted, rfl, _⟩ := deposit_eq_ok h
    rcases hv.sound.totalShares_nonneg.lt_or_eq with hS | hS
    · exact hv.of_priceKept hsound hprice (fun _ => hS) ⟨rfl, rfl⟩ _ rfl hobs
    · -- Nothing is known of the new price but the condition.
      have hstart := hc ⟨_, h⟩ hS.symm
      obtain rfl := mintedShares_first hS.symm hminted
      refine ⟨hsound, hv.armed, hv.running, updatePeakShareValue_nonneg hv.peak_nonneg _,
        fun _ => ?_⟩
      apply WithinDrawdown.updatePeak _ hobs
      have hshares : s.totalShares + amount.1 = amount.1 := by omega
      simpa only [Vault.deposited, hshares] using hstart
  | withdraw owner shares =>
    obtain ⟨r, h⟩ := snd_map_eq_ok.mp h
    obtain ⟨config, hadm, rfl⟩ := withdraw_eq_ok.mp h
    obtain ⟨hS, _⟩ := hadm.owed_floor hv.sound
    exact hv.of_priceKept hsound hprice (fun _ => hS) ⟨rfl, rfl⟩ none rfl
      fun _ h => absurd h (by simp)
  | harvest keeper yieldAmount =>
    obtain ⟨r, h⟩ := snd_map_eq_ok.mp h
    obtain ⟨config, tokens, _, _, rfl, _⟩ := harvest_eq_ok h
    exact hv.of_priceKept hsound hprice id ⟨rfl, rfl⟩ _ rfl hobs
  | flashLoan borrower amount =>
    obtain ⟨r, h⟩ := snd_map_eq_ok.mp h
    obtain ⟨config, tokens, _, _, _, _, _, rfl⟩ := flashLoan_eq_ok h
    exact ⟨hsound, hv.armed, hv.running, hv.peak_nonneg, hv.within⟩

end Steps

theorem undrawn_fresh (tokens : Tokens) : (VaultState.fresh tokens).Undrawn :=
  ⟨sound_fresh tokens, rfl, rfl, le_rfl, fun h => absurd h (lt_irrefl 0)⟩

/-- In every state of a run whose deposits into a vault without shares start near the peak,
the breaker stays silent. -/
theorem noFalseDrawdown_throughout (tokens : Tokens) (run : List (VaultStep here))
    (hrun : Along vaultStep StartsNearPeak (.fresh tokens) run) :
    Throughout vaultStep (NoFalseDrawdown here) (.fresh tokens) run := by
  have hundrawn : Throughout vaultStep (fun s => s.Undrawn) (.fresh tokens) run :=
    throughout_of_along (fun _ _ _ hv hc h => vaultStep_undrawn hv hc h) (undrawn_fresh tokens) hrun
  exact hundrawn.imp fun _ hv => hv.noFalseDrawdown

/-- A depositor leaves with the given yield and comes back. -/
def returnRun (yieldAmount : i128.Value) : List (VaultStep ⟨0⟩) :=
  [vaultCall (.initVault ⟨9⟩ ⟨1⟩ ⟨8⟩), vaultCall (.deposit ⟨2⟩ (units 1000)),
   vaultCall (.harvest ⟨7⟩ yieldAmount), vaultCall (.withdraw ⟨2⟩ (units 1000)),
   vaultCall (.deposit ⟨2⟩ (units 1000))]

/-- A yield of 5% is within the admitted drawdown. -/
theorem returnRun_undrawn :
    Along vaultStep StartsNearPeak (.fresh outsideTokens) (returnRun (units 50)) ∧
      Throughout vaultStep (NoFalseDrawdown ⟨0⟩) (.fresh outsideTokens) (returnRun (units 50)) := by
  have hrun : Along vaultStep StartsNearPeak (.fresh outsideTokens) (returnRun (units 50)) := by
    refine ⟨trivial, fun _ _ => ?_, trivial, trivial, fun _ _ => ?_, trivial⟩
    · decide +kernel
    · decide +kernel
  exact ⟨hrun, noFalseDrawdown_throughout _ _ hrun⟩

/-- Yield of 98% was paid out, so the same deposit counts as a loss of almost a half, and the
next harvest is refused. -/
theorem returnRun_false_drawdown :
    let s := runAll vaultStep (.fresh outsideTokens) (returnRun (units 1000))
    ¬ checkAndTriggerCircuitBreaker s.toVault = .ok (false, s.toVault) ∧
      harvest vaultEnv ⟨7⟩ 1000 s = .error (Fault.error .vaultMaxDrawdownExceeded) := by
  intro s
  have hfires : Prod.fst <$> checkAndTriggerCircuitBreaker s.toVault = .ok true := by
    decide +kernel
  have hrefused : Prod.fst <$> harvest vaultEnv ⟨7⟩ 1000 s =
      .error (Fault.error .vaultMaxDrawdownExceeded) := by
    decide +kernel
  refine ⟨fun h => ?_, ?_⟩
  · rw [h] at hfires
    simp [Functor.map, Except.map] at hfires
  · exact map_eq_error.mp hrefused

end StellarFlow.Vaults
