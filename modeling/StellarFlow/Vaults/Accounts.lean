import StellarFlow.Vaults.Autocompound

/-!
# Shares and assets of the vault

What an accepted call does, and what follows for shares and assets: the shares of all
holders add up to the total, a vault with shares has assets, and the assets per share never
fall. A depositor gets back at most what it brought, except into a vault whose yield has no
owner: the first depositor owns it all.
-/
namespace StellarFlow.Vaults

open Foundation

variable {here : Address} {env : VaultEnv here} {s s' : VaultState} {v : Vault}
  {depositor owner keeper : Address} {amount n owed minted : ℤ} {config : VaultConfig}

section Accepted

@[simp] theorem assertBalanceInvariant_eq_ok {u : Unit} :
    assertBalanceInvariant here config s = .ok u ↔
      s.tokens config.asset here = s.totalAssets := by
  simp [assertBalanceInvariant]

theorem feeOf_eq_ok {feeBps : ℕ} {fee : ℤ} (h0 : 0 ≤ amount) (h : feeOf amount feeBps = .ok fee) :
    fee = amount * feeBps / 10000 := by
  simp only [feeOf, bpsDenominator, bind_eq_ok, okOr_eq_ok, IntRange.check_eq_some] at h
  obtain ⟨_, ⟨hfits, rfl⟩, hdiv⟩ := h
  rw [IntRange.checkedDiv_of_nonneg hfits (by positivity) (by norm_num)] at hdiv
  exact (Option.some.inj hdiv).symm

/-- The storage after a deposit. -/
def Vault.deposited (v : Vault) (depositor : Address) (amount minted : ℤ) : Vault :=
  { v with
    totalAssets := v.totalAssets + amount
    totalShares := v.totalShares + minted
    peakShareValue := updatePeakShareValue v.peakShareValue
      (calculateShareValue (v.totalAssets + amount) (v.totalShares + minted))
    shares := v.setShareBalance depositor (v.shareBalanceOf depositor + minted) }

/-- The storage after a withdrawal. -/
def Vault.withdrawn (v : Vault) (owner : Address) (n owed : ℤ) : Vault :=
  { v with
    totalAssets := v.totalAssets - owed
    totalShares := v.totalShares - n
    shares := v.setShareBalance owner (v.shareBalanceOf owner - n) }

/-- The storage after a harvest. -/
def Vault.harvested (v : Vault) (compounded : ℤ) : Vault :=
  { v with
    totalAssets := v.totalAssets + compounded
    peakShareValue := updatePeakShareValue v.peakShareValue
      (calculateShareValue (v.totalAssets + compounded) v.totalShares) }

theorem deposit_eq_ok (h : deposit env depositor amount s = .ok (minted, s')) :
    ∃ config, s.config = some config ∧ env.auth depositor = true ∧ 0 < amount ∧ 0 < minted ∧
      mintedShares s.toVault amount = .ok minted ∧
      s' = { s.toVault.deposited depositor amount minted with
        tokens := s.tokens.move config.asset depositor here amount } ∧
      s'.tokens config.asset here = s'.totalAssets := by
  simp only [deposit, bind_eq_ok, failIf_eq_ok, okOr_eq_ok, Env.requireAuth_eq_ok,
    assertBalanceInvariant_eq_ok, Env.transfer_eq_ok, IntRange.check_eq_some, pure_eq_ok,
    Prod.mk.injEq, not_le] at h
  obtain ⟨_, hpos, config, hc, _, hauth, _, _, m, hm, _, hmpos, _, ⟨_, rfl⟩, _, ⟨_, rfl⟩, _,
    ⟨_, rfl⟩, _, ⟨_, rfl⟩, _, hafter, rfl, rfl⟩ := h
  exact ⟨config, hc, hauth, hpos, hmpos, hm, rfl, hafter⟩

/-- The checks of a withdrawal that pays the given amount. -/
structure WithdrawalAdmitted (env : VaultEnv here) (owner : Address) (n owed : ℤ)
    (config : VaultConfig) (s : VaultState) : Prop where
  config_eq : s.config = some config
  shares_pos : 0 < n
  auth : env.auth owner = true
  held : s.tokens config.asset here = s.totalAssets
  covered : n ≤ s.shareBalanceOf owner
  supply : s.totalShares ≠ 0
  product_fits : i128.Fits (n * s.totalAssets)
  owed_eq : i128.checkedDiv (n * s.totalAssets) s.totalShares = some owed
  owed_pos : 0 < owed
  owed_le : owed ≤ s.totalAssets
  balance_fits : i128.Fits (s.shareBalanceOf owner - n)
  supply_fits : i128.Fits (s.totalShares - n)
  assets_fit : i128.Fits (s.totalAssets - owed)
  accepted : env.accepts s.tokens config.asset here owner owed = true

theorem withdraw_eq_ok :
    withdraw env owner n s = .ok (owed, s') ↔
      ∃ config, WithdrawalAdmitted env owner n owed config s ∧
        s' = { s.toVault.withdrawn owner n owed with
          tokens := s.tokens.move config.asset here owner owed } := by
  simp only [withdraw, bind_eq_ok, failIf_eq_ok, okOr_eq_ok, Env.requireAuth_eq_ok,
    assertBalanceInvariant_eq_ok, Env.transfer_eq_ok, IntRange.check_eq_some, pure_eq_ok,
    Prod.mk.injEq, not_le, not_or, not_lt]
  constructor
  · rintro ⟨_, hpos, config, hc, _, hauth, _, hheld, _, hcov, _, hsup, _, ⟨hfits, rfl⟩, _, howed,
      _, ⟨howed0, howedle⟩, _, ⟨hb, rfl⟩, _, ⟨hts, rfl⟩, _, ⟨hta, rfl⟩, _, ⟨hacc, rfl⟩, _, _, rfl,
      rfl⟩
    exact ⟨config, ⟨hc, hpos, hauth, hheld, hcov, hsup, hfits, howed, howed0, howedle, hb, hts, hta,
      hacc⟩, rfl⟩
  · rintro ⟨config, h, rfl⟩
    refine ⟨(), h.shares_pos, config, h.config_eq, (), h.auth, (), h.held, (), h.covered, (),
      h.supply, _, ⟨h.product_fits, rfl⟩, owed, h.owed_eq, (), ⟨h.owed_pos, h.owed_le⟩, _,
      ⟨h.balance_fits, rfl⟩, _, ⟨h.supply_fits, rfl⟩, _, ⟨h.assets_fit, rfl⟩, _, ⟨h.accepted, rfl⟩,
      (), ?_, rfl, rfl⟩
    have hne := (Env.ne_here_of_auth h.auth).symm
    rw [Tokens.move_apply_src _ _ _ hne, if_pos rfl, h.held]

/-- The checks depend on the storage, the signature, the balance and the token only. -/
theorem WithdrawalAdmitted.transport {env' : VaultEnv here} {t : Tokens}
    (h : WithdrawalAdmitted env owner n owed config s) (hauth : env'.auth owner = true)
    (hheld : t config.asset here = s.totalAssets)
    (hacc : env'.accepts t config.asset here owner owed = true) :
    WithdrawalAdmitted env' owner n owed config { s with tokens := t } :=
  { h with auth := hauth, held := hheld, accepted := hacc }

theorem harvest_eq_ok {y : ℤ} {r : HarvestResult} (h : harvest env keeper y s = .ok (r, s')) :
    ∃ config tokens, s.config = some config ∧ 0 < y ∧
      s' = { s.toVault.harvested (y - y * config.feeBps / 10000) with tokens } ∧
      s'.tokens config.asset here = s'.totalAssets := by
  simp only [harvest, bind_eq_ok, failIf_eq_ok, okOr_eq_ok, Env.requireAuth_eq_ok,
    assertBalanceInvariant_eq_ok, Env.transfer_eq_ok, IntRange.check_eq_some, pure_eq_ok,
    Prod.mk.injEq, not_le] at h
  obtain ⟨_, _, _, hpos, config, hc, _, _, ⟨_, _⟩, _, _, _, _, _, _, ⟨_, rfl⟩, fee, hfee, _,
    ⟨_, rfl⟩, tokens, _, _, ⟨_, rfl⟩, _, hafter, _, rfl⟩ := h
  rw [feeOf_eq_ok hpos.le hfee] at hafter ⊢
  exact ⟨config, tokens, hc, hpos, rfl, hafter⟩

theorem flashLoan_eq_ok {borrower : Address} {r : ℤ}
    (h : flashLoan env borrower amount s = .ok (r, s')) :
    ∃ config tokens, s.config = some config ∧ 0 < amount ∧ r = amount * config.feeBps / 10000 ∧
      env.onFlashLoan borrower config.asset amount r
        (s.tokens.move config.asset here borrower amount) = some tokens ∧
      s.tokens config.asset here + r ≤ tokens config.asset here ∧ s' = { s with tokens } := by
  simp only [flashLoan, bind_eq_ok, failIf_eq_ok, okOr_eq_ok, Env.transfer_eq_ok,
    IntRange.check_eq_some, pure_eq_ok, Prod.mk.injEq, not_le, not_lt] at h
  obtain ⟨_, hpos, config, hc, fee, hfee, _, ⟨_, rfl⟩, _, ⟨_, rfl⟩, tokens, hcallback, _, hle, rfl,
    rfl⟩ := h
  exact ⟨config, tokens, hc, hpos, feeOf_eq_ok hpos.le hfee, hcallback, hle, rfl⟩

theorem initVault_eq_ok {admin asset feeRecipient : Address} {r : VaultConfig}
    (h : initVault env admin asset feeRecipient s = .ok (r, s')) :
    s.config = none ∧ s' = { s with
      config := some ⟨admin, asset, 200, feeRecipient⟩, totalShares := 0, totalAssets := 0 } := by
  simp only [initVault, bind_eq_ok, failIf_eq_ok, Bool.not_eq_true, Option.isSome_eq_false_iff,
    Option.isNone_iff_eq_none, pure_eq_ok, Prod.mk.injEq] at h
  obtain ⟨_, hnone, _, _, _, rfl⟩ := h
  exact ⟨hnone, rfl⟩

theorem setPerformanceFee_eq_ok {admin : Address} {feeBps : ℕ} {r : VaultConfig}
    (h : setPerformanceFee env admin feeBps s = .ok (r, s')) :
    ∃ config, s.config = some config ∧ feeBps ≤ 2000 ∧
      s' = { s with config := some { config with feeBps } } := by
  simp only [setPerformanceFee, bind_eq_ok, failIf_eq_ok, okOr_eq_ok, pure_eq_ok,
    Prod.mk.injEq, not_lt] at h
  obtain ⟨config, hc, _, _, _, _, _, hle, _, rfl⟩ := h
  exact ⟨config, hc, hle, rfl⟩

end Accepted

/-- Shares and assets in every reachable state. -/
structure Vault.Sound (v : Vault) : Prop where
  total_eq : Store.total (fun _ balance => balance) v.shares = v.totalShares
  nonneg : ∀ holder balance, v.shares.lookup holder = some balance → 0 ≤ balance
  assets_nonneg : 0 ≤ v.totalAssets
  assets_pos : 0 < v.totalShares → 0 < v.totalAssets
  fee_le : ∀ config, v.config = some config → config.feeBps ≤ 2000
  unset : v.config = none → v.totalShares = 0 ∧ v.totalAssets = 0

/-- The assets per share are not smaller afterwards. -/
def Vault.PriceKept (v v' : Vault) : Prop :=
  v.totalAssets * v'.totalShares ≤ v'.totalAssets * v.totalShares

section Shares

theorem shareBalanceOf_eq_part (v : Vault) (holder : Address) :
    v.shareBalanceOf holder = Store.part (fun _ balance => balance) v.shares holder := by
  unfold Vault.shareBalanceOf Store.part
  cases v.shares.lookup holder <;> rfl

theorem Vault.Sound.shareBalanceOf_nonneg (hv : v.Sound) (holder : Address) :
    0 ≤ v.shareBalanceOf holder := by
  unfold Vault.shareBalanceOf
  cases h : v.shares.lookup holder with
  | none => exact le_rfl
  | some balance => exact hv.nonneg holder balance h

theorem Vault.Sound.shareBalanceOf_le (hv : v.Sound) (holder : Address) :
    v.shareBalanceOf holder ≤ v.totalShares := by
  rw [shareBalanceOf_eq_part, ← hv.total_eq]
  exact Store.part_le_total hv.nonneg holder

theorem Vault.Sound.totalShares_nonneg (hv : v.Sound) : 0 ≤ v.totalShares := by
  rw [← hv.total_eq]
  exact Store.total_nonneg hv.nonneg

/-- Changing the balance of one holder changes the sum by as much. -/
theorem Vault.Sound.total_setShareBalance (hv : v.Sound) (holder : Address) (balance : ℤ) :
    Store.total (fun _ balance => balance) (v.setShareBalance holder balance) =
      v.totalShares - v.shareBalanceOf holder + balance := by
  have htotal := Store.total_write_or_erase (fun _ balance => balance) v.shares holder balance rfl
  rw [← shareBalanceOf_eq_part, hv.total_eq] at htotal
  unfold Vault.setShareBalance
  linarith

theorem Vault.Sound.nonneg_setShareBalance (hv : v.Sound) {holder : Address} {balance : ℤ}
    (h0 : 0 ≤ balance) {other : Address} {x : ℤ}
    (h : (v.setShareBalance holder balance).lookup other = some x) : 0 ≤ x := by
  unfold Vault.setShareBalance at h
  split_ifs at h
  · rw [Store.lookup_erase_ite] at h
    split_ifs at h
    exact hv.nonneg other x h
  · rcases Store.lookup_insert_eq_some.mp h with ⟨_, rfl⟩ | ⟨_, h⟩
    · exact h0
    · exact hv.nonneg other x h

end Shares

section Storage

theorem mintedShares_mul_le (hv : v.Sound) (hS : 0 < v.totalShares) (hamount : 0 ≤ amount)
    (h : mintedShares v amount = .ok minted) :
    minted * v.totalAssets ≤ amount * v.totalShares := by
  have hA := hv.assets_pos hS
  simp only [mintedShares, hS.ne', hA.ne', or_self, if_false, bind_eq_ok, okOr_eq_ok,
    IntRange.check_eq_some] at h
  obtain ⟨_, ⟨hfits, rfl⟩, hdiv⟩ := h
  rw [IntRange.checkedDiv_of_nonneg hfits (by positivity) hA] at hdiv
  rw [← Option.some.inj hdiv]
  exact Int.ediv_mul_le _ hA.ne'

theorem mintedShares_first (hS : v.totalShares = 0) (h : mintedShares v amount = .ok minted) :
    minted = amount := by
  simp only [mintedShares, hS, true_or, if_true, pure_eq_ok] at h
  exact h.symm

theorem Vault.Sound.deposited (hv : v.Sound) (hc : v.config ≠ none) (hamount : 0 < amount)
    (hpos : 0 < minted) (h : mintedShares v amount = .ok minted) :
    (v.deposited depositor amount minted).Sound ∧
      (0 < v.totalShares → v.PriceKept (v.deposited depositor amount minted)) := by
  have hA := hv.assets_nonneg
  have hbalance := hv.shareBalanceOf_nonneg depositor
  refine ⟨⟨?_, ?_, ?_, ?_, hv.fee_le, fun h => absurd h hc⟩, fun hS => ?_⟩
  · rw [Vault.deposited, hv.total_setShareBalance]
    dsimp only
    ring
  · exact fun other x hx => hv.nonneg_setShareBalance (by omega) hx
  · exact add_nonneg hA hamount.le
  · exact fun _ => add_pos_of_nonneg_of_pos hA hamount
  · exact ratio_le_of_mint (mintedShares_mul_le hv hS hamount.le h)

/-- What a withdrawal pays is the floor of the proportional part. -/
theorem WithdrawalAdmitted.owed_floor (h : WithdrawalAdmitted env owner n owed config s)
    (hv : s.Sound) : 0 < s.totalShares ∧ owed = n * s.totalAssets / s.totalShares := by
  have hS : 0 < s.totalShares := lt_of_le_of_ne hv.totalShares_nonneg h.supply.symm
  have hA := hv.assets_pos hS
  have hn := h.shares_pos
  have howed := h.owed_eq
  rw [IntRange.checkedDiv_of_nonneg h.product_fits (by positivity) hS] at howed
  exact ⟨hS, (Option.some.inj howed).symm⟩

theorem WithdrawalAdmitted.sound (h : WithdrawalAdmitted env owner n owed config s)
    (hv : s.Sound) : (s.toVault.withdrawn owner n owed).Sound ∧
      s.PriceKept (s.toVault.withdrawn owner n owed) := by
  obtain ⟨hS, howed⟩ := h.owed_floor hv
  have hA := hv.assets_pos hS
  have hcov := h.covered
  have hle := hv.shareBalanceOf_le owner
  refine ⟨⟨?_, ?_, ?_, ?_, hv.fee_le, fun hnone => ?_⟩, ?_⟩
  · rw [Vault.withdrawn, hv.total_setShareBalance]
    dsimp only
    ring
  · exact fun other x hx => hv.nonneg_setShareBalance (by omega) hx
  · exact sub_nonneg.mpr h.owed_le
  · intro hpos
    have hlt : n < s.totalShares := sub_pos.mp hpos
    apply sub_pos.mpr
    rw [howed, mul_comm]
    exact floor_part_lt hA hS hlt
  · exact absurd (hnone.symm.trans h.config_eq) (by simp)
  · apply ratio_le_of_burn
    rw [howed, mul_comm s.totalAssets]
    exact Int.ediv_mul_le _ hS.ne'

theorem compounded_nonneg {y : ℤ} {feeBps : ℕ} (hy : 0 < y) (hfee : feeBps ≤ 2000) :
    0 ≤ y - y * feeBps / 10000 := by
  have hle : y * feeBps ≤ y * 10000 := by
    apply mul_le_mul_of_nonneg_left _ hy.le
    omega
  have hfloor : y * feeBps / 10000 ≤ y * 10000 / 10000 := Int.ediv_le_ediv (by norm_num) hle
  rw [Int.mul_ediv_cancel _ (by norm_num)] at hfloor
  omega

theorem Vault.Sound.harvested {compounded : ℤ} (hv : v.Sound) (hc : v.config ≠ none)
    (h0 : 0 ≤ compounded) :
    (v.harvested compounded).Sound ∧ v.PriceKept (v.harvested compounded) := by
  refine ⟨⟨hv.total_eq, hv.nonneg, add_nonneg hv.assets_nonneg h0, fun hS => ?_, hv.fee_le,
    fun h => absurd h hc⟩, ?_⟩
  · exact add_pos_of_pos_of_nonneg (hv.assets_pos hS) h0
  · exact mul_le_mul_of_nonneg_right (le_add_of_nonneg_right h0) hv.totalShares_nonneg

theorem Vault.PriceKept.refl (v : Vault) : v.PriceKept v := le_rfl

/-- One call keeps the accounts and, from a vault with shares, the price of a share. -/
theorem vaultStep_sound {i : VaultStep here} (hv : s.Sound) (h : vaultStep i s = .ok s') :
    s'.Sound ∧ (0 < s.totalShares → s.PriceKept s'.toVault) := by
  obtain ⟨env, call⟩ := i
  cases call with
  | initVault admin asset feeRecipient =>
    obtain ⟨r, h⟩ := snd_map_eq_ok.mp h
    obtain ⟨hnone, rfl⟩ := initVault_eq_ok h
    obtain ⟨hS, _⟩ := hv.unset hnone
    refine ⟨⟨?_, hv.nonneg, le_rfl, fun h => absurd h (lt_irrefl 0), ?_, ?_⟩,
      fun h => absurd hS h.ne'⟩
    · rw [← hS]
      exact hv.total_eq
    · intro config hc
      obtain rfl := Option.some.inj hc
      exact (by norm_num : (200 : ℕ) ≤ 2000)
    · exact fun h => absurd h (by simp)
  | setPerformanceFee admin feeBps =>
    obtain ⟨r, h⟩ := snd_map_eq_ok.mp h
    obtain ⟨config, hc, hle, rfl⟩ := setPerformanceFee_eq_ok h
    refine ⟨⟨hv.total_eq, hv.nonneg, hv.assets_nonneg, hv.assets_pos, ?_, ?_⟩, fun _ => .refl _⟩
    · intro config' hc'
      obtain rfl := Option.some.inj hc'
      exact hle
    · exact fun h => absurd h (by simp)
  | deposit depositor amount =>
    obtain ⟨r, h⟩ := snd_map_eq_ok.mp h
    obtain ⟨config, hc, _, hpos, hm, hminted, rfl, _⟩ := deposit_eq_ok h
    exact hv.deposited (by simp [hc]) hpos hm hminted
  | withdraw owner shares =>
    obtain ⟨r, h⟩ := snd_map_eq_ok.mp h
    obtain ⟨config, hadm, rfl⟩ := withdraw_eq_ok.mp h
    obtain ⟨hsound, hprice⟩ := hadm.sound hv
    exact ⟨hsound, fun _ => hprice⟩
  | harvest keeper yieldAmount =>
    obtain ⟨r, h⟩ := snd_map_eq_ok.mp h
    obtain ⟨config, tokens, hc, hpos, rfl, _⟩ := harvest_eq_ok h
    obtain ⟨hsound, hprice⟩ := hv.harvested (by simp [hc])
      (compounded_nonneg hpos (hv.fee_le config hc))
    exact ⟨hsound, fun _ => hprice⟩
  | flashLoan borrower amount =>
    obtain ⟨r, h⟩ := snd_map_eq_ok.mp h
    obtain ⟨config, tokens, _, _, _, _, _, rfl⟩ := flashLoan_eq_ok h
    exact ⟨hv, fun _ => .refl _⟩

theorem sound_fresh (tokens : Tokens) : (VaultState.fresh tokens).Sound :=
  ⟨rfl, fun _ _ h => by simp [VaultState.fresh, Vault.empty] at h, le_rfl,
    fun h => absurd h (lt_irrefl 0), fun _ h => absurd h.symm (Option.some_ne_none _),
    fun _ => ⟨rfl, rfl⟩⟩

end Storage

section Fairness

/-- A deposit that is withdrawn at once returns at most what it brought into a vault with
shares or without assets, and all of the assets out of a vault without shares. -/
def RoundTripFair (here : Address) (s : VaultState) : Prop :=
  ∀ (env env' : VaultEnv here) depositor amount minted s₁ owed s₂,
    deposit env depositor amount s = .ok (minted, s₁) →
    withdraw env' depositor minted s₁ = .ok (owed, s₂) →
    (0 < s.totalShares ∨ s.totalAssets = 0 → owed ≤ amount) ∧
    (s.totalShares = 0 → owed = amount + s.totalAssets)

/-- The shares of all holders are the total, shares have assets behind them, and a round trip
is fair. -/
def Fair (here : Address) (s : VaultState) : Prop :=
  Store.total (fun _ balance => balance) s.shares = s.totalShares ∧
    (0 < s.totalShares → 0 < s.totalAssets) ∧ RoundTripFair here s

/-- Between two states with shares the price of a share does not fall. -/
def KeepsPrice (s : VaultState) (i : VaultStep here) : Prop :=
  0 < s.totalShares → 0 < (commit vaultStep s i).totalShares →
    s.totalAssets * (commit vaultStep s i).totalShares ≤
      (commit vaultStep s i).totalAssets * s.totalShares

theorem Vault.Sound.roundTripFair (hv : s.Sound) : RoundTripFair here s := by
  intro env env' depositor amount minted s₁ owed s₂ hdep hwd
  obtain ⟨config, hc, _, hpos, hm, hminted, rfl, _⟩ := deposit_eq_ok hdep
  obtain ⟨config', hadm, _⟩ := withdraw_eq_ok.mp hwd
  have hsound : (s.toVault.deposited depositor amount minted).Sound :=
    (hv.deposited (by simp [hc]) hpos hm hminted).1
  obtain ⟨hS', howed⟩ := hadm.owed_floor hsound
  replace howed : owed = minted * (s.totalAssets + amount) / (s.totalShares + minted) := howed
  replace hS' : 0 < s.totalShares + minted := hS'
  have hempty : s.totalShares = 0 → owed = amount + s.totalAssets := by
    intro hS
    obtain rfl := mintedShares_first hS hminted
    rw [howed, hS, zero_add, Int.mul_ediv_cancel_left _ hm.ne', add_comm]
  refine ⟨fun h => ?_, hempty⟩
  rcases hv.totalShares_nonneg.lt_or_eq with hS | hS
  · have hle := mintedShares_mul_le hv hS hpos.le hminted
    rw [howed]
    apply Int.ediv_le_of_le_mul hS'
    calc minted * (s.totalAssets + amount) = minted * s.totalAssets + minted * amount := by ring
      _ ≤ amount * s.totalShares + minted * amount := Int.add_le_add_right hle _
      _ = amount * (s.totalShares + minted) := by ring
  · have hA : s.totalAssets = 0 := h.resolve_left hS.ge.not_gt
    rw [hempty hS.symm, hA, add_zero]

theorem Vault.Sound.keepsPrice (hv : s.Sound) (i : VaultStep here) : KeepsPrice s i := by
  intro hS _
  cases h : vaultStep i s with
  | error e =>
    rw [commit_of_error h]
  | ok s' =>
    rw [commit_of_ok h]
    exact (vaultStep_sound hv h).2 hS

/-- Every run of the vault keeps the accounts and fair round trips in every state, and the
price of a share at every call. -/
theorem vaultRun_fair (tokens : Tokens) (run : List (VaultStep here)) :
    Throughout vaultStep (Fair here) (.fresh tokens) run ∧
      Along vaultStep KeepsPrice (.fresh tokens) run := by
  have hstep : ∀ s (i : VaultStep here) s', s.Sound → vaultStep i s = .ok s' → s'.Sound :=
    fun _ _ _ hv h => (vaultStep_sound hv h).1
  constructor
  · exact throughout_of_invariant hstep (fun _ hv => ⟨hv.total_eq, hv.assets_pos, hv.roundTripFair⟩)
      (sound_fresh tokens) run
  · exact along_of_invariant hstep (fun _ i hv => hv.keepsPrice i) (sound_fresh tokens) run

/-- Everybody signs, and a borrower pays back what it owes. -/
def vaultEnv : VaultEnv ⟨0⟩ :=
  { Env.standard ⟨0⟩ 1 none with
    onFlashLoan := fun borrower asset amount fee t =>
      some (t.move asset borrower ⟨0⟩ (amount + fee)) }

def vaultCall (call : VaultCall) : VaultStep ⟨0⟩ := (vaultEnv, call)

/-- Everybody but the contract is rich. -/
def outsideTokens : Tokens := fun _ holder => if holder = ⟨0⟩ then 0 else 1000000

/-- Yield arrives while nobody has shares. -/
def ownerlessYieldRun : List (VaultStep ⟨0⟩) :=
  [vaultCall (.initVault ⟨9⟩ ⟨1⟩ ⟨8⟩), vaultCall (.harvest ⟨7⟩ (units 1000))]

/-- Deposit and withdraw at once. -/
def roundTrip (depositor : Address) (amount : ℤ) (s : VaultState) : Except Fault ℤ := do
  let (minted, s) ← deposit vaultEnv depositor amount s
  let (owed, _) ← withdraw vaultEnv depositor minted s
  pure owed

theorem ownerlessYieldRun_unfair :
    ¬ ∀ (env env' : VaultEnv ⟨0⟩) depositor amount minted s₁ owed s₂,
      deposit env depositor amount (runAll vaultStep (.fresh outsideTokens) ownerlessYieldRun) =
        .ok (minted, s₁) →
      withdraw env' depositor minted s₁ = .ok (owed, s₂) → owed ≤ amount := by
  intro h
  have htrip : roundTrip ⟨2⟩ 100
      (runAll vaultStep (.fresh outsideTokens) ownerlessYieldRun) = .ok 1080 := by
    decide +kernel
  simp only [roundTrip, bind_eq_ok, pure_eq_ok, Prod.exists] at htrip
  obtain ⟨minted, s₁, hdep, owed, s₂, hwd, rfl⟩ := htrip
  exact absurd (h _ _ _ _ _ _ _ _ hdep hwd) (by norm_num)

end Fairness

end StellarFlow.Vaults
