import StellarFlow.Vaults.Farming

/-!
# Accounts of the farm

What an accepted call does to the pool and to the account of its user. A stake, a claim and
an exit are one kind of change: the pool is brought up to the ledger, the user is settled,
its shares become a new number with the debt that belongs to them, and a reward is paid or
not.
-/
namespace StellarFlow.Vaults

open Foundation

variable {here : Address} {env : Env here} {s s' : FarmState} {f f' : Farm} {user : Address}
  {config : FarmingConfig} {ledger : ℕ} {acc amount n reward : ℤ}

section Storage

theorem readI128_writeI128 (entries : Store Address ℤ) (user u : Address) (value : ℤ) :
    readI128 (writeI128 entries user value) u = if u = user then value else readI128 entries u := by
  unfold readI128 writeI128
  by_cases hu : u = user
  · subst hu
    rw [if_pos rfl]
    split_ifs with hv <;> simp [hv]
  · rw [if_neg hu]
    split_ifs
    · rw [Store.lookup_erase_ite, if_neg hu]
    · rw [Store.lookup_insert_ite, if_neg hu]

theorem readI128_eq_part (entries : Store Address ℤ) (user : Address) :
    readI128 entries user = Store.part (fun _ value => value) entries user := by
  unfold readI128 Store.part
  cases entries.lookup user <;> rfl

theorem total_writeI128 (entries : Store Address ℤ) (user : Address) (value : ℤ) :
    Store.total (fun _ value => value) (writeI128 entries user value) =
      Store.total (fun _ value => value) entries - readI128 entries user + value := by
  have htotal := Store.total_write_or_erase (fun _ value => value) entries user value rfl
  rw [← readI128_eq_part] at htotal
  unfold writeI128
  linarith

/-- Without zero entries, writing back what was read changes nothing. -/
theorem writeI128_readI128 {entries : Store Address ℤ}
    (h : ∀ u value, entries.lookup u = some value → 0 < value) (user : Address) :
    writeI128 entries user (readI128 entries user) = entries := by
  apply Finmap.ext_lookup
  intro u
  unfold writeI128 readI128
  cases hu : entries.lookup user with
  | none =>
    rw [Option.getD_none, if_pos rfl, Store.lookup_erase_ite]
    split_ifs with heq
    · rw [heq, hu]
    · rfl
  | some value =>
    rw [Option.getD_some, if_neg (h user value hu).ne', Store.lookup_insert_ite]
    split_ifs with heq
    · rw [heq, hu]
    · rfl

theorem lookup_writeI128_pos {entries : Store Address ℤ} {value x : ℤ} {u : Address}
    (hpos : ∀ u value, entries.lookup u = some value → 0 < value) (hvalue : 0 ≤ value)
    (h : (writeI128 entries user value).lookup u = some x) : 0 < x := by
  unfold writeI128 at h
  split_ifs at h with hzero
  · rw [Store.lookup_erase_ite] at h
    split_ifs at h
    exact hpos u x h
  · rcases Store.lookup_insert_eq_some.mp h with ⟨_, rfl⟩ | ⟨_, h⟩
    · omega
    · exact hpos u x h

end Storage

/-- Shares, debt and accrued rewards of a user. -/
def Farm.account (f : Farm) (user : Address) : Account :=
  ⟨readI128 f.shares user, readI128 f.rewardDebt user, readI128 f.accruedRewards user⟩

/-- Increase of the reward per share, without bounds on the intermediate results. -/
def accrual (config : FarmingConfig) (elapsed : ℕ) (shares : ℤ) : ℤ :=
  if 0 < shares then
    config.emissionPerLedger * elapsed * config.emissionMultiplier / 10000 * rewardPrecision /
      shares
  else 0

/-- What holds of shares, debts and rewards in every reachable state. -/
structure Farm.Sound (f : Farm) : Prop where
  total_eq : Store.total (fun _ value => value) f.shares = f.totalShares
  total_fits : i128.Fits f.totalShares
  shares_pos : ∀ u value, f.shares.lookup u = some value → 0 < value
  acc_nonneg : 0 ≤ f.accRewardPerShare
  credited_nonneg : ∀ u, 0 ≤ (f.account u).credited
  credited_fits : ∀ u, i128.Fits (f.account u).credited
  backed : ∀ u, (f.account u).Backed rewardPrecision f.accRewardPerShare
  emission_nonneg : ∀ config, f.config = some config → 0 ≤ config.emissionPerLedger
  unset : f.config = none → f.totalShares = 0

theorem Farm.Sound.shares_nonneg (hf : f.Sound) (u : Address) : 0 ≤ (f.account u).shares := by
  unfold Farm.account readI128
  cases h : f.shares.lookup u with
  | none => exact le_rfl
  | some value => exact (hf.shares_pos u value h).le

theorem Farm.Sound.totalShares_nonneg (hf : f.Sound) : 0 ≤ f.totalShares := by
  rw [← hf.total_eq]
  exact Store.total_nonneg fun u value h => (hf.shares_pos u value h).le

theorem Farm.Sound.shares_le (hf : f.Sound) (u : Address) :
    (f.account u).shares ≤ f.totalShares := by
  rw [← hf.total_eq]
  exact (readI128_eq_part _ _).trans_le
    (Store.part_le_total (fun u value h => (hf.shares_pos u value h).le) u)

section Pool

theorem rewardPrecision_pos : 0 < rewardPrecision := by decide

theorem accrual_nonneg (he : 0 ≤ config.emissionPerLedger) (elapsed : ℕ) (shares : ℤ) :
    0 ≤ accrual config elapsed shares := by
  unfold accrual
  split_ifs with hS
  · have hp := rewardPrecision_pos
    positivity
  · exact le_rfl

@[simp] theorem accrual_zero (shares : ℤ) : accrual config 0 shares = 0 := by
  simp [accrual]

theorem rewardPerShare_eq_ok {elapsed : ℕ} {shares : ℤ} (he : 0 ≤ config.emissionPerLedger)
    (hS : 0 < shares) (h : rewardPerShare config elapsed shares = .ok reward) :
    reward = accrual config elapsed shares := by
  have hp := rewardPrecision_pos
  simp only [rewardPerShare, bind_eq_ok, okOr_eq_ok, IntRange.check_eq_some] at h
  obtain ⟨_, ⟨_, rfl⟩, _, ⟨hfits, rfl⟩, emitted, hemitted, _, ⟨hfits', rfl⟩, hdiv⟩ := h
  rw [IntRange.checkedDiv_of_nonneg hfits (by positivity) (by decide)] at hemitted
  obtain rfl := Option.some.inj hemitted
  have h0 : 0 ≤ config.emissionPerLedger * elapsed * config.emissionMultiplier /
      defaultEmissionMultiplier := Int.ediv_nonneg (by positivity) (by decide)
  rw [IntRange.checkedDiv_of_nonneg hfits' (by positivity) hS] at hdiv
  rw [accrual, if_pos hS]
  exact (Option.some.inj hdiv).symm

/-- The pool after an update. -/
def Farm.updated (f : Farm) (ledger : ℕ) (acc : ℤ) : Farm :=
  { f with accRewardPerShare := acc, lastRewardLedger := f.lastRewardLedger.map (max ledger) }

theorem Farm.updated_self (h : f.lastRewardLedger.map (max ledger) = f.lastRewardLedger) :
    f.updated ledger f.accRewardPerShare = f := by
  rw [Farm.updated, h]

theorem updatePool_eq_ok (he : 0 ≤ config.emissionPerLedger)
    (h : updatePool ledger config f = .ok (acc, f')) :
    acc = f.accRewardPerShare +
        accrual config (ledger - f.lastRewardLedger.getD ledger) f.totalShares ∧
      f' = f.updated ledger acc := by
  unfold updatePool at h
  cases hlast : f.lastRewardLedger with
  | none =>
    simp only [hlast, Option.getD_none, le_refl, if_true, pure_eq_ok, Prod.mk.injEq] at h
    obtain ⟨rfl, rfl⟩ := h
    exact ⟨by simp, (Farm.updated_self (by simp [hlast])).symm⟩
  | some last =>
    simp only [hlast, Option.getD_some] at h ⊢
    split_ifs at h with hle hS
    · simp only [pure_eq_ok, Prod.mk.injEq] at h
      obtain ⟨rfl, rfl⟩ := h
      exact ⟨by simp [Nat.sub_eq_zero_of_le hle], (Farm.updated_self (by simp [hlast, hle])).symm⟩
    · simp only [bind_eq_ok, okOr_eq_ok, IntRange.check_eq_some, pure_eq_ok, Prod.mk.injEq] at h
      obtain ⟨reward, hreward, _, ⟨_, rfl⟩, rfl, rfl⟩ := h
      rw [rewardPerShare_eq_ok he hS hreward]
      simp [Farm.updated, hlast, (not_le.mp hle).le]
    · simp only [pure_eq_ok, Prod.mk.injEq] at h
      obtain ⟨rfl, rfl⟩ := h
      simp [Farm.updated, hlast, accrual, hS, (not_le.mp hle).le]

end Pool

section Settling

/-- The checked results of settling a user are in range. -/
structure Settles (f : Farm) (user : Address) (acc : ℤ) : Prop where
  value_fits : i128.Fits ((f.account user).shares * acc)
  pending_fits : i128.Fits ((f.account user).unsettled rewardPrecision acc)
  credited_fits : i128.Fits ((f.account user).settled rewardPrecision acc).credited

theorem rewardValue_eq_ok {shares value : ℤ} (h0 : 0 ≤ shares * acc) :
    rewardValue shares acc = .ok value ↔
      i128.Fits (shares * acc) ∧ value = shares * acc / rewardPrecision := by
  simp only [rewardValue, bind_eq_ok, okOr_eq_ok, IntRange.check_eq_some]
  constructor
  · rintro ⟨_, ⟨hfits, rfl⟩, hdiv⟩
    rw [IntRange.checkedDiv_of_nonneg hfits h0 rewardPrecision_pos] at hdiv
    exact ⟨hfits, (Option.some.inj hdiv).symm⟩
  · rintro ⟨hfits, rfl⟩
    exact ⟨_, ⟨hfits, rfl⟩, IntRange.checkedDiv_of_nonneg hfits h0 rewardPrecision_pos⟩

/-- Nothing but the debt and the accrued rewards of the user changes. -/
structure Settled (f f' : Farm) (user : Address) (acc : ℤ) : Prop where
  frame : ∃ accruedRewards rewardDebt, f' = { f with accruedRewards, rewardDebt }
  account_eq : ∀ u, f'.account u =
    if u = user then (f.account u).settled rewardPrecision acc else f.account u

/-- In a backed account the rewards credited and the unsettled part make the settled account. -/
theorem creditPending_eq_ok {pending : ℤ} (h0 : 0 ≤ pending)
    (hfits : i128.Fits (f.account user).credited) :
    creditPending user pending f = .ok f' →
      i128.Fits ((f.account user).credited + pending) ∧
        ∃ accruedRewards, f' = { f with accruedRewards } ∧ ∀ u, readI128 accruedRewards u =
          if u = user then readI128 f.accruedRewards u + pending
          else readI128 f.accruedRewards u := by
  intro h
  unfold creditPending at h
  split_ifs at h with hpos
  · simp only [bind_eq_ok, okOr_eq_ok, IntRange.check_eq_some, pure_eq_ok] at h
    obtain ⟨_, ⟨hfits', rfl⟩, rfl⟩ := h
    refine ⟨hfits', _, rfl, fun u => ?_⟩
    rw [readI128_writeI128]
    split_ifs with hu
    · rw [hu]
    · rfl
  · obtain rfl : pending = 0 := by omega
    rw [pure_eq_ok] at h
    subst h
    refine ⟨by rwa [add_zero], f.accruedRewards, rfl, fun u => by simp⟩

theorem settleUser_eq_ok (hshares : 0 ≤ (f.account user).shares) (hacc : 0 ≤ acc)
    (hfits : i128.Fits (f.account user).credited)
    (hbacked : (f.account user).Backed rewardPrecision acc) (h : settleUser user acc f = .ok f') :
    Settles f user acc ∧ Settled f f' user acc := by
  simp only [settleUser, bind_eq_ok, okOr_eq_ok, IntRange.check_eq_some, pure_eq_ok] at h
  obtain ⟨value, hvalue, _, ⟨hpending, rfl⟩, f₁, hcredit, rfl⟩ := h
  obtain ⟨hvfits, rfl⟩ := (rewardValue_eq_ok (mul_nonneg hshares hacc)).mp hvalue
  have h0 : 0 ≤ (f.account user).unsettled rewardPrecision acc :=
    Account.unsettled_nonneg_iff.mpr hbacked
  obtain ⟨hcfits, accruedRewards, rfl, hread⟩ := creditPending_eq_ok h0 hfits hcredit
  refine ⟨⟨hvfits, hpending, hcfits⟩, ⟨_, _, rfl⟩, fun u => ?_⟩
  simp only [Farm.account, hread, readI128_writeI128]
  split_ifs with hu
  · subst hu
    rfl
  · rfl

/-- Settling succeeds when its results are in range. -/
theorem Settles.settleUser_ok (h : Settles f user acc) (hshares : 0 ≤ (f.account user).shares)
    (hacc : 0 ≤ acc) : ∃ f', settleUser user acc f = .ok f' := by
  have hvalue := (rewardValue_eq_ok (mul_nonneg hshares hacc)).mpr ⟨h.value_fits, rfl⟩
  have hcredit : ∃ f₁, creditPending user ((f.account user).unsettled rewardPrecision acc) f =
      .ok f₁ := by
    unfold creditPending
    split_ifs
    · simp only [bind_eq_ok, okOr_eq_ok, IntRange.check_eq_some, pure_eq_ok]
      exact ⟨_, _, ⟨h.credited_fits, rfl⟩, rfl⟩
    · exact ⟨f, rfl⟩
  obtain ⟨f₁, hf₁⟩ := hcredit
  simp only [settleUser, bind_eq_ok, okOr_eq_ok, IntRange.check_eq_some, pure_eq_ok]
  exact ⟨_, _, hvalue, _, ⟨h.pending_fits, rfl⟩, f₁, hf₁, rfl⟩

end Settling

section Changes

/-- The pool is up to date and the user is settled. -/
structure Prepared (ledger : ℕ) (config : FarmingConfig) (f f' : Farm) (user : Address) : Prop where
  pool_ok : updatePool ledger config f =
    .ok (f'.accRewardPerShare, f.updated ledger f'.accRewardPerShare)
  acc_eq : f'.accRewardPerShare = f.accRewardPerShare +
    accrual config (ledger - f.lastRewardLedger.getD ledger) f.totalShares
  frame : ∃ accruedRewards rewardDebt, f' =
    { f.updated ledger f'.accRewardPerShare with accruedRewards, rewardDebt }
  settles : Settles f user f'.accRewardPerShare
  account_eq : ∀ u, f'.account u = if u = user then
    (f.account u).settled rewardPrecision f'.accRewardPerShare else f.account u

/-- On top of that the user has a new number of shares and was paid a reward. -/
structure Rebase (ledger : ℕ) (config : FarmingConfig) (f f' : Farm) (user : Address)
    (n reward : ℤ) : Prop where
  config_eq : f.config = some config
  nonneg : 0 ≤ n
  pool_ok : updatePool ledger config f =
    .ok (f'.accRewardPerShare, f.updated ledger f'.accRewardPerShare)
  acc_eq : f'.accRewardPerShare = f.accRewardPerShare +
    accrual config (ledger - f.lastRewardLedger.getD ledger) f.totalShares
  settles : Settles f user f'.accRewardPerShare
  paid : reward = 0 ∨
    reward = ((f.account user).settled rewardPrecision f'.accRewardPerShare).credited
  config_after : f'.config = f.config
  last_eq : f'.lastRewardLedger = f.lastRewardLedger.map (max ledger)
  shares_eq : f'.shares = writeI128 f.shares user n
  total_eq : f'.totalShares = f.totalShares - (f.account user).shares + n
  total_fits : i128.Fits f'.totalShares
  account_eq : ∀ u, f'.account u = if u = user then
    (((f.account u).settled rewardPrecision f'.accRewardPerShare).rebased rewardPrecision
      f'.accRewardPerShare n).pay reward else f.account u

theorem Farm.Sound.prepare (hf : f.Sound) (hc : f.config = some config) {f₁ : Farm}
    (hupdate : updatePool ledger config f = .ok (acc, f₁))
    (hsettle : settleUser user acc f₁ = .ok f') :
    f'.accRewardPerShare = acc ∧ Prepared ledger config f f' user := by
  have he := hf.emission_nonneg config hc
  obtain ⟨hacc, rfl⟩ := updatePool_eq_ok he hupdate
  have hr := accrual_nonneg he (ledger - f.lastRewardLedger.getD ledger) f.totalShares
  have hbacked : (f.account user).Backed rewardPrecision acc := by
    rw [hacc]
    exact (hf.backed user).add rewardPrecision_pos (hf.shares_nonneg user) hr
  have hacc0 := hf.acc_nonneg
  obtain ⟨hsettles, ⟨A, D, rfl⟩, haccount⟩ := settleUser_eq_ok (f := f.updated ledger acc)
    (hf.shares_nonneg user) (by omega) (hf.credited_fits user) hbacked hsettle
  exact ⟨rfl, hupdate, hacc, ⟨A, D, rfl⟩, ⟨hsettles.1, hsettles.2, hsettles.3⟩, haccount⟩

theorem Prepared.acc_nonneg (h : Prepared ledger config f f' user) (hf : f.Sound)
    (hc : f.config = some config) : 0 ≤ f'.accRewardPerShare := by
  rw [h.acc_eq]
  exact add_nonneg hf.acc_nonneg (accrual_nonneg (hf.emission_nonneg config hc) _ _)

theorem Prepared.account_user (h : Prepared ledger config f f' user) :
    f'.account user = (f.account user).settled rewardPrecision f'.accRewardPerShare := by
  rw [h.account_eq, if_pos rfl]

theorem Prepared.shares_eq (h : Prepared ledger config f f' user) : f'.shares = f.shares := by
  obtain ⟨A, D, hframe⟩ := h.frame
  rw [hframe]
  rfl

theorem Prepared.readI128_shares (h : Prepared ledger config f f' user) :
    readI128 f'.shares user = (f.account user).shares := by
  rw [h.shares_eq]
  rfl

theorem Prepared.readI128_rewardDebt (h : Prepared ledger config f f' user) :
    readI128 f'.rewardDebt user =
      (f.account user).shares * f'.accRewardPerShare / rewardPrecision :=
  congrArg Account.debt h.account_user

theorem Prepared.totalShares_eq (h : Prepared ledger config f f' user) :
    f'.totalShares = f.totalShares := by
  obtain ⟨A, D, hframe⟩ := h.frame
  rw [hframe]
  rfl

theorem Prepared.credited_nonneg (h : Prepared ledger config f f' user) (hf : f.Sound)
    (hc : f.config = some config) : 0 ≤ (f'.account user).credited := by
  have hbacked : (f.account user).Backed rewardPrecision f'.accRewardPerShare := by
    rw [h.acc_eq]
    exact (hf.backed user).add rewardPrecision_pos (hf.shares_nonneg user)
      (accrual_nonneg (hf.emission_nonneg config hc) _ _)
  rw [h.account_user]
  exact add_nonneg (hf.credited_nonneg user) (Account.unsettled_nonneg_iff.mpr hbacked)

/-- The rest of a change once the accounts are known. -/
theorem Prepared.rebase {f₂ : Farm} (h : Prepared ledger config f f₂ user)
    (hc : f.config = some config) (hn : 0 ≤ n)
    (hpaid : reward = 0 ∨ reward = (f₂.account user).credited)
    (hframe : f'.config = f₂.config ∧ f'.accRewardPerShare = f₂.accRewardPerShare ∧
      f'.lastRewardLedger = f₂.lastRewardLedger)
    (hshares : f'.shares = writeI128 f₂.shares user n)
    (htotal : f'.totalShares = f₂.totalShares - readI128 f₂.shares user + n)
    (hfits : i128.Fits f'.totalShares)
    (haccount : ∀ u, f'.account u = if u = user then
      ((f₂.account u).rebased rewardPrecision f₂.accRewardPerShare n).pay reward
      else f₂.account u) :
    Rebase ledger config f f' user n reward := by
  obtain ⟨A, D, hf₂⟩ := h.frame
  obtain ⟨hconfig, hacc, hlast⟩ := hframe
  refine ⟨hc, hn, hacc ▸ h.pool_ok, hacc ▸ h.acc_eq, hacc ▸ h.settles, ?_, ?_, ?_, ?_, ?_,
    hfits, fun u => ?_⟩
  · rw [hacc, ← h.account_user]
    exact hpaid
  · rw [hconfig, hf₂]
    rfl
  · rw [hlast, hf₂]
    rfl
  · rw [hshares, h.shares_eq]
  · rw [htotal, h.shares_eq, hf₂]
    rfl
  · rw [haccount, h.account_eq, hacc]
    split_ifs <;> rfl

theorem stake_rebase (hf : s.Sound) (h : stake env user amount s = .ok (n, s')) :
    ∃ config, env.auth user = true ∧
      Rebase env.sequence config s.toFarm s'.toFarm user ((s.account user).shares + amount) 0 ∧
      s'.tokens = s.tokens.move config.lpToken user here amount := by
  simp only [stake, stakePreauthorized, bind_eq_ok, failIf_eq_ok, okOr_eq_ok,
    Env.requireAuth_eq_ok, Env.transfer_eq_ok, IntRange.check_eq_some, pure_eq_ok, Prod.exists,
    Prod.mk.injEq, not_le] at h
  obtain ⟨_, hpos, _, _, _, hauth, _, _, config, hc, acc, f₁, hupdate, f₂, hsettle, _, ⟨_, rfl⟩, _,
    ⟨_, rfl⟩, debt, hdebt, _, ⟨htotal, rfl⟩, _, rfl⟩ := h
  obtain ⟨rfl, hprep⟩ := hf.prepare hc hupdate hsettle
  have hacc := hprep.acc_nonneg hf hc
  have hshares := hf.shares_nonneg user
  have hsame : readI128 f₂.shares user = (s.account user).shares := hprep.readI128_shares
  have hn : 0 ≤ (s.account user).shares + amount := by omega
  rw [hsame] at hdebt ⊢
  obtain ⟨_, rfl⟩ := (rewardValue_eq_ok (mul_nonneg hn hacc)).mp hdebt
  refine ⟨config, hauth, hprep.rebase hc hn (.inl rfl) ⟨rfl, rfl, rfl⟩ rfl ?_ htotal ?_, rfl⟩
  · rw [hsame]
    dsimp only
    ring
  · intro u
    simp only [Farm.account, readI128_writeI128]
    split_ifs <;> simp [Account.rebased, Account.pay]

theorem payReward_eq_ok (h0 : 0 ≤ reward)
    (hzero : reward = 0 → readI128 s.accruedRewards user = 0)
    (h : payReward env config user reward s = .ok s') :
    ∃ accruedRewards, s' = { s with
        accruedRewards, tokens := s.tokens.move config.rewardToken here user reward } ∧
      ∀ u, readI128 accruedRewards u = if u = user then 0 else readI128 s.accruedRewards u := by
  unfold payReward at h
  split_ifs at h with hpos
  · simp only [bind_eq_ok, Env.transfer_eq_ok, pure_eq_ok] at h
    obtain ⟨_, ⟨_, rfl⟩, rfl⟩ := h
    exact ⟨_, rfl, fun u => readI128_writeI128 _ _ _ _⟩
  · obtain rfl : reward = 0 := by omega
    rw [pure_eq_ok] at h
    subst h
    refine ⟨s.accruedRewards, by rw [Tokens.move_zero], fun u => ?_⟩
    split_ifs with hu
    · rw [hu, hzero rfl]
    · rfl

theorem returnStake_eq_ok (h0 : 0 ≤ n)
    (hpos : ∀ u value, s.shares.lookup u = some value → 0 < value)
    (hshares : readI128 s.shares user = n) (hzero : n = 0 → readI128 s.rewardDebt user = 0)
    (h : returnStake env config user n s = .ok s') :
    ∃ rewardDebt, s' = { s with
        shares := writeI128 s.shares user 0, rewardDebt, totalShares := s.totalShares - n
        tokens := s.tokens.move config.lpToken here user n } ∧
      ∀ u, readI128 rewardDebt u = if u = user then 0 else readI128 s.rewardDebt u := by
  unfold returnStake at h
  split_ifs at h with hn
  · simp only [bind_eq_ok, okOr_eq_ok, IntRange.check_eq_some, Env.transfer_eq_ok, pure_eq_ok] at h
    obtain ⟨_, ⟨_, rfl⟩, _, ⟨_, rfl⟩, rfl⟩ := h
    exact ⟨_, rfl, fun u => readI128_writeI128 _ _ _ _⟩
  · obtain rfl : n = 0 := by omega
    rw [pure_eq_ok] at h
    subst h
    have hself := writeI128_readI128 hpos user
    rw [hshares] at hself
    refine ⟨s.rewardDebt, by rw [Tokens.move_zero, hself, sub_zero], fun u => ?_⟩
    split_ifs with hu
    · rw [hu, hzero rfl]
    · rfl

theorem claimRewards_rebase (hf : s.Sound) (h : claimRewards env user s = .ok (reward, s')) :
    ∃ config, env.auth user = true ∧
      Rebase env.sequence config s.toFarm s'.toFarm user (s.account user).shares reward ∧
      reward = ((s.account user).settled rewardPrecision s'.accRewardPerShare).credited ∧
      s'.tokens = s.tokens.move config.rewardToken here user reward := by
  simp only [claimRewards, bind_eq_ok, okOr_eq_ok, Env.requireAuth_eq_ok, pure_eq_ok, Prod.exists,
    Prod.mk.injEq] at h
  obtain ⟨config, hc, _, hauth, acc, f₁, hupdate, f₂, hsettle, s₁, hpay, rfl, rfl⟩ := h
  obtain ⟨rfl, hprep⟩ := hf.prepare hc hupdate hsettle
  obtain ⟨A, rfl, hread⟩ := payReward_eq_ok (hprep.credited_nonneg hf hc) id hpay
  have huser := hprep.account_user
  have hself : readI128 f₂.shares user = (s.account user).shares := hprep.readI128_shares
  have hdebt := hprep.readI128_rewardDebt
  refine ⟨config, hauth, hprep.rebase hc (hf.shares_nonneg user) (.inr rfl) ⟨rfl, rfl, rfl⟩ ?_ ?_
    (hprep.totalShares_eq ▸ hf.total_fits) ?_, congrArg Account.credited huser, rfl⟩
  · rw [hprep.shares_eq]
    exact (writeI128_readI128 hf.shares_pos user).symm
  · rw [hself]
    exact (sub_add_cancel _ _).symm
  · intro u
    simp only [Farm.account, hread]
    split_ifs with hu
    · subst hu
      ext
      · exact hself
      · exact hdebt
      · exact (sub_self _).symm
    · rfl

theorem exit_rebase (hf : s.Sound) (h : exit env user s = .ok ((n, reward), s')) :
    ∃ config, env.auth user = true ∧ n = (s.account user).shares ∧
      Rebase env.sequence config s.toFarm s'.toFarm user 0 reward ∧
      reward = ((s.account user).settled rewardPrecision s'.accRewardPerShare).credited ∧
      s'.tokens = (s.tokens.move config.rewardToken here user reward).move config.lpToken here
        user n := by
  simp only [exit, bind_eq_ok, okOr_eq_ok, Env.requireAuth_eq_ok, pure_eq_ok, Prod.exists,
    Prod.mk.injEq] at h
  obtain ⟨config, hc, _, hauth, acc, f₁, hupdate, f₂, hsettle, s₁, hpay, s₂, hreturn, ⟨rfl, rfl⟩,
    rfl⟩ := h
  obtain ⟨rfl, hprep⟩ := hf.prepare hc hupdate hsettle
  obtain ⟨A, rfl, hread⟩ := payReward_eq_ok (hprep.credited_nonneg hf hc) id hpay
  have huser := hprep.account_user
  have hself : readI128 f₂.shares user = (s.account user).shares := hprep.readI128_shares
  have hdebt := hprep.readI128_rewardDebt
  have hn : 0 ≤ readI128 f₂.shares user := hself ▸ hf.shares_nonneg user
  obtain ⟨D, rfl, hread'⟩ := returnStake_eq_ok hn (hprep.shares_eq ▸ hf.shares_pos) rfl
    (fun hzero => by rw [hdebt, ← hself, hzero]; simp) hreturn
  have hfits : i128.Fits (f₂.totalShares - readI128 f₂.shares user) := by
    have hle := hf.shares_le user
    have hshares := hf.shares_nonneg user
    rw [hprep.totalShares_eq, hself]
    exact hf.total_fits.of_abs_le (by omega) (by omega)
  refine ⟨config, hauth, hself, hprep.rebase hc le_rfl (.inr rfl) ⟨rfl, rfl, rfl⟩ rfl ?_ hfits ?_,
    congrArg Account.credited huser, rfl⟩
  · exact (add_zero _).symm
  · intro u
    simp only [Farm.account, hread, hread', readI128_writeI128]
    split_ifs with hu
    · subst hu
      simp [Account.rebased, Account.pay]
    · rfl

theorem initFarm_eq_ok {admin lpToken rewardToken : Address} {emission : ℤ} {r : FarmingConfig}
    (h : initFarm env admin lpToken rewardToken emission s = .ok (r, s')) :
    s.config = none ∧ 0 ≤ emission ∧ s' = { s with
      config := some ⟨admin, lpToken, rewardToken, emission, 10000⟩
      lastRewardLedger := some env.sequence } := by
  simp only [initFarm, bind_eq_ok, failIf_eq_ok, Bool.not_eq_true, Option.isSome_eq_false_iff,
    Option.isNone_iff_eq_none, pure_eq_ok, Prod.mk.injEq, not_lt] at h
  obtain ⟨_, hnone, _, h0, _, _, _, rfl⟩ := h
  exact ⟨hnone, h0, rfl⟩

theorem fundRewards_eq_ok {funder : Address} (h : fundRewards env funder amount s = .ok s') :
    ∃ config, s.config = some config ∧ 0 < amount ∧ env.auth funder = true ∧
      s' = { s with tokens := s.tokens.move config.rewardToken funder here amount } := by
  simp only [fundRewards, bind_eq_ok, failIf_eq_ok, okOr_eq_ok, Env.requireAuth_eq_ok,
    Env.transfer_eq_ok, pure_eq_ok, not_le] at h
  obtain ⟨_, hpos, config, hc, _, hauth, _, ⟨_, rfl⟩, rfl⟩ := h
  exact ⟨config, hc, hpos, hauth, rfl⟩

theorem setEmissionMultiplier_eq_ok {governance : Address} {multiplier : ℕ} {r : FarmingConfig}
    (hf : s.Sound) (h : setEmissionMultiplier env governance multiplier s = .ok (r, s')) :
    ∃ config, s.config = some config ∧
      s' = { s.updated env.sequence (s.accRewardPerShare + accrual config
          (env.sequence - s.lastRewardLedger.getD env.sequence) s.totalShares) with
        config := some { config with emissionMultiplier := multiplier }, tokens := s.tokens } := by
  simp only [setEmissionMultiplier, bind_eq_ok, failIf_eq_ok, okOr_eq_ok, pure_eq_ok, Prod.exists,
    Prod.mk.injEq] at h
  obtain ⟨config, hc, _, _, _, _, _, _, acc, f₁, hupdate, _, rfl⟩ := h
  obtain ⟨rfl, rfl⟩ := updatePool_eq_ok (hf.emission_nonneg config hc) hupdate
  exact ⟨config, hc, rfl⟩

/-- The query returns what a claim in the same ledger would pay. -/
theorem pendingRewards_eq_ok (hf : s.Sound) (h : pendingRewards env user s = .ok (reward, s')) :
    ∃ config, s.config = some config ∧
      s' = { s.updated env.sequence (s.accRewardPerShare + accrual config
          (env.sequence - s.lastRewardLedger.getD env.sequence) s.totalShares) with
        tokens := s.tokens } ∧
      updatePool env.sequence config s.toFarm = .ok (s'.accRewardPerShare, s'.toFarm) ∧
      Settles s.toFarm user s'.accRewardPerShare ∧
      reward = ((s.account user).settled rewardPrecision s'.accRewardPerShare).credited := by
  simp only [pendingRewards, bind_eq_ok, okOr_eq_ok, IntRange.check_eq_some, pure_eq_ok,
    Prod.exists, Prod.mk.injEq] at h
  obtain ⟨config, hc, acc, f₁, hupdate, value, hvalue, _, ⟨hpending, rfl⟩, _, ⟨htotal, rfl⟩, rfl,
    rfl⟩ := h
  have he := hf.emission_nonneg config hc
  obtain ⟨hacc, rfl⟩ := updatePool_eq_ok he hupdate
  have hacc0 : 0 ≤ acc := by
    rw [hacc]
    exact add_nonneg hf.acc_nonneg (accrual_nonneg he _ _)
  obtain ⟨hfits, rfl⟩ := (rewardValue_eq_ok (mul_nonneg (hf.shares_nonneg user) hacc0)).mp hvalue
  subst hacc
  exact ⟨config, hc, rfl, hupdate, ⟨hfits, hpending, htotal⟩, rfl⟩

/-- Conversely, the query succeeds when the pool can be updated and the user settled. -/
theorem pendingRewards_ok (hf : s.Sound) (hc : s.config = some config)
    (hupdate : updatePool env.sequence config s.toFarm = .ok (acc, s.updated env.sequence acc))
    (hacc : 0 ≤ acc) (hs : Settles s.toFarm user acc) :
    ∃ s', pendingRewards env user s =
      .ok (((s.account user).settled rewardPrecision acc).credited, s') := by
  have hvalue := (rewardValue_eq_ok (mul_nonneg (hf.shares_nonneg user) hacc)).mpr
    ⟨hs.value_fits, rfl⟩
  simp only [pendingRewards, bind_eq_ok, okOr_eq_ok, IntRange.check_eq_some, pure_eq_ok,
    Prod.exists, Prod.mk.injEq]
  exact ⟨_, config, hc, acc, _, hupdate, _, hvalue, _, ⟨hs.pending_fits, rfl⟩, _,
    ⟨hs.credited_fits, rfl⟩, rfl, rfl⟩

/-- What an accepted call does, call by call. -/
inductive FarmChange (env : Env here) (s : FarmState) : FarmCall → ℤ → FarmState → Prop
  | initFarm {admin lpToken rewardToken : Address} {emission : i128.Value}
      (hnone : s.config = none) (h0 : 0 ≤ emission.1) :
      FarmChange env s (.initFarm admin lpToken rewardToken emission) 0 { s with
        config := some ⟨admin, lpToken, rewardToken, emission.1, 10000⟩
        lastRewardLedger := some env.sequence }
  | fundRewards {funder : Address} {amount : i128.Value} {config : FarmingConfig}
      (hc : s.config = some config) (hpos : 0 < amount.1) (hauth : env.auth funder = true) :
      FarmChange env s (.fundRewards funder amount) 0 { s with
        tokens := s.tokens.move config.rewardToken funder here amount.1 }
  | stake {user : Address} {amount : i128.Value} {config : FarmingConfig} {s' : FarmState}
      (hauth : env.auth user = true)
      (hr : Rebase env.sequence config s.toFarm s'.toFarm user
        ((s.account user).shares + amount.1) 0)
      (htokens : s'.tokens = s.tokens.move config.lpToken user here amount.1) :
      FarmChange env s (.stake user amount) 0 s'
  | claimRewards {user : Address} {reward : ℤ} {config : FarmingConfig} {s' : FarmState}
      (hauth : env.auth user = true)
      (hr : Rebase env.sequence config s.toFarm s'.toFarm user (s.account user).shares reward)
      (hreward : reward = ((s.account user).settled rewardPrecision s'.accRewardPerShare).credited)
      (htokens : s'.tokens = s.tokens.move config.rewardToken here user reward) :
      FarmChange env s (.claimRewards user) reward s'
  | exit {user : Address} {reward : ℤ} {config : FarmingConfig} {s' : FarmState}
      (hauth : env.auth user = true)
      (hr : Rebase env.sequence config s.toFarm s'.toFarm user 0 reward)
      (hreward : reward = ((s.account user).settled rewardPrecision s'.accRewardPerShare).credited)
      (htokens : s'.tokens = (s.tokens.move config.rewardToken here user reward).move config.lpToken
        here user (s.account user).shares) :
      FarmChange env s (.exit user) reward s'
  | setEmissionMultiplier {governance : Address} {multiplier : ℕ} {config : FarmingConfig}
      (hc : s.config = some config) :
      FarmChange env s (.setEmissionMultiplier governance multiplier) 0
        { s.updated env.sequence (s.accRewardPerShare + accrual config
            (env.sequence - s.lastRewardLedger.getD env.sequence) s.totalShares) with
          config := some { config with emissionMultiplier := multiplier }, tokens := s.tokens }
  | pendingRewards {user : Address} {config : FarmingConfig} (hc : s.config = some config) :
      FarmChange env s (.pendingRewards user) 0
        { s.updated env.sequence (s.accRewardPerShare + accrual config
            (env.sequence - s.lastRewardLedger.getD env.sequence) s.totalShares) with
          tokens := s.tokens }

/-- The calls are taken apart only here. -/
theorem FarmCall.exec_change {call : FarmCall} (hf : s.Sound)
    (h : call.exec env s = .ok (reward, s')) : FarmChange env s call reward s' := by
  cases call with
  | initFarm admin lpToken rewardToken emissionPerLedger =>
    simp only [FarmCall.exec, bind_eq_ok, pure_eq_ok, Prod.exists, Prod.mk.injEq] at h
    obtain ⟨_, _, h, rfl, rfl⟩ := h
    obtain ⟨hnone, h0, rfl⟩ := initFarm_eq_ok h
    exact .initFarm hnone h0
  | fundRewards funder amount =>
    simp only [FarmCall.exec, bind_eq_ok, pure_eq_ok, Prod.mk.injEq] at h
    obtain ⟨_, h, rfl, rfl⟩ := h
    obtain ⟨config, hc, hpos, hauth, rfl⟩ := fundRewards_eq_ok h
    exact .fundRewards hc hpos hauth
  | stake user amount =>
    simp only [FarmCall.exec, bind_eq_ok, pure_eq_ok, Prod.exists, Prod.mk.injEq] at h
    obtain ⟨_, _, h, rfl, rfl⟩ := h
    obtain ⟨config, hauth, hr, htokens⟩ := stake_rebase hf h
    exact .stake hauth hr htokens
  | claimRewards user =>
    obtain ⟨config, hauth, hr, hreward, htokens⟩ := claimRewards_rebase hf h
    exact .claimRewards hauth hr hreward htokens
  | exit user =>
    simp only [FarmCall.exec, bind_eq_ok, pure_eq_ok, Prod.exists, Prod.mk.injEq] at h
    obtain ⟨_, _, _, h, rfl, rfl⟩ := h
    obtain ⟨config, hauth, rfl, hr, hreward, htokens⟩ := exit_rebase hf h
    exact .exit hauth hr hreward htokens
  | setEmissionMultiplier governance multiplier =>
    simp only [FarmCall.exec, bind_eq_ok, pure_eq_ok, Prod.exists, Prod.mk.injEq] at h
    obtain ⟨_, _, h, rfl, rfl⟩ := h
    obtain ⟨config, hc, rfl⟩ := setEmissionMultiplier_eq_ok hf h
    exact .setEmissionMultiplier hc
  | pendingRewards user =>
    simp only [FarmCall.exec, bind_eq_ok, pure_eq_ok, Prod.exists, Prod.mk.injEq] at h
    obtain ⟨_, _, h, rfl, rfl⟩ := h
    obtain ⟨config, hc, rfl, _⟩ := pendingRewards_eq_ok hf h
    exact .pendingRewards hc

end Changes

section Soundness

theorem Farm.Sound.updated (hf : f.Sound) (hc : f.config = some config) (ledger elapsed : ℕ) :
    (f.updated ledger (f.accRewardPerShare + accrual config elapsed f.totalShares)).Sound := by
  have hr := accrual_nonneg (hf.emission_nonneg config hc) elapsed f.totalShares
  refine ⟨hf.total_eq, hf.total_fits, hf.shares_pos, add_nonneg hf.acc_nonneg hr,
    hf.credited_nonneg, hf.credited_fits, fun u => ?_, hf.emission_nonneg, hf.unset⟩
  exact (hf.backed u).add rewardPrecision_pos (hf.shares_nonneg u) hr

theorem Rebase.sound (h : Rebase ledger config f f' user n reward) (hf : f.Sound) : f'.Sound := by
  have he := hf.emission_nonneg config h.config_eq
  have hr := accrual_nonneg he (ledger - f.lastRewardLedger.getD ledger) f.totalShares
  have hbacked : ∀ u, (f.account u).Backed rewardPrecision f'.accRewardPerShare := by
    intro u
    rw [h.acc_eq]
    exact (hf.backed u).add rewardPrecision_pos (hf.shares_nonneg u) hr
  have hcredited : ∀ u, 0 ≤ (f'.account u).credited ∧ i128.Fits (f'.account u).credited := by
    intro u
    rw [h.account_eq]
    split_ifs with hu
    · subst hu
      have hpos : 0 ≤ ((f.account u).settled rewardPrecision f'.accRewardPerShare).credited :=
        add_nonneg (hf.credited_nonneg u) (Account.unsettled_nonneg_iff.mpr (hbacked u))
      have hfits := h.settles.credited_fits
      simp only [Account.pay, Account.rebased]
      rcases h.paid with rfl | hpaid
      · rw [sub_zero]
        exact ⟨hpos, hfits⟩
      · rw [hpaid, sub_self]
        exact ⟨le_rfl, hfits.of_abs_le le_rfl hpos⟩
    · exact ⟨hf.credited_nonneg u, hf.credited_fits u⟩
  refine ⟨?_, h.total_fits, ?_, ?_, fun u => (hcredited u).1, fun u => (hcredited u).2, fun u => ?_,
    ?_, ?_⟩
  · rw [h.shares_eq, total_writeI128, hf.total_eq, h.total_eq]
    rfl
  · rw [h.shares_eq]
    exact fun u x hx => lookup_writeI128_pos hf.shares_pos h.nonneg hx
  · rw [h.acc_eq]
    exact add_nonneg hf.acc_nonneg hr
  · rw [h.account_eq]
    split_ifs
    · exact Account.backed_rebased n reward
    · exact hbacked u
  · rw [h.config_after]
    exact hf.emission_nonneg
  · rw [h.config_after, h.config_eq]
    exact fun hnone => absurd hnone (by simp)

theorem farm_sound_fresh (tokens : Tokens) : (FarmState.fresh tokens).Sound := by
  have hzero : i128.Fits 0 := ⟨i128.lo_nonpos, i128.hi_nonneg⟩
  refine ⟨rfl, hzero, fun u v h => ?_, le_rfl, fun _ => le_rfl, fun _ => hzero, fun _ => le_rfl,
    fun _ h => absurd h.symm (Option.some_ne_none _), fun _ => rfl⟩
  simp [FarmState.fresh, Farm.empty] at h

/-- Every accepted call keeps the accounts sound. -/
theorem FarmChange.sound {call : FarmCall} (h : FarmChange env s call reward s') (hf : s.Sound) :
    s'.Sound := by
  cases h with
  | initFarm hnone h0 =>
    refine ⟨hf.total_eq, hf.total_fits, hf.shares_pos, hf.acc_nonneg, hf.credited_nonneg,
      hf.credited_fits, hf.backed, fun config hc => ?_, fun _ => hf.unset hnone⟩
    obtain rfl := Option.some.inj hc
    exact h0
  | fundRewards hc hpos hauth => exact hf
  | stake hauth hr htokens => exact hr.sound hf
  | claimRewards hauth hr hreward htokens => exact hr.sound hf
  | exit hauth hr hreward htokens => exact hr.sound hf
  | @setEmissionMultiplier _ _ config hc =>
    have hu := hf.updated hc env.sequence (env.sequence - s.lastRewardLedger.getD env.sequence)
    refine ⟨hu.total_eq, hu.total_fits, hu.shares_pos, hu.acc_nonneg, hu.credited_nonneg,
      hu.credited_fits, hu.backed, fun config' hc' => ?_, fun hnone => absurd hnone (by simp)⟩
    obtain rfl := Option.some.inj hc'
    exact hf.emission_nonneg config hc
  | pendingRewards hc => exact hf.updated hc _ _

end Soundness

end StellarFlow.Vaults
