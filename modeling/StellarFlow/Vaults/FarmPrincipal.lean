import StellarFlow.Vaults.FarmAccounts

/-!
# The principal of the stakers

Stakes and rewards leave the contract from the same address. When the farm pays its rewards
in the staked token itself, a reward beyond what was funded is paid out of the stakes of
others.
-/
namespace StellarFlow.Vaults

open Foundation

variable {here : Address} {env : Env here} {s s' s₁ : FarmState} {user : Address}
  {config : FarmingConfig} {reward : ℤ}

/-- The contract holds what was staked. -/
def PrincipalHeld (here : Address) (s : FarmState) : Prop :=
  ∀ config, s.config = some config → s.totalShares ≤ s.tokens config.lpToken here

/-- The token contracts accept what their source can cover, and nothing else. -/
def Covering (env : Env here) : Prop :=
  ∀ t token src dst amount, env.accepts t token src dst amount = true ↔
    0 ≤ amount ∧ amount ≤ t token src

/-- An exit returns the whole stake with the reward exactly when the reward, if there is any,
can be paid next to the stake. -/
def ExitReturnsStake (here : Address) (s : FarmState) : Prop :=
  ∀ config, s.config = some config → ∀ (env : Env here) user reward s₁,
    env.auth user = true → Covering env → pendingRewards env user s = .ok (reward, s₁) →
    ((∃ s', exit env user s = .ok (((s.account user).shares, reward), s')) ↔
      (0 < reward → reward + (if config.lpToken = config.rewardToken then
        (s.account user).shares else 0) ≤ s.tokens config.rewardToken here))

/-- The rewards are in another token, or the pending one is covered by what the contract holds
beyond the stakes. -/
def SurplusCovers (env : Env here) (user : Address) (s : FarmState) : Prop :=
  ∀ config, s.config = some config → config.lpToken = config.rewardToken →
    ∀ reward s₁, pendingRewards env user s = .ok (reward, s₁) →
      s.totalShares + reward ≤ s.tokens config.lpToken here

/-- An accepted claim or exit pays its reward out of the surplus. -/
def PaysFromSurplus (s : FarmState) (i : FarmStep here) : Prop :=
  match i.2 with
  | .claimRewards user => (∃ s', farmStep i s = .ok s') → SurplusCovers i.1 user s
  | .exit user => (∃ s', farmStep i s = .ok s') → SurplusCovers i.1 user s
  | _ => True

section Exit

theorem payReward_ok_iff :
    (∃ s', payReward env config user reward s = .ok s') ↔
      (0 < reward → env.accepts s.tokens config.rewardToken here user reward = true) := by
  unfold payReward
  split_ifs with hpos
  · simp only [bind_eq_ok, Env.transfer_eq_ok, pure_eq_ok, hpos, true_implies]
    constructor
    · rintro ⟨_, _, ⟨h, _⟩, _⟩
      exact h
    · intro h
      exact ⟨_, _, ⟨h, rfl⟩, rfl⟩
  · exact ⟨fun _ h => absurd h hpos, fun _ => ⟨s, rfl⟩⟩

theorem returnStake_ok_iff {n : ℤ} (hfits : i128.Fits (s.totalShares - n)) :
    (∃ s', returnStake env config user n s = .ok s') ↔
      (0 < n → env.accepts s.tokens config.lpToken here user n = true) := by
  unfold returnStake
  split_ifs with hpos
  · simp only [bind_eq_ok, okOr_eq_ok, IntRange.check_eq_some, Env.transfer_eq_ok, pure_eq_ok, hpos,
      true_implies]
    constructor
    · rintro ⟨_, _, _, _, ⟨h, _⟩, _⟩
      exact h
    · intro h
      exact ⟨_, _, ⟨hfits, rfl⟩, _, ⟨h, rfl⟩, rfl⟩
  · exact ⟨fun _ h => absurd h hpos, fun _ => ⟨s, rfl⟩⟩

/-- Once the pending reward can be computed, only the two payments can stop an exit. -/
theorem exit_ok_iff (hf : s.Sound) (hc : s.config = some config) (hauth : env.auth user = true)
    (hpend : pendingRewards env user s = .ok (reward, s₁)) :
    (∃ s', exit env user s = .ok (((s.account user).shares, reward), s')) ↔
      (0 < reward → env.accepts s.tokens config.rewardToken here user reward = true) ∧
      (0 < (s.account user).shares → env.accepts
        (s.tokens.move config.rewardToken here user reward) config.lpToken here user
        (s.account user).shares = true) := by
  obtain ⟨config', hc', hs₁, hupdate, hsettles, hreward⟩ := pendingRewards_eq_ok hf hpend
  obtain rfl := Option.some.inj (hc.symm.trans hc')
  have hfarm : s₁.toFarm = s.updated env.sequence s₁.accRewardPerShare := by
    rw [hs₁]
    rfl
  have hacc : 0 ≤ s₁.accRewardPerShare := by
    rw [hs₁]
    exact add_nonneg hf.acc_nonneg (accrual_nonneg (hf.emission_nonneg config hc) _ _)
  have hsettles' : Settles s₁.toFarm user s₁.accRewardPerShare := by
    rw [hfarm]
    exact ⟨hsettles.1, hsettles.2, hsettles.3⟩
  have hshares : 0 ≤ (s₁.account user).shares := by
    rw [hfarm]
    exact hf.shares_nonneg user
  obtain ⟨f₂, hf₂⟩ := hsettles'.settleUser_ok hshares hacc
  obtain ⟨hacc₂, hprep⟩ := hf.prepare hc hupdate hf₂
  have huser := hprep.account_user
  have hcredited : readI128 f₂.accruedRewards user = reward := by
    rw [hreward, ← hacc₂]
    exact congrArg Account.credited huser
  have hstake : readI128 f₂.shares user = (s.account user).shares := hprep.readI128_shares
  have hexit : exit env user s = (do
      let s' ← payReward env config user reward { f₂ with tokens := s.tokens }
      let s' ← returnStake env config user (s.account user).shares s'
      pure (((s.account user).shares, reward), s')) := by
    have hrequire : env.requireAuth user = .ok () := Env.requireAuth_eq_ok.mpr hauth
    simp only [exit, hc, okOr_some, ok_bind, hrequire, hupdate, hf₂, hcredited, hstake]
  have hreward0 : 0 ≤ reward := by
    have hnonneg := hprep.credited_nonneg hf hc
    rwa [← hcredited]
  have hfits : i128.Fits (s.totalShares - (s.account user).shares) := by
    have h0 := hf.shares_nonneg user
    have hle := hf.shares_le user
    exact hf.total_fits.of_abs_le (by omega) (by omega)
  -- After the reward, the stake is returned out of the remaining balances.
  have hreturn : ∀ s₂, payReward env config user reward { f₂ with tokens := s.tokens } = .ok s₂ →
      ((∃ s', returnStake env config user (s.account user).shares s₂ = .ok s') ↔
        (0 < (s.account user).shares → env.accepts
          (s.tokens.move config.rewardToken here user reward) config.lpToken here user
          (s.account user).shares = true)) := by
    intro s₂ hpay
    obtain ⟨A, rfl, _⟩ := payReward_eq_ok hreward0 (fun hzero => hcredited.trans hzero) hpay
    apply returnStake_ok_iff
    rw [hprep.totalShares_eq]
    exact hfits
  rw [← payReward_ok_iff (s := { f₂ with tokens := s.tokens }), hexit]
  simp only [bind_eq_ok, pure_eq_ok, Prod.mk.injEq, true_and]
  constructor
  · rintro ⟨s', s₂, hpay, s₃, hstake', rfl⟩
    exact ⟨⟨s₂, hpay⟩, (hreturn s₂ hpay).mp ⟨_, hstake'⟩⟩
  · rintro ⟨⟨s₂, hpay⟩, hacc⟩
    obtain ⟨s', hs'⟩ := (hreturn s₂ hpay).mpr hacc
    exact ⟨s', s₂, hpay, s', hs', rfl⟩

theorem PrincipalHeld.exitReturnsStake (hheld : PrincipalHeld here s) (hf : s.Sound) :
    ExitReturnsStake here s := by
  intro config hc env user reward s₁ hauth hcover hpend
  have hprincipal := hheld config hc
  have h0 := hf.shares_nonneg user
  have hle := hf.shares_le user
  have hne := (Env.ne_here_of_auth hauth).symm
  rw [exit_ok_iff hf hc hauth hpend, hcover, hcover, Tokens.move_apply_src _ _ _ hne]
  split_ifs with heq
  · rw [heq] at hprincipal ⊢
    omega
  · omega

end Exit

section Steps

/-- Before the initialisation the balances of the contract are not negative. -/
structure FarmFunded (here : Address) (s : FarmState) : Prop where
  sound : s.Sound
  unset : s.config = none → ∀ token, 0 ≤ s.tokens token here

/-- A claim or an exit pays the pending reward. -/
theorem Rebase.pending {n : ℤ}
    (hr : Rebase env.sequence config s.toFarm s'.toFarm user n reward) (hf : s.Sound)
    (hreward : reward = ((s.account user).settled rewardPrecision s'.accRewardPerShare).credited) :
    ∃ s₁, pendingRewards env user s = .ok (reward, s₁) := by
  rw [hreward]
  exact pendingRewards_ok hf hr.config_eq hr.pool_ok (hr.sound hf).acc_nonneg hr.settles

/-- Paying a reward, and returning a stake or not, keeps the principal held exactly when the
reward comes out of the surplus. -/
theorem Rebase.principalHeld_iff {n : ℤ}
    (hr : Rebase env.sequence config s.toFarm s'.toFarm user n reward) (hf : s.Sound)
    (hheld : PrincipalHeld here s)
    (hreward : reward = ((s.account user).settled rewardPrecision s'.accRewardPerShare).credited)
    (htokens : s'.tokens config.lpToken here = s.tokens config.lpToken here -
      (if config.lpToken = config.rewardToken then reward else 0) - ((s.account user).shares - n)) :
    PrincipalHeld here s' ↔ SurplusCovers env user s := by
  have hprincipal := hheld config hr.config_eq
  have htotal := hr.total_eq
  obtain ⟨s₁, hpend⟩ := hr.pending hf hreward
  constructor
  · intro hheld' config' hc' heq reward' s₁' hpend'
    obtain rfl := Option.some.inj (hr.config_eq.symm.trans hc')
    obtain ⟨rfl, _⟩ := Prod.mk.inj (Except.ok.inj (hpend.symm.trans hpend'))
    have hafter := hheld' config (hr.config_after.trans hr.config_eq)
    rw [htokens, if_pos heq] at hafter
    omega
  · intro hcovers config' hc'
    obtain rfl := Option.some.inj (hr.config_eq.symm.trans (hr.config_after.symm.trans hc'))
    rw [htokens]
    split_ifs with heq
    · have := hcovers config hr.config_eq heq reward s₁ hpend
      omega
    · omega

/-- Only an initialised farm accepts calls. -/
theorem FarmChange.initialised {call : FarmCall} (h : FarmChange env s call reward s') :
    ∃ config, s'.config = some config := by
  cases h with
  | initFarm => exact ⟨_, rfl⟩
  | fundRewards hc => exact ⟨_, hc⟩
  | stake _ hr => exact ⟨_, hr.config_after.trans hr.config_eq⟩
  | claimRewards _ hr => exact ⟨_, hr.config_after.trans hr.config_eq⟩
  | exit _ hr => exact ⟨_, hr.config_after.trans hr.config_eq⟩
  | setEmissionMultiplier => exact ⟨_, rfl⟩
  | pendingRewards hc => exact ⟨_, hc⟩

theorem farmStep_funded {i : FarmStep here} (hs : FarmFunded here s) (h : farmStep i s = .ok s') :
    FarmFunded here s' := by
  obtain ⟨reward, h⟩ := snd_map_eq_ok.mp h
  have hchange := FarmCall.exec_change hs.sound h
  obtain ⟨config, hc⟩ := hchange.initialised
  exact ⟨hchange.sound hs.sound, fun hnone => absurd (hnone.symm.trans hc) (by simp)⟩

/-- A call keeps the principal held exactly when it meets the condition. -/
theorem commit_principalHeld_iff (hs : FarmFunded here s) (hheld : PrincipalHeld here s)
    (i : FarmStep here) : PrincipalHeld here (commit farmStep s i) ↔ PaysFromSurplus s i := by
  have hf := hs.sound
  cases hstep : farmStep i s with
  | error e =>
    rw [commit_of_error hstep]
    refine iff_of_true hheld ?_
    unfold PaysFromSurplus
    have hnone : ¬ ∃ s', farmStep i s = .ok s' := by
      rintro ⟨s', h⟩
      exact absurd (hstep.symm.trans h) (by simp)
    split
    · exact fun h => absurd h hnone
    · exact fun h => absurd h hnone
    · trivial
  | ok s' =>
    rw [commit_of_ok hstep]
    obtain ⟨reward, h⟩ := snd_map_eq_ok.mp hstep
    obtain ⟨env, call⟩ := i
    cases FarmCall.exec_change hf h with
    | initFarm hnone h0 =>
      refine iff_of_true (fun config _ => ?_) trivial
      exact (hf.unset hnone).trans_le (hs.unset hnone config.lpToken)
    | fundRewards hc hpos hauth =>
      refine iff_of_true (fun config hc' => ?_) trivial
      have hprincipal := hheld config hc'
      dsimp only
      rw [Tokens.move_apply_dst _ _ _ (Env.ne_here_of_auth hauth).symm]
      split_ifs <;> omega
    | @stake _ _ config _ hauth hr htokens =>
      refine iff_of_true (fun config' hc' => ?_) trivial
      obtain rfl := Option.some.inj (hr.config_eq.symm.trans (hr.config_after.symm.trans hc'))
      have hprincipal := hheld config hr.config_eq
      have htotal := hr.total_eq
      rw [htokens, Tokens.move_apply_dst _ _ _ (Env.ne_here_of_auth hauth).symm, if_pos rfl]
      omega
    | claimRewards hauth hr hreward htokens =>
      rw [hr.principalHeld_iff hf hheld hreward]
      · exact ⟨fun hcovers _ => hcovers, fun hcovers => hcovers ⟨s', hstep⟩⟩
      · have hne := (Env.ne_here_of_auth hauth).symm
        rw [htokens, Tokens.move_apply_src _ _ _ hne, sub_self, sub_zero]
    | exit hauth hr hreward htokens =>
      have hne := (Env.ne_here_of_auth hauth).symm
      rw [hr.principalHeld_iff hf hheld hreward]
      · exact ⟨fun hcovers _ => hcovers, fun hcovers => hcovers ⟨s', hstep⟩⟩
      · rw [htokens, Tokens.move_apply_src _ _ _ hne, Tokens.move_apply_src _ _ _ hne, if_pos rfl,
          sub_zero]
    | @setEmissionMultiplier _ _ config hc =>
      refine iff_of_true (fun config' hc' => ?_) trivial
      obtain rfl := Option.some.inj hc'
      exact hheld config hc
    | pendingRewards hc => exact iff_of_true (fun config' hc' => hheld config' hc') trivial

end Steps

/-- A call in a given ledger. -/
def farmAt (sequence : ℕ) (call : FarmCall) : FarmStep ⟨0⟩ := (Env.standard ⟨0⟩ sequence none, call)

/-- The contract holds nothing of any token. -/
def stakerTokens : Tokens := fun _ holder => if holder = ⟨0⟩ then 0 else 1000

/-- Two stakers of a farm that pays in the staked token; the first claims after two ledgers. -/
def selfPayingRun (funding : i128.Value) : List (FarmStep ⟨0⟩) :=
  [farmAt 0 (.initFarm ⟨9⟩ ⟨10⟩ ⟨10⟩ (units 1)), farmAt 0 (.fundRewards ⟨8⟩ funding),
   farmAt 0 (.stake ⟨2⟩ (units 2)), farmAt 0 (.stake ⟨3⟩ (units 2)),
   farmAt 2 (.claimRewards ⟨2⟩)]

end StellarFlow.Vaults
