import StellarFlow.Vaults.FarmPrincipal

/-!
# Harvesting and compounding

One call claims the pending reward of a user, sends it to a router that the caller names, and
stakes the liquidity tokens that came back. Nothing the router says is used: what it delivered
is the difference of the contract's own balance over the call. Here the router is any function
on the balances of all tokens.
-/
namespace StellarFlow.Vaults

open Foundation

namespace Harvest

def minSwapPathLen : ℕ := 2
def maxSwapPathLen : ℕ := 8

def nothingToCompound : ContractError := .amountTooLow
def invalidMinOut : ContractError := .amountTooLow
def swapFailed : ContractError := .routeExecutionFailed
def slippageExceeded : ContractError := .slippageExceeded
def invalidPath : ContractError := .inconsistentRouteAssets

end Harvest

/-- What a call sees besides the farm. -/
structure HarvestEnv (here : Address) extends Env here where
  paused : Bool
  vaultPaused : Bool
  /-- Token balances after a call of a router with an amount and a path; nothing when the
  router fails. -/
  swap : Address → ℤ → List Address → Tokens → Option Tokens

structure HarvestCompoundResult where
  rewardClaimed : ℤ
  lpAcquired : ℤ
  newShareBalance : ℤ
  deriving DecidableEq, Repr

/-- A route has to lead from the reward token to the liquidity token. -/
def validatePath (path : List Address) (farm : FarmingConfig) : Except Fault Unit := do
  failIf (¬ (Harvest.minSwapPathLen ≤ path.length ∧ path.length ≤ Harvest.maxSwapPathLen))
    (Fault.error Harvest.invalidPath)
  failIf (path.head? ≠ some farm.rewardToken ∨ path.getLast? ≠ some farm.lpToken)
    (Fault.error Harvest.invalidPath)

section Calls

variable {here : Address} (env : HarvestEnv here)

def requireVaultOperational : Except Fault Unit := do
  failIf (env.paused = true) (Fault.error .contractPaused)
  failIf (env.vaultPaused = true) (Fault.error .vaultPaused)

/-- The host refuses to call the contract that is running. -/
def invokeRouter (router : Address) (amount : ℤ) (path : List Address) (tokens : Tokens) :
    Except Fault Tokens := do
  failIf (router = here) .trap
  okOr (env.swap router amount path tokens) .trap

/-- The user signs once, for the claim. -/
def harvestAndCompound (user router : Address) (path : List Address) (minLpOut : ℤ)
    (s : FarmState) : Except Fault (HarvestCompoundResult × FarmState) := do
  requireVaultOperational env
  failIf (minLpOut < 0) (Fault.error Harvest.invalidMinOut)
  let farm ← okOr s.config (Fault.error .vaultNotInitialized)
  validatePath path farm
  let (rewardClaimed, s) ← claimRewards env.toEnv user s
  failIf (rewardClaimed ≤ 0) (Fault.error Harvest.nothingToCompound)
  let tokens ← env.transfer farm.rewardToken user here rewardClaimed s.tokens
  let tokens ← env.transfer farm.rewardToken here router rewardClaimed tokens
  let lpBefore := tokens farm.lpToken here
  let tokens ← invokeRouter env router rewardClaimed path tokens
  let lpAcquired ← okOr (i128.check (tokens farm.lpToken here - lpBefore))
    (Fault.error .mathOverflow)
  failIf (lpAcquired ≤ 0) (Fault.error Harvest.swapFailed)
  failIf (lpAcquired < minLpOut) (Fault.error Harvest.slippageExceeded)
  let tokens ← env.transfer farm.lpToken here user lpAcquired tokens
  let (_, s) ← stakePreauthorized env.toEnv user lpAcquired { s with tokens }
  pure (⟨rewardClaimed, lpAcquired, readI128 s.shares user⟩, s)

end Calls

inductive CompoundCall
  | farm (call : FarmCall)
  | harvestAndCompound (user router : Address) (path : List Address) (minLpOut : i128.Value)

abbrev CompoundStep (here : Address) := HarvestEnv here × CompoundCall

def compoundStep {here : Address} (i : CompoundStep here) (s : FarmState) :
    Except Fault FarmState :=
  match i.2 with
  | .farm call => farmStep (i.1.toEnv, call) s
  | .harvestAndCompound user router path minLpOut =>
    Prod.snd <$> harvestAndCompound i.1 user router path minLpOut.1 s

section Accounts

variable {here : Address} {env : HarvestEnv here} {s s' : FarmState} {user router : Address}
  {path : List Address} {minLpOut : ℤ} {r : HarvestCompoundResult} {config : FarmingConfig}

/-- What an accepted call does: the pending reward is taken, what the router delivered in
liquidity tokens becomes shares, and no other account moves. -/
structure Compounded (env : HarvestEnv here) (user : Address) (minLpOut : ℤ) (s : FarmState)
    (r : HarvestCompoundResult) (config : FarmingConfig) (s' : FarmState) : Prop where
  config_eq : s.config = some config
  config_after : s'.config = some config
  auth : env.auth user = true
  pending : ∃ s₁, pendingRewards env.toEnv user s = .ok (r.rewardClaimed, s₁)
  reward_pos : 0 < r.rewardClaimed
  acquired_pos : 0 < r.lpAcquired
  acquired_ge : minLpOut ≤ r.lpAcquired
  balance_eq : r.newShareBalance = (s.account user).shares + r.lpAcquired
  shares_eq : (s'.account user).shares = (s.account user).shares + r.lpAcquired
  credited_eq : (s'.account user).credited = 0
  others : ∀ u, u ≠ user → s'.account u = s.account u
  total_eq : s'.totalShares = s.totalShares + r.lpAcquired
  held_eq : s'.tokens config.lpToken here = s.tokens config.lpToken here -
    (if config.lpToken = config.rewardToken then r.rewardClaimed else 0) + r.lpAcquired

/-- Shares that were just settled in a ledger owe nothing more in it. -/
theorem Rebase.settled_again {ledger : ℕ} {f f₁ f₂ : Farm} {n n' reward : ℤ}
    (h : Rebase ledger config f f₁ user n reward)
    (h' : Rebase ledger config f₁ f₂ user n' 0) :
    f₂.accRewardPerShare = f₁.accRewardPerShare ∧
      (f₂.account user).credited = (f₁.account user).credited := by
  have hlast : ledger - f₁.lastRewardLedger.getD ledger = 0 := by
    rw [h.last_eq]
    cases f.lastRewardLedger <;> simp
  have hacc : f₂.accRewardPerShare = f₁.accRewardPerShare := by
    rw [h'.acc_eq, hlast, accrual_zero, add_zero]
  have hdebt : (f₁.account user).debt =
      (f₁.account user).shares * f₁.accRewardPerShare / rewardPrecision := by
    rw [h.account_eq, if_pos rfl]
    rfl
  refine ⟨hacc, ?_⟩
  rw [h'.account_eq, if_pos rfl, hacc]
  simp only [Account.pay, Account.rebased, Account.settled, Account.unsettled, hdebt, sub_self,
    add_zero, sub_zero]

/-- A stake whose user has signed before is a stake. -/
theorem stake_eq_preauthorized {e : Env here} {amount : ℤ} (hauth : e.auth user = true)
    (hc : s.config = some config) :
    stake e user amount s = stakePreauthorized e user amount s := by
  have hsigned : e.requireAuth user = .ok () := Env.requireAuth_eq_ok.mpr hauth
  rw [stake, hc, okOr_some, ok_bind, hsigned, ok_bind]
  by_cases hamount : amount ≤ 0
  · simp [stakePreauthorized, failIf, hamount]
    rfl
  · rw [failIf_of_not hamount, ok_bind]

/-- A reward that goes from the contract to the user, back, and on to the router leaves it. -/
theorem router_funded (t : Tokens) (reward : ℤ) {token : Address} (tok : Address)
    (huser : here ≠ user) (hrouter : here ≠ router) :
    (((t.move token here user reward).move token user here reward).move token here router reward)
      tok here = t tok here - if tok = token then reward else 0 := by
  rw [Tokens.move_apply_src _ _ _ hrouter, Tokens.move_apply_dst _ _ _ huser,
    Tokens.move_apply_src _ _ _ huser, sub_add_cancel]

/-- A claim and a stake of a user in one ledger: the pending reward is taken, the stake becomes
shares, and no other account moves. -/
structure Restaked (env : Env here) (user : Address) (s : FarmState) (reward acquired : ℤ)
    (config : FarmingConfig) (s' : FarmState) : Prop where
  config_eq : s.config = some config
  config_after : s'.config = some config
  auth : env.auth user = true
  pending : ∃ s₁, pendingRewards env user s = .ok (reward, s₁)
  shares_eq : (s'.account user).shares = (s.account user).shares + acquired
  credited_eq : (s'.account user).credited = 0
  others : ∀ u, u ≠ user → s'.account u = s.account u
  total_eq : s'.totalShares = s.totalShares + acquired
  sound : s'.Sound

/-- Whatever became of the tokens in between. -/
theorem restaked_of_claim_stake {e : Env here} {s₁ : FarmState} {t : Tokens}
    {reward acquired n : ℤ} (hf : s.Sound)
    (hclaim : claimRewards e user s = .ok (reward, s₁))
    (hstake : stakePreauthorized e user acquired { s₁ with tokens := t } = .ok (n, s')) :
    ∃ config, Restaked e user s reward acquired config s' ∧
      s₁.tokens = s.tokens.move config.rewardToken here user reward ∧
      s'.tokens = t.move config.lpToken user here acquired := by
  obtain ⟨config, hauth, hr, hpays, htokens⟩ := claimRewards_rebase hf hclaim
  have hsound := hr.sound hf
  have hc₁ : s₁.config = some config := hr.config_after.trans hr.config_eq
  have hstake := (stake_eq_preauthorized (s := { s₁ with tokens := t }) hauth hc₁).trans hstake
  obtain ⟨config', _, hr', htokens'⟩ := stake_rebase (s := { s₁ with tokens := t }) hsound hstake
  obtain rfl := Option.some.inj (hc₁.symm.trans hr'.config_eq)
  obtain ⟨_, hcredited⟩ := hr.settled_again hr'
  have hshares : (s₁.account user).shares = (s.account user).shares := by
    rw [hr.account_eq, if_pos rfl]
    rfl
  have hzero : (s₁.account user).credited = 0 := by
    rw [hr.account_eq, if_pos rfl, hpays]
    exact sub_self _
  have hafter : (s'.account user).shares = (s.account user).shares + acquired := by
    rw [hr'.account_eq, if_pos rfl, ← hshares]
    rfl
  refine ⟨config, ⟨hr.config_eq, hr'.config_after.trans hc₁, hauth, hr.pending hf hpays, hafter,
    hcredited.trans hzero, fun u hu => ?_, ?_, hr'.sound hsound⟩, htokens, htokens'⟩
  · rw [hr'.account_eq, if_neg hu]
    exact (hr.account_eq u).trans (if_neg hu)
  · have htotal := hr.total_eq
    have htotal' := hr'.total_eq
    dsimp only at htotal' ⊢
    omega

theorem harvestAndCompound_eq_ok (hf : s.Sound)
    (h : harvestAndCompound env user router path minLpOut s = .ok (r, s')) :
    ∃ config, Compounded env user minLpOut s r config s' ∧ s'.Sound := by
  simp only [harvestAndCompound, invokeRouter, bind_eq_ok, failIf_eq_ok, okOr_eq_ok,
    Env.transfer_eq_ok, IntRange.check_eq_some, pure_eq_ok, Prod.exists, Prod.mk.injEq,
    not_le, not_lt] at h
  obtain ⟨_, _, _, _, config, hc, _, _, reward, s₁, hclaim, _, hreward, _, ⟨_, rfl⟩, _, ⟨_, rfl⟩,
    swapped, ⟨_, hrouter, hswap⟩, acquired, ⟨_, hdelta⟩, _, hacquired, _, hmin, _, ⟨_, rfl⟩, n, s₂,
    hstake, rfl, rfl⟩ := h
  obtain ⟨config', hdone, htokens, htokens'⟩ := restaked_of_claim_stake hf hclaim hstake
  obtain rfl := Option.some.inj (hc.symm.trans hdone.config_eq)
  have hne := (Env.ne_here_of_auth hdone.auth).symm
  refine ⟨config, ⟨hc, hdone.config_after, hdone.auth, hdone.pending, hreward, hacquired, hmin,
    hdone.shares_eq, hdone.shares_eq, hdone.credited_eq, hdone.others, hdone.total_eq, ?_⟩,
    hdone.sound⟩
  rw [htokens', Tokens.move_apply_dst _ _ _ hne, if_pos rfl]
  dsimp only
  rw [Tokens.move_apply_src _ _ _ hne, if_pos rfl, sub_add_cancel]
  rw [htokens, router_funded _ _ _ hne (Ne.symm hrouter)] at hdelta
  omega

end Accounts

section Runs

variable {here : Address} {env : HarvestEnv here} {s s' : FarmState} {user : Address}
  {minLpOut : ℤ} {r : HarvestCompoundResult} {config : FarmingConfig}

/-- A reward that is compounded comes out of the surplus, as one that is paid out does. -/
def CompoundsFromSurplus (s : FarmState) (i : CompoundStep here) : Prop :=
  match i.2 with
  | .farm call => PaysFromSurplus s (i.1.toEnv, call)
  | .harvestAndCompound user _ _ _ =>
    (∃ s', compoundStep i s = .ok s') → SurplusCovers i.1.toEnv user s

/-- Every accepted harvest does what it should, whatever its router does. -/
def CompoundsSafely (s : FarmState) (i : CompoundStep here) : Prop :=
  ∀ user router path (minLpOut : i128.Value) r s',
    harvestAndCompound i.1 user router path minLpOut.1 s = .ok (r, s') →
      ∃ config, Compounded i.1 user minLpOut.1 s r config s'

theorem Compounded.principalHeld_iff (h : Compounded env user minLpOut s r config s')
    (hheld : PrincipalHeld here s) : PrincipalHeld here s' ↔ SurplusCovers env.toEnv user s := by
  have hprincipal := hheld config h.config_eq
  have htotal := h.total_eq
  have hafter := h.held_eq
  obtain ⟨s₁, hpend⟩ := h.pending
  constructor
  · intro hheld' config' hc' heq reward s₁' hpend'
    obtain rfl := Option.some.inj (h.config_eq.symm.trans hc')
    obtain ⟨rfl, _⟩ := Prod.mk.inj (Except.ok.inj (hpend.symm.trans hpend'))
    have hle := hheld' config h.config_after
    rw [if_pos heq] at hafter
    omega
  · intro hcovers config' hc'
    obtain rfl := Option.some.inj (h.config_after.symm.trans hc')
    split_ifs at hafter with heq
    · have := hcovers config h.config_eq heq r.rewardClaimed s₁ hpend
      omega
    · omega

theorem compoundStep_funded {i : CompoundStep here} (hs : FarmFunded here s)
    (h : compoundStep i s = .ok s') : FarmFunded here s' := by
  obtain ⟨env, call⟩ := i
  cases call with
  | farm call => exact farmStep_funded hs h
  | harvestAndCompound user router path minLpOut =>
    obtain ⟨r, h⟩ := snd_map_eq_ok.mp h
    obtain ⟨config, hdone, hsound⟩ := harvestAndCompound_eq_ok hs.sound h
    exact ⟨hsound, fun hnone => absurd (hnone.symm.trans hdone.config_after) (by simp)⟩

theorem commit_compoundsFromSurplus_iff (hs : FarmFunded here s) (hheld : PrincipalHeld here s)
    (i : CompoundStep here) :
    PrincipalHeld here (commit compoundStep s i) ↔ CompoundsFromSurplus s i := by
  obtain ⟨env, call⟩ := i
  cases call with
  | farm call => exact commit_principalHeld_iff hs hheld (env.toEnv, call)
  | harvestAndCompound user router path minLpOut =>
    refine commit_iff_of_accepted (C := SurplusCovers env.toEnv user s) hheld fun s' hstep => ?_
    obtain ⟨r, h⟩ := snd_map_eq_ok.mp hstep
    obtain ⟨config, hdone, _⟩ := harvestAndCompound_eq_ok hs.sound h
    rw [hdone.principalHeld_iff hheld]
    exact ⟨fun hcovers _ => hcovers, fun hcovers => hcovers ⟨s', hstep⟩⟩

end Runs

/-- A router that pays one unit of the last token for each unit it got, from what it holds. -/
def fairRouter (router : Address) (amount : ℤ) (path : List Address) (t : Tokens) :
    Option Tokens :=
  path.getLast?.map fun token => t.move token router ⟨0⟩ amount

def harvestAt (sequence : ℕ) (call : CompoundCall) : CompoundStep ⟨0⟩ :=
  ({ Env.standard ⟨0⟩ sequence none with
      paused := false, vaultPaused := false, swap := fairRouter }, call)

/-- A staker compounds the rewards of three ledgers. -/
def compoundingRun : List (CompoundStep ⟨0⟩) :=
  [harvestAt 0 (.farm (.initFarm ⟨9⟩ ⟨10⟩ ⟨11⟩ (units 1))),
   harvestAt 0 (.farm (.fundRewards ⟨8⟩ (units 5))), harvestAt 0 (.farm (.stake ⟨2⟩ (units 2))),
   harvestAt 3 (.harvestAndCompound ⟨2⟩ ⟨7⟩ [⟨11⟩, ⟨10⟩] (units 3))]

end StellarFlow.Vaults
