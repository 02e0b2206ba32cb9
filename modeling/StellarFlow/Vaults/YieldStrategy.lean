import StellarFlow.Vaults.HarvestCompound
import StellarFlow.Vaults.OptimalSwap

/-!
# Compounding through a pool

One call claims the pending reward of a user, swaps a part of it in a pool, adds both parts to
the pool, returns what the pool did not take and stakes the liquidity tokens that came back. The
pool is behind a router that the caller names. Here it is any three functions on the balances of
all tokens that take nothing from the contract, since nobody else signs for what it holds.
-/
namespace StellarFlow.Vaults.YieldStrategy

open Foundation

def compoundYieldPrecision : ℤ := 1000000000

inductive StrategyError
  | contract (e : ContractError)
  | strategyInvalidPairToken
  | strategyInvalidReserves
  | strategyYieldNotPositive
  deriving DecidableEq, Repr

def StrategyError.ofFault : Fault → Abort StrategyError
  | .error e => .error (.contract e)
  | .trap => .trap

/-- A call of another module of the contract. -/
def lift {α : Type} (x : Except Fault α) : Except (Abort StrategyError) α :=
  x.mapError StrategyError.ofFault

/-- Nothing of what the contract holds is taken. -/
def Spares (here : Address) (t t' : Tokens) : Prop := ∀ token, t token here ≤ t' token here

/-- What a call sees besides the farm: the answers of routers to the calls of the strategy, with
the balances after them. -/
structure StrategyEnv (here : Address) extends HarvestEnv here where
  getReserves : Address → Address → Address → Tokens → Option ((ℤ × ℤ) × Tokens)
  swapExactTokensForTokens :
    Address → ℤ → ℤ → List Address → Address → Tokens → Option Tokens
  addLiquidity : Address → Address → Address → ℤ → ℤ → Address → Tokens → Option Tokens
  getReserves_spares : ∀ router tokenA tokenB t answer t',
    getReserves router tokenA tokenB t = some (answer, t') → Spares here t t'
  swap_spares : ∀ router amountIn minOut path dst t t',
    swapExactTokensForTokens router amountIn minOut path dst t = some t' → Spares here t t'
  addLiquidity_spares : ∀ router tokenA tokenB amountA amountB dst t t',
    addLiquidity router tokenA tokenB amountA amountB dst t = some t' → Spares here t t'

structure StrategyCompoundResult where
  rewardClaimed : ℤ
  rewardSwapped : ℤ
  lpAcquired : ℤ
  newShareBalance : ℤ
  compoundYield : ℤ
  deriving DecidableEq, Repr

def assertPositiveCompoundYield (sharesBefore sharesAfter : ℤ) :
    Except (Abort StrategyError) ℤ := do
  failIf (sharesBefore ≤ 0) (.error .strategyYieldNotPositive)
  let growth ← okOr (i128.check (sharesAfter - sharesBefore)) (.error (.contract .mathOverflow))
  let scaled ← okOr (i128.check (growth * compoundYieldPrecision))
    (.error (.contract .mathOverflow))
  let compoundYield := scaled.tdiv sharesBefore
  failIf (compoundYield ≤ 0) (.error .strategyYieldNotPositive)
  pure compoundYield

/-- The host refuses to call the contract that is running. -/
def invoke {α : Type} (here router : Address) (answer : Option α) :
    Except (Abort StrategyError) α := do
  failIf (router = here) .trap
  okOr answer .trap

def balanceGain (here token : Address) (before : ℤ) (tokens : Tokens) :
    Except (Abort StrategyError) ℤ :=
  okOr (i128.check (tokens token here - before)) (.error (.contract .mathOverflow))

section Calls

variable {here : Address} (env : StrategyEnv here)

/-- Give back what the pool did not take. -/
def returnDust (token user : Address) (dust : ℤ) (tokens : Tokens) :
    Except (Abort StrategyError) Tokens :=
  if 0 < dust then lift (env.transfer token here user dust tokens) else pure tokens

/-- The swap of the reward: what was swapped, what is left of it, and what came in return. -/
def swapLeg (farm : FarmingConfig) (router pairToken : Address) (rewardClaimed : ℤ)
    (tokens : Tokens) : Except (Abort StrategyError) ((ℤ × ℤ × ℤ) × Tokens) := do
  let ((rewardReserve, pairReserve), tokens) ← invoke here router
    (env.getReserves router farm.rewardToken pairToken tokens)
  failIf (rewardReserve ≤ 0 ∨ pairReserve ≤ 0) (.error .strategyInvalidReserves)
  let rewardSwapped ← lift (optimalSwapAmount rewardReserve rewardClaimed poolFeeBps)
  let rewardPaired ← okOr (i128.check (rewardClaimed - rewardSwapped))
    (.error (.contract .mathOverflow))
  failIf (rewardSwapped ≤ 0 ∨ rewardPaired ≤ 0) (.error (.contract Harvest.nothingToCompound))
  let tokens ← lift (env.transfer farm.rewardToken here router rewardSwapped tokens)
  let pairBefore := tokens pairToken here
  let tokens ← invoke here router
    (env.swapExactTokensForTokens router rewardSwapped 0 [farm.rewardToken, pairToken] here tokens)
  let pairAcquired ← balanceGain here pairToken pairBefore tokens
  failIf (pairAcquired ≤ 0) (.error (.contract Harvest.swapFailed))
  pure ((rewardSwapped, rewardPaired, pairAcquired), tokens)

/-- The deposit of both legs: the liquidity tokens that came in return. -/
def depositLeg (farm : FarmingConfig) (user router pairToken : Address)
    (minLpOut rewardPaired pairAcquired : ℤ) (tokens : Tokens) :
    Except (Abort StrategyError) (ℤ × Tokens) := do
  let tokens ← lift (env.transfer farm.rewardToken here router rewardPaired tokens)
  let tokens ← lift (env.transfer pairToken here router pairAcquired tokens)
  let rewardBefore := tokens farm.rewardToken here
  let pairBefore := tokens pairToken here
  let lpBefore := tokens farm.lpToken here
  let tokens ← invoke here router (env.addLiquidity router farm.rewardToken pairToken
    rewardPaired pairAcquired here tokens)
  let lpAcquired ← balanceGain here farm.lpToken lpBefore tokens
  failIf (lpAcquired ≤ 0) (.error (.contract Harvest.swapFailed))
  failIf (lpAcquired < minLpOut) (.error (.contract Harvest.slippageExceeded))
  let rewardDust ← balanceGain here farm.rewardToken rewardBefore tokens
  let tokens ← returnDust env farm.rewardToken user rewardDust tokens
  let pairDust ← balanceGain here pairToken pairBefore tokens
  let tokens ← returnDust env pairToken user pairDust tokens
  pure (lpAcquired, tokens)

/-- The user signs once, for the claim. -/
def compoundStrategy (user router pairToken : Address) (minLpOut : ℤ) (s : FarmState) :
    Except (Abort StrategyError) (StrategyCompoundResult × FarmState) := do
  lift (requireVaultOperational env.toHarvestEnv)
  failIf (minLpOut < 0) (.error (.contract Harvest.invalidMinOut))
  let farm ← okOr s.config (.error (.contract .vaultNotInitialized))
  failIf (pairToken = farm.rewardToken ∨ pairToken = farm.lpToken)
    (.error .strategyInvalidPairToken)
  let sharesBefore := readI128 s.shares user
  let (rewardClaimed, s) ← lift (claimRewards env.toEnv user s)
  failIf (rewardClaimed ≤ 0) (.error (.contract Harvest.nothingToCompound))
  let tokens ← lift (env.transfer farm.rewardToken user here rewardClaimed s.tokens)
  let ((rewardSwapped, rewardPaired, pairAcquired), tokens) ←
    swapLeg env farm router pairToken rewardClaimed tokens
  let (lpAcquired, tokens) ←
    depositLeg env farm user router pairToken minLpOut rewardPaired pairAcquired tokens
  let tokens ← lift (env.transfer farm.lpToken here user lpAcquired tokens)
  let (_, s) ← lift (stakePreauthorized env.toEnv user lpAcquired { s with tokens })
  let newShareBalance := readI128 s.shares user
  let compoundYield ← assertPositiveCompoundYield sharesBefore newShareBalance
  pure (⟨rewardClaimed, rewardSwapped, lpAcquired, newShareBalance, compoundYield⟩, s)

end Calls

section Legs

variable {here : Address} {env : StrategyEnv here} {config : FarmingConfig}
  {user router pairToken token : Address}
  {claimed swapped paired acquired lp minLpOut dust before amount : ℤ} {t t' : Tokens}

@[simp] theorem lift_eq_ok {α : Type} {x : Except Fault α} {a : α} :
    lift x = .ok a ↔ x = .ok a := mapError_eq_ok

@[simp] theorem invoke_eq_ok {α : Type} {answer : Option α} {a : α} :
    invoke here router answer = .ok a ↔ router ≠ here ∧ answer = some a := by
  simp only [invoke, bind_eq_ok, failIf_eq_ok, okOr_eq_ok, exists_const, ne_eq]

@[simp] theorem balanceGain_eq_ok : balanceGain here token before t = .ok amount ↔
    i128.Fits (t token here - before) ∧ t token here - before = amount := by
  simp only [balanceGain, okOr_eq_ok, IntRange.check_eq_some]

/-- What the contract holds after it gave back a gain that is not negative. -/
theorem returnDust_held (hdust : 0 ≤ dust) (huser : here ≠ user)
    (h : returnDust env token user dust t = .ok t') (tok : Address) :
    t' tok here = t tok here - if tok = token then dust else 0 := by
  unfold returnDust at h
  split_ifs at h with hpos
  · simp only [lift_eq_ok, Env.transfer_eq_ok] at h
    rw [h.2, Tokens.move_apply_src _ _ _ huser]
  · obtain rfl := pure_eq_ok.mp h
    have hzero : dust = 0 := le_antisymm (not_lt.mp hpos) hdust
    simp [hzero]

/-- The swap spends the part of the reward that the formula names and nothing else. -/
structure Swapped (here : Address) (config : FarmingConfig) (pairToken : Address)
    (claimed swapped paired acquired : ℤ) (t t' : Tokens) : Prop where
  nearlyBest : ∃ reserve, NearlyBest (feeFactor poolFeeBps) reserve claimed swapped
  paired_pos : 0 < paired
  sum_eq : swapped + paired = claimed
  acquired_pos : 0 < acquired
  held_ge : ∀ tok, t tok here - (if tok = config.rewardToken then swapped else 0) +
    (if tok = pairToken then acquired else 0) ≤ t' tok here

theorem swapLeg_eq_ok (h : swapLeg env config router pairToken claimed t =
    .ok ((swapped, paired, acquired), t')) :
    router ≠ here ∧ Swapped here config pairToken claimed swapped paired acquired t t' := by
  simp only [swapLeg, bind_eq_ok, invoke_eq_ok, failIf_eq_ok, lift_eq_ok, okOr_eq_ok,
    IntRange.check_eq_some, Env.transfer_eq_ok, balanceGain_eq_ok, pure_eq_ok, Prod.exists,
    Prod.mk.injEq, not_or, not_le] at h
  obtain ⟨reserve, _, t₁, ⟨hrouter, hreserves⟩, _, _, swapped, hswapped, paired, ⟨_, rfl⟩, _,
    ⟨_, hpaired⟩, t₂, ⟨_, rfl⟩, t₃, ⟨_, hswap⟩, acquired, ⟨_, rfl⟩, _, hacquired, ⟨rfl, rfl, rfl⟩,
    rfl⟩ := h
  refine ⟨hrouter, ⟨reserve, optimalSwapAmount_spec hswapped⟩, hpaired, by omega, hacquired,
    fun tok => ?_⟩
  have h₁ := env.getReserves_spares _ _ _ _ _ _ hreserves tok
  have h₂ := env.swap_spares _ _ _ _ _ _ _ hswap tok
  rw [Tokens.move_apply_src _ _ _ hrouter.symm] at h₂
  by_cases hpair : tok = pairToken
  · subst hpair
    rw [Tokens.move_apply_src _ _ _ hrouter.symm] at hacquired ⊢
    rw [if_pos rfl]
    omega
  · rw [if_neg hpair]
    omega

/-- The deposit spends both legs. What it brings in liquidity tokens is kept, unless these are
the reward token: then it counts as left over as well. -/
structure Deposited (here : Address) (config : FarmingConfig) (pairToken : Address)
    (minLpOut paired acquired lp : ℤ) (t t' : Tokens) : Prop where
  lp_pos : 0 < lp
  lp_ge : minLpOut ≤ lp
  held_ge : ∀ tok, t tok here - (if tok = config.rewardToken then paired else 0) -
    (if tok = pairToken then acquired else 0) +
    (if tok = config.lpToken ∧ config.lpToken ≠ config.rewardToken then lp else 0) ≤ t' tok here

theorem depositLeg_eq_ok (huser : here ≠ user) (hrouter : router ≠ here)
    (hreward : pairToken ≠ config.rewardToken) (hlp : pairToken ≠ config.lpToken)
    (h : depositLeg env config user router pairToken minLpOut paired acquired t = .ok (lp, t')) :
    Deposited here config pairToken minLpOut paired acquired lp t t' := by
  simp only [depositLeg, bind_eq_ok, invoke_eq_ok, failIf_eq_ok, lift_eq_ok, Env.transfer_eq_ok,
    balanceGain_eq_ok, pure_eq_ok, Prod.mk.injEq, not_le, not_lt] at h
  obtain ⟨_, ⟨_, rfl⟩, _, ⟨_, rfl⟩, t₁, ⟨_, hadd⟩, _, ⟨_, rfl⟩, _, hpos, _, hmin, _, ⟨_, rfl⟩, t₂,
    hdust₁, _, ⟨_, rfl⟩, t₃, hdust₂, rfl, rfl⟩ := h
  have hspares := env.addLiquidity_spares _ _ _ _ _ _ _ _ hadd
  have hspent : ∀ tok, ((t.move config.rewardToken here router paired).move pairToken here router
      acquired) tok here = t tok here - (if tok = config.rewardToken then paired else 0) -
        if tok = pairToken then acquired else 0 := by
    intro tok
    rw [Tokens.move_apply_src _ _ _ hrouter.symm, Tokens.move_apply_src _ _ _ hrouter.symm]
  generalize (t.move config.rewardToken here router paired).move pairToken here router acquired =
    spent at *
  have hheld₁ := returnDust_held (sub_nonneg.mpr (hspares config.rewardToken)) huser hdust₁
  have hpair := hheld₁ pairToken
  rw [if_neg hreward, sub_zero] at hpair
  rw [hpair] at hdust₂
  have hheld₂ := returnDust_held (sub_nonneg.mpr (hspares pairToken)) huser hdust₂
  refine ⟨hpos, hmin, fun tok => ?_⟩
  rw [← hspent tok, hheld₂ tok, hheld₁ tok]
  have hge := hspares tok
  by_cases hr : tok = config.rewardToken
  · subst hr
    rw [if_pos rfl, if_neg hreward.symm, if_neg (by tauto)]
    omega
  · rw [if_neg hr]
    by_cases hp : tok = pairToken
    · subst hp
      rw [if_pos rfl, if_neg (by tauto)]
      omega
    · rw [if_neg hp]
      split_ifs with hl
      · rw [hl.1]
        omega
      · omega

end Legs

section Accounts

variable {here : Address} {env : StrategyEnv here} {s s' : FarmState}
  {user router pairToken : Address} {minLpOut before after y : ℤ} {r : StrategyCompoundResult}
  {config : FarmingConfig}

theorem assertPositiveCompoundYield_eq_ok (h : assertPositiveCompoundYield before after = .ok y) :
    0 < before ∧ 0 < y ∧ y = ((after - before) * compoundYieldPrecision).tdiv before := by
  simp only [assertPositiveCompoundYield, bind_eq_ok, failIf_eq_ok, okOr_eq_ok,
    IntRange.check_eq_some, pure_eq_ok, not_le] at h
  obtain ⟨_, hbefore, _, ⟨_, rfl⟩, _, ⟨_, rfl⟩, _, hy, rfl⟩ := h
  exact ⟨hbefore, hy, rfl⟩

/-- What an accepted call does: the pending reward is taken and split close to the best way, what
the pool gave in liquidity tokens becomes shares, no other account moves, and of every token the
contract holds at least what it held less the reward. -/
structure Strategized (env : StrategyEnv here) (user : Address) (minLpOut : ℤ) (s : FarmState)
    (r : StrategyCompoundResult) (config : FarmingConfig) (s' : FarmState) : Prop where
  restaked : Restaked env.toEnv user s r.rewardClaimed r.lpAcquired config s'
  nearlyBest : ∃ reserve, NearlyBest (feeFactor poolFeeBps) reserve r.rewardClaimed r.rewardSwapped
  swapped_lt : r.rewardSwapped < r.rewardClaimed
  acquired_pos : 0 < r.lpAcquired
  acquired_ge : minLpOut ≤ r.lpAcquired
  balance_eq : r.newShareBalance = (s.account user).shares + r.lpAcquired
  shares_pos : 0 < (s.account user).shares
  yield_pos : 0 < r.compoundYield
  yield_eq : r.compoundYield = r.lpAcquired * compoundYieldPrecision / (s.account user).shares
  held_ge : ∀ tok, s.tokens tok here - (if tok = config.rewardToken then r.rewardClaimed else 0) +
    (if tok = config.lpToken ∧ config.lpToken ≠ config.rewardToken then r.lpAcquired else 0) ≤
      s'.tokens tok here

theorem compoundStrategy_eq_ok (hf : s.Sound)
    (h : compoundStrategy env user router pairToken minLpOut s = .ok (r, s')) :
    ∃ config, Strategized env user minLpOut s r config s' := by
  simp only [compoundStrategy, bind_eq_ok, failIf_eq_ok, okOr_eq_ok, lift_eq_ok,
    Env.transfer_eq_ok, pure_eq_ok, Prod.exists, Prod.mk.injEq, not_or, not_le] at h
  obtain ⟨_, _, _, _, config, hc, _, ⟨hreward, hlp⟩, claimed, s₁, hclaim, _, _, _, ⟨_, rfl⟩,
    swapped, paired, acquired, t₁, hswap, lp, t₂, hdeposit, _, ⟨_, rfl⟩, n, s₂, hstake, y, hyield,
    rfl, rfl⟩ := h
  obtain ⟨config', hdone, htokens, htokens'⟩ := restaked_of_claim_stake hf hclaim hstake
  obtain rfl := Option.some.inj (hc.symm.trans hdone.config_eq)
  have hne := (Env.ne_here_of_auth hdone.auth).symm
  obtain ⟨hrouter, hswapped⟩ := swapLeg_eq_ok hswap
  have hdeposited := depositLeg_eq_ok hne hrouter hreward hlp hdeposit
  obtain ⟨hbefore, hy, hyeq⟩ := assertPositiveCompoundYield_eq_ok hyield
  have hshares : readI128 s₂.shares user = (s.account user).shares + lp := hdone.shares_eq
  have hpaired := hswapped.paired_pos
  have hsum := hswapped.sum_eq
  have hlppos := hdeposited.lp_pos
  refine ⟨config, ⟨hdone, hswapped.nearlyBest, ?_, hlppos, hdeposited.lp_ge, hshares, hbefore, hy,
    ?_, fun tok => ?_⟩⟩
  · dsimp only
    omega
  · have hgrowth : (readI128 s₂.shares user - readI128 s.shares user) = lp := by
      rw [hshares]
      exact add_sub_cancel_left _ _
    have hnonneg : 0 ≤ lp * compoundYieldPrecision := mul_nonneg hlppos.le (by decide)
    rw [hgrowth, Int.tdiv_eq_ediv_of_nonneg hnonneg] at hyeq
    exact hyeq
  · have hclaimed : (s₁.tokens.move config.rewardToken user here claimed) tok here =
        s.tokens tok here := by
      rw [htokens, Tokens.move_apply_dst _ _ _ hne, Tokens.move_apply_src _ _ _ hne, sub_add_cancel]
    have hstaked : s₂.tokens tok here = t₂ tok here := by
      rw [htokens', Tokens.move_apply_dst _ _ _ hne, Tokens.move_apply_src _ _ _ hne,
        sub_add_cancel]
    have hfirst := hswapped.held_ge tok
    have hsecond := hdeposited.held_ge tok
    rw [hclaimed] at hfirst
    rw [hstaked]
    dsimp only
    split_ifs at hfirst hsecond ⊢ <;> omega

end Accounts

/-! ## Runs -/

inductive StrategyCall
  | compound (call : CompoundCall)
  | compoundStrategy (user router pairToken : Address) (minLpOut : i128.Value)

abbrev StrategyStep (here : Address) := StrategyEnv here × StrategyCall

def strategyStep {here : Address} (i : StrategyStep here) (s : FarmState) :
    Except (Abort StrategyError) FarmState :=
  match i.2 with
  | .compound call => lift (compoundStep (i.1.toHarvestEnv, call) s)
  | .compoundStrategy user router pairToken minLpOut =>
    Prod.snd <$> compoundStrategy i.1 user router pairToken minLpOut.1 s

/-- Where rewards are paid in the staked token, a reward that is compounded and what it brings
both come out of the surplus. -/
def RestakesFromSurplus {here : Address} (s : FarmState) (i : StrategyStep here) : Prop :=
  match i.2 with
  | .compound call => CompoundsFromSurplus s (i.1.toHarvestEnv, call)
  | .compoundStrategy user router pairToken minLpOut =>
    ∀ r s', compoundStrategy i.1 user router pairToken minLpOut.1 s = .ok (r, s') →
      ∀ config, s.config = some config → config.lpToken = config.rewardToken →
        s.totalShares + r.rewardClaimed + r.lpAcquired ≤ s.tokens config.lpToken here

/-- Every accepted call of the strategy does what it should, whatever its router does. -/
def StrategizesSafely {here : Address} (s : FarmState) (i : StrategyStep here) : Prop :=
  ∀ user router pairToken (minLpOut : i128.Value) r s',
    compoundStrategy i.1 user router pairToken minLpOut.1 s = .ok (r, s') →
      ∃ config, Strategized i.1 user minLpOut.1 s r config s'

section Runs

variable {here : Address} {env : StrategyEnv here} {s s' : FarmState} {user : Address}
  {minLpOut : ℤ} {r : StrategyCompoundResult} {config : FarmingConfig}

/-- A farm that stakes one token and pays in another needs no surplus. -/
theorem restakesFromSurplus_of_ne (hc : s.config = some config)
    (hne : config.lpToken ≠ config.rewardToken) (i : StrategyStep here) :
    RestakesFromSurplus s i := by
  have hdiffers : ∀ config', s.config = some config' → config'.lpToken ≠ config'.rewardToken := by
    intro config' hc'
    exact Option.some.inj (hc.symm.trans hc') ▸ hne
  have hcovers : ∀ (env : Env here) user, SurplusCovers env user s :=
    fun _ _ config' hc' heq => absurd heq (hdiffers config' hc')
  obtain ⟨env, call⟩ := i
  cases call with
  | compound call =>
    cases call with
    | farm call =>
      cases call with
      | claimRewards user => exact fun _ => hcovers _ user
      | exit user => exact fun _ => hcovers _ user
      | _ => trivial
    | harvestAndCompound user => exact fun _ => hcovers _ user
  | compoundStrategy => exact fun _ _ _ config' hc' heq => absurd heq (hdiffers config' hc')

theorem Strategized.principalHeld (h : Strategized env user minLpOut s r config s')
    (hheld : PrincipalHeld here s)
    (hcovers : config.lpToken = config.rewardToken →
      s.totalShares + r.rewardClaimed + r.lpAcquired ≤ s.tokens config.lpToken here) :
    PrincipalHeld here s' := by
  intro config' hc'
  obtain rfl := Option.some.inj (h.restaked.config_after.symm.trans hc')
  have hprincipal := hheld config h.restaked.config_eq
  have htotal := h.restaked.total_eq
  have hafter := h.held_ge config.lpToken
  by_cases heq : config.lpToken = config.rewardToken
  · have hsurplus := hcovers heq
    rw [if_pos heq, if_neg (by tauto)] at hafter
    omega
  · rw [if_neg heq, if_pos ⟨rfl, heq⟩] at hafter
    omega

theorem strategyStep_funded {i : StrategyStep here} (hs : FarmFunded here s)
    (h : strategyStep i s = .ok s') : FarmFunded here s' := by
  obtain ⟨env, call⟩ := i
  cases call with
  | compound call => exact compoundStep_funded hs (lift_eq_ok.mp h)
  | compoundStrategy user router pairToken minLpOut =>
    obtain ⟨r, h⟩ := snd_map_eq_ok.mp h
    obtain ⟨config, hdone⟩ := compoundStrategy_eq_ok hs.sound h
    exact ⟨hdone.restaked.sound,
      fun hnone => absurd (hnone.symm.trans hdone.restaked.config_after) (by simp)⟩

theorem strategyStep_principalHeld {i : StrategyStep here} (hs : FarmFunded here s)
    (hheld : PrincipalHeld here s) (hc : RestakesFromSurplus s i)
    (h : strategyStep i s = .ok s') : PrincipalHeld here s' := by
  obtain ⟨env, call⟩ := i
  cases call with
  | compound call =>
    have hstep := lift_eq_ok.mp h
    have hkeep := (commit_compoundsFromSurplus_iff hs hheld (env.toHarvestEnv, call)).mpr hc
    rwa [commit_of_ok hstep] at hkeep
  | compoundStrategy user router pairToken minLpOut =>
    obtain ⟨r, h⟩ := snd_map_eq_ok.mp h
    obtain ⟨config, hdone⟩ := compoundStrategy_eq_ok hs.sound h
    exact hdone.principalHeld hheld (hc r s' h config hdone.restaked.config_eq)

end Runs

section Sample

/-- A router that pays an amount of a token out of what it holds. -/
def payOut (router dst token : Address) (amount : ℤ) (t : Tokens) : Option Tokens :=
  if 0 ≤ amount ∧ router ≠ ⟨0⟩ then some (t.move token router dst amount) else none

theorem payOut_spares {router dst token : Address} {amount : ℤ} {t t' : Tokens}
    (h : payOut router dst token amount t = some t') : Spares ⟨0⟩ t t' := by
  unfold payOut at h
  split_ifs at h with hpays
  obtain rfl := Option.some.inj h
  intro tok
  by_cases hdst : dst = ⟨0⟩
  · rw [hdst, Tokens.move_apply_dst _ _ _ (Ne.symm hpays.2)]
    split_ifs <;> omega
  · rw [Tokens.move_apply_of_ne _ _ _ (Ne.symm hpays.2) (Ne.symm hdst)]

/-- A pool with a million of both tokens that pays one unit for one. -/
def poolAt (sequence : ℕ) (call : StrategyCall) : StrategyStep ⟨0⟩ :=
  ({ Env.standard ⟨0⟩ sequence none with
      paused := false, vaultPaused := false, swap := fairRouter
      getReserves := fun _ _ _ t => some ((1000000, 1000000), t)
      swapExactTokensForTokens := fun router amount _ path dst t =>
        path.getLast?.bind fun token => payOut router dst token amount t
      addLiquidity := fun router _ _ amount _ dst t => payOut router dst ⟨10⟩ amount t
      getReserves_spares := by
        rintro _ _ _ t _ t' h token
        obtain ⟨_, rfl⟩ := Prod.mk.inj (Option.some.inj h)
        exact le_rfl
      swap_spares := by
        intro _ _ _ _ _ _ _ h
        obtain ⟨_, _, h⟩ := Option.bind_eq_some_iff.mp h
        exact payOut_spares h
      addLiquidity_spares := fun _ _ _ _ _ _ _ _ h => payOut_spares h }, call)

/-- The first staker of a farm that pays a hundred a ledger compounds after three of them, just
after another one came. -/
def strategyRun (rewardToken : Address) : List (StrategyStep ⟨0⟩) :=
  [poolAt 0 (.compound (.farm (.initFarm ⟨9⟩ ⟨10⟩ rewardToken (units 100)))),
   poolAt 0 (.compound (.farm (.fundRewards ⟨8⟩ (units 300)))),
   poolAt 0 (.compound (.farm (.stake ⟨2⟩ (units 2)))),
   poolAt 3 (.compound (.farm (.stake ⟨3⟩ (units 200)))),
   poolAt 3 (.compoundStrategy ⟨2⟩ ⟨7⟩ ⟨12⟩ (units 149))]

/-- Where the farm pays in the staked token, what the pool returns is given back to the user and
staked for it as well. -/
theorem strategyRun_unbacked :
    ¬ PrincipalHeld ⟨0⟩ (runAll strategyStep (.fresh stakerTokens) (strategyRun ⟨10⟩)) := by
  have hconfig : (runAll strategyStep (.fresh stakerTokens) (strategyRun ⟨10⟩)).config =
      some ⟨⟨9⟩, ⟨10⟩, ⟨10⟩, 100, 10000⟩ := by
    decide +kernel
  have hlt : (runAll strategyStep (.fresh stakerTokens) (strategyRun ⟨10⟩)).tokens ⟨10⟩ ⟨0⟩ <
      (runAll strategyStep (.fresh stakerTokens) (strategyRun ⟨10⟩)).totalShares := by
    decide +kernel
  exact fun h => absurd (h _ hconfig) hlt.not_ge

end Sample

end StellarFlow.Vaults.YieldStrategy
