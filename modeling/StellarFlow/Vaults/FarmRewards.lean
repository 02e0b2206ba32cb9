import StellarFlow.Vaults.FarmAccounts

/-!
# Rewards of the farm against its emission

A history adds to the state of the farm what the storage forgets: the ledger, the rewards
paid to every user, and the emission of all ledgers so far with the part of it that belongs
to every user, ledger by ledger and without rounding. The debt of a stake is rounded down.
Where this drops more than rounding dropped before, the new shares earn a fraction of a unit
for ledgers in which they were not staked, and all rewards together can exceed the emission.
-/
namespace StellarFlow.Vaults

open Foundation

/-- Rewards emitted per ledger while the farm stays as it is. -/
def Farm.rate (f : Farm) : ℚ :=
  match f.config with
  | none => 0
  | some config =>
    if 0 < f.totalShares then config.emissionPerLedger * config.emissionMultiplier / 10000 else 0

/-- The part of it that belongs to a user. -/
def Farm.rateOf (f : Farm) (user : Address) : ℚ :=
  f.rate * ((f.account user).shares / f.totalShares)

structure History where
  state : FarmState
  /-- Ledger of the last accepted call. -/
  ledger : ℕ
  paid : Address → ℤ
  /-- Number of accepted stakes. -/
  stakes : Address → ℕ
  emitted : ℚ
  entitled : Address → ℚ

def History.fresh (tokens : Tokens) (ledger : ℕ) : History :=
  ⟨.fresh tokens, ledger, fun _ => 0, fun _ => 0, 0, fun _ => 0⟩

/-- What a call pays to a user. -/
def FarmCall.payout (reward : ℤ) (u : Address) : FarmCall → ℤ
  | .claimRewards user => if u = user then reward else 0
  | .exit user => if u = user then reward else 0
  | _ => 0

def FarmCall.staked (u : Address) : FarmCall → ℕ
  | .stake user _ => if u = user then 1 else 0
  | _ => 0

/-- A call with the number of ledgers since the last accepted one. -/
abbrev TimedStep (here : Address) := ℕ × FarmStep here

/-- The ledgers before the call belong to the farm as it was before. -/
def History.after (h : History) (k : ℕ) (call : FarmCall) (reward : ℤ) (state : FarmState) :
    History where
  state
  ledger := h.ledger + k
  paid u := h.paid u + call.payout reward u
  stakes u := h.stakes u + call.staked u
  emitted := h.emitted + k * h.state.rate
  entitled u := h.entitled u + k * h.state.rateOf u

def historyStep {here : Address} (i : TimedStep here) (h : History) : Except Fault History := do
  let (reward, state) ← i.2.2.exec { i.2.1 with sequence := h.ledger + i.1 } h.state
  pure (h.after i.1 i.2.2 reward state)

namespace History

variable (h : History)

def unsettled (u : Address) : ℤ :=
  (h.state.account u).unsettled rewardPrecision h.state.accRewardPerShare

/-- Rewards a user was paid, has accrued or has not settled yet. -/
def earned (u : Address) : ℤ := h.paid u + (h.state.account u).credited + h.unsettled u

/-- No reward without emission: all users together, and every user for its own ledgers. -/
structure Conserved : Prop where
  earned_le : ∀ users : Finset Address, ((∑ u ∈ users, h.earned u : ℤ) : ℚ) ≤ h.emitted
  shares_eq : Store.total (fun _ value => value) h.state.shares = h.state.totalShares
  unsettled_nonneg : ∀ u, 0 ≤ h.unsettled u
  entitled_only : ∀ u, (h.earned u : ℚ) ≤ h.entitled u

end History

/-- In an accepted stake, rounding the debt of the new shares drops no more than rounding the
value of the old ones, but for the given number of fractions. -/
def RoundsWithin {here : Address} (slack : ℤ) (h : History) (i : TimedStep here) : Prop :=
  match i.2.2 with
  | .stake user amount => (∃ h', historyStep i h = .ok h') →
    ∀ config, h.state.config = some config →
      let acc := h.state.accRewardPerShare + accrual config
        (h.ledger + i.1 - h.state.lastRewardLedger.getD (h.ledger + i.1)) h.state.totalShares
      ((h.state.account user).shares + amount.1) * acc % rewardPrecision ≤
        (h.state.account user).shares * acc % rewardPrecision + slack
  | _ => True

section Rates

variable {f : Farm} {config : FarmingConfig}

theorem Farm.Sound.rate_nonneg (hf : f.Sound) : 0 ≤ f.rate := by
  unfold Farm.rate
  cases hc : f.config with
  | none => exact le_rfl
  | some config =>
    have he : (0 : ℚ) ≤ config.emissionPerLedger := by exact_mod_cast hf.emission_nonneg config hc
    dsimp only
    split_ifs
    · positivity
    · exact le_rfl

theorem Farm.Sound.rateOf_nonneg (hf : f.Sound) (u : Address) : 0 ≤ f.rateOf u := by
  have hshares : (0 : ℚ) ≤ (f.account u).shares := by exact_mod_cast hf.shares_nonneg u
  have htotal : (0 : ℚ) ≤ f.totalShares := by exact_mod_cast hf.totalShares_nonneg
  exact mul_nonneg hf.rate_nonneg (div_nonneg hshares htotal)

/-- The parts of any users are parts of one emission. -/
theorem Farm.Sound.sum_rateOf_le (hf : f.Sound) (users : Finset Address) :
    ∑ u ∈ users, f.rateOf u ≤ f.rate := by
  have hsum : ∑ u ∈ users, (f.account u).shares ≤ f.totalShares := by
    rw [← hf.total_eq]
    refine le_trans (le_of_eq ?_)
      (Store.sum_part_le_total (fun u value h => (hf.shares_pos u value h).le) users)
    exact Finset.sum_congr rfl fun u _ => readI128_eq_part _ _
  have hcast : (∑ u ∈ users, ((f.account u).shares : ℚ)) ≤ f.totalShares := by exact_mod_cast hsum
  have htotal : (0 : ℚ) ≤ f.totalShares := by exact_mod_cast hf.totalShares_nonneg
  unfold Farm.rateOf
  rw [← Finset.mul_sum, ← Finset.sum_div]
  exact mul_le_of_le_one_right hf.rate_nonneg (div_le_one_of_le₀ hcast htotal)

/-- The increase of the index, spread over all shares, is within the emission. -/
theorem accrual_le {elapsed : ℕ} {shares : ℤ} (hS : 0 < shares) :
    (accrual config elapsed shares : ℚ) ≤ rewardPrecision *
      (config.emissionPerLedger * elapsed * config.emissionMultiplier / 10000) / shares := by
  have hS' : (0 : ℚ) < shares := by exact_mod_cast hS
  have hp : (0 : ℚ) ≤ rewardPrecision := by exact_mod_cast rewardPrecision_pos.le
  have hemitted : ((config.emissionPerLedger * elapsed * config.emissionMultiplier / 10000 : ℤ) : ℚ)
      ≤ config.emissionPerLedger * elapsed * config.emissionMultiplier / 10000 := by
    rw [le_div_iff₀ (by norm_num)]
    exact_mod_cast Int.ediv_mul_le _ (by norm_num : (10000 : ℤ) ≠ 0)
  rw [accrual, if_pos hS, le_div_iff₀ hS']
  calc (((config.emissionPerLedger * elapsed * config.emissionMultiplier / 10000 *
          rewardPrecision / shares : ℤ) : ℚ) * shares)
      ≤ ((config.emissionPerLedger * elapsed * config.emissionMultiplier / 10000 : ℤ) : ℚ) *
          rewardPrecision := by exact_mod_cast Int.ediv_mul_le _ hS.ne'
    _ ≤ config.emissionPerLedger * elapsed * config.emissionMultiplier / 10000 *
          rewardPrecision := mul_le_mul_of_nonneg_right hemitted hp
    _ = rewardPrecision *
          (config.emissionPerLedger * elapsed * config.emissionMultiplier / 10000) := mul_comm _ _

/-- What the index of the pool gives to a user is within its part of the emission. -/
theorem Farm.Sound.shares_mul_accrual_le (hf : f.Sound) (hc : f.config = some config)
    (elapsed : ℕ) (u : Address) :
    (((f.account u).shares * accrual config elapsed f.totalShares : ℤ) : ℚ) ≤
      rewardPrecision * (elapsed * f.rateOf u) := by
  have hshares : (0 : ℚ) ≤ (f.account u).shares := by exact_mod_cast hf.shares_nonneg u
  rcases hf.totalShares_nonneg.lt_or_eq with hS | hS
  · have hrate : f.rate = config.emissionPerLedger * config.emissionMultiplier / 10000 := by
      simp only [Farm.rate, hc, if_pos hS]
    push_cast
    apply (mul_le_mul_of_nonneg_left (accrual_le hS) hshares).trans (le_of_eq _)
    rw [Farm.rateOf, hrate]
    ring
  · rw [accrual, if_neg hS.ge.not_gt, mul_zero, Int.cast_zero]
    have hp : (0 : ℚ) ≤ rewardPrecision := by exact_mod_cast rewardPrecision_pos.le
    have hrate := hf.rateOf_nonneg u
    positivity

end Rates

section Invariant

variable {here : Address} {h h' : History} {slack : ℤ}

namespace History

/-- The account of a user with everything it was ever credited. -/
def account (h : History) (u : Address) : Account :=
  { h.state.account u with credited := h.paid u + (h.state.account u).credited }

/-- Ledgers since the pool was brought up to date. -/
def lag (h : History) : ℕ := h.ledger - h.state.lastRewardLedger.getD h.ledger

/-- No account is worth more than what belongs to its user, apart from a given number of
fractions of a unit for every stake. -/
structure Accounted (slack : ℤ) (h : History) : Prop where
  sound : h.state.Sound
  last_le : ∀ last, h.state.lastRewardLedger = some last → last ≤ h.ledger
  worth_le : ∀ u, ((h.account u).worth rewardPrecision h.state.accRewardPerShare : ℚ) +
    rewardPrecision * (h.lag * h.state.rateOf u) ≤
      rewardPrecision * h.entitled u + slack * h.stakes u
  entitled_le : ∀ users : Finset Address, ∑ u ∈ users, h.entitled u ≤ h.emitted

end History

/-- The account of a user with a payment on record, across a change. -/
theorem Rebase.worth_eq {ledger : ℕ} {config : FarmingConfig} {f f' : Farm} {user : Address}
    {n reward : ℤ} (hr : Rebase ledger config f f' user n reward) (paid : ℤ) (u : Address) :
    Account.worth rewardPrecision f'.accRewardPerShare { f'.account u with
        credited := paid + (if u = user then reward else 0) + (f'.account u).credited } =
      Account.worth rewardPrecision f'.accRewardPerShare { f.account u with
        credited := paid + (f.account u).credited } +
      if u = user then n * f'.accRewardPerShare % rewardPrecision -
        (f.account u).shares * f'.accRewardPerShare % rewardPrecision else 0 := by
  rw [hr.account_eq]
  split_ifs with hu
  · rw [← Account.worth_rebased_settled]
    congr 1
    ext
    · rfl
    · rfl
    · simp only [Account.pay, Account.rebased, Account.settled, Account.unsettled]
      ring
  · rw [add_zero, add_zero]

namespace History

theorem elapsed_le (k : ℕ) :
    h.ledger + k - h.state.lastRewardLedger.getD (h.ledger + k) ≤ h.lag + k := by
  unfold lag
  cases h.state.lastRewardLedger with
  | none => simp
  | some last =>
    simp only [Option.getD_some]
    omega

variable {k : ℕ} {call : FarmCall} {reward n : ℤ} {state : FarmState} {config : FarmingConfig}
  {user : Address}

theorem account_after {u : Address} (hpaid : call.payout reward u = 0)
    (haccount : state.account u = h.state.account u) :
    (h.after k call reward state).account u = h.account u := by
  simp only [account, after, hpaid, haccount, add_zero]

/-- After an update of the pool there is nothing to catch up. -/
theorem lag_after_update
    (hlast : state.lastRewardLedger = h.state.lastRewardLedger.map (max (h.ledger + k))) :
    (h.after k call reward state).lag = 0 := by
  simp only [lag, after, hlast]
  cases h.state.lastRewardLedger with
  | none => simp
  | some last => simp [Nat.sub_eq_zero_of_le]

/-- It is enough to compare the worth of an account with what the ledgers since the last
update gave to its user. -/
theorem Accounted.advance (ha : h.Accounted slack) (hsound : state.Sound)
    (hlast : ∀ last, state.lastRewardLedger = some last → last ≤ h.ledger + k)
    (hworth : ∀ u, (((h.after k call reward state).account u).worth rewardPrecision
        state.accRewardPerShare : ℚ) +
      rewardPrecision * ((h.after k call reward state).lag * state.rateOf u) ≤
        (h.account u).worth rewardPrecision h.state.accRewardPerShare +
          rewardPrecision * ((h.lag + k) * h.state.rateOf u) + slack * call.staked u) :
    (h.after k call reward state).Accounted slack := by
  refine ⟨hsound, hlast, fun u => ?_, fun users => ?_⟩
  · have hold := ha.worth_le u
    have hnew := hworth u
    simp only [after] at hnew ⊢
    push_cast
    linarith
  · have hold := ha.entitled_le users
    have hrate : k * ∑ u ∈ users, h.state.rateOf u ≤ k * h.state.rate :=
      mul_le_mul_of_nonneg_left (ha.sound.sum_rateOf_le users) (Nat.cast_nonneg k)
    simp only [after, Finset.sum_add_distrib, ← Finset.mul_sum]
    linarith

/-- What an update of the pool catches up is within the ledgers that passed. -/
theorem Accounted.catchUp_le (ha : h.Accounted slack) (k : ℕ) (u : Address) :
    rewardPrecision * (((h.ledger + k - h.state.lastRewardLedger.getD (h.ledger + k) : ℕ) : ℚ) *
      h.state.rateOf u) ≤ rewardPrecision * ((h.lag + k) * h.state.rateOf u) := by
  have hp : (0 : ℚ) ≤ rewardPrecision := by exact_mod_cast rewardPrecision_pos.le
  have helapsed : ((h.ledger + k - h.state.lastRewardLedger.getD (h.ledger + k) : ℕ) : ℚ) ≤
      h.lag + k := by exact_mod_cast elapsed_le k
  exact mul_le_mul_of_nonneg_left
    (mul_le_mul_of_nonneg_right helapsed (ha.sound.rateOf_nonneg u)) hp

/-- Raising the index gives every account at most its part of the emission. -/
theorem Accounted.worth_accrual_le (ha : h.Accounted slack) (hc : h.state.config = some config)
    (k : ℕ) (u : Address) :
    ((h.account u).worth rewardPrecision (h.state.accRewardPerShare + accrual config
      (h.ledger + k - h.state.lastRewardLedger.getD (h.ledger + k)) h.state.totalShares) : ℚ) ≤
      (h.account u).worth rewardPrecision h.state.accRewardPerShare +
        rewardPrecision * ((h.lag + k) * h.state.rateOf u) := by
  have hgain := ha.sound.shares_mul_accrual_le hc
    (h.ledger + k - h.state.lastRewardLedger.getD (h.ledger + k)) u
  rw [Account.worth_add]
  push_cast at hgain ⊢
  exact add_le_add le_rfl (hgain.trans (ha.catchUp_le k u))

/-- A call that updates the pool, and changes the worth of accounts by rounding only. -/
theorem Accounted.update (ha : h.Accounted slack) (hc : h.state.config = some config)
    (hsound : state.Sound)
    (hacc : state.accRewardPerShare = h.state.accRewardPerShare + accrual config
      (h.ledger + k - h.state.lastRewardLedger.getD (h.ledger + k)) h.state.totalShares)
    (hlast : state.lastRewardLedger = h.state.lastRewardLedger.map (max (h.ledger + k)))
    (rounding : Address → ℤ)
    (hworth : ∀ u, ((h.after k call reward state).account u).worth rewardPrecision
        state.accRewardPerShare =
      (h.account u).worth rewardPrecision state.accRewardPerShare + rounding u)
    (hround : ∀ u, rounding u ≤ slack * call.staked u) :
    (h.after k call reward state).Accounted slack := by
  apply ha.advance hsound
  · intro last hsome
    rw [hlast, Option.map_eq_some_iff] at hsome
    obtain ⟨last₀, hlast₀, rfl⟩ := hsome
    have := ha.last_le last₀ hlast₀
    omega
  · intro u
    have hgain := ha.worth_accrual_le hc k u
    have hr : (rounding u : ℚ) ≤ slack * call.staked u := by exact_mod_cast hround u
    rw [hworth u, lag_after_update hlast, hacc]
    push_cast
    linarith

/-- A call that updates the pool and leaves the accounts as they are. -/
theorem Accounted.refresh (ha : h.Accounted slack) (hc : h.state.config = some config)
    (hsound : state.Sound)
    (hacc : state.accRewardPerShare = h.state.accRewardPerShare + accrual config
      (h.ledger + k - h.state.lastRewardLedger.getD (h.ledger + k)) h.state.totalShares)
    (hlast : state.lastRewardLedger = h.state.lastRewardLedger.map (max (h.ledger + k)))
    (hpaid : ∀ u, call.payout reward u = 0)
    (haccount : ∀ u, state.account u = h.state.account u) (hslack : 0 ≤ slack) :
    (h.after k call reward state).Accounted slack := by
  apply ha.update hc hsound hacc hlast (fun _ => 0)
  · intro u
    rw [account_after (hpaid u) (haccount u), add_zero]
  · intro u
    positivity

theorem Accounted.rebase (ha : h.Accounted slack)
    (hr : Rebase (h.ledger + k) config h.state.toFarm state.toFarm user n reward)
    (hpaid : ∀ u, call.payout reward u = if u = user then reward else 0)
    (hround : n * state.accRewardPerShare % rewardPrecision ≤
      (h.state.account user).shares * state.accRewardPerShare % rewardPrecision +
        slack * call.staked user)
    (hslack : 0 ≤ slack) :
    (h.after k call reward state).Accounted slack := by
  apply ha.update hr.config_eq (hr.sound ha.sound) hr.acc_eq hr.last_eq
  · intro u
    have hworth := hr.worth_eq (h.paid u) u
    rw [← hpaid u] at hworth
    exact hworth
  · intro u
    split_ifs with hu
    · rw [hu]
      omega
    · positivity

end History

/-- One call that rounds within the slack keeps the accounts within it. -/
theorem historyStep_accounted {i : TimedStep here} (hslack : 0 ≤ slack) (ha : h.Accounted slack)
    (hround : RoundsWithin slack h i) (hstep : historyStep i h = .ok h') :
    h'.Accounted slack := by
  have hok := hstep
  simp only [historyStep, bind_eq_ok, pure_eq_ok, Prod.exists] at hstep
  obtain ⟨reward, state, hexec, rfl⟩ := hstep
  have hchange := FarmCall.exec_change ha.sound hexec
  have hsound := hchange.sound ha.sound
  obtain ⟨k, env, call⟩ := i
  cases hchange with
  | initFarm hnone h0 =>
    apply ha.advance hsound fun last hlast => (Option.some.inj hlast).ge
    intro u
    have hp : (0 : ℚ) ≤ rewardPrecision := by exact_mod_cast rewardPrecision_pos.le
    have hrate := ha.sound.rateOf_nonneg u
    have hcatch : (0 : ℚ) ≤ rewardPrecision * ((h.lag + k) * h.state.rateOf u) := by positivity
    rw [History.account_after]
    · simpa [History.lag, History.after, FarmCall.staked] using hcatch
    · rfl
    · rfl
  | fundRewards hc hpos hauth =>
    apply ha.advance hsound fun last hlast => (ha.last_le last hlast).trans (Nat.le_add_right _ _)
    intro u
    have hcatch := ha.catchUp_le k u
    rw [History.account_after]
    · simpa [History.lag, History.after, FarmCall.staked] using hcatch
    · rfl
    · rfl
  | @stake user amount config _ hauth hr htokens =>
    have hwithin := hround ⟨_, hok⟩ config hr.config_eq
    rw [← hr.acc_eq] at hwithin
    apply ha.rebase hr (fun u => (ite_self 0).symm) _ hslack
    simpa [FarmCall.staked] using hwithin
  | claimRewards hauth hr hreward htokens =>
    apply ha.rebase hr (fun _ => rfl) _ hslack
    simp [FarmCall.staked]
  | exit hauth hr hreward htokens =>
    apply ha.rebase hr (fun _ => rfl) _ hslack
    simpa [FarmCall.staked] using Int.emod_nonneg _ rewardPrecision_pos.ne'
  | setEmissionMultiplier hc =>
    exact ha.refresh hc hsound rfl rfl (fun _ => rfl) (fun _ => rfl) hslack
  | pendingRewards hc =>
    exact ha.refresh hc hsound rfl rfl (fun _ => rfl) (fun _ => rfl) hslack

theorem accounted_fresh (slack : ℤ) (tokens : Tokens) (ledger : ℕ) :
    (History.fresh tokens ledger).Accounted slack := by
  refine ⟨farm_sound_fresh tokens, fun _ hlast => absurd hlast.symm (Option.some_ne_none _),
    fun u => ?_, fun users => ?_⟩
  · simp [History.fresh, History.account, History.lag, FarmState.fresh, Farm.empty, Farm.account,
      readI128, Account.worth]
  · simp [History.fresh]

theorem History.Accounted.earned_le (ha : h.Accounted slack) (u : Address) :
    rewardPrecision * (h.earned u : ℚ) ≤ rewardPrecision * h.entitled u + slack * h.stakes u := by
  have hp : (0 : ℚ) ≤ rewardPrecision := by exact_mod_cast rewardPrecision_pos.le
  have hrate := ha.sound.rateOf_nonneg u
  have hlag : (0 : ℚ) ≤ rewardPrecision * (h.lag * h.state.rateOf u) := by positivity
  have hworth := ha.worth_le u
  have hearned : rewardPrecision * h.earned u ≤
      (h.account u).worth rewardPrecision h.state.accRewardPerShare :=
    Account.mul_earned_le_worth rewardPrecision_pos
  have hcast : rewardPrecision * (h.earned u : ℚ) ≤
      (h.account u).worth rewardPrecision h.state.accRewardPerShare := by exact_mod_cast hearned
  linarith

theorem History.Accounted.conserved (ha : h.Accounted 0) : h.Conserved := by
  have hp : (0 : ℚ) < rewardPrecision := by exact_mod_cast rewardPrecision_pos
  have hentitled : ∀ u, (h.earned u : ℚ) ≤ h.entitled u := by
    intro u
    have hle := ha.earned_le u
    rw [Int.cast_zero, zero_mul, add_zero] at hle
    exact le_of_mul_le_mul_left hle hp
  refine ⟨fun users => ?_, ha.sound.total_eq, fun u => ?_, hentitled⟩
  · rw [Int.cast_sum]
    exact (Finset.sum_le_sum fun u _ => hentitled u).trans (ha.entitled_le users)
  · exact Account.unsettled_nonneg_iff.mpr (ha.sound.backed u)

/-- All rewards stay within the emission, up to one unit for every stake. -/
theorem History.Accounted.earned_le_stakes (ha : h.Accounted rewardPrecision)
    (users : Finset Address) :
    ((∑ u ∈ users, h.earned u : ℤ) : ℚ) ≤ h.emitted + ∑ u ∈ users, (h.stakes u : ℚ) := by
  have hp : (0 : ℚ) < rewardPrecision := by exact_mod_cast rewardPrecision_pos
  have hentitled : ∀ u, (h.earned u : ℚ) ≤ h.entitled u + h.stakes u := by
    intro u
    have hle := ha.earned_le u
    rw [← mul_add] at hle
    exact le_of_mul_le_mul_left hle hp
  rw [Int.cast_sum]
  calc ∑ u ∈ users, (h.earned u : ℚ) ≤ ∑ u ∈ users, (h.entitled u + h.stakes u) :=
        Finset.sum_le_sum fun u _ => hentitled u
    _ = ∑ u ∈ users, h.entitled u + ∑ u ∈ users, (h.stakes u : ℚ) := Finset.sum_add_distrib
    _ ≤ h.emitted + ∑ u ∈ users, (h.stakes u : ℚ) :=
        add_le_add (ha.entitled_le users) le_rfl

theorem roundsWithin_rewardPrecision (h : History) (i : TimedStep here) :
    RoundsWithin rewardPrecision h i := by
  unfold RoundsWithin
  split
  · intro _ config _
    have hp := rewardPrecision_pos
    exact (Int.emod_lt_of_pos _ hp).le.trans (le_add_of_nonneg_left (Int.emod_nonneg _ hp.ne'))
  · trivial

end Invariant

section Runs

variable {here : Address}

/-- In every run whose stakes do not profit from rounding, rewards are conserved in every
state. -/
theorem farmRun_conserved (tokens : Tokens) (ledger : ℕ) (run : List (TimedStep here))
    (hrun : Along historyStep (RoundsWithin 0) (.fresh tokens ledger) run) :
    Throughout historyStep History.Conserved (.fresh tokens ledger) run := by
  have haccounted : Throughout historyStep (History.Accounted 0) (.fresh tokens ledger) run :=
    throughout_of_along (fun _ _ _ ha hround h => historyStep_accounted le_rfl ha hround h)
      (accounted_fresh 0 tokens ledger) hrun
  exact haccounted.imp fun _ ha => ha.conserved

/-- In every run the rewards of any users exceed the emission by at most one unit for every
stake of theirs. -/
theorem farmRun_within (tokens : Tokens) (ledger : ℕ) (run : List (TimedStep here))
    (users : Finset Address) :
    Throughout historyStep (fun h => ((∑ u ∈ users, h.earned u : ℤ) : ℚ) ≤
      h.emitted + ∑ u ∈ users, (h.stakes u : ℚ)) (.fresh tokens ledger) run :=
  throughout_of_invariant (I := History.Accounted rewardPrecision)
    (fun h i _ ha hstep => historyStep_accounted rewardPrecision_pos.le ha
      (roundsWithin_rewardPrecision h i) hstep)
    (fun _ ha => ha.earned_le_stakes users) (accounted_fresh _ tokens ledger) run

/-- Everybody is rich in every token. -/
def farmCall (k : ℕ) (call : FarmCall) : TimedStep ⟨0⟩ := (k, Env.standard ⟨0⟩ 0 none, call)

def richTokens : Tokens := fun _ _ => 1000

/-- One unit is emitted per ledger; later stakers come after the first ledger. -/
def lateStakeRun (amount : i128.Value) : List (TimedStep ⟨0⟩) :=
  [farmCall 0 (.initFarm ⟨9⟩ ⟨10⟩ ⟨11⟩ (units 1)), farmCall 0 (.stake ⟨2⟩ (units 2)),
   farmCall 1 (.stake ⟨3⟩ amount), farmCall 0 (.stake ⟨4⟩ amount),
   farmCall 2 (.pendingRewards ⟨2⟩)]

/-- With a reward of one half per share, an even stake has a whole debt. -/
theorem lateStakeRun_conserved :
    Along historyStep (RoundsWithin 0) (.fresh richTokens 100) (lateStakeRun (units 2)) ∧
      Throughout historyStep History.Conserved (.fresh richTokens 100)
        (lateStakeRun (units 2)) := by
  have hrun : Along historyStep (RoundsWithin 0) (.fresh richTokens 100)
      (lateStakeRun (units 2)) := by
    have hconfig : ∀ n ∈ [1, 2, 3], (runAll historyStep (.fresh richTokens 100)
        ((lateStakeRun (units 2)).take n)).state.config = some ⟨⟨9⟩, ⟨10⟩, ⟨11⟩, 1, 10000⟩ := by
      decide +kernel
    refine ⟨trivial, fun _ config hc => ?_, fun _ config hc => ?_, fun _ config hc => ?_, trivial,
      trivial⟩
    · obtain rfl := Option.some.inj ((hconfig 1 (by simp)).symm.trans hc)
      decide +kernel
    · obtain rfl := Option.some.inj ((hconfig 2 (by simp)).symm.trans hc)
      decide +kernel
    · obtain rfl := Option.some.inj ((hconfig 3 (by simp)).symm.trans hc)
      decide +kernel
  exact ⟨hrun, farmRun_conserved _ _ _ hrun⟩

/-- An odd one gets half a unit for nothing: four units are earned of three emitted. -/
theorem lateStakeRun_not_conserved :
    ¬ (runAll historyStep (.fresh richTokens 100) (lateStakeRun (units 1))).Conserved := by
  intro h
  have hearned : ∑ u ∈ {⟨2⟩, ⟨3⟩, ⟨4⟩},
      (runAll historyStep (.fresh richTokens 100) (lateStakeRun (units 1))).earned u = 4 := by
    decide +kernel
  have hemitted : (runAll historyStep (.fresh richTokens 100) (lateStakeRun (units 1))).emitted =
      3 := by
    decide +kernel
  have hle := h.earned_le {⟨2⟩, ⟨3⟩, ⟨4⟩}
  rw [hearned, hemitted] at hle
  norm_num at hle

end Runs

end StellarFlow.Vaults
