import StellarFlow.Governance.Ledger

/-!
# Voting weight against stake

At a fixed rate the weight of a staker, held directly or delegated, should not exceed what
its stake is worth. Staking rounds down in favour of that bound. Unstaking rounds down the
weight it takes back, so that a stake withdrawn in small parts can leave weight behind.
-/
namespace StellarFlow.Governance

open Foundation

variable {here : Address} {g g' : VotingState} {staker : Address} {amount weight : ℕ}
  {config : GovWeightConfig}

/-! ## Runs at a fixed rate -/

/-- The calls of stakers that leave the configuration alone. -/
def VotingCall.KeepsRate : VotingCall → Prop
  | .stakeGovernance .. => True
  | .unstakeGovernance .. => True
  | .delegate .. => True
  | .undelegate .. => True
  | _ => False

abbrev RatedStep (here : Address) := {i : VotingStep here // i.2.KeepsRate}

def ratedStep (i : RatedStep here) (g : VotingState) : Except Fault VotingState := votingStep i.1 g

namespace VotingState

/-- Weight that a staker has given to a delegate. -/
def delegatedAmount (g : VotingState) (staker : Address) : ℕ :=
  ((g.getDelegation staker).map Delegation.amount).getD 0

/-- Direct weight of a staker together with its active delegation. -/
def votingPower (g : VotingState) (staker : Address) : ℕ :=
  g.getVotingWeight staker + g.delegatedAmount staker

/-- Nobody has more weight than the stake is worth. -/
def Backed (config : GovWeightConfig) (g : VotingState) : Prop :=
  ∀ staker, g.votingPower staker ≤ config.weightOf (g.getGovernanceStake staker)

/-- Without a stake there is no weight. -/
def NoneWithoutStake (g : VotingState) : Prop :=
  ∀ staker, g.getGovernanceStake staker = 0 → g.votingPower staker = 0

end VotingState

/-- In an accepted unstaking the fractions lost on the withdrawn and on the remaining part do
not add up to a unit of weight, or the staker has less weight than its stake is worth. -/
def LosesNoUnit (config : GovWeightConfig) (g : VotingState) (i : RatedStep here) : Prop :=
  (∃ g', ratedStep i g = .ok g') →
    match i.1.2 with
    | .unstakeGovernance staker amount =>
      amount * config.weightPerToken % weightScale +
          (g.getGovernanceStake staker - amount) * config.weightPerToken % weightScale <
        weightScale ∨
      g.votingPower staker < config.weightOf (g.getGovernanceStake staker)
    | _ => True

section Power

theorem votingPower_of_some {d : Delegation} (hc : g.DirectCleared)
    (hd : g.getDelegation staker = some d) : g.votingPower staker = d.amount := by
  rw [VotingState.votingPower, hc staker d hd, VotingState.delegatedAmount, hd]
  simp

theorem votingPower_of_none (hd : g.getDelegation staker = none) :
    g.votingPower staker = g.getVotingWeight staker := by
  simp [VotingState.votingPower, VotingState.delegatedAmount, hd]

theorem votingPower_congr {k : Address} (hw : g'.getVotingWeight k = g.getVotingWeight k)
    (hd : g'.getDelegation k = g.getDelegation k) : g'.votingPower k = g.votingPower k := by
  rw [VotingState.votingPower, VotingState.votingPower, VotingState.delegatedAmount,
    VotingState.delegatedAmount, hw, hd]

theorem addWeight_votingPower (h : addWeight staker weight g = .ok g') (k : Address) :
    g'.votingPower k = g.votingPower k + if k = staker then weight else 0 := by
  by_cases hk : k = staker
  · subst hk
    cases hd : g.getDelegation k with
    | none =>
      obtain rfl := addWeight_of_none hd h
      rw [votingPower_of_none hd, votingPower_of_none (by exact hd)]
      simp [VotingState.getVotingWeight]
    | some d =>
      obtain rfl := addWeight_of_delegation hd h
      simp only [VotingState.votingPower, VotingState.delegatedAmount, hd]
      simp [VotingState.getDelegation, VotingState.getVotingWeight, add_assoc]
  · rw [if_neg hk, add_zero]
    cases hd : g.getDelegation staker with
    | none =>
      obtain rfl := addWeight_of_none hd h
      exact votingPower_congr (by simp [VotingState.getVotingWeight, hk]) rfl
    | some d =>
      obtain rfl := addWeight_of_delegation hd h
      exact votingPower_congr rfl (by simp [VotingState.getDelegation, hk])

theorem removeWeight_votingPower (hc : g.DirectCleared) (k : Address) :
    (removeWeight staker weight g).votingPower k =
      if k = staker then g.votingPower k - weight else g.votingPower k := by
  cases hd : g.getDelegation staker with
  | none =>
    rw [removeWeight_of_none hd]
    split_ifs with hk
    · subst hk
      rw [votingPower_of_none hd, votingPower_of_none (by exact hd), VotingState.getVotingWeight,
        getD_setOrRemove, if_pos rfl]
    · refine votingPower_congr ?_ rfl
      rw [VotingState.getVotingWeight, getD_setOrRemove, if_neg hk, VotingState.getVotingWeight]
  | some d =>
    rw [removeWeight_of_delegation hd]
    by_cases hk : k = staker
    · subst hk
      rw [votingPower_of_some hc hd, if_pos rfl]
      split_ifs with hz
      · rw [hz, votingPower_of_none (by simp [VotingState.getDelegation])]
        exact hc k d hd
      · simp only [VotingState.votingPower, VotingState.delegatedAmount,
          VotingState.getDelegation, Finmap.lookup_insert, Option.map_some, Option.getD_some]
        exact (congrArg (· + (d.amount - weight)) (hc k d hd)).trans (Nat.zero_add _)
    · rw [if_neg hk]
      refine votingPower_congr rfl ?_
      rw [VotingState.getDelegation]
      split_ifs
      · exact Finmap.lookup_erase_ne hk
      · exact Finmap.lookup_insert_of_ne _ hk

/-- Delegating moves the weight of a staker without changing it. -/
theorem delegate_votingPower {delegatee : Address} {u : Unit} (hc : g.DirectCleared)
    (h : delegate staker delegatee g = .ok (u, g')) (k : Address) :
    g'.votingPower k = g.votingPower k := by
  obtain rfl := delegate_eq_ok h
  by_cases hk : k = staker
  · subst hk
    have hmov : g.votingPower k = g.movableWeight k := by
      unfold VotingState.movableWeight
      cases hd : g.getDelegation k with
      | none => exact votingPower_of_none hd
      | some d => exact votingPower_of_some hc hd
    rw [hmov]
    simp [VotingState.votingPower, VotingState.delegatedAmount, VotingState.getDelegation,
      VotingState.getVotingWeight]
  · exact votingPower_congr (by simp [VotingState.getVotingWeight, hk])
      (by simp [VotingState.getDelegation, hk])

theorem undelegate_votingPower {event : UndelegateEvent}
    (h : undelegate staker g = .ok (event, g')) (k : Address) :
    g'.votingPower k = g.votingPower k := by
  obtain ⟨d, hd, rfl⟩ := undelegate_eq_ok h
  by_cases hk : k = staker
  · subst hk
    rw [votingPower_of_none (by simp [VotingState.getDelegation])]
    simp [VotingState.votingPower, VotingState.delegatedAmount, VotingState.getVotingWeight, hd]
  · exact votingPower_congr (by simp [VotingState.getVotingWeight, hk])
      (by simp [VotingState.getDelegation, hk])

end Power

section Rounding

theorem weightScale_pos : 0 < weightScale := by decide

theorem weightOf_add_le (config : GovWeightConfig) (a b : ℕ) :
    config.weightOf a + config.weightOf b ≤ config.weightOf (a + b) := by
  unfold GovWeightConfig.weightOf
  rw [add_mul]
  exact Nat.div_add_div_le_add_div

/-- Two parts lose a unit of weight exactly when their fractions fill one. -/
theorem weightOf_add (config : GovWeightConfig) (a b : ℕ) :
    config.weightOf (a + b) = config.weightOf a + config.weightOf b +
      if weightScale ≤ a * config.weightPerToken % weightScale +
          b * config.weightPerToken % weightScale then 1 else 0 := by
  unfold GovWeightConfig.weightOf
  rw [add_mul, Nat.add_div weightScale_pos]

end Rounding

section Runs

theorem stake_recordStake (h : recordStake staker amount g = .ok g') (k : Address) :
    g'.getGovernanceStake k = g.getGovernanceStake k + if k = staker then amount else 0 := by
  obtain rfl := recordStake_eq_ok h
  by_cases hk : k = staker
  · subst hk
    simp [VotingState.getGovernanceStake]
  · simp [VotingState.getGovernanceStake, hk]

theorem addWeight_stakes (h : addWeight staker weight g = .ok g') :
    g'.governanceStakes = g.governanceStakes ∧ g'.config = g.config := by
  cases hd : g.getDelegation staker with
  | none =>
    rw [addWeight_of_none hd h]
    exact ⟨rfl, rfl⟩
  | some d =>
    rw [addWeight_of_delegation hd h]
    exact ⟨rfl, rfl⟩

theorem removeWeight_stakes (staker : Address) (weight : ℕ) (g : VotingState) :
    (removeWeight staker weight g).governanceStakes = g.governanceStakes ∧
      (removeWeight staker weight g).config = g.config := by
  cases hd : g.getDelegation staker with
  | none =>
    rw [removeWeight_of_none hd]
    exact ⟨rfl, rfl⟩
  | some d =>
    rw [removeWeight_of_delegation hd]
    exact ⟨rfl, rfl⟩

/-- A staking of `amount` gives the staker at most the weight of `amount`. -/
theorem stakeGovernance_power {r : ℕ} (hcfg : g.getGovWeightConfig = config)
    (h : stakeGovernance staker amount g = .ok (r, g')) (k : Address) :
    g'.config = g.config ∧
      g'.getGovernanceStake k = g.getGovernanceStake k + (if k = staker then amount else 0) ∧
      g'.votingPower k ≤ g.votingPower k + if k = staker then config.weightOf amount else 0 := by
  obtain ⟨g₁, hrec, hadd⟩ := stakeGovernance_eq_ok h
  have hstake := stake_recordStake hrec k
  have hpow : g₁.votingPower k = g.votingPower k ∧ g₁.config = g.config := by
    rw [recordStake_eq_ok hrec]
    exact ⟨rfl, rfl⟩
  rcases hadd with rfl | ⟨_, hadd⟩
  · exact ⟨hpow.2, hstake, by omega⟩
  · obtain ⟨hstakes, hconfig⟩ := addWeight_stakes hadd
    refine ⟨hconfig.trans hpow.2, ?_, ?_⟩
    · rw [VotingState.getGovernanceStake, hstakes]
      exact hstake
    · rw [addWeight_votingPower hadd, hpow.1, hcfg]

/-- An unstaking of `amount` takes the weight of `amount` from the staker. -/
theorem unstakeGovernance_power {r : ℕ} (hc : g.DirectCleared)
    (hcfg : g.getGovWeightConfig = config) (hen : config.enabled = true)
    (h : unstakeGovernance staker amount g = .ok (r, g')) :
    amount ≤ g.getGovernanceStake staker ∧ g'.config = g.config ∧ ∀ k,
      g'.getGovernanceStake k =
        (if k = staker then g.getGovernanceStake k - amount else g.getGovernanceStake k) ∧
      g'.votingPower k =
        if k = staker then g.votingPower k - config.weightOf amount else g.votingPower k := by
  obtain ⟨hle, g₁, hg₁, hg'⟩ := unstakeGovernance_eq_ok h
  have hw : g.getGovWeightConfig.removedWeight amount = config.weightOf amount := by
    rw [hcfg, GovWeightConfig.removedWeight, if_pos hen]
  rw [hw] at hg'
  have hstake : ∀ k, g₁.getGovernanceStake k =
      if k = staker then g.getGovernanceStake k - amount else g.getGovernanceStake k := by
    intro k
    rw [hg₁, VotingState.getGovernanceStake, getD_setOrRemove]
    split_ifs with hk
    · rw [hk]
    · rfl
  have hsame : g₁.config = g.config ∧ g₁.DirectCleared ∧
      ∀ k, g₁.votingPower k = g.votingPower k := by
    rw [hg₁]
    exact ⟨rfl, hc, fun _ => rfl⟩
  obtain ⟨hconfig, hc₁, hpow⟩ := hsame
  refine ⟨hle, ?_⟩
  split_ifs at hg' with hpos
  · obtain ⟨hstakes, hconfig'⟩ := removeWeight_stakes staker (config.weightOf amount) g₁
    rw [hg']
    refine ⟨hconfig'.trans hconfig, fun k => ⟨?_, ?_⟩⟩
    · rw [VotingState.getGovernanceStake, hstakes]
      exact hstake k
    · rw [removeWeight_votingPower hc₁, hpow]
  · rw [hg']
    refine ⟨hconfig, fun k => ⟨hstake k, ?_⟩⟩
    rw [hpow]
    split_ifs <;> omega

/-- The configuration is the given one, and nobody both delegates and holds weight. -/
def RatedBy (config : GovWeightConfig) (g : VotingState) : Prop :=
  g.config = some config ∧ g.DirectCleared

theorem RatedBy.config_eq (h : RatedBy config g) : g.getGovWeightConfig = config := by
  rw [VotingState.getGovWeightConfig, h.1]
  rfl

/-- At a fixed rate every accepted call but an unstaking keeps the bound, and an unstaking
exactly when no unit of weight is lost. -/
theorem ratedStep_backed_iff {i : RatedStep here} (hr : RatedBy config g)
    (hen : config.enabled = true) (hb : g.Backed config) (h : ratedStep i g = .ok g') :
    g'.config = g.config ∧ (g'.Backed config ↔ LosesNoUnit config g i) := by
  have hok : ∃ g', ratedStep i g = .ok g' := ⟨g', h⟩
  unfold LosesNoUnit
  rw [imp_iff_right hok]
  obtain ⟨⟨env, call⟩, hcall⟩ := i
  cases call with
  | stakeGovernance staker amount =>
    simp only [ratedStep, votingStep, bind_eq_ok, snd_map_eq_ok] at h
    obtain ⟨_, _, _, _, r, h⟩ := h
    have hpow := stakeGovernance_power hr.config_eq h
    refine ⟨(hpow staker).1, iff_of_true (fun k => ?_) trivial⟩
    obtain ⟨_, hstake, hle⟩ := hpow k
    have hk := hb k
    rw [hstake]
    split_ifs at hle ⊢ with hks
    · have hadd := weightOf_add_le config (g.getGovernanceStake k) amount
      omega
    · exact hle.trans hk
  | unstakeGovernance staker amount =>
    simp only [ratedStep, votingStep, bind_eq_ok, snd_map_eq_ok] at h
    obtain ⟨_, _, _, _, r, h⟩ := h
    obtain ⟨hle, hconfig, hpow⟩ := unstakeGovernance_power hr.2 hr.config_eq hen h
    refine ⟨hconfig, ?_⟩
    -- The stake splits into what is withdrawn and what remains.
    have hsplit := weightOf_add config amount (g.getGovernanceStake staker - amount)
    rw [Nat.add_sub_cancel' hle] at hsplit
    have hbefore := hb staker
    constructor
    · intro hb'
      have hafter := hb' staker
      rw [(hpow staker).1, (hpow staker).2, if_pos rfl, if_pos rfl] at hafter
      split_ifs at hsplit with hloss <;> omega
    · intro hcond k
      rw [(hpow k).1, (hpow k).2]
      split_ifs with hk
      · subst hk
        split_ifs at hsplit with hloss <;> omega
      · exact hb k
  | delegate staker delegatee =>
    simp only [ratedStep, votingStep, bind_eq_ok, snd_map_eq_ok] at h
    obtain ⟨_, _, _, _, u, h⟩ := h
    have hpow := delegate_votingPower hr.2 h
    obtain rfl := delegate_eq_ok h
    refine ⟨rfl, iff_of_true (fun k => ?_) trivial⟩
    rw [hpow k]
    exact hb k
  | undelegate staker =>
    simp only [ratedStep, votingStep, bind_eq_ok, snd_map_eq_ok] at h
    obtain ⟨_, _, _, _, event, h⟩ := h
    have hpow := undelegate_votingPower h
    obtain ⟨d, _, rfl⟩ := undelegate_eq_ok h
    refine ⟨rfl, iff_of_true (fun k => ?_) trivial⟩
    rw [hpow k]
    exact hb k
  | _ => exact hcall.elim

theorem commit_backed_iff (hr : RatedBy config g) (hen : config.enabled = true)
    (hb : g.Backed config) (i : RatedStep here) :
    RatedBy config (commit ratedStep g i) ∧
      ((commit ratedStep g i).Backed config ↔ LosesNoUnit config g i) := by
  constructor
  · refine commit_induction hr fun g' h => ?_
    have hconfig := (ratedStep_backed_iff hr hen hb h).1
    exact ⟨hconfig.trans hr.1, votingStep_directCleared hr.2 h⟩
  · exact commit_iff_of_accepted (P := VotingState.Backed config) hb
      fun g' h => (ratedStep_backed_iff hr hen hb h).2

theorem VotingState.Backed.noneWithoutStake (hb : g.Backed config) : g.NoneWithoutStake := by
  intro staker hz
  have hle := hb staker
  rw [hz, GovWeightConfig.weightOf, Nat.zero_mul, Nat.zero_div] at hle
  exact Nat.le_zero.mp hle

/-- Under a fixed enabled configuration nobody ever has more weight than the stake is worth,
and none without a stake, exactly when no unstaking of the run loses a unit of weight. -/
theorem weight_backed_throughout_iff {u : Unit} {start : VotingState} (hen : config.enabled = true)
    (h : setGovWeightConfig config .empty = .ok (u, start)) (run : List (RatedStep here)) :
    Throughout ratedStep (fun g => g.Backed config ∧ g.NoneWithoutStake) start run ↔
      Along ratedStep (LosesNoUnit config) start run := by
  obtain ⟨_, rfl⟩ := setGovWeightConfig_eq_ok.mp h
  exact throughout_and_iff_along (I := RatedBy config) (P := VotingState.Backed config)
    (fun _ i hr hb => (commit_backed_iff hr hen hb i).1)
    (fun _ i hr hb => (commit_backed_iff hr hen hb i).2)
    (fun _ _ hb => hb.noneWithoutStake)
    ⟨rfl, fun _ _ hd => by simp [VotingState.empty, VotingState.getDelegation] at hd⟩
    (fun _ => Nat.zero_le _) run

/-- Half a unit of weight per token. -/
def halfRate : GovWeightConfig := ⟨true, 500000, 0⟩

def halfRated : VotingState := { VotingState.empty with config := some halfRate }

/-- Three tokens are staked at once and withdrawn in the given parts. -/
def withdrawnInParts (parts : List ℕ) : List (RatedStep ⟨0⟩) :=
  ⟨votingCall (.stakeGovernance ⟨1⟩ 3), trivial⟩ ::
    parts.map fun n => ⟨votingCall (.unstakeGovernance ⟨1⟩ n), trivial⟩

/-- Withdrawn in two parts they take all weight along. -/
theorem withdrawn_two_one_backed :
    Throughout ratedStep (fun g => g.Backed halfRate ∧ g.NoneWithoutStake) halfRated
      (withdrawnInParts [2, 1]) := by
  refine (weight_backed_throughout_iff (u := ()) rfl rfl (withdrawnInParts [2, 1])).mpr ?_
  refine ⟨fun _ => trivial, fun _ => .inl ?_, fun _ => .inl ?_, trivial⟩
  · decide +kernel
  · decide +kernel

/-- Withdrawn one by one they leave a unit of weight without any stake. -/
theorem withdrawn_one_by_one_leaves_weight :
    (runAll ratedStep halfRated (withdrawnInParts [1, 1, 1])).getGovernanceStake ⟨1⟩ = 0 ∧
    (runAll ratedStep halfRated (withdrawnInParts [1, 1, 1])).votingPower ⟨1⟩ = 1 ∧
    ¬ (runAll ratedStep halfRated (withdrawnInParts [1, 1, 1])).Backed halfRate ∧
    ¬ (runAll ratedStep halfRated (withdrawnInParts [1, 1, 1])).NoneWithoutStake := by
  have h : (runAll ratedStep halfRated (withdrawnInParts [1, 1, 1])).getGovernanceStake ⟨1⟩ = 0 ∧
      (runAll ratedStep halfRated (withdrawnInParts [1, 1, 1])).votingPower ⟨1⟩ = 1 := by
    decide +kernel
  generalize runAll ratedStep halfRated (withdrawnInParts [1, 1, 1]) = g at *
  obtain ⟨hstake, hpower⟩ := h
  have hnone : ¬ g.NoneWithoutStake := by
    intro hn
    have hz := hn ⟨1⟩ hstake
    omega
  exact ⟨hstake, hpower, fun hb => hnone hb.noneWithoutStake, hnone⟩

end Runs

end StellarFlow.Governance
