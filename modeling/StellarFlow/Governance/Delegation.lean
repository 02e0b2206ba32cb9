import StellarFlow.Host

/-!
# Delegation of voting weight

Staked governance tokens give voting weight at a configured rate. A staker holds its weight
directly or hands all of it to one delegate, for whom the contract keeps a running total.
Stakes, direct weights, delegations and totals are four separate maps.
-/
namespace StellarFlow.Governance

open Foundation

/-! ## State -/

structure Delegation where
  delegate : Address
  amount : ℕ
  deriving DecidableEq, Repr

structure UndelegateEvent where
  staker : Address
  formerDelegate : Address
  restoredWeight : ℕ
  delegateRemainingPower : ℕ

structure GovWeightConfig where
  enabled : Bool
  /-- Voting weight per governance token, scaled by `weightScale`. -/
  weightPerToken : ℕ
  minStakeThreshold : ℕ
  deriving DecidableEq, Repr

def weightScale : ℕ := 1000000

def GovWeightConfig.default : GovWeightConfig := ⟨true, 1000000, 0⟩

/-- The maps in instance storage. -/
structure VotingState where
  delegations : Store Address Delegation
  delegatedTotals : Store Address ℕ
  votingWeights : Store Address ℕ
  governanceStakes : Store Address ℕ
  config : Option GovWeightConfig

/-- What the entry points read besides the voting state. -/
structure VotingEnv (here : Address) extends Env here where
  admin : Option Address
  revoked : Address → Bool

/-- Weight that an amount of staked tokens stands for, without a bound on the product. -/
def GovWeightConfig.weightOf (config : GovWeightConfig) (amount : ℕ) : ℕ :=
  amount * config.weightPerToken / weightScale

namespace VotingState

def empty : VotingState := ⟨∅, ∅, ∅, ∅, none⟩

variable (g : VotingState)

def getVotingWeight (staker : Address) : ℕ := (g.votingWeights.lookup staker).getD 0

def getDelegation (staker : Address) : Option Delegation := g.delegations.lookup staker

def getDelegatedTotal (delegate : Address) : ℕ := (g.delegatedTotals.lookup delegate).getD 0

def getGovernanceStake (staker : Address) : ℕ := (g.governanceStakes.lookup staker).getD 0

def getGovWeightConfig : GovWeightConfig := g.config.getD .default

end VotingState

/-- Store a value, dropping an entry that became zero. -/
def setOrRemove (entries : Store Address ℕ) (key : Address) (value : ℕ) : Store Address ℕ :=
  if value = 0 then entries.erase key else entries.insert key value

/-! ## Calls -/

def checkedWeight (config : GovWeightConfig) (amount : ℕ) : Except Fault ℕ := do
  let scaled ← okOr (checkBits 128 (amount * config.weightPerToken)) (Fault.error .overflow)
  pure (scaled / weightScale)

def recordStake (staker : Address) (amount : ℕ) (g : VotingState) : Except Fault VotingState := do
  let newStake ← okOr (checkBits 128 (g.getGovernanceStake staker + amount)) (Fault.error .overflow)
  pure { g with governanceStakes := g.governanceStakes.insert staker newStake }

/-- Give weight to the staker, or to its delegate when it has one. -/
def addWeight (staker : Address) (weight : ℕ) (g : VotingState) : Except Fault VotingState :=
  match g.getDelegation staker with
  | some d => do
    let newTotal ← okOr (checkBits 128 (g.getDelegatedTotal d.delegate + weight))
      (Fault.error .overflow)
    let newAmount ← okOr (checkBits 128 (d.amount + weight)) (Fault.error .overflow)
    pure { g with
      delegatedTotals := g.delegatedTotals.insert d.delegate newTotal
      delegations := g.delegations.insert staker ⟨d.delegate, newAmount⟩ }
  | none => do
    let newTotal ← okOr (checkBits 128 (g.getVotingWeight staker + weight)) (Fault.error .overflow)
    pure { g with votingWeights := g.votingWeights.insert staker newTotal }

/-- Take weight from the staker, or from its delegate when it has one. Every subtraction
saturates on its own. -/
def removeWeight (staker : Address) (weight : ℕ) (g : VotingState) : VotingState :=
  match g.getDelegation staker with
  | some d =>
    { g with
      delegatedTotals :=
        setOrRemove g.delegatedTotals d.delegate (g.getDelegatedTotal d.delegate - weight)
      delegations :=
        if d.amount - weight = 0 then g.delegations.erase staker
        else g.delegations.insert staker ⟨d.delegate, d.amount - weight⟩ }
  | none =>
    { g with
      votingWeights := setOrRemove g.votingWeights staker (g.getVotingWeight staker - weight) }

def stakeGovernance (staker : Address) (amount : ℕ) (g : VotingState) :
    Except Fault (ℕ × VotingState) := do
  failIf (amount = 0) (Fault.error .vaultZeroAmount)
  let config := g.getGovWeightConfig
  if config.enabled = false then
    let g ← recordStake staker amount g
    pure (0, g)
  else
    let weight ← checkedWeight config amount
    let g ← recordStake staker amount g
    if weight < config.minStakeThreshold then
      pure (0, g)
    else
      let g ← addWeight staker weight g
      pure (weight, g)

def weightToRemove (config : GovWeightConfig) (amount : ℕ) : Except Fault ℕ :=
  if config.enabled then checkedWeight config amount else pure 0

def unstakeGovernance (staker : Address) (amount : ℕ) (g : VotingState) :
    Except Fault (ℕ × VotingState) := do
  failIf (amount = 0) (Fault.error .vaultZeroAmount)
  let config := g.getGovWeightConfig
  let currentStake := g.getGovernanceStake staker
  failIf (currentStake < amount) (Fault.error .vaultInsufficientBalance)
  let weight ← weightToRemove config amount
  let g := { g with
    governanceStakes := setOrRemove g.governanceStakes staker (currentStake - amount) }
  pure (weight, if 0 < weight then removeWeight staker weight g else g)

/-- Weight that the synchronisation takes as the present one: for a delegating staker it is
everything its delegate received. -/
def currentWeight (staker : Address) (g : VotingState) : ℕ :=
  match g.getDelegation staker with
  | some d => g.getDelegatedTotal d.delegate
  | none => g.getVotingWeight staker

def syncVotingWeight (staker : Address) (g : VotingState) : Except Fault (ℕ × VotingState) := do
  let config := g.getGovWeightConfig
  if config.enabled = false then
    pure (0, g)
  else
    let targetWeight ← checkedWeight config (g.getGovernanceStake staker)
    if targetWeight < config.minStakeThreshold then
      pure (0, g)
    else if currentWeight staker g = targetWeight then
      pure (targetWeight, g)
    else if currentWeight staker g < targetWeight then
      let g ← addWeight staker (targetWeight - currentWeight staker g) g
      pure (targetWeight, g)
    else
      pure (targetWeight, removeWeight staker (currentWeight staker g - targetWeight) g)

def setGovWeightConfig (config : GovWeightConfig) (g : VotingState) :
    Except Fault (Unit × VotingState) := do
  failIf (config.weightPerToken = 0) (Fault.error .invalidCircuitBreakerConfig)
  pure ((), { g with config := some config })

/-- The weight a staker can move, and the totals without it. -/
def reclaim (staker : Address) (g : VotingState) : Except Fault (ℕ × Store Address ℕ) :=
  match g.getDelegation staker with
  | some existing =>
    pure (existing.amount, g.delegatedTotals.insert existing.delegate
      (g.getDelegatedTotal existing.delegate - existing.amount))
  | none => do
    failIf (g.getVotingWeight staker = 0) (Fault.error .noVotingWeight)
    pure (g.getVotingWeight staker, g.delegatedTotals)

def delegate (staker delegate : Address) (g : VotingState) : Except Fault (Unit × VotingState) := do
  failIf (staker = delegate) (Fault.error .invalidDelegate)
  let moved ← reclaim staker g
  let current := (moved.2.lookup delegate).getD 0
  let newTotal ← okOr (checkBits 128 (current + moved.1)) (Fault.error .overflow)
  pure ((), { g with
    votingWeights := g.votingWeights.insert staker 0
    delegations := g.delegations.insert staker ⟨delegate, moved.1⟩
    delegatedTotals := moved.2.insert delegate newTotal })

def undelegate (staker : Address) (g : VotingState) :
    Except Fault (UndelegateEvent × VotingState) := do
  let d ← okOr (g.getDelegation staker) (Fault.error .noActiveDelegation)
  let remaining := g.getDelegatedTotal d.delegate - d.amount
  let restored ← okOr (checkBits 128 (g.getVotingWeight staker + d.amount)) (Fault.error .overflow)
  pure (⟨staker, d.delegate, d.amount, remaining⟩, { g with
    delegations := g.delegations.erase staker
    delegatedTotals := setOrRemove g.delegatedTotals d.delegate remaining
    votingWeights := g.votingWeights.insert staker restored })

/-! ## Entry points -/

inductive VotingCall
  | stakeGovernance (staker : Address) (amount : ℕ)
  | unstakeGovernance (staker : Address) (amount : ℕ)
  | syncVotingWeight (staker : Address)
  | setGovWeightConfig (admin : Address) (config : GovWeightConfig)
  | delegate (staker delegate : Address)
  | undelegate (staker : Address)

/-- A call together with the environment it runs in. -/
abbrev VotingStep (here : Address) := VotingEnv here × VotingCall

def assertNotRevoked {here : Address} (env : VotingEnv here) (a : Address) : Except Fault Unit :=
  failIf (env.revoked a = true) (Fault.error .revokedAddress)

def votingStep {here : Address} (i : VotingStep here) (g : VotingState) :
    Except Fault VotingState :=
  match i.2 with
  | .stakeGovernance staker amount => do
    i.1.requireAuth staker
    assertNotRevoked i.1 staker
    Prod.snd <$> stakeGovernance staker amount g
  | .unstakeGovernance staker amount => do
    i.1.requireAuth staker
    assertNotRevoked i.1 staker
    Prod.snd <$> unstakeGovernance staker amount g
  | .syncVotingWeight staker => do
    i.1.requireAuth staker
    Prod.snd <$> syncVotingWeight staker g
  | .setGovWeightConfig admin config => do
    let current ← okOr i.1.admin (Fault.error .notInitialized)
    failIf (current ≠ admin) (Fault.error .notAdmin)
    i.1.requireAuth admin
    Prod.snd <$> setGovWeightConfig config g
  | .delegate staker delegate => do
    i.1.requireAuth staker
    assertNotRevoked i.1 staker
    Prod.snd <$> Governance.delegate staker delegate g
  | .undelegate staker => do
    i.1.requireAuth staker
    assertNotRevoked i.1 staker
    Prod.snd <$> undelegate staker g

/-! ## What an accepted call does -/

section Effects

variable {g g' : VotingState} {staker : Address} {amount weight : ℕ}

theorem getD_setOrRemove (entries : Store Address ℕ) (key other : Address) (value : ℕ) :
    ((setOrRemove entries key value).lookup other).getD 0 =
      if other = key then value else (entries.lookup other).getD 0 := by
  unfold setOrRemove
  split_ifs with hv hk hk
  · simp [hk, hv, Store.lookup_erase_ite]
  · rw [Store.lookup_erase_ite, if_neg hk]
  · simp [hk, Store.lookup_insert_ite]
  · rw [Store.lookup_insert_ite, if_neg hk]

theorem checkedWeight_eq_ok {config : GovWeightConfig} :
    checkedWeight config amount = .ok weight ↔
      amount * config.weightPerToken < 2 ^ 128 ∧ weight = config.weightOf amount := by
  simp only [checkedWeight, bind_eq_ok, okOr_eq_ok, checkBits_eq_some, pure_eq_ok,
    GovWeightConfig.weightOf]
  constructor
  · rintro ⟨_, ⟨hfits, rfl⟩, rfl⟩
    exact ⟨hfits, rfl⟩
  · rintro ⟨hfits, rfl⟩
    exact ⟨_, ⟨hfits, rfl⟩, rfl⟩

theorem recordStake_eq_ok (h : recordStake staker amount g = .ok g') :
    g' = { g with governanceStakes :=
      g.governanceStakes.insert staker (g.getGovernanceStake staker + amount) } := by
  simp only [recordStake, bind_eq_ok, okOr_eq_ok, checkBits_eq_some, pure_eq_ok] at h
  obtain ⟨_, ⟨_, rfl⟩, rfl⟩ := h
  rfl

theorem addWeight_of_delegation {d : Delegation} (hd : g.getDelegation staker = some d)
    (h : addWeight staker weight g = .ok g') :
    g' = { g with
      delegatedTotals := g.delegatedTotals.insert d.delegate
        (g.getDelegatedTotal d.delegate + weight)
      delegations := g.delegations.insert staker ⟨d.delegate, d.amount + weight⟩ } := by
  simp only [addWeight, hd, bind_eq_ok, okOr_eq_ok, checkBits_eq_some, pure_eq_ok] at h
  obtain ⟨_, ⟨_, rfl⟩, _, ⟨_, rfl⟩, rfl⟩ := h
  rfl

theorem addWeight_of_none (hd : g.getDelegation staker = none)
    (h : addWeight staker weight g = .ok g') :
    g' = { g with
      votingWeights := g.votingWeights.insert staker (g.getVotingWeight staker + weight) } := by
  simp only [addWeight, hd, bind_eq_ok, okOr_eq_ok, checkBits_eq_some, pure_eq_ok] at h
  obtain ⟨_, ⟨_, rfl⟩, rfl⟩ := h
  rfl

theorem removeWeight_of_delegation {d : Delegation} (hd : g.getDelegation staker = some d) :
    removeWeight staker weight g = { g with
      delegatedTotals :=
        setOrRemove g.delegatedTotals d.delegate (g.getDelegatedTotal d.delegate - weight)
      delegations :=
        if d.amount - weight = 0 then g.delegations.erase staker
        else g.delegations.insert staker ⟨d.delegate, d.amount - weight⟩ } := by
  simp only [removeWeight, hd]

theorem removeWeight_of_none (hd : g.getDelegation staker = none) :
    removeWeight staker weight g = { g with
      votingWeights :=
        setOrRemove g.votingWeights staker (g.getVotingWeight staker - weight) } := by
  simp only [removeWeight, hd]

/-- A stake is recorded, and then it may give weight. -/
theorem stakeGovernance_eq_ok {r : ℕ} (h : stakeGovernance staker amount g = .ok (r, g')) :
    ∃ g₁, recordStake staker amount g = .ok g₁ ∧
      (g' = g₁ ∨ g.getGovWeightConfig.enabled = true ∧
        addWeight staker (g.getGovWeightConfig.weightOf amount) g₁ = .ok g') := by
  simp only [stakeGovernance, bind_eq_ok, failIf_eq_ok] at h
  obtain ⟨_, _, h⟩ := h
  split_ifs at h with hen
  · simp only [bind_eq_ok, pure_eq_ok, Prod.mk.injEq] at h
    obtain ⟨g₁, hrec, rfl, rfl⟩ := h
    exact ⟨g₁, hrec, .inl rfl⟩
  · simp only [bind_eq_ok, checkedWeight_eq_ok] at h
    obtain ⟨_, ⟨_, rfl⟩, g₁, hrec, h⟩ := h
    refine ⟨g₁, hrec, ?_⟩
    split_ifs at h with hmin
    · simp only [pure_eq_ok, Prod.mk.injEq] at h
      exact .inl h.2.symm
    · simp only [bind_eq_ok, pure_eq_ok, Prod.mk.injEq] at h
      obtain ⟨g₂, hadd, rfl, rfl⟩ := h
      exact .inr ⟨by simpa using hen, hadd⟩

/-- Weight that an unstaking takes back. -/
def GovWeightConfig.removedWeight (config : GovWeightConfig) (amount : ℕ) : ℕ :=
  if config.enabled then config.weightOf amount else 0

theorem unstakeGovernance_eq_ok {r : ℕ} (h : unstakeGovernance staker amount g = .ok (r, g')) :
    amount ≤ g.getGovernanceStake staker ∧
      ∃ g₁, g₁ = { g with
          governanceStakes := setOrRemove g.governanceStakes staker
            (g.getGovernanceStake staker - amount) } ∧
        g' = if 0 < g.getGovWeightConfig.removedWeight amount then
          removeWeight staker (g.getGovWeightConfig.removedWeight amount) g₁ else g₁ := by
  simp only [unstakeGovernance, bind_eq_ok, failIf_eq_ok, pure_eq_ok, Prod.mk.injEq, not_lt] at h
  obtain ⟨_, _, _, hle, weight, hweight, rfl, rfl⟩ := h
  have hw : weight = g.getGovWeightConfig.removedWeight amount := by
    unfold weightToRemove at hweight
    unfold GovWeightConfig.removedWeight
    split_ifs at hweight ⊢ with hen
    · exact (checkedWeight_eq_ok.mp hweight).2
    · exact (pure_eq_ok.mp hweight).symm
  subst hw
  exact ⟨hle, _, rfl, rfl⟩

/-- The synchronisation does nothing, or it moves the staker's current weight to the target. -/
theorem syncVotingWeight_eq_ok {r : ℕ} (h : syncVotingWeight staker g = .ok (r, g')) :
    let target := g.getGovWeightConfig.weightOf (g.getGovernanceStake staker)
    g' = g ∧ (g.getGovWeightConfig.enabled = false ∨
        target < g.getGovWeightConfig.minStakeThreshold ∨ currentWeight staker g = target) ∨
      currentWeight staker g < target ∧
        addWeight staker (target - currentWeight staker g) g = .ok g' ∨
      target < currentWeight staker g ∧ g.getGovWeightConfig.enabled = true ∧
        g.getGovWeightConfig.minStakeThreshold ≤ target ∧
        g' = removeWeight staker (currentWeight staker g - target) g := by
  intro target
  simp only [syncVotingWeight] at h
  split_ifs at h with hen
  · simp only [pure_eq_ok, Prod.mk.injEq] at h
    exact .inl ⟨h.2.symm, .inl hen⟩
  · simp only [bind_eq_ok, checkedWeight_eq_ok] at h
    obtain ⟨_, ⟨_, rfl⟩, h⟩ := h
    split_ifs at h with hmin heq hlt
    · simp only [pure_eq_ok, Prod.mk.injEq] at h
      exact .inl ⟨h.2.symm, .inr (.inl hmin)⟩
    · simp only [pure_eq_ok, Prod.mk.injEq] at h
      exact .inl ⟨h.2.symm, .inr (.inr heq)⟩
    · simp only [bind_eq_ok, pure_eq_ok, Prod.mk.injEq] at h
      obtain ⟨g₁, hadd, _, rfl⟩ := h
      exact .inr (.inl ⟨hlt, hadd⟩)
    · simp only [pure_eq_ok, Prod.mk.injEq] at h
      exact .inr (.inr ⟨by omega, by simpa using hen, not_lt.mp hmin, h.2.symm⟩)

theorem setGovWeightConfig_eq_ok {config : GovWeightConfig} {u : Unit} :
    setGovWeightConfig config g = .ok (u, g') ↔
      config.weightPerToken ≠ 0 ∧ g' = { g with config := some config } := by
  simp only [setGovWeightConfig, bind_eq_ok, failIf_eq_ok, pure_eq_ok, Prod.mk.injEq, true_and,
    exists_const]
  exact and_congr_right fun _ => eq_comm

/-- The totals with the weight of the staker taken off its former delegate. -/
def VotingState.reclaimedTotals (g : VotingState) (staker : Address) : Store Address ℕ :=
  match g.getDelegation staker with
  | some d => g.delegatedTotals.insert d.delegate (g.getDelegatedTotal d.delegate - d.amount)
  | none => g.delegatedTotals

/-- The weight of a staker that is delegated, or else the direct one. -/
def VotingState.movableWeight (g : VotingState) (staker : Address) : ℕ :=
  match g.getDelegation staker with
  | some d => d.amount
  | none => g.getVotingWeight staker

theorem delegate_eq_ok {delegatee : Address} {u : Unit}
    (h : delegate staker delegatee g = .ok (u, g')) :
    g' = { g with
      votingWeights := g.votingWeights.insert staker 0
      delegations := g.delegations.insert staker ⟨delegatee, g.movableWeight staker⟩
      delegatedTotals := (g.reclaimedTotals staker).insert delegatee
        (((g.reclaimedTotals staker).lookup delegatee).getD 0 + g.movableWeight staker) } := by
  have hreclaim : ∀ moved, reclaim staker g = .ok moved →
      moved = (g.movableWeight staker, g.reclaimedTotals staker) := by
    intro moved hmoved
    unfold reclaim at hmoved
    unfold VotingState.movableWeight VotingState.reclaimedTotals
    split at hmoved
    · exact (pure_eq_ok.mp hmoved).symm
    · simp only [bind_eq_ok, failIf_eq_ok, pure_eq_ok] at hmoved
      exact hmoved.choose_spec.2.symm
  simp only [delegate, bind_eq_ok, okOr_eq_ok, checkBits_eq_some, pure_eq_ok, Prod.mk.injEq] at h
  obtain ⟨_, _, moved, hmoved, _, ⟨_, rfl⟩, _, rfl⟩ := h
  rw [hreclaim moved hmoved]

theorem undelegate_eq_ok {event : UndelegateEvent} (h : undelegate staker g = .ok (event, g')) :
    ∃ d, g.getDelegation staker = some d ∧ g' = { g with
      delegations := g.delegations.erase staker
      delegatedTotals :=
        setOrRemove g.delegatedTotals d.delegate (g.getDelegatedTotal d.delegate - d.amount)
      votingWeights :=
        g.votingWeights.insert staker (g.getVotingWeight staker + d.amount) } := by
  simp only [undelegate, bind_eq_ok, okOr_eq_ok, checkBits_eq_some, pure_eq_ok,
    Prod.mk.injEq] at h
  obtain ⟨d, hd, _, ⟨_, rfl⟩, _, rfl⟩ := h
  exact ⟨d, hd, rfl⟩

end Effects

end StellarFlow.Governance
