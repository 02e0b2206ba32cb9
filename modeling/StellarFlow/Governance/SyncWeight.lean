import StellarFlow.Governance.Ledger

/-!
# Synchronising the weight of a staker

A synchronisation should leave the staker with the weight that its stake is worth and nobody
else with a different one. For a delegating staker it compares that weight with everything the
delegate received, so it is right where the delegate received nothing else.
-/
namespace StellarFlow.Governance

open Foundation

/-- The weight that the stake of a staker is worth at the present rate. -/
def VotingState.targetWeight (g : VotingState) (staker : Address) : ℕ :=
  g.getGovWeightConfig.weightOf (g.getGovernanceStake staker)

/-- The staker has its target weight, delegated or direct, and nobody else's weight changed. -/
structure SyncsTo (g g' : VotingState) (staker : Address) : Prop where
  own : g'.movableWeight staker = g.targetWeight staker
  others : ∀ k ≠ staker, g'.getVotingWeight k = g.getVotingWeight k ∧
    g'.getDelegation k = g.getDelegation k
  totals : ∀ a, (∀ d, g.getDelegation staker = some d → a ≠ d.delegate) →
    g'.getDelegatedTotal a = g.getDelegatedTotal a

/-- The delegate of the staker received weight from nobody else. Without a target weight it is
enough that it received at least the weight of the staker. -/
def ReadsOwnWeight (g : VotingState) (staker : Address) : Prop :=
  ∀ d, g.getDelegation staker = some d →
    g.getDelegatedTotal d.delegate = d.amount ∨
      g.targetWeight staker = 0 ∧ d.amount ≤ g.getDelegatedTotal d.delegate

section Moves

variable {g g' : VotingState} {staker : Address} {weight : ℕ}

theorem movableWeight_of_some {d : Delegation} (hd : g.getDelegation staker = some d) :
    g.movableWeight staker = d.amount := by
  rw [VotingState.movableWeight, hd]

theorem movableWeight_of_none (hd : g.getDelegation staker = none) :
    g.movableWeight staker = g.getVotingWeight staker := by
  rw [VotingState.movableWeight, hd]

theorem addWeight_movable (h : addWeight staker weight g = .ok g') :
    g'.movableWeight staker = g.movableWeight staker + weight := by
  cases hd : g.getDelegation staker with
  | none =>
    obtain rfl := addWeight_of_none hd h
    rw [movableWeight_of_none hd, movableWeight_of_none (by exact hd)]
    simp [VotingState.getVotingWeight]
  | some d =>
    obtain rfl := addWeight_of_delegation hd h
    rw [movableWeight_of_some hd, VotingState.movableWeight]
    simp [VotingState.getDelegation]

/-- A delegation that became empty is dropped, and no direct weight is left behind it. -/
theorem removeWeight_movable (hc : g.DirectCleared) :
    (removeWeight staker weight g).movableWeight staker = g.movableWeight staker - weight := by
  cases hd : g.getDelegation staker with
  | none =>
    rw [removeWeight_of_none hd, movableWeight_of_none hd, movableWeight_of_none (by exact hd),
      VotingState.getVotingWeight, getD_setOrRemove, if_pos rfl]
  | some d =>
    rw [removeWeight_of_delegation hd, movableWeight_of_some hd]
    split_ifs with hz
    · rw [movableWeight_of_none (by simp [VotingState.getDelegation]), hz]
      exact hc staker d hd
    · simp [VotingState.movableWeight, VotingState.getDelegation]

/-- Only the staker's entries and the total of its delegate are touched. -/
theorem addWeight_frame (h : addWeight staker weight g = .ok g') :
    (∀ k ≠ staker, g'.getVotingWeight k = g.getVotingWeight k ∧
      g'.getDelegation k = g.getDelegation k) ∧
    ∀ a, (∀ d, g.getDelegation staker = some d → a ≠ d.delegate) →
      g'.getDelegatedTotal a = g.getDelegatedTotal a := by
  cases hd : g.getDelegation staker with
  | none =>
    obtain rfl := addWeight_of_none hd h
    exact ⟨fun k hk => ⟨by simp [VotingState.getVotingWeight, hk], rfl⟩, fun a _ => rfl⟩
  | some d =>
    obtain rfl := addWeight_of_delegation hd h
    refine ⟨fun k hk => ⟨rfl, by simp [VotingState.getDelegation, hk]⟩, fun a ha => ?_⟩
    simp [VotingState.getDelegatedTotal, ha d rfl]

theorem removeWeight_frame :
    (∀ k ≠ staker, (removeWeight staker weight g).getVotingWeight k = g.getVotingWeight k ∧
      (removeWeight staker weight g).getDelegation k = g.getDelegation k) ∧
    ∀ a, (∀ d, g.getDelegation staker = some d → a ≠ d.delegate) →
      (removeWeight staker weight g).getDelegatedTotal a = g.getDelegatedTotal a := by
  cases hd : g.getDelegation staker with
  | none =>
    rw [removeWeight_of_none hd]
    refine ⟨fun k hk => ⟨?_, rfl⟩, fun a _ => rfl⟩
    rw [VotingState.getVotingWeight, getD_setOrRemove, if_neg hk, VotingState.getVotingWeight]
  | some d =>
    rw [removeWeight_of_delegation hd]
    refine ⟨fun k hk => ⟨rfl, ?_⟩, fun a ha => ?_⟩
    · simp only [VotingState.getDelegation]
      split_ifs
      · rw [Store.lookup_erase_ite, if_neg hk]
      · rw [Store.lookup_insert_ite, if_neg hk]
    · rw [VotingState.getDelegatedTotal, getD_setOrRemove, if_neg (ha d rfl),
        VotingState.getDelegatedTotal]

end Moves

section Sync

variable {here : Address} {g g' : VotingState} {staker : Address} {r : ℕ}

/-- The weight that the synchronisation reads is the staker's own one, or a total. -/
theorem currentWeight_of_none (hd : g.getDelegation staker = none) :
    currentWeight staker g = g.movableWeight staker := by
  rw [currentWeight, VotingState.movableWeight, hd]

theorem currentWeight_of_some {d : Delegation} (hd : g.getDelegation staker = some d) :
    currentWeight staker g = g.getDelegatedTotal d.delegate := by
  rw [currentWeight, hd]

/-- Own weight after a synchronisation: the difference between the target and the weight that
was read is applied to it. -/
theorem syncVotingWeight_movable (hc : g.DirectCleared)
    (h : syncVotingWeight staker g = .ok (r, g'))
    (hen : g.getGovWeightConfig.enabled = true)
    (hmin : g.getGovWeightConfig.minStakeThreshold ≤ g.targetWeight staker) :
    g'.movableWeight staker = g.movableWeight staker + (g.targetWeight staker -
        currentWeight staker g) - (currentWeight staker g - g.targetWeight staker) ∧
      (∀ k ≠ staker, g'.getVotingWeight k = g.getVotingWeight k ∧
        g'.getDelegation k = g.getDelegation k) ∧
      ∀ a, (∀ d, g.getDelegation staker = some d → a ≠ d.delegate) →
        g'.getDelegatedTotal a = g.getDelegatedTotal a := by
  rcases syncVotingWeight_eq_ok h with ⟨rfl, hdis | hlow | heq⟩ | ⟨hlt, hadd⟩ | ⟨hlt, _, _, rfl⟩
  · rw [hen] at hdis
    cases hdis
  · exact absurd hlow hmin.not_gt
  · refine ⟨?_, fun _ _ => ⟨rfl, rfl⟩, fun _ _ => rfl⟩
    rw [heq, VotingState.targetWeight]
    omega
  · refine ⟨?_, addWeight_frame hadd⟩
    rw [addWeight_movable hadd]
    unfold VotingState.targetWeight
    omega
  · refine ⟨?_, removeWeight_frame⟩
    rw [removeWeight_movable hc]
    unfold VotingState.targetWeight
    omega

/-- In every reachable state an accepted synchronisation at or above the threshold sets the
weight of the staker exactly where the weight that it reads is the staker's own one. -/
theorem syncsTo_iff (run : List (VotingStep here))
    (h : syncVotingWeight staker (runAll votingStep .empty run) = .ok (r, g'))
    (hen : (runAll votingStep .empty run).getGovWeightConfig.enabled = true)
    (hmin : (runAll votingStep .empty run).getGovWeightConfig.minStakeThreshold ≤
      (runAll votingStep .empty run).targetWeight staker) :
    SyncsTo (runAll votingStep .empty run) g' staker ↔
      ReadsOwnWeight (runAll votingStep .empty run) staker := by
  have hc : (runAll votingStep .empty run).DirectCleared :=
    runAll_induction (fun _ _ _ hc hstep => votingStep_directCleared hc hstep)
      (fun _ _ hd => by simp [VotingState.empty, VotingState.getDelegation] at hd) run
  generalize runAll votingStep .empty run = g at *
  obtain ⟨hown, hframe⟩ := syncVotingWeight_movable hc h hen hmin
  have hiff : SyncsTo g g' staker ↔ g'.movableWeight staker = g.targetWeight staker :=
    ⟨SyncsTo.own, fun heq => ⟨heq, hframe.1, hframe.2⟩⟩
  rw [hiff, hown, ReadsOwnWeight]
  cases hd : g.getDelegation staker with
  | none =>
    rw [currentWeight_of_none hd]
    refine iff_of_true (by omega) ?_
    rintro d ⟨⟩
  | some d =>
    rw [currentWeight_of_some hd, movableWeight_of_some hd]
    simp only [Option.some.injEq, forall_eq']
    omega

/-- A staker alone with its delegate, before and after the rate doubles. -/
def repricedAlone : List (VotingStep ⟨0⟩) :=
  [votingCall (.stakeGovernance ⟨1⟩ 100), votingCall (.delegate ⟨1⟩ ⟨3⟩),
   votingCall (.setGovWeightConfig ⟨9⟩ ⟨true, 2000000, 0⟩)]

/-- The value that a successful synchronisation returns, and that it has a state. -/
theorem exists_of_fst_eq_some {x : Except Fault (ℕ × VotingState)} {r : ℕ}
    (h : x.toOption.map Prod.fst = some r) : ∃ g', x = .ok (r, g') := by
  cases x with
  | error e => cases h
  | ok y =>
    obtain ⟨r', g'⟩ := y
    obtain rfl := Option.some.inj h
    exact ⟨g', rfl⟩

theorem syncsTo_repricedAlone :
    ∃ g', syncVotingWeight ⟨1⟩ (runAll votingStep .empty repricedAlone) = .ok (200, g') ∧
      SyncsTo (runAll votingStep .empty repricedAlone) g' ⟨1⟩ := by
  obtain ⟨g', h⟩ := exists_of_fst_eq_some (r := 200)
    (x := syncVotingWeight ⟨1⟩ (runAll votingStep .empty repricedAlone)) (by decide +kernel)
  refine ⟨g', h, (syncsTo_iff _ h (by decide +kernel) (by decide +kernel)).mpr ?_⟩
  have hd : (runAll votingStep .empty repricedAlone).getDelegation ⟨1⟩ = some ⟨⟨3⟩, 100⟩ := by
    decide +kernel
  intro d hd'
  obtain rfl := Option.some.inj (hd.symm.trans hd')
  exact .inl (by decide +kernel)

/-- With a second delegator the staker loses its whole weight, and the delegate loses part of
what the other one gave. -/
theorem sync_of_shared_delegate :
    ∃ g', syncVotingWeight ⟨2⟩ (runAll votingStep .empty (syncedRun.take 4)) = .ok (50, g') ∧
      (runAll votingStep .empty (syncedRun.take 4)).targetWeight ⟨2⟩ = 50 ∧
      g'.movableWeight ⟨2⟩ = 0 ∧
      ¬ SyncsTo (runAll votingStep .empty (syncedRun.take 4)) g' ⟨2⟩ := by
  obtain ⟨g', h⟩ := exists_of_fst_eq_some (r := 50)
    (x := syncVotingWeight ⟨2⟩ (runAll votingStep .empty (syncedRun.take 4))) (by decide +kernel)
  have htarget : (runAll votingStep .empty (syncedRun.take 4)).targetWeight ⟨2⟩ = 50 := by
    decide +kernel
  have hown : (syncVotingWeight ⟨2⟩ (runAll votingStep .empty (syncedRun.take 4))).toOption.map
      (fun y => y.2.movableWeight ⟨2⟩) = some 0 := by
    decide +kernel
  rw [h] at hown
  have hzero : g'.movableWeight ⟨2⟩ = 0 := Option.some.inj hown
  refine ⟨g', h, htarget, hzero, fun hs => ?_⟩
  have hsync := hs.own
  rw [hzero, htarget] at hsync
  cases hsync

end Sync

end StellarFlow.Governance
