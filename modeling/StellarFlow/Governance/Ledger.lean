import StellarFlow.Governance.Delegation

/-!
# The totals of the delegates

For every delegate the contract keeps one running total next to the single delegations. The
two drift apart only where weight is taken back from a delegating staker: an unstaking may
take more from the total than the staker had delegated, and the synchronisation compares the
weight of one staker with everything its delegate received.
-/
namespace StellarFlow.Governance

open Foundation

variable {here : Address} {g g' : VotingState} {staker : Address} {amount weight : ℕ}

/-- What a delegation is worth to a delegate. -/
def share (x : Address) (_ : Address) (d : Delegation) : ℕ := if d.delegate = x then d.amount else 0

namespace VotingState

/-- Sum of all active delegations to a delegate. -/
def delegatedTo (g : VotingState) (x : Address) : ℕ := Store.total (share x) g.delegations

/-- What one staker delegates to a delegate. -/
def delegatedBy (g : VotingState) (staker x : Address) : ℕ :=
  Store.part (share x) g.delegations staker

/-- Every total is the sum of the delegations behind it. -/
def TotalsAgree (g : VotingState) : Prop := ∀ x, g.getDelegatedTotal x = g.delegatedTo x

/-- A delegating staker holds no weight of its own. -/
def DirectCleared (g : VotingState) : Prop :=
  ∀ staker d, g.getDelegation staker = some d → g.getVotingWeight staker = 0

end VotingState

/-- An accepted unstaking of a delegating staker takes back at most what the staker delegated,
unless nobody else delegates to the same delegate; an accepted synchronisation that is not
skipped finds that the others delegate at most the target weight of the staker. -/
def TakesBackOwnWeight (g : VotingState) (i : VotingStep here) : Prop :=
  (∃ g', votingStep i g = .ok g') →
    let config := g.getGovWeightConfig
    match i.2 with
    | .unstakeGovernance staker amount => ∀ d, g.getDelegation staker = some d →
      config.removedWeight amount ≤ d.amount ∨ g.getDelegatedTotal d.delegate = d.amount
    | .syncVotingWeight staker => ∀ d, g.getDelegation staker = some d →
      config.enabled = true →
      config.minStakeThreshold ≤ config.weightOf (g.getGovernanceStake staker) →
      g.getDelegatedTotal d.delegate - d.amount ≤ config.weightOf (g.getGovernanceStake staker)
    | _ => True

section Totals

theorem delegatedBy_of_some {d : Delegation} (hd : g.getDelegation staker = some d) (x : Address) :
    g.delegatedBy staker x = if d.delegate = x then d.amount else 0 :=
  Store.part_of_lookup _ hd

theorem delegatedBy_of_none (hd : g.getDelegation staker = none) (x : Address) :
    g.delegatedBy staker x = 0 :=
  Store.part_of_none _ hd

theorem delegatedBy_insert (dels : Store Address Delegation) (totals weights stakes)
    (config : Option GovWeightConfig) (staker : Address) (d : Delegation) (x : Address) :
    VotingState.delegatedBy ⟨dels.insert staker d, totals, weights, stakes, config⟩ staker x =
      if d.delegate = x then d.amount else 0 :=
  Store.part_of_lookup _ (Finmap.lookup_insert _)

theorem VotingState.TotalsAgree.delegatedBy_le (ha : g.TotalsAgree) (staker x : Address) :
    g.delegatedBy staker x ≤ g.getDelegatedTotal x := by
  have hx : Store.total (share x) (g.delegations.erase staker) + g.delegatedBy staker x =
      g.delegatedTo x :=
    Store.total_erase (share x) g.delegations staker
  have heq := ha x
  omega

/-- When only the delegation of one staker changes, the totals still agree exactly when each
of them follows that delegation. -/
theorem totalsAgree_iff_of_exchange (ha : g.TotalsAgree) (staker : Address)
    (h : ∀ k, k ≠ staker → g'.getDelegation k = g.getDelegation k) :
    g'.TotalsAgree ↔ ∀ x, g'.getDelegatedTotal x + g.delegatedBy staker x =
      g.getDelegatedTotal x + g'.delegatedBy staker x := by
  apply forall_congr'
  intro x
  have hx : g'.delegatedTo x + g.delegatedBy staker x =
      g.delegatedTo x + g'.delegatedBy staker x :=
    Store.total_exchange (share x) g.delegations g'.delegations staker h
  have heq := ha x
  omega

theorem VotingState.TotalsAgree.of_same (ha : g.TotalsAgree) (hd : g'.delegations = g.delegations)
    (ht : g'.delegatedTotals = g.delegatedTotals) : g'.TotalsAgree := by
  intro x
  rw [VotingState.getDelegatedTotal, VotingState.delegatedTo, ht, hd]
  exact ha x

theorem addWeight_totalsAgree (ha : g.TotalsAgree) (h : addWeight staker weight g = .ok g') :
    g'.TotalsAgree := by
  cases hd : g.getDelegation staker with
  | none =>
    obtain rfl := addWeight_of_none hd h
    exact ha.of_same rfl rfl
  | some d =>
    obtain rfl := addWeight_of_delegation hd h
    refine (totalsAgree_iff_of_exchange ha staker fun k hk => ?_).mpr fun x => ?_
    · exact Finmap.lookup_insert_of_ne _ hk
    · rw [delegatedBy_of_some hd, delegatedBy_insert]
      by_cases hx : x = d.delegate
      · subst hx
        simp only [VotingState.getDelegatedTotal, Finmap.lookup_insert, Option.getD_some, if_true]
        omega
      · simp [VotingState.getDelegatedTotal, hx, Ne.symm hx]

theorem removeWeight_totalsAgree_iff (ha : g.TotalsAgree) :
    (removeWeight staker weight g).TotalsAgree ↔ ∀ d, g.getDelegation staker = some d →
      weight ≤ d.amount ∨ g.getDelegatedTotal d.delegate = d.amount := by
  cases hd : g.getDelegation staker with
  | none =>
    rw [removeWeight_of_none hd]
    exact iff_of_true (ha.of_same rfl rfl) (by simp)
  | some d =>
    have hown := ha.delegatedBy_le staker d.delegate
    rw [delegatedBy_of_some hd, if_pos rfl] at hown
    -- An amount that became zero is dropped, which is worth the same.
    have hpart : ∀ x, (removeWeight staker weight g).delegatedBy staker x =
        if d.delegate = x then d.amount - weight else 0 := by
      intro x
      rw [removeWeight_of_delegation hd, VotingState.delegatedBy]
      split_ifs with hz hx hx
      · rw [Store.part_of_none _ (by simp), hz]
      · rw [Store.part_of_none _ (by simp)]
      · rw [Store.part_of_lookup _ (Finmap.lookup_insert _), share, if_pos hx]
      · rw [Store.part_of_lookup _ (Finmap.lookup_insert _), share, if_neg hx]
    have htotal : ∀ x, (removeWeight staker weight g).getDelegatedTotal x =
        if x = d.delegate then g.getDelegatedTotal d.delegate - weight
        else g.getDelegatedTotal x := by
      intro x
      rw [removeWeight_of_delegation hd]
      exact getD_setOrRemove _ _ _ _
    have hoff : ∀ k, k ≠ staker →
        (removeWeight staker weight g).getDelegation k = g.getDelegation k := by
      intro k hk
      rw [removeWeight_of_delegation hd, VotingState.getDelegation]
      split_ifs
      · exact Finmap.lookup_erase_ne hk
      · exact Finmap.lookup_insert_of_ne _ hk
    rw [totalsAgree_iff_of_exchange ha staker hoff]
    simp only [htotal, hpart, delegatedBy_of_some hd]
    constructor
    · rintro h _ ⟨⟩
      have hx := h d.delegate
      simp only [if_true] at hx
      omega
    · intro h x
      have hx := h d rfl
      by_cases he : x = d.delegate
      · subst he
        simp only [if_true]
        omega
      · simp [he, Ne.symm he]

theorem delegate_totalsAgree {delegatee : Address} {u : Unit} (ha : g.TotalsAgree)
    (h : delegate staker delegatee g = .ok (u, g')) : g'.TotalsAgree := by
  obtain rfl := delegate_eq_ok h
  -- What is reclaimed is what the staker had delegated.
  have hrec : ∀ x, ((g.reclaimedTotals staker).lookup x).getD 0 + g.delegatedBy staker x =
      g.getDelegatedTotal x := by
    intro x
    have hown := ha.delegatedBy_le staker x
    unfold VotingState.reclaimedTotals
    cases hd : g.getDelegation staker with
    | none => simp [delegatedBy_of_none hd, VotingState.getDelegatedTotal]
    | some d =>
      rw [delegatedBy_of_some hd] at hown ⊢
      by_cases hx : x = d.delegate
      · subst hx
        simp only [if_true] at hown
        simp only [Finmap.lookup_insert, Option.getD_some, if_true]
        omega
      · simp [hx, Ne.symm hx, VotingState.getDelegatedTotal]
  refine (totalsAgree_iff_of_exchange ha staker fun k hk => ?_).mpr fun x => ?_
  · exact Finmap.lookup_insert_of_ne _ hk
  · have hx := hrec x
    rw [delegatedBy_insert]
    by_cases he : x = delegatee
    · subst he
      simp only [VotingState.getDelegatedTotal, Finmap.lookup_insert, Option.getD_some,
        if_true] at hx ⊢
      omega
    · rw [VotingState.getDelegatedTotal, Store.lookup_insert_ite, if_neg he, if_neg (Ne.symm he)]
      exact hx

theorem undelegate_totalsAgree {event : UndelegateEvent} (ha : g.TotalsAgree)
    (h : undelegate staker g = .ok (event, g')) : g'.TotalsAgree := by
  obtain ⟨d, hd, rfl⟩ := undelegate_eq_ok h
  have hown := ha.delegatedBy_le staker d.delegate
  rw [delegatedBy_of_some hd, if_pos rfl] at hown
  refine (totalsAgree_iff_of_exchange ha staker fun k hk => ?_).mpr fun x => ?_
  · exact Finmap.lookup_erase_ne hk
  · rw [delegatedBy_of_some hd, delegatedBy_of_none (by simp [VotingState.getDelegation]),
      VotingState.getDelegatedTotal, getD_setOrRemove]
    by_cases hx : x = d.delegate
    · subst hx
      simp only [if_true]
      omega
    · simp [hx, Ne.symm hx, VotingState.getDelegatedTotal]

end Totals

section Direct

/-- Whoever delegates afterwards delegated before with the same direct weight, or has no
direct weight. -/
theorem VotingState.DirectCleared.of_weights (hc : g.DirectCleared)
    (h : ∀ k d', g'.getDelegation k = some d' → g'.getVotingWeight k = 0 ∨
      g'.getVotingWeight k = g.getVotingWeight k ∧ ∃ d, g.getDelegation k = some d) :
    g'.DirectCleared := by
  intro k d' hd'
  rcases h k d' hd' with hz | ⟨heq, d, hd⟩
  · exact hz
  · rw [heq]
    exact hc k d hd

theorem addWeight_directCleared (hc : g.DirectCleared) (h : addWeight staker weight g = .ok g') :
    g'.DirectCleared := by
  apply hc.of_weights
  intro k d' hd'
  refine .inr ?_
  cases hd : g.getDelegation staker with
  | none =>
    obtain rfl := addWeight_of_none hd h
    have hk : k ≠ staker := by
      rintro rfl
      cases hd.symm.trans hd'
    exact ⟨by simp [VotingState.getVotingWeight, hk], d', hd'⟩
  | some d =>
    obtain rfl := addWeight_of_delegation hd h
    refine ⟨rfl, ?_⟩
    rcases Store.lookup_insert_eq_some.mp hd' with ⟨rfl, _⟩ | ⟨_, hk⟩
    · exact ⟨d, hd⟩
    · exact ⟨d', hk⟩

theorem removeWeight_directCleared (hc : g.DirectCleared) :
    (removeWeight staker weight g).DirectCleared := by
  apply hc.of_weights
  intro k d' hd'
  refine .inr ?_
  cases hd : g.getDelegation staker with
  | none =>
    rw [removeWeight_of_none hd] at hd' ⊢
    have hk : k ≠ staker := by
      rintro rfl
      cases hd.symm.trans hd'
    refine ⟨?_, d', hd'⟩
    rw [VotingState.getVotingWeight, getD_setOrRemove, if_neg hk, VotingState.getVotingWeight]
  | some d =>
    rw [removeWeight_of_delegation hd] at hd' ⊢
    refine ⟨rfl, ?_⟩
    by_cases hk : k = staker
    · exact ⟨d, hk ▸ hd⟩
    · rw [VotingState.getDelegation] at hd'
      refine ⟨d', ?_⟩
      split_ifs at hd'
      · rwa [Finmap.lookup_erase_ne hk] at hd'
      · rwa [Finmap.lookup_insert_of_ne _ hk] at hd'

theorem delegate_directCleared {delegatee : Address} {u : Unit} (hc : g.DirectCleared)
    (h : delegate staker delegatee g = .ok (u, g')) : g'.DirectCleared := by
  obtain rfl := delegate_eq_ok h
  apply hc.of_weights
  intro k d' hd'
  rcases Store.lookup_insert_eq_some.mp hd' with ⟨rfl, _⟩ | ⟨hk, hd⟩
  · exact .inl (by simp [VotingState.getVotingWeight])
  · exact .inr ⟨by simp [VotingState.getVotingWeight, hk], d', hd⟩

theorem undelegate_directCleared {event : UndelegateEvent} (hc : g.DirectCleared)
    (h : undelegate staker g = .ok (event, g')) : g'.DirectCleared := by
  obtain ⟨d, _, rfl⟩ := undelegate_eq_ok h
  apply hc.of_weights
  intro k d' hd'
  rw [VotingState.getDelegation, Store.lookup_erase_ite] at hd'
  split_ifs at hd' with hk
  exact .inr ⟨by simp [VotingState.getVotingWeight, hk], d', hd'⟩

theorem votingStep_directCleared {i : VotingStep here} (hc : g.DirectCleared)
    (h : votingStep i g = .ok g') : g'.DirectCleared := by
  obtain ⟨env, call⟩ := i
  cases call with
  | stakeGovernance staker amount =>
    simp only [votingStep, bind_eq_ok, snd_map_eq_ok] at h
    obtain ⟨_, _, _, _, r, h⟩ := h
    obtain ⟨g₁, hrec, hadd⟩ := stakeGovernance_eq_ok h
    have hc₁ : g₁.DirectCleared := by
      rw [recordStake_eq_ok hrec]
      exact hc
    rcases hadd with rfl | ⟨_, hadd⟩
    · exact hc₁
    · exact addWeight_directCleared hc₁ hadd
  | unstakeGovernance staker amount =>
    simp only [votingStep, bind_eq_ok, snd_map_eq_ok] at h
    obtain ⟨_, _, _, _, r, h⟩ := h
    obtain ⟨_, _, rfl, rfl⟩ := unstakeGovernance_eq_ok h
    split_ifs
    · exact removeWeight_directCleared hc
    · exact hc
  | syncVotingWeight staker =>
    simp only [votingStep, bind_eq_ok, snd_map_eq_ok] at h
    obtain ⟨_, _, r, h⟩ := h
    rcases syncVotingWeight_eq_ok h with ⟨rfl, _⟩ | ⟨_, hadd⟩ | ⟨_, _, _, rfl⟩
    · exact hc
    · exact addWeight_directCleared hc hadd
    · exact removeWeight_directCleared hc
  | setGovWeightConfig admin config =>
    simp only [votingStep, bind_eq_ok, snd_map_eq_ok, setGovWeightConfig_eq_ok] at h
    obtain ⟨_, _, _, _, _, _, _, _, rfl⟩ := h
    exact hc
  | delegate staker delegatee =>
    simp only [votingStep, bind_eq_ok, snd_map_eq_ok] at h
    obtain ⟨_, _, _, _, u, h⟩ := h
    exact delegate_directCleared hc h
  | undelegate staker =>
    simp only [votingStep, bind_eq_ok, snd_map_eq_ok] at h
    obtain ⟨_, _, _, _, event, h⟩ := h
    exact undelegate_directCleared hc h

end Direct

section Runs

/-- An accepted call keeps the totals exactly when it takes back only the staker's own
weight. -/
theorem votingStep_totalsAgree_iff {i : VotingStep here} (ha : g.TotalsAgree)
    (h : votingStep i g = .ok g') : g'.TotalsAgree ↔ TakesBackOwnWeight g i := by
  obtain ⟨env, call⟩ := i
  have hok : ∃ g', votingStep (env, call) g = .ok g' := ⟨g', h⟩
  unfold TakesBackOwnWeight
  rw [imp_iff_right hok]
  cases call with
  | stakeGovernance staker amount =>
    simp only [votingStep, bind_eq_ok, snd_map_eq_ok] at h
    obtain ⟨_, _, _, _, r, h⟩ := h
    obtain ⟨g₁, hrec, hadd⟩ := stakeGovernance_eq_ok h
    have ha₁ : g₁.TotalsAgree := by
      rw [recordStake_eq_ok hrec]
      exact ha.of_same rfl rfl
    refine iff_of_true ?_ trivial
    rcases hadd with rfl | ⟨_, hadd⟩
    · exact ha₁
    · exact addWeight_totalsAgree ha₁ hadd
  | unstakeGovernance staker amount =>
    simp only [votingStep, bind_eq_ok, snd_map_eq_ok] at h
    obtain ⟨_, _, _, _, r, h⟩ := h
    obtain ⟨_, g₁, rfl, rfl⟩ := unstakeGovernance_eq_ok h
    split_ifs with hpos
    · exact removeWeight_totalsAgree_iff (ha.of_same rfl rfl)
    · refine iff_of_true (ha.of_same rfl rfl) fun d _ => .inl ?_
      omega
  | syncVotingWeight staker =>
    simp only [votingStep, bind_eq_ok, snd_map_eq_ok] at h
    obtain ⟨_, _, r, h⟩ := h
    have hcur : ∀ d, g.getDelegation staker = some d →
        currentWeight staker g = g.getDelegatedTotal d.delegate := by
      intro d hd
      simp only [currentWeight, hd]
    rcases syncVotingWeight_eq_ok h with ⟨rfl, hskip⟩ | ⟨hlt, hadd⟩ | ⟨hlt, hen, hmin, rfl⟩
    · refine iff_of_true ha fun d hd hen hmin => ?_
      have hd' := hcur d hd
      rcases hskip with hoff | hlow | heq
      · simp [hoff] at hen
      · omega
      · omega
    · refine iff_of_true (addWeight_totalsAgree ha hadd) fun d hd _ _ => ?_
      have hd' := hcur d hd
      omega
    · rw [removeWeight_totalsAgree_iff ha]
      refine forall_congr' fun d => forall_congr' fun hd => ?_
      have hd' := hcur d hd
      have hown := ha.delegatedBy_le staker d.delegate
      rw [delegatedBy_of_some hd, if_pos rfl] at hown
      rw [imp_iff_right hen, imp_iff_right hmin]
      omega
  | setGovWeightConfig admin config =>
    simp only [votingStep, bind_eq_ok, snd_map_eq_ok, setGovWeightConfig_eq_ok] at h
    obtain ⟨_, _, _, _, _, _, _, _, rfl⟩ := h
    exact iff_of_true (ha.of_same rfl rfl) trivial
  | delegate staker delegatee =>
    simp only [votingStep, bind_eq_ok, snd_map_eq_ok] at h
    obtain ⟨_, _, _, _, u, h⟩ := h
    exact iff_of_true (delegate_totalsAgree ha h) trivial
  | undelegate staker =>
    simp only [votingStep, bind_eq_ok, snd_map_eq_ok] at h
    obtain ⟨_, _, _, _, event, h⟩ := h
    exact iff_of_true (undelegate_totalsAgree ha h) trivial

theorem commit_totalsAgree_iff (ha : g.TotalsAgree) (i : VotingStep here) :
    (commit votingStep g i).TotalsAgree ↔ TakesBackOwnWeight g i :=
  commit_iff_of_accepted ha fun _ h => votingStep_totalsAgree_iff ha h

/-- Every total is the sum of its delegations, and no delegating staker holds weight of its
own, in every state of a run exactly when every call of the run takes back only the weight
of its own staker. -/
theorem delegation_ledger_throughout_iff (run : List (VotingStep here)) :
    Throughout votingStep (fun g => g.TotalsAgree ∧ g.DirectCleared) .empty run ↔
      Along votingStep TakesBackOwnWeight .empty run :=
  throughout_and_iff_along (I := VotingState.DirectCleared) (P := VotingState.TotalsAgree)
    (fun _ _ hc _ => commit_induction hc fun _ h => votingStep_directCleared hc h)
    (fun _ i _ ha => commit_totalsAgree_iff ha i) (fun _ hc _ => hc)
    (fun _ _ h => by simp [VotingState.empty, VotingState.getDelegation] at h)
    (fun _ => rfl) run

/-- Everybody signs and nobody is revoked. -/
def votingCall (call : VotingCall) : VotingStep ⟨0⟩ :=
  ({ Env.standard ⟨0⟩ 1 none with admin := some ⟨9⟩, revoked := fun _ => false }, call)

/-- Two stakers share a delegate, and one of them synchronises. -/
def syncedRun : List (VotingStep ⟨0⟩) :=
  [votingCall (.stakeGovernance ⟨1⟩ 100), votingCall (.stakeGovernance ⟨2⟩ 50),
   votingCall (.delegate ⟨1⟩ ⟨3⟩), votingCall (.delegate ⟨2⟩ ⟨3⟩),
   votingCall (.syncVotingWeight ⟨2⟩)]

/-- The rate rises after the delegations, and one staker withdraws its stake. -/
def repricedRun : List (VotingStep ⟨0⟩) :=
  syncedRun.take 4 ++
    [votingCall (.setGovWeightConfig ⟨9⟩ ⟨true, 2000000, 0⟩),
     votingCall (.unstakeGovernance ⟨2⟩ 50)]

theorem syncedRun_repricedRun_drift :
    (runAll votingStep .empty syncedRun).getDelegatedTotal ⟨3⟩ = 50 ∧
    (runAll votingStep .empty syncedRun).delegatedTo ⟨3⟩ = 100 ∧
    (runAll votingStep .empty repricedRun).getDelegatedTotal ⟨3⟩ = 50 ∧
    (runAll votingStep .empty repricedRun).delegatedTo ⟨3⟩ = 100 ∧
    ¬ (runAll votingStep .empty syncedRun).TotalsAgree ∧
    ¬ (runAll votingStep .empty repricedRun).TotalsAgree := by
  have h : (runAll votingStep .empty syncedRun).getDelegatedTotal ⟨3⟩ = 50 ∧
      (runAll votingStep .empty syncedRun).delegatedTo ⟨3⟩ = 100 ∧
      (runAll votingStep .empty repricedRun).getDelegatedTotal ⟨3⟩ = 50 ∧
      (runAll votingStep .empty repricedRun).delegatedTo ⟨3⟩ = 100 := by
    decide +kernel
  generalize runAll votingStep .empty syncedRun = g₁ at *
  generalize runAll votingStep .empty repricedRun = g₂ at *
  obtain ⟨h₁, h₂, h₃, h₄⟩ := h
  refine ⟨h₁, h₂, h₃, h₄, fun ha => ?_, fun ha => ?_⟩
  · have hx := ha ⟨3⟩
    omega
  · have hx := ha ⟨3⟩
    omega

end Runs

end StellarFlow.Governance
