import StellarFlow.Staking.Registry

/-!
# The aggregate against the registry

The registry and the total are updated apart. A registration overwrites the entry of a
node that is already there but adds to the total, and a withdrawal from a feed lets the
two saturate at different values. Under these two conditions, and only under them, the
total leaves the sum of the registry.
-/
namespace StellarFlow.Staking

open Foundation

variable {here : Address} {env : StakeEnv here} {s s' : StakeBook} {node : Address}
  {asset : Symbol} {amount : ℕ}

/-- Sum of the amounts in the registry. -/
def StakeBook.registered (s : StakeBook) : ℕ := Store.total (fun _ stake => stake) s.registry

/-- The total is the sum of the registry. -/
def TotalAgrees (s : StakeBook) : Prop := s.totalStaked = s.registered

/-- Holds in every reachable state: no entry is zero. -/
def StakesPositive (s : StakeBook) : Prop :=
  ∀ node stake, s.registry.lookup node = some stake → 0 < stake

theorem part_registry (s : StakeBook) (node : Address) :
    Store.part (fun _ stake => stake) s.registry node = s.nodeTotal node := by
  unfold Store.part StakeBook.nodeTotal
  cases s.registry.lookup node <;> rfl

theorem nodeTotal_le_registered (s : StakeBook) (node : Address) :
    s.nodeTotal node ≤ s.registered := by
  have he := Store.total_erase (fun _ stake => stake) s.registry node
  rw [part_registry] at he
  unfold StakeBook.registered
  omega

theorem StakesPositive.nodeTotal_eq_zero (hp : StakesPositive s) :
    s.nodeTotal node = 0 ↔ s.registry.lookup node = none := by
  unfold StakeBook.nodeTotal
  cases h : s.registry.lookup node with
  | none => simp
  | some stake =>
    have hpos := hp node stake h
    simp only [Option.getD_some, reduceCtorEq, iff_false]
    omega

section Updates

variable {stake : ℕ}

theorem registered_insert (h : s'.registry = s.registry.insert node stake) :
    s'.registered + s.nodeTotal node = s.registered + stake := by
  have hx := Store.total_insert (fun _ stake => stake) s.registry node stake
  rwa [part_registry, ← h] at hx

theorem registered_erase (h : s'.registry = s.registry.erase node) :
    s'.registered + s.nodeTotal node = s.registered := by
  have hx := Store.total_erase (fun _ stake => stake) s.registry node
  rwa [part_registry, ← h] at hx

theorem registered_setOrRemove (h : s'.registry = s.setOrRemove node stake) :
    s'.registered + s.nodeTotal node = s.registered + stake := by
  unfold StakeBook.setOrRemove at h
  split_ifs at h with hz
  · rw [hz]
    exact registered_erase h
  · exact registered_insert h

theorem StakesPositive.insert (hp : StakesPositive s) (hpos : 0 < stake)
    (h : s'.registry = s.registry.insert node stake) : StakesPositive s' := by
  intro other x hx
  rw [h] at hx
  rcases Store.lookup_insert_eq_some.mp hx with ⟨_, rfl⟩ | ⟨_, hx⟩
  · exact hpos
  · exact hp other x hx

theorem StakesPositive.erase (hp : StakesPositive s)
    (h : s'.registry = s.registry.erase node) : StakesPositive s' := by
  intro other x hx
  rw [h, Store.lookup_erase_ite] at hx
  split_ifs at hx
  exact hp other x hx

theorem StakesPositive.setOrRemove (hp : StakesPositive s)
    (h : s'.registry = s.setOrRemove node stake) : StakesPositive s' := by
  unfold StakeBook.setOrRemove at h
  split_ifs at h with hz
  · exact hp.erase h
  · exact hp.insert (Nat.pos_of_ne_zero hz) h

end Updates

section Calls

/-- The checks of a registration. -/
structure RegistrationAdmitted (env : StakeEnv here) (node : Address) (amount : ℕ)
    (s : StakeBook) : Prop where
  amount_pos : 0 < amount
  not_revoked : env.revoked node = false
  auth : env.auth node = true
  not_migrated : s.stakeByNode.lookup node = none
  fits : s.totalStaked + amount < 2 ^ 64

theorem stakeAndRegister_eq_ok {r : StakeRecord} :
    stakeAndRegister env node amount s = .ok (r, s') ↔
      RegistrationAdmitted env node amount s ∧ r = ⟨node, amount, env.timestamp⟩ ∧
      s' = { s with
        registry := s.registry.insert node amount, totalStaked := s.totalStaked + amount } := by
  simp only [stakeAndRegister, bind_eq_ok, failIf_eq_ok, Env.requireAuth_eq_ok, okOr_eq_ok,
    checkBits_eq_some, pure_eq_ok, Prod.mk.injEq, Bool.not_eq_true, Option.isSome_eq_false_iff,
    Option.isNone_iff_eq_none, exists_const]
  constructor
  · rintro ⟨hpos, hrev, hauth, hmig, total, ⟨hfits, rfl⟩, rfl, rfl⟩
    exact ⟨⟨Nat.pos_of_ne_zero hpos, hrev, hauth, hmig, hfits⟩, rfl, rfl⟩
  · rintro ⟨h, rfl, rfl⟩
    exact ⟨h.amount_pos.ne', h.not_revoked, h.auth, h.not_migrated, _, ⟨h.fits, rfl⟩, rfl, rfl⟩

theorem stakeAndRegister_ok_iff :
    (∃ r, stakeAndRegister env node amount s = .ok r) ↔ RegistrationAdmitted env node amount s := by
  constructor
  · rintro ⟨⟨r, s'⟩, h⟩
    exact (stakeAndRegister_eq_ok.mp h).1
  · intro hadm
    exact ⟨_, stakeAndRegister_eq_ok.mpr ⟨hadm, rfl, rfl⟩⟩

theorem unstake_eq_ok (h : unstake env node s = .ok (amount, s')) :
    amount = s.nodeTotal node ∧ s' = { s with
      registry := s.registry.erase node, totalStaked := s.totalStaked - amount } := by
  simp only [unstake, bind_eq_ok, okOr_eq_ok, pure_eq_ok, Prod.mk.injEq] at h
  obtain ⟨_, _, x, hx, rfl, rfl⟩ := h
  exact ⟨by simp [StakeBook.nodeTotal, hx], rfl⟩

theorem stakeAndRegisterForFeed_eq_ok {r : FeedStakeRecord}
    (h : stakeAndRegisterForFeed env node asset amount s = .ok (r, s')) :
    0 < amount ∧ s.feedStakes.lookup (node, asset) = none ∧ s' = { s with
      registry := s.registry.insert node (s.nodeTotal node + amount)
      totalStaked := s.totalStaked + amount
      feedStakes := s.feedStakes.insert (node, asset) amount } := by
  simp only [stakeAndRegisterForFeed, bind_eq_ok, failIf_eq_ok, okOr_eq_ok, checkBits_eq_some,
    pure_eq_ok, Prod.mk.injEq, Bool.not_eq_true, Option.isSome_eq_false_iff,
    Option.isNone_iff_eq_none] at h
  obtain ⟨_, hpos, _, _, _, _, _, hnone, _, _, x, ⟨_, rfl⟩, y, ⟨_, rfl⟩, _, rfl⟩ := h
  exact ⟨Nat.pos_of_ne_zero hpos, hnone, rfl⟩

theorem unstakeFromFeed_eq_ok :
    unstakeFromFeed env node asset s = .ok (amount, s') ↔
      env.auth node = true ∧ s.feedStakes.lookup (node, asset) = some amount ∧
      s' = { s with
        registry := s.setOrRemove node (s.nodeTotal node - amount)
        totalStaked := s.totalStaked - amount
        feedStakes := s.feedStakes.erase (node, asset) } := by
  simp only [unstakeFromFeed, bind_eq_ok, Env.requireAuth_eq_ok, okOr_eq_ok, pure_eq_ok,
    Prod.mk.injEq, exists_const]
  constructor
  · rintro ⟨hauth, x, hx, rfl, rfl⟩
    exact ⟨hauth, hx, rfl⟩
  · rintro ⟨hauth, hx, rfl⟩
    exact ⟨hauth, amount, hx, rfl, rfl⟩

/-- The checks of a penalty that comes to the given bond. -/
structure PenaltyAdmitted (env : StakeEnv here) (admin validator : Address) (asset : Symbol)
    (baseBond bond : ℕ) (s : StakeBook) : Prop where
  admin_eq : env.admin = some admin
  not_paused : env.paused = false
  auth : env.auth admin = true
  bond_eq : calculateBondDeduction baseBond (recordTrackingFault env validator asset s).1 = .ok bond
  staked : s.nodeTotal validator ≠ 0
  no_feed : s.feedStakes.lookup (validator, asset) = none

/-- A penalty takes the same amount, at most the stake of the node, from both. -/
theorem applyIngestionPenalty_eq_ok {admin validator : Address} {baseBond : ℕ} :
    (∃ r, applyIngestionPenalty env admin validator asset baseBond s = .ok (r, s')) ↔
      ∃ bond, PenaltyAdmitted env admin validator asset baseBond bond s ∧
        s' = { (recordTrackingFault env validator asset s).2 with
          registry := s.setOrRemove validator
            (s.nodeTotal validator - min bond (s.nodeTotal validator))
          totalStaked := s.totalStaked - min bond (s.nodeTotal validator) } := by
  simp only [applyIngestionPenalty, applyEscrowPenalty, bind_eq_ok, okOr_eq_ok, failIf_eq_ok,
    Env.requireAuth_eq_ok, pure_eq_ok, Prod.mk.injEq, Bool.not_eq_true, Option.isSome_eq_false_iff,
    Option.isNone_iff_eq_none, not_not]
  constructor
  · rintro ⟨r, current, hadmin, _, hpaused, _, rfl, _, hauth, bond, hbond, _, hstaked, _, hfeed,
      _, rfl⟩
    exact ⟨bond, ⟨hadmin, hpaused, hauth, hbond, hstaked, hfeed⟩, rfl⟩
  · rintro ⟨bond, h, rfl⟩
    exact ⟨_, admin, h.admin_eq, (), h.not_paused, (), rfl, (), h.auth, bond, h.bond_eq, (),
      h.staked, (), h.no_feed, rfl, rfl⟩

end Calls

theorem stakeStep_positive {i : StakeStep here} (hp : StakesPositive s)
    (h : stakeStep i s = .ok s') : StakesPositive s' := by
  obtain ⟨env, call⟩ := i
  cases call with
  | stakeAndRegister node amount =>
    obtain ⟨r, h⟩ := snd_map_eq_ok.mp h
    obtain ⟨hadm, _, rfl⟩ := stakeAndRegister_eq_ok.mp h
    exact hp.insert hadm.amount_pos rfl
  | unstake node =>
    obtain ⟨r, h⟩ := snd_map_eq_ok.mp h
    obtain ⟨_, rfl⟩ := unstake_eq_ok h
    exact hp.erase rfl
  | stakeAndRegisterForFeed node asset amount =>
    obtain ⟨r, h⟩ := snd_map_eq_ok.mp h
    obtain ⟨hpos, _, rfl⟩ := stakeAndRegisterForFeed_eq_ok h
    exact hp.insert (by omega) rfl
  | unstakeFromFeed node asset =>
    obtain ⟨r, h⟩ := snd_map_eq_ok.mp h
    obtain ⟨_, _, rfl⟩ := unstakeFromFeed_eq_ok.mp h
    exact hp.setOrRemove rfl
  | applyIngestionPenalty admin validator asset baseBond =>
    obtain ⟨_, _, rfl⟩ := applyIngestionPenalty_eq_ok.mp (snd_map_eq_ok.mp h)
    exact hp.setOrRemove rfl

/-- An admitted registration is by a node without a stake, and a withdrawal from a feed finds
the amount in the stake of the node or the node's stake is all there is. -/
def KeepsTotal (s : StakeBook) (i : StakeStep here) : Prop :=
  match i.2 with
  | .stakeAndRegister node amount =>
    RegistrationAdmitted i.1 node amount s → s.registry.lookup node = none
  | .unstakeFromFeed node asset => i.1.auth node = true →
    ∀ amount, s.feedStakes.lookup (node, asset) = some amount →
      amount ≤ s.nodeTotal node ∨ s.totalStaked = s.nodeTotal node
  | _ => True

section Steps

/-- A registration adds its amount to the total but replaces the stake of the node. -/
theorem stakeAndRegister_totalAgrees_iff {r : StakeRecord} (hp : StakesPositive s)
    (ha : TotalAgrees s) (h : stakeAndRegister env node amount s = .ok (r, s')) :
    TotalAgrees s' ↔ s.registry.lookup node = none := by
  obtain ⟨_, _, hs⟩ := stakeAndRegister_eq_ok.mp h
  have hreg : s'.registry = s.registry.insert node amount := by rw [hs]
  have htotal : s'.totalStaked = s.totalStaked + amount := by rw [hs]
  have hsum := registered_insert hreg
  rw [← hp.nodeTotal_eq_zero]
  unfold TotalAgrees at *
  omega

theorem unstake_totalAgrees (ha : TotalAgrees s) (h : unstake env node s = .ok (amount, s')) :
    TotalAgrees s' := by
  obtain ⟨hamount, hs⟩ := unstake_eq_ok h
  have hreg : s'.registry = s.registry.erase node := by rw [hs]
  have htotal : s'.totalStaked = s.totalStaked - amount := by rw [hs]
  have hsum := registered_erase hreg
  unfold TotalAgrees at *
  omega

theorem stakeAndRegisterForFeed_totalAgrees {r : FeedStakeRecord} (ha : TotalAgrees s)
    (h : stakeAndRegisterForFeed env node asset amount s = .ok (r, s')) : TotalAgrees s' := by
  obtain ⟨_, _, hs⟩ := stakeAndRegisterForFeed_eq_ok h
  have hreg : s'.registry = s.registry.insert node (s.nodeTotal node + amount) := by rw [hs]
  have htotal : s'.totalStaked = s.totalStaked + amount := by rw [hs]
  have hsum := registered_insert hreg
  unfold TotalAgrees at *
  omega

/-- The stake of the node saturates at the node's stake, the total at the whole. -/
theorem unstakeFromFeed_totalAgrees_iff (ha : TotalAgrees s)
    (h : unstakeFromFeed env node asset s = .ok (amount, s')) :
    TotalAgrees s' ↔ amount ≤ s.nodeTotal node ∨ s.totalStaked = s.nodeTotal node := by
  obtain ⟨_, _, hs⟩ := unstakeFromFeed_eq_ok.mp h
  have hreg : s'.registry = s.setOrRemove node (s.nodeTotal node - amount) := by rw [hs]
  have htotal : s'.totalStaked = s.totalStaked - amount := by rw [hs]
  have hsum := registered_setOrRemove hreg
  have hle := nodeTotal_le_registered s node
  unfold TotalAgrees at *
  omega

theorem applyIngestionPenalty_totalAgrees {admin validator : Address} {baseBond : ℕ}
    (ha : TotalAgrees s)
    (h : ∃ r, applyIngestionPenalty env admin validator asset baseBond s = .ok (r, s')) :
    TotalAgrees s' := by
  obtain ⟨bond, _, hs⟩ := applyIngestionPenalty_eq_ok.mp h
  have hle : min bond (s.nodeTotal validator) ≤ s.nodeTotal validator := min_le_right _ _
  have hreg : s'.registry = s.setOrRemove validator
      (s.nodeTotal validator - min bond (s.nodeTotal validator)) := by rw [hs]
  have htotal : s'.totalStaked = s.totalStaked - min bond (s.nodeTotal validator) := by rw [hs]
  have hsum := registered_setOrRemove hreg
  have hnode := nodeTotal_le_registered s validator
  unfold TotalAgrees at *
  omega

/-- A call keeps the agreement exactly when it meets the condition. -/
theorem commit_totalAgrees_iff (hp : StakesPositive s) (ha : TotalAgrees s)
    (i : StakeStep here) : TotalAgrees (commit stakeStep s i) ↔ KeepsTotal s i := by
  obtain ⟨env, call⟩ := i
  cases call with
  | stakeAndRegister node amount =>
    rw [commit_iff_of_result rfl ha fun r s' h => stakeAndRegister_totalAgrees_iff hp ha h,
      stakeAndRegister_ok_iff]
    exact Iff.rfl
  | unstake node =>
    refine iff_of_true (commit_induction ha fun s' h => ?_) trivial
    obtain ⟨r, h⟩ := snd_map_eq_ok.mp h
    exact unstake_totalAgrees ha h
  | stakeAndRegisterForFeed node asset amount =>
    refine iff_of_true (commit_induction ha fun s' h => ?_) trivial
    obtain ⟨r, h⟩ := snd_map_eq_ok.mp h
    exact stakeAndRegisterForFeed_totalAgrees ha h
  | unstakeFromFeed node asset =>
    by_cases hfeed : ∃ amount, env.auth node = true ∧
        s.feedStakes.lookup (node, asset) = some amount
    · obtain ⟨amount, hauth, hx⟩ := hfeed
      have hok := unstakeFromFeed_eq_ok.mpr ⟨hauth, hx, rfl⟩
      rw [commit_of_ok (snd_map_eq_ok.mpr ⟨_, hok⟩), unstakeFromFeed_totalAgrees_iff ha hok]
      constructor
      · intro h _ x hx'
        obtain rfl : amount = x := by
          rw [hx] at hx'
          exact Option.some.inj hx'
        exact h
      · exact fun h => h hauth amount hx
    · push Not at hfeed
      refine iff_of_true (commit_induction ha fun s' h => ?_)
        fun hauth x hx => absurd hx (hfeed x hauth)
      obtain ⟨x, h⟩ := snd_map_eq_ok.mp h
      obtain ⟨hauth, hx, _⟩ := unstakeFromFeed_eq_ok.mp h
      exact absurd hx (hfeed x hauth)
  | applyIngestionPenalty admin validator asset baseBond =>
    refine iff_of_true (commit_induction ha fun s' h => ?_) trivial
    exact applyIngestionPenalty_totalAgrees ha (snd_map_eq_ok.mp h)

end Steps

theorem totalAgrees_empty : TotalAgrees .empty := rfl

/-- The total is the sum of the registry in every state of a run exactly when every call of
the run meets the condition. -/
theorem totalAgrees_throughout_iff (run : List (StakeStep here)) :
    Throughout stakeStep TotalAgrees .empty run ↔ Along stakeStep KeepsTotal .empty run :=
  throughout_iff_along (I := StakesPositive)
    (fun _ _ hp => commit_induction hp fun _ h => stakeStep_positive hp h)
    (fun _ i hp ha => commit_totalAgrees_iff hp ha i)
    (fun _ _ h => by simp [StakeBook.empty] at h) totalAgrees_empty run

/-- Everybody signs, nobody is revoked and the tiers are the defaults. -/
def stakeCall (call : StakeCall) : StakeStep ⟨0⟩ :=
  ({ Env.standard ⟨0⟩ 1 none with
      admin := some ⟨9⟩, paused := false, revoked := fun _ => false, metrics := fun _ => none
      collected := fun _ => 0, tierConfig := none }, call)

/-- A node registers twice. -/
def registeredTwiceRun : List (StakeStep ⟨0⟩) :=
  [stakeCall (.stakeAndRegister ⟨1⟩ 500), stakeCall (.stakeAndRegister ⟨1⟩ 1000)]

/-- A node leaves the registry and then its feed, while another node has a stake. -/
def withdrawnTwiceRun : List (StakeStep ⟨0⟩) :=
  [stakeCall (.stakeAndRegister ⟨2⟩ 500), stakeCall (.stakeAndRegisterForFeed ⟨1⟩ ⟨7⟩ 100),
   stakeCall (.unstake ⟨1⟩), stakeCall (.unstakeFromFeed ⟨1⟩ ⟨7⟩)]

theorem registeredTwice_withdrawnTwice_disagree :
    (runAll stakeStep .empty registeredTwiceRun).totalStaked = 1500 ∧
    (runAll stakeStep .empty registeredTwiceRun).registered = 1000 ∧
    (runAll stakeStep .empty withdrawnTwiceRun).totalStaked = 400 ∧
    (runAll stakeStep .empty withdrawnTwiceRun).registered = 500 ∧
    ¬ TotalAgrees (runAll stakeStep .empty registeredTwiceRun) ∧
    ¬ TotalAgrees (runAll stakeStep .empty withdrawnTwiceRun) := by
  have h : (runAll stakeStep .empty registeredTwiceRun).totalStaked = 1500 ∧
      (runAll stakeStep .empty registeredTwiceRun).registered = 1000 ∧
      (runAll stakeStep .empty withdrawnTwiceRun).totalStaked = 400 ∧
      (runAll stakeStep .empty withdrawnTwiceRun).registered = 500 := by
    decide +kernel
  obtain ⟨h₁, h₂, h₃, h₄⟩ := h
  refine ⟨h₁, h₂, h₃, h₄, ?_, ?_⟩
  · rw [TotalAgrees, h₁, h₂]
    decide
  · rw [TotalAgrees, h₃, h₄]
    decide

end StellarFlow.Staking
