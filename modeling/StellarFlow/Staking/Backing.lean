import StellarFlow.Staking.Total

/-!
# Feed stakes against the registry

A feed stake is an entry of its own and a part of the node's stake in the registry at the
same time. A withdrawal from the registry and a second registration drop the node's stake
whatever its feeds hold, and a penalty on one feed is taken from the stake that backs the
others. Apart from these three, every call keeps the feed stakes of a node within its stake.
-/
namespace StellarFlow.Staking

open Foundation

variable {here : Address} {env : StakeEnv here} {s s' : StakeBook} {node : Address}
  {asset : Symbol} {amount : ℕ}

/-- What a node has staked for single feeds. -/
def StakeBook.feedStaked (s : StakeBook) (node : Address) : ℕ :=
  Store.total (fun key amount => if key.1 = node then amount else 0) s.feedStakes

/-- What the registry holds for all nodes but one. -/
def StakeBook.othersStaked (s : StakeBook) (node : Address) : ℕ :=
  Store.total (fun other stake => if other = node then 0 else stake) s.registry

/-- The total is at least the sum of the registry. -/
def CoversRegistry (s : StakeBook) : Prop := s.registered ≤ s.totalStaked

/-- The feed stakes of every node are part of its stake. -/
def Backed (s : StakeBook) : Prop := ∀ node, s.feedStaked node ≤ s.nodeTotal node

section Sums

theorem feedStaked_congr (h : s'.feedStakes = s.feedStakes) (node : Address) :
    s'.feedStaked node = s.feedStaked node := by
  rw [StakeBook.feedStaked, StakeBook.feedStaked, h]

theorem feedStaked_insert {other : Address} (hnone : s.feedStakes.lookup (node, asset) = none)
    (h : s'.feedStakes = s.feedStakes.insert (node, asset) amount) :
    s'.feedStaked other = s.feedStaked other + if node = other then amount else 0 := by
  rw [StakeBook.feedStaked, h, Store.total_insert_of_none _ _ hnone, add_comm]
  rfl

theorem feedStaked_erase (other : Address)
    (hsome : s.feedStakes.lookup (node, asset) = some amount)
    (h : s'.feedStakes = s.feedStakes.erase (node, asset)) :
    s'.feedStaked other + (if node = other then amount else 0) = s.feedStaked other := by
  have he := Store.total_erase (fun key amount => if key.1 = other then amount else 0)
    s.feedStakes (node, asset)
  rwa [Store.part_of_lookup _ hsome, ← h] at he

theorem nodeTotal_insert {stake : ℕ} {other : Address}
    (h : s'.registry = s.registry.insert node stake) :
    s'.nodeTotal other = if other = node then stake else s.nodeTotal other := by
  rw [StakeBook.nodeTotal, h, Store.lookup_insert_ite]
  split_ifs <;> rfl

theorem nodeTotal_erase {other : Address} (h : s'.registry = s.registry.erase node) :
    s'.nodeTotal other = if other = node then 0 else s.nodeTotal other := by
  rw [StakeBook.nodeTotal, h, Store.lookup_erase_ite]
  split_ifs <;> rfl

theorem nodeTotal_setOrRemove {stake : ℕ} {other : Address}
    (h : s'.registry = s.setOrRemove node stake) :
    s'.nodeTotal other = if other = node then stake else s.nodeTotal other := by
  unfold StakeBook.setOrRemove at h
  split_ifs at h with hz
  · rw [hz]
    exact nodeTotal_erase h
  · exact nodeTotal_insert h

/-- The registry splits into the stake of one node and the stakes of the others. -/
theorem nodeTotal_add_othersStaked (s : StakeBook) (node : Address) :
    s.nodeTotal node + s.othersStaked node = s.registered := by
  have he := Store.total_erase (fun _ stake => stake) s.registry node
  have ho := Store.total_erase (fun other stake => if other = node then 0 else stake)
    s.registry node
  have hpart : Store.part (fun other stake => if other = node then 0 else stake)
      s.registry node = 0 := by
    unfold Store.part
    cases s.registry.lookup node <;> simp
  have hcongr : Store.total (fun other stake => if other = node then 0 else stake)
      (s.registry.erase node) = Store.total (fun _ stake => stake) (s.registry.erase node) := by
    apply Store.total_congr
    intro other stake h
    rw [Store.lookup_erase_ite] at h
    split_ifs at h with hne
    rw [if_neg hne]
  rw [part_registry] at he
  unfold StakeBook.othersStaked StakeBook.registered
  omega

/-- A call that only sets the stake of one node has to leave it what its feeds hold. -/
theorem backed_iff_of_stake {stake : ℕ} (hb : Backed s) (hfeed : s'.feedStakes = s.feedStakes)
    (hreg : ∀ other, s'.nodeTotal other = if other = node then stake else s.nodeTotal other) :
    Backed s' ↔ s.feedStaked node ≤ stake := by
  constructor
  · intro h
    have hn := h node
    rwa [feedStaked_congr hfeed, hreg, if_pos rfl] at hn
  · intro h other
    rw [feedStaked_congr hfeed, hreg]
    split_ifs with hne
    · rw [hne]
      exact h
    · exact hb other

end Sums

section Calls

variable {admin validator : Address} {baseBond bond : ℕ}

theorem stakeAndRegister_backed_iff {r : StakeRecord} (hb : Backed s)
    (h : stakeAndRegister env node amount s = .ok (r, s')) :
    Backed s' ↔ s.feedStaked node ≤ amount := by
  obtain ⟨_, _, rfl⟩ := stakeAndRegister_eq_ok.mp h
  exact backed_iff_of_stake hb rfl fun _ => nodeTotal_insert rfl

theorem unstake_backed_iff (hb : Backed s) (h : unstake env node s = .ok (amount, s')) :
    Backed s' ↔ s.feedStaked node = 0 := by
  obtain ⟨_, hs⟩ := unstake_eq_ok h
  have hreg : s'.registry = s.registry.erase node := by rw [hs]
  have hfeed : s'.feedStakes = s.feedStakes := by rw [hs]
  rw [backed_iff_of_stake hb hfeed fun _ => nodeTotal_erase hreg, Nat.le_zero]

/-- A stake for a feed goes into the registry as well. -/
theorem stakeAndRegisterForFeed_backed {r : FeedStakeRecord} (hb : Backed s)
    (h : stakeAndRegisterForFeed env node asset amount s = .ok (r, s')) : Backed s' := by
  obtain ⟨_, hnone, hs⟩ := stakeAndRegisterForFeed_eq_ok h
  have hreg : s'.registry = s.registry.insert node (s.nodeTotal node + amount) := by rw [hs]
  have hfeed : s'.feedStakes = s.feedStakes.insert (node, asset) amount := by rw [hs]
  intro other
  have hold := hb other
  rw [feedStaked_insert hnone hfeed, nodeTotal_insert hreg]
  by_cases hne : other = node
  · subst hne
    simpa using hold
  · rw [if_neg (Ne.symm hne), if_neg hne]
    exact hold

/-- A withdrawal from a feed takes the same amount from both. -/
theorem unstakeFromFeed_backed (hb : Backed s)
    (h : unstakeFromFeed env node asset s = .ok (amount, s')) : Backed s' := by
  obtain ⟨_, hsome, hs⟩ := unstakeFromFeed_eq_ok.mp h
  have hreg : s'.registry = s.setOrRemove node (s.nodeTotal node - amount) := by rw [hs]
  have hfeed : s'.feedStakes = s.feedStakes.erase (node, asset) := by rw [hs]
  intro other
  have hold := hb other
  have hsum := feedStaked_erase other hsome hfeed
  rw [nodeTotal_setOrRemove hreg]
  by_cases hne : other = node
  · subst hne
    rw [if_pos rfl] at hsum ⊢
    omega
  · rw [if_neg (Ne.symm hne)] at hsum
    rw [if_neg hne]
    omega

/-- The penalty falls on the whole stake of the node but on none of its feeds. -/
theorem applyIngestionPenalty_backed_iff {validator : Address} {bond : ℕ} (hb : Backed s)
    (hs : s' = { (recordTrackingFault env validator asset s).2 with
      registry := s.setOrRemove validator (s.nodeTotal validator - min bond (s.nodeTotal validator))
      totalStaked := s.totalStaked - min bond (s.nodeTotal validator) }) :
    Backed s' ↔ s.feedStaked validator ≤ s.nodeTotal validator - bond := by
  have hreg : s'.registry = s.setOrRemove validator
      (s.nodeTotal validator - min bond (s.nodeTotal validator)) := by rw [hs]
  have hfeed : s'.feedStakes = s.feedStakes := by rw [hs]; rfl
  rw [backed_iff_of_stake hb hfeed fun _ => nodeTotal_setOrRemove hreg]
  omega

end Calls

/-- An admitted registration brings at least what the node has staked for feeds, a withdrawal
from the registry is by a node without feed stakes, and an admitted penalty leaves the node what
it has staked for feeds. -/
def KeepsBacking (s : StakeBook) (i : StakeStep here) : Prop :=
  match i.2 with
  | .stakeAndRegister node amount =>
    RegistrationAdmitted i.1 node amount s → s.feedStaked node ≤ amount
  | .unstake node => i.1.auth node = true → s.feedStaked node = 0
  | .applyIngestionPenalty admin validator asset baseBond =>
    ∀ bond, PenaltyAdmitted i.1 admin validator asset baseBond bond s →
      s.feedStaked validator ≤ s.nodeTotal validator - bond
  | _ => True

section Steps

theorem unstake_of_lookup (hauth : env.auth node = true)
    (hx : s.registry.lookup node = some amount) : unstake env node s = .ok (amount, { s with
      registry := s.registry.erase node, totalStaked := s.totalStaked - amount }) := by
  simp [unstake, Env.requireAuth, failIf, hauth, hx, pure, Except.pure]

/-- A call keeps the feed stakes backed exactly when it meets the condition. -/
theorem commit_backed_iff (hb : Backed s) (i : StakeStep here) :
    Backed (commit stakeStep s i) ↔ KeepsBacking s i := by
  obtain ⟨env, call⟩ := i
  cases call with
  | stakeAndRegister node amount =>
    rw [commit_iff_of_result rfl hb fun r s' h => stakeAndRegister_backed_iff hb h,
      stakeAndRegister_ok_iff]
    exact Iff.rfl
  | unstake node =>
    by_cases hauth : env.auth node = true
    · cases hx : s.registry.lookup node with
      | some amount =>
        have hok := unstake_of_lookup hauth hx
        rw [commit_of_ok (snd_map_eq_ok.mpr ⟨_, hok⟩), unstake_backed_iff hb hok]
        exact ⟨fun h _ => h, fun h => h hauth⟩
      | none =>
        have hzero := hb node
        simp only [StakeBook.nodeTotal, hx, Option.getD_none, Nat.le_zero] at hzero
        refine iff_of_true (commit_induction hb fun s' h => ?_) fun _ => hzero
        obtain ⟨r, h⟩ := snd_map_eq_ok.mp h
        exact (unstake_backed_iff hb h).mpr hzero
    · refine iff_of_true (commit_induction hb fun s' h => ?_) fun h => absurd h hauth
      obtain ⟨r, h⟩ := snd_map_eq_ok.mp h
      simp [unstake, bind_eq_ok, hauth] at h
  | stakeAndRegisterForFeed node asset amount =>
    refine iff_of_true (commit_induction hb fun s' h => ?_) trivial
    obtain ⟨r, h⟩ := snd_map_eq_ok.mp h
    exact stakeAndRegisterForFeed_backed hb h
  | unstakeFromFeed node asset =>
    refine iff_of_true (commit_induction hb fun s' h => ?_) trivial
    obtain ⟨r, h⟩ := snd_map_eq_ok.mp h
    exact unstakeFromFeed_backed hb h
  | applyIngestionPenalty admin validator asset baseBond =>
    by_cases hadm : ∃ bond, PenaltyAdmitted env admin validator asset baseBond bond s
    · obtain ⟨bond, hadm⟩ := hadm
      have hok := applyIngestionPenalty_eq_ok.mpr ⟨bond, hadm, rfl⟩
      rw [commit_of_ok (snd_map_eq_ok.mpr hok),
        applyIngestionPenalty_backed_iff hb rfl]
      constructor
      · intro h other hother
        obtain rfl : bond = other := by
          have := hadm.bond_eq.symm.trans hother.bond_eq
          simpa using this
        exact h
      · exact fun h => h bond hadm
    · refine iff_of_true (commit_induction hb fun s' h => ?_) fun bond h => absurd ⟨bond, h⟩ hadm
      obtain ⟨bond, h, _⟩ := applyIngestionPenalty_eq_ok.mp (snd_map_eq_ok.mp h)
      exact absurd ⟨bond, h⟩ hadm

/-- While feed stakes are backed, the total covers the registry: only a registration that
replaces a stake moves them apart. -/
theorem stakeStep_coversRegistry {i : StakeStep here} (hb : Backed s)
    (hle : CoversRegistry s) (h : stakeStep i s = .ok s') : CoversRegistry s' := by
  unfold CoversRegistry at *
  obtain ⟨env, call⟩ := i
  cases call with
  | stakeAndRegister node amount =>
    obtain ⟨r, h⟩ := snd_map_eq_ok.mp h
    obtain ⟨_, _, hs⟩ := stakeAndRegister_eq_ok.mp h
    have hsum : s'.registered + s.nodeTotal node = s.registered + amount :=
      registered_insert (by rw [hs])
    have htotal : s'.totalStaked = s.totalStaked + amount := by rw [hs]
    omega
  | unstake node =>
    obtain ⟨amount, h⟩ := snd_map_eq_ok.mp h
    obtain ⟨hamount, hs⟩ := unstake_eq_ok h
    have hsum : s'.registered + s.nodeTotal node = s.registered := registered_erase (by rw [hs])
    have htotal : s'.totalStaked = s.totalStaked - amount := by rw [hs]
    omega
  | stakeAndRegisterForFeed node asset amount =>
    obtain ⟨r, h⟩ := snd_map_eq_ok.mp h
    obtain ⟨_, _, hs⟩ := stakeAndRegisterForFeed_eq_ok h
    have hsum : s'.registered + s.nodeTotal node = s.registered + (s.nodeTotal node + amount) :=
      registered_insert (by rw [hs])
    have htotal : s'.totalStaked = s.totalStaked + amount := by rw [hs]
    omega
  | unstakeFromFeed node asset =>
    obtain ⟨amount, h⟩ := snd_map_eq_ok.mp h
    obtain ⟨_, hsome, hs⟩ := unstakeFromFeed_eq_ok.mp h
    have hsum : s'.registered + s.nodeTotal node = s.registered + (s.nodeTotal node - amount) :=
      registered_setOrRemove (by rw [hs])
    have htotal : s'.totalStaked = s.totalStaked - amount := by rw [hs]
    have hfeed : s'.feedStakes = s.feedStakes.erase (node, asset) := by rw [hs]
    have hamount : s'.feedStaked node + amount = s.feedStaked node := by
      simpa using feedStaked_erase node hsome hfeed
    have hbacked := hb node
    omega
  | applyIngestionPenalty admin validator asset baseBond =>
    obtain ⟨bond, _, hs⟩ := applyIngestionPenalty_eq_ok.mp (snd_map_eq_ok.mp h)
    have hsum : s'.registered + s.nodeTotal validator = s.registered +
        (s.nodeTotal validator - min bond (s.nodeTotal validator)) :=
      registered_setOrRemove (by rw [hs])
    have htotal : s'.totalStaked = s.totalStaked - min bond (s.nodeTotal validator) := by rw [hs]
    omega

end Steps

section Withdrawals

/-- A node leaves feeds, in any order and at any time. -/
def feedWithdrawals (node : Address) (calls : List (StakeEnv here × Symbol)) :
    List (StakeStep here) := calls.map fun call => (call.1, .unstakeFromFeed node call.2)

/-- However many of its feeds a node leaves, the total still covers the other nodes. -/
def OthersCovered (here : Address) (s : StakeBook) : Prop :=
  ∀ node (calls : List (StakeEnv here × Symbol)),
    s.othersStaked node ≤ (runAll stakeStep s (feedWithdrawals node calls)).totalStaked

theorem unstakeFromFeed_othersStaked (h : unstakeFromFeed env node asset s = .ok (amount, s')) :
    s'.othersStaked node = s.othersStaked node := by
  obtain ⟨_, _, hs⟩ := unstakeFromFeed_eq_ok.mp h
  have hreg : s'.registry = s.setOrRemove node (s.nodeTotal node - amount) := by rw [hs]
  have hsum := registered_setOrRemove hreg
  have hnode : s'.nodeTotal node = s.nodeTotal node - amount := by
    rw [nodeTotal_setOrRemove hreg, if_pos rfl]
  have hold := nodeTotal_add_othersStaked s node
  have hnew := nodeTotal_add_othersStaked s' node
  omega

theorem Backed.othersCovered (hb : Backed s) (hle : CoversRegistry s) :
    OthersCovered here s := by
  intro node calls
  induction calls generalizing s with
  | nil =>
    have hsplit := nodeTotal_add_othersStaked s node
    simp only [feedWithdrawals, List.map_nil, runAll_nil]
    unfold CoversRegistry at hle
    omega
  | cons call calls ih =>
    simp only [feedWithdrawals, List.map_cons, runAll_cons]
    cases h : stakeStep (call.1, .unstakeFromFeed node call.2) s with
    | error e =>
      rw [commit_of_error h]
      exact ih hb hle
    | ok s' =>
      rw [commit_of_ok h]
      have hle' := stakeStep_coversRegistry hb hle h
      obtain ⟨amount, h⟩ := snd_map_eq_ok.mp h
      rw [← unstakeFromFeed_othersStaked h]
      exact ih (unstakeFromFeed_backed hb h) hle'

end Withdrawals

section Runs

theorem backed_empty : Backed .empty := fun _ => le_rfl

/-- In every state of a run the feed stakes are backed, and no node can take the total below
the stakes of the others by leaving feeds, exactly when every call of the run meets the
condition. -/
theorem backed_throughout_iff (run : List (StakeStep here)) :
    Throughout stakeStep (fun s => Backed s ∧ OthersCovered here s) .empty run ↔
      Along stakeStep KeepsBacking .empty run := by
  refine throughout_and_iff_along (I := CoversRegistry) (P := Backed) (Q := OthersCovered here)
    (fun s i hle hb => ?_) (fun s i _ hb => commit_backed_iff hb i) (fun s hle hb => ?_)
    (le_refl 0) backed_empty run
  · exact commit_induction hle fun s' h => stakeStep_coversRegistry hb hle h
  · exact hb.othersCovered hle

/-- A node stakes for a feed and leaves the registry, while another node has a stake. -/
def leftRegistryRun : List (StakeStep ⟨0⟩) :=
  [stakeCall (.stakeAndRegister ⟨2⟩ 500), stakeCall (.stakeAndRegisterForFeed ⟨1⟩ ⟨7⟩ 100),
   stakeCall (.unstake ⟨1⟩)]

theorem leftRegistryRun_not_backed :
    ¬ Backed (runAll stakeStep .empty leftRegistryRun) ∧
      ¬ OthersCovered ⟨0⟩ (runAll stakeStep .empty leftRegistryRun) := by
  have h : (runAll stakeStep .empty leftRegistryRun).feedStaked ⟨1⟩ = 100 ∧
      (runAll stakeStep .empty leftRegistryRun).nodeTotal ⟨1⟩ = 0 ∧
      (runAll stakeStep .empty leftRegistryRun).othersStaked ⟨1⟩ = 500 ∧
      (runAll stakeStep (runAll stakeStep .empty leftRegistryRun)
        (feedWithdrawals ⟨1⟩ [((stakeCall (.unstake ⟨1⟩)).1, ⟨7⟩)])).totalStaked = 400 := by
    decide +kernel
  obtain ⟨hfeed, hnode, hothers, htotal⟩ := h
  constructor
  · intro hb
    have := hb ⟨1⟩
    omega
  · intro hc
    have := hc ⟨1⟩ [((stakeCall (.unstake ⟨1⟩)).1, ⟨7⟩)]
    omega

end Runs

end StellarFlow.Staking
