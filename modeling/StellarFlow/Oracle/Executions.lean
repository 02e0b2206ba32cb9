import StellarFlow.Oracle.Votes

/-!
# What an execution reflects

An executed action was voted for by different admins, each of them itself or through its delegate,
with a weight that reaches the threshold. But nobody checks at the execution that the voters are
still admins, and votes that veFLOW weighs are not counted at all.
-/
namespace StellarFlow.Votes

open Foundation Oracle Relayers

inductive VoteCall
  | proposeAction (admin : Address) (actionType : ℕ) (target : Option Address) (data : List Char)
  | setVeflowGovernance (admin lockContract : Address) (circulatingSupply : i128.Value)
  | voteForAction (voter : Address) (actionId : ℕ)
  | voteAgainstAction (voter : Address) (actionId : ℕ)
  | delegateVote (owner delegate : Address)
  | clearVoteDelegate (owner : Address)
  | registerAdmin (admin1 admin2 newAdmin : Address)
  | removeAdmin (admin1 admin2 adminToRemove : Address)
  | cancelProposedAction (canceller : Address) (actionId : ℕ)
  | executeProposedAction (executor : Address) (actionId : ℕ)
  /-- Any other entry point, with the configuration that it leaves. A destroyed contract stays
  destroyed. -/
  | other (config : VoteConfig)

/-- A vote for an action, with the delegates at its time. -/
structure CastVote where
  actionId : ℕ
  caster : Address
  signed : Bool
  voteDelegate : Store Address Address

/-- The store, the votes that were cast without veFLOW, and the actions that were executed. -/
structure VoteHistory where
  store : VoteStore
  casts : List CastVote
  executions : List ℕ

def VoteHistory.deployed (tokens : Tokens) : VoteHistory := ⟨.deployed tokens, [], []⟩

/-- The history after a vote. -/
def VoteHistory.record {here : Address} (env : VoteEnv here) (actionId : ℕ) (caster : Address)
    (store : VoteStore) (h : VoteHistory) : VoteHistory :=
  match h.store.veflowLockContract with
  | some _ => { h with store }
  | none => { h with
    store
    casts := ⟨actionId, caster, env.auth caster, h.store.voteDelegate⟩ :: h.casts }

/-- A call together with the environment it runs in. -/
abbrev VoteStep (here : Address) := VoteEnv here × VoteCall

def voteStep {here : Address} (i : VoteStep here) (h : VoteHistory) :
    Except OracleFault VoteHistory :=
  match i.2 with
  | .proposeAction admin actionType target data => do
    let (actionId, store) ← proposeAction i.1 admin actionType target data h.store
    pure (h.record i.1 actionId admin store)
  | .setVeflowGovernance admin lockContract circulatingSupply => do
    let store ← setVeflowGovernance i.1 admin lockContract circulatingSupply h.store
    pure { h with store }
  | .voteForAction voter actionId => do
    let (_, store) ← voteForAction i.1 voter actionId h.store
    pure (h.record i.1 actionId voter store)
  | .voteAgainstAction voter actionId => do
    let (_, store) ← voteAgainstAction i.1 voter actionId h.store
    pure { h with store }
  | .delegateVote owner delegate => do
    let store ← delegateVote i.1 owner delegate h.store
    pure { h with store }
  | .clearVoteDelegate owner => do
    let store ← clearVoteDelegate i.1 owner h.store
    pure { h with store }
  | .registerAdmin admin1 admin2 newAdmin => do
    let store ← registerAdmin i.1 admin1 admin2 newAdmin h.store
    pure { h with store }
  | .removeAdmin admin1 admin2 adminToRemove => do
    let store ← removeAdmin i.1 admin1 admin2 adminToRemove h.store
    pure { h with store }
  | .cancelProposedAction canceller actionId => do
    let store ← cancelProposedAction i.1 canceller actionId h.store
    pure { h with store }
  | .executeProposedAction executor actionId => do
    let store ← executeProposedAction i.1 executor actionId h.store
    pure { h with store, executions := actionId :: h.executions }
  | .other config =>
    let settings := config.stakes.settings
    let destroyed := settings.destroyed || h.store.settings.destroyed
    pure { h with
      store := { h.store with config }.withSettings { settings with destroyed } }

/-! ## What the votes should be -/

/-- An action that can still be executed or cancelled. -/
def ProposedAction.Open (proposed : ProposedAction) : Prop :=
  proposed.executed = false ∧ proposed.cancelled = false

instance (proposed : ProposedAction) : Decidable proposed.Open := by
  unfold ProposedAction.Open
  infer_instance

/-- The vote counts for the voter: its own, or the one of the delegate that it had. -/
def CastVote.CountsFor (c : CastVote) (actionId : ℕ) (voter : Address) : Prop :=
  c.actionId = actionId ∧ c.signed = true ∧
    (c.caster = voter ∨ c.voteDelegate.lookup voter = some c.caster)

/-- The voters of an action are different, each has cast a vote, and their weight reaches the
threshold. -/
structure Supported (h : VoteHistory) (actionId : ℕ) : Prop where
  nodup : (h.store.getActionVotes actionId).Nodup
  cast : ∀ voter ∈ h.store.getActionVotes actionId, ∃ c ∈ h.casts, c.CountsFor actionId voter
  reached : ∃ threshold, h.store.getRequiredThreshold = .ok threshold ∧
    threshold ≤ ((h.store.getActionVotes actionId).map h.store.getAdminWeight).sum
  quorum : h.store.getMinQuorumThreshold ≤ (h.store.getActionVotes actionId).length

def ExecutionsSupported {here : Address} (h : VoteHistory) (i : VoteStep here) : Prop :=
  ∀ executor actionId, i.2 = .executeProposedAction executor actionId →
    (∃ h', voteStep i h = .ok h') → Supported h actionId

/-- Whoever is counted at an execution is an admin. -/
def VotersAuthorized {here : Address} (h : VoteHistory) (i : VoteStep here) : Prop :=
  ∀ executor actionId, i.2 = .executeProposedAction executor actionId →
    (∃ h', voteStep i h = .ok h') → ∀ voter ∈ h.store.getActionVotes actionId,
      h.store.settings.isAuthorized voter = true

/-- No action is executed twice. -/
def ExecutedOnce (h : VoteHistory) : Prop := h.executions.Nodup

/-- A side that is recorded under veFLOW has enough voters, and nobody is on the other. -/
def VeflowApproved (s : VoteStore) (actionId : ℕ) : Prop :=
  s.veflowLockContract.isSome = true ∧
    s.getMinQuorumThreshold ≤ (s.getSideVotes true actionId).length ∧
    s.getSideVotes false actionId = []

/-- An approved open action is performed whenever an admin executes it. -/
def VeflowExecutable (here : Address) (h : VoteHistory) : Prop :=
  ∀ actionId proposed, h.store.proposedAction.lookup actionId = some proposed → proposed.Open →
    VeflowApproved h.store actionId → ∀ (env : VoteEnv here) (executor : Address),
      requireOpenAdmin env executor h.store = .ok () →
        executeProposedAction env executor actionId h.store =
          completeAction env executor actionId proposed h.store

/-- Somebody could execute actions. -/
def Executable (here : Address) (s : VoteStore) : Prop :=
  s.settings.destroyed = false ∧ s.settings.frozen = false ∧
    ∃ executor, executor ≠ here ∧ s.settings.isAuthorized executor = true

/-- An approved open action also has enough votes of the kind that is counted. -/
def VeflowVotesCounted (here : Address) (h : VoteHistory) : Prop :=
  Executable here h.store → ∀ actionId proposed,
    h.store.proposedAction.lookup actionId = some proposed → proposed.Open →
      VeflowApproved h.store actionId →
        h.store.getMinQuorumThreshold ≤ (h.store.getActionVotes actionId).length ∧
          ∃ threshold, h.store.getRequiredThreshold = .ok threshold ∧
            h.store.hasReachedThreshold actionId threshold = true

/-- Who votes in a call. -/
def VoteCall.voter : VoteCall → Option Address
  | .proposeAction admin _ _ _ => some admin
  | .voteForAction voter _ => some voter
  | _ => none

/-- A vote speaks for authorised admins only. -/
def SpeaksForAdmins {here : Address} (h : VoteHistory) (i : VoteStep here) : Prop :=
  ∀ voter, i.2.voter = some voter → (∃ h', voteStep i h = .ok h') →
    h.store.veflowLockContract = none →
      ∀ admin ∈ representedBy (h.store.settings.admins.getD []) h.store.voteDelegate voter,
        h.store.settings.isAuthorized admin = true

/-- No voter of an action that stays open loses its authorisation, unless the contract is
destroyed. -/
def KeepsVoters {here : Address} (h : VoteHistory) (i : VoteStep here) : Prop :=
  ∀ h', voteStep i h = .ok h' → h'.store.settings.destroyed = false →
    ∀ actionId proposed, h'.store.proposedAction.lookup actionId = some proposed → proposed.Open →
      ∀ voter ∈ h.store.getActionVotes actionId, h.store.settings.isAuthorized voter = true →
        h'.store.settings.isAuthorized voter = true

/-! ## What an accepted call does -/

section Specs

variable {here : Address} {env : VoteEnv here} {s s' : VoteStore} {actionId : ℕ}

theorem openAction_eq_ok {proposed : ProposedAction} (h : s.openAction actionId = .ok proposed) :
    s.proposedAction.lookup actionId = some proposed ∧ proposed.Open := by
  simp only [VoteStore.openAction, bind_eq_ok, okOr_eq_ok, failIf_eq_ok, pure_eq_ok,
    Bool.not_eq_true] at h
  obtain ⟨_, hlookup, _, hexecuted, _, hcancelled, rfl⟩ := h
  exact ⟨hlookup, hexecuted, hcancelled⟩

theorem openAction_of_open {proposed : ProposedAction}
    (hlookup : s.proposedAction.lookup actionId = some proposed) (hopen : proposed.Open) :
    s.openAction actionId = .ok proposed := by
  simp only [VoteStore.openAction, bind_eq_ok, okOr_eq_ok, failIf_eq_ok, pure_eq_ok,
    Bool.not_eq_true]
  exact ⟨proposed, hlookup, (), hopen.1, (), hopen.2, rfl⟩

/-- The voters after a vote. -/
def VoteStore.votesAfter (s : VoteStore) (actionId : ℕ) (voter : Address) : List Address :=
  (representedBy (s.settings.admins.getD []) s.voteDelegate voter).foldl addVoter
    (s.getActionVotes actionId)

theorem addEffectiveActionVotes_eq_ok {voter : Address} {count : ℕ}
    (h : addEffectiveActionVotes actionId voter s = .ok (count, s')) :
    s' = { s with
      actionVotes := s.actionVotes.insert actionId (s.votesAfter actionId voter) } := by
  simp only [addEffectiveActionVotes, OracleSettings.getAdmin, bind_eq_ok, okOr_eq_ok, pure_eq_ok,
    Prod.mk.injEq] at h
  obtain ⟨admins, hadmins, _, rfl⟩ := h
  rw [VoteStore.votesAfter, hadmins]
  rfl

theorem requireSignedAdmin_eq_ok {admin : Address} {r : Unit} :
    requireSignedAdmin env admin s = .ok r ↔
      env.auth admin = true ∧ s.settings.isAuthorized admin = true := by
  simp [requireSignedAdmin, OracleSettings.requireAuthorized, bind_eq_ok]

theorem requireOpenAdmin_eq_ok {admin : Address} {r : Unit} :
    requireOpenAdmin env admin s = .ok r ↔ s.settings.destroyed = false ∧
      s.settings.frozen = false ∧ env.auth admin = true ∧
        s.settings.isAuthorized admin = true := by
  simp [requireOpenAdmin, OracleSettings.requireNotDestroyed, OracleSettings.requireNotFrozen,
    bind_eq_ok, requireSignedAdmin_eq_ok]

theorem proposeAction_eq_ok {admin : Address} {actionType : ℕ} {target : Option Address}
    {data : List Char} (h : proposeAction env admin actionType target data s = .ok (actionId, s')) :
    env.auth admin = true ∧ actionId = s.actionIdCounter + 1 ∧
      ∃ proposed : ProposedAction, proposed.Open ∧
        (s.veflowLockContract.isSome = true ∧ s' = { s with
            actionIdCounter := actionId
            proposedAction := s.proposedAction.insert actionId proposed } ∨
          s.veflowLockContract = none ∧ s' = { s with
            actionIdCounter := actionId
            proposedAction := s.proposedAction.insert actionId proposed
            actionVotes := s.actionVotes.insert actionId (s.votesAfter actionId admin) }) := by
  simp only [proposeAction, bind_eq_ok, okOr_eq_ok, checkBits_eq_some] at h
  obtain ⟨_, hadmin, actionType, _, _, ⟨_, rfl⟩, h⟩ := h
  have hauth := (requireOpenAdmin_eq_ok.mp hadmin).2.2.1
  cases hlock : s.veflowLockContract with
  | some lockContract =>
    simp only [hlock, pure_eq_ok, Prod.mk.injEq] at h
    obtain ⟨rfl, rfl⟩ := h
    exact ⟨hauth, rfl, _, ⟨rfl, rfl⟩, .inl ⟨rfl, rfl⟩⟩
  | none =>
    simp only [hlock, bind_eq_ok, pure_eq_ok, Prod.mk.injEq] at h
    obtain ⟨⟨_, store⟩, hvotes, rfl, rfl⟩ := h
    obtain rfl := addEffectiveActionVotes_eq_ok hvotes
    exact ⟨hauth, rfl, _, ⟨rfl, rfl⟩, .inr ⟨rfl, rfl⟩⟩

theorem recordVote_eq_ok {voter : Address} {affirmative : Bool} {count : ℕ}
    (h : recordVote env voter actionId affirmative s = .ok (count, s')) :
    ∃ sideVotes sideWeight actionVoteWeight,
      s' = { s with sideVotes, sideWeight, actionVoteWeight } := by
  simp only [recordVote, bind_eq_ok, pure_eq_ok, Prod.mk.injEq] at h
  obtain ⟨_, _, _, _, _, _, _, _, _, rfl⟩ := h
  exact ⟨_, _, _, rfl⟩

theorem voteForAction_eq_ok {voter : Address} {count : ℕ}
    (h : voteForAction env voter actionId s = .ok (count, s')) :
    env.auth voter = true ∧
      (s.veflowLockContract.isSome = true ∧ (∃ sideVotes sideWeight actionVoteWeight,
          s' = { s with sideVotes, sideWeight, actionVoteWeight }) ∨
        s.veflowLockContract = none ∧
          (∃ proposed, s.proposedAction.lookup actionId = some proposed) ∧ s' = { s with
            actionVotes := s.actionVotes.insert actionId (s.votesAfter actionId voter) }) := by
  simp only [voteForAction, bind_eq_ok, hostCall_eq_ok, Env.requireAuth_eq_ok] at h
  obtain ⟨_, _, _, _, _, hauth, h⟩ := h
  refine ⟨hauth, ?_⟩
  cases hlock : s.veflowLockContract with
  | some lockContract =>
    simp only [hlock, bind_eq_ok] at h
    obtain ⟨_, _, hrecord⟩ := h
    obtain ⟨_, _, _, rfl⟩ := recordVote_eq_ok hrecord
    exact .inl ⟨rfl, _, _, _, by rw [hlock]⟩
  | none =>
    simp only [hlock, bind_eq_ok] at h
    obtain ⟨_, _, _, _, _, hopen, hvotes⟩ := h
    have hstate := addEffectiveActionVotes_eq_ok hvotes
    exact .inr ⟨rfl, ⟨_, (openAction_eq_ok hopen).1⟩, by rw [hstate, hlock]⟩

theorem voteAgainstAction_eq_ok {voter : Address} {count : ℕ}
    (h : voteAgainstAction env voter actionId s = .ok (count, s')) :
    ∃ sideVotes sideWeight actionVoteWeight,
      s' = { s with sideVotes, sideWeight, actionVoteWeight } := by
  simp only [voteAgainstAction, bind_eq_ok] at h
  obtain ⟨_, _, _, _, _, _, hrecord⟩ := h
  exact recordVote_eq_ok hrecord

theorem cancelProposedAction_eq_ok {canceller : Address}
    (h : cancelProposedAction env canceller actionId s = .ok s') :
    ∃ proposed, s.proposedAction.lookup actionId = some proposed ∧ proposed.Open ∧ s' = { s with
      proposedAction := s.proposedAction.insert actionId { proposed with cancelled := true } } := by
  simp only [cancelProposedAction, bind_eq_ok, pure_eq_ok] at h
  obtain ⟨_, _, proposed, hproposed, rfl⟩ := h
  obtain ⟨hlookup, hopen⟩ := openAction_eq_ok hproposed
  exact ⟨proposed, hlookup, hopen, rfl⟩

theorem addAuthorized_destroyed {settings settings' : OracleSettings} {newAdmin : Address}
    (h : settings.addAuthorized newAdmin = .ok settings') :
    settings'.destroyed = settings.destroyed := by
  unfold OracleSettings.addAuthorized at h
  split_ifs at h
  · rw [← pure_eq_ok.mp h]
  · obtain ⟨admins, _, h⟩ := bind_eq_ok.mp h
    rw [← pure_eq_ok.mp h]

/-- An action changes the configuration only, and a destroyed contract stays destroyed. -/
theorem performAction_eq_ok {executor : Address} {proposed : ProposedAction}
    (h : performAction env executor proposed s = .ok s') :
    ∃ config : VoteConfig, s' = { s with config } ∧
      (s.settings.destroyed = true → config.stakes.settings.destroyed = true) := by
  unfold performAction at h
  cases htype : proposed.actionType with
  | togglePause =>
    simp only [htype, pure_eq_ok] at h
    exact ⟨_, h.symm, fun hdestroyed => hdestroyed⟩
  | registerAdmin =>
    simp only [htype, bind_eq_ok, pure_eq_ok] at h
    obtain ⟨newAdmin, _, settings, hadd, rfl⟩ := h
    exact ⟨_, rfl, fun hdestroyed => (addAuthorized_destroyed hadd).trans hdestroyed⟩
  | removeAdmin =>
    simp only [htype, bind_eq_ok, pure_eq_ok] at h
    obtain ⟨_, _, _, _, _, _, rfl⟩ := h
    exact ⟨_, rfl, fun hdestroyed => hdestroyed⟩
  | selfDestruct =>
    simp only [htype, bind_eq_ok, pure_eq_ok] at h
    obtain ⟨_, _, _, _, rfl⟩ := h
    exact ⟨_, rfl, fun _ => rfl⟩
  | upgrade =>
    simp only [htype, bind_eq_ok, pure_eq_ok] at h
    obtain ⟨_, _, _, _, rfl⟩ := h
    exact ⟨_, rfl, fun hdestroyed => hdestroyed⟩
  | slash =>
    simp only [htype, bind_eq_ok, pure_eq_ok] at h
    obtain ⟨_, _, amount, _, stakes, hslash, rfl⟩ := h
    obtain ⟨_, _, providerStake, rfl⟩ := executeSlashInternal_eq_ok hslash
    exact ⟨_, rfl, fun hdestroyed => hdestroyed⟩

theorem executeProposedAction_eq_ok {executor : Address}
    (h : executeProposedAction env executor actionId s = .ok s') :
    s.settings.destroyed = false ∧ s.getMinQuorumThreshold ≤ (s.getActionVotes actionId).length ∧
      (∃ threshold, s.getRequiredThreshold = .ok threshold ∧
        s.hasReachedThreshold actionId threshold = true) ∧
      ∃ proposed config, s.proposedAction.lookup actionId = some proposed ∧ proposed.Open ∧
        (s.settings.destroyed = true → config.stakes.settings.destroyed = true) ∧
        s' = { s with
          config
          proposedAction :=
            s.proposedAction.insert actionId { proposed with executed := true } } := by
  simp only [executeProposedAction, completeAction, bind_eq_ok, failIf_eq_ok, pure_eq_ok, not_lt,
    Bool.not_eq_false] at h
  obtain ⟨_, hadmin, proposed, hproposed, threshold, hthreshold, _, hreached, _, hquorum, _,
    hperform, rfl⟩ := h
  obtain ⟨hlookup, hopen⟩ := openAction_eq_ok hproposed
  obtain ⟨config, rfl, hdestroyed⟩ := performAction_eq_ok hperform
  exact ⟨(requireOpenAdmin_eq_ok.mp hadmin).1, hquorum, ⟨threshold, hthreshold, hreached⟩,
    proposed, config, hlookup, hopen, hdestroyed, rfl⟩

theorem accumulatedWeight_le (voters : List Address) :
    s.accumulatedWeight voters ≤ (voters.map s.getAdminWeight).sum := by
  rw [VoteStore.accumulatedWeight, foldl_eq_min (fun _ _ _ => rfl) voters (Nat.zero_le _),
    Nat.zero_add]
  exact Nat.min_le_right _ _

/-- The weight of the voters reaches the threshold if what was accumulated does. -/
theorem VoteStore.sum_ge_of_reached {threshold : ℕ}
    (hthreshold : s.getRequiredThreshold = .ok threshold)
    (hreached : s.hasReachedThreshold actionId threshold = true) :
    threshold ≤ ((s.getActionVotes actionId).map s.getAdminWeight).sum := by
  refine le_trans ?_ (accumulatedWeight_le _)
  simp only [VoteStore.hasReachedThreshold, decide_eq_true_eq] at hreached
  unfold VoteStore.getRequiredThreshold at hthreshold
  cases hweight : s.config.weightThreshold with
  | none => rwa [hweight] at hreached
  | some weight =>
    rw [hweight] at hreached hthreshold
    obtain rfl := pure_eq_ok.mp hthreshold
    exact hreached

end Specs

/-! ## Lists of voters -/

section Voters

variable {voters admins : List Address} {voteDelegate : Store Address Address}
  {voter admin : Address}

theorem addVoter_nodup (h : voters.Nodup) (voter : Address) : (addVoter voters voter).Nodup := by
  unfold addVoter
  split_ifs with hmem
  · exact h
  · exact h.append (List.nodup_singleton voter) (List.disjoint_singleton.mpr hmem)

theorem mem_addVoter {a : Address} : a ∈ addVoter voters voter ↔ a ∈ voters ∨ a = voter := by
  unfold addVoter
  split_ifs with hmem
  · exact ⟨.inl, fun h => h.elim id fun he => he ▸ hmem⟩
  · rw [List.mem_append, List.mem_singleton]

theorem foldl_addVoter_nodup (h : voters.Nodup) (added : List Address) :
    (added.foldl addVoter voters).Nodup := by
  induction added generalizing voters with
  | nil => exact h
  | cons voter rest ih => exact ih (addVoter_nodup h voter)

theorem mem_foldl_addVoter {a : Address} (added : List Address) :
    a ∈ added.foldl addVoter voters ↔ a ∈ voters ∨ a ∈ added := by
  induction added generalizing voters with
  | nil => simp
  | cons voter rest ih => rw [List.foldl_cons, ih, mem_addVoter, List.mem_cons, or_assoc]

/-- Whoever a voter speaks for is the voter or named it. -/
theorem representedBy_named (h : admin ∈ representedBy admins voteDelegate voter) :
    voter = admin ∨ voteDelegate.lookup admin = some voter := by
  rcases List.mem_append.mp h with hself | hnamed
  · split_ifs at hself
    · exact .inl (List.mem_singleton.mp hself).symm
    · cases hself
  · exact .inr (of_decide_eq_true (List.mem_filter.mp hnamed).2).2

end Voters

/-! ## Calls one at a time -/

/-- No vote was counted. -/
structure Uncounted (h h' : VoteHistory) : Prop where
  votes_eq : h'.store.actionVotes = h.store.actionVotes
  casts_eq : h'.casts = h.casts

/-- A vote was counted for all those that the voter speaks for. -/
structure Counted (h h' : VoteHistory) (call : VoteCall) (actionId : ℕ) (voter : Address) :
    Prop where
  voter_eq : call.voter = some voter
  legacy : h.store.veflowLockContract = none
  votes_eq : h'.store.actionVotes =
    h.store.actionVotes.insert actionId (h.store.votesAfter actionId voter)
  casts_eq : h'.casts = ⟨actionId, voter, true, h.store.voteDelegate⟩ :: h.casts
  settings_eq : h'.store.settings = h.store.settings

/-- What an accepted call does to actions and their votes. -/
inductive Moved (h h' : VoteHistory) (call : VoteCall) : Prop
  | kept (hproposed : h'.store.proposedAction = h.store.proposedAction)
      (hcounter : h'.store.actionIdCounter = h.store.actionIdCounter)
      (hexecutions : h'.executions = h.executions) (hvotes : Uncounted h h')
  | voted (actionId : ℕ) (voter : Address)
      (hsome : ∃ proposed, h.store.proposedAction.lookup actionId = some proposed)
      (hproposed : h'.store.proposedAction = h.store.proposedAction)
      (hcounter : h'.store.actionIdCounter = h.store.actionIdCounter)
      (hexecutions : h'.executions = h.executions) (hvotes : Counted h h' call actionId voter)
  | opened (actionId : ℕ) (proposed : ProposedAction)
      (hid : actionId = h.store.actionIdCounter + 1) (hopen : proposed.Open)
      (hproposed : h'.store.proposedAction = h.store.proposedAction.insert actionId proposed)
      (hcounter : h'.store.actionIdCounter = actionId)
      (hexecutions : h'.executions = h.executions)
      (hvotes : Uncounted h h' ∨ ∃ voter, Counted h h' call actionId voter)
  | closed (actionId : ℕ) (proposed closedAction : ProposedAction)
      (hlookup : h.store.proposedAction.lookup actionId = some proposed) (hopen : proposed.Open)
      (hclosed : ¬ closedAction.Open)
      (hproposed : h'.store.proposedAction = h.store.proposedAction.insert actionId closedAction)
      (hcounter : h'.store.actionIdCounter = h.store.actionIdCounter) (hvotes : Uncounted h h')
      (hexecutions : h'.executions = h.executions ∨
        closedAction.executed = true ∧ h'.executions = actionId :: h.executions)

section Steps

variable {here : Address} {h h' : VoteHistory} {i : VoteStep here} {env : VoteEnv here}
  {actionId : ℕ} {voter : Address}

theorem VoteHistory.record_of_veflow {store : VoteStore}
    (hlock : h.store.veflowLockContract.isSome = true) :
    h.record env actionId voter store = { h with store } := by
  obtain ⟨lockContract, hlock⟩ := Option.isSome_iff_exists.mp hlock
  rw [VoteHistory.record, hlock]

theorem VoteHistory.record_of_legacy {store : VoteStore}
    (hlock : h.store.veflowLockContract = none) (hauth : env.auth voter = true) :
    h.record env actionId voter store = { h with
      store, casts := ⟨actionId, voter, true, h.store.voteDelegate⟩ :: h.casts } := by
  rw [VoteHistory.record, hlock, hauth]

theorem voteStep_moved (hok : voteStep i h = .ok h') : Moved h h' i.2 := by
  obtain ⟨env, call⟩ := i
  cases call with
  | proposeAction admin actionType target data =>
    obtain ⟨⟨id, store⟩, hcall, hok⟩ := bind_eq_ok.mp hok
    obtain rfl := pure_eq_ok.mp hok
    obtain ⟨hauth, hid, proposed, hopen, ⟨hlock, rfl⟩ | ⟨hlock, rfl⟩⟩ := proposeAction_eq_ok hcall
    · rw [VoteHistory.record_of_veflow hlock]
      exact .opened id proposed hid hopen rfl rfl rfl (.inl ⟨rfl, rfl⟩)
    · rw [VoteHistory.record_of_legacy hlock hauth]
      exact .opened id proposed hid hopen rfl rfl rfl (.inr ⟨admin, rfl, hlock, rfl, rfl, rfl⟩)
  | setVeflowGovernance admin lockContract circulatingSupply =>
    obtain ⟨store, hcall, hok⟩ := bind_eq_ok.mp hok
    obtain rfl := pure_eq_ok.mp hok
    obtain ⟨_, _, hcall⟩ := bind_eq_ok.mp hcall
    obtain ⟨_, _, hcall⟩ := bind_eq_ok.mp hcall
    obtain rfl := pure_eq_ok.mp hcall
    exact .kept rfl rfl rfl ⟨rfl, rfl⟩
  | voteForAction voter id =>
    obtain ⟨⟨count, store⟩, hcall, hok⟩ := bind_eq_ok.mp hok
    obtain rfl := pure_eq_ok.mp hok
    obtain ⟨hauth, ⟨hlock, _, _, _, rfl⟩ | ⟨hlock, hsome, rfl⟩⟩ := voteForAction_eq_ok hcall
    · rw [VoteHistory.record_of_veflow hlock]
      exact .kept rfl rfl rfl ⟨rfl, rfl⟩
    · rw [VoteHistory.record_of_legacy hlock hauth]
      exact .voted id voter hsome rfl rfl rfl ⟨rfl, hlock, rfl, rfl, rfl⟩
  | voteAgainstAction voter id =>
    obtain ⟨⟨count, store⟩, hcall, hok⟩ := bind_eq_ok.mp hok
    obtain rfl := pure_eq_ok.mp hok
    obtain ⟨_, _, _, rfl⟩ := voteAgainstAction_eq_ok hcall
    exact .kept rfl rfl rfl ⟨rfl, rfl⟩
  | delegateVote owner delegate =>
    obtain ⟨store, hcall, hok⟩ := bind_eq_ok.mp hok
    obtain rfl := pure_eq_ok.mp hok
    simp only [delegateVote, bind_eq_ok, pure_eq_ok] at hcall
    obtain ⟨_, _, _, _, _, _, rfl⟩ := hcall
    exact .kept rfl rfl rfl ⟨rfl, rfl⟩
  | clearVoteDelegate owner =>
    obtain ⟨store, hcall, hok⟩ := bind_eq_ok.mp hok
    obtain rfl := pure_eq_ok.mp hok
    obtain ⟨_, _, hcall⟩ := bind_eq_ok.mp hcall
    obtain rfl := pure_eq_ok.mp hcall
    exact .kept rfl rfl rfl ⟨rfl, rfl⟩
  | registerAdmin admin1 admin2 newAdmin =>
    obtain ⟨store, hcall, hok⟩ := bind_eq_ok.mp hok
    obtain rfl := pure_eq_ok.mp hok
    simp only [registerAdmin, bind_eq_ok, pure_eq_ok] at hcall
    obtain ⟨_, _, _, _, _, _, rfl⟩ := hcall
    exact .kept rfl rfl rfl ⟨rfl, rfl⟩
  | removeAdmin admin1 admin2 adminToRemove =>
    obtain ⟨store, hcall, hok⟩ := bind_eq_ok.mp hok
    obtain rfl := pure_eq_ok.mp hok
    simp only [removeAdmin, bind_eq_ok, pure_eq_ok] at hcall
    obtain ⟨_, _, _, _, _, _, rfl⟩ := hcall
    exact .kept rfl rfl rfl ⟨rfl, rfl⟩
  | cancelProposedAction canceller id =>
    obtain ⟨store, hcall, hok⟩ := bind_eq_ok.mp hok
    obtain rfl := pure_eq_ok.mp hok
    obtain ⟨proposed, hlookup, hopen, rfl⟩ := cancelProposedAction_eq_ok hcall
    exact .closed id proposed _ hlookup hopen (fun hc => Bool.noConfusion hc.2) rfl rfl ⟨rfl, rfl⟩
      (.inl rfl)
  | executeProposedAction executor id =>
    obtain ⟨store, hcall, hok⟩ := bind_eq_ok.mp hok
    obtain rfl := pure_eq_ok.mp hok
    obtain ⟨_, _, _, proposed, config, hlookup, hopen, _, rfl⟩ := executeProposedAction_eq_ok hcall
    exact .closed id proposed _ hlookup hopen (fun hc => Bool.noConfusion hc.1) rfl rfl ⟨rfl, rfl⟩
      (.inr ⟨rfl, rfl⟩)
  | other config =>
    obtain rfl := pure_eq_ok.mp hok
    exact .kept rfl rfl rfl ⟨rfl, rfl⟩

/-- Actions without a number have no votes, voters are different and have cast a vote, and
executed actions are marked. -/
structure Tracked (h : VoteHistory) : Prop where
  fresh : ∀ actionId, h.store.actionIdCounter < actionId →
    h.store.getActionVotes actionId = [] ∧ h.store.proposedAction.lookup actionId = none
  nodup : ∀ actionId, (h.store.getActionVotes actionId).Nodup
  cast : ∀ actionId, ∀ voter ∈ h.store.getActionVotes actionId,
    ∃ c ∈ h.casts, c.CountsFor actionId voter
  once : ExecutedOnce h
  executed : ∀ actionId ∈ h.executions, ∃ proposed,
    h.store.proposedAction.lookup actionId = some proposed ∧ proposed.executed = true

theorem Tracked.deployed (tokens : Tokens) : Tracked (.deployed tokens) where
  fresh _ _ := ⟨rfl, rfl⟩
  nodup _ := List.nodup_nil
  cast _ _ hmem := absurd hmem List.not_mem_nil
  once := List.nodup_nil
  executed _ hmem := absurd hmem List.not_mem_nil

theorem Uncounted.getActionVotes_eq (hu : Uncounted h h') (actionId : ℕ) :
    h'.store.getActionVotes actionId = h.store.getActionVotes actionId := by
  rw [VoteStore.getActionVotes, hu.votes_eq, VoteStore.getActionVotes]

theorem Counted.getActionVotes_eq {call : VoteCall} (hc : Counted h h' call actionId voter)
    (other : ℕ) : h'.store.getActionVotes other =
      if other = actionId then h.store.votesAfter actionId voter
      else h.store.getActionVotes other := by
  rw [VoteStore.getActionVotes, hc.votes_eq, Store.lookup_insert_ite]
  split_ifs <;> rfl

theorem Moved.votes {call : VoteCall} (hm : Moved h h' call) :
    Uncounted h h' ∨ ∃ actionId voter, Counted h h' call actionId voter := by
  cases hm with
  | kept _ _ _ hvotes => exact .inl hvotes
  | voted actionId voter _ _ _ _ hvotes => exact .inr ⟨actionId, voter, hvotes⟩
  | opened actionId _ _ _ _ _ _ hvotes =>
    exact hvotes.imp_right fun ⟨voter, hcounted⟩ => ⟨actionId, voter, hcounted⟩
  | closed _ _ _ _ _ _ _ _ hvotes _ => exact .inl hvotes

theorem Tracked.nodup_of_votes (ht : Tracked h) {call : VoteCall}
    (hv : Uncounted h h' ∨ ∃ actionId voter, Counted h h' call actionId voter) (other : ℕ) :
    (h'.store.getActionVotes other).Nodup := by
  obtain hu | ⟨actionId, voter, hc⟩ := hv
  · rw [hu.getActionVotes_eq]
    exact ht.nodup other
  · rw [hc.getActionVotes_eq]
    split_ifs
    · exact foldl_addVoter_nodup (ht.nodup actionId) _
    · exact ht.nodup other

theorem Tracked.cast_of_votes (ht : Tracked h) {call : VoteCall}
    (hv : Uncounted h h' ∨ ∃ actionId voter, Counted h h' call actionId voter) (other : ℕ)
    (a : Address) (hmem : a ∈ h'.store.getActionVotes other) :
    ∃ c ∈ h'.casts, c.CountsFor other a := by
  obtain hu | ⟨actionId, voter, hc⟩ := hv
  · rw [hu.getActionVotes_eq] at hmem
    rw [hu.casts_eq]
    exact ht.cast other a hmem
  · have hold (hbefore : a ∈ h.store.getActionVotes other) :
        ∃ c ∈ h'.casts, c.CountsFor other a := by
      obtain ⟨c, hcast, hcounts⟩ := ht.cast other a hbefore
      rw [hc.casts_eq]
      exact ⟨c, List.mem_cons_of_mem _ hcast, hcounts⟩
    rw [hc.getActionVotes_eq] at hmem
    split_ifs at hmem with hother
    · subst hother
      obtain hbefore | hnew := (mem_foldl_addVoter _).mp hmem
      · exact hold hbefore
      · rw [hc.casts_eq]
        exact ⟨_, List.mem_cons_self, rfl, rfl, representedBy_named hnew⟩
    · exact hold hmem

/-- The number of an action that exists was given out. -/
theorem Tracked.le_counter (ht : Tracked h) {proposed : ProposedAction}
    (hlookup : h.store.proposedAction.lookup actionId = some proposed) :
    actionId ≤ h.store.actionIdCounter := by
  by_contra hlt
  rw [(ht.fresh actionId (not_le.mp hlt)).2] at hlookup
  cases hlookup

theorem Tracked.fresh_of_moved (ht : Tracked h) {call : VoteCall} (hm : Moved h h' call)
    (other : ℕ) (hlt : h'.store.actionIdCounter < other) :
    h'.store.getActionVotes other = [] ∧ h'.store.proposedAction.lookup other = none := by
  cases hm with
  | kept hproposed hcounter _ hvotes =>
    rw [hvotes.getActionVotes_eq, hproposed]
    exact ht.fresh other (hcounter ▸ hlt)
  | voted actionId voter hsome hproposed hcounter _ hvotes =>
    obtain ⟨proposed, hlookup⟩ := hsome
    rw [hcounter] at hlt
    have hne : other ≠ actionId := ((ht.le_counter hlookup).trans_lt hlt).ne'
    rw [hvotes.getActionVotes_eq, if_neg hne, hproposed]
    exact ht.fresh other hlt
  | opened actionId proposed hid _ hproposed hcounter _ hvotes =>
    rw [hcounter] at hlt
    have hbefore := ht.fresh other (by omega)
    rw [hproposed, Finmap.lookup_insert_of_ne _ hlt.ne']
    refine ⟨?_, hbefore.2⟩
    obtain hu | ⟨voter, hc⟩ := hvotes
    · rw [hu.getActionVotes_eq, hbefore.1]
    · rw [hc.getActionVotes_eq, if_neg hlt.ne', hbefore.1]
  | closed actionId proposed closedAction hlookup _ _ hproposed hcounter hvotes _ =>
    rw [hcounter] at hlt
    have hne : other ≠ actionId := ((ht.le_counter hlookup).trans_lt hlt).ne'
    rw [hvotes.getActionVotes_eq, hproposed, Finmap.lookup_insert_of_ne _ hne]
    exact ht.fresh other hlt

theorem Tracked.not_executed (ht : Tracked h) {proposed : ProposedAction}
    (hlookup : h.store.proposedAction.lookup actionId = some proposed) (hopen : proposed.Open) :
    actionId ∉ h.executions := by
  intro hmem
  obtain ⟨marked, hmarked, hexecuted⟩ := ht.executed actionId hmem
  obtain rfl : proposed = marked := Option.some.inj (hlookup.symm.trans hmarked)
  rw [hopen.1] at hexecuted
  cases hexecuted

theorem Tracked.executions_of_moved (ht : Tracked h) {call : VoteCall} (hm : Moved h h' call) :
    ExecutedOnce h' ∧ ∀ actionId ∈ h'.executions, ∃ proposed,
      h'.store.proposedAction.lookup actionId = some proposed ∧ proposed.executed = true := by
  unfold ExecutedOnce
  cases hm with
  | kept hproposed _ hexecutions _ =>
    rw [hexecutions, hproposed]
    exact ⟨ht.once, ht.executed⟩
  | voted _ _ _ hproposed _ hexecutions _ =>
    rw [hexecutions, hproposed]
    exact ⟨ht.once, ht.executed⟩
  | opened actionId proposed hid _ hproposed _ hexecutions _ =>
    rw [hexecutions, hproposed]
    refine ⟨ht.once, fun other hmem => ?_⟩
    obtain ⟨marked, hmarked, hexecuted⟩ := ht.executed other hmem
    have hle := ht.le_counter hmarked
    exact ⟨marked, (Finmap.lookup_insert_of_ne _ (by omega)).trans hmarked, hexecuted⟩
  | closed actionId proposed closedAction hlookup hopen _ hproposed _ _ hexecutions =>
    have hnot := ht.not_executed hlookup hopen
    have hold (other : ℕ) (hmem : other ∈ h.executions) : ∃ proposed,
        h'.store.proposedAction.lookup other = some proposed ∧ proposed.executed = true := by
      obtain ⟨marked, hmarked, hexecuted⟩ := ht.executed other hmem
      have hne : other ≠ actionId := fun heq => hnot (heq ▸ hmem)
      rw [hproposed]
      exact ⟨marked, (Finmap.lookup_insert_of_ne _ hne).trans hmarked, hexecuted⟩
    obtain hsame | ⟨hexecuted, hcons⟩ := hexecutions
    · rw [hsame]
      exact ⟨ht.once, hold⟩
    · rw [hcons]
      refine ⟨List.nodup_cons.mpr ⟨hnot, ht.once⟩, List.forall_mem_cons.mpr ⟨?_, hold⟩⟩
      rw [hproposed]
      exact ⟨closedAction, Finmap.lookup_insert _, hexecuted⟩

theorem voteStep_tracked (ht : Tracked h) (hok : voteStep i h = .ok h') : Tracked h' := by
  have hm := voteStep_moved hok
  obtain ⟨honce, hexecuted⟩ := ht.executions_of_moved hm
  exact ⟨ht.fresh_of_moved hm, ht.nodup_of_votes hm.votes, ht.cast_of_votes hm.votes, honce,
    hexecuted⟩

theorem Tracked.supported (ht : Tracked h) : ExecutionsSupported h i := by
  obtain ⟨env, call⟩ := i
  rintro executor actionId rfl ⟨h', hok⟩
  obtain ⟨store, hcall, _⟩ := bind_eq_ok.mp hok
  obtain ⟨_, hquorum, ⟨threshold, hthreshold, hreached⟩, _⟩ := executeProposedAction_eq_ok hcall
  exact ⟨ht.nodup actionId, ht.cast actionId,
    ⟨threshold, hthreshold, VoteStore.sum_ge_of_reached hthreshold hreached⟩, hquorum⟩

/-- A destroyed contract stays destroyed. -/
theorem voteStep_destroyed (hdestroyed : h.store.settings.destroyed = true)
    (hok : voteStep i h = .ok h') : h'.store.settings.destroyed = true := by
  obtain ⟨env, call⟩ := i
  cases call with
  | proposeAction admin actionType target data =>
    obtain ⟨⟨id, store⟩, hcall, hok⟩ := bind_eq_ok.mp hok
    obtain rfl := pure_eq_ok.mp hok
    obtain ⟨hauth, _, _, _, ⟨hlock, rfl⟩ | ⟨hlock, rfl⟩⟩ := proposeAction_eq_ok hcall
    · rwa [VoteHistory.record_of_veflow hlock]
    · rwa [VoteHistory.record_of_legacy hlock hauth]
  | setVeflowGovernance admin lockContract circulatingSupply =>
    obtain ⟨store, hcall, hok⟩ := bind_eq_ok.mp hok
    obtain rfl := pure_eq_ok.mp hok
    obtain ⟨_, _, hcall⟩ := bind_eq_ok.mp hcall
    obtain ⟨_, _, hcall⟩ := bind_eq_ok.mp hcall
    obtain rfl := pure_eq_ok.mp hcall
    exact hdestroyed
  | voteForAction voter id =>
    obtain ⟨⟨count, store⟩, hcall, hok⟩ := bind_eq_ok.mp hok
    obtain rfl := pure_eq_ok.mp hok
    obtain ⟨hauth, ⟨hlock, _, _, _, rfl⟩ | ⟨hlock, _, rfl⟩⟩ := voteForAction_eq_ok hcall
    · rwa [VoteHistory.record_of_veflow hlock]
    · rwa [VoteHistory.record_of_legacy hlock hauth]
  | voteAgainstAction voter id =>
    obtain ⟨⟨count, store⟩, hcall, hok⟩ := bind_eq_ok.mp hok
    obtain rfl := pure_eq_ok.mp hok
    obtain ⟨_, _, _, rfl⟩ := voteAgainstAction_eq_ok hcall
    exact hdestroyed
  | delegateVote owner delegate =>
    obtain ⟨store, hcall, hok⟩ := bind_eq_ok.mp hok
    obtain rfl := pure_eq_ok.mp hok
    simp only [delegateVote, bind_eq_ok, pure_eq_ok] at hcall
    obtain ⟨_, _, _, _, _, _, rfl⟩ := hcall
    exact hdestroyed
  | clearVoteDelegate owner =>
    obtain ⟨store, hcall, hok⟩ := bind_eq_ok.mp hok
    obtain rfl := pure_eq_ok.mp hok
    obtain ⟨_, _, hcall⟩ := bind_eq_ok.mp hcall
    obtain rfl := pure_eq_ok.mp hcall
    exact hdestroyed
  | registerAdmin admin1 admin2 newAdmin =>
    obtain ⟨store, hcall, hok⟩ := bind_eq_ok.mp hok
    obtain rfl := pure_eq_ok.mp hok
    simp only [registerAdmin, bind_eq_ok, pure_eq_ok] at hcall
    obtain ⟨_, _, _, _, settings, hadd, rfl⟩ := hcall
    exact (addAuthorized_destroyed hadd).trans hdestroyed
  | removeAdmin admin1 admin2 adminToRemove =>
    obtain ⟨store, hcall, hok⟩ := bind_eq_ok.mp hok
    obtain rfl := pure_eq_ok.mp hok
    simp only [removeAdmin, bind_eq_ok, pure_eq_ok] at hcall
    obtain ⟨_, _, _, _, _, _, rfl⟩ := hcall
    exact hdestroyed
  | cancelProposedAction canceller id =>
    obtain ⟨store, hcall, hok⟩ := bind_eq_ok.mp hok
    obtain rfl := pure_eq_ok.mp hok
    obtain ⟨_, _, _, rfl⟩ := cancelProposedAction_eq_ok hcall
    exact hdestroyed
  | executeProposedAction executor id =>
    obtain ⟨store, hcall, hok⟩ := bind_eq_ok.mp hok
    obtain rfl := pure_eq_ok.mp hok
    obtain ⟨_, _, _, _, _, _, _, hkeeps, rfl⟩ := executeProposedAction_eq_ok hcall
    exact hkeeps hdestroyed
  | other config =>
    obtain rfl := pure_eq_ok.mp hok
    change (config.stakes.settings.destroyed || h.store.settings.destroyed) = true
    rw [hdestroyed, Bool.or_true]

/-- The counted voters of open actions are admins, unless the contract is destroyed. -/
def VotersKnown (h : VoteHistory) : Prop :=
  h.store.settings.destroyed = false → ∀ actionId proposed,
    h.store.proposedAction.lookup actionId = some proposed → proposed.Open →
      ∀ voter ∈ h.store.getActionVotes actionId, h.store.settings.isAuthorized voter = true

/-- An action that is open after a call was open before, or had no votes. -/
theorem Tracked.open_before (ht : Tracked h) {call : VoteCall} (hm : Moved h h' call)
    {proposed : ProposedAction} (hlookup : h'.store.proposedAction.lookup actionId = some proposed)
    (hopen : proposed.Open) : h.store.getActionVotes actionId = [] ∨
      h.store.proposedAction.lookup actionId = some proposed := by
  cases hm with
  | kept hproposed _ _ _ => exact .inr (hproposed ▸ hlookup)
  | voted _ _ _ hproposed _ _ _ => exact .inr (hproposed ▸ hlookup)
  | opened id action hid _ hproposed _ _ _ =>
    rw [hproposed] at hlookup
    obtain ⟨rfl, _⟩ | ⟨_, hold⟩ := Store.lookup_insert_eq_some.mp hlookup
    · exact .inl (ht.fresh actionId (by omega)).1
    · exact .inr hold
  | closed id action closedAction _ _ hclosed hproposed _ _ _ =>
    rw [hproposed] at hlookup
    obtain ⟨_, rfl⟩ | ⟨_, hold⟩ := Store.lookup_insert_eq_some.mp hlookup
    · exact absurd hopen hclosed
    · exact .inr hold

theorem voteStep_votersKnown (ht : Tracked h) (hk : VotersKnown h) (hspeaks : SpeaksForAdmins h i)
    (hkeeps : KeepsVoters h i) (hok : voteStep i h = .ok h') : VotersKnown h' := by
  have hm := voteStep_moved hok
  intro halive id proposed hlookup hopen a hmem
  have hbefore : h.store.settings.destroyed = false := by
    by_contra hdestroyed
    have hdestroyed' := voteStep_destroyed (Bool.not_eq_false _ ▸ hdestroyed) hok
    rw [halive] at hdestroyed'
    cases hdestroyed'
  have hold (hvoted : a ∈ h.store.getActionVotes id) :
      h'.store.settings.isAuthorized a = true := by
    refine hkeeps h' hok halive id proposed hlookup hopen a hvoted ?_
    obtain hnone | hsame := ht.open_before hm hlookup hopen
    · rw [hnone] at hvoted
      cases hvoted
    · exact hk hbefore id proposed hsame hopen a hvoted
  obtain hu | ⟨actionId, voter, hc⟩ := hm.votes
  · rw [hu.getActionVotes_eq] at hmem
    exact hold hmem
  · rw [hc.getActionVotes_eq] at hmem
    split_ifs at hmem with hid
    · subst hid
      obtain hvoted | hnew := (mem_foldl_addVoter _).mp hmem
      · exact hold hvoted
      · rw [hc.settings_eq]
        exact hspeaks voter hc.voter_eq ⟨h', hok⟩ hc.legacy a hnew
    · exact hold hmem

theorem VotersKnown.authorized (hk : VotersKnown h) : VotersAuthorized h i := by
  obtain ⟨env, call⟩ := i
  rintro executor actionId rfl ⟨h', hok⟩
  obtain ⟨store, hcall, _⟩ := bind_eq_ok.mp hok
  obtain ⟨halive, _, _, proposed, _, hlookup, hopen, _⟩ := executeProposedAction_eq_ok hcall
  exact hk halive actionId proposed hlookup hopen

/-- An action fails for reasons of its own. -/
theorem performAction_ne_quorumNotReached {executor : Address} {proposed : ProposedAction}
    {s : VoteStore} :
    performAction env executor proposed s ≠ .error (.error .quorumNotReached) := by
  have hadd (newAdmin : Address) :
      s.settings.addAuthorized newAdmin ≠ .error (.error .quorumNotReached) := by
    unfold OracleSettings.addAuthorized
    split_ifs
    · exact pure_ne_error
    · exact bind_ne_error (by simp [OracleSettings.getAdmin]) fun _ => pure_ne_error
  unfold performAction
  cases proposed.actionType with
  | togglePause => exact pure_ne_error
  | registerAdmin =>
    exact bind_ne_error (by simp) fun newAdmin =>
      bind_ne_error (hadd newAdmin) fun _ => pure_ne_error
  | removeAdmin =>
    exact bind_ne_error (by simp) fun _ =>
      bind_ne_error (by simp [OracleSettings.getAdmin]) fun _ =>
        bind_ne_error (by simp) fun _ => pure_ne_error
  | selfDestruct =>
    exact bind_ne_error (by simp [OracleSettings.getAdmin]) fun _ =>
      bind_ne_error (by simp) fun _ => pure_ne_error
  | upgrade =>
    exact bind_ne_error (by simp) fun _ => bind_ne_error (by simp) fun _ => pure_ne_error
  | slash =>
    have hparse : parseSlashAmount proposed.data ≠ .error (.error .quorumNotReached) :=
      bind_ne_error (by simp) fun _ => by simp
    have hslash (badRelayer : Address) (amount : ℤ) :
        executeSlashInternal env.toEnv executor badRelayer amount s.config.stakes ≠
          .error (.error .quorumNotReached) :=
      bind_ne_error (by simp) fun _ => bind_ne_error (by simp) fun _ =>
        bind_ne_error (by simp) fun _ => pure_ne_error
    exact bind_ne_error (by simp) fun badRelayer => bind_ne_error hparse fun amount =>
      bind_ne_error (hslash badRelayer amount) fun _ => pure_ne_error

theorem exists_threshold {s : VoteStore} {executor : Address}
    (hadmin : s.settings.isAuthorized executor = true) :
    ∃ threshold, s.getRequiredThreshold = .ok threshold := by
  unfold VoteStore.getRequiredThreshold
  cases hweight : s.config.weightThreshold with
  | some weight => exact ⟨weight, rfl⟩
  | none =>
    cases hadmins : s.settings.admins with
    | none => simp [OracleSettings.isAuthorized, hadmins] at hadmin
    | some admins => exact ⟨_, by simp only [OracleSettings.getAdmin, hadmins]; rfl⟩

/-- The checks on the votes of an open action. -/
theorem executeProposedAction_of_open {executor : Address} {s : VoteStore}
    {proposed : ProposedAction} {threshold : ℕ} (hadmin : requireOpenAdmin env executor s = .ok ())
    (hlookup : s.proposedAction.lookup actionId = some proposed) (hopen : proposed.Open)
    (hthreshold : s.getRequiredThreshold = .ok threshold) :
    executeProposedAction env executor actionId s = (do
      failIf (s.hasReachedThreshold actionId threshold = false) (.error .quorumNotReached)
      failIf ((s.getActionVotes actionId).length < s.getMinQuorumThreshold)
        (.error .quorumNotReached)
      completeAction env executor actionId proposed s) := by
  rw [executeProposedAction, hadmin, openAction_of_open hlookup hopen, hthreshold]
  rfl

/-- An approved action is performed exactly when it also has enough votes of the kind that is
counted, or nobody could execute it. -/
theorem veflowExecutable_iff : VeflowExecutable here h ↔ VeflowVotesCounted here h := by
  constructor
  · rintro hexecutable ⟨halive, hfrozen, executor, hne, hadmin⟩ id proposed hlookup hopen happroved
    let env : VoteEnv here :=
      ⟨.standard here 0 none, fun _ _ _ => 0, fun _ _ => true, fun _ => true⟩
    have hsigned : requireOpenAdmin env executor h.store = .ok () :=
      requireOpenAdmin_eq_ok.mpr ⟨halive, hfrozen, decide_eq_true hne, hadmin⟩
    obtain ⟨threshold, hthreshold⟩ := exists_threshold hadmin
    have hperform := hexecutable id proposed hlookup hopen happroved env executor hsigned
    rw [executeProposedAction_of_open hsigned hlookup hopen hthreshold] at hperform
    have hnot (herror : completeAction env executor id proposed h.store =
        .error (.error .quorumNotReached)) : False := by
      obtain hfailed | ⟨_, _, hpure⟩ := bind_eq_error.mp herror
      · exact performAction_ne_quorumNotReached hfailed
      · cases hpure
    refine ⟨?_, threshold, hthreshold, ?_⟩
    · by_contra hlt
      refine hnot (hperform.symm.trans (bind_eq_error.mpr ?_))
      by_cases hreached : h.store.hasReachedThreshold id threshold = false
      · exact .inl (failIf_eq_error.mpr ⟨hreached, rfl⟩)
      · exact .inr ⟨(), failIf_of_not hreached,
          bind_eq_error.mpr (.inl (failIf_eq_error.mpr ⟨not_le.mp hlt, rfl⟩))⟩
    · by_contra hreached
      refine hnot (hperform.symm.trans (bind_eq_error.mpr (.inl ?_)))
      exact failIf_eq_error.mpr ⟨Bool.eq_false_iff.mpr hreached, rfl⟩
  · intro hcounted id proposed hlookup hopen happroved env executor hsigned
    obtain ⟨halive, hfrozen, hauth, hadmin⟩ := requireOpenAdmin_eq_ok.mp hsigned
    obtain ⟨hquorum, threshold, hthreshold, hreached⟩ :=
      hcounted ⟨halive, hfrozen, executor, Env.ne_here_of_auth hauth, hadmin⟩ id proposed hlookup
        hopen happroved
    rw [executeProposedAction_of_open hsigned hlookup hopen hthreshold,
      failIf_of_not (by simp [hreached]), failIf_of_not (not_lt.mpr hquorum)]
    rfl

/-- In every run each execution is supported by its voters and each action is executed at most
once. The voters are admins at every execution if votes speak for authorised admins and no voter
of an open action loses its authorisation. Actions that were approved under veFLOW can be
executed exactly where they also have enough votes of the kind that is counted. -/
theorem executions_reflect_votes (tokens : Tokens) (run : List (VoteStep here)) :
    Throughout voteStep ExecutedOnce (.deployed tokens) run ∧
      Along voteStep ExecutionsSupported (.deployed tokens) run ∧
      (Along voteStep (fun h i => SpeaksForAdmins h i ∧ KeepsVoters h i) (.deployed tokens) run →
        Along voteStep VotersAuthorized (.deployed tokens) run) ∧
      (Throughout voteStep (VeflowExecutable here) (.deployed tokens) run ↔
        Throughout voteStep (VeflowVotesCounted here) (.deployed tokens) run) := by
  have hstep (h : VoteHistory) (i : VoteStep here) (h' : VoteHistory) (ht : Tracked h)
      (hok : voteStep i h = .ok h') : Tracked h' := voteStep_tracked ht hok
  refine ⟨throughout_of_invariant hstep (fun _ ht => ht.once) (Tracked.deployed tokens) run,
    along_of_invariant hstep (fun _ _ ht => ht.supported) (Tracked.deployed tokens) run,
    fun hc => ?_, ?_⟩
  · refine along_of_along (I := fun h => Tracked h ∧ VotersKnown h)
      (fun h i h' hi hc hok => ⟨voteStep_tracked hi.1 hok,
        voteStep_votersKnown hi.1 hi.2 hc.1 hc.2 hok⟩)
      (fun _ _ hi => hi.2.authorized) ⟨Tracked.deployed tokens, ?_⟩ hc
    intro _ _ _ hlookup
    cases hlookup
  · exact ⟨fun ht => ht.imp fun _ => veflowExecutable_iff.mp,
      fun ht => ht.imp fun _ => veflowExecutable_iff.mpr⟩

/-- Authorisation depends on the admins and the revoked keys only. -/
theorem KeepsVoters.of_admins
    (hadmins : (commit voteStep h i).store.settings.admins = h.store.settings.admins)
    (hrevoked : (commit voteStep h i).store.settings.revoked = h.store.settings.revoked) :
    KeepsVoters h i := by
  intro h' hok _ id proposed _ _ voter _ hauthorized
  rw [commit_of_ok hok] at hadmins hrevoked
  rwa [OracleSettings.isAuthorized, OracleSettings.isRevoked, hadmins, hrevoked]

end Steps

/-- Votes of 3 and 4 for every lock contract. -/
def sampleVoteEnv : VoteEnv ⟨0⟩ :=
  ⟨.standard _ 0 none, fun _ voter _ => if voter = ⟨3⟩ ∨ voter = ⟨4⟩ then 10 else 0,
    fun _ _ => true, fun _ => true⟩

def voteCall (call : VoteCall) : VoteStep ⟨0⟩ := (sampleVoteEnv, call)

/-- A contract with the admins 1, 2 and 3. -/
def sampleVoteConfig : VoteConfig :=
  let settings :=
    { OracleSettings.deployed with initialized := true, admins := some [⟨1⟩, ⟨2⟩, ⟨3⟩] }
  { VoteConfig.deployed (fun _ _ => 0) with
    stakes := { StakeStore.deployed (fun _ _ => 0) with settings } }

/-- Admin 2 votes and is removed before the action is executed. -/
def removedVoterRun : List (VoteStep ⟨0⟩) :=
  [voteCall (.other sampleVoteConfig), voteCall (.proposeAction ⟨1⟩ 0 none []),
    voteCall (.voteForAction ⟨2⟩ 1), voteCall (.removeAdmin ⟨1⟩ ⟨3⟩ ⟨2⟩),
    voteCall (.executeProposedAction ⟨1⟩ 1)]

/-- Two voters approve an action by their voting power, and nobody is against it. -/
def veflowRun : List (VoteStep ⟨0⟩) :=
  [voteCall (.other sampleVoteConfig), voteCall (.setVeflowGovernance ⟨1⟩ ⟨8⟩ (units 100)),
    voteCall (.proposeAction ⟨1⟩ 0 none []), voteCall (.voteForAction ⟨3⟩ 1),
    voteCall (.voteForAction ⟨4⟩ 1)]

/-- The vote of the removed admin counts, and the votes by voting power do not. -/
theorem removedVoterRun_unauthorized_veflowRun_stuck :
    let start := VoteHistory.deployed fun _ _ => 0
    (runAll voteStep start removedVoterRun).executions = [1] ∧
      ¬ Along voteStep VotersAuthorized start removedVoterRun ∧
      (runAll voteStep start veflowRun).store.getSideVotes true 1 = [⟨3⟩, ⟨4⟩] ∧
      ¬ Throughout voteStep (VeflowExecutable ⟨0⟩) start veflowRun := by
  intro start
  refine ⟨by decide +kernel, ?_, by decide +kernel, fun ht => ?_⟩
  · intro halong
    let h := runAll voteStep start (removedVoterRun.take 4)
    have hauthorized : VotersAuthorized h (voteCall (.executeProposedAction ⟨1⟩ 1)) :=
      Along.last halong
    have hvoter : ⟨2⟩ ∈ h.store.getActionVotes 1 ∧
        h.store.settings.isAuthorized ⟨2⟩ = false ∧
        (voteStep (voteCall (.executeProposedAction ⟨1⟩ 1)) h).toOption.isSome = true := by
      decide +kernel
    obtain ⟨hmem, hremoved, haccepted⟩ := hvoter
    cases hok : voteStep (voteCall (.executeProposedAction ⟨1⟩ 1)) h with
    | error e =>
      rw [hok] at haccepted
      cases haccepted
    | ok h' => cases hremoved.symm.trans (hauthorized ⟨1⟩ 1 rfl ⟨h', hok⟩ ⟨2⟩ hmem)
  · let h := runAll voteStep start veflowRun
    have hcounted : VeflowVotesCounted ⟨0⟩ h := veflowExecutable_iff.mp ht.last
    have hexecutable : Executable ⟨0⟩ h.store :=
      ⟨by decide +kernel, by decide +kernel, ⟨1⟩, by decide, by decide +kernel⟩
    have happroved : VeflowApproved h.store 1 :=
      ⟨by decide +kernel, by decide +kernel, by decide +kernel⟩
    have hopen : h.store.proposedAction.lookup 1 =
        some ⟨.togglePause, none, [], 0, false, false⟩ := by
      decide +kernel
    have hquorum := (hcounted hexecutable 1 _ hopen ⟨rfl, rfl⟩ happroved).1
    exact absurd hquorum (by decide +kernel)

/-- Three admins, of whom one votes through its delegate. -/
def delegatedRun : List (VoteStep ⟨0⟩) :=
  [voteCall (.other sampleVoteConfig), voteCall (.delegateVote ⟨3⟩ ⟨4⟩),
    voteCall (.proposeAction ⟨1⟩ 0 none []), voteCall (.voteForAction ⟨4⟩ 1),
    voteCall (.executeProposedAction ⟨1⟩ 1)]

theorem delegatedRun_authorized :
    Along voteStep VotersAuthorized (.deployed fun _ _ => 0) delegatedRun := by
  refine (executions_reflect_votes (fun _ _ => 0) delegatedRun).2.2.1
    ⟨⟨?_, ?_⟩, ⟨?_, ?_⟩, ⟨?_, ?_⟩, ⟨?_, ?_⟩, ⟨?_, ?_⟩, trivial⟩
  · intro voter hvoter
    cases hvoter
  · intro _ _ _ _ _ _ _ _ hmem
    cases hmem
  · intro voter hvoter
    cases hvoter
  · exact .of_admins (by decide +kernel) (by decide +kernel)
  · intro voter hvoter _ _
    cases hvoter
    decide +kernel
  · exact .of_admins (by decide +kernel) (by decide +kernel)
  · intro voter hvoter _ _
    cases hvoter
    decide +kernel
  · exact .of_admins (by decide +kernel) (by decide +kernel)
  · intro voter hvoter
    cases hvoter
  · exact .of_admins (by decide +kernel) (by decide +kernel)

end StellarFlow.Votes
