import StellarFlow.Host

/-!
# Executing a proposal before its voting window ends

One proposal at a time collects affirmative weight. Once the weight exceeds three quarters of
the eligible supply and the administrative timelock has run out, anybody may execute it while
the voting window is still open. A voter states the weight of its vote, and the admin may
replace the supply at any time.
-/
namespace StellarFlow.EarlyExecution

open Foundation

def earlyExecutionThresholdBps : ℕ := 7500
def bpsDenominator : ℕ := 10000
/-- Two days, in seconds. -/
def administrativeTimelockSeconds : ℕ := 48 * 60 * 60
def maxVoters : ℕ := 100

inductive EarlyExecutionError
  | alreadyInitialized
  | notInitialized
  | notAdmin
  | zeroEligibleSupply
  | invalidVotingWindow
  | proposalAlreadyActive
  | noActiveProposal
  | proposalAlreadyExecuted
  | votingWindowElapsed
  | thresholdNotMet
  | timelockNotElapsed
  | overflow
  | invalidVoteWeight
  | alreadyVoted
  | tooManyVoters
  deriving DecidableEq, Repr

abbrev Fail := Abort EarlyExecutionError

structure ActiveProposal where
  proposalId : ℕ
  proposer : Address
  openedAt : ℕ
  votingEndsAt : ℕ
  timelockEndsAt : ℕ
  affirmativeWeight : ℕ
  executed : Bool
  early : Bool
  deriving DecidableEq

structure EarlyExecutionOutcome where
  proposalId : ℕ
  affirmativeWeight : ℕ
  totalEligibleSupply : ℕ
  requiredWeight : ℕ
  triggeredAt : ℕ
  bypassedVotingSeconds : ℕ
  timelockEndsAt : ℕ
  deriving DecidableEq

structure Evaluation where
  supply : ℕ
  required : ℕ
  thresholdMet : Bool
  votingWindowRemaining : ℕ
  timelockRemaining : ℕ

/-- Instance storage of the contract. -/
structure EarlyStore where
  admin : Option Address
  eligibleSupply : Option ℕ
  votingWindow : Option ℕ
  nextProposalId : Option ℕ
  proposal : Option ActiveProposal
  voters : Store ℕ (Store Address ℕ)

def EarlyStore.fresh : EarlyStore := ⟨none, none, none, none, none, ∅⟩

def earlyExecutionRequiredWeight (totalEligibleSupply thresholdBps : ℕ) : Except Fail ℕ := do
  let scaled ← okOr (checkBits 128 (totalEligibleSupply * thresholdBps)) (.error .overflow)
  pure (scaled / bpsDenominator)

def exceedsEarlyExecutionThreshold (affirmativeWeight totalEligibleSupply thresholdBps : ℕ) :
    Except Fail Bool := do
  failIf (totalEligibleSupply = 0) (.error .zeroEligibleSupply)
  let required ← earlyExecutionRequiredWeight totalEligibleSupply thresholdBps
  pure (required < affirmativeWeight)

namespace EarlyStore

variable (s : EarlyStore)

def loadAdmin : Except Fail Address := okOr s.admin (.error .notInitialized)

def loadEligibleSupply : Except Fail ℕ := okOr s.eligibleSupply (.error .notInitialized)

def loadVotingWindow : Except Fail ℕ := okOr s.votingWindow (.error .notInitialized)

def loadProposal : Except Fail ActiveProposal := okOr s.proposal (.error .noActiveProposal)

def loadVoters (proposalId : ℕ) : Store Address ℕ := (s.voters.lookup proposalId).getD ∅

end EarlyStore

section Calls

variable {here : Address} (env : Env here)

def evaluate (proposal : ActiveProposal) (s : EarlyStore) : Except Fail Evaluation := do
  let supply ← s.loadEligibleSupply
  let required ← earlyExecutionRequiredWeight supply earlyExecutionThresholdBps
  let thresholdMet ←
    exceedsEarlyExecutionThreshold proposal.affirmativeWeight supply earlyExecutionThresholdBps
  pure ⟨supply, required, thresholdMet, proposal.votingEndsAt - env.timestamp,
    proposal.timelockEndsAt - env.timestamp⟩

def initializeGovernance (admin : Address) (eligibleSupply votingWindowSeconds : ℕ)
    (s : EarlyStore) : Except Fail EarlyStore := do
  failIf (s.admin.isSome = true) (.error .alreadyInitialized)
  failIf (eligibleSupply = 0) (.error .zeroEligibleSupply)
  failIf (votingWindowSeconds ≤ administrativeTimelockSeconds) (.error .invalidVotingWindow)
  hostCall (env.requireAuth admin)
  pure { s with
    admin := some admin, eligibleSupply := some eligibleSupply
    votingWindow := some votingWindowSeconds, nextProposalId := some 1 }

def setEligibleSupply (caller : Address) (eligibleSupply : ℕ) (s : EarlyStore) :
    Except Fail EarlyStore := do
  let admin ← s.loadAdmin
  failIf (caller ≠ admin) (.error .notAdmin)
  failIf (eligibleSupply = 0) (.error .zeroEligibleSupply)
  hostCall (env.requireAuth caller)
  pure { s with eligibleSupply := some eligibleSupply }

/-- Unexecuted and inside its voting window. -/
def ActiveProposal.LiveAt (p : ActiveProposal) (now : ℕ) : Prop :=
  p.executed = false ∧ now < p.votingEndsAt

instance (p : ActiveProposal) (now : ℕ) : Decidable (p.LiveAt now) :=
  inferInstanceAs (Decidable (_ ∧ _))

def openProposal (proposer : Address) (s : EarlyStore) : Except Fail (ℕ × EarlyStore) := do
  let _ ← s.loadAdmin
  hostCall (env.requireAuth proposer)
  failIf (∃ existing ∈ s.proposal, existing.LiveAt env.timestamp) (.error .proposalAlreadyActive)
  let window ← s.loadVotingWindow
  let votingEndsAt ← okOr (checkBits 64 (env.timestamp + window)) (.error .overflow)
  let timelockEndsAt ←
    okOr (checkBits 64 (env.timestamp + administrativeTimelockSeconds)) (.error .overflow)
  let proposalId := s.nextProposalId.getD 1
  let nextProposalId ← okOr (checkBits 64 (proposalId + 1)) .trap
  let proposal : ActiveProposal :=
    { proposalId, proposer, openedAt := env.timestamp, votingEndsAt, timelockEndsAt
      affirmativeWeight := 0, executed := false, early := false }
  pure (proposalId,
    { s with nextProposalId := some nextProposalId, proposal := some proposal })

def castAffirmativeVote (voter : Address) (proposalId weight : ℕ) (s : EarlyStore) :
    Except Fail (ℕ × EarlyStore) := do
  failIf (weight = 0) (.error .invalidVoteWeight)
  hostCall (env.requireAuth voter)
  let proposal ← s.loadProposal
  failIf (proposal.proposalId ≠ proposalId) (.error .noActiveProposal)
  failIf (proposal.executed = true) (.error .proposalAlreadyExecuted)
  failIf (proposal.votingEndsAt ≤ env.timestamp) (.error .votingWindowElapsed)
  let voters := s.loadVoters proposalId
  failIf ((voters.lookup voter).isSome = true) (.error .alreadyVoted)
  failIf (maxVoters ≤ voters.keys.card) (.error .tooManyVoters)
  let total ← okOr (checkBits 128 (proposal.affirmativeWeight + weight)) (.error .overflow)
  pure (total, { s with
    voters := s.voters.insert proposalId (voters.insert voter weight)
    proposal := some { proposal with affirmativeWeight := total } })

def verifyEarlyExecution (proposalId : ℕ) (s : EarlyStore) : Except Fail Unit := do
  let proposal ← s.loadProposal
  failIf (proposal.proposalId ≠ proposalId) (.error .noActiveProposal)
  failIf (proposal.executed = true) (.error .proposalAlreadyExecuted)
  failIf (proposal.votingEndsAt ≤ env.timestamp) (.error .votingWindowElapsed)
  let evaluation ← evaluate env proposal s
  failIf (evaluation.thresholdMet = false) (.error .thresholdNotMet)
  failIf (env.timestamp < proposal.timelockEndsAt) (.error .timelockNotElapsed)

def triggerEarlyExecution (proposalId : ℕ) (s : EarlyStore) :
    Except Fail (EarlyExecutionOutcome × EarlyStore) := do
  verifyEarlyExecution env proposalId s
  let proposal ← s.loadProposal
  let evaluation ← evaluate env proposal s
  let outcome : EarlyExecutionOutcome :=
    { proposalId, affirmativeWeight := proposal.affirmativeWeight
      totalEligibleSupply := evaluation.supply, requiredWeight := evaluation.required
      triggeredAt := env.timestamp, bypassedVotingSeconds := proposal.votingEndsAt - env.timestamp
      timelockEndsAt := proposal.timelockEndsAt }
  pure (outcome, { s with proposal := some { proposal with executed := true, early := true } })

end Calls

inductive EarlyCall
  | initializeGovernance (admin : Address) (eligibleSupply votingWindowSeconds : ℕ)
  | setEligibleSupply (caller : Address) (eligibleSupply : ℕ)
  | openProposal (proposer : Address)
  | castAffirmativeVote (voter : Address) (proposalId weight : ℕ)
  | triggerEarlyExecution (proposalId : ℕ)

/-- The store, the time of the last accepted call, and the identifiers of the proposals opened
and executed so far with their times. -/
structure EarlyHistory where
  store : EarlyStore
  now : ℕ
  opened : List (ℕ × ℕ)
  executions : List (ℕ × ℕ)

def EarlyHistory.fresh (now : ℕ) : EarlyHistory := ⟨.fresh, now, [], []⟩

/-- A call some seconds after the last accepted one. -/
structure EarlyStep (here : Address) where
  elapsed : ℕ
  env : Env here
  call : EarlyCall

def EarlyStep.envAt {here : Address} (i : EarlyStep here) (h : EarlyHistory) : Env here :=
  { i.env with timestamp := h.now + i.elapsed }

def earlyStep {here : Address} (i : EarlyStep here) (h : EarlyHistory) :
    Except Fail EarlyHistory := do
  let now ← okOr (checkBits 64 (h.now + i.elapsed)) .trap
  match i.call with
  | .initializeGovernance admin eligibleSupply votingWindowSeconds =>
    let store ←
      initializeGovernance (i.envAt h) admin eligibleSupply votingWindowSeconds h.store
    pure { h with store, now }
  | .setEligibleSupply caller eligibleSupply =>
    let store ← setEligibleSupply (i.envAt h) caller eligibleSupply h.store
    pure { h with store, now }
  | .openProposal proposer =>
    let (proposalId, store) ← openProposal (i.envAt h) proposer h.store
    pure { h with store, now, opened := (proposalId, now) :: h.opened }
  | .castAffirmativeVote voter proposalId weight =>
    let (_, store) ← castAffirmativeVote (i.envAt h) voter proposalId weight h.store
    pure { h with store, now }
  | .triggerEarlyExecution proposalId =>
    let (_, store) ← triggerEarlyExecution (i.envAt h) proposalId h.store
    pure { h with store, now, executions := (proposalId, now) :: h.executions }

/-! ## What early execution promises -/

/-- Sum of the weights recorded for the voters of a proposal. -/
def EarlyStore.recordedWeight (s : EarlyStore) (proposalId : ℕ) : ℕ :=
  Store.total (fun _ weight => weight) (s.loadVoters proposalId)

/-- The live proposal has no more weight than the eligible supply. -/
def WithinSupply (h : EarlyHistory) : Prop :=
  ∀ p supply, h.store.proposal = some p → p.LiveAt h.now → h.store.eligibleSupply = some supply →
    p.affirmativeWeight ≤ supply

/-- The weight of the stored proposal is that of its voters. Every proposal executes at most
once, after its timelock and inside its window, and a call to verify tells whether it can. -/
structure Faithful (here : Address) (h : EarlyHistory) : Prop where
  weight_eq : ∀ p, h.store.proposal = some p →
    p.affirmativeWeight = h.store.recordedWeight p.proposalId
  once : (h.executions.map Prod.fst).Nodup
  distinct : (h.opened.map Prod.fst).Nodup
  timely : ∀ id time, (id, time) ∈ h.executions → ∃ openedAt window, (id, openedAt) ∈ h.opened ∧
    h.store.votingWindow = some window ∧ openedAt + administrativeTimelockSeconds ≤ time ∧
    time < openedAt + window
  verified : ∀ (env : Env here) id, verifyEarlyExecution env id h.store = .ok () ↔
    ∃ r, triggerEarlyExecution env id h.store = .ok r

/-- An execution leaves less than a quarter of the supply to vote against the proposal. -/
def Unassailable {here : Address} (h : EarlyHistory) (i : EarlyStep here) : Prop :=
  ∀ id, i.call = .triggerEarlyExecution id → (∃ h', earlyStep i h = .ok h') →
    ∃ p supply, h.store.proposal = some p ∧ p.proposalId = id ∧
      h.store.eligibleSupply = some supply ∧ p.affirmativeWeight ≤ supply ∧
      4 * (supply - p.affirmativeWeight) < supply

/-- An accepted vote fits into the supply, and an accepted supply is not below the weight of a
live proposal. -/
def StaysWithin {here : Address} (h : EarlyHistory) (i : EarlyStep here) : Prop :=
  (∃ h', earlyStep i h = .ok h') → ∀ p, h.store.proposal = some p →
    p.LiveAt (h.now + i.elapsed) →
    (∀ voter id weight, i.call = .castAffirmativeVote voter id weight →
      ∀ supply, h.store.eligibleSupply = some supply → p.affirmativeWeight + weight ≤ supply) ∧
    ∀ caller supply, i.call = .setEligibleSupply caller supply → p.affirmativeWeight ≤ supply

/-! ## What an accepted call does -/

section Specs

variable {here : Address} {env : Env here} {s s' : EarlyStore}

theorem initializeGovernance_eq_ok {admin : Address} {supply window : ℕ}
    (h : initializeGovernance env admin supply window s = .ok s') :
    s.admin = none ∧ s' = { s with
      admin := some admin, eligibleSupply := some supply, votingWindow := some window
      nextProposalId := some 1 } := by
  simp only [initializeGovernance, bind_eq_ok, failIf_eq_ok, pure_eq_ok, Bool.not_eq_true,
    Option.isSome_eq_false_iff, Option.isNone_iff_eq_none] at h
  obtain ⟨_, hnone, _, _, _, _, _, _, rfl⟩ := h
  exact ⟨hnone, rfl⟩

theorem setEligibleSupply_eq_ok {caller : Address} {supply : ℕ}
    (h : setEligibleSupply env caller supply s = .ok s') :
    s.admin.isSome ∧ s' = { s with eligibleSupply := some supply } := by
  simp only [setEligibleSupply, EarlyStore.loadAdmin, bind_eq_ok, okOr_eq_ok, pure_eq_ok] at h
  obtain ⟨_, hadmin, _, _, _, _, _, _, rfl⟩ := h
  exact ⟨hadmin ▸ rfl, rfl⟩

theorem openProposal_eq_ok {proposer : Address} {id : ℕ}
    (h : openProposal env proposer s = .ok (id, s')) :
    s.admin.isSome ∧ id = s.nextProposalId.getD 1 ∧ ∃ window, s.votingWindow = some window ∧
      s' = { s with
        nextProposalId := some (id + 1)
        proposal := some ⟨id, proposer, env.timestamp, env.timestamp + window,
          env.timestamp + administrativeTimelockSeconds, 0, false, false⟩ } := by
  simp only [openProposal, EarlyStore.loadAdmin, EarlyStore.loadVotingWindow, bind_eq_ok,
    okOr_eq_ok, checkBits_eq_some, pure_eq_ok, Prod.mk.injEq] at h
  obtain ⟨_, hadmin, _, _, _, _, window, hwindow, _, ⟨_, rfl⟩, _, ⟨_, rfl⟩, _, ⟨_, rfl⟩, rfl, rfl⟩
    := h
  exact ⟨hadmin ▸ rfl, rfl, window, hwindow, rfl⟩

theorem castAffirmativeVote_eq_ok {voter : Address} {id weight total : ℕ}
    (h : castAffirmativeVote env voter id weight s = .ok (total, s')) :
    ∃ p, s.proposal = some p ∧ p.proposalId = id ∧ p.LiveAt env.timestamp ∧
      (s.loadVoters id).lookup voter = none ∧ s' = { s with
        voters := s.voters.insert id ((s.loadVoters id).insert voter weight)
        proposal := some { p with affirmativeWeight := p.affirmativeWeight + weight } } := by
  simp only [castAffirmativeVote, EarlyStore.loadProposal, bind_eq_ok, failIf_eq_ok, okOr_eq_ok,
    checkBits_eq_some, pure_eq_ok, Prod.mk.injEq, not_not, not_le, Bool.not_eq_true,
    Option.isSome_eq_false_iff, Option.isNone_iff_eq_none] at h
  obtain ⟨_, _, _, _, p, hp, _, hid, _, hexec, _, hwin, _, hnew, _, _, _, ⟨_, rfl⟩, _, rfl⟩ := h
  exact ⟨p, hp, hid, ⟨hexec, hwin⟩, hnew, rfl⟩

theorem evaluate_eq_ok {p : ActiveProposal} {e : Evaluation} (h : evaluate env p s = .ok e) :
    s.eligibleSupply = some e.supply ∧
      e.thresholdMet = decide (e.supply * 7500 / 10000 < p.affirmativeWeight) := by
  simp only [evaluate, exceedsEarlyExecutionThreshold, earlyExecutionRequiredWeight,
    EarlyStore.loadEligibleSupply, bind_eq_ok, okOr_eq_ok, checkBits_eq_some, pure_eq_ok] at h
  obtain ⟨supply, hsupply, _, _, _, ⟨_, _, _, ⟨_, ⟨_, rfl⟩, rfl⟩, rfl⟩, rfl⟩ := h
  exact ⟨hsupply, rfl⟩

/-- The conditions of the early path. -/
theorem verifyEarlyExecution_eq_ok {id : ℕ} (h : verifyEarlyExecution env id s = .ok ()) :
    ∃ p e, s.proposal = some p ∧ p.proposalId = id ∧ p.LiveAt env.timestamp ∧
      p.timelockEndsAt ≤ env.timestamp ∧ evaluate env p s = .ok e ∧ e.thresholdMet = true := by
  simp only [verifyEarlyExecution, EarlyStore.loadProposal, bind_eq_ok, failIf_eq_ok, okOr_eq_ok,
    not_not, not_le, not_lt, Bool.not_eq_true, Bool.not_eq_false] at h
  obtain ⟨p, hp, _, hid, _, hexec, _, hwin, e, heval, _, hmet, hlock⟩ := h
  exact ⟨p, e, hp, hid, ⟨hexec, hwin⟩, hlock, heval, hmet⟩

theorem triggerEarlyExecution_eq_ok {id : ℕ} {r : EarlyExecutionOutcome}
    (h : triggerEarlyExecution env id s = .ok (r, s')) :
    verifyEarlyExecution env id s = .ok () ∧ ∃ p, s.proposal = some p ∧
      s' = { s with proposal := some { p with executed := true, early := true } } := by
  simp only [triggerEarlyExecution, EarlyStore.loadProposal, bind_eq_ok, okOr_eq_ok, pure_eq_ok,
    Prod.mk.injEq] at h
  obtain ⟨_, hverify, p, hp, _, _, _, rfl⟩ := h
  exact ⟨hverify, p, hp, rfl⟩

/-- Executing needs nothing beyond what verifying checks. -/
theorem verifyEarlyExecution_iff {id : ℕ} :
    verifyEarlyExecution env id s = .ok () ↔ ∃ r, triggerEarlyExecution env id s = .ok r := by
  constructor
  · intro h
    obtain ⟨p, e, hp, _, _, _, heval, _⟩ := verifyEarlyExecution_eq_ok h
    refine ⟨_, bind_eq_ok.mpr ⟨(), h, bind_eq_ok.mpr ⟨p, ?_, bind_eq_ok.mpr ⟨e, heval, rfl⟩⟩⟩⟩
    rw [EarlyStore.loadProposal, hp, okOr_some]
  · rintro ⟨⟨r, s'⟩, h⟩
    exact (triggerEarlyExecution_eq_ok h).1

theorem four_mul_lt_of_floor_lt {aff supply : ℕ} (h : supply * 7500 / 10000 < aff)
    (hle : aff ≤ supply) : 4 * (supply - aff) < supply := by
  omega

end Specs

/-! ## What every run keeps -/

/-- Nothing is stored before the setup. Identifiers from the next one on are unused, and the
stored proposal is one that was opened, executed only if it is marked so. -/
structure Sound (here : Address) (h : EarlyHistory) : Prop where
  unset : h.store.admin = none → h.store = .fresh ∧ h.opened = [] ∧ h.executions = []
  faithful : Faithful here h
  unused : ∀ id, h.store.nextProposalId.getD 1 ≤ id → h.store.voters.lookup id = none
  opened_lt : ∀ id time, (id, time) ∈ h.opened → id < h.store.nextProposalId.getD 1
  current : ∀ p, h.store.proposal = some p → ∃ window, (p.proposalId, p.openedAt) ∈ h.opened ∧
    h.store.votingWindow = some window ∧ p.votingEndsAt = p.openedAt + window ∧
    p.timelockEndsAt = p.openedAt + administrativeTimelockSeconds ∧
    (p.executed = false → p.proposalId ∉ h.executions.map Prod.fst)

theorem Sound.fresh (here : Address) (now : ℕ) : Sound here (.fresh now) where
  unset _ := ⟨rfl, rfl, rfl⟩
  faithful := ⟨by simp [EarlyHistory.fresh, EarlyStore.fresh], by simp [EarlyHistory.fresh],
    by simp [EarlyHistory.fresh], by simp [EarlyHistory.fresh], fun _ _ => verifyEarlyExecution_iff⟩
  unused _ _ := rfl
  opened_lt := by simp [EarlyHistory.fresh]
  current := by simp [EarlyHistory.fresh, EarlyStore.fresh]

section Steps

variable {here : Address} {i : EarlyStep here} {h : EarlyHistory} {store : EarlyStore} {now : ℕ}

theorem Sound.initializeGovernance {env : Env here} {admin : Address} {supply window : ℕ}
    (hs : Sound here h)
    (hok : initializeGovernance env admin supply window h.store = .ok store) :
    Sound here { h with store, now } := by
  obtain ⟨hnone, rfl⟩ := initializeGovernance_eq_ok hok
  obtain ⟨hstore, hopened, hexec⟩ := hs.unset hnone
  have hproposal : h.store.proposal = none := by rw [hstore]; rfl
  have hvoters : h.store.voters = ∅ := by rw [hstore]; rfl
  constructor
  · simp
  · exact ⟨by simp [hproposal], by simp [hexec], by simp [hopened], by simp [hexec],
      fun _ _ => verifyEarlyExecution_iff⟩
  · simp [hvoters]
  · simp [hopened]
  · simp [hproposal]

theorem Sound.setEligibleSupply {env : Env here} {caller : Address} {supply : ℕ}
    (hs : Sound here h) (hok : setEligibleSupply env caller supply h.store = .ok store) :
    Sound here { h with store, now } := by
  obtain ⟨hadmin, rfl⟩ := setEligibleSupply_eq_ok hok
  have hf := hs.faithful
  refine ⟨fun hnone => ?_, ⟨hf.weight_eq, hf.once, hf.distinct, hf.timely, fun _ _ =>
    verifyEarlyExecution_iff⟩, hs.unused, hs.opened_lt, hs.current⟩
  rw [hnone] at hadmin
  cases hadmin

theorem Sound.openProposal {env : Env here} {proposer : Address} {id : ℕ} (hs : Sound here h)
    (hok : openProposal env proposer h.store = .ok (id, store)) :
    Sound here { h with store, now, opened := (id, env.timestamp) :: h.opened } := by
  obtain ⟨hadmin, hid, window, hwindow, rfl⟩ := openProposal_eq_ok hok
  have hf := hs.faithful
  have hnew : id ∉ h.opened.map Prod.fst := by
    intro hmem
    obtain ⟨⟨id', time⟩, hopen, hsame⟩ := List.mem_map.mp hmem
    obtain rfl : id' = id := hsame
    have := hs.opened_lt id' time hopen
    omega
  have hfresh : h.store.loadVoters id = ∅ := by
    rw [EarlyStore.loadVoters, hs.unused id hid.ge]
    rfl
  constructor
  · intro hnone
    rw [hnone] at hadmin
    cases hadmin
  · refine ⟨?_, hf.once, List.nodup_cons.mpr ⟨hnew, hf.distinct⟩, ?_,
      fun _ _ => verifyEarlyExecution_iff⟩
    · rintro p hp
      obtain rfl := Option.some.inj hp
      change 0 = Store.total _ (h.store.loadVoters id)
      rw [hfresh, Store.total_empty]
    · intro id' time hmem
      obtain ⟨openedAt, window', hopen, h'⟩ := hf.timely id' time hmem
      exact ⟨openedAt, window', List.mem_cons_of_mem _ hopen, h'⟩
  · intro id' hle
    exact hs.unused id' (by simp only [Option.getD_some] at hle; omega)
  · intro id' time hmem
    simp only [Option.getD_some]
    rcases List.mem_cons.mp hmem with heq | hmem
    · obtain ⟨rfl, _⟩ := Prod.mk.inj heq
      exact Nat.lt_succ_self _
    · have := hs.opened_lt id' time hmem
      omega
  · rintro p hp
    obtain rfl := Option.some.inj hp
    refine ⟨window, List.mem_cons_self, hwindow, rfl, rfl, fun _ hmem => hnew ?_⟩
    obtain ⟨⟨id', time⟩, hexec, hsame⟩ := List.mem_map.mp hmem
    obtain ⟨openedAt, _, hopen, _⟩ := hf.timely id' time hexec
    exact List.mem_map.mpr ⟨(id', openedAt), hopen, hsame⟩

theorem Sound.castAffirmativeVote {env : Env here} {voter : Address} {id weight total : ℕ}
    (hs : Sound here h)
    (hok : castAffirmativeVote env voter id weight h.store = .ok (total, store)) :
    Sound here { h with store, now } := by
  obtain ⟨p, hp, rfl, hlive, hnew, rfl⟩ := castAffirmativeVote_eq_ok hok
  have hf := hs.faithful
  obtain ⟨window, hopen, hcur⟩ := hs.current p hp
  refine ⟨fun hnone => ?_, ⟨?_, hf.once, hf.distinct, hf.timely,
    fun _ _ => verifyEarlyExecution_iff⟩, ?_, hs.opened_lt, ?_⟩
  · rw [(hs.unset hnone).1] at hp
    cases hp
  · rintro q hq
    obtain rfl := Option.some.inj hq
    have hw := hf.weight_eq p hp
    have hload : (Finmap.lookup p.proposalId (h.store.voters.insert p.proposalId
        ((h.store.loadVoters p.proposalId).insert voter weight))).getD ∅ =
        (h.store.loadVoters p.proposalId).insert voter weight := by
      rw [Finmap.lookup_insert, Option.getD_some]
    change p.affirmativeWeight + weight = Store.total _ _
    rw [EarlyStore.loadVoters, hload, Store.total_insert_of_none _ _ hnew, hw,
      EarlyStore.recordedWeight, add_comm]
  · intro id hle
    have hne : id ≠ p.proposalId := by
      have := hs.opened_lt _ _ hopen
      dsimp only at hle
      omega
    dsimp only
    rw [Finmap.lookup_insert_of_ne _ hne]
    exact hs.unused id hle
  · rintro q hq
    obtain rfl := Option.some.inj hq
    exact ⟨window, hopen, hcur⟩

theorem Sound.triggerEarlyExecution {env : Env here} {id : ℕ} {r : EarlyExecutionOutcome}
    (hs : Sound here h) (hok : triggerEarlyExecution env id h.store = .ok (r, store)) :
    Sound here { h with
      store, now, executions := (id, env.timestamp) :: h.executions } := by
  obtain ⟨hverify, p, hp, rfl⟩ := triggerEarlyExecution_eq_ok hok
  obtain ⟨q, e, hq, rfl, hlive, hlock, _, _⟩ := verifyEarlyExecution_eq_ok hverify
  obtain rfl : p = q := Option.some.inj (hp.symm.trans hq)
  have hf := hs.faithful
  obtain ⟨window, hopen, hwindow, hends, hlocks, hfirst⟩ := hs.current p hp
  refine ⟨fun hnone => ?_, ⟨?_, List.nodup_cons.mpr ⟨hfirst hlive.1, hf.once⟩, hf.distinct, ?_,
    fun _ _ => verifyEarlyExecution_iff⟩, hs.unused, hs.opened_lt, ?_⟩
  · rw [(hs.unset hnone).1] at hp
    cases hp
  · rintro q hq
    obtain rfl := Option.some.inj hq
    exact hf.weight_eq p hp
  · intro id time hmem
    rcases List.mem_cons.mp hmem with heq | hmem
    · obtain ⟨rfl, rfl⟩ := Prod.mk.inj heq
      exact ⟨p.openedAt, window, hopen, hwindow, hlocks ▸ hlock, hends ▸ hlive.2⟩
    · exact hf.timely id time hmem
  · rintro q hq
    obtain rfl := Option.some.inj hq
    exact ⟨window, hopen, hwindow, hends, hlocks, fun hexec => by cases hexec⟩

end Steps

section Runs

variable {here : Address} {i : EarlyStep here} {h h' : EarlyHistory}

theorem earlyStep_sound (hs : Sound here h) (hok : earlyStep i h = .ok h') : Sound here h' := by
  obtain ⟨elapsed, env, call⟩ := i
  obtain ⟨now, hnow, hok⟩ := bind_eq_ok.mp hok
  obtain ⟨_, rfl⟩ := checkBits_eq_some.mp (okOr_eq_ok.mp hnow)
  cases call with
  | initializeGovernance admin supply window =>
    obtain ⟨store, hcall, hok⟩ := bind_eq_ok.mp hok
    obtain rfl := pure_eq_ok.mp hok
    exact hs.initializeGovernance hcall
  | setEligibleSupply caller supply =>
    obtain ⟨store, hcall, hok⟩ := bind_eq_ok.mp hok
    obtain rfl := pure_eq_ok.mp hok
    exact hs.setEligibleSupply hcall
  | openProposal proposer =>
    obtain ⟨⟨id, store⟩, hcall, hok⟩ := bind_eq_ok.mp hok
    obtain rfl := pure_eq_ok.mp hok
    exact hs.openProposal hcall
  | castAffirmativeVote voter id weight =>
    obtain ⟨⟨total, store⟩, hcall, hok⟩ := bind_eq_ok.mp hok
    obtain rfl := pure_eq_ok.mp hok
    exact hs.castAffirmativeVote hcall
  | triggerEarlyExecution id =>
    obtain ⟨⟨r, store⟩, hcall, hok⟩ := bind_eq_ok.mp hok
    obtain rfl := pure_eq_ok.mp hok
    exact hs.triggerEarlyExecution hcall

/-- Only votes and new supplies can lift the weight above the supply. -/
theorem earlyStep_withinSupply (hs : Sound here h)
    (hok : earlyStep i h = .ok h') : WithinSupply h' ↔ StaysWithin h i := by
  have haccepted : ∃ h', earlyStep i h = .ok h' := ⟨h', hok⟩
  obtain ⟨elapsed, env, call⟩ := i
  obtain ⟨now, hnow, hok⟩ := bind_eq_ok.mp hok
  obtain ⟨_, rfl⟩ := checkBits_eq_some.mp (okOr_eq_ok.mp hnow)
  cases call with
  | initializeGovernance admin supply window =>
    obtain ⟨store, hcall, hok⟩ := bind_eq_ok.mp hok
    obtain rfl := pure_eq_ok.mp hok
    obtain ⟨hnone, rfl⟩ := initializeGovernance_eq_ok hcall
    refine iff_of_true (fun p _ hp => ?_) fun _ _ _ _ => ⟨by simp, by simp⟩
    change h.store.proposal = some p at hp
    rw [(hs.unset hnone).1] at hp
    cases hp
  | setEligibleSupply caller supply =>
    obtain ⟨store, hcall, hok⟩ := bind_eq_ok.mp hok
    obtain rfl := pure_eq_ok.mp hok
    obtain ⟨_, rfl⟩ := setEligibleSupply_eq_ok hcall
    constructor
    · intro hafter _ p hp hlive
      refine ⟨by simp, fun _ n he => ?_⟩
      cases he
      exact hafter p supply hp hlive rfl
    · intro hstays p n hp hlive hn
      obtain rfl := Option.some.inj hn
      exact (hstays haccepted p hp hlive).2 caller supply rfl
  | openProposal proposer =>
    obtain ⟨⟨id, store⟩, hcall, hok⟩ := bind_eq_ok.mp hok
    obtain rfl := pure_eq_ok.mp hok
    obtain ⟨_, _, _, _, rfl⟩ := openProposal_eq_ok hcall
    refine iff_of_true (fun p _ hp _ _ => ?_) fun _ _ _ _ => ⟨by simp, by simp⟩
    obtain rfl := Option.some.inj hp
    exact Nat.zero_le _
  | castAffirmativeVote voter id weight =>
    obtain ⟨⟨total, store⟩, hcall, hok⟩ := bind_eq_ok.mp hok
    obtain rfl := pure_eq_ok.mp hok
    obtain ⟨p, hp, rfl, hlive, _, rfl⟩ := castAffirmativeVote_eq_ok hcall
    constructor
    · intro hafter _ q hq hqlive
      obtain rfl : p = q := Option.some.inj (hp.symm.trans hq)
      refine ⟨fun _ _ _ he supply hsupply => ?_, by simp⟩
      cases he
      exact hafter { p with affirmativeWeight := p.affirmativeWeight + weight } supply rfl hlive
        hsupply
    · intro hstays q supply hq _ hsupply
      obtain rfl := Option.some.inj hq
      exact (hstays haccepted p hp hlive).1 voter p.proposalId weight rfl supply hsupply
  | triggerEarlyExecution id =>
    obtain ⟨⟨r, store⟩, hcall, hok⟩ := bind_eq_ok.mp hok
    obtain rfl := pure_eq_ok.mp hok
    obtain ⟨_, p, _, rfl⟩ := triggerEarlyExecution_eq_ok hcall
    refine iff_of_true (fun q _ hq hlive _ => ?_) fun _ _ _ _ => ⟨by simp, by simp⟩
    obtain rfl := Option.some.inj hq
    exact absurd hlive.1 (by simp)

theorem WithinSupply.unassailable (hw : WithinSupply h) (i : EarlyStep here) :
    Unassailable h i := by
  obtain ⟨elapsed, env, call⟩ := i
  rintro id rfl ⟨h', hok⟩
  obtain ⟨now, hnow, hok⟩ := bind_eq_ok.mp hok
  obtain ⟨⟨r, store⟩, hcall, _⟩ := bind_eq_ok.mp hok
  obtain ⟨p, e, hp, hid, hlive, _, heval, hmet⟩ :=
    verifyEarlyExecution_eq_ok (triggerEarlyExecution_eq_ok hcall).1
  obtain ⟨hsupply, hthreshold⟩ := evaluate_eq_ok heval
  have hnow : h.now ≤ h.now + elapsed := Nat.le_add_right _ _
  have hle := hw p e.supply hp ⟨hlive.1, hnow.trans_lt hlive.2⟩ hsupply
  exact ⟨p, e.supply, hp, hid, hsupply, hle,
    four_mul_lt_of_floor_lt (of_decide_eq_true (hthreshold ▸ hmet)) hle⟩

/-- The live weight stays within the supply and every execution is unassailable in exactly the
runs whose votes fit into the supply and whose supplies are not set below a live weight. All
else holds in every run. -/
theorem earlyExecution_unassailable_iff (now : ℕ) (run : List (EarlyStep here)) :
    Throughout earlyStep (Faithful here) (.fresh now) run ∧
      (Throughout earlyStep WithinSupply (.fresh now) run ∧
          Along earlyStep Unassailable (.fresh now) run ↔
        Along earlyStep StaysWithin (.fresh now) run) := by
  have hfresh := Sound.fresh here now
  have hsound : ∀ h (i : EarlyStep here), Sound here h → Sound here (commit earlyStep h i) :=
    fun h i hs => commit_induction hs fun _ hok => earlyStep_sound hs hok
  have hwithin : WithinSupply (.fresh now) := by
    rintro p supply hp
    cases hp
  refine ⟨throughout_of_invariant (fun _ _ _ hs hok => earlyStep_sound hs hok)
    (fun _ hs => hs.faithful) hfresh run, ?_⟩
  refine throughout_and_along_iff hsound (fun h i hs hw => ?_) hfresh hwithin run
  have hiff : WithinSupply (commit earlyStep h i) ↔ StaysWithin h i := by
    refine (commit_iff_of_accepted hw fun h' hok => (earlyStep_withinSupply hs hok).trans
      ⟨fun hc _ => hc, fun hc => hc ⟨h', hok⟩⟩).trans ?_
    exact ⟨fun hc hok => hc hok hok, fun hc _ => hc⟩
  exact ⟨fun hboth => hiff.mp hboth.1, fun hc => ⟨hiff.mpr hc, hw.unassailable i⟩⟩

end Runs

def earlyCall (elapsed : ℕ) (call : EarlyCall) : EarlyStep ⟨0⟩ :=
  ⟨elapsed, .standard _ 0 none, call⟩

/-- One voter states ten times the eligible supply as the weight of its vote. -/
def oversizedVoteRun : List (EarlyStep ⟨0⟩) :=
  [earlyCall 0 (.initializeGovernance ⟨1⟩ 100 200000), earlyCall 0 (.openProposal ⟨2⟩),
    earlyCall 0 (.castAffirmativeVote ⟨3⟩ 1 1000)]

theorem oversizedVoteRun_exceeds :
    let h := runAll earlyStep (.fresh 0) oversizedVoteRun
    (h.store.proposal.map (·.affirmativeWeight), h.store.eligibleSupply) = (some 1000, some 100) ∧
      (commit earlyStep h (earlyCall 172800 (.triggerEarlyExecution 1))).executions =
        [(1, 172800)] ∧
      ¬ Throughout earlyStep WithinSupply (.fresh 0) oversizedVoteRun := by
  intro h
  have hstate : h.store.proposal = some ⟨1, ⟨2⟩, 0, 200000, 172800, 1000, false, false⟩ ∧
      h.store.eligibleSupply = some 100 ∧ h.now = 0 ∧
      (commit earlyStep h (earlyCall 172800 (.triggerEarlyExecution 1))).executions =
        [(1, 172800)] := by
    decide +kernel
  obtain ⟨hproposal, hsupply, hnow, hexec⟩ := hstate
  refine ⟨by rw [hproposal, hsupply]; rfl, hexec, fun ht => ?_⟩
  have hle := ht.last _ 100 hproposal (by rw [hnow]; decide) hsupply
  revert hle
  decide

end StellarFlow.EarlyExecution
