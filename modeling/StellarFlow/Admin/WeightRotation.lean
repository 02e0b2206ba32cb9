import StellarFlow.Bytes
import StellarFlow.Foundation.Tally
import StellarFlow.Host

/-!
# Rotating the weights of a multi-signature

Signer keys have weights, and a set of approvals is a quorum when its weight reaches a
threshold. New weights are staged for three days, during which the old ones stay in force.
Whoever applies the staged weights afterwards only moves them to another slot.
-/
namespace StellarFlow.WeightGuard

open Foundation

/-- Three days, in seconds. -/
def weightRotationCooldownSeconds : ℕ := 72 * 60 * 60

inductive GuardError
  | alreadyInitialized
  | notInitialized
  | notAdmin
  | cooldownNotElapsed
  | rotationAlreadyPending
  | noPendingConfiguration
  | activationNotReached
  | emptyWeightSet
  | zeroWeight
  | duplicateSigner
  | invalidThreshold
  | thresholdNotMet
  | overflow
  deriving DecidableEq, Repr

abbrev Fail := Abort GuardError

structure SignerWeight where
  publicKey : Bytes32
  weight : ℕ

abbrev Weights := Store Bytes32 ℕ

def totalWeight (weights : Weights) : ℕ := Store.total (fun _ weight => weight) weights

/-- Weights together with their sum, which fits. -/
structure WeighedSigners where
  weights : Weights
  total : ℕ
  total_eq : total = totalWeight weights
  total_lt : total < 2 ^ 32

def WeighedSigners.none : WeighedSigners := ⟨∅, 0, rfl, by norm_num⟩

def WeighedSigners.add (w : WeighedSigners) (signer : SignerWeight) :
    Except Fail WeighedSigners :=
  if signer.weight = 0 then .error (.error .zeroWeight)
  else if hnew : w.weights.lookup signer.publicKey = Option.none then
    if hfit : w.total + signer.weight < 2 ^ 32 then
      .ok ⟨w.weights.insert signer.publicKey signer.weight, w.total + signer.weight, by
        rw [totalWeight, Store.total_insert_of_none _ _ hnew, w.total_eq, totalWeight,
          add_comm], hfit⟩
    else .error (.error .overflow)
  else .error (.error .duplicateSigner)

def WeighedSigners.addAll : List SignerWeight → WeighedSigners → Except Fail WeighedSigners
  | [], w => pure w
  | signer :: rest, w => do
    let w ← w.add signer
    addAll rest w

/-- Weights with a threshold that they can reach. -/
structure Quorum where
  weights : Weights
  threshold : ℕ
  threshold_pos : 0 < threshold
  threshold_le : threshold ≤ totalWeight weights
  total_lt : totalWeight weights < 2 ^ 32

structure WeightConfiguration extends Quorum where
  effectiveAt : ℕ

/-- Validate weights and a threshold. -/
def buildConfiguration (signers : List SignerWeight) (threshold : ℕ) : Except Fail Quorum := do
  failIf (signers.isEmpty = true) (.error .emptyWeightSet)
  let w ← WeighedSigners.none.addAll signers
  if h : 0 < threshold ∧ threshold ≤ w.total then
    .ok ⟨w.weights, threshold, h.1, w.total_eq ▸ h.2, w.total_eq ▸ w.total_lt⟩
  else .error (.error .invalidThreshold)

/-- Instance storage of the contract. The time of the last rotation is zero before the first. -/
structure GuardStore where
  admin : Option Address
  active : Option WeightConfiguration
  pending : Option WeightConfiguration
  lastRotation : ℕ

def GuardStore.fresh : GuardStore := ⟨none, none, none, 0⟩

namespace GuardStore

variable (s : GuardStore)

def loadAdmin : Except Fail Address := okOr s.admin (.error .notInitialized)

def loadActive : Except Fail WeightConfiguration := okOr s.active (.error .notInitialized)

end GuardStore

section Calls

variable {here : Address} (env : Env here)

def initializeGuard (admin : Address) (signers : List SignerWeight) (threshold : ℕ)
    (s : GuardStore) : Except Fail GuardStore := do
  failIf (s.admin.isSome = true) (.error .alreadyInitialized)
  hostCall (env.requireAuth admin)
  let quorum ← buildConfiguration signers threshold
  pure { s with
    admin := some admin, active := some ⟨quorum, env.timestamp⟩, lastRotation := 0 }

def proposeWeightRotation (caller : Address) (signers : List SignerWeight) (threshold : ℕ)
    (s : GuardStore) : Except Fail (ℕ × GuardStore) := do
  let admin ← s.loadAdmin
  failIf (caller ≠ admin) (.error .notAdmin)
  hostCall (env.requireAuth caller)
  failIf (s.pending.isSome = true) (.error .rotationAlreadyPending)
  failIf (s.lastRotation ≠ 0 ∧ env.timestamp - s.lastRotation < weightRotationCooldownSeconds)
    (.error .cooldownNotElapsed)
  let quorum ← buildConfiguration signers threshold
  let _ ← s.loadActive
  let effectiveAt ←
    okOr (checkBits 64 (env.timestamp + weightRotationCooldownSeconds)) (.error .overflow)
  pure (effectiveAt, { s with pending := some ⟨quorum, effectiveAt⟩ })

def applyPendingWeights (s : GuardStore) : Except Fail (WeightConfiguration × GuardStore) := do
  let pending ← okOr s.pending (.error .noPendingConfiguration)
  failIf (env.timestamp < pending.effectiveAt) (.error .activationNotReached)
  pure (pending,
    { s with active := some pending, pending := none, lastRotation := env.timestamp })

def effectiveConfiguration (s : GuardStore) : Except Fail WeightConfiguration := do
  let active ← s.loadActive
  match s.pending with
  | some pending => if pending.effectiveAt ≤ env.timestamp then pure pending else pure active
  | none => pure active

/-- Weigh the approvals of known keys, each of them once. -/
def verifyQuorum (approvals : List Bytes32) (s : GuardStore) : Except Fail ℕ := do
  let config ← effectiveConfiguration env s
  let collected ← tally (fun key => (config.weights.lookup key).isSome = true)
    (fun key => (config.weights.lookup key).getD 0) 32 (.error .overflow) .empty approvals
  failIf (collected.weight < config.threshold) (.error .thresholdNotMet)
  pure collected.weight

end Calls

inductive GuardCall
  | initializeGuard (admin : Address) (signers : List SignerWeight) (threshold : ℕ)
  | proposeWeightRotation (caller : Address) (signers : List SignerWeight) (threshold : ℕ)
  | applyPendingWeights

/-- Signers and a threshold as they were handed in, with the time they are to take effect. -/
structure Announcement where
  signers : List SignerWeight
  threshold : ℕ
  effectiveAt : ℕ

/-- The store, the time of the last accepted call, what the setup installed and which
rotations were accepted, the latest first. -/
structure GuardHistory where
  store : GuardStore
  now : ℕ
  initial : Option Announcement
  accepted : List Announcement

def GuardHistory.fresh (now : ℕ) : GuardHistory := ⟨.fresh, now, none, []⟩

/-- A call some seconds after the last accepted one. -/
structure GuardStep (here : Address) where
  elapsed : ℕ
  env : Env here
  call : GuardCall

def guardStep {here : Address} (i : GuardStep here) (h : GuardHistory) :
    Except Fail GuardHistory := do
  let now ← okOr (checkBits 64 (h.now + i.elapsed)) .trap
  let env : Env here := { i.env with timestamp := now }
  match i.call with
  | .initializeGuard admin signers threshold =>
    let store ← initializeGuard env admin signers threshold h.store
    pure { h with store, now, initial := some ⟨signers, threshold, now⟩ }
  | .proposeWeightRotation caller signers threshold =>
    let (_, store) ← proposeWeightRotation env caller signers threshold h.store
    pure { h with
      store, now
      accepted := ⟨signers, threshold, now + weightRotationCooldownSeconds⟩ :: h.accepted }
  | .applyPendingWeights =>
    let (_, store) ← applyPendingWeights env h.store
    pure { h with store, now }

/-! ## The timeline of configurations -/

/-- The mapping from keys to weights that a list of signers describes. -/
def weightsOf (signers : List SignerWeight) : Weights :=
  signers.foldl (fun weights signer => weights.insert signer.publicKey signer.weight) ∅

/-- A stored configuration is what was announced. -/
def Announcement.Describes (a : Announcement) (c : WeightConfiguration) : Prop :=
  c.weights = weightsOf a.signers ∧ c.threshold = a.threshold ∧ c.effectiveAt = a.effectiveAt

/-- The latest accepted rotation that was requested three days ago or earlier, and the initial
configuration before. -/
def inForceAt (h : GuardHistory) (time : ℕ) : Option Announcement :=
  (h.accepted.find? fun a => a.effectiveAt ≤ time).or h.initial

/-- At any time from now on, the configuration in force is the announced one. -/
def FollowsTimeline (here : Address) (h : GuardHistory) : Prop :=
  ∀ env : Env here, h.now ≤ env.timestamp →
    match inForceAt h env.timestamp with
    | none => effectiveConfiguration env h.store = .error (.error .notInitialized)
    | some a => ∃ c, effectiveConfiguration env h.store = .ok c ∧ a.Describes c

/-- All configurations that were installed, the latest first. -/
def GuardHistory.announced (h : GuardHistory) : List Announcement :=
  h.accepted ++ h.initial.toList

/-- Configurations come into force at least three days apart. -/
def Spaced (h : GuardHistory) : Prop :=
  h.announced.Pairwise fun later earlier =>
    earlier.effectiveAt + weightRotationCooldownSeconds ≤ later.effectiveAt

/-- Total weight of the known keys in a set. -/
def weightOf (weights : Weights) (keys : Finset Bytes32) : ℕ :=
  ∑ key ∈ keys, (weights.lookup key).getD 0

/-- Verifying a quorum weighs the set of the approvals against the configuration in force. -/
def QuorumExact (here : Address) (h : GuardHistory) : Prop :=
  ∀ (env : Env here) (approvals : List Bytes32), verifyQuorum env approvals h.store =
    match effectiveConfiguration env h.store with
    | .error e => .error e
    | .ok c =>
      if c.threshold ≤ weightOf c.weights approvals.toFinset then
        .ok (weightOf c.weights approvals.toFinset)
      else .error (.error .thresholdNotMet)

/-! ## What an accepted call does -/

section Specs

variable {here : Address} {env : Env here} {s s' : GuardStore}

theorem WeighedSigners.add_eq_ok {w w' : WeighedSigners} {signer : SignerWeight}
    (h : w.add signer = .ok w') :
    w'.weights = w.weights.insert signer.publicKey signer.weight := by
  unfold WeighedSigners.add at h
  split_ifs at h
  exact congrArg WeighedSigners.weights (Except.ok.inj h).symm

theorem WeighedSigners.addAll_eq_ok {signers : List SignerWeight} {w w' : WeighedSigners}
    (h : w.addAll signers = .ok w') :
    w'.weights =
      signers.foldl (fun weights signer => weights.insert signer.publicKey signer.weight)
        w.weights := by
  induction signers generalizing w with
  | nil => exact congrArg WeighedSigners.weights (pure_eq_ok.mp h).symm
  | cons signer rest ih =>
    obtain ⟨w₁, hadd, h⟩ := bind_eq_ok.mp h
    rw [List.foldl_cons, ← WeighedSigners.add_eq_ok hadd]
    exact ih h

theorem buildConfiguration_eq_ok {signers : List SignerWeight} {threshold : ℕ} {q : Quorum}
    (h : buildConfiguration signers threshold = .ok q) :
    q.weights = weightsOf signers ∧ q.threshold = threshold := by
  obtain ⟨_, _, h⟩ := bind_eq_ok.mp h
  obtain ⟨w, hadd, h⟩ := bind_eq_ok.mp h
  split_ifs at h
  obtain rfl := Except.ok.inj h
  exact ⟨WeighedSigners.addAll_eq_ok hadd, rfl⟩

theorem initializeGuard_eq_ok {admin : Address} {signers : List SignerWeight} {threshold : ℕ}
    (h : initializeGuard env admin signers threshold s = .ok s') :
    s.admin = none ∧ ∃ c, Announcement.Describes ⟨signers, threshold, env.timestamp⟩ c ∧
      s' = { s with admin := some admin, active := some c, lastRotation := 0 } := by
  simp only [initializeGuard, bind_eq_ok, failIf_eq_ok, pure_eq_ok, Bool.not_eq_true,
    Option.isSome_eq_false_iff, Option.isNone_iff_eq_none] at h
  obtain ⟨_, hnone, _, _, q, hbuild, rfl⟩ := h
  obtain ⟨hweights, hthreshold⟩ := buildConfiguration_eq_ok hbuild
  exact ⟨hnone, ⟨q, env.timestamp⟩, ⟨hweights, hthreshold, rfl⟩, rfl⟩

theorem proposeWeightRotation_eq_ok {caller : Address} {signers : List SignerWeight}
    {threshold effectiveAt : ℕ}
    (h : proposeWeightRotation env caller signers threshold s = .ok (effectiveAt, s')) :
    s.admin.isSome ∧ s.pending = none ∧
      ∃ c, Announcement.Describes
          ⟨signers, threshold, env.timestamp + weightRotationCooldownSeconds⟩ c ∧
        s' = { s with pending := some c } := by
  simp only [proposeWeightRotation, GuardStore.loadAdmin, bind_eq_ok, failIf_eq_ok, okOr_eq_ok,
    checkBits_eq_some, pure_eq_ok, Prod.mk.injEq, Bool.not_eq_true, Option.isSome_eq_false_iff,
    Option.isNone_iff_eq_none] at h
  obtain ⟨_, hadmin, _, _, _, _, _, hnone, _, _, q, hbuild, _, _, _, ⟨_, rfl⟩, _, rfl⟩ := h
  obtain ⟨hweights, hthreshold⟩ := buildConfiguration_eq_ok hbuild
  exact ⟨hadmin ▸ rfl, hnone, ⟨q, _⟩, ⟨hweights, hthreshold, rfl⟩, rfl⟩

theorem applyPendingWeights_eq_ok {c : WeightConfiguration}
    (h : applyPendingWeights env s = .ok (c, s')) :
    s.pending = some c ∧ c.effectiveAt ≤ env.timestamp ∧
      s' = { s with active := some c, pending := none, lastRotation := env.timestamp } := by
  simp only [applyPendingWeights, bind_eq_ok, failIf_eq_ok, okOr_eq_ok, pure_eq_ok,
    Prod.mk.injEq, not_lt] at h
  obtain ⟨_, hpending, _, hdue, rfl, rfl⟩ := h
  exact ⟨hpending, hdue, rfl⟩

/-- Only known keys have a weight. -/
theorem sum_known_eq_weightOf (weights : Weights) (keys : Finset Bytes32) :
    ∑ key ∈ keys.filter (fun key => (weights.lookup key).isSome = true),
      (weights.lookup key).getD 0 = weightOf weights keys := by
  refine Finset.sum_filter_of_ne fun key _ hne => ?_
  cases h : weights.lookup key with
  | none => simp [h] at hne
  | some weight => rfl

/-- No set of approvals weighs more than all keys together. -/
theorem weightOf_le_total (weights : Weights) (keys : Finset Bytes32) :
    weightOf weights keys ≤ totalWeight weights := by
  have hpart : ∀ key, (weights.lookup key).getD 0 =
      Store.part (fun _ weight => weight) weights key := by
    intro key
    rw [Store.part]
    cases weights.lookup key <;> rfl
  rw [weightOf, Finset.sum_congr rfl fun key _ => hpart key]
  exact Store.sum_part_le_total (fun _ _ _ => Nat.zero_le _) keys

theorem quorumExact (here : Address) (h : GuardHistory) : QuorumExact here h := by
  intro env approvals
  unfold verifyQuorum
  cases effectiveConfiguration env h.store with
  | error e => rfl
  | ok c =>
    have hsum : (Tally.of (fun key => (c.weights.lookup key).isSome = true)
        (fun key => (c.weights.lookup key).getD 0) approvals.toFinset).weight =
        weightOf c.weights approvals.toFinset :=
      sum_known_eq_weightOf c.weights approvals.toFinset
    have hfit := (weightOf_le_total c.weights approvals.toFinset).trans_lt c.total_lt
    rw [ok_bind, tally_eq, hsum, if_pos hfit, ok_bind, hsum]
    dsimp only
    split_ifs with hle
    · rw [failIf_of_not (not_lt.mpr hle)]
      rfl
    · rw [failIf, if_pos (not_le.mp hle)]
      rfl

end Specs

/-! ## Runs -/

/-- The active configuration has come into force, and a pending one is the latest announced. -/
structure Installed (h : GuardHistory) (active : WeightConfiguration) (current : Announcement)
    (older : List Announcement) : Prop where
  active_eq : h.store.active = some active
  describes : current.Describes active
  due : current.effectiveAt ≤ h.now
  started : ∃ initial, h.initial = some initial ∧ initial.effectiveAt ≤ h.now
  announced_eq : (h.store.pending = none ∧ h.announced = current :: older) ∨
    ∃ pending a, h.store.pending = some pending ∧ a.Describes pending ∧
      h.announced = a :: current :: older

structure Timeline (h : GuardHistory) : Prop where
  unset : h.store.admin = none → h.store = .fresh ∧ h.initial = none ∧ h.accepted = []
  installed : h.store.admin.isSome → ∃ active current older, Installed h active current older
  spaced : Spaced h

section Runs

variable {here : Address} {i : GuardStep here} {h h' : GuardHistory}

theorem Timeline.fresh (now : ℕ) : Timeline (.fresh now) where
  unset _ := ⟨rfl, rfl, rfl⟩
  installed hadmin := by cases hadmin
  spaced := List.Pairwise.nil

/-- The initial configuration is in force whenever no other one is. -/
theorem inForceAt_eq_find {initial : Announcement} {time : ℕ} (hinit : h.initial = some initial)
    (hle : initial.effectiveAt ≤ time) :
    inForceAt h time = h.announced.find? fun a => a.effectiveAt ≤ time := by
  rw [inForceAt, GuardHistory.announced, hinit, List.find?_append, Option.toList_some,
    List.find?_cons_of_pos (by simpa using hle)]

theorem Timeline.follows (ht : Timeline h) : FollowsTimeline here h := by
  intro env hnow
  cases hadmin : h.store.admin with
  | none =>
    obtain ⟨hstore, hinit, hacc⟩ := ht.unset hadmin
    rw [inForceAt, hinit, hacc, hstore]
    rfl
  | some admin =>
    obtain ⟨active, current, older, hi⟩ := ht.installed (by rw [hadmin]; rfl)
    obtain ⟨initial, hinit, hstart⟩ := hi.started
    have hcurrent : current.effectiveAt ≤ env.timestamp := hi.due.trans hnow
    rw [inForceAt_eq_find hinit (hstart.trans hnow), effectiveConfiguration,
      GuardStore.loadActive, hi.active_eq, okOr_some, ok_bind]
    rcases hi.announced_eq with ⟨hnone, heq⟩ | ⟨pending, a, hsome, ha, heq⟩
    · rw [heq, hnone, List.find?_cons_of_pos (by simpa using hcurrent)]
      exact ⟨active, rfl, hi.describes⟩
    · rw [heq, hsome]
      by_cases hdue : a.effectiveAt ≤ env.timestamp
      · rw [List.find?_cons_of_pos (by simpa using hdue)]
        exact ⟨pending, if_pos (ha.2.2 ▸ hdue), ha⟩
      · rw [List.find?_cons_of_neg (by simpa using hdue),
          List.find?_cons_of_pos (by simpa using hcurrent)]
        exact ⟨active, if_neg (ha.2.2 ▸ hdue), hi.describes⟩

theorem guardStep_timeline (ht : Timeline h) (hok : guardStep i h = .ok h') : Timeline h' := by
  obtain ⟨elapsed, env, call⟩ := i
  obtain ⟨now, hnow, hok⟩ := bind_eq_ok.mp hok
  obtain ⟨_, rfl⟩ := checkBits_eq_some.mp (okOr_eq_ok.mp hnow)
  have hlater : h.now ≤ h.now + elapsed := Nat.le_add_right _ _
  cases call with
  | initializeGuard admin signers threshold =>
    obtain ⟨store, hcall, hok⟩ := bind_eq_ok.mp hok
    obtain rfl := pure_eq_ok.mp hok
    obtain ⟨hnone, c, hc, rfl⟩ := initializeGuard_eq_ok hcall
    obtain ⟨hstore, _, hacc⟩ := ht.unset hnone
    refine ⟨by simp, fun _ => ?_, ?_⟩
    · refine ⟨c, _, [], rfl, hc, le_rfl, ⟨_, rfl, le_rfl⟩, .inl ⟨?_, ?_⟩⟩
      · rw [hstore]
        rfl
      · rw [GuardHistory.announced, hacc]
        rfl
    · rw [Spaced, GuardHistory.announced, hacc]
      exact List.pairwise_singleton _ _
  | proposeWeightRotation caller signers threshold =>
    obtain ⟨⟨_, store⟩, hcall, hok⟩ := bind_eq_ok.mp hok
    obtain rfl := pure_eq_ok.mp hok
    obtain ⟨hadmin, hnone, c, hc, rfl⟩ := proposeWeightRotation_eq_ok hcall
    obtain ⟨active, current, older, hi⟩ := ht.installed hadmin
    obtain ⟨initial, hinit, hstart⟩ := hi.started
    obtain ⟨_, heq⟩ : h.store.pending = none ∧ h.announced = current :: older := by
      rcases hi.announced_eq with heq | ⟨pending, _, hsome, _⟩
      · exact heq
      · rw [hnone] at hsome
        cases hsome
    refine ⟨fun hset => ?_, fun _ => ⟨active, current, older, hi.active_eq, hi.describes,
      hi.due.trans hlater, ⟨initial, hinit, hstart.trans hlater⟩,
      .inr ⟨c, _, rfl, hc, ?_⟩⟩, ?_⟩
    · change h.store.admin = none at hset
      rw [hset] at hadmin
      cases hadmin
    · rw [← heq]
      rfl
    · -- Everything announced before is in force, so the new configuration comes three days later.
      have hspaced : h.announced.Pairwise fun later earlier =>
        earlier.effectiveAt + weightRotationCooldownSeconds ≤ later.effectiveAt := ht.spaced
      refine List.pairwise_cons.mpr ⟨fun earlier hmem => ?_, hspaced⟩
      change earlier ∈ h.announced at hmem
      rw [heq] at hmem hspaced
      have hdue := hi.due
      rcases List.mem_cons.mp hmem with rfl | hmem
      · change _ ≤ h.now + elapsed + weightRotationCooldownSeconds
        omega
      · have := (List.pairwise_cons.mp hspaced).1 earlier hmem
        change _ ≤ h.now + elapsed + weightRotationCooldownSeconds
        omega
  | applyPendingWeights =>
    obtain ⟨⟨c, store⟩, hcall, hok⟩ := bind_eq_ok.mp hok
    obtain rfl := pure_eq_ok.mp hok
    obtain ⟨hpending, hdue, rfl⟩ := applyPendingWeights_eq_ok hcall
    cases hadmin : h.store.admin with
    | none =>
      rw [(ht.unset hadmin).1] at hpending
      cases hpending
    | some admin =>
      obtain ⟨active, current, older, hi⟩ := ht.installed (by rw [hadmin]; rfl)
      obtain ⟨initial, hinit, hstart⟩ := hi.started
      rcases hi.announced_eq with ⟨hnone, _⟩ | ⟨pending, a, hsome, ha, heq⟩
      · rw [hpending] at hnone
        cases hnone
      · obtain rfl : c = pending := Option.some.inj (hpending.symm.trans hsome)
        refine ⟨fun hset => ?_, fun _ => ⟨c, a, current :: older, rfl, ha, ?_,
          ⟨initial, hinit, hstart.trans hlater⟩, .inl ⟨rfl, heq⟩⟩, ht.spaced⟩
        · cases hset
        · exact ha.2.2 ▸ hdue

/-- In every state of every run the configurations follow the timeline of the accepted
rotations, three days apart, and quorums are weighed exactly. -/
theorem weightRotation_follows (now : ℕ) (run : List (GuardStep here)) :
    Throughout guardStep (fun h => FollowsTimeline here h ∧ Spaced h ∧ QuorumExact here h)
      (.fresh now) run :=
  throughout_of_invariant (fun _ _ _ ht hok => guardStep_timeline ht hok)
    (fun h ht => ⟨ht.follows, ht.spaced, quorumExact here h⟩) (.fresh now) run

end Runs

end StellarFlow.WeightGuard
