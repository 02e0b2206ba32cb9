import StellarFlow.Foundation.Obligations
import StellarFlow.Host

/-!
# Rescue of tokens that are locked for a bridge

A sender locks tokens for a transfer to another chain. Validators can confirm before a timeout
that the transfer failed; once enough administrators approve, the sender gets the tokens back.
Without a confirmation the sender gets them back after the timeout.
-/
namespace StellarFlow.Bridge.LockRescue

open Foundation

inductive RescueError
  | notInitialized
  | alreadyInitialized
  | invalidThreshold
  | duplicateAddress
  | zeroAmount
  | lockNotFound
  | notAdmin
  | notValidator
  | duplicateVote
  | lockNotLocked
  | thresholdNotReached
  | overflow
  | timeoutNotExpired
  | timeoutExpired
  deriving DecidableEq, Repr

inductive LockStatus
  | locked
  | rescued
  | cancelledExpired
  deriving DecidableEq, Repr

structure BridgeLock where
  id : ℕ
  sender : Address
  amount : ℤ
  status : LockStatus
  validatorConfirmed : Bool
  claimTimestamp : ℕ
  deriving DecidableEq

/-- The members of a committee, and how many of them are needed. -/
structure Committee where
  members : List Address
  threshold : ℕ

/-- The votes of a committee on the locks, and their numbers. -/
structure Ballots where
  votes : Store (ℕ × Address) Bool
  counts : Store ℕ ℕ

/-- What is stored by the setup. -/
structure RescueConfig where
  admins : Committee
  validators : Committee
  token : Address
  timeout : ℕ

structure BridgeRescue where
  config : Option RescueConfig
  nextLockId : ℕ
  locks : Store ℕ BridgeLock
  validatorVotes : Ballots
  adminApprovals : Ballots
  tokens : Tokens

namespace Ballots

def count (v : Ballots) (lockId : ℕ) : ℕ := (v.counts.lookup lockId).getD 0

/-- Nobody votes twice on a lock. -/
def vote (v : Ballots) (lockId : ℕ) (voter : Address) : Except (Abort RescueError) Ballots := do
  failIf (v.votes.lookup (lockId, voter)).isSome (.error .duplicateVote)
  let count ← okOr (checkBits 32 (v.count lockId + 1)) (.error .overflow)
  pure ⟨v.votes.insert (lockId, voter) true, v.counts.insert lockId count⟩

end Ballots

def BridgeRescue.fresh (tokens : Tokens) : BridgeRescue := ⟨none, 0, ∅, ⟨∅, ∅⟩, ⟨∅, ∅⟩, tokens⟩

def hasDuplicateAddresses : List Address → Bool
  | [] => false
  | a :: addrs => addrs.contains a || hasDuplicateAddresses addrs

section Calls

variable {here : Address} (env : Env here)

/-- The literal of the first number is damaged in the source. -/
def setUp (admins : List Address) (threshold : UInt32) (validators : List Address)
    (validatorThreshold : UInt32) (token : Address) (timeout : UInt64) (b : BridgeRescue) :
    Except (Abort RescueError) BridgeRescue := do
  failIf b.config.isSome (.error .alreadyInitialized)
  failIf (threshold = 0 ∨ admins.length < threshold.toNat) (.error .invalidThreshold)
  failIf (validatorThreshold = 0 ∨ validators.length < validatorThreshold.toNat)
    (.error .invalidThreshold)
  failIf (hasDuplicateAddresses admins ∨ hasDuplicateAddresses validators)
    (.error .duplicateAddress)
  pure { b with
    config := some ⟨⟨admins, threshold.toNat⟩, ⟨validators, validatorThreshold.toNat⟩, token,
      timeout.toNat⟩
    nextLockId := 0 }

def requireInitialized (b : BridgeRescue) : Except (Abort RescueError) RescueConfig :=
  okOr b.config (.error .notInitialized)

def getLockChecked (lockId : ℕ) (b : BridgeRescue) : Except (Abort RescueError) BridgeLock :=
  okOr (b.locks.lookup lockId) (.error .lockNotFound)

def lockTokens (sender : Address) (amount : i128.Value) (b : BridgeRescue) :
    Except (Abort RescueError) (ℕ × BridgeRescue) := do
  let config ← requireInitialized b
  hostCall (env.requireAuth sender)
  failIf (amount.1 ≤ 0) (.error .zeroAmount)
  let lockId := b.nextLockId
  let nextLockId ← okOr (checkBits 64 (lockId + 1)) (.error .overflow)
  let tokens ← hostCall (env.transfer config.token sender here amount b.tokens)
  pure (lockId, { b with
    tokens
    nextLockId
    locks := b.locks.insert lockId ⟨lockId, sender, amount, .locked, false, env.timestamp⟩ })

def lockExpirationInstant (config : RescueConfig) (lock : BridgeLock) :
    Except (Abort RescueError) ℕ :=
  okOr (checkBits 64 (lock.claimTimestamp + config.timeout)) (.error .overflow)

def isExpired (config : RescueConfig) (lock : BridgeLock) : Except (Abort RescueError) Bool := do
  let expiration ← lockExpirationInstant config lock
  pure (decide (expiration ≤ env.timestamp))

def isReadyForRescue (config : RescueConfig) (lock : BridgeLock) (b : BridgeRescue) : Bool :=
  decide (lock.status = .locked) && lock.validatorConfirmed &&
    decide (config.admins.threshold ≤ b.adminApprovals.count lock.id)

/-- A lock gets its last status, and its sender the amount. -/
def payOut (config : RescueConfig) (status : LockStatus) (lock : BridgeLock) (b : BridgeRescue) :
    Except (Abort RescueError) BridgeRescue := do
  let tokens ← hostCall (env.transfer config.token here lock.sender lock.amount b.tokens)
  pure { b with tokens, locks := b.locks.insert lock.id { lock with status } }

def performRescue (config : RescueConfig) (lock : BridgeLock) (b : BridgeRescue) :
    Except (Abort RescueError) BridgeRescue := do
  failIf (lock.status ≠ .locked) (.error .lockNotLocked)
  payOut env config .rescued lock b

def performRefund (config : RescueConfig) (lock : BridgeLock) (b : BridgeRescue) :
    Except (Abort RescueError) BridgeRescue := do
  failIf (lock.status ≠ .locked) (.error .lockNotLocked)
  let expired ← isExpired env config lock
  failIf (¬ expired) (.error .timeoutNotExpired)
  payOut env config .cancelledExpired lock b

/-- The rescue follows at once if this was the last vote it lacked. -/
def submitFailureProof (validator : Address) (lockId : ℕ) (b : BridgeRescue) :
    Except (Abort RescueError) BridgeRescue := do
  let config ← requireInitialized b
  hostCall (env.requireAuth validator)
  failIf (validator ∉ config.validators.members) (.error .notValidator)
  let lock ← getLockChecked lockId b
  failIf (lock.status ≠ .locked) (.error .lockNotLocked)
  let expired ← isExpired env config lock
  failIf expired (.error .timeoutExpired)
  let validatorVotes ← b.validatorVotes.vote lockId validator
  let confirmed := config.validators.threshold ≤ validatorVotes.count lockId
  let lock := if confirmed then { lock with validatorConfirmed := true } else lock
  let b := { b with
    validatorVotes
    locks := if confirmed then b.locks.insert lock.id lock else b.locks }
  if isReadyForRescue config lock b then performRescue env config lock b else pure b

def approveRescue (admin : Address) (lockId : ℕ) (b : BridgeRescue) :
    Except (Abort RescueError) BridgeRescue := do
  let config ← requireInitialized b
  hostCall (env.requireAuth admin)
  failIf (admin ∉ config.admins.members) (.error .notAdmin)
  let lock ← getLockChecked lockId b
  failIf (lock.status ≠ .locked) (.error .lockNotLocked)
  let adminApprovals ← b.adminApprovals.vote lockId admin
  let b := { b with adminApprovals }
  if isReadyForRescue config lock b then performRescue env config lock b else pure b

def executeRescue (lockId : ℕ) (b : BridgeRescue) : Except (Abort RescueError) BridgeRescue := do
  let config ← requireInitialized b
  let lock ← getLockChecked lockId b
  failIf (¬ isReadyForRescue config lock b) (.error .thresholdNotReached)
  performRescue env config lock b

def refundExpired (lockId : ℕ) (b : BridgeRescue) : Except (Abort RescueError) BridgeRescue := do
  let config ← requireInitialized b
  let lock ← getLockChecked lockId b
  failIf (lock.status ≠ .locked) (.error .lockNotLocked)
  failIf lock.validatorConfirmed (.error .thresholdNotReached)
  performRefund env config lock b

end Calls

inductive RescueCall
  | setUp (admins : List Address) (threshold : UInt32) (validators : List Address)
      (validatorThreshold : UInt32) (token : Address) (timeout : UInt64)
  | lockTokens (sender : Address) (amount : i128.Value)
  | submitFailureProof (validator : Address) (lockId : ℕ)
  | approveRescue (admin : Address) (lockId : ℕ)
  | executeRescue (lockId : ℕ)
  | refundExpired (lockId : ℕ)

def rescueStep {here : Address} (i : Env here × RescueCall) (b : BridgeRescue) :
    Except (Abort RescueError) BridgeRescue :=
  match i.2 with
  | .setUp admins threshold validators validatorThreshold token timeout =>
    setUp admins threshold validators validatorThreshold token timeout b
  | .lockTokens sender amount => Prod.snd <$> lockTokens i.1 sender amount b
  | .submitFailureProof validator lockId => submitFailureProof i.1 validator lockId b
  | .approveRescue admin lockId => approveRescue i.1 admin lockId b
  | .executeRescue lockId => executeRescue i.1 lockId b
  | .refundExpired lockId => refundExpired i.1 lockId b

/-! ## Votes -/

/-- The members of a committee that voted on a lock. -/
def Ballots.voters (v : Ballots) (c : Committee) (lockId : ℕ) : Finset Address :=
  c.members.toFinset.filter fun a => (v.votes.lookup (lockId, a)).isSome = true

/-- The state after a vote. -/
def Ballots.cast (v : Ballots) (lockId : ℕ) (voter : Address) : Ballots :=
  ⟨v.votes.insert (lockId, voter) true, v.counts.insert lockId (v.count lockId + 1)⟩

/-- Everybody but the contract votes once, and the votes are counted. -/
structure Ballots.Fair (here : Address) (c : Committee) (v : Ballots) : Prop where
  counted : ∀ lockId, v.count lockId = (v.voters c lockId).card
  not_here : ∀ lockId, here ∉ v.voters c lockId

section Votes

variable {here a : Address} {c : Committee} {v v' : Ballots} {lockId k : ℕ}

theorem hasDuplicateAddresses_eq_false {addrs : List Address} :
    hasDuplicateAddresses addrs = false ↔ addrs.Nodup := by
  induction addrs with
  | nil => simp [hasDuplicateAddresses]
  | cons a addrs ih => simp [hasDuplicateAddresses, ih]

theorem Ballots.vote_eq_ok :
    v.vote lockId a = .ok v' ↔
      v.votes.lookup (lockId, a) = none ∧ v.count lockId + 1 < 2 ^ 32 ∧ v.cast lockId a = v' := by
  simp only [vote, bind_eq_ok, failIf_eq_ok, okOr_eq_ok, checkBits_eq_some, pure_eq_ok,
    Option.not_isSome_iff_eq_none, exists_const]
  constructor
  · rintro ⟨hnew, _, ⟨hlt, rfl⟩, rfl⟩
    exact ⟨hnew, hlt, rfl⟩
  · rintro ⟨hnew, hlt, rfl⟩
    exact ⟨hnew, _, ⟨hlt, rfl⟩, rfl⟩

theorem Ballots.mem_voters : a ∈ v.voters c lockId ↔
    a ∈ c.members ∧ (v.votes.lookup (lockId, a)).isSome = true := by
  simp [voters]

theorem Ballots.count_cast (v : Ballots) (lockId k : ℕ) (a : Address) :
    (v.cast lockId a).count k = if k = lockId then v.count k + 1 else v.count k := by
  rw [count, cast, Store.lookup_insert_ite]
  split_ifs with hk
  · rw [hk, Option.getD_some]
  · rfl

theorem Ballots.voters_cast (ha : a ∈ c.members) (v : Ballots) (lockId k : ℕ) :
    (v.cast lockId a).voters c k =
      if k = lockId then insert a (v.voters c k) else v.voters c k := by
  ext w
  rw [mem_voters, cast, Store.lookup_insert_ite]
  by_cases hk : k = lockId
  · rw [if_pos hk, Finset.mem_insert, mem_voters]
    by_cases hw : w = a
    · simp [hk, hw, ha]
    · simp [hw]
  · simp [hk, mem_voters]

theorem Ballots.Fair.cast (h : Fair here c v) (ha : a ∈ c.members) (hne : a ≠ here)
    (hnew : v.votes.lookup (lockId, a) = none) : Fair here c (v.cast lockId a) where
  counted k := by
    rw [count_cast, voters_cast ha, h.counted]
    split_ifs with hk
    · rw [Finset.card_insert_of_notMem]
      rw [mem_voters, hk, hnew]
      simp
    · rfl
  not_here k := by
    rw [voters_cast ha]
    split_ifs
    · simp [hne.symm, h.not_here k]
    · exact h.not_here k

/-- No more votes count than members can sign. -/
theorem Ballots.Fair.count_le (h : Fair here c v) (lockId : ℕ) :
    v.count lockId ≤ (c.members.toFinset.erase here).card := by
  rw [h.counted]
  refine Finset.card_le_card fun a ha => Finset.mem_erase.mpr ⟨?_, ?_⟩
  · rintro rfl
    exact h.not_here lockId ha
  · exact List.mem_toFinset.mpr (mem_voters.mp ha).1

end Votes

/-! ## What is kept -/

/-- What the contract has to pay for a lock. -/
def BridgeLock.due (lock : BridgeLock) : ℤ := if lock.status = .locked then lock.amount else 0

/-- A lock in order: it was confirmed by enough validators before its timeout, rescued only after
enough approvals as well, and cancelled only without the confirmation. -/
structure BridgeLock.Valid (here : Address) (config : RescueConfig) (b : BridgeRescue) (id : ℕ)
    (lock : BridgeLock) : Prop where
  id_eq : lock.id = id
  amount_pos : 0 < lock.amount
  sender_ne : lock.sender ≠ here
  confirmed_iff : lock.validatorConfirmed = true ↔
    config.validators.threshold ≤ b.validatorVotes.count id
  fits : lock.validatorConfirmed = true ∨ lock.status = .cancelledExpired →
    lock.claimTimestamp + config.timeout < 2 ^ 64
  rescued : lock.status = .rescued → lock.validatorConfirmed = true ∧
    config.admins.threshold ≤ b.adminApprovals.count id
  cancelled : lock.status = .cancelledExpired → lock.validatorConfirmed = false

structure Governed (here : Address) (start : Tokens) (config : RescueConfig) (b : BridgeRescue) :
    Prop where
  validators_pos : 0 < config.validators.threshold
  admins_nodup : config.admins.members.Nodup
  admins_le : config.admins.threshold ≤ config.admins.members.length
  admins_lt : config.admins.threshold < 2 ^ 32
  validatorVotes : b.validatorVotes.Fair here config.validators
  adminApprovals : b.adminApprovals.Fair here config.admins
  lock : ∀ id lock, b.locks.lookup id = some lock → lock.Valid here config b id
  unused : ∀ id, b.nextLockId ≤ id →
    b.locks.lookup id = none ∧ b.validatorVotes.count id = 0
  backed : ∀ c, b.tokens c here =
    start c here + owed (fun _ => config.token) BridgeLock.due b.locks c

/-- No lock waits for anything but votes or its timeout. -/
def Quiet (config : RescueConfig) (b : BridgeRescue) : Prop :=
  ∀ id lock, b.locks.lookup id = some lock → isReadyForRescue config lock b = false

/-- The invariant of all runs. -/
structure Sound (here : Address) (start : Tokens) (b : BridgeRescue) : Prop where
  unset : b.config = none → b = .fresh start
  governed : ∀ config, b.config = some config → Governed here start config b ∧ Quiet config b

/-- What an accepted call does to a lock that existed. -/
structure Follows (here : Address) (config : RescueConfig) (now : ℕ) (b : BridgeRescue)
    (lock : BridgeLock) (b' : BridgeRescue) (lock' : BridgeLock) : Prop where
  same : lock'.sender = lock.sender ∧ lock'.amount = lock.amount ∧
    lock'.claimTimestamp = lock.claimTimestamp
  confirmed : lock.validatorConfirmed = true → lock'.validatorConfirmed = true
  final : lock.status ≠ .locked → lock' = lock
  paid : lock'.status ≠ lock.status →
    b'.tokens = b.tokens.move config.token here lock.sender lock.amount
  inTime : lock'.validatorConfirmed ≠ lock.validatorConfirmed →
    now < lock.claimTimestamp + config.timeout
  late : lock'.status = .cancelledExpired → lock.status = .locked →
    lock.claimTimestamp + config.timeout ≤ now

/-- An accepted call keeps the setup and follows all locks. -/
structure Continues (here : Address) (config : RescueConfig) (now : ℕ) (b b' : BridgeRescue) :
    Prop where
  config_eq : b'.config = some config
  follows : ∀ id lock, b.locks.lookup id = some lock →
    ∃ lock', b'.locks.lookup id = some lock' ∧ Follows here config now b lock b' lock'

/-- The state after a lock was written. -/
def BridgeRescue.withLock (b : BridgeRescue) (lock : BridgeLock) : BridgeRescue :=
  { b with locks := b.locks.insert lock.id lock }

/-- The state after a lock was paid. -/
def BridgeRescue.paid (here : Address) (config : RescueConfig) (status : LockStatus)
    (b : BridgeRescue) (lock : BridgeLock) : BridgeRescue :=
  { b with tokens := b.tokens.move config.token here lock.sender lock.amount }.withLock
    { lock with status }

section Parts

variable {here : Address} {start : Tokens} {config : RescueConfig} {b b' : BridgeRescue}
  {lock : BridgeLock} {id : ℕ} {a : Address} {env : Env here} {status : LockStatus}

theorem isReadyForRescue_eq_true : isReadyForRescue config lock b = true ↔
    lock.status = .locked ∧ lock.validatorConfirmed = true ∧
      config.admins.threshold ≤ b.adminApprovals.count lock.id := by
  simp [isReadyForRescue, and_assoc]

theorem isExpired_eq_ok {expired : Bool} : isExpired env config lock = .ok expired ↔
    lock.claimTimestamp + config.timeout < 2 ^ 64 ∧
      decide (lock.claimTimestamp + config.timeout ≤ env.timestamp) = expired := by
  simp only [isExpired, lockExpirationInstant, bind_eq_ok, okOr_eq_ok, checkBits_eq_some,
    pure_eq_ok]
  constructor
  · rintro ⟨_, ⟨hlt, rfl⟩, hexpired⟩
    exact ⟨hlt, hexpired⟩
  · rintro ⟨hlt, hexpired⟩
    exact ⟨_, ⟨hlt, rfl⟩, hexpired⟩

theorem payOut_eq_ok : payOut env config status lock b = .ok b' ↔
    env.accepts b.tokens config.token here lock.sender lock.amount = true ∧
      b.paid here config status lock = b' := by
  simp only [payOut, bind_eq_ok, hostCall_eq_ok, Env.transfer_eq_ok, pure_eq_ok]
  constructor
  · rintro ⟨_, ⟨haccepts, rfl⟩, rfl⟩
    exact ⟨haccepts, rfl⟩
  · rintro ⟨haccepts, rfl⟩
    exact ⟨_, ⟨haccepts, rfl⟩, rfl⟩

theorem performRescue_eq_ok (hlocked : lock.status = .locked) :
    performRescue env config lock b = .ok b' ↔
      env.accepts b.tokens config.token here lock.sender lock.amount = true ∧
        b.paid here config .rescued lock = b' := by
  rw [performRescue, failIf_of_not (by simpa using hlocked), ok_bind, payOut_eq_ok]

/-- A lock is written without a payment. -/
theorem Governed.withLock (h : Governed here start config b) {old : BridgeLock}
    (hfound : b.locks.lookup lock.id = some old) (hvalid : lock.Valid here config b lock.id)
    (hdue : lock.due = old.due) : Governed here start config (b.withLock lock) where
  validators_pos := h.validators_pos
  admins_nodup := h.admins_nodup
  admins_le := h.admins_le
  admins_lt := h.admins_lt
  validatorVotes := h.validatorVotes
  adminApprovals := h.adminApprovals
  lock id l hl := by
    rcases Store.lookup_insert_eq_some.mp hl with ⟨rfl, rfl⟩ | ⟨_, hl⟩
    · exact { hvalid with }
    · exact { h.lock id l hl with }
  unused id hid := by
    obtain ⟨hnone, hcount⟩ := h.unused id hid
    have hne : id ≠ lock.id := by
      rintro rfl
      cases hnone.symm.trans hfound
    exact ⟨(Finmap.lookup_insert_of_ne _ hne).trans hnone, hcount⟩
  backed c := by
    have howed : owed (fun _ => config.token) BridgeLock.due (b.withLock lock).locks c =
        owed (fun _ => config.token) BridgeLock.due b.locks c +
          if config.token = c then lock.due - old.due else 0 :=
      owed_insert_of_lookup lock hfound rfl c
    rw [howed, hdue, sub_self, ite_self, add_zero]
    exact h.backed c

/-- A lock is paid with its last status. -/
theorem Governed.paid (h : Governed here start config b) (hfound : b.locks.lookup id = some lock)
    (hlocked : lock.status = .locked) (hstatus : status ≠ .locked)
    (hfits : lock.claimTimestamp + config.timeout < 2 ^ 64)
    (hrescued : status = .rescued → lock.validatorConfirmed = true ∧
      config.admins.threshold ≤ b.adminApprovals.count id)
    (hcancelled : status = .cancelledExpired → lock.validatorConfirmed = false) :
    Governed here start config (b.paid here config status lock) where
  validators_pos := h.validators_pos
  admins_nodup := h.admins_nodup
  admins_le := h.admins_le
  admins_lt := h.admins_lt
  validatorVotes := h.validatorVotes
  adminApprovals := h.adminApprovals
  lock k l hl := by
    have hold := h.lock id lock hfound
    rcases Store.lookup_insert_eq_some.mp hl with ⟨rfl, rfl⟩ | ⟨_, hl⟩
    · have hid := hold.id_eq
      subst hid
      exact ⟨rfl, hold.amount_pos, hold.sender_ne, hold.confirmed_iff, fun _ => hfits, hrescued,
        hcancelled⟩
    · exact { h.lock k l hl with }
  unused k hk := by
    obtain ⟨hnone, hcount⟩ := h.unused k hk
    have hne : k ≠ lock.id := by
      rintro rfl
      rw [(h.lock id lock hfound).id_eq] at hnone
      cases hnone.symm.trans hfound
    exact ⟨(Finmap.lookup_insert_of_ne _ hne).trans hnone, hcount⟩
  backed c := by
    have hold := h.lock id lock hfound
    have hstored : b.locks.lookup lock.id = some lock := hold.id_eq.symm ▸ hfound
    have howed : owed (fun _ => config.token) BridgeLock.due
        (b.paid here config status lock).locks c =
        owed (fun _ => config.token) BridgeLock.due b.locks c +
          if config.token = c then ({ lock with status } : BridgeLock).due - lock.due else 0 :=
      owed_insert_of_lookup ({ lock with status } : BridgeLock) hstored rfl c
    have htokens : (b.paid here config status lock).tokens c here =
        b.tokens c here - if c = config.token then lock.amount else 0 :=
      Tokens.move_apply_src _ _ _ hold.sender_ne.symm
    rw [howed, htokens, h.backed c, BridgeLock.due, if_neg hstatus, BridgeLock.due, if_pos hlocked]
    by_cases hc : c = config.token
    · rw [if_pos hc, if_pos hc.symm]
      omega
    · rw [if_neg hc, if_neg (Ne.symm hc)]
      omega

/-! ## Votes on a lock -/

/-- A lock after its confirmation was counted. -/
def BridgeLock.attested (config : RescueConfig) (votes : ℕ) (lock : BridgeLock) : BridgeLock :=
  if config.validators.threshold ≤ votes then { lock with validatorConfirmed := true } else lock

/-- The state after a failure was attested. -/
def BridgeRescue.attested (config : RescueConfig) (id : ℕ) (validator : Address)
    (lock : BridgeLock) (b : BridgeRescue) : BridgeRescue :=
  let validatorVotes := b.validatorVotes.cast id validator
  { b with
    validatorVotes
    locks :=
      if config.validators.threshold ≤ validatorVotes.count id then
        b.locks.insert lock.id (lock.attested config (validatorVotes.count id))
      else b.locks }

/-- The state after an approval. -/
def BridgeRescue.approved (id : ℕ) (admin : Address) (b : BridgeRescue) : BridgeRescue :=
  { b with adminApprovals := b.adminApprovals.cast id admin }

theorem attested_fields (config : RescueConfig) (lock : BridgeLock) (votes : ℕ) :
    (lock.attested config votes).id = lock.id ∧
    (lock.attested config votes).sender = lock.sender ∧
    (lock.attested config votes).amount = lock.amount ∧
    (lock.attested config votes).status = lock.status ∧
    (lock.attested config votes).claimTimestamp = lock.claimTimestamp := by
  unfold BridgeLock.attested
  split_ifs <;> exact ⟨rfl, rfl, rfl, rfl, rfl⟩

theorem lookup_attested (config : RescueConfig) (a : Address)
    (hfound : b.locks.lookup id = some lock) (hid : lock.id = id) (k : ℕ) :
    (b.attested config id a lock).locks.lookup k =
      if k = id then some (lock.attested config (b.validatorVotes.count id + 1))
      else b.locks.lookup k := by
  have hcount : (b.validatorVotes.cast id a).count id = b.validatorVotes.count id + 1 := by
    rw [Ballots.count_cast, if_pos rfl]
  rw [BridgeRescue.attested]
  dsimp only
  rw [hcount, hid]
  by_cases hconfirmed : config.validators.threshold ≤ b.validatorVotes.count id + 1
  · rw [if_pos hconfirmed, Store.lookup_insert_ite]
  · rw [if_neg hconfirmed, BridgeLock.attested, if_neg hconfirmed]
    split_ifs with hk
    · rw [hk, hfound]
    · rfl

theorem Governed.attested (h : Governed here start config b)
    (hfound : b.locks.lookup id = some lock) (hlocked : lock.status = .locked)
    (ha : a ∈ config.validators.members) (hne : a ≠ here)
    (hnew : b.validatorVotes.votes.lookup (id, a) = none)
    (hfits : lock.claimTimestamp + config.timeout < 2 ^ 64) :
    Governed here start config (b.attested config id a lock) := by
  have hold := h.lock id lock hfound
  have hcount : ∀ k, (b.attested config id a lock).validatorVotes.count k =
      if k = id then b.validatorVotes.count k + 1 else b.validatorVotes.count k :=
    fun k => Ballots.count_cast _ _ _ _
  have hlookup := lookup_attested config a hfound hold.id_eq
  obtain ⟨hidf, hsender, hamount, hstatus, hclaim⟩ :=
    attested_fields config lock (b.validatorVotes.count id + 1)
  refine ⟨h.validators_pos, h.admins_nodup, h.admins_le, h.admins_lt,
    h.validatorVotes.cast ha hne hnew, h.adminApprovals, fun k l hl => ?_, fun k hk => ?_,
    fun c => ?_⟩
  · rw [hlookup] at hl
    by_cases hk : k = id
    · subst hk
      rw [if_pos rfl] at hl
      obtain rfl := Option.some.inj hl
      refine ⟨hidf.trans hold.id_eq, hamount ▸ hold.amount_pos, hsender ▸ hold.sender_ne, ?_,
        fun _ => hclaim ▸ hfits, fun hs => ?_, fun hs => ?_⟩
      · rw [hcount, if_pos rfl, BridgeLock.attested]
        split_ifs with hconfirmed
        · exact iff_of_true rfl hconfirmed
        · refine iff_of_false (fun htrue => hconfirmed ?_) hconfirmed
          exact (hold.confirmed_iff.mp htrue).trans (Nat.le_succ _)
      · cases (hstatus.trans hlocked).symm.trans hs
      · cases (hstatus.trans hlocked).symm.trans hs
    · rw [if_neg hk] at hl
      have hother := h.lock k l hl
      refine { hother with confirmed_iff := ?_ }
      rw [hcount, if_neg hk]
      exact hother.confirmed_iff
  · obtain ⟨hnone, hzero⟩ := h.unused k hk
    have hkid : k ≠ id := by
      rintro rfl
      cases hnone.symm.trans hfound
    rw [hlookup, if_neg hkid, hcount, if_neg hkid]
    exact ⟨hnone, hzero⟩
  · refine (h.backed c).trans ?_
    have howed : owed (fun _ => config.token) BridgeLock.due
        (b.attested config id a lock).locks c =
        owed (fun _ => config.token) BridgeLock.due b.locks c := by
      rw [BridgeRescue.attested]
      dsimp only
      split_ifs with hconfirmed
      · have hstored : b.locks.lookup lock.id = some lock := hold.id_eq.symm ▸ hfound
        have hdue : ∀ votes, (lock.attested config votes).due = lock.due := by
          intro votes
          obtain ⟨-, -, hamount', hstatus', -⟩ := attested_fields config lock votes
          rw [BridgeLock.due, BridgeLock.due, hstatus', hamount']
        refine (owed_insert_of_lookup (lock.attested config _) hstored rfl c).trans ?_
        rw [hdue, sub_self, ite_self, add_zero]
      · rfl
    rw [howed]

theorem Governed.approved (h : Governed here start config b) (ha : a ∈ config.admins.members)
    (hne : a ≠ here) (hnew : b.adminApprovals.votes.lookup (id, a) = none) :
    Governed here start config (b.approved id a) where
  validators_pos := h.validators_pos
  admins_nodup := h.admins_nodup
  admins_le := h.admins_le
  admins_lt := h.admins_lt
  validatorVotes := h.validatorVotes
  adminApprovals := h.adminApprovals.cast ha hne hnew
  lock k l hl := by
    have hold := h.lock k l hl
    refine { hold with rescued := fun hs => ⟨(hold.rescued hs).1, (hold.rescued hs).2.trans ?_⟩ }
    rw [BridgeRescue.approved, Ballots.count_cast]
    split_ifs <;> omega
  unused := h.unused
  backed := h.backed

/-! ## One lock at a time -/

/-- A call that touches one lock. -/
structure Touches (id : ℕ) (b b' : BridgeRescue) : Prop where
  config_eq : b'.config = b.config
  lookup : ∀ k, k ≠ id → b'.locks.lookup k = b.locks.lookup k
  count : ∀ k, k ≠ id → b'.adminApprovals.count k = b.adminApprovals.count k

theorem Touches.trans {b₁ : BridgeRescue} (h : Touches id b b₁) (h' : Touches id b₁ b') :
    Touches id b b' where
  config_eq := h'.config_eq.trans h.config_eq
  lookup k hk := (h'.lookup k hk).trans (h.lookup k hk)
  count k hk := (h'.count k hk).trans (h.count k hk)

theorem touches_paid (hid : lock.id = id) : Touches id b (b.paid here config status lock) where
  config_eq := rfl
  lookup _ hk := Finmap.lookup_insert_of_ne _ (hid.symm ▸ hk)
  count _ _ := rfl

theorem touches_attested (hfound : b.locks.lookup id = some lock) (hid : lock.id = id) :
    Touches id b (b.attested config id a lock) where
  config_eq := rfl
  lookup k hk := by rw [lookup_attested config a hfound hid, if_neg hk]
  count _ _ := rfl

theorem touches_approved : Touches id b (b.approved id a) where
  config_eq := rfl
  lookup _ _ := rfl
  count k hk := by rw [BridgeRescue.approved, Ballots.count_cast, if_neg hk]

theorem Quiet.touches (hq : Quiet config b) (hgov : Governed here start config b')
    (ht : Touches id b b')
    (hid : ∀ l, b'.locks.lookup id = some l → isReadyForRescue config l b' = false) :
    Quiet config b' := by
  intro k l hl
  by_cases hk : k = id
  · exact hid l (hk ▸ hl)
  · have hold := hq k l (ht.lookup k hk ▸ hl)
    rw [isReadyForRescue, (hgov.lock k l hl).id_eq, ht.count k hk]
    rwa [isReadyForRescue, (hgov.lock k l hl).id_eq] at hold

theorem Follows.refl {now : ℕ} : Follows here config now b lock b' lock where
  same := ⟨rfl, rfl, rfl⟩
  confirmed := id
  final _ := rfl
  paid hne := absurd rfl hne
  inTime hne := absurd rfl hne
  late hs hlocked := by cases hs.symm.trans hlocked

theorem Touches.continues {now : ℕ} (ht : Touches id b b') (hconfig : b.config = some config)
    (hid : ∀ l, b.locks.lookup id = some l →
      ∃ l', b'.locks.lookup id = some l' ∧ Follows here config now b l b' l') :
    Continues here config now b b' where
  config_eq := ht.config_eq.trans hconfig
  follows k l hl := by
    by_cases hk : k = id
    · subst hk
      exact hid l hl
    · exact ⟨l, (ht.lookup k hk).trans hl, .refl⟩

end Parts

/-! ## Calls -/

/-- An accepted call after the setup keeps the books and follows all locks. -/
structure Steps (here : Address) (start : Tokens) (config : RescueConfig) (now : ℕ)
    (b b' : BridgeRescue) : Prop where
  governed : Governed here start config b'
  quiet : Quiet config b'
  continues : Continues here config now b b'

section Steps

variable {here : Address} {start : Tokens} {config : RescueConfig} {b b₁ b' : BridgeRescue}
  {lock lock₁ : BridgeLock} {id : ℕ} {a : Address} {env : Env here}

theorem lookup_paid {status : LockStatus} (hid : lock.id = id) :
    (b.paid here config status lock).locks.lookup id = some { lock with status } := by
  rw [← hid]
  exact Finmap.lookup_insert _

/-- After a vote the rescue follows if nothing is missing. -/
theorem Steps.of_vote (hq : Quiet config b) (hconfig : b.config = some config)
    (hgov : Governed here start config b₁) (ht : Touches id b b₁)
    (hfound : b.locks.lookup id = some lock) (hlocked : lock.status = .locked)
    (hfound₁ : b₁.locks.lookup id = some lock₁) (hstatus : lock₁.status = lock.status)
    (htokens : b₁.tokens = b.tokens)
    (hfollows : Follows here config env.timestamp b lock b₁ lock₁)
    (hcall : (if isReadyForRescue config lock₁ b₁ then performRescue env config lock₁ b₁
      else pure b₁) = .ok b') : Steps here start config env.timestamp b b' := by
  have hlocked₁ := hstatus.trans hlocked
  have hvalid := hgov.lock id lock₁ hfound₁
  split_ifs at hcall with hready
  · obtain ⟨-, hconfirmed, happroved⟩ := isReadyForRescue_eq_true.mp hready
    obtain ⟨-, rfl⟩ := (performRescue_eq_ok hlocked₁).mp hcall
    have hpaid : Governed here start config (b₁.paid here config .rescued lock₁) :=
      hgov.paid hfound₁ hlocked₁ (by simp) (hvalid.fits (.inl hconfirmed))
        (fun _ => ⟨hconfirmed, hvalid.id_eq ▸ happroved⟩) (fun h => by cases h)
    have htouches : Touches id b (b₁.paid here config .rescued lock₁) :=
      ht.trans (touches_paid hvalid.id_eq)
    have hlookup : (b₁.paid here config .rescued lock₁).locks.lookup id =
        some { lock₁ with status := .rescued } := lookup_paid hvalid.id_eq
    refine ⟨hpaid, hq.touches hpaid htouches fun l hl => ?_, htouches.continues hconfig
      fun l hl => ⟨_, hlookup, ?_⟩⟩
    · obtain rfl := Option.some.inj (hlookup.symm.trans hl)
      rfl
    · obtain rfl := Option.some.inj (hfound.symm.trans hl)
      obtain ⟨hsender, hamount, hclaim⟩ := hfollows.same
      refine ⟨hfollows.same, hfollows.confirmed, fun hne => absurd hlocked hne, fun _ => ?_,
        hfollows.inTime, fun h => by cases h⟩
      rw [← hsender, ← hamount, ← htokens]
      rfl
  · obtain rfl := pure_eq_ok.mp hcall
    refine ⟨hgov, hq.touches hgov ht fun l hl => ?_, ht.continues hconfig fun l hl => ?_⟩
    · obtain rfl := Option.some.inj (hfound₁.symm.trans hl)
      exact Bool.not_eq_true _ ▸ hready
    · obtain rfl := Option.some.inj (hfound.symm.trans hl)
      exact ⟨_, hfound₁, hfollows⟩

theorem Steps.submitFailureProof (h : Governed here start config b) (hq : Quiet config b)
    (hconfig : b.config = some config) (hcall : submitFailureProof env a id b = .ok b') :
    Steps here start config env.timestamp b b' := by
  simp only [LockRescue.submitFailureProof, requireInitialized, getLockChecked, bind_eq_ok,
    okOr_eq_ok, hostCall_eq_ok, Env.requireAuth_eq_ok, failIf_eq_ok, not_not, isExpired_eq_ok,
    Ballots.vote_eq_ok] at hcall
  obtain ⟨_, hconfig', _, hauth, _, hmem, lock, hfound, _, hlocked, _, ⟨hfits, rfl⟩, _, hexpired, _,
    ⟨hnew, -, rfl⟩, hcall⟩ := hcall
  obtain rfl := Option.some.inj (hconfig.symm.trans hconfig')
  have hid := (h.lock id lock hfound).id_eq
  have hne := Env.ne_here_of_auth hauth
  have hcount : (b.validatorVotes.cast id a).count id = b.validatorVotes.count id + 1 := by
    rw [Ballots.count_cast, if_pos rfl]
  have hlock : (if config.validators.threshold ≤ (b.validatorVotes.cast id a).count id then
      { lock with validatorConfirmed := true } else lock) =
      lock.attested config (b.validatorVotes.count id + 1) := by
    rw [hcount]
    rfl
  have hstate : ({ b with
      validatorVotes := b.validatorVotes.cast id a
      locks := if config.validators.threshold ≤ (b.validatorVotes.cast id a).count id then
        b.locks.insert (lock.attested config (b.validatorVotes.count id + 1)).id
          (lock.attested config (b.validatorVotes.count id + 1)) else b.locks } : BridgeRescue) =
      b.attested config id a lock := by
    rw [(attested_fields config lock _).1, BridgeRescue.attested, hcount]
  rw [hlock, hstate] at hcall
  obtain ⟨-, hsender, hamount, hstatus, hclaim⟩ :=
    attested_fields config lock (b.validatorVotes.count id + 1)
  refine .of_vote hq hconfig (h.attested hfound hlocked hmem hne hnew hfits)
    (touches_attested hfound hid) hfound hlocked
    ((lookup_attested config a hfound hid id).trans (if_pos rfl)) hstatus rfl
    ⟨⟨hsender, hamount, hclaim⟩, fun hconfirmed => ?_, fun hne => absurd hlocked hne,
      fun hne => absurd hstatus hne, fun _ => ?_, fun hs => ?_⟩ hcall
  · unfold BridgeLock.attested
    split_ifs
    · rfl
    · exact hconfirmed
  · simpa using hexpired
  · cases (hstatus.trans hlocked).symm.trans hs

theorem approveRescue_eq_ok (hconfig : b.config = some config)
    (hfound : b.locks.lookup id = some lock) (hlocked : lock.status = .locked) :
    approveRescue env a id b = .ok b' ↔
      env.auth a = true ∧ a ∈ config.admins.members ∧
        b.adminApprovals.votes.lookup (id, a) = none ∧ b.adminApprovals.count id + 1 < 2 ^ 32 ∧
        (if isReadyForRescue config lock (b.approved id a) then
          performRescue env config lock (b.approved id a)
        else pure (b.approved id a)) = .ok b' := by
  simp only [approveRescue, requireInitialized, getLockChecked, bind_eq_ok, okOr_eq_ok,
    hostCall_eq_ok, Env.requireAuth_eq_ok, failIf_eq_ok, not_not, Ballots.vote_eq_ok]
  constructor
  · rintro ⟨_, hconfig', _, hauth, _, hmem, _, hfound', _, _, _, ⟨hnew, hlt, rfl⟩, hcall⟩
    obtain rfl := Option.some.inj (hconfig.symm.trans hconfig')
    obtain rfl := Option.some.inj (hfound.symm.trans hfound')
    exact ⟨hauth, hmem, hnew, hlt, hcall⟩
  · rintro ⟨hauth, hmem, hnew, hlt, hcall⟩
    exact ⟨_, hconfig, (), hauth, (), hmem, _, hfound, (), hlocked, _, ⟨hnew, hlt, rfl⟩, hcall⟩

theorem Steps.approveRescue (h : Governed here start config b) (hq : Quiet config b)
    (hconfig : b.config = some config) (hcall : approveRescue env a id b = .ok b') :
    Steps here start config env.timestamp b b' := by
  obtain ⟨lock, hfound, hlocked⟩ :
      ∃ lock, b.locks.lookup id = some lock ∧ lock.status = .locked := by
    simp only [LockRescue.approveRescue, getLockChecked, bind_eq_ok, okOr_eq_ok, failIf_eq_ok,
      not_not] at hcall
    obtain ⟨_, _, _, _, _, _, lock, hfound, _, hlocked, _⟩ := hcall
    exact ⟨lock, hfound, hlocked⟩
  obtain ⟨hauth, hmem, hnew, -, hcall⟩ := (approveRescue_eq_ok hconfig hfound hlocked).mp hcall
  exact .of_vote hq hconfig (h.approved hmem (Env.ne_here_of_auth hauth) hnew) touches_approved
    hfound hlocked hfound rfl rfl .refl hcall

theorem Steps.lockTokens (h : Governed here start config b) (hq : Quiet config b)
    (hconfig : b.config = some config) {sender : Address} {amount : i128.Value} {n : ℕ}
    (hcall : lockTokens env sender amount b = .ok (n, b')) :
    Steps here start config env.timestamp b b' := by
  simp only [LockRescue.lockTokens, requireInitialized, bind_eq_ok, okOr_eq_ok, hostCall_eq_ok,
    Env.requireAuth_eq_ok, failIf_eq_ok, checkBits_eq_some, Env.transfer_eq_ok, pure_eq_ok,
    Prod.mk.injEq, not_le] at hcall
  obtain ⟨_, hconfig', _, hauth, _, hpos, _, ⟨-, rfl⟩, _, ⟨-, rfl⟩, rfl, rfl⟩ := hcall
  obtain rfl := Option.some.inj (hconfig.symm.trans hconfig')
  obtain ⟨hnone, hzero⟩ := h.unused _ le_rfl
  have hsender := Env.ne_here_of_auth hauth
  have hgov : Governed here start config { b with
      tokens := b.tokens.move config.token sender here amount
      nextLockId := b.nextLockId + 1
      locks := b.locks.insert b.nextLockId
        ⟨b.nextLockId, sender, amount, .locked, false, env.timestamp⟩ } := by
    refine ⟨h.validators_pos, h.admins_nodup, h.admins_le, h.admins_lt, h.validatorVotes,
      h.adminApprovals, fun k l hl => ?_, fun k hk => ?_, fun c => ?_⟩
    · rcases Store.lookup_insert_eq_some.mp hl with ⟨rfl, rfl⟩ | ⟨_, hl⟩
      · refine ⟨rfl, hpos, hsender, iff_of_false (by simp) ?_, by simp, by simp, by simp⟩
        dsimp only
        rw [hzero]
        exact Nat.not_le.mpr h.validators_pos
      · exact { h.lock k l hl with }
    · have hlt : b.nextLockId < k := hk
      obtain ⟨hnone', hzero'⟩ := h.unused k hlt.le
      exact ⟨(Finmap.lookup_insert_of_ne _ hlt.ne').trans hnone', hzero'⟩
    · dsimp only
      rw [Tokens.move_apply_dst _ _ _ hsender.symm, owed_insert_of_none _ hnone, h.backed c,
        BridgeLock.due, if_pos rfl]
      simp only [eq_comm (a := c)]
      omega
  have htouches : Touches b.nextLockId b { b with
      tokens := b.tokens.move config.token sender here amount
      nextLockId := b.nextLockId + 1
      locks := b.locks.insert b.nextLockId
        ⟨b.nextLockId, sender, amount, .locked, false, env.timestamp⟩ } :=
    ⟨rfl, fun k hk => Finmap.lookup_insert_of_ne _ hk, fun _ _ => rfl⟩
  refine ⟨hgov, hq.touches hgov htouches fun l hl => ?_, htouches.continues hconfig fun l hl => ?_⟩
  · obtain rfl := Option.some.inj ((Finmap.lookup_insert _).symm.trans hl)
    rfl
  · cases hnone.symm.trans hl

theorem performRefund_eq_ok (hlocked : lock.status = .locked) :
    performRefund env config lock b = .ok b' ↔
      lock.claimTimestamp + config.timeout < 2 ^ 64 ∧
        lock.claimTimestamp + config.timeout ≤ env.timestamp ∧
        env.accepts b.tokens config.token here lock.sender lock.amount = true ∧
        b.paid here config .cancelledExpired lock = b' := by
  rw [performRefund, failIf_of_not (by simpa using hlocked), ok_bind]
  simp only [bind_eq_ok, isExpired_eq_ok, failIf_eq_ok, not_not, payOut_eq_ok, exists_const]
  constructor
  · rintro ⟨_, ⟨hfits, rfl⟩, hexpired, hpaid⟩
    exact ⟨hfits, of_decide_eq_true hexpired, hpaid⟩
  · rintro ⟨hfits, hexpired, hpaid⟩
    exact ⟨_, ⟨hfits, rfl⟩, decide_eq_true hexpired, hpaid⟩

theorem refundExpired_eq_ok (hconfig : b.config = some config)
    (hfound : b.locks.lookup id = some lock) : refundExpired env id b = .ok b' ↔
      lock.status = .locked ∧ lock.validatorConfirmed = false ∧
        performRefund env config lock b = .ok b' := by
  simp only [refundExpired, requireInitialized, getLockChecked, bind_eq_ok, okOr_eq_ok,
    failIf_eq_ok, not_not, hconfig, hfound, Option.some.injEq, Bool.not_eq_true, exists_const]
  constructor
  · rintro ⟨_, rfl, _, rfl, hcall⟩
    exact hcall
  · rintro hcall
    exact ⟨_, rfl, _, rfl, hcall⟩

theorem Steps.refundExpired (h : Governed here start config b) (hq : Quiet config b)
    (hconfig : b.config = some config) (hcall : refundExpired env id b = .ok b') :
    Steps here start config env.timestamp b b' := by
  obtain ⟨lock, hfound⟩ : ∃ lock, b.locks.lookup id = some lock := by
    simp only [LockRescue.refundExpired, getLockChecked, bind_eq_ok, okOr_eq_ok] at hcall
    obtain ⟨_, _, lock, hfound, _⟩ := hcall
    exact ⟨lock, hfound⟩
  obtain ⟨hlocked, hconfirmed, hcall⟩ := (refundExpired_eq_ok hconfig hfound).mp hcall
  obtain ⟨hfits, hexpired, -, rfl⟩ := (performRefund_eq_ok hlocked).mp hcall
  have hid := (h.lock id lock hfound).id_eq
  have hpaid : Governed here start config (b.paid here config .cancelledExpired lock) :=
    h.paid hfound hlocked (by simp) hfits (fun h => by cases h) fun _ => hconfirmed
  have htouches : Touches id b (b.paid here config .cancelledExpired lock) := touches_paid hid
  have hlookup : (b.paid here config .cancelledExpired lock).locks.lookup id =
      some { lock with status := .cancelledExpired } := lookup_paid hid
  refine ⟨hpaid, hq.touches hpaid htouches fun l hl => ?_, htouches.continues hconfig
    fun l hl => ⟨_, hlookup, ?_⟩⟩
  · obtain rfl := Option.some.inj (hlookup.symm.trans hl)
    rfl
  · obtain rfl := Option.some.inj (hfound.symm.trans hl)
    exact ⟨⟨rfl, rfl, rfl⟩, fun hc => hc, fun hne => absurd hlocked hne, fun _ => rfl,
      fun hne => absurd rfl hne, fun _ _ => hexpired⟩

/-- The keeper never finds a rescue that is left to be done. -/
theorem Quiet.executeRescue_ne_ok (hq : Quiet config b) (hconfig : b.config = some config) :
    executeRescue env id b ≠ .ok b' := by
  intro hcall
  simp only [executeRescue, requireInitialized, getLockChecked, bind_eq_ok, okOr_eq_ok,
    failIf_eq_ok, not_not] at hcall
  obtain ⟨_, hconfig', lock, hfound, _, hready, _⟩ := hcall
  obtain rfl := Option.some.inj (hconfig.symm.trans hconfig')
  rw [hq id lock hfound] at hready
  cases hready

theorem governed_setUp (here : Address) {admins validators : List Address}
    {threshold validatorThreshold : UInt32} {token : Address} {timeout : UInt64}
    (hcall : setUp admins threshold validators validatorThreshold token timeout (.fresh start) =
      .ok b') :
    ∃ config, b'.config = some config ∧ Governed here start config b' ∧ Quiet config b' := by
  simp only [setUp, bind_eq_ok, failIf_eq_ok, pure_eq_ok, not_or, not_lt, Bool.not_eq_true,
    hasDuplicateAddresses_eq_false] at hcall
  obtain ⟨_, _, _, ⟨_, hadmins⟩, _, ⟨hpos, _⟩, _, ⟨hnodup, _⟩, rfl⟩ := hcall
  refine ⟨_, rfl, ⟨?_, hnodup, hadmins, UInt32.toNat_lt _, ⟨fun _ => ?_, fun _ => ?_⟩,
    ⟨fun _ => ?_, fun _ => ?_⟩, fun _ _ h => (by cases h), fun _ _ => ⟨rfl, rfl⟩, fun c => ?_⟩,
    fun _ _ h => by cases h⟩
  · rw [Nat.pos_iff_ne_zero]
    exact fun hzero => hpos (UInt32.toNat_inj.mp hzero)
  · simp [Ballots.voters, Ballots.count, BridgeRescue.fresh]
  · simp [Ballots.voters, BridgeRescue.fresh]
  · simp [Ballots.voters, Ballots.count, BridgeRescue.fresh]
  · simp [Ballots.voters, BridgeRescue.fresh]
  · simp [BridgeRescue.fresh]

theorem rescueStep_steps (h : Governed here start config b) (hq : Quiet config b)
    (hconfig : b.config = some config) {i : Env here × RescueCall}
    (hstep : rescueStep i b = .ok b') : Steps here start config i.1.timestamp b b' := by
  obtain ⟨env, call⟩ := i
  cases call with
  | setUp admins threshold validators validatorThreshold token timeout =>
    obtain ⟨_, hunset, _⟩ := bind_eq_ok.mp hstep
    rw [failIf_eq_ok, hconfig] at hunset
    exact absurd rfl hunset
  | lockTokens sender amount =>
    obtain ⟨n, hcall⟩ := snd_map_eq_ok.mp hstep
    exact .lockTokens h hq hconfig hcall
  | submitFailureProof validator lockId => exact .submitFailureProof h hq hconfig hstep
  | approveRescue admin lockId => exact .approveRescue h hq hconfig hstep
  | executeRescue lockId => exact absurd hstep (hq.executeRescue_ne_ok hconfig)
  | refundExpired lockId => exact .refundExpired h hq hconfig hstep

theorem Sound.step (h : Sound here start b) {i : Env here × RescueCall}
    (hstep : rescueStep i b = .ok b') : Sound here start b' := by
  cases hconfig : b.config with
  | some config =>
    obtain ⟨hgov, hq⟩ := h.governed config hconfig
    have hsteps := rescueStep_steps hgov hq hconfig hstep
    have hsame := hsteps.continues.config_eq
    refine ⟨fun hnone => ?_, fun config' hconfig' => ?_⟩
    · cases hsame.symm.trans hnone
    obtain rfl := Option.some.inj (hsame.symm.trans hconfig')
    exact ⟨hsteps.governed, hsteps.quiet⟩
  | none =>
    have hunset : ∀ config, requireInitialized b ≠ .ok config := by
      intro config hset
      rw [requireInitialized, okOr_eq_ok, hconfig] at hset
      cases hset
    obtain ⟨env, call⟩ := i
    cases call with
    | setUp admins threshold validators validatorThreshold token timeout =>
      rw [h.unset hconfig] at hstep
      obtain ⟨config, hsome, hgov, hq⟩ := governed_setUp here hstep
      refine ⟨fun hnone => ?_, fun config' hconfig' => ?_⟩
      · cases hsome.symm.trans hnone
      obtain rfl := Option.some.inj (hsome.symm.trans hconfig')
      exact ⟨hgov, hq⟩
    | lockTokens =>
      obtain ⟨_, hcall⟩ := snd_map_eq_ok.mp hstep
      obtain ⟨_, hset, _⟩ := bind_eq_ok.mp hcall
      exact absurd hset (hunset _)
    | _ =>
      obtain ⟨_, hset, _⟩ := bind_eq_ok.mp hstep
      exact absurd hset (hunset _)

theorem sound_fresh : Sound here start (.fresh start) := ⟨fun _ => rfl, fun _ h => by cases h⟩

end Steps

/-- In every run the contract holds what it had at first and the amounts of the open locks, and
counts distinct votes. A lock is rescued only with both committees, and cancelled only without a
confirmation after its timeout; either happens once and pays its sender. The keeper call, which
is meant to catch up on rescues, is never accepted. -/
theorem locks_settle_once {here : Address} (start : Tokens) (run : List (Env here × RescueCall)) :
    Throughout rescueStep (fun b => ∀ config, b.config = some config →
      (∀ c, b.tokens c here =
        start c here + owed (fun _ => config.token) BridgeLock.due b.locks c) ∧
      (∀ id, b.validatorVotes.count id = (b.validatorVotes.voters config.validators id).card ∧
        b.adminApprovals.count id = (b.adminApprovals.voters config.admins id).card) ∧
      (∀ id lock, b.locks.lookup id = some lock → lock.Valid here config b id) ∧
      ∀ (env : Env here) id b', executeRescue env id b ≠ .ok b') (.fresh start) run ∧
    Along rescueStep (fun b i => ∀ config, b.config = some config → ∀ b',
      rescueStep i b = .ok b' → Continues here config i.1.timestamp b b') (.fresh start) run := by
  have hstep : ∀ b (i : Env here × RescueCall) b', Sound here start b →
      rescueStep i b = .ok b' → Sound here start b' := fun b i b' h => h.step
  constructor
  · refine throughout_of_invariant hstep (fun b h config hconfig => ?_) sound_fresh run
    obtain ⟨hgov, hq⟩ := h.governed config hconfig
    exact ⟨hgov.backed, fun id => ⟨hgov.validatorVotes.counted id, hgov.adminApprovals.counted id⟩,
      hgov.lock, fun env id b' => hq.executeRescue_ne_ok hconfig⟩
  · refine along_of_invariant hstep (fun b i h config hconfig b' hok => ?_) sound_fresh run
    obtain ⟨hgov, hq⟩ := h.governed config hconfig
    exact (rescueStep_steps hgov hq hconfig hok).continues

/-! ## Whether a lock is ever paid -/

section Liveness

variable {here : Address} {start : Tokens} {config : RescueConfig} {b b' : BridgeRescue}
  {lock : BridgeLock} {id : ℕ} {a : Address}

/-- Everybody but the contract signs, and the token pays. -/
def rescueEnv (here : Address) (timestamp : ℕ) : Env here :=
  { Env.standard here 8 none with timestamp }

/-- A state that comes later in a run, as far as one lock is concerned. -/
structure Later (here : Address) (start : Tokens) (config : RescueConfig) (id : ℕ)
    (lock : BridgeLock) (b' : BridgeRescue) : Prop where
  sound : Sound here start b'
  config_eq : b'.config = some config
  lookup : ∃ lock', b'.locks.lookup id = some lock' ∧
    lock'.claimTimestamp = lock.claimTimestamp ∧
    (lock.validatorConfirmed = true → lock'.validatorConfirmed = true)

theorem Later.step (h : Later here start config id lock b) {i : Env here × RescueCall}
    (hstep : rescueStep i b = .ok b') : Later here start config id lock b' := by
  obtain ⟨lock₁, hfound, hclaim, hconfirmed⟩ := h.lookup
  obtain ⟨hgov, hq⟩ := h.sound.governed config h.config_eq
  have hcontinues := (rescueStep_steps hgov hq h.config_eq hstep).continues
  obtain ⟨lock', hfound', hfollows⟩ := hcontinues.follows id lock₁ hfound
  exact ⟨h.sound.step hstep, hcontinues.config_eq, lock', hfound',
    hfollows.same.2.2.trans hclaim, fun hc => hfollows.confirmed (hconfirmed hc)⟩

theorem Sound.later (h : Sound here start b) (hconfig : b.config = some config)
    (hfound : b.locks.lookup id = some lock) (post : List (Env here × RescueCall)) :
    Later here start config id lock (runAll rescueStep b post) :=
  runAll_induction (fun _ _ _ h hstep => h.step hstep)
    ⟨h, hconfig, lock, hfound, rfl, fun hc => hc⟩ post

/-- What the contract holds covers every open lock. -/
theorem Governed.covers (h : Governed here start config b) (h0 : ∀ token, 0 ≤ start token here)
    (hfound : b.locks.lookup id = some lock) (hlocked : lock.status = .locked) :
    lock.amount ≤ b.tokens config.token here := by
  have hnonneg : ∀ k l, b.locks.lookup k = some l → 0 ≤ l.due := by
    intro k l hl
    rw [BridgeLock.due]
    split_ifs
    · exact (h.lock k l hl).amount_pos.le
    · exact le_rfl
  have hdue : lock.due ≤ owed (fun _ => config.token) BridgeLock.due b.locks config.token :=
    amount_le_owed hnonneg hfound
  rw [BridgeLock.due, if_pos hlocked] at hdue
  rw [h.backed]
  have := h0 config.token
  omega

theorem Governed.accepts (h : Governed here start config b) (h0 : ∀ token, 0 ≤ start token here)
    (hfound : b.locks.lookup id = some lock) (hlocked : lock.status = .locked) (timestamp : ℕ) :
    (rescueEnv here timestamp).accepts b.tokens config.token here lock.sender lock.amount =
      true := by
  have hpos := (h.lock id lock hfound).amount_pos
  have hcovers := h.covers h0 hfound hlocked
  simp only [rescueEnv, Env.standard, decide_eq_true_eq]
  exact ⟨hpos.le, hcovers⟩

/-- When an administrator was asked to approve, the lock is paid, or it did if it can sign. -/
theorem approval_step (hgov : Governed here start config b) (hq : Quiet config b)
    (h0 : ∀ token, 0 ≤ start token here) (hconfig : b.config = some config)
    (hfound : b.locks.lookup id = some lock) (hlocked : lock.status = .locked)
    (hconfirmed : lock.validatorConfirmed = true) (hmem : a ∈ config.admins.members)
    (hb' : commit rescueStep b (rescueEnv here 0, .approveRescue a id) = b') :
    (∃ lock', b'.locks.lookup id = some lock' ∧ lock'.status ≠ .locked) ∨
      b'.locks.lookup id = some lock ∧
        (a ≠ here → a ∈ b'.adminApprovals.voters config.admins id) ∧
        b.adminApprovals.voters config.admins id ⊆ b'.adminApprovals.voters config.admins id := by
  have hiff := fun b₂ => show approveRescue (rescueEnv here 0) a id b = .ok b₂ ↔ _ from
    approveRescue_eq_ok hconfig hfound hlocked
  by_cases hdone : a = here ∨ a ∈ b.adminApprovals.voters config.admins id
  · -- The call is not accepted.
    have hrefused : ∀ b₂, rescueStep (rescueEnv here 0, .approveRescue a id) b ≠ .ok b₂ := by
      intro b₂ hok
      obtain ⟨hauth, -, hnew, -⟩ := (hiff b₂).mp hok
      rcases hdone with rfl | hdone
      · exact absurd hauth (by simp [rescueEnv, Env.standard])
      · have hsome := (Ballots.mem_voters.mp hdone).2
        rw [hnew] at hsome
        cases hsome
    have hsame : commit rescueStep b (rescueEnv here 0, .approveRescue a id) = b :=
      commit_induction (P := fun s => s = b) rfl fun b₂ hok => absurd hok (hrefused b₂)
    obtain rfl := hsame.symm.trans hb'
    exact .inr ⟨hfound, hdone.resolve_left, subset_rfl⟩
  · obtain ⟨hne, hnot⟩ := not_or.mp hdone
    have hauth : (rescueEnv here 0).auth a = true := by simpa [rescueEnv, Env.standard] using hne
    have hnew : b.adminApprovals.votes.lookup (id, a) = none := by
      rw [Ballots.mem_voters, not_and, Option.not_isSome_iff_eq_none] at hnot
      exact hnot hmem
    have hid := (hgov.lock id lock hfound).id_eq
    have hlt : b.adminApprovals.count id < config.admins.threshold := by
      have hwait := hq id lock hfound
      rw [isReadyForRescue, hlocked, hconfirmed, hid] at hwait
      simpa using hwait
    have hfits : b.adminApprovals.count id + 1 < 2 ^ 32 := lt_of_le_of_lt hlt hgov.admins_lt
    by_cases hready : isReadyForRescue config lock (b.approved id a) = true
    · have hok : rescueStep (rescueEnv here 0, .approveRescue a id) b =
          .ok ((b.approved id a).paid here config .rescued lock) := by
        refine (hiff _).mpr ⟨hauth, hmem, hnew, hfits, ?_⟩
        rw [if_pos hready]
        exact (performRescue_eq_ok hlocked).mpr ⟨hgov.accepts h0 hfound hlocked 0, rfl⟩
      obtain rfl := (commit_of_ok hok).symm.trans hb'
      exact .inl ⟨_, lookup_paid hid, by simp⟩
    · have hok : rescueStep (rescueEnv here 0, .approveRescue a id) b =
          .ok (b.approved id a) := by
        refine (hiff _).mpr ⟨hauth, hmem, hnew, hfits, ?_⟩
        rw [if_neg hready]
        rfl
      obtain rfl := (commit_of_ok hok).symm.trans hb'
      have hvoters : (b.approved id a).adminApprovals.voters config.admins id =
          insert a (b.adminApprovals.voters config.admins id) :=
        (Ballots.voters_cast hmem _ _ _).trans (if_pos rfl)
      rw [hvoters]
      exact .inr ⟨hfound, fun _ => Finset.mem_insert_self _ _, Finset.subset_insert _ _⟩

/-- Ask some administrators to approve the rescue of a lock. -/
def askAll (here : Address) (id : ℕ) (admins : List Address) : List (Env here × RescueCall) :=
  admins.map fun a => (rescueEnv here 0, .approveRescue a id)

/-- After that the lock is paid, or all of them that can sign have approved. -/
theorem approvals_run (h : Sound here start b) (h0 : ∀ token, 0 ≤ start token here)
    (hconfig : b.config = some config) (hfound : b.locks.lookup id = some lock)
    (hlocked : lock.status = .locked) (hconfirmed : lock.validatorConfirmed = true)
    (admins : List Address) (hadmins : ∀ a ∈ admins, a ∈ config.admins.members) :
    (∃ lock', (runAll rescueStep b (askAll here id admins)).locks.lookup id = some lock' ∧
      lock'.status ≠ .locked) ∨
    (runAll rescueStep b (askAll here id admins)).locks.lookup id = some lock ∧
      ∀ a ∈ admins, a ≠ here → a ∈ (runAll rescueStep b
        (askAll here id admins)).adminApprovals.voters config.admins id := by
  induction admins using List.reverseRecOn with
  | nil => exact .inr ⟨hfound, fun _ h => by cases h⟩
  | append_singleton admins a ih =>
    have hmem := hadmins a (by simp)
    have hlater := h.later hconfig hfound (askAll here id admins)
    obtain ⟨hgov, hq⟩ := hlater.sound.governed config hlater.config_eq
    have hlast : runAll rescueStep b (askAll here id (admins ++ [a])) =
        commit rescueStep (runAll rescueStep b (askAll here id admins))
          (rescueEnv here 0, .approveRescue a id) := by
      rw [askAll, List.map_append, runAll_append]
      rfl
    rw [hlast]
    rcases ih fun a' ha' => hadmins a' (List.mem_append_left _ ha') with
      ⟨lock', hfound', hpaid⟩ | ⟨hfound', hvoted⟩
    · left
      cases hstep : rescueStep (rescueEnv here 0, .approveRescue a id)
          (runAll rescueStep b (askAll here id admins)) with
      | error e =>
        rw [commit_of_error hstep]
        exact ⟨lock', hfound', hpaid⟩
      | ok b₂ =>
        rw [commit_of_ok hstep]
        obtain ⟨l, hl, hfollows⟩ :=
          (rescueStep_steps hgov hq hlater.config_eq hstep).continues.follows id lock' hfound'
        exact ⟨lock', hfollows.final hpaid ▸ hl, hpaid⟩
    · rcases approval_step hgov hq h0 hlater.config_eq hfound' hlocked hconfirmed hmem rfl with
        hpaid | ⟨hkept, hasked, hsubset⟩
      · exact .inl hpaid
      · refine .inr ⟨hkept, fun a' ha' hne => ?_⟩
        rcases List.mem_append.mp ha' with ha' | ha'
        · exact hsubset (hvoted a' ha' hne)
        · obtain rfl := List.mem_singleton.mp ha'
          exact hasked hne

theorem Sound.settles_of_confirmed (h : Sound here start b) (h0 : ∀ token, 0 ≤ start token here)
    (hconfig : b.config = some config) (hfound : b.locks.lookup id = some lock)
    (hlocked : lock.status = .locked) (hconfirmed : lock.validatorConfirmed = true)
    (hsigners : config.admins.threshold ≤ (config.admins.members.toFinset.erase here).card) :
    ∃ (post : List (Env here × RescueCall)) (lock' : BridgeLock),
      (runAll rescueStep b post).locks.lookup id = some lock' ∧ lock'.status ≠ .locked := by
  have hlater := h.later hconfig hfound (askAll here id config.admins.members)
  refine ⟨askAll here id config.admins.members, ?_⟩
  rcases approvals_run h h0 hconfig hfound hlocked hconfirmed config.admins.members
    fun _ ha => ha with hpaid | ⟨hfound', hvoted⟩
  · exact hpaid
  · obtain ⟨hgov, hq⟩ := hlater.sound.governed config hlater.config_eq
    have hsubset : config.admins.members.toFinset.erase here ⊆ (runAll rescueStep b
        (askAll here id config.admins.members)).adminApprovals.voters config.admins id := by
      intro a ha
      obtain ⟨hne, hmem⟩ := Finset.mem_erase.mp ha
      exact hvoted a (List.mem_toFinset.mp hmem) hne
    have hcount := hsigners.trans (Finset.card_le_card hsubset)
    rw [← hgov.adminApprovals.counted] at hcount
    have hid := (hgov.lock id lock hfound').id_eq
    cases (hq id lock hfound').symm.trans
      (isReadyForRescue_eq_true.mpr ⟨hlocked, hconfirmed, hid.symm ▸ hcount⟩)

theorem Sound.settles_of_unconfirmed (h : Sound here start b)
    (h0 : ∀ token, 0 ≤ start token here) (hconfig : b.config = some config)
    (hfound : b.locks.lookup id = some lock) (hlocked : lock.status = .locked)
    (hconfirmed : lock.validatorConfirmed = false)
    (hfits : lock.claimTimestamp + config.timeout < 2 ^ 64) :
    ∃ (post : List (Env here × RescueCall)) (lock' : BridgeLock),
      (runAll rescueStep b post).locks.lookup id = some lock' ∧ lock'.status ≠ .locked := by
  obtain ⟨hgov, -⟩ := h.governed config hconfig
  have hok : rescueStep
      (rescueEnv here (lock.claimTimestamp + config.timeout), .refundExpired id) b =
      .ok (b.paid here config .cancelledExpired lock) :=
    (refundExpired_eq_ok hconfig hfound).mpr ⟨hlocked, hconfirmed, (performRefund_eq_ok hlocked).mpr
      ⟨hfits, le_rfl, hgov.accepts h0 hfound hlocked _, rfl⟩⟩
  refine ⟨[(rescueEnv here (lock.claimTimestamp + config.timeout), .refundExpired id)],
    { lock with status := .cancelledExpired }, ?_, by simp⟩
  rw [runAll_cons, runAll_nil, commit_of_ok hok]
  exact lookup_paid (hgov.lock id lock hfound).id_eq

end Liveness

/-- An open lock can still be paid exactly if its timeout is a 64-bit time and, once it is
confirmed, enough administrators other than the contract itself are left to approve. -/
theorem lock_settles_iff {here : Address} {start : Tokens} (h0 : ∀ token, 0 ≤ start token here)
    {run : List (Env here × RescueCall)} {config : RescueConfig} {id : ℕ} {lock : BridgeLock}
    (hconfig : (runAll rescueStep (.fresh start) run).config = some config)
    (hfound : (runAll rescueStep (.fresh start) run).locks.lookup id = some lock)
    (hlocked : lock.status = .locked) :
    (∃ (post : List (Env here × RescueCall)) (lock' : BridgeLock),
      (runAll rescueStep (runAll rescueStep (.fresh start) run) post).locks.lookup id =
        some lock' ∧ lock'.status ≠ .locked) ↔
      lock.claimTimestamp + config.timeout < 2 ^ 64 ∧
        (lock.validatorConfirmed = true →
          config.admins.threshold ≤ (config.admins.members.toFinset.erase here).card) := by
  have hsound : Sound here start (runAll rescueStep (.fresh start) run) :=
    runAll_induction (fun _ _ _ h hstep => h.step hstep) sound_fresh run
  constructor
  · rintro ⟨post, lock', hfound', hpaid⟩
    have hlater := hsound.later hconfig hfound post
    obtain ⟨hgov, -⟩ := hlater.sound.governed config hlater.config_eq
    obtain ⟨l, hl, hclaim, hconfirmed⟩ := hlater.lookup
    obtain rfl := Option.some.inj (hl.symm.trans hfound')
    have hvalid := hgov.lock id l hl
    rw [← hclaim]
    cases hstatus : l.status with
    | locked => exact absurd hstatus hpaid
    | rescued =>
      obtain ⟨hc, hthreshold⟩ := hvalid.rescued hstatus
      exact ⟨hvalid.fits (.inl hc), fun _ => hthreshold.trans (hgov.adminApprovals.count_le id)⟩
    | cancelledExpired =>
      refine ⟨hvalid.fits (.inr hstatus), fun hc => ?_⟩
      cases (hvalid.cancelled hstatus).symm.trans (hconfirmed hc)
  · rintro ⟨hfits, hsigners⟩
    cases hconfirmed : lock.validatorConfirmed with
    | true =>
      exact hsound.settles_of_confirmed h0 hconfig hfound hlocked hconfirmed
        (hsigners hconfirmed)
    | false => exact hsound.settles_of_unconfirmed h0 hconfig hfound hlocked hconfirmed hfits

/-- With the largest timeout a lock can never be paid. -/
def stuckRun : List (Env ⟨0⟩ × RescueCall) :=
  [(rescueEnv ⟨0⟩ 5, .setUp [⟨1⟩] 1 [⟨2⟩] 1 ⟨10⟩ 18446744073709551615),
    (rescueEnv ⟨0⟩ 5, .lockTokens ⟨3⟩ (units 70))]

def bridgeTokens : Tokens := fun _ holder => if holder = ⟨0⟩ then 0 else 100

theorem stuckRun_never_settles :
    ¬ ∃ (post : List (Env ⟨0⟩ × RescueCall)) (lock' : BridgeLock),
      (runAll rescueStep (runAll rescueStep (.fresh bridgeTokens) stuckRun) post).locks.lookup 0 =
        some lock' ∧ lock'.status ≠ .locked := by
  have hconfig : (runAll rescueStep (.fresh bridgeTokens) stuckRun).config =
      some ⟨⟨[⟨1⟩], 1⟩, ⟨[⟨2⟩], 1⟩, ⟨10⟩, 18446744073709551615⟩ := rfl
  have hfound : (runAll rescueStep (.fresh bridgeTokens) stuckRun).locks.lookup 0 =
      some ⟨0, ⟨3⟩, 70, .locked, false, 5⟩ := by decide +kernel
  rw [lock_settles_iff (fun _ => le_rfl) hconfig hfound rfl]
  decide

end StellarFlow.Bridge.LockRescue
