import StellarFlow.Oracle.Store

/-!
# The stakes of relayers

Relayers deposit a stake in the slash token and withdraw it again, and admins slash it. To unbond
a stake takes a request and ten thousand ledgers. Withdrawals do not ask for a request, stakes do
not remember their token, and a slash lowers the stake without moving any token.
-/
namespace StellarFlow.Relayers

open Foundation Oracle

def minUnbondingDelayLedgers : ℕ := 10000

structure UnbondingRequest where
  validator : Address
  amount : ℤ
  requestedLedger : ℕ
  releaseLedger : ℕ
  released : Bool
  deriving DecidableEq

structure StakeStore where
  settings : OracleSettings
  slashToken : Option Address
  insuranceReserve : Option Address
  providerStake : Store Address ℤ
  unbonding : Store Address UnbondingRequest
  isLocked : Bool
  tokens : Tokens

def StakeStore.deployed (tokens : Tokens) : StakeStore :=
  ⟨.deployed, none, none, ∅, ∅, false, tokens⟩

namespace StakeStore

variable (s : StakeStore)

def stakeOf (relayer : Address) : ℤ := (s.providerStake.lookup relayer).getD 0

def requireLive : Except OracleFault Unit := do
  s.settings.requireNotDestroyed
  s.settings.requireInitialized
  s.settings.requireNotFrozen

end StakeStore

section Calls

variable {here : Address} (env : Env here)

def requireAdmin (admin : Address) (s : StakeStore) : Except OracleFault Unit := do
  s.requireLive
  hostCall (env.requireAuth admin)
  s.settings.requireAuthorized admin

def setSlashToken (admin token : Address) (s : StakeStore) : Except OracleFault StakeStore := do
  requireAdmin env admin s
  pure { s with slashToken := some token }

def setInsuranceReserve (admin reserve : Address) (s : StakeStore) :
    Except OracleFault StakeStore := do
  requireAdmin env admin s
  pure { s with insuranceReserve := some reserve }

/-- A transfer under the lock against re-entry. -/
def transferLocked (token src dst : Address) (amount : ℤ) (s : StakeStore) :
    Except OracleFault StakeStore := do
  failIf s.isLocked (.error .reentrancyDetected)
  let tokens ← hostCall (env.transfer token src dst amount s.tokens)
  pure { s with tokens, isLocked := false }

/-- A stake that would overflow stays as it was. -/
def stakeTokens (relayer : Address) (amount : i128.Value) (s : StakeStore) :
    Except OracleFault StakeStore := do
  s.requireLive
  hostCall (env.requireAuth relayer)
  failIf (amount.1 ≤ 0) (.error .invalidSlashAmount)
  let token ← okOr s.slashToken (.error .slashTokenNotSet)
  let s ← transferLocked env token relayer here amount.1 s
  let newStake := (i128.check (s.stakeOf relayer + amount.1)).getD (s.stakeOf relayer)
  pure { s with providerStake := s.providerStake.insert relayer newStake }

def unstakeTokens (relayer : Address) (amount : i128.Value) (s : StakeStore) :
    Except OracleFault StakeStore := do
  s.requireLive
  hostCall (env.requireAuth relayer)
  failIf (amount.1 ≤ 0) (.error .invalidSlashAmount)
  let token ← okOr s.slashToken (.error .slashTokenNotSet)
  failIf (s.stakeOf relayer < amount.1) (.error .insufficientStake)
  let newStake := s.stakeOf relayer - amount.1
  transferLocked env token here relayer amount.1
    { s with providerStake := s.providerStake.insert relayer newStake }

/-- Slash a relayer. Neither the token nor the insurance reserve is read. -/
def executeSlashInternal (executor badRelayer : Address) (amount : ℤ) (s : StakeStore) :
    Except OracleFault StakeStore := do
  hostCall (env.requireAuth executor)
  failIf (amount ≤ 0) (.error .invalidSlashAmount)
  failIf (s.stakeOf badRelayer < amount) (.error .insufficientStake)
  let newStake := s.stakeOf badRelayer - amount
  pure { s with providerStake := s.providerStake.insert badRelayer newStake }

def executeSlash (executor badRelayer : Address) (amount : i128.Value) (s : StakeStore) :
    Except OracleFault StakeStore := do
  requireAdmin env executor s
  executeSlashInternal env executor badRelayer amount.1 s

/-- The slash of a proposal with enough votes. -/
def executeProposedSlash (executor badRelayer : Address) (amount : i128.Value) (s : StakeStore) :
    Except OracleFault StakeStore := do
  s.settings.requireNotDestroyed
  s.settings.requireNotFrozen
  hostCall (env.requireAuth executor)
  s.settings.requireAuthorized executor
  executeSlashInternal env executor badRelayer amount.1 s

/-- Queue a withdrawal. -/
def requestUnbonding (validator : Address) (amount : i128.Value) (s : StakeStore) :
    Except OracleFault (UnbondingRequest × StakeStore) := do
  failIf (amount.1 ≤ 0) (.error .invalidStakeAmount)
  hostCall (env.requireAuth validator)
  failIf ((s.unbonding.lookup validator).any fun existing => !existing.released)
    (.error .unbondingAlreadyQueued)
  let releaseLedger ←
    okOr (checkBits 32 (env.sequence + minUnbondingDelayLedgers)) (.error .ledgerSequenceOverflow)
  let request : UnbondingRequest :=
    { validator, amount := amount.1, requestedLedger := env.sequence, releaseLedger
      released := false }
  pure (request, { s with unbonding := s.unbonding.insert validator request })

/-- Close a request. No token moves. -/
def releaseUnbondedStake (validator : Address) (s : StakeStore) :
    Except OracleFault (ℤ × StakeStore) := do
  hostCall (env.requireAuth validator)
  let request ← okOr (s.unbonding.lookup validator) (.error .unbondingRequestNotFound)
  failIf request.released (.error .unbondingAlreadyReleased)
  failIf (env.sequence < request.releaseLedger) (.error .unbondingDelayActive)
  pure (request.amount,
    { s with unbonding := s.unbonding.insert validator { request with released := true } })

end Calls

inductive StakeCall
  | setSlashToken (admin token : Address)
  | setInsuranceReserve (admin reserve : Address)
  | stakeTokens (relayer : Address) (amount : i128.Value)
  | unstakeTokens (relayer : Address) (amount : i128.Value)
  | executeSlash (executor badRelayer : Address) (amount : i128.Value)
  | executeProposedSlash (executor badRelayer : Address) (amount : i128.Value)
  | requestStakeUnbonding (validator : Address) (amount : i128.Value)
  | releaseUnbondedStake (validator : Address)
  /-- Any other entry point, with the settings that it leaves. -/
  | other (settings : OracleSettings)

/-- The store, the ledger of the last call, what every relayer still has in deposit of a token,
and the requests and withdrawals made so far. -/
structure StakeHistory where
  store : StakeStore
  now : ℕ
  deposits : Store (Address × Address) ℤ
  requests : List UnbondingRequest
  withdrawals : List (Address × ℤ)

def StakeHistory.deployed (tokens : Tokens) : StakeHistory := ⟨.deployed tokens, 0, ∅, [], []⟩

/-- What a relayer has in deposit of a token. -/
def StakeHistory.depositOf (h : StakeHistory) (relayer token : Address) : ℤ :=
  (h.deposits.lookup (relayer, token)).getD 0

/-- The deposits after one of them changed, as far as it does not become negative. -/
def StakeHistory.adjust (h : StakeHistory) (relayer : Address) (amount : ℤ) :
    Store (Address × Address) ℤ :=
  match h.store.slashToken with
  | some token =>
    h.deposits.insert (relayer, token) (max 0 (h.depositOf relayer token + amount))
  | none => h.deposits

/-- A call, some ledgers after the last accepted one. -/
structure StakeStep (here : Address) where
  elapsed : ℕ
  env : Env here
  call : StakeCall

def stakeStep {here : Address} (i : StakeStep here) (h : StakeHistory) :
    Except OracleFault StakeHistory := do
  let now ← okOr (checkBits 32 (h.now + i.elapsed)) .trap
  let env : Env here := { i.env with sequence := now }
  match i.call with
  | .setSlashToken admin token =>
    let store ← setSlashToken env admin token h.store
    pure { h with store, now }
  | .setInsuranceReserve admin reserve =>
    let store ← setInsuranceReserve env admin reserve h.store
    pure { h with store, now }
  | .stakeTokens relayer amount =>
    let store ← stakeTokens env relayer amount h.store
    pure { h with store, now, deposits := h.adjust relayer amount.1 }
  | .unstakeTokens relayer amount =>
    let store ← unstakeTokens env relayer amount h.store
    pure { h with
      store, now
      deposits := h.adjust relayer (-amount.1)
      withdrawals := (relayer, amount.1) :: h.withdrawals }
  | .executeSlash executor badRelayer amount =>
    let store ← executeSlash env executor badRelayer amount h.store
    pure { h with store, now, deposits := h.adjust badRelayer (-amount.1) }
  | .executeProposedSlash executor badRelayer amount =>
    let store ← executeProposedSlash env executor badRelayer amount h.store
    pure { h with store, now, deposits := h.adjust badRelayer (-amount.1) }
  | .requestStakeUnbonding validator amount =>
    let (request, store) ← requestUnbonding env validator amount h.store
    pure { h with store, now, requests := request :: h.requests }
  | .releaseUnbondedStake validator =>
    let (_, store) ← releaseUnbondedStake env validator h.store
    pure { h with store, now }
  | .other settings => pure { h with store := { h.store with settings }, now }

/-! ## Custody -/

/-- All deposits in a token. -/
def deposited (token : Address) (deposits : Store (Address × Address) ℤ) : ℤ :=
  Store.total (fun key amount => if key.2 = token then amount else 0) deposits

/-- What a relayer asked to unbond at least the delay before a ledger. -/
def maturedBy (relayer : Address) (ledger : ℕ) (requests : List UnbondingRequest) : ℤ :=
  (requests.map fun request =>
    if request.validator = relayer ∧
      request.requestedLedger + minUnbondingDelayLedgers ≤ ledger
    then request.amount else 0).sum

/-- What was returned to a relayer. -/
def withdrawnBy (relayer : Address) (withdrawals : List (Address × ℤ)) : ℤ :=
  (withdrawals.map fun w => if w.1 = relayer then w.2 else 0).sum

/-- The contract holds all deposits, and nothing was returned that was not asked for in time. -/
structure InCustody (here : Address) (h : StakeHistory) : Prop where
  covered : ∀ token, deposited token h.deposits ≤ h.store.tokens token here
  delayed : ∀ relayer, withdrawnBy relayer h.withdrawals ≤ maturedBy relayer h.now h.requests

/-- Whom a call slashes, and how much. -/
def StakeCall.slashed : StakeCall → Option (Address × ℤ)
  | .executeSlash _ badRelayer amount => some (badRelayer, amount.1)
  | .executeProposedSlash _ badRelayer amount => some (badRelayer, amount.1)
  | _ => none

/-- An accepted slash transfers its amount to the insurance reserve. -/
def SlashesPaid {here : Address} (h : StakeHistory) (i : StakeStep here) : Prop :=
  ∀ relayer amount h', i.call.slashed = some (relayer, amount) → stakeStep i h = .ok h' →
    ∃ token reserve, h.store.slashToken = some token ∧ h.store.insuranceReserve = some reserve ∧
      h'.store.tokens = h.store.tokens.move token here reserve amount

/-- The withdrawal leaves the deposits of the others, and was asked for in time. -/
structure DueWithdrawal (here : Address) (now : ℕ) (relayer : Address) (amount : ℤ)
    (h : StakeHistory) : Prop where
  spares : ∀ token, h.store.slashToken = some token →
    deposited token h.deposits - h.depositOf relayer token + amount ≤ h.store.tokens token here
  requested : withdrawnBy relayer h.withdrawals + amount ≤ maturedBy relayer now h.requests

/-- Withdrawals are due, and nobody is slashed unless the contract is its own reserve. -/
def Careful {here : Address} (h : StakeHistory) (i : StakeStep here) : Prop :=
  (∃ h', stakeStep i h = .ok h') → match i.call with
    | .unstakeTokens relayer amount =>
      DueWithdrawal here (h.now + i.elapsed) relayer amount.1 h
    | .executeSlash _ _ _ | .executeProposedSlash _ _ _ => h.store.insuranceReserve = some here
    | _ => True

/-! ## What an accepted call does -/

section Specs

variable {here : Address} {env : Env here} {s s' : StakeStore}

theorem setSlashToken_eq_ok {admin token : Address} (h : setSlashToken env admin token s = .ok s') :
    s' = { s with slashToken := some token } := by
  obtain ⟨_, _, h⟩ := bind_eq_ok.mp h
  exact (pure_eq_ok.mp h).symm

theorem setInsuranceReserve_eq_ok {admin reserve : Address}
    (h : setInsuranceReserve env admin reserve s = .ok s') :
    s' = { s with insuranceReserve := some reserve } := by
  obtain ⟨_, _, h⟩ := bind_eq_ok.mp h
  exact (pure_eq_ok.mp h).symm

theorem transferLocked_eq_ok {token src dst : Address} {amount : ℤ}
    (h : transferLocked env token src dst amount s = .ok s') :
    s' = { s with tokens := s.tokens.move token src dst amount, isLocked := false } := by
  simp only [transferLocked, bind_eq_ok, failIf_eq_ok, hostCall_eq_ok, Env.transfer_eq_ok,
    pure_eq_ok] at h
  obtain ⟨_, _, _, ⟨_, rfl⟩, rfl⟩ := h
  rfl

theorem stakeTokens_eq_ok {relayer : Address} {amount : i128.Value}
    (h : stakeTokens env relayer amount s = .ok s') :
    ∃ token newStake, env.auth relayer = true ∧ 0 < amount.1 ∧ s.slashToken = some token ∧
      s' = { s with
        tokens := s.tokens.move token relayer here amount.1
        isLocked := false
        providerStake := s.providerStake.insert relayer newStake } := by
  simp only [stakeTokens, bind_eq_ok, failIf_eq_ok, okOr_eq_ok, hostCall_eq_ok,
    Env.requireAuth_eq_ok, pure_eq_ok, not_le] at h
  obtain ⟨_, _, _, hauth, _, hpos, token, htoken, _, hmove, rfl⟩ := h
  obtain rfl := transferLocked_eq_ok hmove
  exact ⟨token, _, hauth, hpos, htoken, rfl⟩

theorem unstakeTokens_eq_ok {relayer : Address} {amount : i128.Value}
    (h : unstakeTokens env relayer amount s = .ok s') :
    ∃ token newStake, env.auth relayer = true ∧ 0 < amount.1 ∧ s.slashToken = some token ∧
      s' = { s with
        tokens := s.tokens.move token here relayer amount.1
        isLocked := false
        providerStake := s.providerStake.insert relayer newStake } := by
  simp only [unstakeTokens, bind_eq_ok, failIf_eq_ok, okOr_eq_ok, hostCall_eq_ok,
    Env.requireAuth_eq_ok, not_le] at h
  obtain ⟨_, _, _, hauth, _, hpos, token, htoken, _, _, hmove⟩ := h
  obtain rfl := transferLocked_eq_ok hmove
  exact ⟨token, _, hauth, hpos, htoken, rfl⟩

/-- Only the stake changes, and it was there. -/
theorem executeSlashInternal_eq_ok {executor badRelayer : Address} {amount : ℤ}
    (h : executeSlashInternal env executor badRelayer amount s = .ok s') :
    0 < amount ∧ amount ≤ s.stakeOf badRelayer ∧
      ∃ providerStake, s' = { s with providerStake } := by
  simp only [executeSlashInternal, bind_eq_ok, failIf_eq_ok, hostCall_eq_ok,
    Env.requireAuth_eq_ok, pure_eq_ok, not_le, not_lt] at h
  obtain ⟨_, _, _, hpos, _, hle, rfl⟩ := h
  exact ⟨hpos, hle, _, rfl⟩

theorem executeSlash_eq_ok {executor badRelayer : Address} {amount : i128.Value}
    (h : executeSlash env executor badRelayer amount s = .ok s') :
    executeSlashInternal env executor badRelayer amount.1 s = .ok s' := by
  obtain ⟨_, _, h⟩ := bind_eq_ok.mp h
  exact h

theorem executeProposedSlash_eq_ok {executor badRelayer : Address} {amount : i128.Value}
    (h : executeProposedSlash env executor badRelayer amount s = .ok s') :
    executeSlashInternal env executor badRelayer amount.1 s = .ok s' := by
  simp only [executeProposedSlash, bind_eq_ok] at h
  obtain ⟨_, _, _, _, _, _, _, _, h⟩ := h
  exact h

theorem requestUnbonding_eq_ok {validator : Address} {amount : i128.Value}
    {request : UnbondingRequest} (h : requestUnbonding env validator amount s = .ok (request, s')) :
    0 < request.amount ∧ request.requestedLedger = env.sequence ∧
      ∃ unbonding, s' = { s with unbonding } := by
  simp only [requestUnbonding, bind_eq_ok, failIf_eq_ok, okOr_eq_ok, checkBits_eq_some,
    pure_eq_ok, Prod.mk.injEq, not_le] at h
  obtain ⟨_, hpos, _, _, _, _, _, ⟨_, rfl⟩, rfl, rfl⟩ := h
  exact ⟨hpos, rfl, _, rfl⟩

theorem releaseUnbondedStake_eq_ok {validator : Address} {amount : ℤ}
    (h : releaseUnbondedStake env validator s = .ok (amount, s')) :
    ∃ unbonding, s' = { s with unbonding } := by
  simp only [releaseUnbondedStake, bind_eq_ok, pure_eq_ok, Prod.mk.injEq] at h
  obtain ⟨_, _, _, _, _, _, _, _, _, rfl⟩ := h
  exact ⟨_, rfl⟩

end Specs

/-! ## Sums over deposits and requests -/

section Sums

variable {relayer token : Address} {requests : List UnbondingRequest} {h : StakeHistory}

theorem maturedBy_mono (hpos : ∀ request ∈ requests, 0 ≤ request.amount) {ledger later : ℕ}
    (hle : ledger ≤ later) :
    maturedBy relayer ledger requests ≤ maturedBy relayer later requests := by
  apply List.sum_le_sum
  intro request hmem
  have hamount := hpos request hmem
  split_ifs with hold hnew
  · exact le_rfl
  · exact absurd ⟨hold.1, hold.2.trans hle⟩ hnew
  · exact hamount
  · exact le_rfl

/-- A request has to wait. -/
theorem maturedBy_cons {request : UnbondingRequest} {ledger : ℕ}
    (hnew : request.requestedLedger = ledger) :
    maturedBy relayer ledger (request :: requests) = maturedBy relayer ledger requests := by
  rw [maturedBy, List.map_cons, List.sum_cons, if_neg, zero_add, maturedBy]
  rintro ⟨_, hle⟩
  rw [hnew, minUnbondingDelayLedgers] at hle
  omega

theorem withdrawnBy_cons (w : Address × ℤ) (withdrawals : List (Address × ℤ)) :
    withdrawnBy relayer (w :: withdrawals) =
      (if w.1 = relayer then w.2 else 0) + withdrawnBy relayer withdrawals := by
  rw [withdrawnBy, List.map_cons, List.sum_cons, withdrawnBy]

/-- A changed deposit counts for its own token only. -/
theorem deposited_insert (amount : ℤ) (other : Address) :
    deposited other (h.deposits.insert (relayer, token) amount) =
      deposited other h.deposits +
        if token = other then amount - h.depositOf relayer token else 0 := by
  have hsum := Store.total_insert (fun (key : Address × Address) (amount : ℤ) =>
    if key.2 = other then amount else 0) h.deposits (relayer, token) amount
  have hpart : Store.part (fun (key : Address × Address) (amount : ℤ) =>
      if key.2 = other then amount else 0) h.deposits (relayer, token) =
      if token = other then h.depositOf relayer token else 0 := by
    rw [Store.part, StakeHistory.depositOf]
    cases h.deposits.lookup (relayer, token) <;> simp
  rw [hpart] at hsum
  unfold deposited
  dsimp only at hsum
  split_ifs at hsum ⊢ <;> omega

end Sums

/-! ## Calls one at a time -/

/-- Amounts are not negative, and there are no stakes before there is a token for them. -/
structure Consistent (h : StakeHistory) : Prop where
  requests_nonneg : ∀ request ∈ h.requests, 0 ≤ request.amount
  deposits_nonneg : ∀ key amount, h.deposits.lookup key = some amount → 0 ≤ amount
  unset : h.store.slashToken = none → h.store.providerStake = ∅

section Steps

variable {here : Address} {h h' : StakeHistory} {i : StakeStep here} {env : Env here}
  {s : StakeStore} {relayer token : Address} {amount : ℤ} {now : ℕ}

theorem Consistent.deployed (tokens : Tokens) : Consistent (.deployed tokens) :=
  ⟨fun _ hmem => absurd hmem List.not_mem_nil,
    fun key _ hkey => by simp [StakeHistory.deployed] at hkey, fun _ => rfl⟩

theorem StakeHistory.adjust_of_token (htoken : h.store.slashToken = some token) :
    h.adjust relayer amount =
      h.deposits.insert (relayer, token) (max 0 (h.depositOf relayer token + amount)) := by
  rw [StakeHistory.adjust, htoken]

theorem Consistent.adjust_nonneg (hc : Consistent h) (relayer : Address) (amount : ℤ)
    (key : Address × Address) (held : ℤ)
    (hkey : (h.adjust relayer amount).lookup key = some held) : 0 ≤ held := by
  unfold StakeHistory.adjust at hkey
  split at hkey
  · obtain ⟨_, rfl⟩ | ⟨_, hold⟩ := Store.lookup_insert_eq_some.mp hkey
    · exact le_max_left 0 _
    · exact hc.deposits_nonneg key held hold
  · exact hc.deposits_nonneg key held hkey

theorem Consistent.depositOf_nonneg (hc : Consistent h) (relayer token : Address) :
    0 ≤ h.depositOf relayer token := by
  rw [StakeHistory.depositOf]
  cases hkey : h.deposits.lookup (relayer, token) with
  | none => exact le_rfl
  | some held => exact hc.deposits_nonneg _ held hkey

/-- A relayer with a stake deposited it in some token. -/
theorem Consistent.exists_token (hc : Consistent h) (hpos : 0 < h.store.stakeOf relayer) :
    ∃ token, h.store.slashToken = some token := by
  cases htoken : h.store.slashToken with
  | none =>
    rw [StakeStore.stakeOf, hc.unset htoken, Finmap.lookup_empty] at hpos
    exact absurd hpos (lt_irrefl _)
  | some token => exact ⟨token, rfl⟩

/-- Time passing, and new requests, take nothing out of custody. -/
theorem InCustody.later (hp : InCustody here h) (htokens : h'.store.tokens = h.store.tokens)
    (hdeposits : h'.deposits = h.deposits) (hwithdrawals : h'.withdrawals = h.withdrawals)
    (hmatured : ∀ relayer, maturedBy relayer h.now h.requests ≤
      maturedBy relayer h'.now h'.requests) : InCustody here h' := by
  refine ⟨fun token => ?_, fun relayer => ?_⟩
  · rw [hdeposits, htokens]
    exact hp.covered token
  · rw [hwithdrawals]
    exact (hp.delayed relayer).trans (hmatured relayer)

theorem InCustody.stake (hc : Consistent h) (hp : InCustody here h)
    (htoken : h.store.slashToken = some token) (hpos : 0 < amount) (hne : relayer ≠ here)
    (htokens : s.tokens = h.store.tokens.move token relayer here amount) (hnow : h.now ≤ now) :
    InCustody here { h with store := s, now, deposits := h.adjust relayer amount } := by
  refine ⟨fun other => ?_, fun r => ?_⟩
  · have hheld := hc.depositOf_nonneg relayer token
    have hbefore := hp.covered other
    dsimp only
    rw [StakeHistory.adjust_of_token htoken, deposited_insert, htokens,
      Tokens.move_apply_dst _ _ _ hne.symm, max_eq_right (by omega)]
    by_cases hother : other = token
    · rw [if_pos hother.symm, if_pos hother]
      omega
    · rw [if_neg fun heq => hother heq.symm, if_neg hother]
      omega
  · exact (hp.delayed r).trans (maturedBy_mono hc.requests_nonneg hnow)

/-- A withdrawal keeps custody exactly when it is due. -/
theorem unstake_custody_iff (hc : Consistent h) (hp : InCustody here h)
    (htoken : h.store.slashToken = some token) (hne : relayer ≠ here)
    (htokens : s.tokens = h.store.tokens.move token here relayer amount) (hnow : h.now ≤ now) :
    InCustody here { h with
        store := s, now
        deposits := h.adjust relayer (-amount)
        withdrawals := (relayer, amount) :: h.withdrawals } ↔
      DueWithdrawal here now relayer amount h := by
  have hheld := hc.depositOf_nonneg relayer token
  have hcovered := hp.covered token
  constructor
  · intro hafter
    refine ⟨fun token' htoken' => ?_, ?_⟩
    · obtain rfl : token = token' := Option.some.inj (htoken.symm.trans htoken')
      have hle := hafter.covered token
      dsimp only at hle
      rw [StakeHistory.adjust_of_token htoken, deposited_insert, htokens,
        Tokens.move_apply_src _ _ _ hne.symm, if_pos rfl, if_pos rfl] at hle
      omega
    · have hle := hafter.delayed relayer
      dsimp only at hle
      rw [withdrawnBy_cons, if_pos rfl] at hle
      omega
  · intro hdue
    refine ⟨fun other => ?_, fun r => ?_⟩
    · have hspares := hdue.spares token htoken
      have hbefore := hp.covered other
      dsimp only
      rw [StakeHistory.adjust_of_token htoken, deposited_insert, htokens,
        Tokens.move_apply_src _ _ _ hne.symm]
      by_cases hother : other = token
      · subst hother
        rw [if_pos rfl, if_pos rfl]
        omega
      · rw [if_neg fun heq => hother heq.symm, if_neg hother]
        omega
    · have hmatured : maturedBy r h.now h.requests ≤ maturedBy r now h.requests :=
        maturedBy_mono hc.requests_nonneg hnow
      have hbefore := hp.delayed r
      have hrequested := hdue.requested
      dsimp only
      rw [withdrawnBy_cons]
      split_ifs with hr
      · obtain rfl : relayer = r := hr
        omega
      · omega

/-- A slash keeps custody, but reaches the reserve only if the contract is the reserve. -/
theorem InCustody.slash (hc : Consistent h) (hp : InCustody here h) (hpos : 0 < amount)
    (htokens : s.tokens = h.store.tokens) (hnow : h.now ≤ now) :
    InCustody here { h with store := s, now, deposits := h.adjust relayer (-amount) } := by
  refine ⟨fun other => ?_, fun r => ?_⟩
  · have hbefore := hp.covered other
    dsimp only
    rw [htokens]
    cases htoken : h.store.slashToken with
    | none =>
      rw [StakeHistory.adjust, htoken]
      exact hbefore
    | some token =>
      have hless : max 0 (h.depositOf relayer token + -amount) ≤ h.depositOf relayer token :=
        max_le (hc.depositOf_nonneg relayer token)
          (add_le_of_nonpos_right (neg_nonpos.mpr hpos.le))
      rw [StakeHistory.adjust_of_token htoken, deposited_insert]
      split_ifs <;> omega
  · exact (hp.delayed r).trans (maturedBy_mono hc.requests_nonneg hnow)

theorem Consistent.slash (hc : Consistent h) {executor : Address}
    (hslash : executeSlashInternal env executor relayer amount h.store = .ok s) :
    Consistent { h with store := s, now, deposits := h.adjust relayer (-amount) } := by
  obtain ⟨hpos, hle, providerStake, rfl⟩ := executeSlashInternal_eq_ok hslash
  obtain ⟨token, htoken⟩ := hc.exists_token (hpos.trans_le hle)
  refine ⟨hc.requests_nonneg, hc.adjust_nonneg relayer _, fun hnone => ?_⟩
  exact absurd (htoken.symm.trans hnone) (Option.some_ne_none token)

theorem Consistent.slash_paid_iff (hc : Consistent h) (hpos : 0 < amount)
    (hle : amount ≤ h.store.stakeOf relayer) (htokens : s.tokens = h.store.tokens) :
    (∃ token reserve, h.store.slashToken = some token ∧
        h.store.insuranceReserve = some reserve ∧
        s.tokens = h.store.tokens.move token here reserve amount) ↔
      h.store.insuranceReserve = some here := by
  rw [htokens]
  constructor
  · rintro ⟨token, reserve, _, hreserve, hmove⟩
    obtain hzero | hself := Tokens.eq_move_iff.mp hmove
    · exact absurd hzero hpos.ne'
    · rw [hreserve, hself]
  · intro hreserve
    obtain ⟨token, htoken⟩ := hc.exists_token (hpos.trans_le hle)
    exact ⟨token, here, htoken, hreserve, Tokens.eq_move_iff.mpr (.inr rfl)⟩

end Steps

/-! ## Runs -/

section Runs

variable {here : Address} {h h' : StakeHistory} {i : StakeStep here}

theorem stakeStep_consistent (hc : Consistent h) (hok : stakeStep i h = .ok h') :
    Consistent h' := by
  obtain ⟨now, _, hok⟩ := bind_eq_ok.mp hok
  obtain ⟨elapsed, env, call⟩ := i
  cases call with
  | setSlashToken admin token =>
    obtain ⟨store, hcall, hok⟩ := bind_eq_ok.mp hok
    obtain rfl := pure_eq_ok.mp hok
    obtain rfl := setSlashToken_eq_ok hcall
    exact ⟨hc.requests_nonneg, hc.deposits_nonneg,
      fun hnone => absurd hnone (Option.some_ne_none token)⟩
  | setInsuranceReserve admin reserve =>
    obtain ⟨store, hcall, hok⟩ := bind_eq_ok.mp hok
    obtain rfl := pure_eq_ok.mp hok
    obtain rfl := setInsuranceReserve_eq_ok hcall
    exact ⟨hc.requests_nonneg, hc.deposits_nonneg, hc.unset⟩
  | stakeTokens relayer amount =>
    obtain ⟨store, hcall, hok⟩ := bind_eq_ok.mp hok
    obtain rfl := pure_eq_ok.mp hok
    obtain ⟨token, newStake, _, _, htoken, rfl⟩ := stakeTokens_eq_ok hcall
    refine ⟨hc.requests_nonneg, hc.adjust_nonneg relayer _, fun hnone => ?_⟩
    exact absurd (htoken.symm.trans hnone) (Option.some_ne_none token)
  | unstakeTokens relayer amount =>
    obtain ⟨store, hcall, hok⟩ := bind_eq_ok.mp hok
    obtain rfl := pure_eq_ok.mp hok
    obtain ⟨token, newStake, _, _, htoken, rfl⟩ := unstakeTokens_eq_ok hcall
    refine ⟨hc.requests_nonneg, hc.adjust_nonneg relayer _, fun hnone => ?_⟩
    exact absurd (htoken.symm.trans hnone) (Option.some_ne_none token)
  | executeSlash executor badRelayer amount =>
    obtain ⟨store, hcall, hok⟩ := bind_eq_ok.mp hok
    obtain rfl := pure_eq_ok.mp hok
    exact hc.slash (executeSlash_eq_ok hcall)
  | executeProposedSlash executor badRelayer amount =>
    obtain ⟨store, hcall, hok⟩ := bind_eq_ok.mp hok
    obtain rfl := pure_eq_ok.mp hok
    exact hc.slash (executeProposedSlash_eq_ok hcall)
  | requestStakeUnbonding validator amount =>
    obtain ⟨⟨request, store⟩, hcall, hok⟩ := bind_eq_ok.mp hok
    obtain rfl := pure_eq_ok.mp hok
    obtain ⟨hpos, _, unbonding, rfl⟩ := requestUnbonding_eq_ok hcall
    exact ⟨List.forall_mem_cons.mpr ⟨hpos.le, hc.requests_nonneg⟩, hc.deposits_nonneg, hc.unset⟩
  | releaseUnbondedStake validator =>
    obtain ⟨⟨amount, store⟩, hcall, hok⟩ := bind_eq_ok.mp hok
    obtain rfl := pure_eq_ok.mp hok
    obtain ⟨unbonding, rfl⟩ := releaseUnbondedStake_eq_ok hcall
    exact ⟨hc.requests_nonneg, hc.deposits_nonneg, hc.unset⟩
  | other settings =>
    obtain rfl := pure_eq_ok.mp hok
    exact ⟨hc.requests_nonneg, hc.deposits_nonneg, hc.unset⟩

/-- Whatever a slash does to the reserve, it does in the accepted call. -/
theorem slashesPaid_iff {relayer : Address} {amount : ℤ} (hok : stakeStep i h = .ok h')
    (hslash : i.call.slashed = some (relayer, amount)) :
    SlashesPaid h i ↔ ∃ token reserve, h.store.slashToken = some token ∧
      h.store.insuranceReserve = some reserve ∧
      h'.store.tokens = h.store.tokens.move token here reserve amount := by
  constructor
  · exact fun hpaid => hpaid relayer amount h' hslash hok
  · rintro hpaid relayer' amount' h'' hslash' hok'
    obtain ⟨rfl, rfl⟩ := Prod.mk.inj (Option.some.inj (hslash.symm.trans hslash'))
    obtain rfl := Except.ok.inj (hok.symm.trans hok')
    exact hpaid

theorem slashesPaid_of_none (hnone : i.call.slashed = none) : SlashesPaid h i := by
  intro relayer amount h'' hslash
  rw [hnone] at hslash
  cases hslash

/-- A slash of either kind keeps custody, and is paid if the contract is its own reserve. -/
theorem slash_careful_iff {env : Env here} {executor relayer : Address} {amount : ℤ} {now : ℕ}
    {s : StakeStore} (hc : Consistent h) (hp : InCustody here h) (hnow : h.now ≤ now)
    (hcall : executeSlashInternal env executor relayer amount h.store = .ok s)
    (hslash : i.call.slashed = some (relayer, amount))
    (hok : stakeStep i h =
      .ok { h with store := s, now, deposits := h.adjust relayer (-amount) }) :
    InCustody here { h with store := s, now, deposits := h.adjust relayer (-amount) } ∧
      SlashesPaid h i ↔ h.store.insuranceReserve = some here := by
  obtain ⟨hpos, hle, providerStake, rfl⟩ := executeSlashInternal_eq_ok hcall
  rw [slashesPaid_iff hok hslash, hc.slash_paid_iff hpos hle rfl]
  exact and_iff_right (hp.slash hc hpos rfl hnow)

/-- What an accepted call does to custody, one entry point at a time. -/
theorem stakeStep_careful_iff (hc : Consistent h) (hp : InCustody here h)
    (hok : stakeStep i h = .ok h') : InCustody here h' ∧ SlashesPaid h i ↔ Careful h i := by
  have haccepted : ∃ h', stakeStep i h = .ok h' := ⟨h', hok⟩
  have hstep := hok
  obtain ⟨now, hnow, hok⟩ := bind_eq_ok.mp hok
  obtain ⟨_, rfl⟩ := checkBits_eq_some.mp (okOr_eq_ok.mp hnow)
  have hlater : h.now ≤ h.now + i.elapsed := Nat.le_add_right ..
  have hmatured (r : Address) :
      maturedBy r h.now h.requests ≤ maturedBy r (h.now + i.elapsed) h.requests :=
    maturedBy_mono hc.requests_nonneg hlater
  obtain ⟨elapsed, env, call⟩ := i
  cases call with
  | setSlashToken admin token =>
    obtain ⟨store, hcall, hok⟩ := bind_eq_ok.mp hok
    obtain rfl := pure_eq_ok.mp hok
    obtain rfl := setSlashToken_eq_ok hcall
    exact iff_of_true ⟨hp.later rfl rfl rfl hmatured, slashesPaid_of_none rfl⟩ fun _ => trivial
  | setInsuranceReserve admin reserve =>
    obtain ⟨store, hcall, hok⟩ := bind_eq_ok.mp hok
    obtain rfl := pure_eq_ok.mp hok
    obtain rfl := setInsuranceReserve_eq_ok hcall
    exact iff_of_true ⟨hp.later rfl rfl rfl hmatured, slashesPaid_of_none rfl⟩ fun _ => trivial
  | stakeTokens relayer amount =>
    obtain ⟨store, hcall, hok⟩ := bind_eq_ok.mp hok
    obtain rfl := pure_eq_ok.mp hok
    obtain ⟨token, newStake, hauth, hpos, htoken, rfl⟩ := stakeTokens_eq_ok hcall
    have hne := Env.ne_here_of_auth hauth
    exact iff_of_true ⟨hp.stake hc htoken hpos hne rfl hlater, slashesPaid_of_none rfl⟩
      fun _ => trivial
  | unstakeTokens relayer amount =>
    obtain ⟨store, hcall, hok⟩ := bind_eq_ok.mp hok
    obtain rfl := pure_eq_ok.mp hok
    obtain ⟨token, newStake, hauth, _, htoken, rfl⟩ := unstakeTokens_eq_ok hcall
    rw [unstake_custody_iff hc hp htoken (Env.ne_here_of_auth hauth) rfl hlater]
    exact ⟨fun hdue _ => hdue.1, fun hdue => ⟨hdue haccepted, slashesPaid_of_none rfl⟩⟩
  | executeSlash executor badRelayer amount =>
    obtain ⟨store, hcall, hok⟩ := bind_eq_ok.mp hok
    obtain rfl := pure_eq_ok.mp hok
    rw [slash_careful_iff hc hp hlater (executeSlash_eq_ok hcall) rfl hstep]
    exact ⟨fun hreserve _ => hreserve, fun hreserve => hreserve haccepted⟩
  | executeProposedSlash executor badRelayer amount =>
    obtain ⟨store, hcall, hok⟩ := bind_eq_ok.mp hok
    obtain rfl := pure_eq_ok.mp hok
    rw [slash_careful_iff hc hp hlater (executeProposedSlash_eq_ok hcall) rfl hstep]
    exact ⟨fun hreserve _ => hreserve, fun hreserve => hreserve haccepted⟩
  | requestStakeUnbonding validator amount =>
    obtain ⟨⟨request, store⟩, hcall, hok⟩ := bind_eq_ok.mp hok
    obtain rfl := pure_eq_ok.mp hok
    obtain ⟨_, hledger, unbonding, rfl⟩ := requestUnbonding_eq_ok hcall
    refine iff_of_true ⟨hp.later rfl rfl rfl fun r => ?_, slashesPaid_of_none rfl⟩ fun _ => trivial
    dsimp only
    rw [maturedBy_cons hledger]
    exact hmatured r
  | releaseUnbondedStake validator =>
    obtain ⟨⟨amount, store⟩, hcall, hok⟩ := bind_eq_ok.mp hok
    obtain rfl := pure_eq_ok.mp hok
    obtain ⟨unbonding, rfl⟩ := releaseUnbondedStake_eq_ok hcall
    exact iff_of_true ⟨hp.later rfl rfl rfl hmatured, slashesPaid_of_none rfl⟩ fun _ => trivial
  | other settings =>
    obtain rfl := pure_eq_ok.mp hok
    exact iff_of_true ⟨hp.later rfl rfl rfl hmatured, slashesPaid_of_none rfl⟩ fun _ => trivial

theorem InCustody.deployed {tokens : Tokens} (hstart : ∀ token, 0 ≤ tokens token here) :
    InCustody here (.deployed tokens) := ⟨hstart, fun _ => le_rfl⟩

/-- In a run the stakes are in custody in every state, and every slash is paid to the reserve, if
and only if every withdrawal is due and no slash is accepted unless the contract is the reserve. -/
theorem relayerStakes_custody_iff {tokens : Tokens} (hstart : ∀ token, 0 ≤ tokens token here)
    (run : List (StakeStep here)) :
    Throughout stakeStep (InCustody here) (.deployed tokens) run ∧
        Along stakeStep SlashesPaid (.deployed tokens) run ↔
      Along stakeStep Careful (.deployed tokens) run := by
  refine throughout_and_along_iff (I := Consistent)
    (fun h i hc => commit_induction hc fun h' hok => stakeStep_consistent hc hok)
    (fun h i hc hp => ?_) (Consistent.deployed tokens) (InCustody.deployed hstart) run
  cases hok : stakeStep i h with
  | error e =>
    rw [commit_of_error hok]
    have hnone : ¬ ∃ h', stakeStep i h = .ok h' := by
      rintro ⟨h', hok'⟩
      cases hok.symm.trans hok'
    exact iff_of_true ⟨hp, fun _ _ h' _ hok' => absurd ⟨h', hok'⟩ hnone⟩
      fun haccepted => absurd haccepted hnone
  | ok h' =>
    rw [commit_of_ok hok]
    exact stakeStep_careful_iff hc hp hok

end Runs

/-- Everybody but the contract starts with a thousand of each token. -/
def stakeTokensStart : Tokens := fun _ holder => if holder = ⟨0⟩ then 0 else 1000

def stakeCall (elapsed : ℕ) (call : StakeCall) : StakeStep ⟨0⟩ :=
  ⟨elapsed, .standard _ 0 none, call⟩

/-- A contract that is initialised, with admin 1. -/
def stakeSettings : OracleSettings :=
  { OracleSettings.deployed with initialized := true, admins := some [⟨1⟩] }

/-- A relayer stakes and withdraws in the same ledger. -/
def hastyRun : List (StakeStep ⟨0⟩) :=
  [stakeCall 1 (.other stakeSettings), stakeCall 0 (.setSlashToken ⟨1⟩ ⟨9⟩),
    stakeCall 0 (.stakeTokens ⟨2⟩ (units 100)), stakeCall 0 (.unstakeTokens ⟨2⟩ (units 100))]

/-- The stake returned without any request. -/
theorem hastyRun_not_inCustody :
    let h := runAll stakeStep (.deployed stakeTokensStart) hastyRun
    h.requests = [] ∧ h.withdrawals = [(⟨2⟩, 100)] ∧
      ¬ Throughout stakeStep (InCustody ⟨0⟩) (.deployed stakeTokensStart) hastyRun := by
  intro h
  have hstate : h.requests = [] ∧ h.withdrawals = [(⟨2⟩, 100)] := by decide +kernel
  refine ⟨hstate.1, hstate.2, fun ht => ?_⟩
  have hle := ht.last.delayed ⟨2⟩
  change withdrawnBy ⟨2⟩ h.withdrawals ≤ maturedBy ⟨2⟩ h.now h.requests at hle
  rw [hstate.1, hstate.2] at hle
  exact absurd hle (by decide)

/-- A relayer asks first and waits. -/
def patientRun : List (StakeStep ⟨0⟩) :=
  [stakeCall 1 (.other stakeSettings), stakeCall 0 (.setSlashToken ⟨1⟩ ⟨9⟩),
    stakeCall 0 (.stakeTokens ⟨2⟩ (units 100)),
    stakeCall 0 (.requestStakeUnbonding ⟨2⟩ (units 100)),
    stakeCall 10000 (.releaseUnbondedStake ⟨2⟩), stakeCall 0 (.unstakeTokens ⟨2⟩ (units 100))]

theorem patientRun_inCustody :
    Throughout stakeStep (InCustody ⟨0⟩) (.deployed stakeTokensStart) patientRun := by
  refine ((relayerStakes_custody_iff (fun _ => le_rfl) patientRun).mpr
    ⟨fun _ => trivial, fun _ => trivial, fun _ => trivial, fun _ => trivial, fun _ => trivial,
      fun _ => ⟨?_, ?_⟩, trivial⟩).1
  · intro token htoken
    have hstate : (runAll stakeStep (.deployed stakeTokensStart)
        (patientRun.take 5)).store.slashToken = some ⟨9⟩ := by decide +kernel
    obtain rfl : (⟨9⟩ : Address) = token := Option.some.inj (hstate.symm.trans htoken)
    decide +kernel
  · decide +kernel

end StellarFlow.Relayers
