import StellarFlow.Bridge.Relayer

/-!
# The bridge escrow

The contract locks the native token against unlocks signed by the validators and keeps a balance
of the vault beside it. It also holds remittances in any tokens, each paid out once: to the
recipient with a signature of the processor, or back to the sender after the deadline. The two
balance checks of a lock and an unlock are a parameter, so that a call can be compared with the
same call without them.
-/
namespace StellarFlow.Bridge

open Foundation
open Orders (toBeBytes)

structure BridgeEscrowConfig where
  nativeToken : Address
  processor : Bytes32
  deriving DecidableEq

structure RemittanceEscrow where
  id : ℕ
  sender : Address
  recipient : Address
  primaryToken : Address
  primaryAmount : ℤ
  feeToken : Option Address
  feeAmount : ℤ
  expiresAt : ℕ
  released : Bool
  refunded : Bool
  deriving DecidableEq

structure TokenLock where
  id : ℕ
  depositor : Address
  token : Address
  amount : ℤ
  targetChainId : UInt32
  recipientAddress : Address
  lockedAtLedger : ℕ
  deriving DecidableEq

structure BridgeEscrow where
  config : Option BridgeEscrowConfig
  nextLockId : ℕ
  locks : Store ℕ TokenLock
  vaultBalance : Store Address ℤ
  remittances : Store ℕ RemittanceEscrow
  remittanceNonce : ℕ
  relayer : Relayer
  limits : RateLimits
  tokens : Tokens

namespace BridgeEscrow

/-- Just configured: nothing is locked and there are no remittances. -/
def configured (config : BridgeEscrowConfig) (relayer : Relayer) (limits : RateLimits)
    (tokens : Tokens) : BridgeEscrow :=
  ⟨some config, 0, ∅, ∅, ∅, 0, relayer, limits, tokens⟩

def loadConfig (e : BridgeEscrow) : Except Fault BridgeEscrowConfig :=
  okOr e.config (Fault.error .bridgeEscrowNotConfigured)

def vaultBalanceOf (token : Address) (e : BridgeEscrow) : ℤ :=
  (e.vaultBalance.lookup token).getD 0

def takeLockId (e : BridgeEscrow) : Except Fault (ℕ × BridgeEscrow) := do
  let next ← okOr (checkBits 64 (e.nextLockId + 1)) Fault.trap
  pure (e.nextLockId, { e with nextLockId := next })

end BridgeEscrow

def checkedAddBalance (current delta : ℤ) : Except Fault ℤ :=
  okOr (i128.check (current + delta)) (Fault.error .mathOverflow)

def checkedSubBalance (current delta : ℤ) : Except Fault ℤ := do
  failIf (current < delta) (Fault.error .bridgeInsufficientBalance)
  okOr (i128.check (current - delta)) (Fault.error .mathOverflow)

/-- The check that the contract holds exactly the balance of the vault, or a replacement. -/
abbrev BalanceCheck := BridgeEscrowConfig → BridgeEscrow → Except Fault Unit

def assertBalanceInvariant (here : Address) : BalanceCheck := fun config e =>
  failIf (e.tokens config.nativeToken here ≠ e.vaultBalanceOf config.nativeToken) Fault.trap

def noCheck : BalanceCheck := fun _ _ => pure ()

def remittancePayload (crypto : BridgeCrypto) (r : RemittanceEscrow) : ByteString :=
  toBeBytes 8 r.id ++ crypto.xdr r.sender ++ crypto.xdr r.recipient ++
    crypto.xdr r.primaryToken ++ toBeBytes 16 r.primaryAmount ++ toBeBytes 16 r.feeAmount ++
    toBeBytes 8 r.expiresAt

/-- The key before a processor is registered. -/
def zeroKey : Bytes32 := Vector.replicate 32 0

section Calls

variable {here : Address} (check : BalanceCheck) (crypto : BridgeCrypto) (env : BridgeEnv here)

def lockTokens (depositor : Address) (amount : ℤ) (targetChainId : UInt32)
    (recipientAddress : Address) (e : BridgeEscrow) : Except Fault (TokenLock × BridgeEscrow) := do
  failIf (amount ≤ 0) (Fault.error .bridgeInvalidAmount)
  env.requireAuth depositor
  let config ← e.loadConfig
  check config e
  let tokens ← env.transfer config.nativeToken depositor here amount e.tokens
  let newBalance ← checkedAddBalance (e.vaultBalanceOf config.nativeToken) amount
  let vaultBalance := e.vaultBalance.insert config.nativeToken newBalance
  let (id, e) ← BridgeEscrow.takeLockId { e with tokens := tokens, vaultBalance := vaultBalance }
  let lock : TokenLock :=
    ⟨id, depositor, config.nativeToken, amount, targetChainId, recipientAddress, env.sequence⟩
  let e := { e with locks := e.locks.insert lock.id lock }
  check config e
  pure (lock, e)

def unlockTokens (proof : UnlockProof) (signatures : List (Bytes32 × Bytes64))
    (e : BridgeEscrow) : Except Fault (ℤ × BridgeEscrow) := do
  failIf (proof.amount.1 ≤ 0) (Fault.error .bridgeInvalidAmount)
  let relayer ← verifyCrossChainPayload crypto proof signatures e.relayer
  let config ← e.loadConfig
  check config e
  let currentBalance := e.vaultBalanceOf config.nativeToken
  let limits ←
    enforceAndRecord env (.native config.nativeToken) proof.amount.1 currentBalance e.limits
  let newBalance ← checkedSubBalance currentBalance proof.amount.1
  let vaultBalance :=
    if newBalance = 0 then e.vaultBalance.erase config.nativeToken
    else e.vaultBalance.insert config.nativeToken newBalance
  let tokens ← env.transfer config.nativeToken here proof.recipient proof.amount.1 e.tokens
  let e := { e with
    relayer := relayer
    limits := limits
    vaultBalance := vaultBalance
    tokens := tokens }
  check config e
  pure (newBalance, e)

def registerProcessor (admin : Address) (processor : Bytes32) (e : BridgeEscrow) :
    Except Fault BridgeEscrow := do
  requireProtocolAdmin env admin
  let config ← e.loadConfig
  pure { e with config := some { config with processor := processor } }

/-- The transfer of the fee, if there is a fee token. -/
def transferFee (feeToken : Option Address) (src dst : Address) (feeAmount : ℤ) (t : Tokens) :
    Except Fault Tokens :=
  match feeToken with
  | some fee => env.transfer fee src dst feeAmount t
  | none => pure t

def createRemittance (sender recipient primaryToken : Address) (primaryAmount : ℤ)
    (feeToken : Option Address) (feeAmount : ℤ) (expiresAt : ℕ) (e : BridgeEscrow) :
    Except Fault (RemittanceEscrow × BridgeEscrow) := do
  failIf (primaryAmount ≤ 0 ∨ feeAmount < 0 ∨ expiresAt ≤ env.timestamp)
    (Fault.error .bridgeInvalidAmount)
  env.requireAuth sender
  failIf (feeToken = none ∧ feeAmount ≠ 0) (Fault.error .bridgeInvalidAmount)
  let tokens ← env.transfer primaryToken sender here primaryAmount e.tokens
  let tokens ← transferFee env feeToken sender here feeAmount tokens
  let id := e.remittanceNonce
  let next ← okOr (checkBits 64 (id + 1)) Fault.trap
  let escrow : RemittanceEscrow :=
    ⟨id, sender, recipient, primaryToken, primaryAmount, feeToken, feeAmount, expiresAt, false,
      false⟩
  pure (escrow, { e with
    tokens := tokens
    remittanceNonce := next
    remittances := e.remittances.insert id escrow })

def releaseRemittance (id : ℕ) (signature : Bytes64) (e : BridgeEscrow) :
    Except Fault BridgeEscrow := do
  let escrow ← okOr (e.remittances.lookup id) (Fault.error .notRegistered)
  failIf (escrow.released = true ∨ escrow.refunded = true ∨ escrow.expiresAt < env.timestamp)
    (Fault.error .invalidProof)
  let config ← e.loadConfig
  failIf (config.processor = zeroKey) (Fault.error .invalidProof)
  failIf (¬ crypto.ed25519Verify config.processor (remittancePayload crypto escrow) signature)
    Fault.trap
  let tokens ←
    env.transfer escrow.primaryToken here escrow.recipient escrow.primaryAmount e.tokens
  let tokens ← transferFee env escrow.feeToken here escrow.recipient escrow.feeAmount tokens
  pure { e with
    tokens := tokens
    remittances := e.remittances.insert id { escrow with released := true } }

def cancelRemittance (id : ℕ) (sender : Address) (e : BridgeEscrow) :
    Except Fault BridgeEscrow := do
  let escrow ← okOr (e.remittances.lookup id) (Fault.error .notRegistered)
  env.requireAuth sender
  failIf (escrow.sender ≠ sender ∨ escrow.released = true ∨ escrow.refunded = true ∨
    env.timestamp ≤ escrow.expiresAt) (Fault.error .invalidProof)
  let tokens ← env.transfer escrow.primaryToken here sender escrow.primaryAmount e.tokens
  let tokens ← transferFee env escrow.feeToken here sender escrow.feeAmount tokens
  pure { e with
    tokens := tokens
    remittances := e.remittances.insert id { escrow with refunded := true } }

def reclaimExpired (id : ℕ) (sender : Address) (e : BridgeEscrow) : Except Fault BridgeEscrow :=
  cancelRemittance env id sender e

end Calls

inductive EscrowCall where
  | lockTokens (depositor : Address) (amount : ℤ) (targetChainId : UInt32)
      (recipientAddress : Address)
  | unlockTokens (proof : UnlockProof) (signatures : List (Bytes32 × Bytes64))
  | registerProcessor (admin : Address) (processor : Bytes32)
  | createRemittance (sender recipient primaryToken : Address) (primaryAmount : ℤ)
      (feeToken : Option Address) (feeAmount : ℤ) (expiresAt : ℕ)
  | releaseRemittance (id : ℕ) (signature : Bytes64)
  | cancelRemittance (id : ℕ) (sender : Address)
  | reclaimExpired (id : ℕ) (sender : Address)

def EscrowCall.exec (check : BalanceCheck) (crypto : BridgeCrypto) {here : Address}
    (env : BridgeEnv here) (e : BridgeEscrow) : EscrowCall → Except Fault BridgeEscrow
  | lockTokens depositor amount targetChainId recipientAddress =>
    Prod.snd <$> Bridge.lockTokens check env depositor amount targetChainId recipientAddress e
  | unlockTokens proof signatures =>
    Prod.snd <$> Bridge.unlockTokens check crypto env proof signatures e
  | registerProcessor admin processor => Bridge.registerProcessor env admin processor e
  | createRemittance sender recipient primaryToken primaryAmount feeToken feeAmount expiresAt =>
    Prod.snd <$> Bridge.createRemittance env sender recipient primaryToken primaryAmount feeToken
      feeAmount expiresAt e
  | releaseRemittance id signature => Bridge.releaseRemittance crypto env id signature e
  | cancelRemittance id sender => Bridge.cancelRemittance env id sender e
  | reclaimExpired id sender => Bridge.reclaimExpired env id sender e

/-! ## Payments -/

structure Payment where
  token : Address
  src : Address
  dst : Address
  amount : ℤ
  deriving DecidableEq

/-- The balances after some payments, in their order. -/
def payAll (t : Tokens) (payments : List Payment) : Tokens :=
  payments.foldl (fun t p => t.move p.token p.src p.dst p.amount) t

/-- What the payments move of a token. -/
def totalIn (token : Address) (payments : List Payment) : ℤ :=
  (payments.map fun p => if p.token = token then p.amount else 0).sum

/-- The amount and the fee of a remittance, moved together. -/
def RemittanceEscrow.payments (src dst : Address) (r : RemittanceEscrow) : List Payment :=
  ⟨r.primaryToken, src, dst, r.primaryAmount⟩ ::
    (r.feeToken.map fun fee => Payment.mk fee src dst r.feeAmount).toList

/-- What a remittance holds of a token. -/
def RemittanceEscrow.amountIn (token : Address) (r : RemittanceEscrow) : ℤ :=
  (if r.primaryToken = token then r.primaryAmount else 0) +
    if r.feeToken = some token then r.feeAmount else 0

section Payments

variable {token src dst here : Address} {r : RemittanceEscrow} {payments : List Payment}

theorem totalIn_payments (token src dst : Address) (r : RemittanceEscrow) :
    totalIn token (r.payments src dst) = r.amountIn token := by
  rw [RemittanceEscrow.payments, RemittanceEscrow.amountIn, totalIn]
  cases r.feeToken with
  | none => simp
  | some fee => simp

theorem totalIn_append (token : Address) (first second : List Payment) :
    totalIn token (first ++ second) = totalIn token first + totalIn token second := by
  rw [totalIn, List.map_append, List.sum_append, totalIn, totalIn]

theorem payAll_received (t : Tokens)
    (h : ∀ p ∈ payments, p.src ≠ here ∧ p.dst = here) (token : Address) :
    payAll t payments token here = t token here + totalIn token payments := by
  induction payments generalizing t with
  | nil => simp [payAll, totalIn]
  | cons p payments ih =>
    obtain ⟨hsrc, hdst⟩ := h p List.mem_cons_self
    have hrest := ih (t.move p.token p.src p.dst p.amount) fun q hq => h q (.tail p hq)
    rw [payAll, List.foldl_cons, ← payAll, hrest, hdst, Tokens.move_apply_dst _ _ _ hsrc.symm]
    simp only [totalIn, List.map_cons, List.sum_cons, eq_comm (a := token)]
    omega

theorem payAll_sent (t : Tokens)
    (h : ∀ p ∈ payments, p.src = here ∧ p.dst ≠ here) (token : Address) :
    payAll t payments token here = t token here - totalIn token payments := by
  induction payments generalizing t with
  | nil => simp [payAll, totalIn]
  | cons p payments ih =>
    obtain ⟨hsrc, hdst⟩ := h p List.mem_cons_self
    have hrest := ih (t.move p.token p.src p.dst p.amount) fun q hq => h q (.tail p hq)
    rw [payAll, List.foldl_cons, ← payAll, hrest, hsrc, Tokens.move_apply_src _ _ _ hdst.symm]
    simp only [totalIn, List.map_cons, List.sum_cons, eq_comm (a := token)]
    omega

/-- Payments of the contract to itself change nothing. -/
theorem payAll_self (t : Tokens) (h : ∀ p ∈ payments, p.src = here ∧ p.dst = here)
    (token : Address) : payAll t payments token here = t token here := by
  induction payments generalizing t with
  | nil => rfl
  | cons p payments ih =>
    obtain ⟨hsrc, hdst⟩ := h p List.mem_cons_self
    have hrest := ih (t.move p.token p.src p.dst p.amount) fun q hq => h q (.tail p hq)
    rw [payAll, List.foldl_cons, ← payAll, hrest, hsrc, hdst, Tokens.move, add_sub_cancel_right]

theorem mem_payments {p : Payment} (h : p ∈ r.payments src dst) : p.src = src ∧ p.dst = dst := by
  rw [RemittanceEscrow.payments] at h
  cases hfee : r.feeToken with
  | none =>
    rw [hfee] at h
    obtain rfl := List.mem_singleton.mp h
    exact ⟨rfl, rfl⟩
  | some fee =>
    rw [hfee] at h
    obtain rfl | h := List.mem_cons.mp h
    · exact ⟨rfl, rfl⟩
    · obtain rfl := List.mem_singleton.mp h
      exact ⟨rfl, rfl⟩

end Payments

/-! ## What the calls do -/

section Effects

variable {here : Address} {check : BalanceCheck} {crypto : BridgeCrypto} {env : BridgeEnv here}
  {e e' : BridgeEscrow}

theorem transferFee_eq_ok {feeToken : Option Address} {src dst : Address} {feeAmount : ℤ}
    {t t' : Tokens} (h : transferFee env feeToken src dst feeAmount t = .ok t') :
    t' = payAll t (feeToken.map fun fee => Payment.mk fee src dst feeAmount).toList := by
  cases feeToken with
  | none => exact (pure_eq_ok.mp h).symm
  | some fee => exact (Env.transfer_eq_ok.mp h).2

theorem payments_eq_ok {r : RemittanceEscrow} {src dst : Address} {t t₁ t₂ : Tokens}
    (hprimary : env.transfer r.primaryToken src dst r.primaryAmount t = .ok t₁)
    (hfee : transferFee env r.feeToken src dst r.feeAmount t₁ = .ok t₂) :
    t₂ = payAll t (r.payments src dst) := by
  obtain ⟨-, rfl⟩ := Env.transfer_eq_ok.mp hprimary
  exact transferFee_eq_ok hfee

theorem createRemittance_eq_ok {sender recipient primaryToken : Address}
    {primaryAmount feeAmount : ℤ} {feeToken : Option Address} {expiresAt : ℕ}
    {r : RemittanceEscrow}
    (h : createRemittance env sender recipient primaryToken primaryAmount feeToken feeAmount
      expiresAt e = .ok (r, e')) :
    r = ⟨e.remittanceNonce, sender, recipient, primaryToken, primaryAmount, feeToken, feeAmount,
        expiresAt, false, false⟩ ∧
      0 < primaryAmount ∧ 0 ≤ feeAmount ∧ sender ≠ here ∧
      e' = { e with
        tokens := payAll e.tokens (r.payments sender here)
        remittanceNonce := e.remittanceNonce + 1
        remittances := e.remittances.insert e.remittanceNonce r } := by
  rw [createRemittance] at h
  obtain ⟨_, hvalid, h⟩ := bind_eq_ok.mp h
  obtain ⟨_, hauth, h⟩ := bind_eq_ok.mp h
  obtain ⟨_, -, h⟩ := bind_eq_ok.mp h
  obtain ⟨t₁, hprimary, h⟩ := bind_eq_ok.mp h
  obtain ⟨t₂, hfee, h⟩ := bind_eq_ok.mp h
  obtain ⟨next, hnext, hwrite⟩ := bind_eq_ok.mp h
  obtain ⟨-, rfl⟩ := checkBits_eq_some.mp (okOr_eq_ok.mp hnext)
  obtain ⟨rfl, rfl⟩ := Prod.mk.inj (pure_eq_ok.mp hwrite)
  rw [failIf_eq_ok] at hvalid
  push Not at hvalid
  obtain ⟨hpos, hnonneg, -⟩ := hvalid
  have hpaid := payments_eq_ok (r := ⟨e.remittanceNonce, sender, recipient, primaryToken,
    primaryAmount, feeToken, feeAmount, expiresAt, false, false⟩) hprimary hfee
  exact ⟨rfl, hpos, hnonneg, Env.ne_here_of_auth (Env.requireAuth_eq_ok.mp hauth), by rw [hpaid]⟩

/-- An accepted release is in time and signed by the processor. -/
theorem releaseRemittance_eq_ok {id : ℕ} {signature : Bytes64}
    (h : releaseRemittance crypto env id signature e = .ok e') :
    ∃ r config, e.remittances.lookup id = some r ∧ r.released = false ∧ r.refunded = false ∧
      env.timestamp ≤ r.expiresAt ∧ e.config = some config ∧ config.processor ≠ zeroKey ∧
      crypto.ed25519Verify config.processor (remittancePayload crypto r) signature = true ∧
      e' = { e with
        tokens := payAll e.tokens (r.payments here r.recipient)
        remittances := e.remittances.insert id { r with released := true } } := by
  rw [releaseRemittance] at h
  obtain ⟨r, hr, h⟩ := bind_eq_ok.mp h
  obtain ⟨_, hopen, h⟩ := bind_eq_ok.mp h
  obtain ⟨config, hconfig, h⟩ := bind_eq_ok.mp h
  obtain ⟨_, hkey, h⟩ := bind_eq_ok.mp h
  obtain ⟨_, hverify, h⟩ := bind_eq_ok.mp h
  obtain ⟨t₁, hprimary, h⟩ := bind_eq_ok.mp h
  obtain ⟨t₂, hfee, hwrite⟩ := bind_eq_ok.mp h
  rw [failIf_eq_ok] at hopen hkey hverify
  push Not at hopen
  obtain ⟨hreleased, hrefunded, htime⟩ := hopen
  obtain rfl := pure_eq_ok.mp hwrite
  refine ⟨r, config, okOr_eq_ok.mp hr, by simpa using hreleased, by simpa using hrefunded, htime,
    okOr_eq_ok.mp hconfig, hkey, by simpa using hverify, ?_⟩
  rw [payments_eq_ok hprimary hfee]

/-- An accepted cancellation is authorised by the sender after the deadline. -/
theorem cancelRemittance_eq_ok {id : ℕ} {sender : Address}
    (h : cancelRemittance env id sender e = .ok e') :
    ∃ r, e.remittances.lookup id = some r ∧ r.released = false ∧ r.refunded = false ∧
      r.expiresAt < env.timestamp ∧ r.sender = sender ∧ env.auth sender = true ∧
      e' = { e with
        tokens := payAll e.tokens (r.payments here r.sender)
        remittances := e.remittances.insert id { r with refunded := true } } := by
  rw [cancelRemittance] at h
  obtain ⟨r, hr, h⟩ := bind_eq_ok.mp h
  obtain ⟨_, hauth, h⟩ := bind_eq_ok.mp h
  obtain ⟨_, hopen, h⟩ := bind_eq_ok.mp h
  obtain ⟨t₁, hprimary, h⟩ := bind_eq_ok.mp h
  obtain ⟨t₂, hfee, hwrite⟩ := bind_eq_ok.mp h
  rw [failIf_eq_ok] at hopen
  push Not at hopen
  obtain ⟨rfl, hreleased, hrefunded, htime⟩ := hopen
  obtain rfl := pure_eq_ok.mp hwrite
  refine ⟨r, okOr_eq_ok.mp hr, by simpa using hreleased, by simpa using hrefunded, htime, rfl,
    Env.requireAuth_eq_ok.mp hauth, ?_⟩
  rw [payments_eq_ok hprimary hfee]

/-- What a lock or an unlock does to everything but the tokens. -/
structure VaultMoved (config : BridgeEscrowConfig) (delta : ℤ) (e e' : BridgeEscrow) : Prop where
  configured : e.config = some config
  same : e'.config = e.config
  remittances : e'.remittances = e.remittances
  nonce : e'.remittanceNonce = e.remittanceNonce
  vault : e'.vaultBalanceOf config.nativeToken = e.vaultBalanceOf config.nativeToken + delta

/-- A call with the two checks is the call without them together with the checks. -/
theorem lockTokens_eq_ok_iff {depositor recipientAddress : Address} {amount : ℤ}
    {targetChainId : UInt32} {lock : TokenLock} :
    lockTokens check env depositor amount targetChainId recipientAddress e = .ok (lock, e') ↔
      lockTokens noCheck env depositor amount targetChainId recipientAddress e = .ok (lock, e') ∧
        ∃ config, e.config = some config ∧ check config e = .ok () ∧ check config e' = .ok () := by
  simp only [lockTokens, bind_eq_ok, noCheck, pure_eq_ok, BridgeEscrow.loadConfig, okOr_eq_ok]
  constructor
  · rintro ⟨_, hpos, _, hauth, config, hconfig, _, hbefore, tokens, htransfer, balance, hbalance,
      taken, hid, _, hafter, hwrite⟩
    obtain ⟨rfl, rfl⟩ := Prod.mk.inj hwrite
    exact ⟨⟨(), hpos, (), hauth, config, hconfig, (), trivial, tokens, htransfer, balance,
      hbalance, taken, hid, (), trivial, rfl⟩, config, hconfig, hbefore, hafter⟩
  · rintro ⟨⟨_, hpos, _, hauth, config, hconfig, _, -, tokens, htransfer, balance, hbalance,
      taken, hid, _, -, hwrite⟩, config', hconfig', hbefore, hafter⟩
    obtain rfl := Option.some.inj (hconfig.symm.trans hconfig')
    obtain ⟨rfl, rfl⟩ := Prod.mk.inj hwrite
    exact ⟨(), hpos, (), hauth, config, hconfig, (), hbefore, tokens, htransfer, balance, hbalance,
      taken, hid, (), hafter, rfl⟩

theorem lockTokens_eq_ok {depositor recipientAddress : Address} {amount : ℤ}
    {targetChainId : UInt32} {lock : TokenLock}
    (h : lockTokens check env depositor amount targetChainId recipientAddress e =
      .ok (lock, e')) :
    ∃ config, depositor ≠ here ∧ VaultMoved config amount e e' ∧
      e'.tokens = e.tokens.move config.nativeToken depositor here amount := by
  rw [lockTokens] at h
  obtain ⟨_, -, h⟩ := bind_eq_ok.mp h
  obtain ⟨_, hauth, h⟩ := bind_eq_ok.mp h
  obtain ⟨config, hconfig, h⟩ := bind_eq_ok.mp h
  obtain ⟨_, -, h⟩ := bind_eq_ok.mp h
  obtain ⟨tokens, htransfer, h⟩ := bind_eq_ok.mp h
  obtain ⟨balance, hbalance, h⟩ := bind_eq_ok.mp h
  obtain ⟨⟨id, e₁⟩, hid, h⟩ := bind_eq_ok.mp h
  obtain ⟨_, -, hwrite⟩ := bind_eq_ok.mp h
  obtain ⟨next, -, htaken⟩ := bind_eq_ok.mp hid
  obtain ⟨-, rfl⟩ := Prod.mk.inj (pure_eq_ok.mp htaken)
  obtain ⟨-, rfl⟩ := Prod.mk.inj (pure_eq_ok.mp hwrite)
  obtain ⟨-, rfl⟩ := Env.transfer_eq_ok.mp htransfer
  obtain ⟨-, rfl⟩ := IntRange.check_eq_some.mp (okOr_eq_ok.mp hbalance)
  refine ⟨config, Env.ne_here_of_auth (Env.requireAuth_eq_ok.mp hauth),
    ⟨okOr_eq_ok.mp hconfig, rfl, rfl, rfl, ?_⟩, rfl⟩
  rw [BridgeEscrow.vaultBalanceOf, Finmap.lookup_insert, Option.getD_some]

theorem unlockTokens_eq_ok_iff {proof : UnlockProof} {signatures : List (Bytes32 × Bytes64)}
    {r : ℤ} :
    unlockTokens check crypto env proof signatures e = .ok (r, e') ↔
      unlockTokens noCheck crypto env proof signatures e = .ok (r, e') ∧
        ∃ config, e.config = some config ∧ check config e = .ok () ∧ check config e' = .ok () := by
  simp only [unlockTokens, bind_eq_ok, noCheck, pure_eq_ok, BridgeEscrow.loadConfig, okOr_eq_ok]
  constructor
  · rintro ⟨_, hpos, relayer, hverify, config, hconfig, _, hbefore, limits, hlimits, balance,
      hbalance, tokens, htransfer, _, hafter, hwrite⟩
    obtain ⟨rfl, rfl⟩ := Prod.mk.inj hwrite
    exact ⟨⟨(), hpos, relayer, hverify, config, hconfig, (), trivial, limits, hlimits, balance,
      hbalance, tokens, htransfer, (), trivial, rfl⟩, config, hconfig, hbefore, hafter⟩
  · rintro ⟨⟨_, hpos, relayer, hverify, config, hconfig, _, -, limits, hlimits, balance, hbalance,
      tokens, htransfer, _, -, hwrite⟩, config', hconfig', hbefore, hafter⟩
    obtain rfl := Option.some.inj (hconfig.symm.trans hconfig')
    obtain ⟨rfl, rfl⟩ := Prod.mk.inj hwrite
    exact ⟨(), hpos, relayer, hverify, config, hconfig, (), hbefore, limits, hlimits, balance,
      hbalance, tokens, htransfer, (), hafter, rfl⟩

theorem unlockTokens_eq_ok {proof : UnlockProof} {signatures : List (Bytes32 × Bytes64)} {r : ℤ}
    (h : unlockTokens check crypto env proof signatures e = .ok (r, e')) :
    ∃ config, 0 < proof.amount.1 ∧ VaultMoved config (-proof.amount.1) e e' ∧
      e'.tokens = e.tokens.move config.nativeToken here proof.recipient proof.amount.1 := by
  rw [unlockTokens] at h
  obtain ⟨_, hpos, h⟩ := bind_eq_ok.mp h
  obtain ⟨relayer, -, h⟩ := bind_eq_ok.mp h
  obtain ⟨config, hconfig, h⟩ := bind_eq_ok.mp h
  obtain ⟨_, -, h⟩ := bind_eq_ok.mp h
  obtain ⟨limits, -, h⟩ := bind_eq_ok.mp h
  obtain ⟨balance, hbalance, h⟩ := bind_eq_ok.mp h
  obtain ⟨tokens, htransfer, h⟩ := bind_eq_ok.mp h
  obtain ⟨_, -, hwrite⟩ := bind_eq_ok.mp h
  obtain ⟨_, -, hbalance⟩ := bind_eq_ok.mp hbalance
  obtain ⟨-, rfl⟩ := IntRange.check_eq_some.mp (okOr_eq_ok.mp hbalance)
  obtain ⟨-, rfl⟩ := Prod.mk.inj (pure_eq_ok.mp hwrite)
  obtain ⟨-, rfl⟩ := Env.transfer_eq_ok.mp htransfer
  rw [failIf_eq_ok, not_le] at hpos
  refine ⟨config, hpos, ⟨okOr_eq_ok.mp hconfig, rfl, rfl, rfl, ?_⟩, rfl⟩
  exact (Store.getD_write_or_erase e.vaultBalance config.nativeToken _).trans (sub_eq_add_neg _ _)

/-- What an accepted call does: it moves the vault, changes the processor, creates a remittance
under a new id or pays out an open one. -/
inductive EscrowEffect (here : Address) (e e' : BridgeEscrow) : Prop
  | locked (config : BridgeEscrowConfig) (depositor : Address) (amount : ℤ)
      (hsrc : depositor ≠ here) (hmoved : VaultMoved config amount e e')
      (htokens : e'.tokens = e.tokens.move config.nativeToken depositor here amount)
  | unlocked (config : BridgeEscrowConfig) (recipient : Address) (amount : ℤ)
      (hpos : 0 < amount) (hmoved : VaultMoved config (-amount) e e')
      (htokens : e'.tokens = e.tokens.move config.nativeToken here recipient amount)
  | registered (config : BridgeEscrowConfig) (processor : Bytes32)
      (hconfig : e.config = some config)
      (h : e' = { e with config := some { config with processor := processor } })
  | created (r : RemittanceEscrow) (hid : r.id = e.remittanceNonce)
      (hopen : r.released = false ∧ r.refunded = false)
      (hpos : 0 < r.primaryAmount) (hnonneg : 0 ≤ r.feeAmount) (hsrc : r.sender ≠ here)
      (h : e' = { e with
        tokens := payAll e.tokens (r.payments r.sender here)
        remittanceNonce := e.remittanceNonce + 1
        remittances := e.remittances.insert e.remittanceNonce r })
  | exited (id : ℕ) (r r' : RemittanceEscrow) (payee : Address)
      (hlookup : e.remittances.lookup id = some r)
      (hopen : r.released = false ∧ r.refunded = false)
      (hexit : payee = r.recipient ∧ r' = { r with released := true } ∨
        payee = r.sender ∧ r' = { r with refunded := true })
      (h : e' = { e with
        tokens := payAll e.tokens (r.payments here payee)
        remittances := e.remittances.insert id r' })

theorem cancelRemittance_effect {id : ℕ} {sender : Address}
    (h : cancelRemittance env id sender e = .ok e') : EscrowEffect here e e' := by
  obtain ⟨r, hr, hreleased, hrefunded, -, -, -, rfl⟩ := cancelRemittance_eq_ok h
  exact .exited id r _ r.sender hr ⟨hreleased, hrefunded⟩ (.inr ⟨rfl, rfl⟩) rfl

theorem EscrowCall.exec_effect {call : EscrowCall}
    (h : call.exec check crypto env e = .ok e') : EscrowEffect here e e' := by
  cases call with
  | lockTokens depositor amount targetChainId recipientAddress =>
    obtain ⟨lock, hlock⟩ := snd_map_eq_ok.mp h
    obtain ⟨config, hsrc, hmoved, htokens⟩ := lockTokens_eq_ok hlock
    exact .locked config depositor amount hsrc hmoved htokens
  | unlockTokens proof signatures =>
    obtain ⟨r, hunlock⟩ := snd_map_eq_ok.mp h
    obtain ⟨config, hpos, hmoved, htokens⟩ := unlockTokens_eq_ok hunlock
    exact .unlocked config proof.recipient proof.amount.1 hpos hmoved htokens
  | registerProcessor admin processor =>
    obtain ⟨_, -, h⟩ := bind_eq_ok.mp h
    obtain ⟨config, hconfig, hwrite⟩ := bind_eq_ok.mp h
    exact .registered config processor (okOr_eq_ok.mp hconfig) (pure_eq_ok.mp hwrite).symm
  | createRemittance sender recipient primaryToken primaryAmount feeToken feeAmount expiresAt =>
    obtain ⟨r, hcreate⟩ := snd_map_eq_ok.mp h
    obtain ⟨rfl, hpos, hnonneg, hsrc, rfl⟩ := createRemittance_eq_ok hcreate
    exact .created _ rfl ⟨rfl, rfl⟩ hpos hnonneg hsrc rfl
  | releaseRemittance id signature =>
    obtain ⟨r, config, hr, hreleased, hrefunded, -, -, -, -, rfl⟩ := releaseRemittance_eq_ok h
    exact .exited id r _ r.recipient hr ⟨hreleased, hrefunded⟩ (.inl ⟨rfl, rfl⟩) rfl
  | cancelRemittance id sender => exact cancelRemittance_effect h
  | reclaimExpired id sender => exact cancelRemittance_effect h

end Effects

/-! ## What is owed on remittances -/

/-- What an open remittance owes in a token. -/
def RemittanceEscrow.owedIn (token : Address) (r : RemittanceEscrow) : ℤ :=
  if r.released = false ∧ r.refunded = false then r.amountIn token else 0

def BridgeEscrow.owed (token : Address) (e : BridgeEscrow) : ℤ :=
  Store.total (fun _ r => r.owedIn token) e.remittances

/-- The stored remittances have old ids and amounts that are not negative. -/
structure Remitted (e : BridgeEscrow) : Prop where
  fresh : ∀ id r, e.remittances.lookup id = some r → id < e.remittanceNonce
  amounts : ∀ id r, e.remittances.lookup id = some r → 0 < r.primaryAmount ∧ 0 ≤ r.feeAmount

section Owed

variable {here : Address} {e e' : BridgeEscrow} {r r' : RemittanceEscrow} {id : ℕ}

theorem RemittanceEscrow.amountIn_nonneg (h : 0 < r.primaryAmount ∧ 0 ≤ r.feeAmount)
    (token : Address) : 0 ≤ r.amountIn token := by
  rw [amountIn]
  have := h.1
  have := h.2
  split_ifs <;> omega

/-- A new remittance owes everything that was paid in. -/
theorem owed_created (hr : Remitted e) (hopen : r.released = false ∧ r.refunded = false)
    (token : Address) :
    Store.total (fun _ r => r.owedIn token) (e.remittances.insert e.remittanceNonce r) =
      e.owed token + r.amountIn token := by
  have hnone : e.remittances.lookup e.remittanceNonce = none := by
    cases hold : e.remittances.lookup e.remittanceNonce with
    | none => rfl
    | some old => exact absurd (hr.fresh _ old hold) (lt_irrefl _)
  rw [Store.total_insert_of_none _ _ hnone, RemittanceEscrow.owedIn, if_pos hopen, add_comm]
  rfl

theorem closed_of_exit {payee : Address}
    (hexit : payee = r.recipient ∧ r' = { r with released := true } ∨
      payee = r.sender ∧ r' = { r with refunded := true }) :
    r'.released = true ∨ r'.refunded = true := by
  obtain ⟨-, rfl⟩ | ⟨-, rfl⟩ := hexit
  · exact .inl rfl
  · exact .inr rfl

/-- An exit owes nothing any more. -/
theorem owed_exited (hlookup : e.remittances.lookup id = some r)
    (hopen : r.released = false ∧ r.refunded = false)
    (hclosed : r'.released = true ∨ r'.refunded = true) (token : Address) :
    Store.total (fun _ r => r.owedIn token) (e.remittances.insert id r') + r.amountIn token =
      e.owed token := by
  have hexchange := Store.total_insert (fun _ r => RemittanceEscrow.owedIn token r)
    e.remittances id r'
  have hzero : r'.owedIn token = 0 := by
    rw [RemittanceEscrow.owedIn, if_neg]
    rintro ⟨hreleased, hrefunded⟩
    rw [hreleased, hrefunded] at hclosed
    simp at hclosed
  have howed : r.owedIn token = r.amountIn token := by
    rw [RemittanceEscrow.owedIn, if_pos hopen]
  rw [Store.part_of_lookup _ hlookup, hzero, howed, add_zero] at hexchange
  exact hexchange

theorem Remitted.of_empty (h : e.remittances = ∅) : Remitted e := by
  refine ⟨fun id r hr => ?_, fun id r hr => ?_⟩ <;> rw [h] at hr <;> cases hr

theorem Remitted.step (hr : Remitted e) (he : EscrowEffect here e e') : Remitted e' := by
  cases he with
  | locked config depositor amount hsrc hmoved htokens =>
    refine ⟨fun id r h => ?_, fun id r h => ?_⟩ <;> rw [hmoved.remittances] at h
    · exact hmoved.nonce ▸ hr.fresh id r h
    · exact hr.amounts id r h
  | unlocked config recipient amount hpos hmoved htokens =>
    refine ⟨fun id r h => ?_, fun id r h => ?_⟩ <;> rw [hmoved.remittances] at h
    · exact hmoved.nonce ▸ hr.fresh id r h
    · exact hr.amounts id r h
  | registered config processor hconfig h => exact h ▸ ⟨hr.fresh, hr.amounts⟩
  | created r hid hopen hpos hnonneg hsrc h =>
    subst h
    refine ⟨fun id q hq => ?_, fun id q hq => ?_⟩ <;> rw [Store.lookup_insert_eq_some] at hq
    · obtain ⟨rfl, -⟩ | ⟨-, hold⟩ := hq
      · exact Nat.lt_succ_self _
      · exact (hr.fresh id q hold).trans (Nat.lt_succ_self _)
    · obtain ⟨-, rfl⟩ | ⟨-, hold⟩ := hq
      · exact ⟨hpos, hnonneg⟩
      · exact hr.amounts id q hold
  | exited id r r' payee hlookup hopen hexit h =>
    subst h
    refine ⟨fun id' q hq => ?_, fun id' q hq => ?_⟩ <;> rw [Store.lookup_insert_eq_some] at hq
    · obtain ⟨rfl, -⟩ | ⟨-, hold⟩ := hq
      · exact hr.fresh id' r hlookup
      · exact hr.fresh id' q hold
    · obtain ⟨-, rfl⟩ | ⟨-, hold⟩ := hq
      · obtain ⟨-, rfl⟩ | ⟨-, rfl⟩ := hexit <;> exact hr.amounts id r hlookup
      · exact hr.amounts id' q hold

end Owed

end StellarFlow.Bridge
