import StellarFlow.Bridge.Escrow

/-!
# The two escrows in one account

Locks and unlocks assert that the contract holds exactly the balance of the vault. A remittance
in the native token is held by the same contract and is not part of that balance, so as long as
it is open every lock and unlock traps.
-/
namespace StellarFlow.Bridge

open Foundation

section Vault

variable {here : Address} (crypto : BridgeCrypto)

def escrowStep (i : BridgeEnv here × EscrowCall) (e : BridgeEscrow) : Except Fault BridgeEscrow :=
  i.2.exec (assertBalanceInvariant here) crypto i.1 e

/-- The contract holds exactly the balance of the vault in the native token. -/
def VaultExact (here : Address) (e : BridgeEscrow) : Prop :=
  ∀ config, e.config = some config →
    e.tokens config.nativeToken here = e.vaultBalanceOf config.nativeToken

/-- A call that succeeds without the two checks succeeds with them. -/
def Live (e : BridgeEscrow) (i : BridgeEnv here × EscrowCall) : Prop :=
  ∀ e', i.2.exec noCheck crypto i.1 e = .ok e' → escrowStep crypto i e = .ok e'

/-- A remittance moves nothing of the native token in, and an unlock pays somebody else. -/
def EscrowCall.sparesVault (here nativeToken : Address) : EscrowCall → Prop
  | createRemittance _ _ primaryToken _ feeToken feeAmount _ =>
    primaryToken ≠ nativeToken ∧ (feeToken = some nativeToken → feeAmount = 0)
  | unlockTokens proof _ => proof.recipient ≠ here
  | _ => True

/-- Every call that is valid apart from the checks spares the vault. -/
def SparesVault (e : BridgeEscrow) (i : BridgeEnv here × EscrowCall) : Prop :=
  (∃ e', i.2.exec noCheck crypto i.1 e = .ok e') →
    ∀ config, e.config = some config → i.2.sparesVault here config.nativeToken

/-- The contract holds the balance of the vault and whatever is owed on remittances. -/
structure Covered (here : Address) (e : BridgeEscrow) : Prop where
  remitted : Remitted e
  configured : ∃ config, e.config = some config
  covered : ∀ config, e.config = some config →
    e.vaultBalanceOf config.nativeToken + e.owed config.nativeToken ≤
      e.tokens config.nativeToken here

variable {crypto} {e e' : BridgeEscrow} {i : BridgeEnv here × EscrowCall}
  {config : BridgeEscrowConfig}

theorem payAll_created {r : RemittanceEscrow} (hsrc : r.sender ≠ here) (t : Tokens)
    (token : Address) :
    payAll t (r.payments r.sender here) token here = t token here + r.amountIn token := by
  rw [payAll_received t (fun p hp => ?_), totalIn_payments]
  obtain ⟨hsource, hdest⟩ := mem_payments hp
  exact ⟨hsource.trans_ne hsrc, hdest⟩

theorem payAll_exited {r : RemittanceEscrow} {payee : Address} (hpayee : payee ≠ here) (t : Tokens)
    (token : Address) :
    payAll t (r.payments here payee) token here = t token here - r.amountIn token := by
  rw [payAll_sent t (fun p hp => ?_), totalIn_payments]
  obtain ⟨hsource, hdest⟩ := mem_payments hp
  exact ⟨hsource, hdest.trans_ne hpayee⟩

theorem payAll_exited_self {r : RemittanceEscrow} (t : Tokens) (token : Address) :
    payAll t (r.payments here here) token here = t token here :=
  payAll_self t (fun _ hp => mem_payments hp) token

/-- The native token is never changed. -/
theorem EscrowEffect.config_eq (he : EscrowEffect here e e') (hconfig : e.config = some config) :
    ∃ config', e'.config = some config' ∧ config'.nativeToken = config.nativeToken := by
  cases he with
  | locked _ depositor amount hsrc hmoved htokens => exact ⟨config, hmoved.same.trans hconfig, rfl⟩
  | unlocked _ recipient amount hpos hmoved htokens =>
    exact ⟨config, hmoved.same.trans hconfig, rfl⟩
  | registered config' processor hconfig' h =>
    obtain rfl := Option.some.inj (hconfig'.symm.trans hconfig)
    exact ⟨{ config' with processor := processor }, h ▸ rfl, rfl⟩
  | created r hid hopen hpos hnonneg hsrc h => exact ⟨config, h ▸ hconfig, rfl⟩
  | exited id r r' payee hlookup hopen hexit h => exact ⟨config, h ▸ hconfig, rfl⟩

theorem Covered.step (hc : Covered here e) (he : EscrowEffect here e e') : Covered here e' := by
  obtain ⟨config, hconfig⟩ := hc.configured
  obtain ⟨config', hconfig', hnative⟩ := he.config_eq hconfig
  refine ⟨hc.remitted.step he, ⟨config', hconfig'⟩, fun config'' hconfig'' => ?_⟩
  obtain rfl := Option.some.inj (hconfig'.symm.trans hconfig'')
  have hcovered := hc.covered config hconfig
  rw [hnative]
  cases he with
  | locked c depositor amount hsrc hmoved htokens =>
    obtain rfl := Option.some.inj (hmoved.configured.symm.trans hconfig)
    rw [hmoved.vault, htokens, Tokens.move_apply_dst _ _ _ hsrc.symm, if_pos rfl,
      BridgeEscrow.owed, hmoved.remittances, ← BridgeEscrow.owed]
    omega
  | unlocked c recipient amount hpos hmoved htokens =>
    obtain rfl := Option.some.inj (hmoved.configured.symm.trans hconfig)
    rw [hmoved.vault, htokens, BridgeEscrow.owed, hmoved.remittances, ← BridgeEscrow.owed,
      Tokens.move]
    simp only [true_and, if_true]
    split_ifs <;> omega
  | registered c processor hconfig' h => exact h ▸ hcovered
  | created r hid hopen hpos hnonneg hsrc h =>
    subst h
    have howed := owed_created hc.remitted hopen config.nativeToken
    have hpaid := payAll_created hsrc e.tokens config.nativeToken
    unfold BridgeEscrow.owed BridgeEscrow.vaultBalanceOf at *
    dsimp only at *
    omega
  | exited id r r' payee hlookup hopen hexit h =>
    have howed := owed_exited hlookup hopen (closed_of_exit hexit) config.nativeToken
    have hamount := RemittanceEscrow.amountIn_nonneg (hc.remitted.amounts id r hlookup)
      config.nativeToken
    subst h
    by_cases hself : payee = here
    · have hpaid : payAll e.tokens (r.payments here here) config.nativeToken here =
          e.tokens config.nativeToken here := payAll_exited_self _ _
      subst hself
      unfold BridgeEscrow.owed BridgeEscrow.vaultBalanceOf at *
      dsimp only at *
      omega
    · have hpaid := payAll_exited hself e.tokens config.nativeToken (r := r)
      unfold BridgeEscrow.owed BridgeEscrow.vaultBalanceOf at *
      dsimp only at *
      omega

/-- If the vault is exact, no open remittance holds any of the native token. -/
theorem Covered.amountIn_eq_zero (hc : Covered here e) (hexact : VaultExact here e)
    (hconfig : e.config = some config) {id : ℕ} {r : RemittanceEscrow}
    (hlookup : e.remittances.lookup id = some r)
    (hopen : r.released = false ∧ r.refunded = false) : r.amountIn config.nativeToken = 0 := by
  have hnonneg : ∀ id r, e.remittances.lookup id = some r → 0 ≤ r.owedIn config.nativeToken := by
    intro id r h
    rw [RemittanceEscrow.owedIn]
    split_ifs
    · exact RemittanceEscrow.amountIn_nonneg (hc.remitted.amounts id r h) _
    · exact le_rfl
  have hpart := Store.part_le_total (f := fun _ r => RemittanceEscrow.owedIn config.nativeToken r)
    hnonneg id
  rw [Store.part_of_lookup _ hlookup, ← BridgeEscrow.owed, RemittanceEscrow.owedIn,
    if_pos hopen] at hpart
  have hamount := RemittanceEscrow.amountIn_nonneg (hc.remitted.amounts id r hlookup)
    config.nativeToken
  have hcovered := hc.covered config hconfig
  have hequal := hexact config hconfig
  omega

theorem assertBalanceInvariant_eq_ok :
    assertBalanceInvariant here config e = .ok () ↔
      e.tokens config.nativeToken here = e.vaultBalanceOf config.nativeToken := by
  rw [assertBalanceInvariant, failIf_eq_ok, not_not]

theorem amountIn_eq_zero_iff {r : RemittanceEscrow} (hpos : 0 < r.primaryAmount)
    (hnonneg : 0 ≤ r.feeAmount) (token : Address) :
    r.amountIn token = 0 ↔
      r.primaryToken ≠ token ∧ (r.feeToken = some token → r.feeAmount = 0) := by
  rw [RemittanceEscrow.amountIn]
  by_cases hprimary : r.primaryToken = token
  · rw [if_pos hprimary]
    refine iff_of_false ?_ fun h => h.1 hprimary
    split_ifs <;> omega
  · rw [if_neg hprimary, zero_add]
    split_ifs with hfee <;> simp [hprimary, hfee]

/-- An exact vault stays exact when nothing about it changes. -/
theorem VaultExact.congr (hexact : VaultExact here e) (hconfig : e.config = some config)
    (hnative : ∃ config', e'.config = some config' ∧ config'.nativeToken = config.nativeToken)
    (hvault : e'.vaultBalance = e.vaultBalance)
    (htokens : e'.tokens config.nativeToken here = e.tokens config.nativeToken here) :
    VaultExact here e' := by
  obtain ⟨config', hconfig', heq⟩ := hnative
  intro config'' hconfig''
  obtain rfl := Option.some.inj (hconfig'.symm.trans hconfig'')
  rw [heq, htokens, hexact config hconfig, BridgeEscrow.vaultBalanceOf,
    BridgeEscrow.vaultBalanceOf, hvault]

theorem VaultMoved.exact_iff {delta : ℤ} (hmoved : VaultMoved config delta e e')
    (hexact : VaultExact here e) :
    VaultExact here e' ↔
      e'.tokens config.nativeToken here = e.tokens config.nativeToken here + delta := by
  have hequal := hexact config hmoved.configured
  have hconfig : e'.config = some config := hmoved.same.trans hmoved.configured
  constructor
  · intro hexact'
    rw [hexact' config hconfig, hmoved.vault, hequal]
  · intro htokens config' hconfig'
    obtain rfl := Option.some.inj (hconfig.symm.trans hconfig')
    rw [htokens, hmoved.vault, hequal]

/-- Paying out a remittance of another token leaves the vault alone. -/
theorem Covered.exact_exited (hc : Covered here e) (hexact : VaultExact here e) {id : ℕ}
    {r r' : RemittanceEscrow} (payee : Address) (hlookup : e.remittances.lookup id = some r)
    (hopen : r.released = false ∧ r.refunded = false) :
    VaultExact here { e with
      tokens := payAll e.tokens (r.payments here payee)
      remittances := e.remittances.insert id r' } := by
  obtain ⟨config, hconfig⟩ := hc.configured
  refine hexact.congr hconfig ⟨config, hconfig, rfl⟩ rfl ?_
  change payAll e.tokens (r.payments here payee) config.nativeToken here = _
  have hzero := hc.amountIn_eq_zero hexact hconfig hlookup hopen
  by_cases hself : payee = here
  · rw [hself, payAll_exited_self]
  · rw [payAll_exited hself, hzero, sub_zero]

theorem VaultExact.created_iff (hexact : VaultExact here e) (hconfig : e.config = some config)
    {r : RemittanceEscrow} (hsrc : r.sender ≠ here) :
    VaultExact here { e with
        tokens := payAll e.tokens (r.payments r.sender here)
        remittanceNonce := e.remittanceNonce + 1
        remittances := e.remittances.insert e.remittanceNonce r } ↔
      r.amountIn config.nativeToken = 0 := by
  have hpaid := payAll_created hsrc e.tokens config.nativeToken
  have hequal := hexact config hconfig
  constructor
  · intro hexact'
    have hequal' : payAll e.tokens (r.payments r.sender here) config.nativeToken here =
      e.vaultBalanceOf config.nativeToken := hexact' config hconfig
    omega
  · intro hzero
    refine hexact.congr hconfig ⟨config, hconfig, rfl⟩ rfl ?_
    exact hpaid.trans (by rw [hzero, add_zero])

/-- Apart from the checks, a valid call keeps the vault exact if and only if it spares it. -/
theorem Covered.exact_iff (hc : Covered here e) (hexact : VaultExact here e)
    (hconfig : e.config = some config) (h : i.2.exec noCheck crypto i.1 e = .ok e') :
    VaultExact here e' ↔ i.2.sparesVault here config.nativeToken := by
  obtain ⟨env, call⟩ := i
  cases call with
  | lockTokens depositor amount targetChainId recipientAddress =>
    obtain ⟨lock, hlock⟩ := snd_map_eq_ok.mp h
    obtain ⟨c, hsrc, hmoved, htokens⟩ := lockTokens_eq_ok hlock
    refine iff_of_true ((hmoved.exact_iff hexact).mpr ?_) trivial
    rw [htokens, Tokens.move_apply_dst _ _ _ hsrc.symm, if_pos rfl]
  | unlockTokens proof signatures =>
    obtain ⟨r, hunlock⟩ := snd_map_eq_ok.mp h
    obtain ⟨c, hpos, hmoved, htokens⟩ := unlockTokens_eq_ok hunlock
    rw [hmoved.exact_iff hexact, htokens, Tokens.move]
    change _ ↔ proof.recipient ≠ here
    simp only [true_and, if_true]
    split_ifs with hself
    · exact iff_of_false (by omega) (not_not.mpr hself.symm)
    · exact iff_of_true (by omega) (Ne.symm hself)
  | registerProcessor admin processor =>
    obtain ⟨_, -, h⟩ := bind_eq_ok.mp h
    obtain ⟨c, hc', hwrite⟩ := bind_eq_ok.mp h
    obtain rfl := pure_eq_ok.mp hwrite
    obtain rfl := Option.some.inj ((okOr_eq_ok.mp hc').symm.trans hconfig)
    exact iff_of_true (hexact.congr hconfig ⟨_, rfl, rfl⟩ rfl rfl) trivial
  | createRemittance sender recipient primaryToken primaryAmount feeToken feeAmount expiresAt =>
    obtain ⟨r, hcreate⟩ := snd_map_eq_ok.mp h
    obtain ⟨rfl, hpos, hnonneg, hsrc, rfl⟩ := createRemittance_eq_ok hcreate
    have hiff := amountIn_eq_zero_iff (r := ⟨e.remittanceNonce, sender, recipient, primaryToken,
      primaryAmount, feeToken, feeAmount, expiresAt, false, false⟩) hpos hnonneg
      config.nativeToken
    exact (hexact.created_iff hconfig hsrc).trans hiff
  | releaseRemittance id signature =>
    obtain ⟨r, c, hr, hreleased, hrefunded, -, -, -, -, rfl⟩ := releaseRemittance_eq_ok h
    exact iff_of_true (hc.exact_exited hexact r.recipient hr ⟨hreleased, hrefunded⟩) trivial
  | cancelRemittance id sender =>
    obtain ⟨r, hr, hreleased, hrefunded, -, -, -, rfl⟩ := cancelRemittance_eq_ok h
    exact iff_of_true (hc.exact_exited hexact r.sender hr ⟨hreleased, hrefunded⟩) trivial
  | reclaimExpired id sender =>
    obtain ⟨r, hr, hreleased, hrefunded, -, -, -, rfl⟩ := cancelRemittance_eq_ok h
    exact iff_of_true (hc.exact_exited hexact r.sender hr ⟨hreleased, hrefunded⟩) trivial

/-- The checks only ever make a call fail. -/
theorem unchecked_of_checked {check : BalanceCheck} {call : EscrowCall} {env : BridgeEnv here}
    (h : call.exec check crypto env e = .ok e') : call.exec noCheck crypto env e = .ok e' := by
  cases call with
  | lockTokens depositor amount targetChainId recipientAddress =>
    obtain ⟨lock, hlock⟩ := snd_map_eq_ok.mp h
    exact snd_map_eq_ok.mpr ⟨lock, (lockTokens_eq_ok_iff.mp hlock).1⟩
  | unlockTokens proof signatures =>
    obtain ⟨r, hunlock⟩ := snd_map_eq_ok.mp h
    exact snd_map_eq_ok.mpr ⟨r, (unlockTokens_eq_ok_iff.mp hunlock).1⟩
  | _ => exact h

/-- They pass when the vault is exact before and after the call. -/
theorem checked_of_unchecked (hconfig : e.config = some config) (hexact : VaultExact here e)
    (hexact' : VaultExact here e') (h : i.2.exec noCheck crypto i.1 e = .ok e') :
    escrowStep crypto i e = .ok e' := by
  obtain ⟨env, call⟩ := i
  have hbefore := assertBalanceInvariant_eq_ok.mpr (hexact config hconfig)
  cases call with
  | lockTokens depositor amount targetChainId recipientAddress =>
    obtain ⟨lock, hlock⟩ := snd_map_eq_ok.mp h
    obtain ⟨c, -, hmoved, -⟩ := lockTokens_eq_ok hlock
    obtain rfl := Option.some.inj (hmoved.configured.symm.trans hconfig)
    have hafter := assertBalanceInvariant_eq_ok.mpr
      (hexact' c (hmoved.same.trans hmoved.configured))
    exact snd_map_eq_ok.mpr
      ⟨lock, lockTokens_eq_ok_iff.mpr ⟨hlock, c, hconfig, hbefore, hafter⟩⟩
  | unlockTokens proof signatures =>
    obtain ⟨r, hunlock⟩ := snd_map_eq_ok.mp h
    obtain ⟨c, -, hmoved, -⟩ := unlockTokens_eq_ok hunlock
    obtain rfl := Option.some.inj (hmoved.configured.symm.trans hconfig)
    have hafter := assertBalanceInvariant_eq_ok.mpr
      (hexact' c (hmoved.same.trans hmoved.configured))
    exact snd_map_eq_ok.mpr
      ⟨r, unlockTokens_eq_ok_iff.mpr ⟨hunlock, c, hconfig, hbefore, hafter⟩⟩
  | _ => exact h

/-- From an exact vault a call is live and keeps it exact if and only if it spares it. -/
theorem Covered.live_iff (hc : Covered here e) (hexact : VaultExact here e) :
    VaultExact here (commit (escrowStep crypto) e i) ∧ Live crypto e i ↔
      SparesVault crypto e i := by
  obtain ⟨config, hconfig⟩ := hc.configured
  cases hcall : i.2.exec noCheck crypto i.1 e with
  | error fault =>
    have hstep : commit (escrowStep crypto) e i = e := by
      cases h : escrowStep crypto i e with
      | error fault' => exact commit_of_error h
      | ok e' => cases hcall.symm.trans (unchecked_of_checked h)
    rw [hstep]
    refine iff_of_true ⟨hexact, fun e' h => ?_⟩ ?_
    · cases hcall.symm.trans h
    · rintro ⟨e', h⟩
      cases hcall.symm.trans h
  | ok e' =>
    have hiff := hc.exact_iff hexact hconfig hcall
    constructor
    · rintro ⟨hexact', hlive⟩ - config' hconfig'
      obtain rfl := Option.some.inj (hconfig.symm.trans hconfig')
      rw [commit_of_ok (hlive e' hcall)] at hexact'
      exact hiff.mp hexact'
    · intro hspares
      have hexact' := hiff.mpr (hspares ⟨e', hcall⟩ config hconfig)
      have hstep := checked_of_unchecked hconfig hexact hexact' hcall
      rw [commit_of_ok hstep]
      refine ⟨hexact', fun e'' h => ?_⟩
      obtain rfl := Except.ok.inj (hcall.symm.trans h)
      exact hstep

theorem Covered.commit (hc : Covered here e) (i : BridgeEnv here × EscrowCall) :
    Covered here (commit (escrowStep crypto) e i) :=
  commit_induction hc fun _ h => hc.step (EscrowCall.exec_effect h)

/-- From a configured escrow that holds none of the native token, the vault stays exact and the
checks never fail an otherwise valid call if and only if every call spares the vault. -/
theorem vaultExact_and_live_iff (config : BridgeEscrowConfig) (relayer : Relayer)
    (limits : RateLimits) (tokens : Tokens) (hnone : tokens config.nativeToken here = 0)
    (run : List (BridgeEnv here × EscrowCall)) :
    Throughout (escrowStep crypto) (VaultExact here) (.configured config relayer limits tokens)
          run ∧
        Along (escrowStep crypto) (Live crypto) (.configured config relayer limits tokens) run ↔
      Along (escrowStep crypto) (SparesVault crypto) (.configured config relayer limits tokens)
        run := by
  have hcovered : Covered here (.configured config relayer limits tokens) := by
    refine ⟨.of_empty rfl, ⟨config, rfl⟩, fun config' h => ?_⟩
    obtain rfl := Option.some.inj h
    exact hnone.ge
  have hexact : VaultExact here (.configured config relayer limits tokens) := by
    intro config' h
    obtain rfl := Option.some.inj h
    exact hnone
  exact throughout_and_along_iff (fun _ i hc => hc.commit i) (fun _ _ hc h => hc.live_iff h)
    hcovered hexact run

end Vault

section Sample

def sampleEscrowConfig : BridgeEscrowConfig := ⟨⟨7⟩, zeroKey⟩

/-- Somebody holds 1000 of the native token and of another one. -/
def sampleTokens : Tokens := fun _ holder => if holder = ⟨3⟩ then 1000 else 0

/-- A remittance of another token between two locks. -/
def sampleSparingRun : List (BridgeEnv ⟨0⟩ × EscrowCall) :=
  [(sampleBridgeEnv, .lockTokens ⟨3⟩ 50 1 ⟨4⟩),
    (sampleBridgeEnv, .createRemittance ⟨3⟩ ⟨4⟩ ⟨8⟩ 100 none 0 10),
    (sampleBridgeEnv, .lockTokens ⟨3⟩ 50 1 ⟨4⟩)]

theorem sampleSparingRun_live :
    Throughout (escrowStep sampleCrypto) (VaultExact ⟨0⟩)
          (.configured sampleEscrowConfig ⟨none, ∅, ∅, ∅⟩ .empty sampleTokens) sampleSparingRun ∧
        Along (escrowStep sampleCrypto) (Live sampleCrypto)
          (.configured sampleEscrowConfig ⟨none, ∅, ∅, ∅⟩ .empty sampleTokens) sampleSparingRun ↔
      Along (escrowStep sampleCrypto) (SparesVault sampleCrypto)
        (.configured sampleEscrowConfig ⟨none, ∅, ∅, ∅⟩ .empty sampleTokens) sampleSparingRun :=
  vaultExact_and_live_iff sampleEscrowConfig ⟨none, ∅, ∅, ∅⟩ .empty sampleTokens (by decide)
    sampleSparingRun

/-- A remittance in the native token, and then a lock. -/
def sampleNativeRun : List (BridgeEnv ⟨0⟩ × EscrowCall) :=
  [(sampleBridgeEnv, .createRemittance ⟨3⟩ ⟨4⟩ ⟨7⟩ 100 none 0 10),
    (sampleBridgeEnv, .lockTokens ⟨3⟩ 50 1 ⟨4⟩)]

/-- The contract holds 100 beside an empty vault, and the lock traps. -/
theorem nativeRemittance_freezes :
    ¬ Throughout (escrowStep sampleCrypto) (VaultExact ⟨0⟩)
        (.configured sampleEscrowConfig ⟨none, ∅, ∅, ∅⟩ .empty sampleTokens) sampleNativeRun ∧
      ¬ Along (escrowStep sampleCrypto) (Live sampleCrypto)
        (.configured sampleEscrowConfig ⟨none, ∅, ∅, ∅⟩ .empty sampleTokens)
        sampleNativeRun := by
  constructor
  · rintro ⟨-, hexact, -⟩
    have hheld := hexact sampleEscrowConfig rfl
    revert hheld
    decide
  · rintro ⟨-, hlive, -⟩
    have hlock := hlive _ rfl
    cases hlock

end Sample

end StellarFlow.Bridge
