import StellarFlow.Oracle.Store

/-!
# Fees for reading prices

Whoever reads a price pays a fee that is credited to the provider of the price. The vault is kept
for each token, the rewards of a provider are one number, and the token of the fees is a setting.
A claim pays out the rewards in the token of the moment.
-/
namespace StellarFlow.QueryFees

open Foundation Oracle

/-- In seconds. -/
def maxRateAgeSeconds : ℕ := 300

/-- What a reader depends on besides the fees. -/
structure Rates where
  settings : OracleSettings
  emergencyHalt : Bool
  circuitBreakerActive : Bool
  circuitBreakerPairedAsset : Finset Symbol
  verifiedPrices : Store Symbol PriceData
  communityPrices : Store Symbol PriceData

structure FeeStore where
  rates : Rates
  feeToken : Option Address
  queryFee : Option ℤ
  providerRewardBalance : Store Address ℤ
  corridorFeeVaultBalance : Store Address ℤ
  isLocked : Bool
  tokens : Tokens

def Rates.deployed : Rates := ⟨.deployed, false, false, ∅, ∅, ∅⟩

def FeeStore.deployed (tokens : Tokens) : FeeStore :=
  ⟨.deployed, none, none, ∅, ∅, false, tokens⟩

def FeeStore.rewardOf (s : FeeStore) (provider : Address) : ℤ :=
  (s.providerRewardBalance.lookup provider).getD 0

def FeeStore.vaultOf (s : FeeStore) (token : Address) : ℤ :=
  (s.corridorFeeVaultBalance.lookup token).getD 0

/-- Addition of times, which stays at the largest one. -/
def saturatingTime (x y : ℕ) : ℕ := min (2 ^ 64 - 1) (x + y)

def isStale (currentTime storedTimestamp ttl : ℕ) : Bool :=
  saturatingTime storedTimestamp ttl ≤ currentTime

def enforceRateMapMaxAge (currentTime storedTimestamp : ℕ) : Except OracleFault Unit :=
  failIf (saturatingTime storedTimestamp maxRateAgeSeconds < currentTime) (.error .staleRateData)

section Calls

variable {here : Address} (env : Env here)

def requireAdmin (admin : Address) (s : FeeStore) : Except OracleFault Unit := do
  s.rates.settings.requireNotDestroyed
  s.rates.settings.requireInitialized
  s.rates.settings.requireNotFrozen
  hostCall (env.requireAuth admin)
  s.rates.settings.requireAuthorized admin

def setFeeToken (admin token : Address) (s : FeeStore) : Except OracleFault FeeStore := do
  requireAdmin env admin s
  pure { s with feeToken := some token }

def setQueryFee (admin : Address) (fee : i128.Value) (s : FeeStore) :
    Except OracleFault FeeStore := do
  requireAdmin env admin s
  failIf (fee.1 < 0) (.error .invalidQueryFee)
  pure { s with queryFee := some fee.1 }

/-- Take a positive fee from the reader. The token contract asks for its authorisation. -/
def collectFee (payer provider : Address) (fee : ℤ) (s : FeeStore) :
    Except OracleFault FeeStore := do
  let token ← okOr s.feeToken (.error .feeTokenNotSet)
  failIf s.isLocked (.error .reentrancyDetected)
  hostCall (env.requireAuth payer)
  let tokens ← hostCall (env.transfer token payer here fee s.tokens)
  let newProviderRewards ← okOr (i128.check (s.rewardOf provider + fee)) (.error .priceMathOverflow)
  let newVault ← okOr (i128.check (s.vaultOf token + fee)) (.error .priceMathOverflow)
  pure { s with
    tokens
    isLocked := false
    providerRewardBalance := s.providerRewardBalance.insert provider newProviderRewards
    corridorFeeVaultBalance := s.corridorFeeVaultBalance.insert token newVault }

def processQueryFee (payer provider : Address) (s : FeeStore) : Except OracleFault FeeStore :=
  if s.queryFee.getD 0 ≤ 0 then pure s else collectFee env payer provider (s.queryFee.getD 0) s

/-- Read a price that somebody pays for. -/
def getPrice (payer : Address) (asset : Symbol) (verified : Bool) (s : FeeStore) :
    Except OracleFault (PriceData × FeeStore) := do
  failIf s.rates.emergencyHalt (.error .emergencyHalted)
  failIf (s.rates.circuitBreakerActive ∨ asset ∈ s.rates.circuitBreakerPairedAsset)
    (.error .circuitBreakerActive)
  let bucket := if verified then s.rates.verifiedPrices else s.rates.communityPrices
  let priceData ← okOr (bucket.lookup asset) (.error .assetNotFound)
  enforceRateMapMaxAge env.timestamp priceData.timestamp
  failIf (isStale env.timestamp priceData.timestamp priceData.ttl) (.error .assetNotFound)
  let s ← processQueryFee env payer priceData.provider s
  pure (priceData, s)

def claimRewards (validator : Address) (s : FeeStore) : Except OracleFault (ℤ × FeeStore) := do
  hostCall (env.requireAuth validator)
  let pendingRewards := s.rewardOf validator
  failIf (pendingRewards ≤ 0) (.error .noRewards)
  let token ← okOr s.feeToken (.error .feeTokenNotSet)
  failIf (s.vaultOf token < pendingRewards) (.error .insufficientVaultBalance)
  let newVault := s.vaultOf token - pendingRewards
  let tokens ← hostCall (env.transfer token here validator pendingRewards s.tokens)
  pure (pendingRewards, { s with
    tokens
    providerRewardBalance := s.providerRewardBalance.erase validator
    corridorFeeVaultBalance := s.corridorFeeVaultBalance.insert token newVault })

end Calls

inductive FeeCall
  | setFeeToken (admin token : Address)
  | setQueryFee (admin : Address) (fee : i128.Value)
  | getPrice (payer : Address) (asset : Symbol) (verified : Bool)
  | claimRewards (validator : Address)
  /-- Any other entry point, with the prices and settings that it leaves. -/
  | other (rates : Rates)

/-- A fee that was collected. -/
structure Fee where
  provider : Address
  token : Address
  amount : ℤ

/-- The store, all fees collected, those of them that were not claimed yet, and the payments of
rewards by token. -/
structure FeeHistory where
  store : FeeStore
  collected : List Fee
  unclaimed : List Fee
  paid : List (Address × ℤ)

def FeeHistory.deployed (tokens : Tokens) : FeeHistory := ⟨.deployed tokens, [], [], []⟩

/-- The fee that reading a price of the provider costs now. -/
def FeeStore.feeFor (s : FeeStore) (provider : Address) : List Fee :=
  match s.feeToken with
  | some token =>
    if s.queryFee.getD 0 ≤ 0 then [] else [⟨provider, token, s.queryFee.getD 0⟩]
  | none => []

/-- A call together with the environment it runs in. -/
abbrev FeeStep (here : Address) := Env here × FeeCall

def feeStep {here : Address} (i : FeeStep here) (h : FeeHistory) : Except OracleFault FeeHistory :=
  match i.2 with
  | .setFeeToken admin token => do
    let store ← setFeeToken i.1 admin token h.store
    pure { h with store }
  | .setQueryFee admin fee => do
    let store ← setQueryFee i.1 admin fee h.store
    pure { h with store }
  | .getPrice payer asset verified => do
    let (priceData, store) ← getPrice i.1 payer asset verified h.store
    let fees := h.store.feeFor priceData.provider
    pure { h with store, collected := fees ++ h.collected, unclaimed := fees ++ h.unclaimed }
  | .claimRewards validator => do
    let (amount, store) ← claimRewards i.1 validator h.store
    pure { h with
      store
      unclaimed := h.unclaimed.filter fun fee => fee.provider ≠ validator
      paid := h.store.feeToken.toList.map (fun token => (token, amount)) ++ h.paid }
  | .other rates => pure { h with store := { h.store with rates } }

/-! ## Backing -/

/-- The sum of the fees with a property. -/
def amountWhere (p : Fee → Prop) [DecidablePred p] (fees : List Fee) : ℤ :=
  (fees.map fun fee => if p fee then fee.amount else 0).sum

/-- What was paid out in a token. -/
def paidIn (token : Address) (paid : List (Address × ℤ)) : ℤ :=
  (paid.map fun payment => if payment.1 = token then payment.2 else 0).sum

/-- The vault is what was collected and not paid out, and the contract holds it. The rewards of a
provider are its fees that were not claimed. -/
structure Booked (here : Address) (h : FeeHistory) : Prop where
  vault_eq : ∀ token, h.store.vaultOf token =
    amountWhere (fun fee => fee.token = token) h.collected - paidIn token h.paid
  vault_le : ∀ token, h.store.vaultOf token ≤ h.store.tokens token here
  reward_eq : ∀ provider, h.store.rewardOf provider =
    amountWhere (fun fee => fee.provider = provider) h.unclaimed

/-- The vault of a token holds the fees in the token that were not claimed. -/
def Backed (h : FeeHistory) : Prop :=
  ∀ token, h.store.vaultOf token = amountWhere (fun fee => fee.token = token) h.unclaimed

/-- A claim does not fail for lack of vault balance, and pays the validator each of its fees in
the token of the fee. -/
structure PaysEachFee {here : Address} (h : FeeHistory) (i : FeeStep here) (validator : Address) :
    Prop where
  funded : feeStep i h ≠ .error (.error .insufficientVaultBalance)
  paid : ∀ h', feeStep i h = .ok h' → ∀ token, h'.store.tokens token validator =
    h.store.tokens token validator +
      amountWhere (fun fee => fee.provider = validator ∧ fee.token = token) h.unclaimed

def ClaimsPaid {here : Address} (h : FeeHistory) (i : FeeStep here) : Prop :=
  ∀ validator, i.2 = .claimRewards validator → PaysEachFee h i validator

/-- A claim comes while the token of the fees is the one that all rewards of the validator were
collected in. Claims that trap, unsigned or refused by the token, do not count. -/
def ClaimsTimely {here : Address} (h : FeeHistory) (i : FeeStep here) : Prop :=
  ∀ validator, i.2 = .claimRewards validator → feeStep i h ≠ .error .trap →
    ∀ fee ∈ h.unclaimed, fee.provider = validator → h.store.feeToken = some fee.token

/-! ## Sums of fees -/

section Sums

variable {p q : Fee → Prop} [DecidablePred p] [DecidablePred q] {fees : List Fee}

theorem amountWhere_cons (fee : Fee) (rest : List Fee) :
    amountWhere p (fee :: rest) = (if p fee then fee.amount else 0) + amountWhere p rest := by
  rw [amountWhere, List.map_cons, List.sum_cons, amountWhere]

theorem amountWhere_append (first rest : List Fee) :
    amountWhere p (first ++ rest) = amountWhere p first + amountWhere p rest := by
  rw [amountWhere, List.map_append, List.sum_append, amountWhere, amountWhere]

theorem amountWhere_congr (h : ∀ fee ∈ fees, p fee ↔ q fee) :
    amountWhere p fees = amountWhere q fees := by
  rw [amountWhere, amountWhere, List.map_congr_left]
  intro fee hmem
  simp only [h fee hmem]

theorem amountWhere_eq_zero (h : ∀ fee ∈ fees, ¬ p fee) : amountWhere p fees = 0 := by
  rw [amountWhere_congr (q := fun _ => False) fun fee hmem => iff_of_false (h fee hmem) id]
  simp [amountWhere]

theorem amountWhere_nonneg (hpos : ∀ fee ∈ fees, 0 < fee.amount) : 0 ≤ amountWhere p fees := by
  apply List.sum_nonneg
  intro amount hmem
  obtain ⟨fee, hfee, rfl⟩ := List.mem_map.mp hmem
  split_ifs
  · exact (hpos fee hfee).le
  · exact le_rfl

theorem amountWhere_le (hpos : ∀ fee ∈ fees, 0 < fee.amount) (h : ∀ fee, p fee → q fee) :
    amountWhere p fees ≤ amountWhere q fees := by
  apply List.sum_le_sum
  intro fee hmem
  have hamount := hpos fee hmem
  split_ifs with hp hq
  · exact le_rfl
  · exact absurd (h fee hp) hq
  · exact hamount.le
  · exact le_rfl

/-- A fee that only the larger property has makes the difference. -/
theorem amountWhere_lt (hpos : ∀ fee ∈ fees, 0 < fee.amount) (h : ∀ fee, p fee → q fee)
    {fee : Fee} (hmem : fee ∈ fees) (hp : ¬ p fee) (hq : q fee) :
    amountWhere p fees < amountWhere q fees := by
  obtain ⟨before, after, rfl⟩ := List.append_of_mem hmem
  have hbefore := amountWhere_le (p := p) (q := q)
    (fun f hf => hpos f (List.mem_append_left _ hf)) h
  have hafter := amountWhere_le (p := p) (q := q)
    (fun f hf => hpos f (List.mem_append_right _ (List.mem_cons_of_mem _ hf))) h
  have hamount := hpos fee hmem
  rw [amountWhere_append, amountWhere_append]
  have hcons : amountWhere p (fee :: after) = amountWhere p after := by
    simp [amountWhere, hp]
  have hcons' : amountWhere q (fee :: after) = fee.amount + amountWhere q after := by
    simp [amountWhere, hq]
  omega

/-- Without the fees of a provider. -/
theorem amountWhere_filter (provider : Address) :
    amountWhere p (fees.filter fun fee => fee.provider ≠ provider) =
      amountWhere p fees - amountWhere (fun fee => fee.provider = provider ∧ p fee) fees := by
  induction fees with
  | nil => rfl
  | cons fee rest ih =>
    have hsplit (r : Fee → Prop) [DecidablePred r] (others : List Fee) :
        amountWhere r (fee :: others) =
          (if r fee then fee.amount else 0) + amountWhere r others := by
      simp [amountWhere]
    rw [List.filter_cons, hsplit p rest, hsplit _ rest]
    by_cases hprovider : fee.provider = provider
    · simp only [hprovider, ne_eq, not_true_eq_false, decide_false, Bool.false_eq_true, if_false,
        true_and, ih]
      omega
    · simp only [hprovider, ne_eq, not_false_eq_true, decide_true, if_true, false_and, if_false,
        hsplit p, ih]
      omega

end Sums

/-! ## What a call does -/

section Specs

variable {here : Address} {env : Env here} {s s' : FeeStore}

theorem setFeeToken_eq_ok {admin token : Address} (h : setFeeToken env admin token s = .ok s') :
    s' = { s with feeToken := some token } := by
  obtain ⟨_, _, h⟩ := bind_eq_ok.mp h
  exact (pure_eq_ok.mp h).symm

theorem setQueryFee_eq_ok {admin : Address} {fee : i128.Value}
    (h : setQueryFee env admin fee s = .ok s') : s' = { s with queryFee := some fee.1 } := by
  obtain ⟨_, _, h⟩ := bind_eq_ok.mp h
  obtain ⟨_, _, h⟩ := bind_eq_ok.mp h
  exact (pure_eq_ok.mp h).symm

/-- The store after a fee was collected. -/
def FeeStore.charged (here token payer provider : Address) (fee : ℤ) (s : FeeStore) : FeeStore :=
  { s with
    tokens := s.tokens.move token payer here fee
    isLocked := false
    providerRewardBalance := s.providerRewardBalance.insert provider (s.rewardOf provider + fee)
    corridorFeeVaultBalance :=
      s.corridorFeeVaultBalance.insert token (s.vaultOf token + fee) }

theorem collectFee_eq_ok {payer provider : Address} {fee : ℤ}
    (h : collectFee env payer provider fee s = .ok s') :
    ∃ token, s.feeToken = some token ∧ payer ≠ here ∧
      s' = s.charged here token payer provider fee := by
  simp only [collectFee, bind_eq_ok, failIf_eq_ok, okOr_eq_ok, hostCall_eq_ok,
    Env.requireAuth_eq_ok, Env.transfer_eq_ok, IntRange.check_eq_some, pure_eq_ok] at h
  obtain ⟨token, htoken, _, _, _, hauth, _, ⟨_, rfl⟩, _, ⟨_, rfl⟩, _, ⟨_, rfl⟩, rfl⟩ := h
  exact ⟨token, htoken, Env.ne_here_of_auth hauth, rfl⟩

theorem getPrice_eq_ok {payer : Address} {asset : Symbol} {verified : Bool} {priceData : PriceData}
    (h : getPrice env payer asset verified s = .ok (priceData, s')) :
    processQueryFee env payer priceData.provider s = .ok s' := by
  simp only [getPrice, bind_eq_ok, pure_eq_ok, Prod.mk.injEq] at h
  obtain ⟨_, _, _, _, _, _, _, _, _, _, _, hfee, rfl, rfl⟩ := h
  exact hfee

/-- The store after a claim in the token. -/
def FeeStore.claimed (here token validator : Address) (s : FeeStore) : FeeStore :=
  { s with
    tokens := s.tokens.move token here validator (s.rewardOf validator)
    providerRewardBalance := s.providerRewardBalance.erase validator
    corridorFeeVaultBalance :=
      s.corridorFeeVaultBalance.insert token (s.vaultOf token - s.rewardOf validator) }

theorem claimRewards_eq_ok {validator : Address} {amount : ℤ}
    (h : claimRewards env validator s = .ok (amount, s')) :
    ∃ token, validator ≠ here ∧ s.feeToken = some token ∧
      s.rewardOf validator ≤ s.vaultOf token ∧ amount = s.rewardOf validator ∧
      s' = s.claimed here token validator := by
  simp only [claimRewards, bind_eq_ok, failIf_eq_ok, okOr_eq_ok, hostCall_eq_ok,
    Env.requireAuth_eq_ok, Env.transfer_eq_ok, pure_eq_ok, Prod.mk.injEq, not_lt] at h
  obtain ⟨_, hauth, _, _, token, htoken, _, hvault, _, ⟨_, rfl⟩, rfl, rfl⟩ := h
  exact ⟨token, Env.ne_here_of_auth hauth, htoken, hvault, rfl, rfl⟩

/-- Why a claim fails. -/
theorem claimRewards_eq_error {validator : Address} {e : OracleFault}
    (h : claimRewards env validator s = .error e) :
    e = .trap ∨ e = .error .noRewards ∧ s.rewardOf validator ≤ 0 ∨
      e = .error .feeTokenNotSet ∧ s.feeToken = none ∨
      ∃ token, e = .error .insufficientVaultBalance ∧ s.feeToken = some token ∧
        s.vaultOf token < s.rewardOf validator := by
  rw [claimRewards, bind_eq_error] at h
  obtain hauth | ⟨_, _, h⟩ := h
  · exact .inl (hostCall_eq_error.mp hauth).2
  obtain hnone | ⟨_, _, h⟩ := bind_eq_error.mp h
  · obtain ⟨hle, rfl⟩ := failIf_eq_error.mp hnone
    exact .inr (.inl ⟨rfl, hle⟩)
  obtain hunset | ⟨token, hset, h⟩ := bind_eq_error.mp h
  · obtain ⟨htoken, rfl⟩ := okOr_eq_error.mp hunset
    exact .inr (.inr (.inl ⟨rfl, htoken⟩))
  obtain hvault | ⟨_, _, h⟩ := bind_eq_error.mp h
  · obtain ⟨hlt, rfl⟩ := failIf_eq_error.mp hvault
    exact .inr (.inr (.inr ⟨token, rfl, okOr_eq_ok.mp hset, hlt⟩))
  obtain hrefused | ⟨_, _, h⟩ := bind_eq_error.mp h
  · exact .inl (hostCall_eq_error.mp hrefused).2
  · cases h

/-- Either the price is free, or a positive fee is credited to its provider. -/
theorem processQueryFee_eq_ok {payer provider : Address}
    (h : processQueryFee env payer provider s = .ok s') :
    s' = s ∧ s.feeFor provider = [] ∨
      ∃ token fee, 0 < fee ∧ s.feeToken = some token ∧ payer ≠ here ∧
        s.feeFor provider = [⟨provider, token, fee⟩] ∧
        s' = s.charged here token payer provider fee := by
  unfold processQueryFee at h
  split_ifs at h with hfree
  · refine .inl ⟨(pure_eq_ok.mp h).symm, ?_⟩
    unfold FeeStore.feeFor
    split
    · rw [if_pos hfree]
    · rfl
  · obtain ⟨token, htoken, hne, rfl⟩ := collectFee_eq_ok h
    refine .inr ⟨token, s.queryFee.getD 0, not_le.mp hfree, htoken, hne, ?_, rfl⟩
    simp only [FeeStore.feeFor, htoken, if_neg hfree]

theorem FeeStore.charged_vaultOf {payer provider : Address} {fee : ℤ} (token other : Address) :
    (s.charged here token payer provider fee).vaultOf other =
      s.vaultOf other + if other = token then fee else 0 := by
  simp only [FeeStore.vaultOf, FeeStore.charged, Store.lookup_insert_ite]
  split_ifs with hother
  · rw [hother]
    rfl
  · rw [add_zero]

theorem FeeStore.charged_rewardOf {payer token : Address} {fee : ℤ} (provider other : Address) :
    (s.charged here token payer provider fee).rewardOf other =
      s.rewardOf other + if other = provider then fee else 0 := by
  simp only [FeeStore.rewardOf, FeeStore.charged, Store.lookup_insert_ite]
  split_ifs with hother
  · rw [hother]
    rfl
  · rw [add_zero]

theorem FeeStore.claimed_vaultOf (token validator other : Address) :
    (s.claimed here token validator).vaultOf other =
      s.vaultOf other - if other = token then s.rewardOf validator else 0 := by
  simp only [FeeStore.vaultOf, FeeStore.claimed, Store.lookup_insert_ite]
  split_ifs with hother
  · rw [hother]
    rfl
  · rw [sub_zero]

theorem FeeStore.claimed_rewardOf (token validator provider : Address) :
    (s.claimed here token validator).rewardOf provider =
      if provider = validator then 0 else s.rewardOf provider := by
  simp only [FeeStore.rewardOf, FeeStore.claimed, Store.lookup_erase_ite]
  split_ifs <;> rfl

end Specs

/-! ## Calls one at a time -/

/-- The books are right, fees are positive, and they are collected in a token. -/
structure Sound (here : Address) (h : FeeHistory) : Prop extends Booked here h where
  fees_pos : ∀ fee ∈ h.unclaimed, 0 < fee.amount
  token_set : h.store.feeToken = none → h.unclaimed = []

section Steps

variable {here : Address} {h h' : FeeHistory} {s : FeeStore} {validator provider token : Address}

theorem Sound.deployed {tokens : Tokens} (hstart : ∀ token, 0 ≤ tokens token here) :
    Sound here (.deployed tokens) where
  vault_eq _ := rfl
  vault_le := hstart
  reward_eq _ := rfl
  fees_pos _ hmem := absurd hmem List.not_mem_nil
  token_set _ := rfl

/-- A fee that was collected, in the books. -/
theorem Sound.collect (hs : Sound here h) {payer : Address} {fee : ℤ} (hpos : 0 < fee)
    (htoken : h.store.feeToken = some token) (hne : payer ≠ here) :
    Sound here { h with
      store := h.store.charged here token payer provider fee
      collected := ⟨provider, token, fee⟩ :: h.collected
      unclaimed := ⟨provider, token, fee⟩ :: h.unclaimed } := by
  refine ⟨⟨fun other => ?_, fun other => ?_, fun other => ?_⟩, ?_, fun hnone => ?_⟩
  · have hbefore := hs.vault_eq other
    simp only [FeeStore.charged_vaultOf, amountWhere_cons, hbefore, eq_comm (a := token)]
    omega
  · have hbefore := hs.vault_le other
    dsimp only
    rw [FeeStore.charged_vaultOf]
    dsimp only [FeeStore.charged]
    rw [Tokens.move_apply_dst _ _ _ hne.symm]
    omega
  · have hbefore := hs.reward_eq other
    simp only [FeeStore.charged_rewardOf, amountWhere_cons, hbefore, eq_comm (a := provider)]
    omega
  · exact List.forall_mem_cons.mpr ⟨hpos, hs.fees_pos⟩
  · exact absurd (htoken.symm.trans hnone) (Option.some_ne_none token)

theorem Backed.collect (hb : Backed h) {payer : Address} {fee : ℤ} :
    Backed { h with
      store := h.store.charged here token payer provider fee
      collected := ⟨provider, token, fee⟩ :: h.collected
      unclaimed := ⟨provider, token, fee⟩ :: h.unclaimed } := by
  intro other
  simp only [FeeStore.charged_vaultOf, amountWhere_cons, hb other, eq_comm (a := token)]
  omega

/-- A claim in the books. -/
theorem Sound.claim (hs : Sound here h) (htoken : h.store.feeToken = some token)
    (hne : validator ≠ here) :
    Sound here { h with
      store := h.store.claimed here token validator
      unclaimed := h.unclaimed.filter fun fee => fee.provider ≠ validator
      paid := (token, h.store.rewardOf validator) :: h.paid } := by
  refine ⟨⟨fun other => ?_, fun other => ?_, fun other => ?_⟩, fun fee hmem => ?_, fun hnone => ?_⟩
  · have hbefore := hs.vault_eq other
    simp only [FeeStore.claimed_vaultOf, paidIn, List.map_cons, List.sum_cons, hbefore,
      eq_comm (a := token)]
    omega
  · have hbefore := hs.vault_le other
    dsimp only
    rw [FeeStore.claimed_vaultOf]
    dsimp only [FeeStore.claimed]
    rw [Tokens.move_apply_src _ _ _ hne.symm]
    omega
  · rw [FeeStore.claimed_rewardOf, amountWhere_filter, ← hs.reward_eq other]
    split_ifs with hother
    · subst hother
      simp only [and_self, ← hs.reward_eq, sub_self]
    · rw [amountWhere_eq_zero (p := fun fee => fee.provider = validator ∧ fee.provider = other),
        sub_zero]
      rintro fee _ ⟨hvalidator, hfee⟩
      exact hother (hfee.symm.trans hvalidator)
  · exact hs.fees_pos fee (List.mem_of_mem_filter hmem)
  · exact absurd (htoken.symm.trans hnone) (Option.some_ne_none token)

/-- All rewards of a validator were collected in the token. -/
theorem Sound.reward_eq_of_token (hs : Sound here h)
    (hall : ∀ fee ∈ h.unclaimed, fee.provider = validator → fee.token = token) (other : Address) :
    amountWhere (fun fee => fee.provider = validator ∧ fee.token = other) h.unclaimed =
      if other = token then h.store.rewardOf validator else 0 := by
  split_ifs with hother
  · rw [hs.reward_eq]
    refine amountWhere_congr fun fee hmem => ⟨fun hfee => hfee.1, fun hfee => ⟨hfee, ?_⟩⟩
    rw [hall fee hmem hfee, hother]
  · refine amountWhere_eq_zero fun fee hmem hfee => hother ?_
    rw [← hfee.2, hall fee hmem hfee.1]

/-- A validator with fees in another token than the one of the moment would be paid too much in
it. -/
theorem Sound.reward_lt (hs : Sound here h) {fee : Fee} (hmem : fee ∈ h.unclaimed)
    (hfee : fee.provider = validator) (hother : fee.token ≠ token) :
    amountWhere (fun fee => fee.provider = validator ∧ fee.token = token) h.unclaimed <
      h.store.rewardOf validator := by
  rw [hs.reward_eq]
  exact amountWhere_lt hs.fees_pos (fun _ hp => hp.1) hmem (fun hp => hother hp.2) hfee

end Steps

/-! ## Runs -/

section Runs

variable {here : Address} {h h' : FeeHistory} {i : FeeStep here}

theorem feeStep_claim_eq_ok {env : Env here} {validator : Address}
    (hok : feeStep (env, .claimRewards validator) h = .ok h') :
    ∃ token, validator ≠ here ∧ h.store.feeToken = some token ∧
      h.store.rewardOf validator ≤ h.store.vaultOf token ∧ h' = { h with
        store := h.store.claimed here token validator
        unclaimed := h.unclaimed.filter fun fee => fee.provider ≠ validator
        paid := (token, h.store.rewardOf validator) :: h.paid } := by
  obtain ⟨⟨amount, store⟩, hcall, hok⟩ := bind_eq_ok.mp hok
  obtain rfl := pure_eq_ok.mp hok
  obtain ⟨token, hne, htoken, hvault, rfl, rfl⟩ := claimRewards_eq_ok hcall
  refine ⟨token, hne, htoken, hvault, ?_⟩
  rw [htoken]
  rfl

theorem feeStep_claim_eq_error {env : Env here} {validator : Address} {e : OracleFault}
    (hok : feeStep (env, .claimRewards validator) h = .error e) :
    claimRewards env validator h.store = .error e := by
  obtain hcall | ⟨_, _, hpure⟩ := bind_eq_error.mp hok
  · exact hcall
  · cases hpure

/-- Reading a price and changing the settings keep the books, and what backs the rewards. -/
theorem feeStep_books (hs : Sound here h) (hok : feeStep i h = .ok h') :
    Sound here h' ∧ ((∀ validator, i.2 ≠ .claimRewards validator) → Backed h → Backed h') := by
  obtain ⟨env, call⟩ := i
  cases call with
  | setFeeToken admin token =>
    obtain ⟨store, hcall, hok⟩ := bind_eq_ok.mp hok
    obtain rfl := pure_eq_ok.mp hok
    obtain rfl := setFeeToken_eq_ok hcall
    refine ⟨⟨⟨hs.vault_eq, hs.vault_le, hs.reward_eq⟩, hs.fees_pos, fun hnone => ?_⟩,
      fun _ hb => hb⟩
    exact absurd hnone (Option.some_ne_none token)
  | setQueryFee admin fee =>
    obtain ⟨store, hcall, hok⟩ := bind_eq_ok.mp hok
    obtain rfl := pure_eq_ok.mp hok
    obtain rfl := setQueryFee_eq_ok hcall
    exact ⟨⟨⟨hs.vault_eq, hs.vault_le, hs.reward_eq⟩, hs.fees_pos, hs.token_set⟩, fun _ hb => hb⟩
  | getPrice payer asset verified =>
    obtain ⟨⟨priceData, store⟩, hcall, hok⟩ := bind_eq_ok.mp hok
    obtain rfl := pure_eq_ok.mp hok
    obtain ⟨rfl, hfree⟩ | ⟨token, fee, hpos, htoken, hne, hfee, rfl⟩ :=
      processQueryFee_eq_ok (getPrice_eq_ok hcall)
    · rw [hfree]
      exact ⟨hs, fun _ hb => hb⟩
    · rw [hfee]
      exact ⟨hs.collect hpos htoken hne, fun _ hb => hb.collect⟩
  | claimRewards validator =>
    obtain ⟨token, hne, htoken, _, rfl⟩ := feeStep_claim_eq_ok hok
    exact ⟨hs.claim htoken hne, fun hn _ => absurd rfl (hn validator)⟩
  | other rates =>
    obtain rfl := pure_eq_ok.mp hok
    exact ⟨⟨⟨hs.vault_eq, hs.vault_le, hs.reward_eq⟩, hs.fees_pos, hs.token_set⟩, fun _ hb => hb⟩

/-- The validator gets each fee in its token exactly when the token of the moment is the token of
all its fees. -/
theorem claim_timely_iff {env : Env here} {validator : Address} (hs : Sound here h)
    (hb : Backed h) :
    Backed (commit feeStep h (env, .claimRewards validator)) ∧
        PaysEachFee h (env, .claimRewards validator) validator ↔
      (feeStep (env, .claimRewards validator) h ≠ .error .trap →
        ∀ fee ∈ h.unclaimed, fee.provider = validator → h.store.feeToken = some fee.token) := by
  constructor
  · rintro ⟨_, hpays⟩ hnot fee hmem hfee
    cases htoken : h.store.feeToken with
    | none => exact absurd (hs.token_set htoken ▸ hmem) List.not_mem_nil
    | some token =>
      by_contra hne
      have hlt := hs.reward_lt hmem hfee fun heq : fee.token = token => hne (congrArg some heq.symm)
      cases hok : feeStep (env, .claimRewards validator) h with
      | error e =>
        obtain rfl | ⟨_, hle⟩ | ⟨_, hnone⟩ | ⟨_, rfl, _⟩ :=
          claimRewards_eq_error (feeStep_claim_eq_error hok)
        · exact hnot hok
        · exact absurd (hlt.trans_le hle) (not_lt.mpr (amountWhere_nonneg hs.fees_pos))
        · exact absurd (htoken.symm.trans hnone) (Option.some_ne_none token)
        · exact hpays.funded hok
      | ok h' =>
        have hpaid := hpays.paid h' hok token
        obtain ⟨token', hhere, htoken', _, rfl⟩ := feeStep_claim_eq_ok hok
        obtain rfl : token = token' := Option.some.inj (htoken.symm.trans htoken')
        dsimp only [FeeStore.claimed] at hpaid
        rw [Tokens.move_apply_dst _ _ _ hhere, if_pos rfl] at hpaid
        omega
  · intro htimely
    cases hok : feeStep (env, .claimRewards validator) h with
    | error e =>
      rw [commit_of_error hok]
      refine ⟨hb, ?_, fun h' hok' => by cases hok.symm.trans hok'⟩
      intro hfunded
      obtain ⟨token, _, htoken, hlt⟩ : ∃ token, e = .error .insufficientVaultBalance ∧
          h.store.feeToken = some token ∧ h.store.vaultOf token < h.store.rewardOf validator := by
        obtain rfl := Except.error.inj (hok.symm.trans hfunded)
        obtain he | ⟨he, _⟩ | ⟨he, _⟩ | hcover :=
          claimRewards_eq_error (feeStep_claim_eq_error hok)
        · cases he
        · cases he
        · cases he
        · exact hcover
      have hall (fee : Fee) (hmem : fee ∈ h.unclaimed) (hfee : fee.provider = validator) :
          fee.token = token := by
        have hnot : feeStep (env, .claimRewards validator) h ≠ .error .trap := by
          rw [hfunded]
          simp
        exact (Option.some.inj (htoken.symm.trans (htimely hnot fee hmem hfee))).symm
      have hmine := hs.reward_eq_of_token hall token
      rw [if_pos rfl] at hmine
      have hle := amountWhere_le (q := fun fee => fee.token = token) hs.fees_pos
        fun fee (hfee : fee.provider = validator ∧ fee.token = token) => hfee.2
      rw [hmine, ← hb token] at hle
      exact absurd hle (not_le.mpr hlt)
    | ok h' =>
      rw [commit_of_ok hok]
      obtain ⟨token, hhere, htoken, _, rfl⟩ := feeStep_claim_eq_ok hok
      have hall (fee : Fee) (hmem : fee ∈ h.unclaimed) (hfee : fee.provider = validator) :
          fee.token = token := by
        have hnot : feeStep (env, .claimRewards validator) h ≠ .error .trap := by
          rw [hok]
          simp
        exact (Option.some.inj (htoken.symm.trans (htimely hnot fee hmem hfee))).symm
      refine ⟨fun other => ?_, ?_, fun h' hok' other => ?_⟩
      · rw [FeeStore.claimed_vaultOf, amountWhere_filter, hs.reward_eq_of_token hall, hb other]
      · rw [hok]
        simp
      · obtain rfl := Except.ok.inj (hok.symm.trans hok')
        dsimp only [FeeStore.claimed]
        rw [Tokens.move_apply_dst _ _ _ hhere, hs.reward_eq_of_token hall]

/-- In every run the vault of a token is what was collected and not paid out, the contract holds
it, and rewards are the fees not claimed. The vault backs the fees of its token, and claims are
paid fee by fee, if and only if claims come while the token is the one of all the fees. -/
theorem queryFees_backed_iff {tokens : Tokens} (hstart : ∀ token, 0 ≤ tokens token here)
    (run : List (FeeStep here)) :
    Throughout feeStep (Booked here) (.deployed tokens) run ∧
      (Throughout feeStep Backed (.deployed tokens) run ∧
          Along feeStep ClaimsPaid (.deployed tokens) run ↔
        Along feeStep ClaimsTimely (.deployed tokens) run) := by
  have hfresh : Sound here (.deployed tokens) := Sound.deployed hstart
  refine ⟨throughout_of_invariant (fun h i h' hs hok => (feeStep_books hs hok).1)
    (fun h hs => hs.toBooked) hfresh run, ?_⟩
  refine throughout_and_along_iff (I := Sound here)
    (fun h i hs => commit_induction hs fun h' hok => (feeStep_books hs hok).1)
    (fun h i hs hb => ?_) hfresh (fun _ => rfl) run
  obtain ⟨env, call⟩ := i
  by_cases hclaim : ∃ validator, call = .claimRewards validator
  · obtain ⟨validator, rfl⟩ := hclaim
    have hpays : ClaimsPaid h (env, .claimRewards validator) ↔
        PaysEachFee h (env, .claimRewards validator) validator := by
      refine ⟨fun hpaid => hpaid validator rfl, fun hpaid other he => ?_⟩
      obtain rfl := FeeCall.claimRewards.inj he
      exact hpaid
    rw [hpays, claim_timely_iff hs hb]
    refine ⟨fun htimely other he => ?_, fun htimely => htimely validator rfl⟩
    obtain rfl := FeeCall.claimRewards.inj he
    exact htimely
  · have hother (validator : Address) : call ≠ .claimRewards validator :=
      fun he => hclaim ⟨validator, he⟩
    refine iff_of_true ⟨?_, fun validator he => absurd he (hother validator)⟩
      fun validator he => absurd he (hother validator)
    exact commit_induction hb fun h' hok => (feeStep_books hs hok).2 hother hb

end Runs

/-- A contract with admin 1 and a price of asset 7 from each of the providers 5 and 6. -/
def sampleRates : Rates :=
  { Rates.deployed with
    settings := { OracleSettings.deployed with initialized := true, admins := some [⟨1⟩] }
    verifiedPrices := Finmap.insert ⟨7⟩ ⟨100, 0, 1, ⟨5⟩, 9, 100, 60⟩ ∅
    communityPrices := Finmap.insert ⟨7⟩ ⟨100, 0, 1, ⟨6⟩, 9, 100, 60⟩ ∅ }

def feeCall (call : FeeCall) : FeeStep ⟨0⟩ := (.standard _ 0 none, call)

/-- Everybody but the contract starts with a thousand of each token. -/
def feeTokensStart : Tokens := fun _ holder => if holder = ⟨0⟩ then 0 else 1000

/-- Each provider earns a fee, in different tokens, and the first one claims in the token of the
second. -/
def switchedTokenRun : List (FeeStep ⟨0⟩) :=
  [feeCall (.other sampleRates), feeCall (.setQueryFee ⟨1⟩ (units 10)),
    feeCall (.setFeeToken ⟨1⟩ ⟨8⟩), feeCall (.getPrice ⟨2⟩ ⟨7⟩ true),
    feeCall (.setFeeToken ⟨1⟩ ⟨9⟩), feeCall (.getPrice ⟨2⟩ ⟨7⟩ false),
    feeCall (.claimRewards ⟨5⟩)]

/-- The fee of the second provider is gone, and its claim fails. -/
theorem switchedTokenRun_unbacked :
    let h := runAll feeStep (.deployed feeTokensStart) switchedTokenRun
    h.store.tokens ⟨9⟩ ⟨5⟩ = 1010 ∧ h.store.rewardOf ⟨6⟩ = 10 ∧
      (feeStep (feeCall (.claimRewards ⟨6⟩)) h).toOption.isNone = true ∧
      ¬ Throughout feeStep Backed (.deployed feeTokensStart) switchedTokenRun := by
  intro h
  have hstate : h.store.tokens ⟨9⟩ ⟨5⟩ = 1010 ∧ h.store.rewardOf ⟨6⟩ = 10 ∧
      (feeStep (feeCall (.claimRewards ⟨6⟩)) h).toOption.isNone = true ∧
      h.store.vaultOf ⟨9⟩ ≠ amountWhere (fun fee => fee.token = ⟨9⟩) h.unclaimed := by
    decide +kernel
  exact ⟨hstate.1, hstate.2.1, hstate.2.2.1, fun ht => hstate.2.2.2 (ht.last ⟨9⟩)⟩

/-- The same providers claim before the token is changed. -/
def settledRun : List (FeeStep ⟨0⟩) :=
  [feeCall (.other sampleRates), feeCall (.setQueryFee ⟨1⟩ (units 10)),
    feeCall (.setFeeToken ⟨1⟩ ⟨8⟩), feeCall (.getPrice ⟨2⟩ ⟨7⟩ true),
    feeCall (.claimRewards ⟨5⟩), feeCall (.setFeeToken ⟨1⟩ ⟨9⟩)]

theorem settledRun_backed :
    Throughout feeStep Backed (.deployed feeTokensStart) settledRun := by
  refine ((queryFees_backed_iff (fun _ => le_rfl) settledRun).2.mpr
    ⟨?_, ?_, ?_, ?_, ?_, ?_, trivial⟩).1
  case refine_5 =>
    rintro validator he _ fee hmem _
    have hall : ∀ fee ∈ (runAll feeStep (.deployed feeTokensStart)
        (settledRun.take 4)).unclaimed, some fee.token =
          (runAll feeStep (.deployed feeTokensStart) (settledRun.take 4)).store.feeToken := by
      decide +kernel
    exact (hall fee hmem).symm
  all_goals
    intro validator he
    cases he

end StellarFlow.QueryFees
