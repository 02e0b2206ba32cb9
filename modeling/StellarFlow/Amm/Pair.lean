import StellarFlow.Amm.VirtualReserves

/-!
# The pair contract

A pair of tokens with virtual reserves, an LP token and an optional volatility fee. The
reserves are booked in storage and the tokens are held at the address of the contract. A
trader pays the whole input to the contract, while the quote and the booked reserve use
the input net of the fee.
-/
namespace StellarFlow.Amm.Pair

open Foundation

inductive AmmError
  | alreadyInitialized
  | notInitialized
  | invalidDepositRatio
  | slippageExceeded
  | zeroDeposit
  | poolEmpty
  | invariantViolation
  | virtualFloorBreached
  | nonPositiveAmount
  | arithmeticOverflow
  deriving DecidableEq, Repr

def mapVirtual : VirtualReserveError → AmmError
  | .virtualFloorBreached => .virtualFloorBreached
  | .slippageExceeded => .slippageExceeded
  | .invariantViolation => .invariantViolation
  | .overflow => .arithmeticOverflow
  | .negativeReserve => .nonPositiveAmount
  | .nonPositiveAmount => .nonPositiveAmount

abbrev PairFault := Abort AmmError

def onVirtual {α : Type} (x : Except VirtualReserveError α) : Except PairFault α :=
  x.mapError fun e => .error (mapVirtual e)

/-! ## State -/

structure AdaptiveFeeConfig where
  fBase : ℕ
  fScalar : ℕ
  deriving DecidableEq, Repr

structure AppliedFeeSnapshot where
  fSwap : ℕ
  vSigma : ℕ
  ledgerSequence : ℕ
  deriving DecidableEq, Repr

/-- The keys written by the initialisation, all of them at once. -/
structure TokenPair where
  tokenA : Address
  tokenB : Address
  lpToken : Address
  reserveA : ℤ
  reserveB : ℤ
  totalShares : ℤ
  virtualA : ℤ
  virtualB : ℤ
  deriving DecidableEq, Repr

/-- Storage of the contract and the balances of all tokens. -/
structure PairState where
  pair : Option TokenPair
  feeCfg : Option AdaptiveFeeConfig
  vSigma : Option ℕ
  oracle : Option Address
  feedSym : Option Symbol
  feeSnap : Option AppliedFeeSnapshot
  tokens : Tokens

def PairState.fresh (tokens : Tokens) : PairState := ⟨none, none, none, none, none, none, tokens⟩

/-- What a call sees besides the storage. -/
structure PairEnv (here : Address) extends Env here where
  /-- What an oracle reports for a feed, unless the call fails. -/
  volatility : Address → Symbol → Option ℕ
  /-- Whether a token contract accepts a mint to, or a burn by, the holder. -/
  mints : Tokens → Address → Address → ℤ → Bool
  burns : Tokens → Address → Address → ℤ → Bool

section Calls

variable {here : Address} (env : PairEnv here)

def mint (token holder : Address) (amount : ℤ) (t : Tokens) : Except PairFault Tokens := do
  failIf (¬ env.mints t token holder amount) .trap
  pure (t.credit token holder amount)

def burn (token holder : Address) (amount : ℤ) (t : Tokens) : Except PairFault Tokens := do
  failIf (¬ env.burns t token holder amount) .trap
  pure (t.credit token holder (-amount))

def initializeWithVirtualReserves (tokenA tokenB lpToken : Address) (virtualA virtualB : ℤ)
    (s : PairState) : Except PairFault PairState := do
  failIf (s.pair.isSome = true) (.error .alreadyInitialized)
  onVirtual (validateVirtualReserves 0 0 virtualA virtualB)
  pure { s with pair := some ⟨tokenA, tokenB, lpToken, 0, 0, 0, virtualA, virtualB⟩ }

/-! ## Adaptive fee -/

def maxDynamicFeeBps : ℕ := 100
def bpsDenominator : ℤ := 10000

def setAdaptiveFeeConfig (fBase fScalar : ℕ) (oracle : Option Address)
    (assetSymbol : Option Symbol) (s : PairState) : Except PairFault PairState := do
  failIf (s.pair.isSome = false) (.error .notInitialized)
  failIf (maxDynamicFeeBps < fBase) (.error .arithmeticOverflow)
  pure { s with
    feeCfg := some ⟨fBase, fScalar⟩
    oracle := oracle <|> s.oracle
    feedSym := assetSymbol <|> s.feedSym }

def setVolatilityScalar (vSigma : ℕ) (s : PairState) : Except PairFault PairState :=
  pure { s with vSigma := some vSigma }

def computeDynamicFee (fBase vSigma fScalar : ℕ) : Except AmmError ℕ := do
  failIf (maxDynamicFeeBps < fBase) .arithmeticOverflow
  let dynamicComponent ← okOr (checkBits 64 (vSigma * fScalar)) .arithmeticOverflow
  let totalFee ← okOr (checkBits 64 (fBase + dynamicComponent)) .arithmeticOverflow
  pure (min totalFee maxDynamicFeeBps)

/-- The override in storage, or else the answer of the oracle, if there is one. -/
def volatilityScalar (s : PairState) : Except PairFault ℕ :=
  match s.vSigma, s.oracle, s.feedSym with
  | some vSigma, _, _ => .ok vSigma
  | none, some oracle, some sym => okOr (env.volatility oracle sym) .trap
  | none, _, _ => .ok 0

def getDynamicSwapFee (s : PairState) : Except PairFault ℕ :=
  match s.feeCfg with
  | some config => do
    let vSigma ← volatilityScalar env s
    match computeDynamicFee config.fBase vSigma config.fScalar with
    | .ok fee => pure fee
    | .error _ => pure config.fBase
  | none => .ok 0

/-- The input net of the fee, and the fee. -/
def applyFeeToAmountIn (amountIn : ℤ) (fSwapBps : ℕ) : Except AmmError (ℤ × ℤ) := do
  failIf (amountIn ≤ 0) .nonPositiveAmount
  let product ← okOr (i128.check (amountIn * fSwapBps)) .arithmeticOverflow
  let feeAmount ← okOr (i128.checkedDiv product bpsDenominator) .arithmeticOverflow
  let netAmountIn ← okOr (i128.check (amountIn - feeAmount)) .arithmeticOverflow
  pure (netAmountIn, feeAmount)

/-- The fee a swap takes, with the snapshot it stores. -/
def chargeFee (amountIn : ℤ) (s : PairState) :
    Except PairFault (ℤ × Option AppliedFeeSnapshot) :=
  match s.feeCfg with
  | some config => do
    let vSigma ← volatilityScalar env s
    let fSwap ← (computeDynamicFee config.fBase vSigma config.fScalar).mapError .error
    let (netIn, _) ← (applyFeeToAmountIn amountIn fSwap).mapError .error
    pure (netIn, some ⟨fSwap, vSigma, env.sequence⟩)
  | none => .ok (amountIn, s.feeSnap)

/-! ## Liquidity and swaps -/

/-- Amounts taken for a deposit and shares minted for it. The ratio is that of the effective
balances, the shares are proportional to the real reserves. -/
def depositAmounts (p : TokenPair) (amountADesired amountBDesired minLpMint : ℤ) :
    Except PairFault (ℤ × ℤ × ℤ) :=
  if p.totalShares = 0 then do
    let initialShares ←
      onVirtual (initialLpShares amountADesired amountBDesired p.virtualA p.virtualB)
    failIf (initialShares < minLpMint) (.error .slippageExceeded)
    pure (amountADesired, amountBDesired, initialShares)
  else do
    let effective ←
      onVirtual (EffectiveReserves.new p.reserveA p.reserveB p.virtualA p.virtualB)
    let forB ← arith (amountADesired * effective.yEff)
    let requiredB ← divide forB effective.xEff
    failIf (amountBDesired < requiredB) (.error .invalidDepositRatio)
    let forA ← arith (amountBDesired * effective.xEff)
    let optimalA ← divide forA effective.yEff
    let (optA, optB) := if optimalA ≤ amountADesired then (optimalA, amountBDesired)
      else (amountADesired, requiredB)
    let partA ← arith (optA * p.totalShares)
    let sharesA ← divide partA p.reserveA
    let partB ← arith (optB * p.totalShares)
    let sharesB ← divide partB p.reserveB
    failIf (min sharesA sharesB < minLpMint) (.error .slippageExceeded)
    pure (optA, optB, min sharesA sharesB)

def deposit (provider : Address) (amountADesired amountBDesired minLpMint : ℤ) (s : PairState) :
    Except PairFault (ℤ × PairState) := do
  hostCall (env.requireAuth provider)
  failIf (amountADesired ≤ 0 ∨ amountBDesired ≤ 0) (.error .zeroDeposit)
  let p ← okOr s.pair (.error .notInitialized)
  let (depositA, depositB, mintedShares) ←
    depositAmounts p amountADesired amountBDesired minLpMint
  let t ← hostCall (env.transfer p.tokenA provider here depositA s.tokens)
  let t ← hostCall (env.transfer p.tokenB provider here depositB t)
  let t ← mint env p.lpToken provider mintedShares t
  let reserveA ← arith (p.reserveA + depositA)
  let reserveB ← arith (p.reserveB + depositB)
  let totalShares ← arith (p.totalShares + mintedShares)
  pure (mintedShares, { s with
    pair := some { p with reserveA, reserveB, totalShares }
    tokens := t })

def swap (trader : Address) (amountIn minAmountOut : ℤ) (s : PairState) :
    Except PairFault (ℤ × PairState) := do
  hostCall (env.requireAuth trader)
  failIf (amountIn ≤ 0) (.error .zeroDeposit)
  let p ← okOr s.pair (.error .notInitialized)
  failIf (p.reserveA ≤ 0 ∨ p.reserveB ≤ 0) (.error .poolEmpty)
  let before ← onVirtual (EffectiveReserves.new p.reserveA p.reserveB p.virtualA p.virtualB)
  let (effectiveAmountIn, feeSnap) ← chargeFee env amountIn s
  let (after, amountOut, kBefore) ← onVirtual (before.swapAToB effectiveAmountIn)
  failIf (amountOut ≤ 0) (.error .slippageExceeded)
  onVirtual (assertMinAmountOut amountOut minAmountOut)
  onVirtual (assertKEffNotDecreased kBefore after.kEff)
  let t ← hostCall (env.transfer p.tokenA trader here amountIn s.tokens)
  let t ← hostCall (env.transfer p.tokenB here trader amountOut t)
  pure (amountOut, { s with
    pair := some { p with reserveA := after.x, reserveB := after.y }
    feeSnap := feeSnap
    tokens := t })

def removeLiquidity (provider : Address) (shares minAmountA minAmountB : ℤ) (s : PairState) :
    Except PairFault ((ℤ × ℤ) × PairState) := do
  hostCall (env.requireAuth provider)
  failIf (shares ≤ 0) (.error .nonPositiveAmount)
  let p ← okOr s.pair (.error .notInitialized)
  failIf (p.totalShares ≤ 0 ∨ p.totalShares < shares) (.error .invalidDepositRatio)
  let reserves ← onVirtual (EffectiveReserves.new p.reserveA p.reserveB p.virtualA p.virtualB)
  let partA ← arith (shares * p.reserveA)
  let amountA ← divide partA p.totalShares
  let partB ← arith (shares * p.reserveB)
  let amountB ← divide partB p.totalShares
  failIf (amountA ≤ 0 ∨ amountB ≤ 0) (.error .nonPositiveAmount)
  onVirtual (assertWithdrawalAllowedBothSides reserves amountA amountB)
  failIf (amountA < minAmountA ∨ amountB < minAmountB) (.error .slippageExceeded)
  let t ← burn env p.lpToken provider shares s.tokens
  let t ← hostCall (env.transfer p.tokenA here provider amountA t)
  let t ← hostCall (env.transfer p.tokenB here provider amountB t)
  let reserveA ← arith (p.reserveA - amountA)
  let reserveB ← arith (p.reserveB - amountB)
  let totalShares ← arith (p.totalShares - shares)
  pure ((amountA, amountB), { s with
    pair := some { p with reserveA, reserveB, totalShares }, tokens := t })

end Calls

inductive PairCall
  | initializeWithVirtualReserves (tokenA tokenB lpToken : Address) (virtualA virtualB : i128.Value)
  | setAdaptiveFeeConfig (fBase fScalar : ℕ) (oracle : Option Address)
      (assetSymbol : Option Symbol)
  | setVolatilityScalar (vSigma : ℕ)
  | deposit (provider : Address) (amountADesired amountBDesired minLpMint : i128.Value)
  | swap (trader : Address) (amountIn minAmountOut : i128.Value)
  | removeLiquidity (provider : Address) (shares minAmountA minAmountB : i128.Value)

/-- A call together with the environment it runs in. -/
abbrev PairStep (here : Address) := PairEnv here × PairCall

def pairStep {here : Address} (i : PairStep here) (s : PairState) : Except PairFault PairState :=
  match i.2 with
  | .initializeWithVirtualReserves tokenA tokenB lpToken virtualA virtualB =>
    initializeWithVirtualReserves tokenA tokenB lpToken virtualA.1 virtualB.1 s
  | .setAdaptiveFeeConfig fBase fScalar oracle assetSymbol =>
    setAdaptiveFeeConfig fBase fScalar oracle assetSymbol s
  | .setVolatilityScalar vSigma => setVolatilityScalar vSigma s
  | .deposit provider amountADesired amountBDesired minLpMint =>
    Prod.snd <$> deposit i.1 provider amountADesired.1 amountBDesired.1 minLpMint.1 s
  | .swap trader amountIn minAmountOut =>
    Prod.snd <$> swap i.1 trader amountIn.1 minAmountOut.1 s
  | .removeLiquidity provider shares minAmountA minAmountB =>
    Prod.snd <$> removeLiquidity i.1 provider shares.1 minAmountA.1 minAmountB.1 s

/-! ## What an accepted call does -/

/-- Holds of the pair in every reachable state. -/
structure TokenPair.Sound (p : TokenPair) : Prop where
  reserveA_nonneg : 0 ≤ p.reserveA
  reserveB_nonneg : 0 ≤ p.reserveB
  shares_nonneg : 0 ≤ p.totalShares
  virtualA_pos : 0 < p.virtualA
  virtualB_pos : 0 < p.virtualB
  empty_of_no_shares : p.totalShares = 0 → p.reserveA = 0 ∧ p.reserveB = 0

section Accepted

variable {here : Address} {env : PairEnv here} {s s' : PairState} {p : TokenPair}
  {provider trader : Address} {a b m da db minted x : ℤ}

@[simp] theorem onVirtual_eq_ok {α : Type} {x : Except VirtualReserveError α} {y : α} :
    onVirtual x = .ok y ↔ x = .ok y := by
  simp [onVirtual]

@[simp] theorem mint_eq_ok {token holder : Address} {t t' : Tokens} :
    mint env token holder x t = .ok t' ↔
      env.mints t token holder x = true ∧ t' = t.credit token holder x := by
  simp only [mint, bind_eq_ok, failIf_eq_ok, pure_eq_ok, not_not, exists_const]
  exact and_congr_right fun _ => eq_comm

@[simp] theorem burn_eq_ok {token holder : Address} {t t' : Tokens} :
    burn env token holder x t = .ok t' ↔
      env.burns t token holder x = true ∧ t' = t.credit token holder (-x) := by
  simp only [burn, bind_eq_ok, failIf_eq_ok, pure_eq_ok, not_not, exists_const]
  exact and_congr_right fun _ => eq_comm

/-- The first deposit takes what is offered on both sides. -/
theorem depositAmounts_first (hp : p.Sound) (h : depositAmounts p a b m = .ok (da, db, minted))
    (h0 : p.totalShares = 0) : 0 < da ∧ 0 < db ∧ 0 < minted := by
  simp only [depositAmounts, h0, if_true, initialLpShares, bind_eq_ok, onVirtual_eq_ok,
    failIf_eq_ok, okOr_eq_ok, IntRange.check_eq_some, pure_eq_ok, Prod.mk.injEq, not_or,
    not_le] at h
  obtain ⟨_, ⟨_, ⟨ha, hb⟩, _, ⟨_, rfl⟩, _, ⟨_, rfl⟩, rfl⟩, _, _, rfl, rfl, rfl⟩ := h
  have hva := hp.virtualA_pos
  have hvb := hp.virtualB_pos
  exact ⟨ha, hb, lt_min (by omega) (by omega)⟩

/-- A later deposit divides by both reserves and takes the whole offer of one side. -/
theorem depositAmounts_later (hp : p.Sound) (ha : 0 < a) (hb : 0 < b)
    (h : depositAmounts p a b m = .ok (da, db, minted)) (h0 : p.totalShares ≠ 0) :
    p.reserveA ≠ 0 ∧ p.reserveB ≠ 0 ∧ 0 ≤ da ∧ 0 ≤ db ∧ 0 < da + db ∧ 0 ≤ minted := by
  simp only [depositAmounts, h0, if_false, bind_eq_ok, onVirtual_eq_ok, failIf_eq_ok,
    arith_eq_ok, pure_eq_ok, Prod.mk.injEq] at h
  obtain ⟨e, he, _, ⟨_, rfl⟩, requiredB, hreq, _, _, _, ⟨_, rfl⟩, optimalA, hopt, _, ⟨_, rfl⟩,
    sharesA, hA, _, ⟨_, rfl⟩, sharesB, hB, _, _, hda, hdb, rfl⟩ := h
  obtain ⟨hx, hy, hvx, hvy, _, _, heq⟩ := EffectiveReserves.new_eq_ok he
  have hxe : 0 ≤ e.xEff := by rw [heq]; exact add_nonneg hx hvx.le
  have hye : 0 ≤ e.yEff := by rw [heq]; exact add_nonneg hy hvy.le
  have hT := hp.shares_nonneg
  have hreq0 := divide_nonneg (mul_nonneg ha.le hye) hxe hreq
  have hopt0 := divide_nonneg (mul_nonneg hb.le hxe) hye hopt
  rw [hda] at hA
  rw [hdb] at hB
  have hamounts : 0 ≤ da ∧ 0 ≤ db ∧ 0 < da + db := by
    split_ifs at hda hdb <;> omega
  obtain ⟨hda0, hdb0, hsum⟩ := hamounts
  have hA0 := mul_nonneg hda0 hT
  have hB0 := mul_nonneg hdb0 hT
  exact ⟨(divide_eq_ok hA0 hA).1, (divide_eq_ok hB0 hB).1, hda0, hdb0, hsum,
    le_min (divide_nonneg hA0 hx hA) (divide_nonneg hB0 hy hB)⟩

theorem deposit_eq_ok {r : ℤ} (h : deposit env provider a b m s = .ok (r, s')) :
    ∃ p da db minted, s.pair = some p ∧ env.auth provider = true ∧ 0 < a ∧ 0 < b ∧
      depositAmounts p a b m = .ok (da, db, minted) ∧ s' = { s with
        pair := some { p with
          reserveA := p.reserveA + da
          reserveB := p.reserveB + db
          totalShares := p.totalShares + minted }
        tokens := ((s.tokens.move p.tokenA provider here da).move p.tokenB provider here db).credit
          p.lpToken provider minted } := by
  simp only [deposit, bind_eq_ok, hostCall_eq_ok, Env.requireAuth_eq_ok, failIf_eq_ok, okOr_eq_ok,
    Env.transfer_eq_ok, mint_eq_ok, arith_eq_ok, pure_eq_ok, Prod.mk.injEq, not_or, not_le] at h
  obtain ⟨_, hauth, _, ⟨ha, hb⟩, p, hp, ⟨da, db, minted⟩, hamounts, _, ⟨_, rfl⟩, _, ⟨_, rfl⟩, _,
    ⟨_, rfl⟩, _, ⟨_, rfl⟩, _, ⟨_, rfl⟩, _, ⟨_, rfl⟩, _, rfl⟩ := h
  exact ⟨p, da, db, minted, hp, hauth, ha, hb, hamounts, rfl⟩

theorem applyFeeToAmountIn_eq_ok {f : ℕ} {net fee : ℤ}
    (h : applyFeeToAmountIn x f = .ok (net, fee)) : net = x - x * f / 10000 := by
  simp only [applyFeeToAmountIn, bpsDenominator, bind_eq_ok, failIf_eq_ok, okOr_eq_ok,
    IntRange.check_eq_some, pure_eq_ok, Prod.mk.injEq, not_le] at h
  obtain ⟨_, hx, _, ⟨hfits, rfl⟩, _, hdiv, _, ⟨_, rfl⟩, rfl, rfl⟩ := h
  rw [IntRange.checkedDiv_of_nonneg hfits (by positivity) (by norm_num)] at hdiv
  rw [Option.some.inj hdiv]

/-- A swap charges the fee that the contract reports. -/
theorem chargeFee_eq_ok {net : ℤ} {snap : Option AppliedFeeSnapshot}
    (h : chargeFee env x s = .ok (net, snap)) :
    ∃ f, getDynamicSwapFee env s = .ok f ∧ net = x - x * f / 10000 := by
  unfold chargeFee at h
  unfold getDynamicSwapFee
  cases hcfg : s.feeCfg with
  | none =>
    simp only [hcfg, Except.ok.injEq, Prod.mk.injEq] at h
    exact ⟨0, rfl, by simp [h.1]⟩
  | some config =>
    simp only [hcfg, bind_eq_ok, mapError_eq_ok, pure_eq_ok, Prod.mk.injEq] at h
    obtain ⟨v, hv, f, hf, ⟨n, fee⟩, hnet, rfl, _⟩ := h
    refine ⟨f, ?_, applyFeeToAmountIn_eq_ok hnet⟩
    simp only [hv, ok_bind, hf]
    rfl

theorem swap_eq_ok {out : ℤ} (h : swap env trader x m s = .ok (out, s')) :
    ∃ p f net snap, s.pair = some p ∧ env.auth trader = true ∧ 0 < x ∧ 0 < p.reserveA ∧
      0 < p.reserveB ∧ getDynamicSwapFee env s = .ok f ∧ net = x - x * f / 10000 ∧ 0 < net ∧
      out = (p.reserveB + p.virtualB) * net / (p.reserveA + p.virtualA + net) ∧
      out ≤ p.reserveB ∧ s' = { s with
        pair := some { p with reserveA := p.reserveA + net, reserveB := p.reserveB - out }
        feeSnap := snap
        tokens := (s.tokens.move p.tokenA trader here x).move p.tokenB here trader out } := by
  simp only [swap, bind_eq_ok, hostCall_eq_ok, Env.requireAuth_eq_ok, failIf_eq_ok, okOr_eq_ok,
    onVirtual_eq_ok, Env.transfer_eq_ok, pure_eq_ok, Prod.mk.injEq, not_or, not_le] at h
  obtain ⟨_, hauth, _, hx, p, hp, _, ⟨hra, hrb⟩, before, hbefore, ⟨net, snap⟩, hfee,
    ⟨after, amountOut, k⟩, hswap, _, _, _, _, _, _, _, ⟨_, rfl⟩, _, ⟨_, rfl⟩, rfl, rfl⟩ := h
  obtain ⟨hnet, hout, hle, rfl⟩ := swapAToB_eq_ok hbefore hswap
  obtain ⟨f, hf, hnetf⟩ := chargeFee_eq_ok hfee
  exact ⟨p, f, net, snap, hp, hauth, hx, hra, hrb, hf, hnetf, hnet, hout, hle, rfl⟩

theorem removeLiquidity_eq_ok {shares minA minB : ℤ} {r : ℤ × ℤ}
    (h : removeLiquidity env provider shares minA minB s = .ok (r, s')) :
    ∃ p amountA amountB, s.pair = some p ∧ env.auth provider = true ∧ 0 < shares ∧
      shares ≤ p.totalShares ∧ amountA = shares * p.reserveA / p.totalShares ∧
      p.virtualA ≤ p.reserveA - amountA ∧ p.virtualB ≤ p.reserveB - amountB ∧ s' = { s with
        pair := some { p with
          reserveA := p.reserveA - amountA
          reserveB := p.reserveB - amountB
          totalShares := p.totalShares - shares }
        tokens := ((s.tokens.credit p.lpToken provider (-shares)).move p.tokenA here provider
          amountA).move p.tokenB here provider amountB } := by
  simp only [removeLiquidity, assertWithdrawalAllowedBothSides, bind_eq_ok, hostCall_eq_ok,
    Env.requireAuth_eq_ok, failIf_eq_ok, okOr_eq_ok, onVirtual_eq_ok, Env.transfer_eq_ok,
    burn_eq_ok, arith_eq_ok, pure_eq_ok, Prod.mk.injEq, not_or, not_le, not_lt] at h
  obtain ⟨_, hauth, _, hshares, p, hp, _, ⟨_, hle⟩, e, he, h⟩ := h
  obtain ⟨hx, hy, _, _, _, _, rfl⟩ := EffectiveReserves.new_eq_ok he
  obtain ⟨_, ⟨_, rfl⟩, amountA, hA, _, ⟨_, rfl⟩, amountB, hB, h⟩ := h
  obtain ⟨_, _, _, ⟨_, hwA, _, hwB, _⟩, h⟩ := h
  obtain ⟨_, _, _, ⟨_, rfl⟩, _, ⟨_, rfl⟩, _, ⟨_, rfl⟩, h⟩ := h
  obtain ⟨_, ⟨_, rfl⟩, _, ⟨_, rfl⟩, _, ⟨_, rfl⟩, _, rfl⟩ := h
  exact ⟨p, amountA, amountB, hp, hauth, hshares, hle,
    (divide_eq_ok (mul_nonneg hshares.le hx) hA).2, (assertWithdrawalAllowed_eq_ok hwA).2,
    (assertWithdrawalAllowed_eq_ok hwB).2, rfl⟩

end Accepted

end StellarFlow.Amm.Pair
