import StellarFlow.Bytes
import StellarFlow.Foundation.Heron
import StellarFlow.Foundation.Obligations
import StellarFlow.Host

/-!
# Buying liquidity with collected fees

An admin books collected fees by token and spends them on a registered pool. A purchase needs the
fees booked in its token to reach a floor and takes at most a twentieth of the depth that the pool
was registered with. The other side of the pair is matched by the pool's ratio, and the shares
booked are the root of the product of both sides. Neither booking moves a token.
-/
namespace StellarFlow.Buyback

open Foundation

def bpsDenominator : ℤ := 10000
def maxSingleBuybackBps : ℤ := 500

inductive BuybackError
  | alreadyInitialized
  | notInitialized
  | notAdmin
  | insufficientFees
  | invalidAmount
  | overflow
  | poolAlreadyRegistered
  | poolNotFound
  | invalidRatio
  | notAuthorized
  | surplusBelowCap
  | buybackExceedsPoolCap
  | invalidBurnAddress
  deriving DecidableEq, Repr

abbrev Fail := Abort BuybackError

structure FeeBalance where
  token : Address
  amount : ℤ
  lastCollectedLedger : ℕ
  deriving DecidableEq, Repr

structure LiquidityPool where
  poolId : Bytes32
  tokenA : Address
  tokenB : Address
  lpToken : Address
  ratioABps : ℕ
  poolDepth : ℤ
  deriving DecidableEq

structure BuybackRecord where
  poolId : Bytes32
  feeToken : Address
  feeAmount : ℤ
  swappedAmountA : ℤ
  swappedAmountB : ℤ
  lpSharesReceived : ℤ
  executedLedger : ℕ
  deriving DecidableEq

structure BurnRecord where
  token : Address
  amount : ℤ
  burnAddress : Address
  executedLedger : ℕ
  deriving DecidableEq, Repr

/-- Storage of the contract, and the balances of the tokens. -/
structure Engine where
  admin : Option Address
  treasury : Option Address
  keeper : Option Address
  surplusCap : Option ℤ
  burnAddress : Option Address
  feeBalances : Store Address FeeBalance
  pools : Store Bytes32 LiquidityPool
  treasuryLp : Store Bytes32 ℤ
  tokens : Tokens

def Engine.fresh (tokens : Tokens) : Engine := ⟨none, none, none, none, none, ∅, ∅, ∅, tokens⟩

/-- A token also moves what its holder allowed this contract to spend. -/
structure BuybackEnv (here : Address) extends Env here where
  transferFrom : Address → Address → Address → ℤ → Tokens → Except Fault Tokens

/-- Newton's method from the number itself. -/
def isqrt (n : ℤ) : Except Fail ℤ :=
  if n ≤ 0 then pure 0
  else do
    let sum ← arith (n + 1)
    pure (Heron.loop n.toNat n.toNat (sum / 2).toNat)

/-- Both sides of a purchase: the swapped amount on its own side, and its match by the ratio. -/
def swappedAmounts (pool : LiquidityPool) (isTokenA : Bool) (swapAmount : ℤ) :
    Except Fail (ℤ × ℤ) :=
  if isTokenA then do
    failIf (¬ 0 < pool.ratioABps) (.error .invalidRatio)
    let product ← arith (swapAmount * (10000 - pool.ratioABps))
    let amountB ← divide product pool.ratioABps
    pure (swapAmount, amountB)
  else do
    failIf (¬ pool.ratioABps < 10000) (.error .invalidRatio)
    let product ← arith (swapAmount * pool.ratioABps)
    let amountA ← divide product (10000 - pool.ratioABps)
    pure (amountA, swapAmount)

section Calls

variable {here : Address} (env : BuybackEnv here)

def initializeEngine (admin treasury : Address) (surplusCap : i128.Value) (burnAddress : Address)
    (s : Engine) : Except Fail Engine := do
  failIf (s.admin ≠ none) (.error .alreadyInitialized)
  failIf (surplusCap.1 < 0) (.error .invalidAmount)
  failIf (burnAddress = admin ∨ burnAddress = treasury) (.error .invalidBurnAddress)
  hostCall (env.requireAuth admin)
  pure { s with
    admin := some admin, treasury := some treasury, surplusCap := some surplusCap.1
    burnAddress := some burnAddress }

def checkAdmin (admin : Address) (s : Engine) : Except Fail Unit := do
  let storedAdmin ← okOr s.admin (.error .notInitialized)
  failIf (admin ≠ storedAdmin) (.error .notAdmin)

def setSurplusCap (admin : Address) (surplusCap : i128.Value) (s : Engine) :
    Except Fail Engine := do
  checkAdmin admin s
  failIf (surplusCap.1 < 0) (.error .invalidAmount)
  hostCall (env.requireAuth admin)
  pure { s with surplusCap := some surplusCap.1 }

def setKeeper (admin keeper : Address) (s : Engine) : Except Fail Engine := do
  checkAdmin admin s
  hostCall (env.requireAuth admin)
  pure { s with keeper := some keeper }

def collectFees (admin token : Address) (amount : i128.Value) (s : Engine) :
    Except Fail (FeeBalance × Engine) := do
  checkAdmin admin s
  hostCall (env.requireAuth admin)
  failIf (amount.1 ≤ 0) (.error .invalidAmount)
  let existing := (s.feeBalances.lookup token).getD ⟨token, 0, env.sequence⟩
  let newAmount ← okOr (i128.check (existing.amount + amount.1)) (.error .overflow)
  let updated : FeeBalance := ⟨token, newAmount, env.sequence⟩
  pure (updated, { s with feeBalances := s.feeBalances.insert token updated })

/-- Sweep the whole balance of every source in turn. -/
def sweepSources (token treasury : Address) :
    List Address → ℤ → Tokens → Except Fail (ℤ × Tokens)
  | [], totalSwept, tokens => pure (totalSwept, tokens)
  | source :: rest, totalSwept, tokens => do
    let balance := tokens token source
    if 0 < balance then
      let tokens ← hostCall (env.transferFrom token source treasury balance tokens)
      let totalSwept ← okOr (i128.check (totalSwept + balance)) (.error .overflow)
      sweepSources token treasury rest totalSwept tokens
    else sweepSources token treasury rest totalSwept tokens

def sweepAssets (caller token : Address) (sources : List Address) (s : Engine) :
    Except Fail (ℤ × Engine) := do
  let storedAdmin ← okOr s.admin (.error .notInitialized)
  failIf (¬ (caller = storedAdmin ∨ s.keeper = some caller)) (.error .notAuthorized)
  hostCall (env.requireAuth caller)
  let treasury ← okOr s.treasury (.error .notInitialized)
  let (totalSwept, tokens) ← sweepSources env token treasury sources 0 s.tokens
  pure (totalSwept, { s with tokens })

def registerPool (admin : Address) (pool : LiquidityPool) (s : Engine) :
    Except Fail (LiquidityPool × Engine) := do
  checkAdmin admin s
  hostCall (env.requireAuth admin)
  failIf (pool.ratioABps = 0 ∨ 10000 ≤ pool.ratioABps) (.error .invalidRatio)
  failIf (pool.poolDepth ≤ 0) (.error .invalidAmount)
  failIf (s.pools.lookup pool.poolId ≠ none) (.error .poolAlreadyRegistered)
  pure (pool, { s with pools := s.pools.insert pool.poolId pool })

def executeBuyback (admin : Address) (poolId : Bytes32) (feeToken : Address)
    (swapAmount : i128.Value) (s : Engine) : Except Fail (BuybackRecord × Engine) := do
  checkAdmin admin s
  hostCall (env.requireAuth admin)
  failIf (swapAmount.1 ≤ 0) (.error .invalidAmount)
  let feeBalance ← okOr (s.feeBalances.lookup feeToken) (.error .insufficientFees)
  failIf (feeBalance.amount < s.surplusCap.getD 0) (.error .surplusBelowCap)
  failIf (feeBalance.amount < swapAmount.1) (.error .insufficientFees)
  let pool ← okOr (s.pools.lookup poolId) (.error .poolNotFound)
  let product ← okOr (i128.check (pool.poolDepth * maxSingleBuybackBps)) (.error .overflow)
  let maxSingle ← okOr (i128.checkedDiv product bpsDenominator) (.error .overflow)
  failIf (maxSingle < swapAmount.1) (.error .buybackExceedsPoolCap)
  failIf (feeToken ≠ pool.tokenA ∧ feeToken ≠ pool.tokenB) (.error .invalidAmount)
  let (amountA, amountB) ← swappedAmounts pool (feeToken = pool.tokenA) swapAmount.1
  let lpShares ← isqrt (← arith (amountA * amountB))
  -- The balance covers the positive amount, so the difference does not leave the type.
  let feeBalance := { feeBalance with amount := feeBalance.amount - swapAmount.1 }
  let newTreasuryLp ← okOr (i128.check ((s.treasuryLp.lookup poolId).getD 0 + lpShares))
    (.error .overflow)
  pure (⟨poolId, feeToken, swapAmount.1, amountA, amountB, lpShares, env.sequence⟩, { s with
    feeBalances := s.feeBalances.insert feeToken feeBalance
    treasuryLp := s.treasuryLp.insert poolId newTreasuryLp })

def executeBurn (admin token : Address) (amount : i128.Value) (s : Engine) :
    Except Fail (BurnRecord × Engine) := do
  checkAdmin admin s
  hostCall (env.requireAuth admin)
  failIf (amount.1 ≤ 0) (.error .invalidAmount)
  let burnAddress ← okOr s.burnAddress (.error .notInitialized)
  let treasury ← okOr s.treasury (.error .notInitialized)
  failIf (s.tokens token treasury < amount.1) (.error .insufficientFees)
  let tokens ← hostCall (env.transfer token treasury burnAddress amount.1 s.tokens)
  pure (⟨token, amount.1, burnAddress, env.sequence⟩, { s with tokens })

end Calls

inductive BuybackCall
  | initializeEngine (admin treasury : Address) (surplusCap : i128.Value) (burnAddress : Address)
  | setSurplusCap (admin : Address) (surplusCap : i128.Value)
  | setKeeper (admin keeper : Address)
  | collectFees (admin token : Address) (amount : i128.Value)
  | sweepAssets (caller token : Address) (sources : List Address)
  | registerPool (admin : Address) (pool : LiquidityPool)
  | executeBuyback (admin : Address) (poolId : Bytes32) (feeToken : Address)
      (swapAmount : i128.Value)
  | executeBurn (admin token : Address) (amount : i128.Value)

/-- The contract with the fees that were collected and the purchases that were made. -/
structure BuybackHistory where
  engine : Engine
  collected : List (Address × ℤ)
  bought : List BuybackRecord

def BuybackHistory.fresh (tokens : Tokens) : BuybackHistory := ⟨.fresh tokens, [], []⟩

abbrev BuybackStep (here : Address) := BuybackEnv here × BuybackCall

def buybackStep {here : Address} (i : BuybackStep here) (h : BuybackHistory) :
    Except Fail BuybackHistory :=
  match i.2 with
  | .initializeEngine admin treasury surplusCap burnAddress => do
    let engine ← initializeEngine i.1 admin treasury surplusCap burnAddress h.engine
    pure { h with engine }
  | .setSurplusCap admin surplusCap => do
    let engine ← setSurplusCap i.1 admin surplusCap h.engine
    pure { h with engine }
  | .setKeeper admin keeper => do
    let engine ← setKeeper i.1 admin keeper h.engine
    pure { h with engine }
  | .collectFees admin token amount => do
    let (_, engine) ← collectFees i.1 admin token amount h.engine
    pure { h with engine, collected := h.collected ++ [(token, amount.1)] }
  | .sweepAssets caller token sources => do
    let (_, engine) ← sweepAssets i.1 caller token sources h.engine
    pure { h with engine }
  | .registerPool admin pool => do
    let (_, engine) ← registerPool i.1 admin pool h.engine
    pure { h with engine }
  | .executeBuyback admin poolId feeToken swapAmount => do
    let (record, engine) ← executeBuyback i.1 admin poolId feeToken swapAmount h.engine
    pure { h with engine, bought := h.bought ++ [record] }
  | .executeBurn admin token amount => do
    let (_, engine) ← executeBurn i.1 admin token amount h.engine
    pure { h with engine }

/-! ## What a purchase is worth -/

/-- The rounded roots of two products stay below the root of the product of the sums. -/
theorem sqrt_mul_add_sqrt_mul_le (a b c d : ℕ) :
    Nat.sqrt (a * b) + Nat.sqrt (c * d) ≤ Nat.sqrt ((a + c) * (b + d)) := by
  have hx : Nat.sqrt (a * b) ^ 2 ≤ a * b := Nat.sqrt_le' _
  have hy : Nat.sqrt (c * d) ^ 2 ≤ c * d := Nat.sqrt_le' _
  generalize Nat.sqrt (a * b) = x at hx ⊢
  generalize Nat.sqrt (c * d) = y at hy ⊢
  have hcross : 2 * (x * y) ≤ a * d + c * b := by
    have hprod : x ^ 2 * y ^ 2 ≤ a * b * (c * d) := Nat.mul_le_mul hx hy
    refine (Nat.pow_le_pow_iff_left two_ne_zero).mp ?_
    calc (2 * (x * y)) ^ 2 = 4 * (x ^ 2 * y ^ 2) := by ring
      _ ≤ 4 * (a * b * (c * d)) := Nat.mul_le_mul_left 4 hprod
      _ = 4 * (a * d) * (c * b) := by ring
      _ ≤ (a * d + c * b) ^ 2 := four_mul_le_sq_add (a * d) (c * b)
  rw [Nat.le_sqrt']
  calc (x + y) ^ 2 = x ^ 2 + y ^ 2 + 2 * (x * y) := by ring
    _ ≤ a * b + c * d + (a * d + c * b) := by omega
    _ = (a + c) * (b + d) := by ring

/-- What the other side of the pair adds to an amount, by the weight of its own side. -/
def matched (own fee : ℕ) : ℕ := fee * (10000 - own) / own

/-- Shares booked for an amount on a side of the given weight. -/
def sharesFor (own fee : ℕ) : ℕ := Nat.sqrt (fee * matched own fee)

@[simp] theorem sharesFor_zero (own : ℕ) : sharesFor own 0 = 0 := by simp [sharesFor]

/-- Two purchases get no more than one of both amounts. -/
theorem sharesFor_add_le (own x y : ℕ) :
    sharesFor own x + sharesFor own y ≤ sharesFor own (x + y) := by
  have hmatched : matched own x + matched own y ≤ matched own (x + y) := by
    rw [matched, matched, matched, Nat.add_mul]
    exact Nat.div_add_div_le_add_div
  exact (sqrt_mul_add_sqrt_mul_le _ _ _ _).trans
    (Nat.sqrt_le_sqrt (Nat.mul_le_mul_left _ hmatched))

/-- Weight of the side that a token stands on. -/
def LiquidityPool.ownBps (p : LiquidityPool) (token : Address) : ℕ :=
  if token = p.tokenA then p.ratioABps else 10000 - p.ratioABps

def LiquidityPool.Trades (p : LiquidityPool) (token : Address) : Prop :=
  token = p.tokenA ∨ token = p.tokenB

/-- Both sides of a purchase in a pool. -/
def LiquidityPool.sides (p : LiquidityPool) (token : Address) (fee : ℕ) : ℤ × ℤ :=
  if token = p.tokenA then (fee, (matched (p.ownBps token) fee : ℕ))
  else ((matched (p.ownBps token) fee : ℕ), fee)

def LiquidityPool.Valid (p : LiquidityPool) : Prop :=
  0 < p.ratioABps ∧ p.ratioABps < 10000 ∧ 0 < p.poolDepth

theorem isqrt_eq_ok {n : ℕ} {r : ℤ} :
    isqrt n = .ok r ↔ n + 1 < 2 ^ 127 ∧ r = (Nat.sqrt n : ℕ) := by
  rw [isqrt]
  split_ifs with hzero
  · have hn : n = 0 := by omega
    subst hn
    rw [pure_eq_ok]
    simp [eq_comm]
  · have hpos : 0 < n := by omega
    have hfits : i128.Fits ((n : ℤ) + 1) ↔ n + 1 < 2 ^ 127 := by
      rw [← fits_natCast_iff]
      push_cast
      rfl
    simp only [bind_eq_ok, arith_eq_ok, pure_eq_ok, hfits]
    constructor
    · rintro ⟨_, ⟨hmax, rfl⟩, rfl⟩
      rw [Int.toNat_natCast, Heron.half_succ_eq_next hpos, Heron.loop_self_eq_sqrt hpos]
      exact ⟨hmax, rfl⟩
    · rintro ⟨hmax, rfl⟩
      refine ⟨_, ⟨hmax, rfl⟩, ?_⟩
      rw [Int.toNat_natCast, Heron.half_succ_eq_next hpos, Heron.loop_self_eq_sqrt hpos]

theorem divide_natCast {ε : Type} {x y : ℕ} (hx : x < 2 ^ 127) (hy : 0 < y) :
    (divide x y : Except (Abort ε) ℤ) = .ok ((x / y : ℕ) : ℤ) := by
  have hquot : ((x : ℤ)).tdiv y = ((x / y : ℕ) : ℤ) := by
    rw [Int.tdiv_eq_ediv_of_nonneg (Int.natCast_nonneg x), Int.natCast_div]
  have hfits : x / y < 2 ^ 127 := (Nat.div_le_self x y).trans_lt hx
  rw [divide, failIf_of_not (by omega), ok_bind, hquot, arith, check_natCast hfits, okOr_some]

theorem swappedAmounts_eq_ok {p : LiquidityPool} {token : Address} {fee : ℕ} {r : ℤ × ℤ}
    (hp : p.Valid) : swappedAmounts p (token = p.tokenA) fee = .ok r ↔
      fee * (10000 - p.ownBps token) < 2 ^ 127 ∧ r = p.sides token fee := by
  obtain ⟨hpos, hlt, _⟩ := hp
  unfold swappedAmounts LiquidityPool.sides LiquidityPool.ownBps
  by_cases hside : token = p.tokenA
  · have hcast : (fee : ℤ) * (10000 - p.ratioABps) = ((fee * (10000 - p.ratioABps) : ℕ) : ℤ) := by
      push_cast [Nat.cast_sub hlt.le]
      rfl
    simp only [hside, decide_true, if_true, bind_eq_ok, failIf_eq_ok, hpos, not_true, not_false_iff,
      exists_const, arith_eq_ok, hcast, fits_natCast_iff, pure_eq_ok]
    constructor
    · rintro ⟨_, _, ⟨hfits, rfl⟩, _, hquot, rfl⟩
      rw [divide_natCast hfits hpos] at hquot
      obtain rfl := Except.ok.inj hquot
      exact ⟨hfits, rfl⟩
    · rintro ⟨hfits, rfl⟩
      exact ⟨trivial, _, ⟨hfits, rfl⟩, _, divide_natCast hfits hpos, rfl⟩
  · have hcast : (10000 : ℤ) - p.ratioABps = ((10000 - p.ratioABps : ℕ) : ℤ) := by
      push_cast [Nat.cast_sub hlt.le]
      rfl
    have hrest : 0 < 10000 - p.ratioABps := Nat.sub_pos_of_lt hlt
    simp only [hside, decide_false, Bool.false_eq_true, if_false, bind_eq_ok, failIf_eq_ok, hlt,
      not_true, not_false_iff, exists_const, arith_eq_ok, hcast, ← Nat.cast_mul, fits_natCast_iff,
      pure_eq_ok, matched, Nat.sub_sub_self hlt.le]
    constructor
    · rintro ⟨_, _, ⟨hfits, rfl⟩, _, hquot, rfl⟩
      rw [divide_natCast hfits hrest] at hquot
      obtain rfl := Except.ok.inj hquot
      exact ⟨hfits, rfl⟩
    · rintro ⟨hfits, rfl⟩
      exact ⟨trivial, _, ⟨hfits, rfl⟩, _, divide_natCast hfits hrest, rfl⟩

/-! ## Purchases -/

section Purchases

variable {here : Address} {env : BuybackEnv here} {admin feeToken : Address} {poolId : Bytes32}
  {s : Engine} {p : LiquidityPool}

/-- Fees booked in a token. -/
def Engine.booked (s : Engine) (token : Address) : ℤ :=
  ((s.feeBalances.lookup token).map (·.amount)).getD 0

theorem booked_of_lookup {s : Engine} {token : Address} {balance : FeeBalance}
    (h : s.feeBalances.lookup token = some balance) : s.booked token = balance.amount := by
  rw [Engine.booked, h]
  rfl

/-- Shares booked for a pool. -/
def Engine.lpOf (s : Engine) (poolId : Bytes32) : ℤ := (s.treasuryLp.lookup poolId).getD 0

def SignsAsAdmin (env : BuybackEnv here) (admin : Address) (s : Engine) : Prop :=
  s.admin = some admin ∧ env.auth admin = true

@[simp] theorem checkAdmin_eq_ok {u : Unit} :
    checkAdmin admin s = .ok u ↔ s.admin = some admin := by
  simp only [checkAdmin, bind_eq_ok, okOr_eq_ok, failIf_eq_ok, not_not, ne_eq, exists_eq_right']

/-- The fees, the depth of the pool and the range of the numbers allow a purchase. -/
structure Affordable (s : Engine) (p : LiquidityPool) (poolId : Bytes32) (feeToken : Address)
    (fee : ℕ) : Prop where
  trades : p.Trades feeToken
  pos : 0 < fee
  floor : s.surplusCap.getD 0 ≤ s.booked feeToken
  covered : fee ≤ s.booked feeToken
  depth : 20 * fee ≤ p.poolDepth
  depth_fits : p.poolDepth * 500 < 2 ^ 127
  matched_fits : fee * (10000 - p.ownBps feeToken) < 2 ^ 127
  product_fits : fee * matched (p.ownBps feeToken) fee + 1 < 2 ^ 127
  shares_fit : s.lpOf poolId + sharesFor (p.ownBps feeToken) fee < 2 ^ 127

/-- The record of a purchase and the state that it leaves. -/
def purchase (env : BuybackEnv here) (s : Engine) (p : LiquidityPool) (balance : FeeBalance)
    (poolId : Bytes32) (feeToken : Address) (fee : ℕ) : BuybackRecord × Engine :=
  (⟨poolId, feeToken, fee, (p.sides feeToken fee).1, (p.sides feeToken fee).2,
    (sharesFor (p.ownBps feeToken) fee : ℕ), env.sequence⟩, { s with
    feeBalances := s.feeBalances.insert feeToken { balance with amount := balance.amount - fee }
    treasuryLp := s.treasuryLp.insert poolId
      (s.lpOf poolId + (sharesFor (p.ownBps feeToken) fee : ℕ)) })

theorem sides_mul (token : Address) (fee : ℕ) :
    (p.sides token fee).1 * (p.sides token fee).2 =
      ((fee * matched (p.ownBps token) fee : ℕ) : ℤ) := by
  unfold LiquidityPool.sides
  split_ifs
  · push_cast
    rfl
  · push_cast
    exact mul_comm _ _

theorem fits_iff_of_nonneg {x : ℤ} (hx : 0 ≤ x) : i128.Fits x ↔ x < 2 ^ 127 := by
  rw [i128, IntRange.signed_fits_iff]
  constructor
  · exact fun h => h.2
  · exact fun h => ⟨by omega, h⟩

/-- The most that one purchase takes is a twentieth of the depth. -/
theorem maxSingle_eq_some {depth maxSingle : ℤ} (hdepth : 0 < depth) :
    (∃ product, i128.check (depth * maxSingleBuybackBps) = some product ∧
      i128.checkedDiv product bpsDenominator = some maxSingle) ↔
      depth * 500 < 2 ^ 127 ∧ maxSingle = depth * 500 / 10000 := by
  have hnonneg : 0 ≤ depth * maxSingleBuybackBps := mul_nonneg hdepth.le (by decide)
  have hquot (hfits : i128.Fits (depth * maxSingleBuybackBps)) :=
    IntRange.checkedDiv_of_nonneg hfits hnonneg (show 0 < bpsDenominator by decide)
  constructor
  · rintro ⟨product, hproduct, hmax⟩
    obtain ⟨hfits, rfl⟩ := IntRange.check_eq_some.mp hproduct
    rw [hquot hfits] at hmax
    exact ⟨(fits_iff_of_nonneg hnonneg).mp hfits, (Option.some.inj hmax).symm⟩
  · rintro ⟨hlt, rfl⟩
    have hfits : i128.Fits (depth * maxSingleBuybackBps) := (fits_iff_of_nonneg hnonneg).mpr hlt
    exact ⟨_, hfits.check_eq, hquot hfits⟩

/-- The root of both sides is what the purchase is worth. -/
theorem shares_eq_ok {fee : ℕ} {shares : ℤ} :
    (∃ value, (arith ((p.sides feeToken fee).1 * (p.sides feeToken fee).2) : Except Fail ℤ) =
      .ok value ∧ isqrt value = .ok shares) ↔
      fee * matched (p.ownBps feeToken) fee + 1 < 2 ^ 127 ∧
        shares = (sharesFor (p.ownBps feeToken) fee : ℕ) := by
  rw [sides_mul]
  simp only [arith_eq_ok, fits_natCast_iff]
  constructor
  · rintro ⟨_, ⟨_, rfl⟩, hroot⟩
    exact isqrt_eq_ok.mp hroot
  · rintro ⟨hfits, hshares⟩
    exact ⟨_, ⟨Nat.lt_of_succ_lt hfits, rfl⟩, isqrt_eq_ok.mpr ⟨hfits, hshares⟩⟩

theorem executeBuyback_eq_ok {swapAmount : i128.Value} {fee : ℕ} {r : BuybackRecord × Engine}
    (hfee : swapAmount.1 = fee) (hpools : ∀ id p, s.pools.lookup id = some p → p.Valid)
    (hlp : 0 ≤ s.lpOf poolId) :
    executeBuyback env admin poolId feeToken swapAmount s = .ok r ↔ SignsAsAdmin env admin s ∧
      ∃ balance p, s.feeBalances.lookup feeToken = some balance ∧
        s.pools.lookup poolId = some p ∧ Affordable s p poolId feeToken fee ∧
        r = purchase env s p balance poolId feeToken fee := by
  simp only [executeBuyback, bind_eq_ok, checkAdmin_eq_ok, hostCall_eq_ok, Env.requireAuth_eq_ok,
    failIf_eq_ok, okOr_eq_ok, pure_eq_ok, exists_const, not_le, not_lt, hfee]
  constructor
  · rintro ⟨hadmin, hauth, hpos, balance, hbalance, hfloor, hcovered, p, hpool, product, hproduct,
      maxSingle, hmax, hcap, htrades, sides, hsides, value, hvalue, shares, hshares, newLp, hnew,
      rfl⟩
    have hvalid := hpools _ _ hpool
    obtain ⟨hmatched, rfl⟩ := (swappedAmounts_eq_ok hvalid).mp hsides
    obtain ⟨hdepth, rfl⟩ := (maxSingle_eq_some hvalid.2.2).mp ⟨product, hproduct, hmax⟩
    obtain ⟨hvalueFits, rfl⟩ := shares_eq_ok.mp ⟨value, hvalue, hshares⟩
    obtain ⟨hnewFits, rfl⟩ := IntRange.check_eq_some.mp hnew
    have hbooked := booked_of_lookup hbalance
    have hsum : 0 ≤ s.lpOf poolId + (sharesFor (p.ownBps feeToken) fee : ℕ) :=
      add_nonneg hlp (Int.natCast_nonneg _)
    exact ⟨⟨hadmin, hauth⟩, balance, p, hbalance, hpool, {
      trades := not_and_or.mp htrades |>.imp not_not.mp not_not.mp
      pos := by exact_mod_cast hpos
      floor := hbooked ▸ hfloor
      covered := hbooked ▸ hcovered
      depth := by omega
      depth_fits := hdepth
      matched_fits := hmatched
      product_fits := hvalueFits
      shares_fit := (fits_iff_of_nonneg hsum).mp hnewFits }, rfl⟩
  · rintro ⟨⟨hadmin, hauth⟩, balance, p, hbalance, hpool, hcan, rfl⟩
    have hvalid := hpools _ _ hpool
    have hbooked := booked_of_lookup hbalance
    obtain ⟨product, hproduct, hmax⟩ := (maxSingle_eq_some hvalid.2.2).mpr ⟨hcan.depth_fits, rfl⟩
    obtain ⟨value, hvalue, hshares⟩ := (shares_eq_ok (p := p)).mpr ⟨hcan.product_fits, rfl⟩
    have hsum : 0 ≤ s.lpOf poolId + (sharesFor (p.ownBps feeToken) fee : ℕ) :=
      add_nonneg hlp (Int.natCast_nonneg _)
    refine ⟨hadmin, hauth, by exact_mod_cast hcan.pos, balance, hbalance, hbooked ▸ hcan.floor,
      hbooked ▸ hcan.covered, p, hpool, product, hproduct, _, hmax, ?_, ?_, _,
      (swappedAmounts_eq_ok hvalid).mpr ⟨hcan.matched_fits, rfl⟩, value, hvalue, _, hshares, _,
      IntRange.check_eq_some.mpr ⟨(fits_iff_of_nonneg hsum).mpr hcan.shares_fit, rfl⟩, rfl⟩
    · have hdepth := hcan.depth
      omega
    · exact fun h => hcan.trades.elim h.1 h.2

theorem swapAmount_pos {swapAmount : i128.Value} {r : BuybackRecord × Engine}
    (h : executeBuyback env admin poolId feeToken swapAmount s = .ok r) : 0 < swapAmount.1 := by
  simp only [executeBuyback, bind_eq_ok, failIf_eq_ok, not_le] at h
  obtain ⟨_, _, _, _, _, hpos, _⟩ := h
  exact hpos

/-- Fees that cover a purchase are on record. -/
theorem Affordable.balance {fee : ℕ} (h : Affordable s p poolId feeToken fee) :
    ∃ balance, s.feeBalances.lookup feeToken = some balance := by
  have hcovered := h.covered
  have hpos := h.pos
  rw [Engine.booked] at hcovered
  cases hbalance : s.feeBalances.lookup feeToken with
  | none =>
    simp only [hbalance, Option.map_none, Option.getD_none] at hcovered
    omega
  | some balance => exact ⟨balance, rfl⟩

end Purchases

/-! ## What the books say -/

def collectedOf (token : Address) (collected : List (Address × ℤ)) : ℤ :=
  ((collected.filter (·.1 = token)).map Prod.snd).sum

def spentOf (token : Address) (bought : List BuybackRecord) : ℤ :=
  ((bought.filter (·.feeToken = token)).map (·.feeAmount)).sum

/-- Amount of a token spent on a pool. -/
def spentOn (poolId : Bytes32) (token : Address) (bought : List BuybackRecord) : ℕ :=
  ((bought.filter fun r => r.poolId = poolId ∧ r.feeToken = token).map (·.feeAmount.toNat)).sum

def sharesOf (poolId : Bytes32) (bought : List BuybackRecord) : ℤ :=
  ((bought.filter (·.poolId = poolId)).map (·.lpSharesReceived)).sum

/-- A purchase in a registered pool, with the shares of its amount. -/
def Bought (s : Engine) (r : BuybackRecord) : Prop :=
  ∃ p, ∃ fee : ℕ, s.pools.lookup r.poolId = some p ∧ p.Trades r.feeToken ∧ r.feeAmount = fee ∧
    r.lpSharesReceived = (sharesFor (p.ownBps r.feeToken) fee : ℕ)

structure Sound (h : BuybackHistory) : Prop where
  pools_valid : ∀ id p, h.engine.pools.lookup id = some p → p.Valid
  booked_nonneg : ∀ token, 0 ≤ h.engine.booked token
  booked_eq : ∀ token,
    h.engine.booked token + spentOf token h.bought = collectedOf token h.collected
  lp_eq : ∀ id, h.engine.lpOf id = sharesOf id h.bought
  bought : ∀ r ∈ h.bought, Bought h.engine r

/-- What an accepted call changes. -/
inductive BuybackChange (h : BuybackHistory) : BuybackHistory → Prop
  | other {engine : Engine} (hfees : engine.feeBalances = h.engine.feeBalances)
      (hpools : engine.pools = h.engine.pools) (hlp : engine.treasuryLp = h.engine.treasuryLp) :
      BuybackChange h { h with engine }
  | collect {token : Address} {amount : ℤ} {balance : FeeBalance} (hpos : 0 < amount)
      (hbalance : balance.amount = h.engine.booked token + amount) :
      BuybackChange h { h with
        engine := { h.engine with feeBalances := h.engine.feeBalances.insert token balance }
        collected := h.collected ++ [(token, amount)] }
  | register {p : LiquidityPool} (hvalid : p.Valid) (hnew : h.engine.pools.lookup p.poolId = none) :
      BuybackChange h { h with
        engine := { h.engine with pools := h.engine.pools.insert p.poolId p } }
  | buy {here : Address} {env : BuybackEnv here} {p : LiquidityPool} {balance : FeeBalance}
      {poolId : Bytes32} {feeToken : Address} {fee : ℕ}
      (hbalance : h.engine.feeBalances.lookup feeToken = some balance)
      (hpool : h.engine.pools.lookup poolId = some p)
      (hcan : Affordable h.engine p poolId feeToken fee) :
      BuybackChange h { h with
        engine := (purchase env h.engine p balance poolId feeToken fee).2
        bought := h.bought ++ [(purchase env h.engine p balance poolId feeToken fee).1] }

section Books

variable {h h' : BuybackHistory}

theorem booked_congr {s s' : Engine} (h : s'.feeBalances = s.feeBalances) (token : Address) :
    s'.booked token = s.booked token := by
  rw [Engine.booked, h, Engine.booked]

theorem booked_of_insert {s s' : Engine} {token : Address} {balance : FeeBalance}
    (h : s'.feeBalances = s.feeBalances.insert token balance) (t : Address) :
    s'.booked t = if t = token then balance.amount else s.booked t := by
  rw [Engine.booked, h, Store.lookup_insert_ite]
  split_ifs <;> rfl

theorem lpOf_congr {s s' : Engine} (h : s'.treasuryLp = s.treasuryLp) (id : Bytes32) :
    s'.lpOf id = s.lpOf id := by
  rw [Engine.lpOf, h, Engine.lpOf]

theorem lpOf_of_insert {s s' : Engine} {poolId : Bytes32} {shares : ℤ}
    (h : s'.treasuryLp = s.treasuryLp.insert poolId shares) (id : Bytes32) :
    s'.lpOf id = if id = poolId then shares else s.lpOf id := by
  rw [Engine.lpOf, h, Store.lookup_insert_ite]
  split_ifs <;> rfl

theorem Bought.congr {s s' : Engine} {r : BuybackRecord} (h : Bought s r)
    (hpools : ∀ p, s.pools.lookup r.poolId = some p → s'.pools.lookup r.poolId = some p) :
    Bought s' r := by
  obtain ⟨p, fee, hpool, hrest⟩ := h
  exact ⟨p, fee, hpools p hpool, hrest⟩

theorem Sound.lp_nonneg (hs : Sound h) (id : Bytes32) : 0 ≤ h.engine.lpOf id := by
  rw [hs.lp_eq id]
  refine List.sum_nonneg fun x hx => ?_
  obtain ⟨r, hr, rfl⟩ := List.mem_map.mp hx
  obtain ⟨_, _, _, _, _, hshares⟩ := hs.bought r (List.mem_filter.mp hr).1
  rw [hshares]
  exact Int.natCast_nonneg _

theorem fresh_sound (tokens : Tokens) : Sound (.fresh tokens) where
  pools_valid id p hp := by cases hp
  booked_nonneg _ := le_rfl
  booked_eq _ := rfl
  lp_eq _ := rfl
  bought r hr := by cases hr

theorem BuybackChange.sound (hs : Sound h) (hc : BuybackChange h h') : Sound h' := by
  cases hc with
  | @other engine hfees hpools hlp =>
    have hbooked : ∀ token, engine.booked token = h.engine.booked token := booked_congr hfees
    exact {
      pools_valid := hpools ▸ hs.pools_valid
      booked_nonneg := fun token => by rw [hbooked]; exact hs.booked_nonneg token
      booked_eq := fun token => by rw [hbooked]; exact hs.booked_eq token
      lp_eq := fun id => by rw [lpOf_congr hlp]; exact hs.lp_eq id
      bought := fun r hr => (hs.bought r hr).congr fun p hp => hpools ▸ hp }
  | @collect token amount balance hpos hbalance =>
    refine ⟨hs.pools_valid, fun t => ?_, fun t => ?_, hs.lp_eq, hs.bought⟩
    · rw [booked_of_insert rfl]
      have hbooked := hs.booked_nonneg t
      split_ifs with ht
      · subst ht
        omega
      · exact hbooked
    · rw [booked_of_insert rfl, collectedOf, sum_filter_append_singleton]
      have hbooked := hs.booked_eq t
      rw [collectedOf] at hbooked
      by_cases ht : t = token
      · subst ht
        simp only [if_true, decide_true]
        omega
      · simp only [if_neg ht, decide_eq_true_eq, if_neg (Ne.symm ht)]
        omega
  | @register p hvalid hnew =>
    refine ⟨fun id q hq => ?_, hs.booked_nonneg, hs.booked_eq, hs.lp_eq, fun r hr => ?_⟩
    · rw [Store.lookup_insert_ite] at hq
      split_ifs at hq
      · obtain rfl := Option.some.inj hq
        exact hvalid
      · exact hs.pools_valid id q hq
    · refine (hs.bought r hr).congr fun q hq => ?_
      have hne : r.poolId ≠ p.poolId := by
        intro heq
        rw [heq, hnew] at hq
        cases hq
      rw [Store.lookup_insert_ite, if_neg hne, hq]
  | @buy here env p balance poolId feeToken fee hbalance hpool hcan =>
    have hbooked := booked_of_lookup hbalance
    have hcovered := hcan.covered
    refine ⟨hs.pools_valid, fun t => ?_, fun t => ?_, fun id => ?_, fun r hr => ?_⟩
    · rw [booked_of_insert rfl]
      split_ifs
      · simp only
        omega
      · exact hs.booked_nonneg t
    · rw [booked_of_insert rfl, spentOf, sum_filter_append_singleton]
      have hold := hs.booked_eq t
      rw [spentOf] at hold
      by_cases ht : t = feeToken
      · subst ht
        simp only [purchase, if_true, decide_true]
        omega
      · simp only [purchase, if_neg ht, Ne.symm ht, decide_false, Bool.false_eq_true, if_false]
        omega
    · rw [lpOf_of_insert rfl, sharesOf, sum_filter_append_singleton]
      have hold := hs.lp_eq id
      rw [sharesOf] at hold
      by_cases hid : id = poolId
      · subst hid
        simp only [purchase, if_true, decide_true]
        omega
      · simp only [purchase, if_neg hid, Ne.symm hid, decide_false, Bool.false_eq_true, if_false]
        omega
    · rcases List.mem_append.mp hr with hold | hnew
      · exact hs.bought r hold
      · obtain rfl := List.mem_singleton.mp hnew
        exact ⟨p, fee, hpool, hcan.trades, rfl, rfl⟩

theorem buybackStep_change {here : Address} {i : BuybackStep here} (hs : Sound h)
    (hstep : buybackStep i h = .ok h') : BuybackChange h h' := by
  obtain ⟨env, call⟩ := i
  cases call with
  | initializeEngine admin treasury surplusCap burnAddress =>
    simp only [buybackStep, initializeEngine, bind_eq_ok, pure_eq_ok] at hstep
    obtain ⟨_, ⟨_, _, _, _, _, _, _, _, rfl⟩, rfl⟩ := hstep
    exact .other rfl rfl rfl
  | setSurplusCap admin surplusCap =>
    simp only [buybackStep, setSurplusCap, bind_eq_ok, pure_eq_ok] at hstep
    obtain ⟨_, ⟨_, _, _, _, _, _, rfl⟩, rfl⟩ := hstep
    exact .other rfl rfl rfl
  | setKeeper admin keeper =>
    simp only [buybackStep, setKeeper, bind_eq_ok, pure_eq_ok] at hstep
    obtain ⟨_, ⟨_, _, _, _, rfl⟩, rfl⟩ := hstep
    exact .other rfl rfl rfl
  | collectFees admin token amount =>
    simp only [buybackStep, collectFees, bind_eq_ok, failIf_eq_ok, okOr_eq_ok,
      IntRange.check_eq_some, pure_eq_ok, not_le] at hstep
    obtain ⟨_, ⟨_, _, _, _, _, hpos, _, ⟨_, rfl⟩, rfl⟩, rfl⟩ := hstep
    refine .collect hpos ?_
    rw [Engine.booked]
    cases h.engine.feeBalances.lookup token <;> rfl
  | sweepAssets caller token sources =>
    simp only [buybackStep, sweepAssets, bind_eq_ok, pure_eq_ok] at hstep
    obtain ⟨_, ⟨_, _, _, _, _, _, _, _, _, _, rfl⟩, rfl⟩ := hstep
    exact .other rfl rfl rfl
  | registerPool admin pool =>
    simp only [buybackStep, registerPool, bind_eq_ok, failIf_eq_ok, pure_eq_ok] at hstep
    obtain ⟨_, ⟨_, _, _, _, _, hratio, _, hdepth, _, hnew, rfl⟩, rfl⟩ := hstep
    exact .register ⟨by omega, by omega, not_le.mp hdepth⟩ (not_not.mp hnew)
  | executeBuyback admin poolId feeToken swapAmount =>
    obtain ⟨r, hr, hstep⟩ := bind_eq_ok.mp hstep
    obtain ⟨fee, hfee⟩ := Int.eq_ofNat_of_zero_le (swapAmount_pos hr).le
    obtain ⟨_, balance, p, hbalance, hpool, hcan, rfl⟩ :=
      (executeBuyback_eq_ok hfee hs.pools_valid (hs.lp_nonneg poolId)).mp hr
    obtain rfl := pure_eq_ok.mp hstep
    exact .buy hbalance hpool hcan
  | executeBurn admin token amount =>
    simp only [buybackStep, executeBurn, bind_eq_ok, pure_eq_ok] at hstep
    obtain ⟨_, ⟨_, _, _, _, _, _, _, _, _, _, _, _, _, _, rfl⟩, rfl⟩ := hstep
    exact .other rfl rfl rfl

theorem sound_runAll {here : Address} (tokens : Tokens) (run : List (BuybackStep here)) :
    Sound (runAll buybackStep (.fresh tokens) run) :=
  runAll_induction (fun _ _ _ hs hstep => (buybackStep_change hs hstep).sound hs)
    (fresh_sound tokens) run

end Books

/-! ## No gain from splitting -/

section Splitting

variable {poolId : Bytes32} {p : LiquidityPool} {s : Engine}

/-- Shares that single purchases of the amounts spent on a pool would get, one for each token. -/
def sharesAtOnce (p : LiquidityPool) (poolId : Bytes32) (bought : List BuybackRecord) : ℕ :=
  ∑ token ∈ {p.tokenA, p.tokenB}, sharesFor (p.ownBps token) (spentOn poolId token bought)

theorem spentOn_append_singleton (token : Address) (bought : List BuybackRecord)
    (r : BuybackRecord) : spentOn poolId token (bought ++ [r]) = spentOn poolId token bought +
      if r.poolId = poolId ∧ r.feeToken = token then r.feeAmount.toNat else 0 := by
  rw [spentOn, sum_filter_append_singleton, spentOn]
  simp only [decide_eq_true_eq]

/-- A purchase adds at least its shares to what its token would get at once. -/
theorem sharesAtOnce_append_singleton {r : BuybackRecord} {fee : ℕ} (bought : List BuybackRecord)
    (hpool : r.poolId = poolId) (htrades : p.Trades r.feeToken) (hfee : r.feeAmount = fee) :
    sharesAtOnce p poolId bought + sharesFor (p.ownBps r.feeToken) fee ≤
      sharesAtOnce p poolId (bought ++ [r]) := by
  have hmem : r.feeToken ∈ ({p.tokenA, p.tokenB} : Finset Address) := by
    rw [Finset.mem_insert, Finset.mem_singleton]
    exact htrades
  have hside : spentOn poolId r.feeToken (bought ++ [r]) =
      spentOn poolId r.feeToken bought + fee := by
    rw [spentOn_append_singleton, if_pos ⟨hpool, rfl⟩, hfee, Int.toNat_natCast]
  have hother : ∀ token ∈ ({p.tokenA, p.tokenB} : Finset Address).erase r.feeToken,
      sharesFor (p.ownBps token) (spentOn poolId token (bought ++ [r])) =
        sharesFor (p.ownBps token) (spentOn poolId token bought) := by
    intro token htoken
    rw [spentOn_append_singleton, if_neg fun h => (Finset.ne_of_mem_erase htoken) h.2.symm,
      Nat.add_zero]
  rw [sharesAtOnce, sharesAtOnce, ← Finset.add_sum_erase _ _ hmem,
    ← Finset.add_sum_erase _ _ hmem, Finset.sum_congr rfl hother, hside]
  have hadd := sharesFor_add_le (p.ownBps r.feeToken) (spentOn poolId r.feeToken bought) fee
  omega

theorem sharesOf_le_atOnce (hpool : s.pools.lookup poolId = some p) (bought : List BuybackRecord)
    (hbought : ∀ r ∈ bought, Bought s r) :
    sharesOf poolId bought ≤ (sharesAtOnce p poolId bought : ℕ) := by
  induction bought using List.reverseRecOn with
  | nil => exact Int.natCast_nonneg _
  | append_singleton bought r ih =>
    have hold := ih fun q hq => hbought q (List.mem_append_left _ hq)
    obtain ⟨q, fee, hq, htrades, hfee, hshares⟩ := hbought r (by simp)
    rw [sharesOf] at hold
    rw [sharesOf, sum_filter_append_singleton]
    by_cases hid : r.poolId = poolId
    · obtain rfl := Option.some.inj (hpool.symm.trans (hid ▸ hq))
      have hnew := sharesAtOnce_append_singleton bought hid htrades hfee
      simp only [hid, decide_true, if_true, hshares]
      omega
    · have hsame : sharesAtOnce p poolId (bought ++ [r]) = sharesAtOnce p poolId bought := by
        unfold sharesAtOnce
        refine Finset.sum_congr rfl fun token _ => ?_
        rw [spentOn_append_singleton, if_neg fun h => hid h.1, Nat.add_zero]
      simp only [hid, decide_false, Bool.false_eq_true, if_false, hsame]
      omega

theorem sharesOf_eq_zero (hpool : s.pools.lookup poolId = none) (bought : List BuybackRecord)
    (hbought : ∀ r ∈ bought, Bought s r) : sharesOf poolId bought = 0 := by
  have hnone : bought.filter (·.poolId = poolId) = [] := by
    refine List.filter_eq_nil_iff.mpr fun r hr hid => ?_
    obtain ⟨q, _, hq, _⟩ := hbought r hr
    rw [of_decide_eq_true hid, hpool] at hq
    cases hq
  rw [sharesOf, hnone]
  rfl

end Splitting

end StellarFlow.Buyback
