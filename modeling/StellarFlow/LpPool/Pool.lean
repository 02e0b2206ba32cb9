import StellarFlow.Host

/-!
# The constant product pool

A pool of two assets with internal accounting only. The first deposit mints the integer
square root of the product of its amounts, a later one the smaller of two proportional
amounts. Withdrawals pay proportional amounts, and a swap keeps the product of the reserves.
-/
namespace StellarFlow.LpPool

open Foundation

inductive PoolError
  | notInitialized
  | alreadyInitialized
  | zeroAmount
  | insufficientShares
  | insufficientLiquidity
  | invalidToken
  | slippageExceeded
  | overflow
  deriving DecidableEq, Repr

abbrev PoolFault := Abort PoolError

structure PoolReserves where
  reserveA : ℤ
  reserveB : ℤ
  totalShares : ℤ
  deriving DecidableEq, Repr

/-- The keys written by the initialisation, all of them at once. -/
structure PoolConfig where
  tokenA : Address
  tokenB : Address
  reserves : PoolReserves
  deriving DecidableEq, Repr

structure PoolState where
  pool : Option PoolConfig
  userShares : Store Address ℤ

namespace PoolState

def empty : PoolState := ⟨none, ∅⟩

def readUserShares (s : PoolState) (user : Address) : ℤ := (s.userShares.lookup user).getD 0

end PoolState

/-- Newton's iteration from above, until it no longer decreases. -/
def isqrtLoop (value x y : ℕ) : ℕ :=
  if y < x then isqrtLoop value y ((y + value / y) / 2) else x
termination_by x

/-- Integer square root. The first sum overflows at the largest value of the type, the sums
of the loop never do. -/
def isqrt (value : ℤ) : Except PoolFault ℤ :=
  if value < 2 then pure (max value 0)
  else do
    let y ← arith (value + 1)
    pure (isqrtLoop value.toNat value.toNat (y / 2).toNat)

section Calls

variable {here : Address} (env : Env here)

def initializePool (tokenA tokenB : Address) (s : PoolState) : Except PoolFault PoolState := do
  failIf (s.pool.isSome = true) (.error .alreadyInitialized)
  pure { s with pool := some ⟨tokenA, tokenB, ⟨0, 0, 0⟩⟩ }

/-- A product divided with both operations checked. -/
def checkedMulDiv (x y d : ℤ) : Except PoolFault ℤ := do
  let product ← okOr (i128.check (x * y)) (.error .overflow)
  okOr (i128.checkedDiv product d) (.error .overflow)

def mintedShares (r : PoolReserves) (amountA amountB : ℤ) : Except PoolFault ℤ :=
  if r.totalShares = 0 then do
    let product ← okOr (i128.check (amountA * amountB)) (.error .overflow)
    isqrt product
  else do
    let sharesFromA ← checkedMulDiv amountA r.totalShares r.reserveA
    let sharesFromB ← checkedMulDiv amountB r.totalShares r.reserveB
    pure (min sharesFromA sharesFromB)

def deposit (user : Address) (amountA amountB : ℤ) (s : PoolState) :
    Except PoolFault (ℤ × PoolState) := do
  hostCall (env.requireAuth user)
  failIf (amountA ≤ 0 ∨ amountB ≤ 0) (.error .zeroAmount)
  let c ← okOr s.pool (.error .notInitialized)
  let minted ← mintedShares c.reserves amountA amountB
  failIf (minted ≤ 0) (.error .zeroAmount)
  let reserveA ← okOr (i128.check (c.reserves.reserveA + amountA)) (.error .overflow)
  let reserveB ← okOr (i128.check (c.reserves.reserveB + amountB)) (.error .overflow)
  let totalShares ← okOr (i128.check (c.reserves.totalShares + minted)) (.error .overflow)
  let newShares ← okOr (i128.check (s.readUserShares user + minted)) (.error .overflow)
  pure (minted, {
    pool := some { c with reserves := ⟨reserveA, reserveB, totalShares⟩ }
    userShares := s.userShares.insert user newShares })

def withdraw (user : Address) (shares : ℤ) (s : PoolState) :
    Except PoolFault ((ℤ × ℤ) × PoolState) := do
  hostCall (env.requireAuth user)
  failIf (shares ≤ 0) (.error .zeroAmount)
  let c ← okOr s.pool (.error .notInitialized)
  failIf (s.readUserShares user < shares) (.error .insufficientShares)
  let amountA ← checkedMulDiv c.reserves.reserveA shares c.reserves.totalShares
  let amountB ← checkedMulDiv c.reserves.reserveB shares c.reserves.totalShares
  failIf (amountA ≤ 0 ∨ amountB ≤ 0) (.error .zeroAmount)
  failIf (c.reserves.reserveA < amountA ∨ c.reserves.reserveB < amountB)
    (.error .insufficientLiquidity)
  let reserveA ← okOr (i128.check (c.reserves.reserveA - amountA)) (.error .overflow)
  let reserveB ← okOr (i128.check (c.reserves.reserveB - amountB)) (.error .overflow)
  let totalShares ← okOr (i128.check (c.reserves.totalShares - shares)) (.error .overflow)
  let remainingShares ← okOr (i128.check (s.readUserShares user - shares)) (.error .overflow)
  pure ((amountA, amountB), {
    pool := some { c with reserves := ⟨reserveA, reserveB, totalShares⟩ }
    userShares := s.userShares.insert user remainingShares })

/-- The reserves on the side paid in and on the side paid out, and whether the first asset is
paid in. -/
def swapSides (c : PoolConfig) (tokenIn : Address) : Except PoolFault (ℤ × ℤ × Bool) :=
  if tokenIn = c.tokenA then pure (c.reserves.reserveA, c.reserves.reserveB, true)
  else if tokenIn = c.tokenB then pure (c.reserves.reserveB, c.reserves.reserveA, false)
  else .error (.error .invalidToken)

def swap (user tokenIn : Address) (amountIn minAmountOut : ℤ) (s : PoolState) :
    Except PoolFault (ℤ × PoolState) := do
  hostCall (env.requireAuth user)
  failIf (amountIn ≤ 0) (.error .zeroAmount)
  let c ← okOr s.pool (.error .notInitialized)
  let (reserveIn, reserveOut, aIn) ← swapSides c tokenIn
  failIf (reserveIn ≤ 0 ∨ reserveOut ≤ 0) (.error .insufficientLiquidity)
  let newReserveIn ← okOr (i128.check (reserveIn + amountIn)) (.error .overflow)
  let numerator ← okOr (i128.check (reserveOut * amountIn)) (.error .overflow)
  let amountOut ← okOr (i128.checkedDiv numerator newReserveIn) (.error .overflow)
  failIf (amountOut ≤ 0) (.error .zeroAmount)
  failIf (minAmountOut ≤ 0) (.error .slippageExceeded)
  failIf (amountOut < minAmountOut) (.error .slippageExceeded)
  failIf (reserveOut < amountOut) (.error .insufficientLiquidity)
  let newReserveOut ← okOr (i128.check (reserveOut - amountOut)) (.error .overflow)
  let reserves : PoolReserves := if aIn then ⟨newReserveIn, newReserveOut, c.reserves.totalShares⟩
    else ⟨newReserveOut, newReserveIn, c.reserves.totalShares⟩
  pure (amountOut, { s with pool := some { c with reserves } })

end Calls

inductive PoolCall
  | initializePool (tokenA tokenB : Address)
  | deposit (user : Address) (amountA amountB : i128.Value)
  | withdraw (user : Address) (shares : i128.Value)
  | swap (user tokenIn : Address) (amountIn minAmountOut : i128.Value)

/-- A call together with the environment it runs in. -/
abbrev PoolStep (here : Address) := Env here × PoolCall

def poolStep {here : Address} (i : PoolStep here) (s : PoolState) : Except PoolFault PoolState :=
  match i.2 with
  | .initializePool tokenA tokenB => initializePool tokenA tokenB s
  | .deposit user amountA amountB => Prod.snd <$> deposit i.1 user amountA.1 amountB.1 s
  | .withdraw user shares => Prod.snd <$> withdraw i.1 user shares.1 s
  | .swap user tokenIn amountIn minAmountOut =>
    Prod.snd <$> swap i.1 user tokenIn amountIn.1 minAmountOut.1 s

end StellarFlow.LpPool
