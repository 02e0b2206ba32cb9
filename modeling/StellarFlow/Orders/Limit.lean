import StellarFlow.Host
import StellarFlow.Foundation.ShiftSort

/-!
# On-chain limit order book

The book of `orders/limit.rs` with its persistent entries. The order table holds
the order records under their composite key, the id index and the FIFO buckets per
price tick; the tick table holds the sorted lists of active ticks and the resting
volume per tick. Balances are what the owners may withdraw. Token balances of every
holder are part of the state because placing, filling and cancelling move escrow in
and out of the contract. Amounts are `i128` values, so every product and sum the
source checks is checked here as well.
-/
namespace StellarFlow.Orders

open Foundation

/-- Fixed-point scale of `priceTick`: units of the buy asset per unit of the sell asset. -/
def priceScale : ℤ := 10000000
def protocolFeeBps : ℤ := 30
def bpsScale : ℤ := 10000
/-- A remainder below this share of the original volume is dust. -/
def orderDustBps : ℤ := 100

structure AssetPair where
  sellAsset : Address
  buyAsset : Address
  deriving DecidableEq, Repr

inductive OrderSide
  | sell
  | buy
  deriving DecidableEq, Repr

structure LimitOrder where
  id : ℕ
  maker : Address
  pair : AssetPair
  sellAsset : Address
  buyAsset : Address
  side : OrderSide
  priceTick : ℤ
  amount : ℤ
  originalAmount : ℤ
  remainingAmount : ℤ
  filledAmount : ℤ
  createdAtLedger : ℕ
  /-- Expiry ledger sequence; zero means the order does not expire. -/
  expiry : ℕ
  active : Bool
  deriving DecidableEq, Repr

structure FillResult where
  orderId : ℕ
  filledAmount : ℤ
  paidAmount : ℤ
  remainingAmount : ℤ
  orderClosed : Bool
  deriving DecidableEq, Repr

/-- Bookkeeping outcome of applying a partial fill to a resting order. -/
structure FillUpdateOutcome where
  closed : Bool
  purged : Bool
  dustRemainingBase : ℤ
  dustRefund : ℤ
  deriving DecidableEq, Repr

structure SettlementResult where
  sellerOrderId : ℕ
  buyerOrderId : ℕ
  filledAmount : ℤ
  quoteAmount : ℤ
  sellerNetAmount : ℤ
  buyerNetAmount : ℤ
  quoteFeeAmount : ℤ
  baseFeeAmount : ℤ
  sellerOrderClosed : Bool
  buyerOrderClosed : Bool
  deriving DecidableEq, Repr

structure BatchCancelResult where
  cancelledCount : ℕ
  recoveredTotal : ℤ
  deriving DecidableEq, Repr

/-- One fill produced while sweeping the book by price/time priority. -/
structure TickMatchFill where
  orderId : ℕ
  maker : Address
  priceTick : ℤ
  filledAmount : ℤ
  paidAmount : ℤ
  tickVolumeAfter : ℤ
  deriving DecidableEq, Repr

structure TickMatchResult where
  filledAmount : ℤ
  totalPaid : ℤ
  fills : List TickMatchFill
  fullyFilled : Bool
  deriving DecidableEq, Repr

abbrev OrderKey := AssetPair × ℤ × ℕ

structure OrderTable where
  nextOrderId : ℕ
  orderIndex : Store ℕ (AssetPair × ℤ)
  orders : Store OrderKey LimitOrder
  buckets : Store (AssetPair × ℤ) (List ℕ)

structure TickTable where
  activeTicks : Store (AssetPair × Bool) (List ℤ)
  tickVolume : Store (AssetPair × ℤ × Bool) ℤ

structure Book where
  table : OrderTable
  ticks : TickTable
  balances : Store (Address × Address) ℤ
  tokens : Tokens

/-- The book before any order, over an arbitrary state of the token contracts. -/
def Book.empty (tokens : Tokens) : Book := ⟨⟨0, ∅, ∅, ∅⟩, ⟨∅, ∅⟩, ∅, tokens⟩

namespace LimitOrder

def key (o : LimitOrder) : OrderKey := (o.pair, o.priceTick, o.id)

def expired (o : LimitOrder) (sequence : ℕ) : Prop := o.expiry ≠ 0 ∧ sequence > o.expiry

instance (o : LimitOrder) (sequence : ℕ) : Decidable (o.expired sequence) :=
  inferInstanceAs (Decidable (_ ∧ _))

def isBid (o : LimitOrder) : Bool := o.side = .buy

/-- The asset an order escrows. -/
def escrowAsset (o : LimitOrder) : Address :=
  if o.side = .buy then o.pair.buyAsset else o.pair.sellAsset

end LimitOrder

def quoteAmount (baseAmount priceTick : ℤ) : Except Fault ℤ := do
  let product ← okOr (i128.check (baseAmount * priceTick)) ContractError.mathOverflow
  okOr (i128.checkedDiv product priceScale) ContractError.divisionByZero

def protocolFee (amount : ℤ) : Except Fault ℤ := do
  let product ← okOr (i128.check (amount * protocolFeeBps)) ContractError.mathOverflow
  okOr (i128.checkedDiv product bpsScale) ContractError.divisionByZero

/-- The escrow returned for an unfilled volume, both for dust and on cancellation: quote
for a buy order, the volume itself for a sell order. -/
def refundAmount (o : LimitOrder) (base : ℤ) : Except Fault ℤ :=
  if o.side = .buy then quoteAmount base o.priceTick else pure base

def assertFillRatioInvariant (priceTick baseAmount quoteAmount : ℤ) : Except Fault Unit := do
  let scaledBase ← okOr (i128.check (baseAmount * priceTick)) Fault.trap
  let scaledQuote ← okOr (i128.check (quoteAmount * priceScale)) Fault.trap
  failIf (scaledBase < scaledQuote) Fault.trap
  let residual ← okOr (i128.check (scaledBase - scaledQuote)) Fault.trap
  failIf (¬ residual < priceScale) Fault.trap

def assertVolumeInvariant (o : LimitOrder) : Except Fault Unit := do
  let expectedRemaining ← okOr (i128.check (o.originalAmount - o.filledAmount)) Fault.trap
  failIf (o.remainingAmount ≠ expectedRemaining) Fault.trap

def isDustRemainder (remainingAmount originalAmount : ℤ) : Except Fault Bool := do
  let left ← okOr (i128.check (remainingAmount * bpsScale)) Fault.trap
  let right ← okOr (i128.check (originalAmount * orderDustBps)) Fault.trap
  pure (left < right)

/-- Allocate an id; the increment of the `u64` counter traps on overflow. -/
def nextOrderId (t : OrderTable) : Except Fault (ℕ × OrderTable) := do
  let next ← okOr (checkBits 64 (t.nextOrderId + 1)) Fault.trap
  pure (t.nextOrderId, { t with nextOrderId := next })

namespace OrderTable

def loadOrder (orderId : ℕ) (t : OrderTable) : Except Fault LimitOrder := do
  let index ← okOr (t.orderIndex.lookup orderId) ContractError.orderNotFound
  okOr (t.orders.lookup (index.1, index.2, orderId)) ContractError.orderNotFound

def saveOrder (o : LimitOrder) (t : OrderTable) : OrderTable :=
  { t with
    orders := t.orders.insert o.key o
    orderIndex := t.orderIndex.insert o.id (o.pair, o.priceTick) }

/-- Remove both storage records of an order. -/
def removeOrder (k : OrderKey) (t : OrderTable) : OrderTable :=
  { t with
    orders := t.orders.erase k
    orderIndex := t.orderIndex.erase k.2.2 }

def getOrdersAtTick (pair : AssetPair) (priceTick : ℤ) (t : OrderTable) : List ℕ :=
  (t.buckets.lookup (pair, priceTick)).getD []

def bucketPush (pair : AssetPair) (priceTick : ℤ) (orderId : ℕ) (t : OrderTable) : OrderTable :=
  { t with
    buckets := t.buckets.insert (pair, priceTick) (t.getOrdersAtTick pair priceTick ++ [orderId]) }

def bucketRemove (pair : AssetPair) (priceTick : ℤ) (orderId : ℕ) (t : OrderTable) :
    OrderTable :=
  match t.buckets.lookup (pair, priceTick) with
  | none => t
  | some bucket =>
    let updated := bucket.filter (· ≠ orderId)
    if updated = [] then { t with buckets := t.buckets.erase (pair, priceTick) }
    else { t with buckets := t.buckets.insert (pair, priceTick) updated }

/-- Store the outcome of a fill: a dust remainder is delisted and purged, a closed order is
delisted and kept as a record, and any other order is stored in its place. -/
def storeFill (outcome : FillUpdateOutcome) (order : LimitOrder) (t : OrderTable) : OrderTable :=
  let delisted := t.bucketRemove order.pair order.priceTick order.id
  if outcome.purged then delisted.removeOrder order.key
  else if outcome.closed then delisted.saveOrder order
  else t.saveOrder order

end OrderTable

/-- Whether the first tick ranks strictly ahead of the second on a side of the book:
bids from the highest price down, asks from the lowest price up. -/
def tickBefore (isBid : Bool) (x y : ℤ) : Bool := if isBid then y < x else x < y

/-- The insertion sort of the active ticks, one loop body per side. -/
def sortTicks (isBid : Bool) (ticks : List ℤ) : List ℤ := shiftSort (tickBefore isBid) ticks

namespace TickTable

def getTickVolume (pair : AssetPair) (priceTick : ℤ) (isBid : Bool) (t : TickTable) : ℤ :=
  (t.tickVolume.lookup (pair, priceTick, isBid)).getD 0

def getActiveTicks (pair : AssetPair) (isBid : Bool) (t : TickTable) : List ℤ :=
  (t.activeTicks.lookup (pair, isBid)).getD []

def addTickLiquidity (pair : AssetPair) (priceTick amount : ℤ) (isBid : Bool) (t : TickTable) :
    Except Fault TickTable :=
  if amount ≤ 0 then pure t
  else do
    let currentVol := t.getTickVolume pair priceTick isBid
    let newVol ← okOr (i128.check (currentVol + amount)) Fault.trap
    let tickVolume := t.tickVolume.insert (pair, priceTick, isBid) newVol
    if currentVol = 0 then
      let ticks := sortTicks isBid (t.getActiveTicks pair isBid ++ [priceTick])
      pure { tickVolume, activeTicks := t.activeTicks.insert (pair, isBid) ticks }
    else pure { t with tickVolume }

def removeTickLiquidity (pair : AssetPair) (priceTick amount : ℤ) (isBid : Bool)
    (t : TickTable) : TickTable :=
  if amount ≤ 0 then t
  else
    let currentVol := t.getTickVolume pair priceTick isBid
    let newVol := if currentVol ≤ amount then 0 else currentVol - amount
    if newVol = 0 then
      let tickVolume := t.tickVolume.erase (pair, priceTick, isBid)
      match t.activeTicks.lookup (pair, isBid) with
      | none => { t with tickVolume }
      | some ticks =>
        let updated := ticks.filter (· ≠ priceTick)
        if updated = [] then { tickVolume, activeTicks := t.activeTicks.erase (pair, isBid) }
        else { tickVolume, activeTicks := t.activeTicks.insert (pair, isBid) updated }
    else { t with tickVolume := t.tickVolume.insert (pair, priceTick, isBid) newVol }

end TickTable

namespace Book

/-- The token contracts move an amount, or the whole call fails. -/
def transfer {here : Address} (env : Env here) (token src dst : Address) (amount : ℤ)
    (b : Book) : Except Fault Book := do
  let tokens ← env.transfer token src dst amount b.tokens
  pure { b with tokens }

def getBalance (owner asset : Address) (b : Book) : ℤ :=
  (b.balances.lookup (owner, asset)).getD 0

def creditBalance (owner asset : Address) (amount : ℤ) (b : Book) : Except Fault Book :=
  if amount = 0 then pure b
  else do
    let updated ← okOr (i128.check (b.getBalance owner asset + amount))
      ContractError.mathOverflow
    pure { b with balances := b.balances.insert (owner, asset) updated }

def debitBalance (owner asset : Address) (amount : ℤ) (b : Book) : Except Fault Book := do
  let current := b.getBalance owner asset
  failIf (amount > current) ContractError.bridgeInsufficientBalance
  let updated ← okOr (i128.check (current - amount)) ContractError.mathOverflow
  if updated = 0 then pure { b with balances := b.balances.erase (owner, asset) }
  else pure { b with balances := b.balances.insert (owner, asset) updated }

def loadOrder (orderId : ℕ) (b : Book) : Except Fault LimitOrder := b.table.loadOrder orderId

def getOrdersAtTick (pair : AssetPair) (priceTick : ℤ) (b : Book) : List ℕ :=
  b.table.getOrdersAtTick pair priceTick

def getTickVolume (pair : AssetPair) (priceTick : ℤ) (isBid : Bool) (b : Book) : ℤ :=
  b.ticks.getTickVolume pair priceTick isBid

def removeTickLiquidity (pair : AssetPair) (priceTick amount : ℤ) (isBid : Bool) (b : Book) :
    Book :=
  { b with ticks := b.ticks.removeTickLiquidity pair priceTick amount isBid }

end Book

/-- The order and the outcome of `applyPartialFill`, before anything is stored. -/
def fillUpdate (order : LimitOrder) (fillAmount : ℤ) :
    Except Fault (FillUpdateOutcome × LimitOrder) := do
  let newRemaining ← okOr (i128.check (order.remainingAmount - fillAmount))
    ContractError.mathOverflow
  let newFilled ← okOr (i128.check (order.filledAmount + fillAmount)) ContractError.mathOverflow
  let filled := { order with
    remainingAmount := newRemaining, amount := newRemaining, filledAmount := newFilled }
  assertVolumeInvariant filled
  if filled.remainingAmount = 0 then
    pure (⟨true, false, 0, 0⟩, { filled with active := false })
  else do
    let dust ← isDustRemainder filled.remainingAmount filled.originalAmount
    if dust then do
      let refund ← refundAmount filled filled.remainingAmount
      pure (⟨true, true, filled.remainingAmount, refund⟩,
        { filled with remainingAmount := 0, amount := 0, active := false })
    else pure (⟨false, false, 0, 0⟩, filled)

namespace Book

def applyPartialFill (order : LimitOrder) (fillAmount : ℤ) (b : Book) :
    Except Fault (FillUpdateOutcome × LimitOrder × Book) := do
  let (outcome, updated) ← fillUpdate order fillAmount
  pure (outcome, updated, { b with table := b.table.storeFill outcome updated })

/-- Return unfilled escrow to the maker in the asset the order had escrowed. -/
def refundEscrow {here : Address} (env : Env here) (order : LimitOrder) (refund : ℤ) (b : Book) :
    Except Fault Book :=
  if refund > 0 then b.transfer env order.escrowAsset here order.maker refund else pure b

/-- Credit a dust remainder to the maker's internal balance. -/
def creditDust (maker asset : Address) (refund : ℤ) (b : Book) : Except Fault Book :=
  if refund > 0 then b.creditBalance maker asset refund else pure b

end Book

section Calls

variable {here : Address} (env : Env here)

/-- Both placement entry points store the new order, list it in its bucket and add its
volume to the tick; they differ in the side and in what was locked before. -/
def restOrder (maker : Address) (pair : AssetPair) (side : OrderSide) (priceTick amount : ℤ)
    (expiry : ℕ) (b : Book) : Except Fault (LimitOrder × Book) := do
  let (id, table) ← nextOrderId b.table
  let order : LimitOrder := {
    id, maker, pair, sellAsset := pair.sellAsset, buyAsset := pair.buyAsset, side, priceTick
    amount, originalAmount := amount, remainingAmount := amount, filledAmount := 0
    createdAtLedger := env.sequence, expiry, active := true }
  let table := (table.saveOrder order).bucketPush pair priceTick order.id
  let ticks ← b.ticks.addTickLiquidity pair priceTick amount (side = .buy)
  pure (order, { b with table, ticks })

def placeOrderWithExpiry (maker : Address) (pair : AssetPair) (priceTick sellAmount : ℤ)
    (expiry : ℕ) (b : Book) : Except Fault (LimitOrder × Book) := do
  failIf (sellAmount ≤ 0) ContractError.orderZeroAmount
  failIf (priceTick ≤ 0) ContractError.orderInvalidPrice
  env.requireAuth maker
  let b ← b.transfer env pair.sellAsset maker here sellAmount
  restOrder env maker pair .sell priceTick sellAmount expiry b

def placeOrder (maker : Address) (pair : AssetPair) (priceTick sellAmount : ℤ) (b : Book) :
    Except Fault (LimitOrder × Book) :=
  placeOrderWithExpiry env maker pair priceTick sellAmount 0 b

def placeBuyOrder (maker : Address) (pair : AssetPair) (priceTick buyAmount : ℤ) (b : Book) :
    Except Fault (LimitOrder × Book) := do
  failIf (buyAmount ≤ 0) ContractError.orderZeroAmount
  failIf (priceTick ≤ 0) ContractError.orderInvalidPrice
  env.requireAuth maker
  let lockedQuote ← quoteAmount buyAmount priceTick
  let b ← b.transfer env pair.buyAsset maker here lockedQuote
  restOrder env maker pair .buy priceTick buyAmount 0 b

/-- The filler pays the maker in the buy asset and receives the sell asset from escrow.
The side of the order is not looked at. -/
def fillOrder (filler : Address) (orderId : ℕ) (fillAmount : ℤ) (b : Book) :
    Except Fault (FillResult × Book) := do
  failIf (fillAmount ≤ 0) ContractError.orderZeroAmount
  env.requireAuth filler
  let order ← b.loadOrder orderId
  failIf (¬ order.active) ContractError.orderAlreadyClosed
  failIf (order.expired env.sequence) ContractError.orderAlreadyClosed
  failIf (fillAmount > order.remainingAmount) ContractError.orderInsufficientRemaining
  let paidAmount ← quoteAmount fillAmount order.priceTick
  assertFillRatioInvariant order.priceTick fillAmount paidAmount
  let b ← b.transfer env order.pair.buyAsset filler order.maker paidAmount
  let b ← b.transfer env order.pair.sellAsset here filler fillAmount
  let (outcome, order, b) ← b.applyPartialFill order fillAmount
  let b ← b.refundEscrow env order outcome.dustRefund
  let tickDelta ← okOr (i128.check (fillAmount + outcome.dustRemainingBase)) Fault.trap
  let b := b.removeTickLiquidity order.pair order.priceTick tickDelta order.isBid
  pure (⟨order.id, fillAmount, paidAmount, order.remainingAmount, outcome.closed⟩, b)

/-- The amounts a match of two crossed orders settles at. -/
structure Settlement where
  quotePaid : ℤ
  priceImprovement : ℤ
  quoteFee : ℤ
  baseFee : ℤ
  sellerNet : ℤ
  buyerNet : ℤ
  deriving DecidableEq, Repr

def settlement (seller buyer : LimitOrder) (fillAmount : ℤ) : Except Fault Settlement := do
  let quotePaid ← quoteAmount fillAmount seller.priceTick
  let buyerLockedQuote ← quoteAmount fillAmount buyer.priceTick
  let priceImprovement ← okOr (i128.check (buyerLockedQuote - quotePaid))
    ContractError.mathOverflow
  assertFillRatioInvariant seller.priceTick fillAmount quotePaid
  let quoteFee ← protocolFee quotePaid
  let baseFee ← protocolFee fillAmount
  let sellerNet ← okOr (i128.check (quotePaid - quoteFee)) ContractError.mathOverflow
  let buyerNet ← okOr (i128.check (fillAmount - baseFee)) ContractError.mathOverflow
  pure { quotePaid, priceImprovement, quoteFee, baseFee, sellerNet, buyerNet }

/-- Credit the protocol fees when a treasury is configured; without one they stay in the
contract unassigned. -/
def creditFees (pair : AssetPair) (quoteFee baseFee : ℤ) (b : Book) : Except Fault Book :=
  match env.treasury with
  | none => pure b
  | some treasury => do
    let b ← b.creditBalance treasury pair.buyAsset quoteFee
    b.creditBalance treasury pair.sellAsset baseFee

/-- Settle a sell order against a buy order whose price crosses it. -/
def matchOrders (sellerOrderId buyerOrderId : ℕ) (fillAmount : ℤ) (b : Book) :
    Except Fault (SettlementResult × Book) := do
  failIf (fillAmount ≤ 0) ContractError.orderZeroAmount
  let seller ← b.loadOrder sellerOrderId
  let buyer ← b.loadOrder buyerOrderId
  failIf (¬ seller.active ∨ ¬ buyer.active) ContractError.orderAlreadyClosed
  failIf (seller.side ≠ .sell ∨ buyer.side ≠ .buy) ContractError.orderSideMismatch
  failIf (seller.pair ≠ buyer.pair) ContractError.orderPairMismatch
  failIf (buyer.priceTick < seller.priceTick) ContractError.orderPriceNotCrossed
  failIf (fillAmount > seller.remainingAmount ∨ fillAmount > buyer.remainingAmount)
    ContractError.orderInsufficientRemaining
  let amounts ← settlement seller buyer fillAmount
  let (sellerOutcome, seller, b) ← b.applyPartialFill seller fillAmount
  let (buyerOutcome, buyer, b) ← b.applyPartialFill buyer fillAmount
  let b ← b.creditBalance seller.maker seller.pair.buyAsset amounts.sellerNet
  let b ← b.creditBalance buyer.maker buyer.pair.sellAsset amounts.buyerNet
  let b ← b.creditBalance buyer.maker buyer.pair.buyAsset amounts.priceImprovement
  let b ← b.creditDust seller.maker seller.pair.sellAsset sellerOutcome.dustRefund
  let b ← b.creditDust buyer.maker buyer.pair.buyAsset buyerOutcome.dustRefund
  let b ← creditFees env seller.pair amounts.quoteFee amounts.baseFee b
  pure (⟨seller.id, buyer.id, fillAmount, amounts.quotePaid, amounts.sellerNet, amounts.buyerNet,
    amounts.quoteFee, amounts.baseFee, sellerOutcome.closed, buyerOutcome.closed⟩, b)

/-- Cancel an open order, returning its unfilled escrow to the maker. -/
def cancelOrderInner (maker : Address) (orderId : ℕ) (b : Book) : Except Fault (ℤ × Book) := do
  let order ← b.loadOrder orderId
  failIf (order.maker ≠ maker) ContractError.orderNotMaker
  failIf (¬ order.active) ContractError.orderAlreadyClosed
  let remainingBase := order.remainingAmount
  let recovered ← refundAmount order remainingBase
  let order := { order with remainingAmount := 0, amount := 0, active := false }
  let delisted := b.table.bucketRemove order.pair order.priceTick order.id
  let b := { b with table := delisted.saveOrder order }
  let b := b.removeTickLiquidity order.pair order.priceTick remainingBase order.isBid
  let b ← b.refundEscrow env order recovered
  pure (recovered, b)

def cancelOrder (maker : Address) (orderId : ℕ) (b : Book) : Except Fault (ℤ × Book) := do
  env.requireAuth maker
  cancelOrderInner env maker orderId b

/-- The loop of the batch cancel: count, recovered total and book so far. -/
def cancelLoop (maker : Address) :
    List ℕ → BatchCancelResult → Book → Except Fault (BatchCancelResult × Book)
  | [], r, b => pure (r, b)
  | orderId :: orderIds, r, b => do
    let (recovered, b) ← cancelOrderInner env maker orderId b
    let recoveredTotal ← okOr (i128.check (r.recoveredTotal + recovered))
      ContractError.mathOverflow
    let cancelledCount ← okOr (checkBits 32 (r.cancelledCount + 1)) ContractError.overflow
    cancelLoop maker orderIds ⟨cancelledCount, recoveredTotal⟩ b

def cancelOrdersBatch (maker : Address) (orderIds : List ℕ) (b : Book) :
    Except Fault (BatchCancelResult × Book) := do
  env.requireAuth maker
  cancelLoop env maker orderIds ⟨0, 0⟩ b

def withdrawBalance (owner asset : Address) (amount : ℤ) (b : Book) : Except Fault (ℤ × Book) := do
  failIf (amount ≤ 0) ContractError.orderZeroAmount
  env.requireAuth owner
  let b ← b.debitBalance owner asset amount
  let b ← b.transfer env asset here owner amount
  pure (amount, b)

/-- The part of a purge iteration that reads the current layout. -/
def purgeRecord (orderId : ℕ) (t : OrderTable) : Bool × OrderTable :=
  match t.orderIndex.lookup orderId with
  | none => (false, t)
  | some index =>
    match t.orders.lookup (index.1, index.2, orderId) with
    | none => (true, { t with orderIndex := t.orderIndex.erase orderId })
    | some order =>
      if ¬ order.active ∨ order.remainingAmount = 0 then
        (true, (t.bucketRemove index.1 index.2 orderId).removeOrder (index.1, index.2, orderId))
      else (false, t)

/-- One iteration of the purge. An index entry still present at the second read is decoded
as an order record, which traps: the entry holds a pair and a tick. -/
def purgeClosedOrder (orderId : ℕ) (t : OrderTable) : Except Fault (Bool × OrderTable) := do
  let (wasPurged, t) := purgeRecord orderId t
  failIf ((t.orderIndex.lookup orderId).isSome) Fault.trap
  pure (wasPurged, t)

def countPurged (wasPurged : Bool) (purged : ℕ) : Except Fault ℕ :=
  if wasPurged then okOr (checkBits 32 (purged + 1)) Fault.trap else pure purged

def purgeLoop : List ℕ → ℕ → OrderTable → Except Fault (ℕ × OrderTable)
  | [], purged, t => pure (purged, t)
  | orderId :: orderIds, purged, t => do
    let (wasPurged, t) ← purgeClosedOrder orderId t
    let purged ← countPurged wasPurged purged
    purgeLoop orderIds purged t

def purgeClosedOrders (orderIds : List ℕ) (b : Book) : Except Fault (ℕ × Book) := do
  let (purged, table) ← purgeLoop orderIds 0 b.table
  pure (purged, { b with table })

/-- Progress of a market order: the book, the amount still wanted, and the fills so far. -/
structure Sweep where
  book : Book
  remaining : ℤ
  totalPaid : ℤ
  fills : List TickMatchFill

variable (taker : Address) (isBuy : Bool) (pair : AssetPair)

/-- The taker pays the maker and receives the escrowed asset from the contract. -/
def exchange (order : LimitOrder) (fillQty paid : ℤ) (b : Book) : Except Fault Book :=
  if isBuy then do
    let b ← b.transfer env order.pair.buyAsset taker order.maker paid
    b.transfer env order.pair.sellAsset here taker fillQty
  else do
    let b ← b.transfer env order.pair.sellAsset taker order.maker fillQty
    b.transfer env order.pair.buyAsset here taker paid

/-- Trade against one eligible resting order. -/
def settleFill (priceTick : ℤ) (order : LimitOrder) (s : Sweep) : Except Fault Sweep := do
  let fillQty := if s.remaining < order.remainingAmount then s.remaining else order.remainingAmount
  let paid ← quoteAmount fillQty order.priceTick
  assertFillRatioInvariant order.priceTick fillQty paid
  let b ← exchange env taker isBuy order fillQty paid s.book
  let (outcome, order, b) ← b.applyPartialFill order fillQty
  let b ← b.refundEscrow env order outcome.dustRefund
  let tickDelta ← okOr (i128.check (fillQty + outcome.dustRemainingBase)) Fault.trap
  let b := b.removeTickLiquidity pair priceTick tickDelta (!isBuy)
  let fill : TickMatchFill := {
    orderId := order.id, maker := order.maker, priceTick, filledAmount := fillQty
    paidAmount := paid, tickVolumeAfter := b.getTickVolume pair priceTick (!isBuy) }
  let remaining ← okOr (i128.check (s.remaining - fillQty)) ContractError.mathOverflow
  let totalPaid ← okOr (i128.check (s.totalPaid + paid)) ContractError.mathOverflow
  pure ⟨b, remaining, totalPaid, s.fills ++ [fill]⟩

/-- The body of the inner loop: orders that are gone, closed, expired or on the other side
of the book are passed over. -/
def visitOrder (priceTick : ℤ) (orderId : ℕ) (s : Sweep) : Except Fault Sweep :=
  match s.book.loadOrder orderId with
  | .error _ => pure s
  | .ok order =>
    if ¬ order.active ∨ order.remainingAmount ≤ 0 then pure s
    else if order.expired env.sequence then pure s
    else if order.isBid = isBuy then pure s
    else settleFill env taker isBuy pair priceTick order s

def sweepBucket (priceTick : ℤ) : List ℕ → Sweep → Except Fault Sweep
  | [], s => pure s
  | orderId :: orderIds, s =>
    if s.remaining = 0 then pure s
    else do
      let s ← visitOrder env taker isBuy pair priceTick orderId s
      sweepBucket priceTick orderIds s

def sweepTicks : List ℤ → Sweep → Except Fault Sweep
  | [], s => pure s
  | priceTick :: ticks, s =>
    if s.remaining = 0 then pure s
    else do
      let s ← sweepBucket env taker isBuy pair priceTick (s.book.getOrdersAtTick pair priceTick) s
      sweepTicks ticks s

/-- Match a market order against the resting orders of the opposite side. -/
def matchMarketOrder (amount : ℤ) (b : Book) : Except Fault (TickMatchResult × Book) := do
  failIf (amount ≤ 0) ContractError.orderZeroAmount
  env.requireAuth taker
  let s ← sweepTicks env taker isBuy pair (b.ticks.getActiveTicks pair (!isBuy))
    ⟨b, amount, 0, []⟩
  failIf (s.fills = []) ContractError.insufficientLiquidityDepth
  let filledAmount ← okOr (i128.check (amount - s.remaining)) ContractError.mathOverflow
  pure (⟨filledAmount, s.totalPaid, s.fills, s.remaining = 0⟩, s.book)

end Calls

/-- The state-changing entry points of the book. -/
inductive BookCall
  | placeOrderWithExpiry (maker : Address) (pair : AssetPair) (priceTick sellAmount : ℤ)
      (expiry : ℕ)
  | placeBuyOrder (maker : Address) (pair : AssetPair) (priceTick buyAmount : ℤ)
  | fillOrder (filler : Address) (orderId : ℕ) (fillAmount : ℤ)
  | matchOrders (sellerOrderId buyerOrderId : ℕ) (fillAmount : ℤ)
  | matchMarketOrder (taker : Address) (pair : AssetPair) (amount : ℤ) (isBuy : Bool)
  | cancelOrder (maker : Address) (orderId : ℕ)
  | cancelOrdersBatch (maker : Address) (orderIds : List ℕ)
  | withdrawBalance (owner asset : Address) (amount : ℤ)
  | purgeClosedOrders (orderIds : List ℕ)
  deriving DecidableEq, Repr

/-- The book after a successful call. -/
def BookCall.exec {here : Address} (env : Env here) (b : Book) : BookCall → Except Fault Book
  | .placeOrderWithExpiry maker pair priceTick sellAmount expiry =>
    Prod.snd <$> Orders.placeOrderWithExpiry env maker pair priceTick sellAmount expiry b
  | .placeBuyOrder maker pair priceTick buyAmount =>
    Prod.snd <$> Orders.placeBuyOrder env maker pair priceTick buyAmount b
  | .fillOrder filler orderId fillAmount =>
    Prod.snd <$> Orders.fillOrder env filler orderId fillAmount b
  | .matchOrders sellerOrderId buyerOrderId fillAmount =>
    Prod.snd <$> Orders.matchOrders env sellerOrderId buyerOrderId fillAmount b
  | .matchMarketOrder taker pair amount isBuy =>
    Prod.snd <$> Orders.matchMarketOrder env taker isBuy pair amount b
  | .cancelOrder maker orderId => Prod.snd <$> Orders.cancelOrder env maker orderId b
  | .cancelOrdersBatch maker orderIds =>
    Prod.snd <$> Orders.cancelOrdersBatch env maker orderIds b
  | .withdrawBalance owner asset amount =>
    Prod.snd <$> Orders.withdrawBalance env owner asset amount b
  | .purgeClosedOrders orderIds => Prod.snd <$> Orders.purgeClosedOrders orderIds b

/-- A call together with the environment it runs in. -/
abbrev BookStep (here : Address) := Env here × BookCall

def bookStep {here : Address} (i : BookStep here) (b : Book) : Except Fault Book := i.2.exec i.1 b

end StellarFlow.Orders
