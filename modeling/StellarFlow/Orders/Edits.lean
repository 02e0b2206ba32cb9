import StellarFlow.Orders.Fill
import StellarFlow.Orders.Table
import StellarFlow.Orders.Ticks

/-!
# Edits of the book

A successful call changes the book by a sequence of edits: an order is placed, traded
against, matched, cancelled or purged, or a balance is withdrawn. Each edit says what
happens to the order table, to the tick table, to the balances and to what the contract
holds of every token. `exec_edits` is the only place where the entry points are taken
apart; every invariant of the book is then a statement about single edits.
-/
namespace StellarFlow.Orders

open Foundation

/-- The contract's own holding of a token. -/
def Book.held (here token : Address) (b : Book) : ℤ := b.tokens token here

/-- Sum of all withdrawable balances in a token. -/
def Book.owed (token : Address) (b : Book) : ℤ :=
  Store.total (fun k v => if k.2 = token then v else 0) b.balances

/-- The records fit together and every stored order is sound. -/
structure Book.WellFormed (here : Address) (b : Book) : Prop where
  indexed : b.table.Indexed
  sound : ∀ k o, b.table.orders.lookup k = some o → o.Sound here

/-- The order is stored and open. -/
structure Book.Open (b : Book) (o : LimitOrder) : Prop where
  stored : b.table.orders.lookup o.key = some o
  active : o.active = true

section Kinds

variable (here : Address) (b b' : Book)

structure Place (o : LimitOrder) : Prop where
  id_eq : o.id = b.table.nextOrderId
  sound : o.Sound here
  active : o.active = true
  filled_eq : o.filledAmount = 0
  table_eq : b'.table = ({ b.table with nextOrderId := b.table.nextOrderId + 1 }.saveOrder
    o).bucketPush o.pair o.priceTick o.id
  ticks_eq : b.ticks.addTickLiquidity o.pair o.priceTick o.remainingAmount o.isBid = .ok b'.ticks
  balances_eq : b'.balances = b.balances
  held_eq : ∀ T, b'.held here T = b.held here T + if T = o.escrowAsset then o.escrow else 0

/-- A taker trades against an order and is paid out of the contract. -/
structure Trade (o : LimitOrder) (q : ℤ) (out : FillUpdateOutcome) (o' : LimitOrder)
    (paidAsset : Address) (paid : ℤ) : Prop where
  is_open : b.Open o
  pos : 0 < q
  le : q ≤ o.remainingAmount
  fill : fillUpdate o q = .ok (out, o')
  table_eq : b'.table = b.table.storeFill out o'
  ticks_eq : b'.ticks = b.ticks.removeTickLiquidity o.pair o.priceTick
    (q + out.dustRemainingBase) o.isBid
  balances_eq : b'.balances = b.balances
  held_eq : ∀ T, b'.held here T = b.held here T - (if T = paidAsset then paid else 0) -
    if T = o.escrowAsset then out.dustRefund else 0

/-- A sell order and a buy order are matched inside the contract. -/
structure Match (treasury : Option Address) (seller buyer : LimitOrder) (q : ℤ)
    (sellerOut buyerOut : FillUpdateOutcome) (seller' buyer' : LimitOrder)
    (amounts : Settlement) : Prop where
  seller_open : b.Open seller
  buyer_open : b.Open buyer
  seller_side : seller.side = .sell
  buyer_side : buyer.side = .buy
  pair_eq : seller.pair = buyer.pair
  crossed : seller.priceTick ≤ buyer.priceTick
  pos : 0 < q
  le_seller : q ≤ seller.remainingAmount
  le_buyer : q ≤ buyer.remainingAmount
  amounts_eq : settlement seller buyer q = .ok amounts
  seller_fill : fillUpdate seller q = .ok (sellerOut, seller')
  buyer_fill : fillUpdate buyer q = .ok (buyerOut, buyer')
  table_eq : b'.table = (b.table.storeFill sellerOut seller').storeFill buyerOut buyer'
  ticks_eq : b'.ticks = b.ticks
  owed_eq : ∀ T, b'.owed T = b.owed T +
    (if T = seller.pair.buyAsset then amounts.sellerNet + amounts.priceImprovement +
      buyerOut.dustRefund + (if treasury.isSome then amounts.quoteFee else 0) else 0) +
    (if T = seller.pair.sellAsset then amounts.buyerNet + sellerOut.dustRefund +
      (if treasury.isSome then amounts.baseFee else 0) else 0)
  held_eq : ∀ T, b'.held here T = b.held here T

/-- An order as it is stored after cancellation. -/
def LimitOrder.cancelled (o : LimitOrder) : LimitOrder :=
  { o with remainingAmount := 0, amount := 0, active := false }

structure Cancel (o : LimitOrder) : Prop where
  is_open : b.Open o
  table_eq : b'.table = b.table.storeFill ⟨true, false, 0, 0⟩ o.cancelled
  ticks_eq : b'.ticks = b.ticks.removeTickLiquidity o.pair o.priceTick o.remainingAmount o.isBid
  balances_eq : b'.balances = b.balances
  held_eq : ∀ T, b'.held here T = b.held here T - if T = o.escrowAsset then o.escrow else 0

structure Withdraw (asset : Address) (amount : ℤ) : Prop where
  table_eq : b'.table = b.table
  ticks_eq : b'.ticks = b.ticks
  owed_eq : ∀ T, b'.owed T = b.owed T - if T = asset then amount else 0
  held_eq : ∀ T, b'.held here T = b.held here T - if T = asset then amount else 0

/-- The record of a closed order is removed. -/
structure Purge (o : LimitOrder) : Prop where
  stored : b.table.orders.lookup o.key = some o
  closed : o.active = false
  table_eq : b'.table = (b.table.bucketRemove o.pair o.priceTick o.id).removeOrder o.key
  ticks_eq : b'.ticks = b.ticks
  balances_eq : b'.balances = b.balances
  held_eq : ∀ T, b'.held here T = b.held here T

end Kinds

/-- The call places an order. -/
def BookCall.Places : BookCall → Prop
  | .placeOrderWithExpiry .. => True
  | .placeBuyOrder .. => True
  | _ => False

/-- The call asks for the cancellation of the order with this id. -/
def BookCall.Cancels (id : ℕ) : BookCall → Prop
  | .cancelOrder _ orderId => orderId = id
  | .cancelOrdersBatch _ orderIds => id ∈ orderIds
  | _ => False

/-- One edit, together with the call that makes it. -/
inductive Edit {here : Address} (env : Env here) : BookCall → Book → Book → Prop
  | place {call : BookCall} {b b' : Book} {o : LimitOrder} (hcall : call.Places)
      (h : Place here b b' o) : Edit env call b b'
  | fill {b b' : Book} (filler : Address) {o o' : LimitOrder} {q : ℤ} {out : FillUpdateOutcome}
      (hexp : ¬ o.expired env.sequence) (h : Trade here b b' o q out o' o.pair.sellAsset q) :
      Edit env (.fillOrder filler o.id q) b b'
  | trade {b b' : Book} (taker : Address) (pair : AssetPair) (amount : ℤ) (isBuy : Bool)
      {o o' : LimitOrder} {q : ℤ} {out : FillUpdateOutcome} (hexp : ¬ o.expired env.sequence)
      (h : Trade here b b' o q out o' o.escrowAsset (o.escrowFor q)) :
      Edit env (.matchMarketOrder taker pair amount isBuy) b b'
  | settle {b b' : Book} {seller buyer seller' buyer' : LimitOrder} {q : ℤ}
      {sellerOut buyerOut : FillUpdateOutcome} {amounts : Settlement}
      (h : Match here b b' env.treasury seller buyer q sellerOut buyerOut seller' buyer' amounts) :
      Edit env (.matchOrders seller.id buyer.id q) b b'
  | cancel {call : BookCall} {b b' : Book} {o : LimitOrder} (hcall : call.Cancels o.id)
      (h : Cancel here b b' o) : Edit env call b b'
  | withdraw {b b' : Book} (owner asset : Address) (amount : ℤ)
      (h : Withdraw here b b' asset amount) : Edit env (.withdrawBalance owner asset amount) b b'
  | purge {b b' : Book} (orderIds : List ℕ) {o : LimitOrder} (h : Purge here b b' o) :
      Edit env (.purgeClosedOrders orderIds) b b'

section Preservation

variable {here : Address} {env : Env here} {b b' : Book} {call : BookCall}

theorem Book.WellFormed.empty (tokens : Tokens) : (Book.empty tokens).WellFormed here :=
  ⟨OrderTable.Indexed.empty, by simp [Book.empty]⟩

/-- Only the order table matters. -/
theorem Book.WellFormed.of_table (hw : b.WellFormed here) (h : b'.table = b.table) :
    b'.WellFormed here :=
  ⟨h ▸ hw.indexed, fun k o hk => hw.sound k o (h ▸ hk)⟩

theorem Book.Open.sound {o : LimitOrder} (h : b.Open o) (hw : b.WellFormed here) :
    o.Sound here :=
  hw.sound _ o h.stored

/-- Storing a filled version of an open order keeps a well-formed table. -/
theorem wellFormed_storeFill (hw : b.WellFormed here) {o o' : LimitOrder}
    {out : FillUpdateOutcome} (ho : b.Open o) (hk : o'.key = o.key)
    (ha : o'.active = !out.closed) (hs : o'.Sound here)
    (ht : b'.table = b.table.storeFill out o') : b'.WellFormed here := by
  refine ⟨ht ▸ hw.indexed.storeFill ho.stored hk ho.active ha, fun k r hr => ?_⟩
  rw [ht, OrderTable.storeFill_lookup] at hr
  split_ifs at hr
  · cases hr; exact hs
  · exact hw.sound k r hr

theorem Place.wellFormed {o : LimitOrder} (h : Place here b b' o) (hw : b.WellFormed here) :
    b'.WellFormed here := by
  refine ⟨h.table_eq ▸ hw.indexed.place h.id_eq h.active rfl, fun k r hr => ?_⟩
  simp only [h.table_eq, OrderTable.bucketPush_orders, OrderTable.saveOrder,
    Store.lookup_insert_ite] at hr
  split_ifs at hr
  · cases hr; exact h.sound
  · exact hw.sound k r hr

theorem Trade.spec {o o' : LimitOrder} {q paid : ℤ} {out : FillUpdateOutcome}
    {paidAsset : Address} (h : Trade here b b' o q out o' paidAsset paid)
    (hw : b.WellFormed here) : FillSpec o q out o' :=
  fillUpdate_spec (h.is_open.sound hw) h.is_open.active h.pos h.le h.fill

theorem Trade.wellFormed {o o' : LimitOrder} {q paid : ℤ} {out : FillUpdateOutcome}
    {paidAsset : Address} (h : Trade here b b' o q out o' paidAsset paid)
    (hw : b.WellFormed here) : b'.WellFormed here := by
  have hf := h.spec hw
  exact wellFormed_storeFill hw h.is_open hf.key_eq hf.active_eq
    (hf.sound (h.is_open.sound hw) h.is_open.active h.pos) h.table_eq

section Matched

variable {treasury : Option Address} {seller buyer seller' buyer' : LimitOrder} {q : ℤ}
  {sellerOut buyerOut : FillUpdateOutcome} {amounts : Settlement}
  (h : Match here b b' treasury seller buyer q sellerOut buyerOut seller' buyer' amounts)
  (hw : b.WellFormed here)

include h hw

theorem Match.seller_spec : FillSpec seller q sellerOut seller' :=
  fillUpdate_spec (h.seller_open.sound hw) h.seller_open.active h.pos h.le_seller h.seller_fill

theorem Match.buyer_spec : FillSpec buyer q buyerOut buyer' :=
  fillUpdate_spec (h.buyer_open.sound hw) h.buyer_open.active h.pos h.le_buyer h.buyer_fill

omit hw in
/-- The two orders of a match are different records, since their sides differ. -/
theorem Match.key_ne : buyer.key ≠ seller.key := by
  intro hk
  have hs := h.seller_open.stored
  rw [← hk, h.buyer_open.stored] at hs
  cases hs
  exact absurd (h.seller_side.symm.trans h.buyer_side) (by decide)

/-- The book between the two halves of a match. -/
theorem Match.seller_half : ({ b with table := b.table.storeFill sellerOut seller' } :
    Book).WellFormed here :=
  wellFormed_storeFill hw h.seller_open (h.seller_spec hw).key_eq (h.seller_spec hw).active_eq
    ((h.seller_spec hw).sound (h.seller_open.sound hw) h.seller_open.active h.pos) rfl

theorem Match.buyer_half_open :
    ({ b with table := b.table.storeFill sellerOut seller' } : Book).Open buyer := by
  refine ⟨?_, h.buyer_open.active⟩
  have hk := h.key_ne
  rw [← (h.seller_spec hw).key_eq] at hk
  simpa only [OrderTable.storeFill_lookup, if_neg hk] using h.buyer_open.stored

theorem Match.wellFormed : b'.WellFormed here :=
  wellFormed_storeFill (h.seller_half hw) (h.buyer_half_open hw) (h.buyer_spec hw).key_eq
    (h.buyer_spec hw).active_eq
    ((h.buyer_spec hw).sound (h.buyer_open.sound hw) h.buyer_open.active h.pos) h.table_eq

end Matched

theorem LimitOrder.Sound.cancelled {o : LimitOrder} (h : o.Sound here) : o.cancelled.Sound here :=
  ⟨h.maker_ne, h.sellAsset_eq, h.buyAsset_eq, h.priceTick_pos, h.filled_nonneg, nofun, nofun,
    fun _ => rfl, h.quote_fits⟩

theorem Cancel.wellFormed {o : LimitOrder} (h : Cancel here b b' o) (hw : b.WellFormed here) :
    b'.WellFormed here :=
  have hk : o.cancelled.key = o.key := rfl
  wellFormed_storeFill hw h.is_open hk rfl (h.is_open.sound hw).cancelled h.table_eq

theorem Purge.wellFormed {o : LimitOrder} (h : Purge here b b' o) (hw : b.WellFormed here) :
    b'.WellFormed here := by
  refine ⟨h.table_eq ▸ hw.indexed.purge h.stored, fun k r hr => ?_⟩
  simp only [h.table_eq, OrderTable.removeOrder, OrderTable.bucketRemove_orders,
    Store.lookup_erase_ite] at hr
  split_ifs at hr
  exact hw.sound k r hr

/-- Every edit keeps the book well-formed. -/
theorem Edit.wellFormed (h : Edit env call b b') (hw : b.WellFormed here) :
    b'.WellFormed here := by
  cases h with
  | place _ h => exact h.wellFormed hw
  | fill filler _ h => exact h.wellFormed hw
  | trade taker pair amount isBuy _ h => exact h.wellFormed hw
  | settle h => exact h.wellFormed hw
  | cancel _ h => exact h.wellFormed hw
  | withdraw owner asset amount h => exact hw.of_table h.table_eq
  | purge orderIds h => exact h.wellFormed hw

end Preservation

end StellarFlow.Orders
