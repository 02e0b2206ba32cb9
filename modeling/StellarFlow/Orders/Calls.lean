import StellarFlow.Orders.Edits

/-!
# What every call does

Each entry point is taken apart once and described by the edits it makes. A successful
call is a chain of edits, and the single-step calls are exactly one edit.
-/
namespace StellarFlow.Orders

open Foundation

section Transfers

variable {here : Address} {env : Env here} {b b' : Book} {token src dst : Address} {amount : ℤ}

theorem Book.transfer_eq_ok : b.transfer env token src dst amount = .ok b' ↔
    env.accepts b.tokens token src dst amount = true ∧
      b' = { b with tokens := b.tokens.move token src dst amount } := by
  simp only [Book.transfer, bind_eq_ok, Env.transfer_eq_ok, pure_eq_ok]
  constructor
  · rintro ⟨_, ⟨ha, rfl⟩, rfl⟩
    exact ⟨ha, rfl⟩
  · rintro ⟨ha, rfl⟩
    exact ⟨_, ⟨ha, rfl⟩, rfl⟩

/-- The effect of a refund on the book: nothing but the contract's holding changes. -/
theorem Book.refundEscrow_eq_ok {o : LimitOrder} {refund : ℤ} (hm : o.maker ≠ here)
    (hr : 0 ≤ refund) (h : b.refundEscrow env o refund = .ok b') :
    b'.table = b.table ∧ b'.ticks = b.ticks ∧ b'.balances = b.balances ∧
      ∀ T, b'.held here T = b.held here T - if T = o.escrowAsset then refund else 0 := by
  unfold Book.refundEscrow at h
  split_ifs at h with hpos
  · obtain ⟨_, rfl⟩ := Book.transfer_eq_ok.mp h
    refine ⟨rfl, rfl, rfl, fun T => ?_⟩
    exact Tokens.move_apply_src _ _ _ hm.symm
  · rw [pure_eq_ok] at h
    obtain rfl : refund = 0 := by omega
    subst h
    simp

/-- A taker pays the maker and is paid by the contract. -/
theorem Book.payThrough_eq_ok {b₁ : Book} {taker maker payAsset asset : Address} {pay q : ℤ}
    (ht : taker ≠ here) (hm : maker ≠ here)
    (h₁ : b.transfer env payAsset taker maker pay = .ok b₁)
    (h₂ : b₁.transfer env asset here taker q = .ok b') :
    b'.table = b.table ∧ b'.ticks = b.ticks ∧ b'.balances = b.balances ∧
      ∀ T, b'.held here T = b.held here T - if T = asset then q else 0 := by
  obtain ⟨_, rfl⟩ := Book.transfer_eq_ok.mp h₁
  obtain ⟨_, rfl⟩ := Book.transfer_eq_ok.mp h₂
  refine ⟨rfl, rfl, rfl, fun T => ?_⟩
  simp only [Book.held]
  rw [Tokens.move_apply_src _ _ _ ht.symm, Tokens.move_apply_of_ne _ _ _ ht.symm hm.symm]

end Transfers

section Balances

variable {b b' b'' : Book} {owner asset : Address} {amount : ℤ}

theorem Book.part_balances (owner asset T : Address) :
    Store.part (fun (k : Address × Address) v => if k.2 = T then v else 0) b.balances
      (owner, asset) = if T = asset then b.getBalance owner asset else 0 := by
  unfold Store.part Book.getBalance
  cases b.balances.lookup (owner, asset) <;> simp [eq_comm]

theorem Book.owed_insert (owner asset : Address) (v : ℤ) (T : Address) :
    ({ b with balances := b.balances.insert (owner, asset) v } : Book).owed T =
      b.owed T + if T = asset then v - b.getBalance owner asset else 0 := by
  have h := Store.total_insert (fun (k : Address × Address) v => if k.2 = T then v else 0)
    b.balances (owner, asset) v
  rw [Book.part_balances] at h
  simp only [Book.owed, @eq_comm _ asset T] at h ⊢
  split_ifs at h ⊢ <;> omega

theorem Book.owed_erase (owner asset T : Address) :
    ({ b with balances := b.balances.erase (owner, asset) } : Book).owed T =
      b.owed T - if T = asset then b.getBalance owner asset else 0 := by
  have h := Store.total_erase (fun (k : Address × Address) v => if k.2 = T then v else 0)
    b.balances (owner, asset)
  rw [Book.part_balances] at h
  dsimp only [Book.owed]
  omega

/-- Only balances changed, by the given amount in every token. -/
structure Book.Credited (b b' : Book) (delta : Address → ℤ) : Prop where
  table_eq : b'.table = b.table
  ticks_eq : b'.ticks = b.ticks
  tokens_eq : b'.tokens = b.tokens
  owed_eq : ∀ T, b'.owed T = b.owed T + delta T

namespace Book.Credited

variable {delta delta' : Address → ℤ}

theorem refl (b : Book) : Credited b b fun _ => 0 := ⟨rfl, rfl, rfl, fun _ => (add_zero _).symm⟩

theorem trans (h : Credited b b' delta) (h' : Credited b' b'' delta') :
    Credited b b'' fun T => delta T + delta' T :=
  ⟨h'.table_eq.trans h.table_eq, h'.ticks_eq.trans h.ticks_eq, h'.tokens_eq.trans h.tokens_eq,
    fun T => by rw [h'.owed_eq, h.owed_eq, add_assoc]⟩

end Book.Credited

theorem Book.creditBalance_credited (h : b.creditBalance owner asset amount = .ok b') :
    Credited b b' fun T => if T = asset then amount else 0 := by
  unfold Book.creditBalance at h
  split_ifs at h with hz
  · rw [pure_eq_ok] at h
    subst h hz
    simpa using Credited.refl b
  · simp only [bind_eq_ok, okOr_eq_ok, IntRange.check_eq_some, pure_eq_ok] at h
    obtain ⟨_, ⟨_, rfl⟩, rfl⟩ := h
    exact ⟨rfl, rfl, rfl, fun T => by rw [Book.owed_insert, add_sub_cancel_left]⟩

theorem Book.creditDust_credited (ha : 0 ≤ amount)
    (h : b.creditDust owner asset amount = .ok b') :
    Credited b b' fun T => if T = asset then amount else 0 := by
  unfold Book.creditDust at h
  split_ifs at h with hpos
  · exact Book.creditBalance_credited h
  · rw [pure_eq_ok] at h
    obtain rfl : amount = 0 := by omega
    subst h
    simpa using Credited.refl b

theorem creditFees_credited {here : Address} {env : Env here} {pair : AssetPair}
    {quoteFee baseFee : ℤ} (h : creditFees env pair quoteFee baseFee b = .ok b') :
    b.Credited b' fun T =>
      (if T = pair.buyAsset then (if env.treasury.isSome then quoteFee else 0) else 0) +
      if T = pair.sellAsset then (if env.treasury.isSome then baseFee else 0) else 0 := by
  unfold creditFees at h
  cases ht : env.treasury with
  | none =>
    simp only [ht, pure_eq_ok] at h
    subst h
    simpa using Book.Credited.refl b
  | some treasury =>
    simp only [ht, bind_eq_ok] at h
    obtain ⟨b₁, h₁, h₂⟩ := h
    simpa using (Book.creditBalance_credited h₁).trans (Book.creditBalance_credited h₂)

theorem Book.debitBalance_credited (h : b.debitBalance owner asset amount = .ok b') :
    Credited b b' fun T => -if T = asset then amount else 0 := by
  simp only [Book.debitBalance, bind_eq_ok, failIf_eq_ok, okOr_eq_ok, IntRange.check_eq_some] at h
  obtain ⟨_, _, _, ⟨_, rfl⟩, h⟩ := h
  split_ifs at h with hz <;> rw [pure_eq_ok] at h <;> subst h
  · refine ⟨rfl, rfl, rfl, fun T => ?_⟩
    rw [Book.owed_erase]
    split_ifs <;> omega
  · refine ⟨rfl, rfl, rfl, fun T => ?_⟩
    rw [Book.owed_insert]
    split_ifs <;> omega

end Balances

section Calls

variable {here : Address} {env : Env here} {b b' : Book}

/-- The common tail of both placement calls. -/
theorem restOrder_place {maker : Address} {pair : AssetPair} {side : OrderSide}
    {priceTick amount : ℤ} {expiry : ℕ} {o : LimitOrder} {b₀ : Book} (hmaker : maker ≠ here)
    (htick : 0 < priceTick) (ha : 0 < amount)
    (hfits : side = .buy → i128.Fits (amount * priceTick))
    (h : restOrder env maker pair side priceTick amount expiry b = .ok (o, b'))
    (htable : b.table = b₀.table) (hticks : b.ticks = b₀.ticks)
    (hbal : b.balances = b₀.balances)
    (hheld : ∀ T, b.held here T = b₀.held here T +
      if T = (if side = .buy then pair.buyAsset else pair.sellAsset) then
        (if side = .buy then amount * priceTick / priceScale else amount) else 0) :
    Place here b₀ b' o := by
  simp only [restOrder, nextOrderId, bind_eq_ok, okOr_eq_ok, checkBits_eq_some, pure_eq_ok] at h
  obtain ⟨_, ⟨_, ⟨_, rfl⟩, rfl⟩, ticks, ht, h⟩ := h
  obtain ⟨rfl, rfl⟩ := Prod.mk.inj h
  rw [htable] at *
  rw [hticks] at ht
  exact
    { id_eq := rfl
      sound := ⟨hmaker, rfl, rfl, htick, le_rfl, fun _ => ha, fun _ => (sub_zero _).symm,
        fun hc => by simp at hc, hfits⟩
      active := rfl
      filled_eq := rfl
      table_eq := rfl
      ticks_eq := ht
      balances_eq := hbal
      held_eq := hheld }

theorem placeOrderWithExpiry_place {maker : Address} {pair : AssetPair}
    {priceTick sellAmount : ℤ} {expiry : ℕ} {o : LimitOrder}
    (h : placeOrderWithExpiry env maker pair priceTick sellAmount expiry b = .ok (o, b')) :
    Place here b b' o := by
  simp only [placeOrderWithExpiry, bind_eq_ok, failIf_eq_ok, Env.requireAuth_eq_ok] at h
  obtain ⟨_, ha, _, ht, _, hauth, b₁, h₁, h⟩ := h
  obtain ⟨_, rfl⟩ := Book.transfer_eq_ok.mp h₁
  have hm := env.ne_here_of_auth hauth
  refine restOrder_place hm (not_le.mp ht) (not_le.mp ha) (fun hs => absurd hs (by decide)) h rfl
    rfl rfl fun T => ?_
  simpa [Book.held] using Tokens.move_apply_dst b.tokens sellAmount T hm.symm

theorem placeBuyOrder_place {maker : Address} {pair : AssetPair} {priceTick buyAmount : ℤ}
    {o : LimitOrder}
    (h : placeBuyOrder env maker pair priceTick buyAmount b = .ok (o, b')) :
    Place here b b' o := by
  simp only [placeBuyOrder, bind_eq_ok, failIf_eq_ok, Env.requireAuth_eq_ok] at h
  obtain ⟨_, ha, _, ht, _, hauth, locked, hq, b₁, h₁, h⟩ := h
  obtain ⟨_, rfl⟩ := Book.transfer_eq_ok.mp h₁
  have hm := env.ne_here_of_auth hauth
  obtain ⟨hf, rfl⟩ := (quoteAmount_eq_ok (not_le.mp ha).le (not_le.mp ht).le).mp hq
  refine restOrder_place hm (not_le.mp ht) (not_le.mp ha) (fun _ => hf) h rfl rfl rfl fun T => ?_
  simpa [Book.held] using Tokens.move_apply_dst b.tokens _ T hm.symm

/-- What a new order escrows, in terms of the arguments of its placement. -/
theorem restOrder_escrow {maker : Address} {pair : AssetPair} {side : OrderSide}
    {priceTick amount : ℤ} {expiry : ℕ} {o : LimitOrder}
    (h : restOrder env maker pair side priceTick amount expiry b = .ok (o, b')) :
    o.escrowAsset = (if side = .buy then pair.buyAsset else pair.sellAsset) ∧
      o.escrow = if side = .buy then amount * priceTick / priceScale else amount := by
  simp only [restOrder, bind_eq_ok, pure_eq_ok, Prod.exists, Prod.mk.injEq] at h
  obtain ⟨_, _, _, _, _, rfl, _⟩ := h
  exact ⟨rfl, rfl⟩

theorem placeOrderWithExpiry_escrow {maker : Address} {pair : AssetPair}
    {priceTick sellAmount : ℤ} {expiry : ℕ} {o : LimitOrder}
    (h : placeOrderWithExpiry env maker pair priceTick sellAmount expiry b = .ok (o, b')) :
    o.escrowAsset = pair.sellAsset ∧ o.escrow = sellAmount ∧ 0 < sellAmount := by
  simp only [placeOrderWithExpiry, bind_eq_ok, failIf_eq_ok] at h
  obtain ⟨_, ha, _, _, _, _, _, _, h⟩ := h
  obtain ⟨hasset, hescrow⟩ := restOrder_escrow h
  exact ⟨hasset, hescrow, not_le.mp ha⟩

theorem placeBuyOrder_escrow {maker : Address} {pair : AssetPair} {priceTick buyAmount : ℤ}
    {o : LimitOrder} (h : placeBuyOrder env maker pair priceTick buyAmount b = .ok (o, b')) :
    o.escrowAsset = pair.buyAsset ∧ o.escrow = buyAmount * priceTick / priceScale ∧
      0 < buyAmount * priceTick := by
  simp only [placeBuyOrder, bind_eq_ok, failIf_eq_ok] at h
  obtain ⟨_, ha, _, ht, _, _, _, _, _, _, h⟩ := h
  obtain ⟨hasset, hescrow⟩ := restOrder_escrow h
  exact ⟨hasset, hescrow, mul_pos (not_le.mp ha) (not_le.mp ht)⟩

theorem Book.applyPartialFill_eq_ok {o o' : LimitOrder} {q : ℤ} {out : FillUpdateOutcome} :
    b.applyPartialFill o q = .ok (out, o', b') ↔
      fillUpdate o q = .ok (out, o') ∧ b' = { b with table := b.table.storeFill out o' } := by
  simp only [Book.applyPartialFill, bind_eq_ok, pure_eq_ok, Prod.exists, Prod.mk.injEq]
  constructor
  · rintro ⟨_, _, h, rfl, rfl, rfl⟩
    exact ⟨h, rfl⟩
  · rintro ⟨h, rfl⟩
    exact ⟨_, _, h, rfl, rfl, rfl⟩

theorem Book.WellFormed.loadOrder_eq_ok (hw : b.WellFormed here) {id : ℕ} {o : LimitOrder} :
    b.loadOrder id = .ok o ↔ b.table.orders.lookup o.key = some o ∧ o.id = id :=
  hw.indexed.loadOrder_eq_ok

/-- The common tail of both trading paths: update the order, refund its dust, and take the
traded volume off its tick. -/
theorem trade_of_steps (hw : b.WellFormed here) {o o' : LimitOrder} {q paid : ℤ}
    {out : FillUpdateOutcome} {asset : Address} {b₁ b₂ b₃ : Book} (ho : b.Open o) (hq : 0 < q)
    (hle : q ≤ o.remainingAmount)
    (hpaid : b₁.table = b.table ∧ b₁.ticks = b.ticks ∧ b₁.balances = b.balances ∧
      ∀ T, b₁.held here T = b.held here T - if T = asset then paid else 0)
    (hfill : b₁.applyPartialFill o q = .ok (out, o', b₂))
    (hrefund : b₂.refundEscrow env o' out.dustRefund = .ok b₃)
    (hb' : b' = b₃.removeTickLiquidity o.pair o.priceTick (q + out.dustRemainingBase) o.isBid) :
    Trade here b b' o q out o' asset paid := by
  obtain ⟨hup, rfl⟩ := Book.applyPartialFill_eq_ok.mp hfill
  obtain ⟨htable, hticks, hbal, hheld⟩ := hpaid
  have hs := ho.sound hw
  have hf := fillUpdate_spec hs ho.active hq hle hup
  have hnn : 0 ≤ out.dustRefund := by
    rw [hf.refund_eq]
    exact LimitOrder.escrowFor_nonneg hs.priceTick_pos hf.dust_nonneg
  have hs' := hf.sound hs ho.active hq
  obtain ⟨ht, hk, hb, hh⟩ := Book.refundEscrow_eq_ok hs'.maker_ne hnn hrefund
  have hasset : o'.escrowAsset = o.escrowAsset := by rw [hf.eq]; rfl
  subst hb'
  exact
    { is_open := ho
      pos := hq
      le := hle
      fill := hup
      table_eq := by simp only [Book.removeTickLiquidity, ht, htable]
      ticks_eq := by simp only [Book.removeTickLiquidity, hk, hticks]
      balances_eq := by simp only [Book.removeTickLiquidity, hb, hbal]
      held_eq := fun T => by
        have h3 := hh T
        have h1 := hheld T
        rw [hasset] at h3
        simp only [Book.removeTickLiquidity, Book.held] at h1 h3 ⊢
        rw [h3, h1] }

theorem fillOrder_trade (hw : b.WellFormed here) {filler : Address} {orderId : ℕ}
    {fillAmount : ℤ} {r : FillResult}
    (h : fillOrder env filler orderId fillAmount b = .ok (r, b')) :
    ∃ o out o', o.id = orderId ∧ ¬ o.expired env.sequence ∧
      Trade here b b' o fillAmount out o' o.pair.sellAsset fillAmount := by
  simp only [fillOrder, bind_eq_ok, failIf_eq_ok, Env.requireAuth_eq_ok, pure_eq_ok, okOr_eq_ok,
    IntRange.check_eq_some, Prod.exists, Prod.mk.injEq] at h
  obtain ⟨_, hq, _, hauth, o, ho, _, ha, _, hexp, _, hle, paid, _, _, _, b₁, h₁, b₂, h₂,
    out, o', b₃, hfill, b₄, hrefund, _, ⟨_, rfl⟩, _, rfl⟩ := h
  obtain ⟨hst, rfl⟩ := hw.loadOrder_eq_ok.mp ho
  have hopen : b.Open o := ⟨hst, not_not.mp ha⟩
  have hs := hopen.sound hw
  have hpaid := Book.payThrough_eq_ok (env.ne_here_of_auth hauth) hs.maker_ne h₁ h₂
  refine ⟨o, out, o', rfl, hexp, trade_of_steps hw hopen (not_le.mp hq) (not_lt.mp hle) hpaid
    hfill hrefund ?_⟩
  have hup := (Book.applyPartialFill_eq_ok.mp hfill).1
  rw [(fillUpdate_spec hs hopen.active (not_le.mp hq) (not_lt.mp hle) hup).eq]
  rfl

theorem matchOrders_match (hw : b.WellFormed here) {sellerOrderId buyerOrderId : ℕ}
    {fillAmount : ℤ} {r : SettlementResult}
    (h : matchOrders env sellerOrderId buyerOrderId fillAmount b = .ok (r, b')) :
    ∃ seller buyer sellerOut buyerOut seller' buyer' amounts,
      seller.id = sellerOrderId ∧ buyer.id = buyerOrderId ∧
      Match here b b' env.treasury seller buyer fillAmount sellerOut buyerOut seller' buyer'
        amounts := by
  simp only [matchOrders, bind_eq_ok, failIf_eq_ok, pure_eq_ok, Prod.exists, Prod.mk.injEq] at h
  obtain ⟨_, hq, s, hs, o, ho, _, ha, _, hside, _, hpair, _, hcross, _, hle, amounts, hset,
    sOut, s', b₁, hsf, oOut, o', b₂, hof, b₃, h₃, b₄, h₄, b₅, h₅, b₆, h₆, b₇, h₇, b₈, h₈,
    _, rfl⟩ := h
  obtain ⟨hss, rfl⟩ := hw.loadOrder_eq_ok.mp hs
  obtain ⟨hos, rfl⟩ := hw.loadOrder_eq_ok.mp ho
  simp only [not_or, not_not, not_lt, gt_iff_lt] at ha hside hpair hcross hle hq
  obtain ⟨hsup, rfl⟩ := Book.applyPartialFill_eq_ok.mp hsf
  obtain ⟨houp, rfl⟩ := Book.applyPartialFill_eq_ok.mp hof
  have hsSound := hw.sound _ s hss
  have hoSound := hw.sound _ o hos
  have hsSpec := fillUpdate_spec hsSound ha.1 (not_le.mp hq) hle.1 hsup
  have hoSpec := fillUpdate_spec hoSound ha.2 (not_le.mp hq) hle.2 houp
  have hsDust : 0 ≤ sOut.dustRefund := hsSpec.refund_eq ▸
    LimitOrder.escrowFor_nonneg hsSound.priceTick_pos hsSpec.dust_nonneg
  have hoDust : 0 ≤ oOut.dustRefund := hoSpec.refund_eq ▸
    LimitOrder.escrowFor_nonneg hoSound.priceTick_pos hoSpec.dust_nonneg
  have hsPair : s'.pair = s.pair := by rw [hsSpec.eq]
  have hoPair : o'.pair = s.pair := by rw [hoSpec.eq, hpair]
  have hc := ((((Book.creditBalance_credited h₃).trans (Book.creditBalance_credited h₄)).trans
    (Book.creditBalance_credited h₅)).trans (Book.creditDust_credited hsDust h₆)).trans
    (Book.creditDust_credited hoDust h₇) |>.trans (creditFees_credited h₈)
  rw [hsPair, hoPair] at hc
  exact ⟨s, o, sOut, oOut, s', o', amounts, rfl, rfl,
    { seller_open := ⟨hss, ha.1⟩
      buyer_open := ⟨hos, ha.2⟩
      seller_side := hside.1
      buyer_side := hside.2
      pair_eq := hpair
      crossed := hcross
      pos := not_le.mp hq
      le_seller := hle.1
      le_buyer := hle.2
      amounts_eq := hset
      seller_fill := hsup
      buyer_fill := houp
      table_eq := hc.table_eq
      ticks_eq := hc.ticks_eq
      owed_eq := fun T => by
        rw [hc.owed_eq]
        simp only [Book.owed]
        split_ifs <;> omega
      held_eq := fun T => by simp only [Book.held, hc.tokens_eq] }⟩

theorem cancelOrderInner_cancel (hw : b.WellFormed here) {maker : Address} {orderId : ℕ}
    {recovered : ℤ} (h : cancelOrderInner env maker orderId b = .ok (recovered, b')) :
    ∃ o, o.id = orderId ∧ o.maker = maker ∧ recovered = o.escrow ∧ Cancel here b b' o := by
  simp only [cancelOrderInner, bind_eq_ok, failIf_eq_ok, pure_eq_ok, Prod.mk.injEq] at h
  obtain ⟨o, ho, _, hmaker, _, ha, r, hr, b₁, hrefund, rfl, rfl⟩ := h
  obtain ⟨hst, rfl⟩ := hw.loadOrder_eq_ok.mp ho
  have hopen : b.Open o := ⟨hst, not_not.mp ha⟩
  have hs := hopen.sound hw
  have hpos := hs.remaining_pos hopen.active
  obtain rfl : r = o.escrow :=
    Except.ok.inj (hr.symm.trans (hs.refundAmount_eq hopen.active hpos.le le_rfl))
  have hnn : 0 ≤ o.escrow := LimitOrder.escrowFor_nonneg hs.priceTick_pos hpos.le
  obtain ⟨ht, hk, hb, hh⟩ := Book.refundEscrow_eq_ok hs.maker_ne hnn hrefund
  exact ⟨o, rfl, not_not.mp hmaker, rfl, hopen, ht, hk, hb, hh⟩

/-- The loop of the batch cancel is a chain of cancellations. -/
theorem cancelLoop_edits {call : BookCall} {maker : Address} {orderIds : List ℕ}
    (hcall : ∀ id ∈ orderIds, call.Cancels id) (hw : b.WellFormed here)
    {r r' : BatchCancelResult} (h : cancelLoop env maker orderIds r b = .ok (r', b')) :
    Relation.ReflTransGen (Edit env call) b b' := by
  induction orderIds generalizing r b with
  | nil =>
    simp only [cancelLoop, pure_eq_ok, Prod.mk.injEq] at h
    rw [h.2]
  | cons orderId orderIds ih =>
    simp only [cancelLoop, bind_eq_ok, Prod.exists] at h
    obtain ⟨recovered, b₁, h₁, _, _, _, _, h⟩ := h
    obtain ⟨o, rfl, _, _, hc⟩ := cancelOrderInner_cancel hw h₁
    have hedit : Edit env call b b₁ := .cancel (hcall _ List.mem_cons_self) hc
    exact .head hedit (ih (fun id hid => hcall id (List.mem_cons_of_mem _ hid))
      (hedit.wellFormed hw) h)

theorem withdrawBalance_withdraw {owner asset : Address} {amount r : ℤ}
    (h : withdrawBalance env owner asset amount b = .ok (r, b')) :
    Withdraw here b b' asset amount := by
  simp only [withdrawBalance, bind_eq_ok, failIf_eq_ok, Env.requireAuth_eq_ok, pure_eq_ok,
    Prod.mk.injEq] at h
  obtain ⟨_, _, _, hauth, b₁, h₁, b₂, h₂, _, rfl⟩ := h
  have hc := Book.debitBalance_credited h₁
  obtain ⟨_, rfl⟩ := Book.transfer_eq_ok.mp h₂
  refine ⟨hc.table_eq, hc.ticks_eq, fun T => ?_, fun T => ?_⟩
  · exact (hc.owed_eq T).trans (sub_eq_add_neg _ _).symm
  · simp only [Book.held, hc.tokens_eq]
    exact Tokens.move_apply_src _ _ _ (env.ne_here_of_auth hauth).symm

/-- An iteration of the purge removes the record of a closed order or finds nothing. -/
theorem purgeClosedOrder_cases (hw : b.WellFormed here) {orderId : ℕ} {wasPurged : Bool}
    {t : OrderTable} (h : purgeClosedOrder orderId b.table = .ok (wasPurged, t)) :
    t = b.table ∨ ∃ o, Purge here b { b with table := t } o := by
  simp only [purgeClosedOrder, bind_eq_ok, failIf_eq_ok, pure_eq_ok, Prod.mk.injEq] at h
  obtain ⟨_, htrap, _, rfl⟩ := h
  unfold purgeRecord at htrap ⊢
  cases hi : b.table.orderIndex.lookup orderId with
  | none => exact .inl rfl
  | some index =>
    obtain ⟨p, x⟩ := index
    obtain ⟨o, ho⟩ := (hw.indexed.order_index orderId (p, x)).mp hi
    simp only [hi, ho] at htrap ⊢
    split_ifs at htrap ⊢ with hc
    · have hk := hw.indexed.order_key _ o ho
      have hclosed : o.active = false := by
        rcases hc with hc | hc
        · simpa using hc
        · by_contra ha
          have := (hw.sound _ o ho).remaining_pos (by simpa using ha)
          omega
      have hst : b.table.orders.lookup o.key = some o := hk ▸ ho
      obtain ⟨rfl, hk'⟩ := Prod.mk.inj hk
      obtain ⟨rfl, rfl⟩ := Prod.mk.inj hk'
      exact .inr ⟨o, hst, hclosed, rfl, rfl, rfl, fun T => rfl⟩
    · simp [hi] at htrap

theorem purgeLoop_edits {orderIds ids : List ℕ} (hw : b.WellFormed here) {purged purged' : ℕ}
    {t : OrderTable} (h : purgeLoop ids purged b.table = .ok (purged', t)) :
    Relation.ReflTransGen (Edit env (.purgeClosedOrders orderIds)) b { b with table := t } := by
  induction ids generalizing purged b with
  | nil =>
    simp only [purgeLoop, pure_eq_ok, Prod.mk.injEq] at h
    rw [← h.2]
  | cons orderId ids ih =>
    simp only [purgeLoop, bind_eq_ok, Prod.exists] at h
    obtain ⟨wasPurged, t₁, h₁, purged₁, _, h⟩ := h
    rcases purgeClosedOrder_cases hw h₁ with rfl | ⟨o, hp⟩
    · exact ih hw h
    · have hedit : Edit env (.purgeClosedOrders orderIds) b { b with table := t₁ } :=
        .purge orderIds hp
      exact .head hedit (ih (hedit.wellFormed hw) h)

end Calls

end StellarFlow.Orders
