import StellarFlow.Orders.Runs

/-!
# Solvency of the book

What the contract holds of a token covers the escrow of the open orders and all
withdrawable balances in that token. Every edit releases at most the escrow it takes off
the orders, except filling a buy order with `fillOrder`, which pays the taker in the asset
the order never escrowed.
-/
namespace StellarFlow.Orders

open Foundation

/-- What an active order is owed in a token: its remaining amount for a sell order, the
quote of it for a buy order. -/
def escrowClaim (token : Address) (o : LimitOrder) : ℤ :=
  if o.active then
    match o.side with
    | .sell => if o.sellAsset = token then o.remainingAmount else 0
    | .buy =>
      if o.buyAsset = token then ((quoteAmount o.remainingAmount o.priceTick).toOption).getD 0
      else 0
  else 0

/-- All claims on the contract's holding of a token. -/
def liabilities (token : Address) (b : Book) : ℤ :=
  b.table.sumOrders (escrowClaim token) + b.owed token

def Solvent (here : Address) (b : Book) : Prop := ∀ token, liabilities token b ≤ b.held here token

/-- A fill of a stored order by `fillOrder` is a fill of a sell order. -/
def FillsSellOrder {here : Address} (b : Book) (i : BookStep here) : Prop :=
  ∀ filler orderId fillAmount o, i.2 = .fillOrder filler orderId fillAmount →
    b.loadOrder orderId = .ok o → o.side = .sell

variable {here : Address} {env : Env here} {call : BookCall} {b b' : Book} {T : Address}
  {o o' : LimitOrder} {q : ℤ} {out : FillUpdateOutcome}

theorem escrowClaim_inactive (h : o.active = false) : escrowClaim T o = 0 := by
  simp [escrowClaim, h]

/-- The claim of a sound active order is its escrow, in the asset it escrowed. -/
theorem escrowClaim_active (hs : o.Sound here) (ha : o.active = true) :
    escrowClaim T o = if T = o.escrowAsset then o.escrow else 0 := by
  have hr := hs.refundAmount_eq ha (hs.remaining_pos ha).le le_rfl
  unfold refundAmount at hr
  unfold escrowClaim LimitOrder.escrowAsset LimitOrder.escrow
  rw [if_pos ha]
  cases hside : o.side with
  | sell => simp [LimitOrder.escrowFor, hside, hs.sellAsset_eq, eq_comm]
  | buy =>
    rw [if_pos hside] at hr
    simp [hr, hs.buyAsset_eq, Except.toOption, eq_comm]

theorem escrowClaim_of_spec (h : FillSpec o q out o') (hs' : o'.Sound here) :
    escrowClaim T o' = if T = o.escrowAsset then o'.escrow else 0 := by
  have hasset : o'.escrowAsset = o.escrowAsset := by rw [h.eq]; rfl
  cases ha' : o'.active with
  | true => rw [escrowClaim_active hs' ha', hasset]
  | false =>
    have hz : o'.escrow = 0 := by
      rw [LimitOrder.escrow, hs'.remaining_zero ha', LimitOrder.escrowFor_zero]
    rw [escrowClaim_inactive ha', hz]
    simp

/-- A fill frees at least the escrow of the traded volume and of the dust. -/
theorem FillSpec.escrowClaim_le (h : FillSpec o q out o') (hs : o.Sound here)
    (ha : o.active = true) (hq : 0 < q) :
    escrowClaim T o' + (if T = o.escrowAsset then o.escrowFor q + out.dustRefund else 0) ≤
      escrowClaim T o := by
  have hle := h.escrow_le
  rw [escrowClaim_active hs ha, escrowClaim_of_spec h (h.sound hs ha hq)]
  split_ifs <;> omega

theorem sumClaims_storeFill (ho : b.Open o) (hk : o'.key = o.key)
    (hp : out.purged = true → o'.active = false) (ht : b'.table = b.table.storeFill out o') :
    b'.table.sumOrders (escrowClaim T) + escrowClaim T o =
      b.table.sumOrders (escrowClaim T) + escrowClaim T o' := by
  rw [ht]
  exact OrderTable.sumOrders_storeFill (fun _ hr => escrowClaim_inactive hr) ho.stored hk hp

section Steps

theorem Place.solvent (h : Place here b b' o) (hw : b.WellFormed here) (hb : Solvent here b) :
    Solvent here b' := by
  intro T
  have hsum : b'.table.sumOrders (escrowClaim T) =
      b.table.sumOrders (escrowClaim T) + escrowClaim T o := by
    rw [h.table_eq]
    exact OrderTable.sumOrders_place hw.indexed _ h.id_eq _
  have howed : b'.owed T = b.owed T := by rw [Book.owed, Book.owed, h.balances_eq]
  have hle := hb T
  rw [liabilities, hsum, howed, h.held_eq, escrowClaim_active h.sound h.active]
  unfold liabilities at hle
  omega

/-- A trade that pays out the escrow of the traded volume. -/
theorem Trade.solvent (h : Trade here b b' o q out o' o.escrowAsset (o.escrowFor q))
    (hw : b.WellFormed here) (hb : Solvent here b) : Solvent here b' := by
  intro T
  have hspec := h.spec hw
  have hfree := hspec.escrowClaim_le (T := T) (h.is_open.sound hw) h.is_open.active h.pos
  have hsum := sumClaims_storeFill (T := T) h.is_open hspec.key_eq
    hspec.inactive_of_purged h.table_eq
  have howed : b'.owed T = b.owed T := by rw [Book.owed, Book.owed, h.balances_eq]
  have hle := hb T
  rw [liabilities, howed, h.held_eq]
  unfold liabilities at hle
  split_ifs at hfree ⊢ <;> omega

theorem Cancel.solvent (h : Cancel here b b' o) (hw : b.WellFormed here)
    (hb : Solvent here b) : Solvent here b' := by
  intro T
  have hk : o.cancelled.key = o.key := rfl
  have hsum := sumClaims_storeFill (T := T) h.is_open hk (fun _ => rfl) h.table_eq
  rw [escrowClaim_active (h.is_open.sound hw) h.is_open.active, escrowClaim_inactive rfl] at hsum
  have howed : b'.owed T = b.owed T := by rw [Book.owed, Book.owed, h.balances_eq]
  have hle := hb T
  rw [liabilities, howed, h.held_eq]
  unfold liabilities at hle
  omega

theorem Withdraw.solvent {asset : Address} {amount : ℤ} (h : Withdraw here b b' asset amount)
    (hb : Solvent here b) : Solvent here b' := by
  intro T
  have hle := hb T
  rw [liabilities, h.table_eq, h.owed_eq, h.held_eq]
  unfold liabilities at hle
  omega

theorem Purge.solvent (h : Purge here b b' o) (hb : Solvent here b) : Solvent here b' := by
  intro T
  have hsum : b'.table.sumOrders (escrowClaim T) = b.table.sumOrders (escrowClaim T) := by
    rw [h.table_eq]
    exact OrderTable.sumOrders_purge _ h.stored (escrowClaim_inactive h.closed)
  have howed : b'.owed T = b.owed T := by rw [Book.owed, Book.owed, h.balances_eq]
  have hle := hb T
  rw [liabilities, hsum, howed, h.held_eq]
  exact hle

/-- A match credits at most the escrow it frees on both orders. -/
theorem Match.solvent {treasury : Option Address} {seller buyer seller' buyer' : LimitOrder}
    {sellerOut buyerOut : FillUpdateOutcome} {amounts : Settlement}
    (h : Match here b b' treasury seller buyer q sellerOut buyerOut seller' buyer' amounts)
    (hw : b.WellFormed here) (hb : Solvent here b) : Solvent here b' := by
  intro T
  have hs := h.seller_open.sound hw
  have ho := h.buyer_open.sound hw
  have hsSpec := h.seller_spec hw
  have hoSpec := h.buyer_spec hw
  have hsFree := hsSpec.escrowClaim_le (T := T) hs h.seller_open.active h.pos
  have hoFree := hoSpec.escrowClaim_le (T := T) ho h.buyer_open.active h.pos
  have hsSum := sumClaims_storeFill (T := T) h.seller_open hsSpec.key_eq
    hsSpec.inactive_of_purged
    (show ({ b with table := b.table.storeFill sellerOut seller' } : Book).table = _ from rfl)
  have hoSum := sumClaims_storeFill (T := T) (h.buyer_half_open hw) hoSpec.key_eq
    hoSpec.inactive_of_purged h.table_eq
  obtain ⟨_, hquote, hbase, hqf, hbf⟩ := settlement_eq_ok h.pos.le hs.priceTick_pos.le
    ho.priceTick_pos.le h.amounts_eq
  have hsAsset : seller.escrowAsset = seller.pair.sellAsset := by
    simp [LimitOrder.escrowAsset, h.seller_side]
  have hoAsset : buyer.escrowAsset = seller.pair.buyAsset := by
    simp [LimitOrder.escrowAsset, h.buyer_side, h.pair_eq]
  have hsEscrow : seller.escrowFor q = q := by simp [LimitOrder.escrowFor, h.seller_side]
  have hoEscrow : buyer.escrowFor q = q * buyer.priceTick / priceScale := by
    simp [LimitOrder.escrowFor, h.buyer_side]
  rw [hsAsset, hsEscrow] at hsFree
  rw [hoAsset, hoEscrow] at hoFree
  have hle := hb T
  rw [liabilities, h.owed_eq, h.held_eq]
  unfold liabilities at hle
  simp only at hsSum hoSum
  split_ifs at hsFree hoFree ⊢ <;> omega

end Steps

/-- Every edit keeps the book solvent, provided a direct fill is of a sell order. -/
theorem Edit.solvent (h : Edit env call b b') (hw : b.WellFormed here) (hb : Solvent here b)
    (hc : FillsSellOrder b (env, call)) : Solvent here b' := by
  cases h with
  | place _ h => exact h.solvent hw hb
  | @fill _ _ filler o o' q out _ h =>
    have hside := hc filler o.id q o rfl (hw.loadOrder_eq_ok.mpr ⟨h.is_open.stored, rfl⟩)
    have hasset : o.escrowAsset = o.pair.sellAsset := by simp [LimitOrder.escrowAsset, hside]
    have hescrow : o.escrowFor q = q := by simp [LimitOrder.escrowFor, hside]
    have ht : Trade here b b' o q out o' o.escrowAsset (o.escrowFor q) := by
      rw [hasset, hescrow]
      exact h
    exact ht.solvent hw hb
  | trade taker pair amount isBuy _ h => exact h.solvent hw hb
  | settle h => exact h.solvent hw hb
  | cancel _ h => exact h.solvent hw hb
  | withdraw owner asset amount h => exact h.solvent hb
  | purge orderIds h => exact h.solvent hb

theorem exec_solvent (hw : b.WellFormed here) (hb : Solvent here b)
    (hc : FillsSellOrder b (env, call)) (h : call.exec env b = .ok b') : Solvent here b' := by
  by_cases hcall : ∃ filler orderId fillAmount, call = .fillOrder filler orderId fillAmount
  · obtain ⟨filler, orderId, fillAmount, rfl⟩ := hcall
    simp only [BookCall.exec, snd_map_eq_ok] at h
    obtain ⟨r, h⟩ := h
    obtain ⟨o, out, o', rfl, hexp, ht⟩ := fillOrder_trade hw h
    exact (Edit.fill filler hexp ht).solvent hw hb hc
  · push Not at hcall
    exact (exec_induction hw hb (fun c c' hwc hbc he => he.solvent hwc hbc
      fun filler orderId fillAmount o heq _ => absurd heq (hcall filler orderId fillAmount)) h).2

theorem solvent_empty {tokens : Tokens} (h : ∀ T, 0 ≤ tokens T here) :
    Solvent here (Book.empty tokens) := by
  intro T
  have hl : liabilities T (Book.empty tokens) = 0 := rfl
  rw [hl]
  exact h T

/-- In every run from the empty book whose direct fills are all of sell orders, the contract
covers its liabilities in every state. -/
theorem solvent_throughout {tokens : Tokens} (h0 : ∀ T, 0 ≤ tokens T here)
    (run : List (BookStep here)) (hc : Along bookStep FillsSellOrder (Book.empty tokens) run) :
    Throughout bookStep (Solvent here) (Book.empty tokens) run := by
  have hrun : Throughout bookStep (fun b => b.WellFormed here ∧ Solvent here b)
      (Book.empty tokens) run := by
    refine throughout_of_along ?_ ⟨.empty tokens, solvent_empty h0⟩ hc
    rintro b ⟨env, call⟩ b' ⟨hw, hb⟩ hci h
    exact ⟨exec_wellFormed hw h, exec_solvent hw hb hci h⟩
  exact hrun.imp fun _ h => h.2

/-- A sell order is placed and filled in part. -/
def soldRun : List (BookStep ⟨0⟩) :=
  [(.standard _ 1 none, .placeOrderWithExpiry ⟨1⟩ samplePair priceScale 100 0),
   (.standard _ 1 none, .fillOrder ⟨2⟩ 0 40)]

theorem soldRun_solvent :
    (∀ T, 0 ≤ sampleTokens T ⟨0⟩) ∧
    Along bookStep FillsSellOrder (Book.empty sampleTokens) soldRun ∧
    Throughout bookStep (Solvent ⟨0⟩) (Book.empty sampleTokens) soldRun := by
  have h0 : ∀ T, 0 ≤ sampleTokens T ⟨0⟩ := by simp [sampleTokens]
  have hside : (((bookAfter sampleTokens (soldRun.take 1)).loadOrder 0).toOption.map
      LimitOrder.side) = some .sell := by decide +kernel
  have hc : Along bookStep FillsSellOrder (Book.empty sampleTokens) soldRun := by
    refine ⟨(fun _ _ _ _ h => nomatch h), ?_, trivial⟩
    intro filler orderId fillAmount o h ho
    cases h
    have ho' : (bookAfter sampleTokens (soldRun.take 1)).loadOrder 0 = .ok o := ho
    rw [ho'] at hside
    exact Option.some.inj hside
  exact ⟨h0, hc, solvent_throughout h0 soldRun hc⟩

/-- A buy order is filled directly while a sell order of the same pair rests in the book. -/
def drainedRun : List (BookStep ⟨0⟩) :=
  [(.standard _ 1 none, .placeOrderWithExpiry ⟨1⟩ samplePair priceScale 100 0),
   (.standard _ 1 none, .placeBuyOrder ⟨2⟩ samplePair priceScale 100),
   (.standard _ 1 none, .fillOrder ⟨3⟩ 1 100)]

/-- The fill pays the escrow of the resting sell order to the filler. -/
theorem drainedRun_insolvent :
    (∀ T, 0 ≤ sampleTokens T ⟨0⟩) ∧
    (bookAfter sampleTokens drainedRun).held ⟨0⟩ ⟨10⟩ = 0 ∧
    liabilities ⟨10⟩ (bookAfter sampleTokens drainedRun) = 100 ∧
    ¬ Solvent ⟨0⟩ (bookAfter sampleTokens drainedRun) := by
  have h : (bookAfter sampleTokens drainedRun).held ⟨0⟩ ⟨10⟩ = 0 ∧
      liabilities ⟨10⟩ (bookAfter sampleTokens drainedRun) = 100 := by decide +kernel
  refine ⟨by simp [sampleTokens], h.1, h.2, fun hs => ?_⟩
  have := hs ⟨10⟩
  omega

end StellarFlow.Orders
