import StellarFlow.Orders.Runs

/-!
# Expired orders

Past its expiry an order must not be traded any more; only its maker may still close it.
`fillOrder` and `matchMarketOrder` check the expiry, `matchOrders` does not, so the rule is
kept by exactly those runs in which no match of an expired order goes through.
-/
namespace StellarFlow.Orders

open Foundation

/-- The record of an order is as it was, or its maker's cancellation closed it, or the order
had been closed before and its record was purged. -/
def RecordKept (call : BookCall) (o : LimitOrder) (c : Book) : Prop :=
  c.table.orders.lookup o.key = some o ∨
  (call.Cancels o.id ∧ c.table.orders.lookup o.key = some o.cancelled) ∨
  (o.active = false ∧ c.table.orders.lookup o.key = none)

/-- The call trades none of the orders that are expired when it runs. -/
def ExpiredNotTraded {here : Address} (b : Book) (i : BookStep here) : Prop :=
  ∀ o, b.table.orders.lookup o.key = some o → o.expired i.1.sequence →
    RecordKept i.2 o (commit bookStep b i)

/-- A match that names an expired order fails. -/
def ExpiredNotMatched {here : Address} (b : Book) (i : BookStep here) : Prop :=
  ∀ sellerOrderId buyerOrderId fillAmount o,
    i.2 = .matchOrders sellerOrderId buyerOrderId fillAmount →
    b.loadOrder sellerOrderId = .ok o ∨ b.loadOrder buyerOrderId = .ok o →
    o.expired i.1.sequence →
    ∃ e, matchOrders i.1 sellerOrderId buyerOrderId fillAmount b = .error e

/-- What holds of an untraded order while a call is under way. -/
structure Untraded (call : BookCall) (o : LimitOrder) (c : Book) : Prop where
  issued : o.id < c.table.nextOrderId
  record : RecordKept call o c

variable {here : Address} {env : Env here} {call : BookCall} {b b' : Book} {o r r' : LimitOrder}

theorem Untraded.of_lookup_eq (h : Untraded call o b)
    (hn : b.table.nextOrderId ≤ b'.table.nextOrderId)
    (hl : b'.table.orders.lookup o.key = b.table.orders.lookup o.key) : Untraded call o b' :=
  ⟨h.issued.trans_le hn, by simpa only [RecordKept, hl] using h.record⟩

/-- An open order under the same key is the order itself. -/
theorem Untraded.eq_of_open (h : Untraded call o b) (hr : b.Open r) (hk : r.key = o.key) :
    r = o := by
  have hst := hr.stored
  rw [hk] at hst
  rcases h.record with ho | ⟨_, ho⟩ | ⟨_, ho⟩
  · rw [ho] at hst
    exact (Option.some.inj hst).symm
  · rw [ho] at hst
    have ha := hr.active
    rw [← Option.some.inj hst] at ha
    exact absurd ha (by simp [LimitOrder.cancelled])
  · rw [ho] at hst
    cases hst

theorem Untraded.storeFill (h : Untraded call o b) {out : FillUpdateOutcome}
    (hk : o.key ≠ r'.key) (ht : b'.table = b.table.storeFill out r') : Untraded call o b' := by
  refine h.of_lookup_eq (by rw [ht]; simp) ?_
  rw [ht, OrderTable.storeFill_lookup, if_neg hk]

theorem Trade.untraded {q paid : ℤ} {out : FillUpdateOutcome} {asset : Address}
    (ht : Trade here b b' r q out r' asset paid) (hw : b.WellFormed here)
    (hr : ¬ r.expired env.sequence) (ho : o.expired env.sequence) (h : Untraded call o b) :
    Untraded call o b' := by
  refine h.storeFill (fun hk => hr ?_) ht.table_eq
  rw [(ht.spec hw).key_eq] at hk
  exact h.eq_of_open ht.is_open hk.symm ▸ ho

theorem Match.untraded {treasury : Option Address} {seller buyer seller' buyer' : LimitOrder}
    {q : ℤ} {sellerOut buyerOut : FillUpdateOutcome} {amounts : Settlement}
    (hm : Match here b b' treasury seller buyer q sellerOut buyerOut seller' buyer' amounts)
    (hw : b.WellFormed here) (hs : ¬ seller.expired env.sequence)
    (hb : ¬ buyer.expired env.sequence) (ho : o.expired env.sequence) (h : Untraded call o b) :
    Untraded call o b' := by
  have hhalf : Untraded call o { b with table := b.table.storeFill sellerOut seller' } := by
    refine h.storeFill (fun hk => hs ?_) rfl
    rw [(hm.seller_spec hw).key_eq] at hk
    exact h.eq_of_open hm.seller_open hk.symm ▸ ho
  refine hhalf.storeFill (fun hk => hb ?_) hm.table_eq
  rw [(hm.buyer_spec hw).key_eq] at hk
  exact h.eq_of_open hm.buyer_open hk.symm ▸ ho

/-- No edit of a call other than a match trades an expired order. -/
theorem Edit.untraded (he : Edit env call b b') (hw : b.WellFormed here)
    (hcall : ∀ i j q, call ≠ .matchOrders i j q) (ho : o.expired env.sequence)
    (h : Untraded call o b) : Untraded call o b' := by
  cases he with
  | @place _ _ _ r _ hp =>
    refine h.of_lookup_eq (by rw [hp.table_eq]; exact Nat.le_succ _) ?_
    have hk : o.key ≠ r.key := by
      intro hk
      have hid : o.id = r.id := congrArg (·.2.2) hk
      have := h.issued
      rw [hid, hp.id_eq] at this
      exact lt_irrefl _ this
    rw [hp.table_eq]
    simp only [OrderTable.bucketPush_orders, OrderTable.saveOrder, Store.lookup_insert_ite,
      if_neg hk]
  | fill filler hexp ht => exact ht.untraded hw hexp ho h
  | trade taker pair amount isBuy hexp ht => exact ht.untraded hw hexp ho h
  | settle hm => exact absurd rfl (hcall _ _ _)
  | @cancel _ _ _ r hcancel hc =>
    by_cases hk : r.key = o.key
    · obtain rfl := h.eq_of_open hc.is_open hk
      refine ⟨by rw [hc.table_eq]; simpa using h.issued, .inr (.inl ⟨hcancel, ?_⟩)⟩
      have hkc : r.key = r.cancelled.key := rfl
      rw [hc.table_eq, OrderTable.storeFill_lookup, if_pos hkc]
      rfl
    · have hk' : o.key ≠ r.cancelled.key := fun hc => hk hc.symm
      exact h.storeFill hk' hc.table_eq
  | withdraw owner asset amount hd =>
    exact h.of_lookup_eq (by rw [hd.table_eq]) (by rw [hd.table_eq])
  | @purge _ _ ids r hp =>
    have hn : b'.table.nextOrderId = b.table.nextOrderId := by
      rw [hp.table_eq]
      simp [OrderTable.removeOrder]
    have hl : b'.table.orders.lookup o.key =
        if o.key = r.key then none else b.table.orders.lookup o.key := by
      rw [hp.table_eq]
      simp only [OrderTable.removeOrder, OrderTable.bucketRemove_orders, Store.lookup_erase_ite]
    by_cases hk : o.key = r.key
    · refine ⟨hn ▸ h.issued, .inr (.inr ⟨?_, by rw [hl, if_pos hk]⟩)⟩
      have hst := hp.stored
      rw [← hk] at hst
      rcases h.record with hr | ⟨hcancel, _⟩ | ⟨ha, _⟩
      · rw [hst] at hr
        exact Option.some.inj hr ▸ hp.closed
      · exact hcancel.elim
      · exact ha
    · exact h.of_lookup_eq hn.ge (by rw [hl, if_neg hk])

theorem exec_untraded (hw : b.WellFormed here) (hcall : ∀ i j q, call ≠ .matchOrders i j q)
    (ho : o.expired env.sequence) (hst : b.table.orders.lookup o.key = some o)
    (h : call.exec env b = .ok b') : Untraded call o b' :=
  (exec_induction hw ⟨hw.indexed.order_fresh _ o hst, .inl hst⟩
    (fun _ _ hwc huc he => he.untraded hwc hcall ho huc) h).2

/-- After a match the record of either order is not the one from before. -/
theorem Match.traded {treasury : Option Address} {seller buyer seller' buyer' : LimitOrder}
    {q : ℤ} {sellerOut buyerOut : FillUpdateOutcome} {amounts : Settlement}
    (hm : Match here b b' treasury seller buyer q sellerOut buyerOut seller' buyer' amounts)
    (hw : b.WellFormed here) (ho : o = seller ∨ o = buyer) :
    b'.table.orders.lookup o.key ≠ some o := by
  have hpos := hm.pos
  have hne : ∀ {r r' : LimitOrder} {out : FillUpdateOutcome}, FillSpec r q out r' →
      (if out.purged then none else some r') ≠ some r := by
    intro r r' out hspec hc
    split_ifs at hc
    have hf : r'.filledAmount = r.filledAmount + q := by rw [hspec.eq]
    rw [Option.some.inj hc] at hf
    omega
  have hsk := (hm.seller_spec hw).key_eq
  have hbk := (hm.buyer_spec hw).key_eq
  rw [hm.table_eq, OrderTable.storeFill_lookup, OrderTable.storeFill_lookup, hsk, hbk]
  rcases ho with rfl | rfl
  · rw [if_neg hm.key_ne.symm, if_pos rfl]
    exact hne (hm.seller_spec hw)
  · rw [if_pos rfl]
    exact hne (hm.buyer_spec hw)

theorem ExpiredNotTraded.of_matchRejected {i j : ℕ} {q : ℤ} {e : Fault}
    (h : matchOrders env i j q b = .error e) :
    ExpiredNotTraded b (env, .matchOrders i j q) := by
  have hstep : bookStep (env, .matchOrders i j q) b = .error e := by
    simp [bookStep, BookCall.exec, h, Functor.map, Except.map]
  intro o ho _
  rw [commit_of_error hstep]
  exact .inl ho

/-- A match that goes through keeps the rule exactly when neither order is expired. -/
theorem expiredNotTraded_match_iff (hw : b.WellFormed here) {i j : ℕ} {q : ℤ}
    {r : SettlementResult} (h : matchOrders env i j q b = .ok (r, b')) :
    ExpiredNotTraded b (env, .matchOrders i j q) ↔
      ExpiredNotMatched b (env, .matchOrders i j q) := by
  have hstep : bookStep (env, .matchOrders i j q) b = .ok b' := by
    simp [bookStep, BookCall.exec, h, Functor.map, Except.map]
  obtain ⟨seller, buyer, _, _, _, _, _, rfl, rfl, hm⟩ := matchOrders_match hw h
  constructor
  · intro hnt i' j' q' o heq ho hexp
    cases heq
    have ho' : o = seller ∨ o = buyer := by
      rcases ho with ho | ho
      · have hs := hw.loadOrder_eq_ok.mpr ⟨hm.seller_open.stored, rfl⟩
        exact .inl (Except.ok.inj (ho.symm.trans hs))
      · have hb := hw.loadOrder_eq_ok.mpr ⟨hm.buyer_open.stored, rfl⟩
        exact .inr (Except.ok.inj (ho.symm.trans hb))
    have hopen : b.Open o := by
      rcases ho' with rfl | rfl
      · exact hm.seller_open
      · exact hm.buyer_open
    have hcases := hnt o hopen.stored hexp
    rw [commit_of_ok hstep] at hcases
    rcases hcases with hc | ⟨hc, _⟩ | ⟨hc, _⟩
    · exact absurd hc (hm.traded hw ho')
    · exact hc.elim
    · exact absurd (hopen.active.symm.trans hc) (by decide)
  · intro hnm o hst hexp
    have hlive : ∀ r, r = seller ∨ r = buyer → ¬ r.expired env.sequence := by
      intro r hr hrexp
      have hl : b.loadOrder seller.id = .ok r ∨ b.loadOrder buyer.id = .ok r := by
        rcases hr with rfl | rfl
        · exact .inl (hw.loadOrder_eq_ok.mpr ⟨hm.seller_open.stored, rfl⟩)
        · exact .inr (hw.loadOrder_eq_ok.mpr ⟨hm.buyer_open.stored, rfl⟩)
      obtain ⟨e, he⟩ := hnm _ _ _ r rfl hl hrexp
      rw [h] at he
      cases he
    rw [commit_of_ok hstep]
    exact (hm.untraded hw (hlive seller (.inl rfl)) (hlive buyer (.inr rfl)) hexp
      ⟨hw.indexed.order_fresh _ o hst, .inl hst⟩).record

/-- One call trades no expired order exactly when it is not a match of one. -/
theorem expiredNotTraded_iff (hw : b.WellFormed here) (i : BookStep here) :
    ExpiredNotTraded b i ↔ ExpiredNotMatched b i := by
  obtain ⟨env, call⟩ := i
  by_cases hcall : ∃ i j q, call = .matchOrders i j q
  · obtain ⟨i, j, q, rfl⟩ := hcall
    cases h : matchOrders env i j q b with
    | error e =>
      refine iff_of_true (.of_matchRejected h) ?_
      intro i' j' q' o heq _ _
      cases heq
      exact ⟨e, h⟩
    | ok r => exact expiredNotTraded_match_iff hw h
  · push Not at hcall
    refine iff_of_true (fun o hst hexp => ?_) fun i j q o heq => absurd heq (hcall i j q)
    exact commit_induction (P := RecordKept call o) (.inl hst)
      fun b' h => (exec_untraded hw hcall hexp hst h).record

/-- A run never trades an expired order exactly when no match of an expired order in it goes
through. -/
theorem expiredNotTraded_along_iff (tokens : Tokens) (run : List (BookStep here)) :
    Along bookStep ExpiredNotTraded (Book.empty tokens) run ↔
      Along bookStep ExpiredNotMatched (Book.empty tokens) run :=
  along_congr (I := Book.WellFormed here) (fun _ i hw => commit_wellFormed hw i)
    (fun _ i hw => expiredNotTraded_iff hw i) (.empty tokens) run

/-- A sell order that expires at ledger five is matched at ledger ten. -/
def staleRun : List (BookStep ⟨0⟩) :=
  [(.standard _ 1 none, .placeOrderWithExpiry ⟨1⟩ samplePair priceScale 100 5),
   (.standard _ 10 none, .placeBuyOrder ⟨2⟩ samplePair priceScale 100),
   (.standard _ 10 none, .matchOrders 0 1 40)]

/-- The record of that order before the match. -/
def staleOrder : LimitOrder where
  id := 0
  maker := ⟨1⟩
  pair := samplePair
  sellAsset := ⟨10⟩
  buyAsset := ⟨11⟩
  side := .sell
  priceTick := priceScale
  amount := 100
  originalAmount := 100
  remainingAmount := 100
  filledAmount := 0
  createdAtLedger := 1
  expiry := 5
  active := true

theorem staleRun_traded :
    (bookAfter sampleTokens (staleRun.take 2)).table.orders.lookup staleOrder.key =
      some staleOrder ∧
    ((bookAfter sampleTokens staleRun).loadOrder 0).toOption.map LimitOrder.remainingAmount =
      some 60 ∧
    ¬ Along bookStep ExpiredNotTraded (Book.empty sampleTokens) staleRun := by
  have hst : (bookAfter sampleTokens (staleRun.take 2)).table.orders.lookup staleOrder.key =
      some staleOrder := by decide +kernel
  have hrem : ((bookAfter sampleTokens staleRun).loadOrder 0).toOption.map
      LimitOrder.remainingAmount = some 60 := by decide +kernel
  have hne : (bookAfter sampleTokens staleRun).table.orders.lookup staleOrder.key ≠
      some staleOrder := by decide +kernel
  refine ⟨hst, hrem, fun h => ?_⟩
  rcases h.2.2.1 staleOrder hst (by decide) with hc | ⟨hc, _⟩ | ⟨hc, _⟩
  · exact hne hc
  · exact hc
  · exact absurd hc (by decide)

end StellarFlow.Orders
