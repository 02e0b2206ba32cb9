import StellarFlow.Orders.Runs

/-!
# Quote conservation of a buy order

A buy order locks the rounded-down quote of its volume. Every fill, a dust refund at the
end and a cancellation each release the rounded-down quote of their part. `quoteLedger`
lists these releases along a run. Together they never exceed what was locked, and when the
order is closed fewer units than releases are left over. A protocol fee taken while no
treasury is configured is withheld: it leaves the order's account but reaches nobody.
-/
namespace StellarFlow.Orders

open Foundation

/-- One release from the quote a buy order has locked. -/
structure QuoteRelease where
  released : ℤ
  withheld : ℤ
  deriving DecidableEq, Repr

namespace QuoteRelease

def total (r : QuoteRelease) : ℤ := r.released + r.withheld

/-- A match pays the seller, returns the price improvement and takes the quote fee. -/
def ofSettlement (treasury : Option Address) (a : Settlement) : QuoteRelease :=
  if treasury.isSome then ⟨a.sellerNet + a.priceImprovement + a.quoteFee, 0⟩
  else ⟨a.sellerNet + a.priceImprovement, a.quoteFee⟩

end QuoteRelease

/-- The releases of a fill: the fill itself and, if the remainder is purged, its refund. -/
def fillReleases (o : LimitOrder) (q : ℤ) (fill : QuoteRelease) : List QuoteRelease :=
  match fillUpdate o q with
  | .ok (out, _) => if out.purged then [fill, ⟨out.dustRefund, 0⟩] else [fill]
  | .error _ => []

/-- The releases of a match on the account of its buy order. -/
def matchReleases (treasury : Option Address) (seller : Except Fault LimitOrder)
    (buyer : LimitOrder) (q : ℤ) : List QuoteRelease :=
  match seller with
  | .error _ => []
  | .ok seller =>
    match settlement seller buyer q with
    | .error _ => []
    | .ok a => fillReleases buyer q (.ofSettlement treasury a)

/-- The releases of a market order on the account of one order it traded with. -/
def marketReleases (o : LimitOrder) (fills : List TickMatchFill) : List QuoteRelease :=
  (fills.filter (·.orderId = o.id)).flatMap fun f =>
    fillReleases o f.filledAmount ⟨f.paidAmount, 0⟩

def cancelReleases (o : LimitOrder) : List QuoteRelease :=
  match refundAmount o o.remainingAmount with
  | .ok recovered => [⟨recovered, 0⟩]
  | .error _ => []

/-- What a successful call releases on the account of a stored order. -/
def orderReleases {here : Address} (o : LimitOrder) (b : Book) (i : BookStep here) :
    List QuoteRelease :=
  match i.2 with
  | .matchOrders sellerOrderId buyerOrderId fillAmount =>
    if buyerOrderId = o.id then
      matchReleases i.1.treasury (b.loadOrder sellerOrderId) o fillAmount
    else []
  | .matchMarketOrder taker pair amount isBuy =>
    match matchMarketOrder i.1 taker isBuy pair amount b with
    | .ok (r, _) => marketReleases o r.fills
    | .error _ => []
  | .cancelOrder _ orderId => if orderId = o.id then cancelReleases o else []
  | .cancelOrdersBatch _ orderIds => if o.id ∈ orderIds then cancelReleases o else []
  | _ => []

/-- What a call releases on the account of an order id; a failed call releases nothing. -/
def quoteReleases {here : Address} (id : ℕ) (b : Book) (i : BookStep here) :
    List QuoteRelease :=
  match b.loadOrder id, bookStep i b with
  | .ok o, .ok _ => orderReleases o b i
  | _, _ => []

/-- All releases on the account of an order id along a run. -/
def quoteLedger {here : Address} (id : ℕ) : Book → List (BookStep here) → List QuoteRelease
  | _, [] => []
  | b, i :: run => quoteReleases id b i ++ quoteLedger id (commit bookStep b i) run

def sumReleased (l : List QuoteRelease) : ℤ := (l.map QuoteRelease.released).sum
def sumWithheld (l : List QuoteRelease) : ℤ := (l.map QuoteRelease.withheld).sum
def sumTotal (l : List QuoteRelease) : ℤ := (l.map QuoteRelease.total).sum

variable {here : Address} {env : Env here} {call : BookCall} {b b' : Book} {id : ℕ}

/-- What a call does to the open order with an id, and what it releases for it. -/
inductive QuoteEffect (id : ℕ) (b b' : Book) : List QuoteRelease → Prop
  | none (h : ∀ r : LimitOrder, r.id = id → (b'.Open r ↔ b.Open r)) : QuoteEffect id b b' []
  | fill {c c' : LimitOrder} {q : ℤ} {out : FillUpdateOutcome} {rel : QuoteRelease}
      (hc : b.Open c) (hid : c.id = id) (hspec : FillSpec c q out c')
      (hrel : c.side = .buy → rel.total = c.escrowFor q) (hnn : 0 ≤ rel.withheld)
      (h : ∀ r : LimitOrder, r.id = id → (b'.Open r ↔ c'.active = true ∧ r = c')) :
      QuoteEffect id b b' (if out.purged then [rel, ⟨out.dustRefund, 0⟩] else [rel])
  | cancel {c : LimitOrder} (hc : b.Open c) (hid : c.id = id)
      (h : ∀ r : LimitOrder, r.id = id → ¬ b'.Open r) : QuoteEffect id b b' [⟨c.escrow, 0⟩]

/-- The account of a buy order: while it is open its escrow covers the rest of the lock up to
one unit per release, and once it is closed the lock is used up to less than that. -/
def Accounted (o : LimitOrder) (locked : ℤ) (l : List QuoteRelease) (b : Book) : Prop :=
  0 ≤ sumWithheld l ∧
  ((∃ c, b.Open c ∧ c.key = o.key ∧ c.side = .buy ∧
    sumTotal l + c.escrow ≤ locked ∧ locked ≤ sumTotal l + c.escrow + l.length) ∨
  ((∀ c, b.Open c → c.id ≠ o.id) ∧ sumTotal l ≤ locked ∧ locked < sumTotal l + l.length))

theorem sumTotal_append (l l' : List QuoteRelease) :
    sumTotal (l ++ l') = sumTotal l + sumTotal l' := by
  simp [sumTotal]

theorem sumTotal_eq (l : List QuoteRelease) : sumTotal l = sumReleased l + sumWithheld l := by
  induction l with
  | nil => rfl
  | cons r l ih =>
    simp only [sumTotal, sumReleased, sumWithheld, List.map_cons, List.sum_cons] at ih ⊢
    rw [ih, QuoteRelease.total]
    ring

/-- Two open orders with one id are the same order. -/
theorem Book.WellFormed.eq_of_open (hw : b.WellFormed here) {c r : LimitOrder} (hc : b.Open c)
    (hr : b.Open r) (hid : r.id = c.id) : r = c := by
  have hk := hw.indexed.key_eq_of_id_eq hr.stored hc.stored hid
  have hst := hr.stored
  rw [hk, hc.stored] at hst
  exact (Option.some.inj hst).symm

/-- A fill keeps the account, up to one more unit for each release it makes. -/
theorem FillSpec.escrow_ge {o o' : LimitOrder} {q : ℤ} {out : FillUpdateOutcome}
    (h : FillSpec o q out o') (ha : o'.active = true) :
    o.escrow ≤ o.escrowFor q + o'.escrow + 1 := by
  have hrem := h.remaining_eq
  rw [h.dust_eq_zero (h.not_purged ha), add_zero] at hrem
  have hge := LimitOrder.escrowFor_add_ge (o := o) q o'.remainingAmount
  rw [← hrem] at hge
  have he : o'.escrow = o.escrowFor o'.remainingAmount := by rw [h.eq]; rfl
  rw [he]
  exact hge

theorem FillSpec.escrow_ge_of_closed {o o' : LimitOrder} {q : ℤ} {out : FillUpdateOutcome}
    (h : FillSpec o q out o') (ha : o'.active = false) :
    o.escrow ≤ o.escrowFor q + out.dustRefund + (if out.purged then 1 else 0) := by
  have hrem := h.remaining_eq
  rw [h.remaining_eq_zero ha, add_zero] at hrem
  rw [LimitOrder.escrow, hrem, h.refund_eq]
  split_ifs with hp
  · exact LimitOrder.escrowFor_add_ge _ _
  · rw [h.dust_eq_zero hp]
    simp

/-- The two bounds on what a fill of an order releases. -/
theorem FillSpec.release_bounds {o o' : LimitOrder} {q : ℤ} {out : FillUpdateOutcome}
    (h : FillSpec o q out o') {rel : QuoteRelease} (hrel : rel.total = o.escrowFor q)
    {l : List QuoteRelease}
    (hl : l = if out.purged then [rel, ⟨out.dustRefund, 0⟩] else [rel]) :
    sumTotal l + o'.escrow ≤ o.escrow ∧ o.escrow ≤ sumTotal l + o'.escrow + l.length ∧
      (o'.active = false → o'.escrow = 0 ∧ o.escrow < sumTotal l + l.length) := by
  have hz : o'.active = false → o'.escrow = 0 := by
    intro ha
    rw [LimitOrder.escrow, h.remaining_eq_zero ha, LimitOrder.escrowFor_zero]
  have hsum : sumTotal l = o.escrowFor q + out.dustRefund := by
    rw [hl]
    split_ifs with hp
    · simp [sumTotal, ← hrel, QuoteRelease.total]
    · simp [sumTotal, hrel, h.refund_eq_zero hp]
  have hlen : (l.length : ℤ) = if out.purged then 2 else 1 := by
    rw [hl]
    split_ifs <;> rfl
  have hle := h.escrow_le
  rw [hsum, hlen]
  cases ha : o'.active with
  | true =>
    have hd := h.refund_eq_zero (h.not_purged ha)
    have hge := h.escrow_ge ha
    rw [if_neg (h.not_purged ha)]
    exact ⟨by omega, by omega, nofun⟩
  | false =>
    have hge := h.escrow_ge_of_closed ha
    have h0 := hz ha
    refine ⟨by omega, ?_, fun _ => ⟨h0, ?_⟩⟩ <;> split_ifs at hge ⊢ <;> omega

theorem QuoteEffect.withheld_nonneg {l : List QuoteRelease} (h : QuoteEffect id b b' l) :
    0 ≤ sumWithheld l := by
  cases h with
  | none _ => exact le_rfl
  | fill _ _ _ _ hnn _ =>
    split_ifs <;> simpa [sumWithheld] using hnn
  | cancel _ _ _ => exact le_rfl

/-- Every effect keeps the account. -/
theorem QuoteEffect.accounted {o : LimitOrder} {locked : ℤ} {l l' : List QuoteRelease}
    (he : QuoteEffect o.id b b' l') (hw : b.WellFormed here) (h : Accounted o locked l b) :
    Accounted o locked (l ++ l') b' := by
  have hnn : 0 ≤ sumWithheld (l ++ l') := by
    rw [sumWithheld, List.map_append, List.sum_append]
    exact add_nonneg h.1 he.withheld_nonneg
  refine ⟨hnn, ?_⟩
  replace h := h.2
  rw [sumTotal_append, List.length_append, Nat.cast_add]
  cases he with
  | none hsame =>
    simp only [sumTotal, List.map_nil, List.sum_nil, add_zero, List.length_nil, Nat.cast_zero]
    rcases h with ⟨c, hc, hk, hside, hle, hge⟩ | ⟨hno, hle, hlt⟩
    · exact .inl ⟨c, (hsame c (congrArg (·.2.2) hk)).mpr hc, hk, hside, hle, hge⟩
    · exact .inr ⟨fun c hc hid => hno c ((hsame c hid).mp hc) hid, hle, hlt⟩
  | @fill c c' q out rel hc hid hspec hrel _ hopen =>
    rcases h with ⟨c₀, hc₀, hk, hside, hle, hge⟩ | ⟨hno, _, _⟩
    · have hid₀ : c₀.id = o.id := congrArg (·.2.2) hk
      obtain rfl := hw.eq_of_open hc hc₀ (hid₀.trans hid.symm)
      obtain ⟨h1, h2, h3⟩ := hspec.release_bounds (hrel hside) rfl
      cases ha : c'.active with
      | true =>
        have hid' : c'.id = o.id := by rw [hspec.eq]; exact hid
        refine .inl ⟨c', (hopen c' hid').mpr ⟨ha, rfl⟩, hspec.key_eq.trans hk,
          hspec.side_eq.trans hside, by omega, by omega⟩
      | false =>
        obtain ⟨h4, h5⟩ := h3 ha
        refine .inr ⟨fun r hr hrid => ?_, by omega, by omega⟩
        have := ((hopen r hrid).mp hr).1
        simp [ha] at this
    · exact absurd hid (hno c hc)
  | @cancel c hc hid hopen =>
    rcases h with ⟨c₀, hc₀, hk, hside, hle, hge⟩ | ⟨hno, _, _⟩
    · have hid₀ : c₀.id = o.id := congrArg (·.2.2) hk
      obtain rfl := hw.eq_of_open hc hc₀ (hid₀.trans hid.symm)
      have hsum : sumTotal [⟨c₀.escrow, 0⟩] = c₀.escrow := by
        simp [sumTotal, QuoteRelease.total]
      rw [hsum]
      refine .inr ⟨fun r hr hrid => hopen r hrid hr, by omega, ?_⟩
      simp only [List.length_singleton, Nat.cast_one]
      omega
    · exact absurd hid (hno c hc)

section Frames

/-- Storing the outcome of a fill of another order leaves the orders with this id alone. -/
theorem open_storeFill_of_ne {r' : LimitOrder} {out : FillUpdateOutcome} (hid : r'.id ≠ id)
    (ht : b'.table = b.table.storeFill out r') (r : LimitOrder) (hr : r.id = id) :
    b'.Open r ↔ b.Open r := by
  have hk : r.key ≠ r'.key := fun hk => hid ((congrArg (·.2.2) hk).symm.trans hr)
  have hl : b'.table.orders.lookup r.key = b.table.orders.lookup r.key := by
    rw [ht, OrderTable.storeFill_lookup, if_neg hk]
  exact ⟨fun h => ⟨hl ▸ h.stored, h.active⟩, fun h => ⟨hl.symm ▸ h.stored, h.active⟩⟩

/-- Storing the outcome of a fill of the open order with this id. -/
theorem open_storeFill {c c' : LimitOrder} {out : FillUpdateOutcome} (hw : b.WellFormed here)
    (ho : b.Open c) (hk : c'.key = c.key) (hp : out.purged = true → c'.active = false)
    (ht : b'.table = b.table.storeFill out c') (hc : c.id = id) (r : LimitOrder)
    (hr : r.id = id) :
    b'.Open r ↔ c'.active = true ∧ r = c' := by
  have hl : b'.table.orders.lookup c'.key = if out.purged then none else some c' := by
    rw [ht, OrderTable.storeFill_lookup, if_pos rfl]
  constructor
  · intro h
    have hkey : r.key = c'.key := by
      by_contra hne
      have hst := h.stored
      rw [ht, OrderTable.storeFill_lookup, if_neg hne] at hst
      have := hw.indexed.key_eq_of_id_eq hst ho.stored (hr.trans hc.symm)
      exact hne (this.trans hk.symm)
    have hst := h.stored
    rw [hkey, hl] at hst
    split_ifs at hst
    obtain rfl := Option.some.inj hst
    exact ⟨h.active, rfl⟩
  · rintro ⟨ha, rfl⟩
    refine ⟨?_, ha⟩
    rw [hl, if_neg fun hp' => by simp [hp hp'] at ha]

theorem Place.open_iff {o : LimitOrder} (h : Place here b b' o)
    (hid : id < b.table.nextOrderId) (r : LimitOrder) (hr : r.id = id) :
    b'.Open r ↔ b.Open r := by
  have hk : r.key ≠ o.key := by
    intro hk
    have : r.id = o.id := congrArg (·.2.2) hk
    rw [h.id_eq] at this
    omega
  have hl : b'.table.orders.lookup r.key = b.table.orders.lookup r.key := by
    rw [h.table_eq]
    simp only [OrderTable.bucketPush_orders, OrderTable.saveOrder, Store.lookup_insert_ite,
      if_neg hk]
  exact ⟨fun h => ⟨hl ▸ h.stored, h.active⟩, fun h => ⟨hl.symm ▸ h.stored, h.active⟩⟩

theorem Purge.open_iff {o : LimitOrder} (h : Purge here b b' o) (r : LimitOrder) :
    b'.Open r ↔ b.Open r := by
  have hl : b'.table.orders.lookup r.key =
      if r.key = o.key then none else b.table.orders.lookup r.key := by
    rw [h.table_eq]
    simp only [OrderTable.removeOrder, OrderTable.bucketRemove_orders, Store.lookup_erase_ite]
  constructor
  · intro hr
    have hst := hr.stored
    rw [hl] at hst
    split_ifs at hst
    exact ⟨hst, hr.active⟩
  · intro hr
    refine ⟨?_, hr.active⟩
    rw [hl, if_neg fun hk => ?_]
    · exact hr.stored
    · have hst := hr.stored
      rw [hk, h.stored] at hst
      have ha := hr.active
      rw [← Option.some.inj hst, h.closed] at ha
      cases ha

theorem Trade.open_iff_of_ne {o o' : LimitOrder} {q paid : ℤ} {out : FillUpdateOutcome}
    {asset : Address} (h : Trade here b b' o q out o' asset paid) (hw : b.WellFormed here)
    (hid : o.id ≠ id) (r : LimitOrder) (hr : r.id = id) : b'.Open r ↔ b.Open r := by
  have hid' : o'.id ≠ id := by rw [(h.spec hw).eq]; exact hid
  exact open_storeFill_of_ne hid' h.table_eq r hr

theorem Cancel.open_iff_of_ne {o : LimitOrder} (h : Cancel here b b' o) (hid : o.id ≠ id)
    (r : LimitOrder) (hr : r.id = id) : b'.Open r ↔ b.Open r := by
  have hid' : o.cancelled.id ≠ id := hid
  exact open_storeFill_of_ne hid' h.table_eq r hr

theorem Cancel.not_open {o : LimitOrder} (h : Cancel here b b' o) (hw : b.WellFormed here)
    (hid : o.id = id) (r : LimitOrder) (hr : r.id = id) : ¬ b'.Open r := by
  have hk : o.cancelled.key = o.key := rfl
  have hiff := open_storeFill hw h.is_open hk (fun _ => rfl) h.table_eq hid r hr
  exact fun hc => absurd (hiff.mp hc).1 (by simp [LimitOrder.cancelled])

/-- The batch cancel closes the orders it lists and leaves the others alone. -/
theorem cancelLoop_open (id : ℕ) {maker : Address} {orderIds : List ℕ} (hw : b.WellFormed here)
    {r r' : BatchCancelResult} (h : cancelLoop env maker orderIds r b = .ok (r', b')) :
    (id ∈ orderIds → (∃ c, b.Open c ∧ c.id = id) ∧ ∀ c : LimitOrder, c.id = id → ¬ b'.Open c) ∧
    (id ∉ orderIds → ∀ c : LimitOrder, c.id = id → (b'.Open c ↔ b.Open c)) := by
  induction orderIds generalizing r b with
  | nil =>
    simp only [cancelLoop, pure_eq_ok, Prod.mk.injEq] at h
    rw [h.2]
    simp
  | cons orderId orderIds ih =>
    simp only [cancelLoop, bind_eq_ok, Prod.exists] at h
    obtain ⟨recovered, b₁, h₁, _, _, _, _, h⟩ := h
    obtain ⟨o, rfl, _, _, hc⟩ := cancelOrderInner_cancel hw h₁
    obtain ⟨hin, hout⟩ := ih (hc.wellFormed hw) h
    by_cases hid : o.id = id
    · subst hid
      have hno : o.id ∉ orderIds := fun hm => by
        obtain ⟨c, hopen, hcid⟩ := (hin hm).1
        exact hc.not_open hw rfl c hcid hopen
      refine ⟨fun _ => ⟨⟨o, hc.is_open, rfl⟩, fun c hcid hopen => ?_⟩,
        fun hm => absurd List.mem_cons_self hm⟩
      exact hc.not_open hw rfl c hcid ((hout hno c hcid).mp hopen)
    · have hsame : ∀ c : LimitOrder, c.id = id → (b₁.Open c ↔ b.Open c) :=
        hc.open_iff_of_ne hid
      constructor
      · intro hm
        have hm' : id ∈ orderIds := (List.mem_cons.mp hm).resolve_left fun h => hid h.symm
        obtain ⟨⟨c, hopen, hcid⟩, hclosed⟩ := hin hm'
        exact ⟨⟨c, (hsame c hcid).mp hopen, hcid⟩, hclosed⟩
      · intro hm c hcid
        have hm' : id ∉ orderIds := fun h => hm (List.mem_cons_of_mem _ h)
        exact (hout hm' c hcid).trans (hsame c hcid)

end Frames

section Sweeps

variable {isBuy : Bool} {pair : AssetPair} {s₀ s s' : Sweep}

/-- The sweep has not traded with the order of this id. -/
structure NotTraded (id : ℕ) (s₀ s : Sweep) : Prop where
  open_iff : ∀ r : LimitOrder, r.id = id → (s.book.Open r ↔ s₀.book.Open r)
  fills_eq : s.fills.filter (·.orderId = id) = []

/-- The sweep has traded with the order of this id once, and will not do so again: it has
nothing left to trade, or the order is used up. -/
structure TradedOnce (id : ℕ) (s₀ s : Sweep) (c c' : LimitOrder) (q : ℤ)
    (out : FillUpdateOutcome) (f : TickMatchFill) : Prop where
  is_open : s₀.book.Open c
  id_eq : c.id = id
  fill : fillUpdate c q = .ok (out, c')
  spec : FillSpec c q out c'
  fills_eq : s.fills.filter (·.orderId = id) = [f]
  filled_eq : f.filledAmount = q
  paid_eq : f.paidAmount = q * c.priceTick / priceScale
  open_iff : ∀ r : LimitOrder, r.id = id → (s.book.Open r ↔ c'.active = true ∧ r = c')
  exhausted : s.remaining = 0 ∨ c'.active = false

variable {o o' c c' : LimitOrder} {q q₀ : ℤ} {out out₀ : FillUpdateOutcome} {f : TickMatchFill}

theorem SweepTrade.remaining_ne (h : SweepTrade env isBuy pair s s' o q out o') :
    s.remaining ≠ 0 := by
  intro hz
  have hq := h.qty_eq
  have hpos := h.trade.pos
  have hle := h.trade.le
  rw [hz] at hq
  split_ifs at hq <;> omega

/-- A trade either uses up the taker's amount or closes the order. -/
theorem SweepTrade.exhausted (h : SweepTrade env isBuy pair s s' o q out o')
    (hw : s.book.WellFormed here) : s'.remaining = 0 ∨ o'.active = false := by
  have hspec := h.trade.spec hw
  have hq := h.qty_eq
  have hrem := h.remaining_eq
  split_ifs at hq
  · exact .inl (by omega)
  · have hrest := hspec.remaining_eq
    have hnn := hspec.dust_nonneg
    refine .inr ?_
    rw [← Bool.not_eq_true, ← hspec.remaining_pos_iff]
    omega

theorem SweepTrade.fills_of_ne (h : SweepTrade env isBuy pair s s' o q out o')
    (hid : o.id ≠ id) :
    s'.fills.filter (·.orderId = id) = s.fills.filter (·.orderId = id) := by
  rw [h.fills_eq, List.filter_append]
  simp [hid]

theorem NotTraded.of_ne (hn : NotTraded id s₀ s) (h : SweepTrade env isBuy pair s s' o q out o')
    (hw : s.book.WellFormed here) (hid : o.id ≠ id) : NotTraded id s₀ s' :=
  ⟨fun r hr => (h.trade.open_iff_of_ne hw hid r hr).trans (hn.open_iff r hr),
    (h.fills_of_ne hid).trans hn.fills_eq⟩

theorem NotTraded.traded (hn : NotTraded id s₀ s)
    (h : SweepTrade env isBuy pair s s' o q out o') (hw : s.book.WellFormed here)
    (hid : o.id = id) : ∃ f, TradedOnce id s₀ s' o o' q out f := by
  have hspec := h.trade.spec hw
  refine ⟨⟨o.id, o.maker, o.priceTick, q, q * o.priceTick / priceScale,
    s'.book.getTickVolume pair o.priceTick (!isBuy)⟩, ?_⟩
  exact
    { is_open := (hn.open_iff o hid).mp h.trade.is_open
      id_eq := hid
      fill := h.trade.fill
      spec := hspec
      fills_eq := by
        rw [h.fills_eq, List.filter_append, hn.fills_eq]
        simp [hid]
      filled_eq := rfl
      paid_eq := rfl
      open_iff := open_storeFill hw h.trade.is_open hspec.key_eq hspec.inactive_of_purged
        h.trade.table_eq hid
      exhausted := h.exhausted hw }

theorem TradedOnce.step (ho : TradedOnce id s₀ s c c' q₀ out₀ f)
    (h : SweepTrade env isBuy pair s s' o q out o') (hw : s.book.WellFormed here) :
    TradedOnce id s₀ s' c c' q₀ out₀ f := by
  have hclosed : c'.active = false := ho.exhausted.resolve_left h.remaining_ne
  have hid : o.id ≠ id := by
    intro hid
    have ha := ((ho.open_iff o hid).mp h.trade.is_open).1
    exact absurd (ha.symm.trans hclosed) (by decide)
  exact
    { ho with
      fills_eq := (h.fills_of_ne hid).trans ho.fills_eq
      open_iff := fun r hr => (h.trade.open_iff_of_ne hw hid r hr).trans (ho.open_iff r hr)
      exhausted := .inr hclosed }

/-- A market order trades with the order of an id at most once. -/
theorem sweep_effect (id : ℕ) (hw : s₀.book.WellFormed here) (hnil : s₀.fills = [])
    (h : Relation.ReflTransGen (Sweep.Step env isBuy pair) s₀ s) :
    s.book.WellFormed here ∧
      (NotTraded id s₀ s ∨ ∃ c c' q out f, TradedOnce id s₀ s c c' q out f) := by
  induction h with
  | refl => exact ⟨hw, .inl ⟨fun r _ => Iff.rfl, by rw [hnil]; rfl⟩⟩
  | tail _ hstep ih =>
    obtain ⟨hws, hcases⟩ := ih
    obtain ⟨o, q, out, o', ht⟩ := hstep
    refine ⟨ht.wellFormed hws, ?_⟩
    rcases hcases with hn | ⟨c, c', q₀, out₀, f, ho⟩
    · by_cases hid : o.id = id
      · obtain ⟨f, ho⟩ := hn.traded ht hws hid
        exact .inr ⟨o, o', q, out, f, ho⟩
      · exact .inl (hn.of_ne ht hws hid)
    · exact .inr ⟨c, c', q₀, out₀, f, ho.step ht hws⟩

end Sweeps

section Effects

theorem quoteReleases_of_open (hw : b.WellFormed here) {c : LimitOrder} (hc : b.Open c)
    {i : BookStep here} (h : bookStep i b = .ok b') :
    quoteReleases c.id b i = orderReleases c b i := by
  have hl := hw.loadOrder_eq_ok.mpr ⟨hc.stored, rfl⟩
  simp only [quoteReleases, hl, h]

theorem quoteReleases_eq_nil (hw : b.WellFormed here) {i : BookStep here}
    (h : ∀ o : LimitOrder, o.id = id → orderReleases o b i = []) :
    quoteReleases id b i = [] := by
  unfold quoteReleases
  cases hl : b.loadOrder id with
  | error e => rfl
  | ok o =>
    cases bookStep i b with
    | error e => rfl
    | ok b' => exact h o (hw.loadOrder_eq_ok.mp hl).2

theorem fillReleases_eq {c c' : LimitOrder} {q : ℤ} {out : FillUpdateOutcome}
    (h : fillUpdate c q = .ok (out, c')) (rel : QuoteRelease) :
    fillReleases c q rel = if out.purged then [rel, ⟨out.dustRefund, 0⟩] else [rel] := by
  simp only [fillReleases, h]

theorem ofSettlement_total (treasury : Option Address) (a : Settlement) :
    (QuoteRelease.ofSettlement treasury a).total =
      a.sellerNet + a.quoteFee + a.priceImprovement := by
  unfold QuoteRelease.ofSettlement QuoteRelease.total
  split_ifs <;> simp only <;> ring

theorem matchOrders_effect (hw : b.WellFormed here) {i j : ℕ} {q : ℤ}
    (h : bookStep (env, .matchOrders i j q) b = .ok b')
    (hbuy : ∀ c : LimitOrder, b.Open c → c.id = id → c.side = .buy) :
    QuoteEffect id b b' (quoteReleases id b (env, .matchOrders i j q)) := by
  obtain ⟨r, hr⟩ := snd_map_eq_ok.mp h
  obtain ⟨seller, buyer, sellerOut, buyerOut, seller', buyer', a, rfl, rfl, hm⟩ :=
    matchOrders_match hw hr
  have hseller : seller.id ≠ id := fun hid =>
    absurd (hm.seller_side.symm.trans (hbuy seller hm.seller_open hid)) (by decide)
  have hseller' : seller'.id ≠ id := by rw [(hm.seller_spec hw).eq]; exact hseller
  have hhalf : ∀ r : LimitOrder, r.id = id →
      (({ b with table := b.table.storeFill sellerOut seller' } : Book).Open r ↔ b.Open r) :=
    open_storeFill_of_ne hseller' rfl
  have hbSpec := hm.buyer_spec hw
  by_cases hid : buyer.id = id
  · subst hid
    have hload := hw.loadOrder_eq_ok.mpr ⟨hm.seller_open.stored, rfl⟩
    have hrel : quoteReleases buyer.id b (env, .matchOrders seller.id buyer.id q) =
        if buyerOut.purged then
          [QuoteRelease.ofSettlement env.treasury a, ⟨buyerOut.dustRefund, 0⟩]
        else [QuoteRelease.ofSettlement env.treasury a] := by
      rw [quoteReleases_of_open hw hm.buyer_open h]
      simp only [orderReleases, if_true, hload, matchReleases, hm.amounts_eq,
        fillReleases_eq hm.buyer_fill]
    rw [hrel]
    obtain ⟨_, hquote, _, hfee, _⟩ := settlement_eq_ok hm.pos.le
      (hm.seller_open.sound hw).priceTick_pos.le (hm.buyer_open.sound hw).priceTick_pos.le
      hm.amounts_eq
    refine .fill hm.buyer_open rfl hbSpec (fun _ => ?_) ?_ ?_
    · rw [ofSettlement_total, hquote]
      simp [LimitOrder.escrowFor, hm.buyer_side]
    · unfold QuoteRelease.ofSettlement
      split_ifs
      · exact le_rfl
      · exact hfee
    · exact open_storeFill (hm.seller_half hw) (hm.buyer_half_open hw) hbSpec.key_eq
        hbSpec.inactive_of_purged hm.table_eq rfl
  · have hbuyer' : buyer'.id ≠ id := by rw [hbSpec.eq]; exact hid
    have hnil : quoteReleases id b (env, .matchOrders seller.id buyer.id q) = [] :=
      quoteReleases_eq_nil hw fun o ho => if_neg fun hc => hid (hc.trans ho)
    rw [hnil]
    exact .none fun r hr =>
      (open_storeFill_of_ne hbuyer' hm.table_eq r hr).trans (hhalf r hr)

theorem matchMarketOrder_effect (hw : b.WellFormed here) {taker : Address} {pair : AssetPair}
    {amount : ℤ} {isBuy : Bool}
    (h : bookStep (env, .matchMarketOrder taker pair amount isBuy) b = .ok b') :
    QuoteEffect id b b'
      (quoteReleases id b (env, .matchMarketOrder taker pair amount isBuy)) := by
  obtain ⟨r, hr⟩ := snd_map_eq_ok.mp h
  obtain ⟨s, rfl, hfills, _, _, _, hsteps⟩ := matchMarketOrder_steps hw hr
  rcases (sweep_effect id hw rfl hsteps).2 with hn | ⟨c, c', q, out, f, ht⟩
  · have hnil : quoteReleases id b (env, .matchMarketOrder taker pair amount isBuy) = [] := by
      refine quoteReleases_eq_nil hw fun o ho => ?_
      simp only [orderReleases, hr, marketReleases, hfills, ho, hn.fills_eq, List.flatMap_nil]
    rw [hnil]
    exact .none hn.open_iff
  · obtain rfl := ht.id_eq
    have hrel : quoteReleases c.id b (env, .matchMarketOrder taker pair amount isBuy) =
        if out.purged then [⟨f.paidAmount, 0⟩, ⟨out.dustRefund, 0⟩]
        else [⟨f.paidAmount, 0⟩] := by
      rw [quoteReleases_of_open hw ht.is_open h]
      simp only [orderReleases, hr, marketReleases, hfills, ht.fills_eq, ht.filled_eq,
        List.flatMap_cons, List.flatMap_nil, List.append_nil, fillReleases_eq ht.fill]
    rw [hrel]
    refine .fill ht.is_open rfl ht.spec (fun hside => ?_) le_rfl ht.open_iff
    simp only [QuoteRelease.total, add_zero, ht.paid_eq, LimitOrder.escrowFor, hside, if_true]

theorem cancelReleases_of_open (hw : b.WellFormed here) {c : LimitOrder} (hc : b.Open c) :
    cancelReleases c = [⟨c.escrow, 0⟩] := by
  have hs := hc.sound hw
  have hr : refundAmount c c.remainingAmount = .ok c.escrow :=
    hs.refundAmount_eq hc.active (hs.remaining_pos hc.active).le le_rfl
  simp only [cancelReleases, hr]

theorem cancelOrder_effect (hw : b.WellFormed here) {maker : Address} {orderId : ℕ}
    (h : bookStep (env, .cancelOrder maker orderId) b = .ok b') :
    QuoteEffect id b b' (quoteReleases id b (env, .cancelOrder maker orderId)) := by
  obtain ⟨r, hr⟩ := snd_map_eq_ok.mp h
  obtain ⟨_, _, hr⟩ := bind_eq_ok.mp hr
  obtain ⟨o, rfl, _, _, hc⟩ := cancelOrderInner_cancel hw hr
  by_cases hid : o.id = id
  · subst hid
    rw [quoteReleases_of_open hw hc.is_open h]
    simp only [orderReleases, if_true, cancelReleases_of_open hw hc.is_open]
    exact .cancel hc.is_open rfl (hc.not_open hw rfl)
  · have hnil : quoteReleases id b (env, .cancelOrder maker o.id) = [] :=
      quoteReleases_eq_nil hw fun o' ho' => if_neg fun he => hid (he.trans ho')
    rw [hnil]
    exact .none (hc.open_iff_of_ne hid)

theorem cancelOrdersBatch_effect (hw : b.WellFormed here) {maker : Address} {orderIds : List ℕ}
    (h : bookStep (env, .cancelOrdersBatch maker orderIds) b = .ok b') :
    QuoteEffect id b b' (quoteReleases id b (env, .cancelOrdersBatch maker orderIds)) := by
  obtain ⟨r, hr⟩ := snd_map_eq_ok.mp h
  obtain ⟨_, _, hr⟩ := bind_eq_ok.mp hr
  obtain ⟨hin, hout⟩ := cancelLoop_open id hw hr
  by_cases hid : id ∈ orderIds
  · obtain ⟨⟨c, hc, rfl⟩, hclosed⟩ := hin hid
    rw [quoteReleases_of_open hw hc h]
    simp only [orderReleases, if_pos hid, cancelReleases_of_open hw hc]
    exact .cancel hc rfl hclosed
  · have hnil : quoteReleases id b (env, .cancelOrdersBatch maker orderIds) = [] :=
      quoteReleases_eq_nil hw fun o' ho' => if_neg fun he => hid (ho' ▸ he)
    rw [hnil]
    exact .none (hout hid)

/-- What a successful call other than a direct fill does to the account of a buy order. -/
theorem exec_effect (hw : b.WellFormed here) (hissued : id < b.table.nextOrderId)
    (hbuy : ∀ c : LimitOrder, b.Open c → c.id = id → c.side = .buy) (i : BookStep here)
    (hfill : ∀ filler q, i.2 ≠ .fillOrder filler id q) (h : bookStep i b = .ok b') :
    QuoteEffect id b b' (quoteReleases id b i) := by
  obtain ⟨env, call⟩ := i
  have hnil : ∀ i : BookStep here, (∀ o, orderReleases o b i = []) → quoteReleases id b i = [] :=
    fun i hi => quoteReleases_eq_nil hw fun o _ => hi o
  cases call with
  | placeOrderWithExpiry maker pair priceTick sellAmount expiry =>
    obtain ⟨o, ho⟩ := snd_map_eq_ok.mp h
    rw [hnil _ fun _ => rfl]
    exact .none ((placeOrderWithExpiry_place ho).open_iff hissued)
  | placeBuyOrder maker pair priceTick buyAmount =>
    obtain ⟨o, ho⟩ := snd_map_eq_ok.mp h
    rw [hnil _ fun _ => rfl]
    exact .none ((placeBuyOrder_place ho).open_iff hissued)
  | fillOrder filler orderId fillAmount =>
    obtain ⟨r, hr⟩ := snd_map_eq_ok.mp h
    obtain ⟨o, out, o', rfl, _, ht⟩ := fillOrder_trade hw hr
    rw [hnil _ fun _ => rfl]
    exact .none (ht.open_iff_of_ne hw fun hid => hfill filler fillAmount (by rw [← hid]))
  | matchOrders i j q => exact matchOrders_effect hw h hbuy
  | matchMarketOrder taker pair amount isBuy => exact matchMarketOrder_effect hw h
  | cancelOrder maker orderId => exact cancelOrder_effect hw h
  | cancelOrdersBatch maker orderIds => exact cancelOrdersBatch_effect hw h
  | withdrawBalance owner asset amount =>
    obtain ⟨r, hr⟩ := snd_map_eq_ok.mp h
    have ht := (withdrawBalance_withdraw hr).table_eq
    rw [hnil _ fun _ => rfl]
    exact .none fun c _ => ⟨fun hc => ⟨ht ▸ hc.stored, hc.active⟩,
      fun hc => ⟨ht.symm ▸ hc.stored, hc.active⟩⟩
  | purgeClosedOrders orderIds =>
    rw [hnil _ fun _ => rfl]
    refine .none fun r _ => ?_
    refine (exec_induction (P := fun c => c.Open r ↔ b.Open r) hw Iff.rfl
      (fun c c' _ hp he => ?_) h).2
    cases he with
    | place hcall _ => exact hcall.elim
    | cancel hcall _ => exact hcall.elim
    | purge ids hp' => exact (hp'.open_iff r).trans hp

end Effects

section Ledger

variable {o : LimitOrder} {locked : ℤ} {l : List QuoteRelease}

theorem Accounted.side_buy (h : Accounted o locked l b) (hw : b.WellFormed here)
    (c : LimitOrder) (hc : b.Open c) (hid : c.id = o.id) : c.side = .buy := by
  rcases h.2 with ⟨c₀, hc₀, hk, hside, _⟩ | ⟨hno, _⟩
  · have hid₀ : c₀.id = o.id := congrArg (·.2.2) hk
    rw [hw.eq_of_open hc₀ hc (hid.trans hid₀.symm)]
    exact hside
  · exact absurd hid (hno c hc)

/-- The account holds at the end of every run without direct fills of the order. -/
theorem Accounted.run (h : Accounted o locked l b) (hw : b.WellFormed here)
    (hissued : o.id < b.table.nextOrderId) (run : List (BookStep here))
    (hfill : ∀ i ∈ run, ∀ filler q, i.2 ≠ .fillOrder filler o.id q) :
    Accounted o locked (l ++ quoteLedger o.id b run) (runAll bookStep b run) := by
  induction run generalizing b l with
  | nil => simpa [quoteLedger] using h
  | cons i run ih =>
    have hrest := fun j hj => hfill j (List.mem_cons_of_mem i hj)
    rw [quoteLedger, runAll_cons, ← List.append_assoc]
    cases hs : bookStep i b with
    | error e =>
      have hnil : quoteReleases o.id b i = [] := by
        unfold quoteReleases
        rw [hs]
        split <;> simp_all
      rw [hnil, List.append_nil, commit_of_error hs]
      exact ih h hw hissued hrest
    | ok b' =>
      rw [commit_of_ok hs]
      have heff := exec_effect hw hissued (h.side_buy hw) i (hfill i List.mem_cons_self) hs
      exact ih (heff.accounted hw h) (exec_wellFormed hw hs)
        (hissued.trans_le (exec_nextOrderId_le hw hs)) hrest

theorem fillReleases_withheld {q : ℤ} {fill : QuoteRelease} (hf : fill.withheld = 0) :
    ∀ r ∈ fillReleases o q fill, r.withheld = 0 := by
  unfold fillReleases
  split
  · split_ifs <;> simp [hf]
  · simp

/-- With a treasury configured a call withholds nothing. -/
theorem quoteReleases_withheld {i : BookStep here} (ht : i.1.treasury.isSome = true) :
    ∀ r ∈ quoteReleases id b i, r.withheld = 0 := by
  have hcancel : ∀ o, ∀ r ∈ cancelReleases o, r.withheld = 0 := by
    intro o
    unfold cancelReleases
    split <;> simp
  unfold quoteReleases
  split
  · rename_i o b' _ _
    unfold orderReleases
    split
    · split_ifs
      · unfold matchReleases
        split
        · simp
        · split
          · simp
          · exact fillReleases_withheld (by simp [QuoteRelease.ofSettlement, ht])
      · simp
    · split
      · unfold marketReleases
        intro r hr
        obtain ⟨f, _, hf⟩ := List.mem_flatMap.mp hr
        exact fillReleases_withheld rfl r hf
      · simp
    · split_ifs
      · exact hcancel _
      · simp
    · split_ifs
      · exact hcancel _
      · simp
    · simp
  · simp

theorem sumWithheld_eq_zero (hl : ∀ r ∈ l, r.withheld = 0) : sumWithheld l = 0 := by
  induction l with
  | nil => rfl
  | cons r l ih =>
    have h1 := hl r List.mem_cons_self
    have h2 := ih fun r' hr' => hl r' (List.mem_cons_of_mem _ hr')
    simp only [sumWithheld, List.map_cons, List.sum_cons, h1] at h2 ⊢
    omega

theorem quoteLedger_withheld {run : List (BookStep here)}
    (ht : ∀ i ∈ run, i.1.treasury.isSome = true) :
    ∀ r ∈ quoteLedger id b run, r.withheld = 0 := by
  induction run generalizing b with
  | nil => simp [quoteLedger]
  | cons i run ih =>
    intro r hr
    rcases List.mem_append.mp hr with hr | hr
    · exact quoteReleases_withheld (ht i List.mem_cons_self) r hr
    · exact ih (fun j hj => ht j (List.mem_cons_of_mem _ hj)) r hr

/-- The account of a freshly placed buy order. -/
theorem placeBuyOrder_accounted {maker : Address} {pair : AssetPair} {priceTick amount : ℤ}
    (hw : b.WellFormed here)
    (h : placeBuyOrder env maker pair priceTick amount b = .ok (o, b')) :
    ∃ locked, quoteAmount amount priceTick = .ok locked ∧ Accounted o locked [] b' ∧
      o.id < b'.table.nextOrderId := by
  have hp := placeBuyOrder_place h
  simp only [placeBuyOrder, bind_eq_ok, failIf_eq_ok, Env.requireAuth_eq_ok] at h
  obtain ⟨_, ha, _, ht, _, _, locked, hq, b₁, _, h⟩ := h
  have hfields : o.side = .buy ∧ o.remainingAmount = amount ∧ o.priceTick = priceTick := by
    simp only [restOrder, nextOrderId, bind_eq_ok, okOr_eq_ok, pure_eq_ok, Prod.exists,
      Prod.mk.injEq] at h
    obtain ⟨_, _, _, _, _, rfl, _⟩ := h
    exact ⟨rfl, rfl, rfl⟩
  obtain ⟨hside, hrem, htick⟩ := hfields
  have hescrow : o.escrow = locked := by
    rw [((quoteAmount_eq_ok (not_le.mp ha).le (not_le.mp ht).le).mp hq).2]
    simp [LimitOrder.escrow, LimitOrder.escrowFor, hside, hrem, htick]
  have hopen : b'.Open o := by
    refine ⟨?_, hp.active⟩
    rw [hp.table_eq]
    simp only [OrderTable.bucketPush_orders, OrderTable.saveOrder, Store.lookup_insert_ite,
      if_true]
  refine ⟨locked, hq, ⟨le_rfl, .inl ⟨o, hopen, rfl, hside, ?_, ?_⟩⟩,
    (hp.wellFormed hw).indexed.order_fresh _ o hopen.stored⟩
  · simp [sumTotal, hescrow]
  · simp [sumTotal, hescrow]

/-- In every run after the placement of a buy order in which it is not filled directly, what
is released on its account never exceeds the locked quote; once the order is closed, what is
left over, fees withheld for lack of a treasury apart, is less than the number of releases;
and with a treasury configured nothing is withheld. -/
theorem buyOrder_quote_conserved (tokens : Tokens) (before after : List (BookStep here))
    {maker : Address} {pair : AssetPair} {priceTick amount : ℤ} {b₁ : Book}
    (hplace : placeBuyOrder env maker pair priceTick amount (bookAfter tokens before) =
      .ok (o, b₁))
    (hfill : ∀ i ∈ after, ∀ filler q, i.2 ≠ .fillOrder filler o.id q) :
    ∃ locked, quoteAmount amount priceTick = .ok locked ∧
      sumReleased (quoteLedger o.id b₁ after) ≤ locked ∧
      ((∀ c, (runAll bookStep b₁ after).loadOrder o.id = .ok c → c.active = false) →
        locked - sumReleased (quoteLedger o.id b₁ after) -
          sumWithheld (quoteLedger o.id b₁ after) < (quoteLedger o.id b₁ after).length) ∧
      ((∀ i ∈ after, i.1.treasury.isSome = true) →
        sumWithheld (quoteLedger o.id b₁ after) = 0) := by
  have hw : (bookAfter tokens before).WellFormed here := (bookAfter_ranked tokens before).1
  obtain ⟨locked, hq, hacc, hissued⟩ := placeBuyOrder_accounted hw hplace
  have hw₁ := (placeBuyOrder_place hplace).wellFormed hw
  have hend := hacc.run hw₁ hissued after hfill
  rw [List.nil_append] at hend
  have hwEnd : (runAll bookStep b₁ after).WellFormed here :=
    runAll_induction (P := Book.WellFormed here) (fun _ _ _ hws hs => exec_wellFormed hws hs)
      hw₁ after
  obtain ⟨hnn, hcases⟩ := hend
  rw [sumTotal_eq] at hcases
  refine ⟨locked, hq, ?_, fun hclosed => ?_, fun ht => sumWithheld_eq_zero
    (quoteLedger_withheld ht)⟩
  · rcases hcases with ⟨c, hc, _, _, hle, _⟩ | ⟨_, hle, _⟩
    · have hs := hc.sound hwEnd
      have hpos : 0 ≤ c.escrow :=
        LimitOrder.escrowFor_nonneg hs.priceTick_pos (hs.remaining_pos hc.active).le
      omega
    · omega
  · rcases hcases with ⟨c, hc, hk, _, _, _⟩ | ⟨_, _, hlt⟩
    · have hl := hwEnd.loadOrder_eq_ok.mpr ⟨hc.stored, congrArg (·.2.2) hk⟩
      exact absurd (hc.active.symm.trans (hclosed c hl)) (by decide)
    · omega

end Ledger

/-- A sell order that a buy order of the same price will meet. -/
def askRun : List (BookStep ⟨0⟩) :=
  [(.standard _ 1 none, .placeOrderWithExpiry ⟨1⟩ samplePair priceScale 1000 0)]

/-- A match, a market order against the rest, and a cancellation. -/
def closingRun : List (BookStep ⟨0⟩) :=
  [(.standard _ 1 (some ⟨9⟩), .matchOrders 0 1 400),
   (.standard _ 1 (some ⟨9⟩), .matchMarketOrder ⟨3⟩ samplePair 300 false),
   (.standard _ 1 (some ⟨9⟩), .cancelOrder ⟨2⟩ 1)]

theorem closingRun_conserved : ∃ o b₁,
    placeBuyOrder (.standard ⟨0⟩ 1 none) ⟨2⟩ samplePair priceScale 1000
      (bookAfter sampleTokens askRun) = .ok (o, b₁) ∧
    ∃ locked, quoteAmount 1000 priceScale = .ok locked ∧
      sumReleased (quoteLedger o.id b₁ closingRun) ≤ locked ∧
      ((∀ c, (runAll bookStep b₁ closingRun).loadOrder o.id = .ok c → c.active = false) →
        locked - sumReleased (quoteLedger o.id b₁ closingRun) -
          sumWithheld (quoteLedger o.id b₁ closingRun) <
            (quoteLedger o.id b₁ closingRun).length) ∧
      ((∀ i ∈ closingRun, i.1.treasury.isSome = true) →
        sumWithheld (quoteLedger o.id b₁ closingRun) = 0) := by
  cases h : placeBuyOrder (.standard ⟨0⟩ 1 none) ⟨2⟩ samplePair priceScale 1000
      (bookAfter sampleTokens askRun) with
  | error e =>
    have hok : (placeBuyOrder (.standard ⟨0⟩ 1 none) ⟨2⟩ samplePair priceScale 1000
      (bookAfter sampleTokens askRun)).toOption.isSome = true := by decide +kernel
    rw [h] at hok
    cases hok
  | ok r =>
    refine ⟨r.1, r.2, rfl, buyOrder_quote_conserved sampleTokens askRun closingRun h ?_⟩
    intro i hi filler q
    simp only [closingRun, List.mem_cons, List.not_mem_nil, or_false] at hi
    rcases hi with rfl | rfl | rfl <;> simp

/-- The book with both orders, and their match in full while no treasury is configured. -/
def crossedBook : Book :=
  bookAfter sampleTokens (askRun ++
    [(.standard _ 1 none, .placeBuyOrder ⟨2⟩ samplePair priceScale 1000)])

def feeRun : List (BookStep ⟨0⟩) := [(.standard _ 1 none, .matchOrders 0 1 1000)]

/-- One release of 997 units closes the order, and three of the thousand locked units stay
behind. -/
theorem feeRun_leaves_fee :
    quoteAmount 1000 priceScale = .ok 1000 ∧
    ((runAll bookStep crossedBook feeRun).loadOrder 1).toOption.map LimitOrder.active =
      some false ∧
    sumReleased (quoteLedger 1 crossedBook feeRun) = 997 ∧
    (quoteLedger 1 crossedBook feeRun).length = 1 ∧
    ¬ (1000 - sumReleased (quoteLedger 1 crossedBook feeRun) <
      ((quoteLedger 1 crossedBook feeRun).length : ℤ)) := by
  have h : ((runAll bookStep crossedBook feeRun).loadOrder 1).toOption.map LimitOrder.active =
      some false ∧ sumReleased (quoteLedger 1 crossedBook feeRun) = 997 ∧
      (quoteLedger 1 crossedBook feeRun).length = 1 := by decide +kernel
  refine ⟨rfl, h.1, h.2.1, h.2.2, ?_⟩
  rw [h.2.1, h.2.2]
  decide

end StellarFlow.Orders
