import StellarFlow.Orders.Calls

/-!
# The sweep of a market order

A market order walks the active ticks and, per tick, a snapshot of the bucket. Whatever
it does to the book it does by trades: each trade takes the smaller of what is still
wanted and what the order has left, and appends one fill.
-/
namespace StellarFlow.Orders

open Foundation

variable {here : Address} {env : Env here} {taker : Address} {isBuy : Bool} {pair : AssetPair}

/-- One trade of a market order, between the progress before and after it. -/
structure SweepTrade (env : Env here) (isBuy : Bool) (pair : AssetPair) (s s' : Sweep)
    (o : LimitOrder) (q : ℤ) (out : FillUpdateOutcome) (o' : LimitOrder) : Prop where
  trade : Trade here s.book s'.book o q out o' o.escrowAsset (o.escrowFor q)
  pair_eq : o.pair = pair
  side_eq : o.isBid = !isBuy
  live : ¬ o.expired env.sequence
  qty_eq : q = if s.remaining < o.remainingAmount then s.remaining else o.remainingAmount
  remaining_eq : s'.remaining = s.remaining - q
  fills_eq : s'.fills = s.fills ++ [{
    orderId := o.id, maker := o.maker, priceTick := o.priceTick, filledAmount := q
    paidAmount := q * o.priceTick / priceScale
    tickVolumeAfter := s'.book.getTickVolume pair o.priceTick (!isBuy) }]

/-- Some trade leads from one progress to the next. -/
def Sweep.Step (env : Env here) (isBuy : Bool) (pair : AssetPair) (s s' : Sweep) : Prop :=
  ∃ o q out o', SweepTrade env isBuy pair s s' o q out o'

theorem LimitOrder.escrowAsset_of_isBid {o : LimitOrder} (h : o.isBid = !isBuy) :
    o.escrowAsset = if isBuy then o.pair.sellAsset else o.pair.buyAsset := by
  cases isBuy <;> simp_all [LimitOrder.isBid, LimitOrder.escrowAsset]

theorem LimitOrder.escrowFor_of_isBid {o : LimitOrder} (h : o.isBid = !isBuy) (q : ℤ) :
    o.escrowFor q = if isBuy then q else q * o.priceTick / priceScale := by
  cases isBuy <;> simp_all [LimitOrder.isBid, LimitOrder.escrowFor]

theorem exchange_paid {b b' : Book} {o : LimitOrder} {q paid : ℤ} (ht : taker ≠ here)
    (hm : o.maker ≠ here) (hside : o.isBid = !isBuy)
    (hpaid : paid = q * o.priceTick / priceScale)
    (h : exchange env taker isBuy o q paid b = .ok b') :
    b'.table = b.table ∧ b'.ticks = b.ticks ∧ b'.balances = b.balances ∧
      ∀ T, b'.held here T = b.held here T - if T = o.escrowAsset then o.escrowFor q else 0 := by
  rw [o.escrowAsset_of_isBid hside, o.escrowFor_of_isBid hside, ← hpaid]
  unfold exchange at h
  cases isBuy with
  | true =>
    simp only [if_true, bind_eq_ok] at h ⊢
    obtain ⟨b₁, h₁, h₂⟩ := h
    exact Book.payThrough_eq_ok ht hm h₁ h₂
  | false =>
    simp only [Bool.false_eq_true, if_false, bind_eq_ok] at h ⊢
    obtain ⟨b₁, h₁, h₂⟩ := h
    exact Book.payThrough_eq_ok ht hm h₁ h₂

theorem settleFill_trade {s s' : Sweep} (hw : s.book.WellFormed here) (ht : taker ≠ here)
    (hr : 0 < s.remaining) {o : LimitOrder} (ho : s.book.Open o) (hpair : o.pair = pair)
    (hside : o.isBid = !isBuy) (hexp : ¬ o.expired env.sequence)
    (h : settleFill env taker isBuy pair o.priceTick o s = .ok s') :
    ∃ q out o', SweepTrade env isBuy pair s s' o q out o' := by
  simp only [settleFill, bind_eq_ok, okOr_eq_ok, IntRange.check_eq_some, pure_eq_ok,
    Prod.exists] at h
  obtain ⟨paid, hpaid, _, _, b₁, h₁, out, o', b₂, h₂, b₃, h₃, _, ⟨_, rfl⟩, _, ⟨_, rfl⟩, _,
    ⟨_, rfl⟩, rfl⟩ := h
  have hs := ho.sound hw
  have hpos := hs.remaining_pos ho.active
  set q := if s.remaining < o.remainingAmount then s.remaining else o.remainingAmount with hq
  have hq0 : 0 < q := by rw [hq]; split_ifs <;> omega
  have hle : q ≤ o.remainingAmount := by rw [hq]; split_ifs <;> omega
  obtain ⟨_, rfl⟩ := (quoteAmount_eq_ok hq0.le hs.priceTick_pos.le).mp hpaid
  have hspec := fillUpdate_spec hs ho.active hq0 hle (Book.applyPartialFill_eq_ok.mp h₂).1
  have hid : o'.id = o.id := by rw [hspec.eq]
  have hmaker : o'.maker = o.maker := by rw [hspec.eq]
  refine ⟨q, out, o', ?_, hpair, hside, hexp, hq, rfl, ?_⟩
  · refine trade_of_steps hw ho hq0 hle (exchange_paid ht hs.maker_ne hside rfl h₁) h₂ h₃ ?_
    rw [hside, hpair]
  · simp only [hid, hmaker]

/-- Visiting an order trades with it or passes it over. -/
theorem visitOrder_step {s s' : Sweep} {tick : ℤ} {orderId : ℕ} (hw : s.book.WellFormed here)
    (ht : taker ≠ here) (hr : 0 < s.remaining)
    (hid : ∀ o, s.book.table.orders.lookup o.key = some o → o.id = orderId →
      o.pair = pair ∧ o.priceTick = tick)
    (h : visitOrder env taker isBuy pair tick orderId s = .ok s') :
    s' = s ∨ s.Step env isBuy pair s' := by
  unfold visitOrder at h
  cases hl : s.book.loadOrder orderId with
  | error e =>
    simp only [hl, pure_eq_ok] at h
    exact .inl h.symm
  | ok o =>
    simp only [hl] at h
    split_ifs at h with ha hexp hside
    · exact .inl (pure_eq_ok.mp h).symm
    · exact .inl (pure_eq_ok.mp h).symm
    · exact .inl (pure_eq_ok.mp h).symm
    · obtain ⟨hst, hoid⟩ := hw.loadOrder_eq_ok.mp hl
      obtain ⟨hpair, rfl⟩ := hid o hst hoid
      have hopen : s.book.Open o := ⟨hst, by simpa using fun hc => ha (.inl hc)⟩
      have hbid : o.isBid = !isBuy := by
        cases hb : o.isBid <;> cases isBuy <;> simp_all
      exact .inr ⟨o, settleFill_trade hw ht hr hopen hpair hbid hexp h⟩

namespace SweepTrade

variable {s s' : Sweep} {o o' : LimitOrder} {q : ℤ} {out : FillUpdateOutcome}

theorem remaining_nonneg (h : SweepTrade env isBuy pair s s' o q out o') :
    0 ≤ s'.remaining := by
  have hq := h.qty_eq
  rw [h.remaining_eq]
  split_ifs at hq <;> omega

theorem wellFormed (h : SweepTrade env isBuy pair s s' o q out o')
    (hw : s.book.WellFormed here) : s'.book.WellFormed here :=
  h.trade.wellFormed hw

/-- A trade adds no record. -/
theorem stored_before (h : SweepTrade env isBuy pair s s' o q out o')
    (hw : s.book.WellFormed here) {k : OrderKey} {r : LimitOrder}
    (hk : s'.book.table.orders.lookup k = some r) :
    ∃ r₀, s.book.table.orders.lookup k = some r₀ := by
  rw [h.trade.table_eq, OrderTable.storeFill_lookup] at hk
  split_ifs at hk with hko
  · exact ⟨o, by rw [hko, (h.trade.spec hw).key_eq, h.trade.is_open.stored]⟩
  · exact ⟨r, hk⟩

end SweepTrade

/-- The ids left to visit belong to the bucket being walked. -/
def Sweep.Snapshot (pair : AssetPair) (tick : ℤ) (ids : List ℕ) (s : Sweep) : Prop :=
  ∀ id ∈ ids, ∀ o, s.book.table.orders.lookup o.key = some o → o.id = id →
    o.pair = pair ∧ o.priceTick = tick

theorem Sweep.Snapshot.of_step {s s' : Sweep} {tick : ℤ} {ids : List ℕ}
    (hs : s.Snapshot pair tick ids) (hw : s.book.WellFormed here)
    (h : s.Step env isBuy pair s') : s'.Snapshot pair tick ids := by
  obtain ⟨o, q, out, o', h⟩ := h
  intro id hid r hr hrid
  obtain ⟨r₀, hr₀⟩ := h.stored_before hw hr
  have hk := hw.indexed.order_key _ r₀ hr₀
  have hid₀ : r₀.id = id := (congrArg (·.2.2) hk).symm.trans hrid
  obtain ⟨hp, hx⟩ := hs id hid r₀ (hk ▸ hr₀) hid₀
  exact ⟨(congrArg (·.1) hk).trans hp, (congrArg (·.2.1) hk).trans hx⟩

theorem Sweep.Snapshot.of_bucket {s : Sweep} (hw : s.book.WellFormed here) (tick : ℤ) :
    s.Snapshot pair tick (s.book.getOrdersAtTick pair tick) := by
  intro id hid o ho hoid
  obtain ⟨r, hr, _⟩ := (hw.indexed.bucket_mem _ _ _).mp hid
  have hk := hw.indexed.key_eq_of_id_eq ho hr hoid
  exact ⟨congrArg (·.1) hk, congrArg (·.2.1) hk⟩

theorem sweepBucket_steps {tick : ℤ} {ids : List ℕ} {s s' : Sweep}
    (hw : s.book.WellFormed here) (ht : taker ≠ here) (hr : 0 ≤ s.remaining)
    (hs : s.Snapshot pair tick ids)
    (h : sweepBucket env taker isBuy pair tick ids s = .ok s') :
    Relation.ReflTransGen (Sweep.Step env isBuy pair) s s' ∧ s'.book.WellFormed here ∧
      0 ≤ s'.remaining := by
  induction ids generalizing s with
  | nil =>
    rw [sweepBucket, pure_eq_ok] at h
    subst h
    exact ⟨.refl, hw, hr⟩
  | cons id ids ih =>
    rw [sweepBucket] at h
    split_ifs at h with hz
    · rw [pure_eq_ok] at h
      subst h
      exact ⟨.refl, hw, hr⟩
    · obtain ⟨s₁, h₁, h₂⟩ := bind_eq_ok.mp h
      have htail : ∀ t : Sweep, t.Snapshot pair tick (id :: ids) → t.Snapshot pair tick ids :=
        fun t ht i hi => ht i (List.mem_cons_of_mem _ hi)
      rcases visitOrder_step hw ht (by omega) (hs id List.mem_cons_self) h₁ with rfl | hstep
      · exact ih hw hr (htail _ hs) h₂
      · have hsnap := htail _ (hs.of_step hw hstep)
        obtain ⟨o, q, out, o', htr⟩ := hstep
        obtain ⟨hrest, hw', hr'⟩ := ih (htr.wellFormed hw) htr.remaining_nonneg hsnap h₂
        exact ⟨.head ⟨o, q, out, o', htr⟩ hrest, hw', hr'⟩

/-- The whole sweep is a chain of trades. -/
theorem sweepTicks_steps {ticks : List ℤ} {s s' : Sweep} (hw : s.book.WellFormed here)
    (ht : taker ≠ here) (hr : 0 ≤ s.remaining)
    (h : sweepTicks env taker isBuy pair ticks s = .ok s') :
    Relation.ReflTransGen (Sweep.Step env isBuy pair) s s' := by
  induction ticks generalizing s with
  | nil =>
    rw [sweepTicks, pure_eq_ok] at h
    rw [h]
  | cons tick ticks ih =>
    rw [sweepTicks] at h
    split_ifs at h with hz
    · rw [pure_eq_ok] at h
      rw [h]
    · obtain ⟨s₁, h₁, h⟩ := bind_eq_ok.mp h
      obtain ⟨hsteps, hw₁, hr₁⟩ := sweepBucket_steps hw ht hr (.of_bucket hw tick) h₁
      exact hsteps.trans (ih hw₁ hr₁ h)

/-- What a successful market order returns and does. -/
theorem matchMarketOrder_steps {amount : ℤ} {b b' : Book} {r : TickMatchResult}
    (hw : b.WellFormed here) (h : matchMarketOrder env taker isBuy pair amount b = .ok (r, b')) :
    ∃ s, s.book = b' ∧ r.fills = s.fills ∧ r.filledAmount = amount - s.remaining ∧
      r.fills ≠ [] ∧ 0 < amount ∧
      Relation.ReflTransGen (Sweep.Step env isBuy pair) ⟨b, amount, 0, []⟩ s := by
  simp only [matchMarketOrder, bind_eq_ok, failIf_eq_ok, Env.requireAuth_eq_ok, okOr_eq_ok,
    IntRange.check_eq_some, pure_eq_ok, Prod.mk.injEq] at h
  obtain ⟨_, ha, _, hauth, s, hs, _, hne, _, ⟨_, rfl⟩, rfl, rfl⟩ := h
  exact ⟨s, rfl, rfl, rfl, hne, not_le.mp ha,
    sweepTicks_steps hw (env.ne_here_of_auth hauth) (not_le.mp ha).le hs⟩

end StellarFlow.Orders
