import StellarFlow.Foundation.Greedy
import StellarFlow.Orders.Reference

/-!
# Price-time priority of market orders

A market order reads the active ticks once and a bucket per tick, while its own trades
edit buckets, records and ticks. It nevertheless does exactly what a sweep over the flat
reference list does, faults included, and its fills are the greedy consumption of that
list.
-/
namespace StellarFlow.Orders

open Foundation

/-- What a fill says about the trade: order, maker, tick, volume and quote. -/
def TickMatchFill.view (f : TickMatchFill) : ℕ × Address × ℤ × ℤ × ℤ :=
  (f.orderId, f.maker, f.priceTick, f.filledAmount, f.paidAmount)

/-- The same for a volume taken from an order of the reference list. -/
def fillView (x : LimitOrder × ℤ) : ℕ × Address × ℤ × ℤ × ℤ :=
  (x.1.id, x.1.maker, x.1.priceTick, x.2, x.2 * x.1.priceTick / priceScale)

section Flat

variable {here : Address} (env : Env here) (taker : Address) (isBuy : Bool) (pair : AssetPair)

/-- The sweep over a flat list of orders. -/
def sweepOrders : List LimitOrder → Sweep → Except Fault Sweep
  | [], s => pure s
  | o :: os, s =>
    if s.remaining = 0 then pure s
    else do
      let s ← settleFill env taker isBuy pair o.priceTick o s
      sweepOrders os s

end Flat

variable {here : Address} {env : Env here} {taker : Address} {isBuy : Bool} {pair : AssetPair}
  {s s' : Sweep} {o o' : LimitOrder} {os : List LimitOrder}

theorem SweepTrade.loadOrder_of_ne {q : ℤ} {out : FillUpdateOutcome}
    (h : SweepTrade env isBuy pair s s' o q out o') (hw : s.book.WellFormed here) {id : ℕ}
    (hid : id ≠ o.id) : s'.book.loadOrder id = s.book.loadOrder id := by
  have hid' : id ≠ o'.id := by rw [(h.trade.spec hw).eq]; exact hid
  rw [Book.loadOrder, h.trade.table_eq]
  exact OrderTable.storeFill_loadOrder_of_ne _ _ hid'

theorem SweepTrade.getOrdersAtTick_of_ne {q : ℤ} {out : FillUpdateOutcome}
    (h : SweepTrade env isBuy pair s s' o q out o') (hw : s.book.WellFormed here) {x : ℤ}
    (hx : x ≠ o.priceTick) : s'.book.getOrdersAtTick pair x = s.book.getOrdersAtTick pair x := by
  have hx' : (pair, x) ≠ (o'.pair, o'.priceTick) := by
    rw [(h.trade.spec hw).eq]
    exact fun hc => hx (congrArg Prod.snd hc)
  rw [Book.getOrdersAtTick, h.trade.table_eq]
  exact OrderTable.storeFill_getOrdersAtTick_of_ne _ _ hx'

/-- The listed orders are stored as they are and can be traded with. -/
def Tradable (env : Env here) (isBuy : Bool) (pair : AssetPair) (os : List LimitOrder)
    (b : Book) : Prop :=
  ∀ o ∈ os, b.loadOrder o.id = .ok o ∧ Eligible env.sequence isBuy pair o

/-- What a completed sweep over a flat list has done. -/
structure SweptList (here : Address) (pair : AssetPair) (os : List LimitOrder)
    (s s' : Sweep) : Prop where
  wellFormed : s'.book.WellFormed here
  remaining_nonneg : 0 ≤ s'.remaining
  loadOrder_eq : ∀ id, (∀ o ∈ os, o.id ≠ id) → s'.book.loadOrder id = s.book.loadOrder id
  bucket_eq : ∀ x, (∀ o ∈ os, o.priceTick ≠ x) →
    s'.book.getOrdersAtTick pair x = s.book.getOrdersAtTick pair x
  fills_eq : s'.fills.map TickMatchFill.view = s.fills.map TickMatchFill.view ++
    (greedy LimitOrder.remainingAmount os s.remaining).map fillView

theorem SweptList.refl (hw : s.book.WellFormed here) (hr : 0 ≤ s.remaining)
    (h : greedy LimitOrder.remainingAmount os s.remaining = []) :
    SweptList here pair os s s :=
  ⟨hw, hr, fun _ _ => rfl, fun _ _ => rfl, by simp [h]⟩

theorem settleFill_of_tradable (hw : s.book.WellFormed here) (ht : taker ≠ here)
    (hr : 0 ≤ s.remaining) (hz : s.remaining ≠ 0) (hl : s.book.loadOrder o.id = .ok o)
    (he : Eligible env.sequence isBuy pair o)
    (h : settleFill env taker isBuy pair o.priceTick o s = .ok s') :
    ∃ q out o', SweepTrade env isBuy pair s s' o q out o' :=
  settleFill_trade hw ht (lt_of_le_of_ne hr hz.symm) ⟨(hw.loadOrder_eq_ok.mp hl).1, he.1⟩
    he.2.2.2 he.2.2.1 he.2.1 h

theorem Tradable.tail {q : ℤ} {out : FillUpdateOutcome}
    (h : Tradable env isBuy pair (o :: os) s.book)
    (ht : SweepTrade env isBuy pair s s' o q out o') (hw : s.book.WellFormed here)
    (hne : ∀ r ∈ os, r.id ≠ o.id) : Tradable env isBuy pair os s'.book := by
  intro r hr
  obtain ⟨hl, he⟩ := h r (List.mem_cons_of_mem _ hr)
  exact ⟨(ht.loadOrder_of_ne hw (hne r hr)).trans hl, he⟩

theorem sweepOrders_swept (hw : s.book.WellFormed here) (ht : taker ≠ here)
    (hr : 0 ≤ s.remaining) (hos : Tradable env isBuy pair os s.book)
    (hnd : os.Pairwise fun x y => x.id ≠ y.id)
    (h : sweepOrders env taker isBuy pair os s = .ok s') : SweptList here pair os s s' := by
  induction os generalizing s with
  | nil =>
    rw [sweepOrders, pure_eq_ok] at h
    subst h
    exact .refl hw hr rfl
  | cons o os ih =>
    rw [sweepOrders] at h
    split_ifs at h with hz
    · rw [pure_eq_ok] at h
      subst h
      exact .refl hw hr (by rw [hz, greedy_zero])
    · obtain ⟨s₁, h₁, h₂⟩ := bind_eq_ok.mp h
      obtain ⟨hl, he⟩ := hos o List.mem_cons_self
      obtain ⟨q, out, o', htr⟩ := settleFill_of_tradable hw ht hr hz hl he h₁
      obtain ⟨hne, hnd'⟩ := List.pairwise_cons.mp hnd
      have hrest := ih (htr.wellFormed hw) htr.remaining_nonneg
        (hos.tail htr hw fun r hr => (hne r hr).symm) hnd' h₂
      have hq : q = min s.remaining o.remainingAmount := by
        rw [htr.qty_eq]
        split_ifs <;> omega
      refine ⟨hrest.wellFormed, hrest.remaining_nonneg, fun id hid => ?_, fun x hx => ?_, ?_⟩
      · rw [hrest.loadOrder_eq id fun r hr => hid r (List.mem_cons_of_mem _ hr)]
        exact htr.loadOrder_of_ne hw (hid o List.mem_cons_self).symm
      · rw [hrest.bucket_eq x fun r hr => hx r (List.mem_cons_of_mem _ hr)]
        exact htr.getOrdersAtTick_of_ne hw (hx o List.mem_cons_self).symm
      · rw [hrest.fills_eq, htr.fills_eq, htr.remaining_eq, greedy, if_neg hz, ← hq]
        simp [TickMatchFill.view, fillView]

theorem sweepOrders_done (hz : s.remaining = 0) (os : List LimitOrder) :
    sweepOrders env taker isBuy pair os s = .ok s := by
  cases os with
  | nil => rfl
  | cons o os => exact if_pos hz

theorem sweepOrders_append (os os' : List LimitOrder) (s : Sweep) :
    sweepOrders env taker isBuy pair (os ++ os') s =
      sweepOrders env taker isBuy pair os s >>= sweepOrders env taker isBuy pair os' := by
  induction os generalizing s with
  | nil => rfl
  | cons o os ih =>
    simp only [List.cons_append, sweepOrders]
    split_ifs with hz
    · exact (sweepOrders_done hz os').symm
    · rw [bind_assoc]
      exact bind_congr_ok fun s₁ _ => ih s₁

/-- What a visit does with an order that can be loaded: trade if eligible, else nothing. -/
theorem visitOrder_eq (hw : s.book.WellFormed here) {tick : ℤ}
    (hl : s.book.loadOrder o.id = .ok o) (hpair : o.pair = pair) :
    visitOrder env taker isBuy pair tick o.id s =
      if Eligible env.sequence isBuy pair o then settleFill env taker isBuy pair tick o s
      else pure s := by
  have hpos := (hw.sound _ o (hw.loadOrder_eq_ok.mp hl).1).remaining_pos
  have hside : o.isBid = isBuy ↔ ¬ o.isBid = !isBuy := by
    cases o.isBid <;> cases isBuy <;> simp
  unfold visitOrder
  simp only [hl]
  by_cases ha : o.active = true
  · have hrem : ¬ o.remainingAmount ≤ 0 := not_le.mpr (hpos ha)
    by_cases hexp : o.expired env.sequence
    · simp [ha, hrem, hexp, Eligible]
    · by_cases hs : o.isBid = isBuy
      · simp [ha, hrem, hexp, hs, Eligible]
      · have hs' : o.isBid = !isBuy := by rw [hside] at hs; exact not_not.mp hs
        rw [if_neg (by simp [ha, hrem]), if_neg hexp, if_neg hs,
          if_pos ⟨ha, hexp, hs', hpair⟩]
  · rw [if_pos (.inl ha), if_neg fun he => ha he.1]

/-- Walking a bucket is sweeping its eligible orders, read before the walk. -/
theorem sweepBucket_eq {b : Book} {tick : ℤ} {ids : List ℕ} (hw : s.book.WellFormed here)
    (ht : taker ≠ here) (hr : 0 ≤ s.remaining) (hnd : ids.Nodup)
    (hsnap : s.Snapshot pair tick ids)
    (hload : ∀ id ∈ ids, s.book.loadOrder id = b.loadOrder id) :
    sweepBucket env taker isBuy pair tick ids s =
      sweepOrders env taker isBuy pair (ids.filterMap fun id =>
        (b.loadOrder id).toOption.filter (Eligible env.sequence isBuy pair ·)) s := by
  induction ids generalizing s with
  | nil => rfl
  | cons id ids ih =>
    obtain ⟨hid, hnd'⟩ := List.nodup_cons.mp hnd
    have hload' := fun j hj => hload j (List.mem_cons_of_mem id hj)
    have hsnap' : s.Snapshot pair tick ids := fun j hj => hsnap j (List.mem_cons_of_mem id hj)
    rw [sweepBucket]
    split_ifs with hz
    · exact (sweepOrders_done hz _).symm
    · cases hl : b.loadOrder id with
      | error e =>
        have hl' := (hload id List.mem_cons_self).trans hl
        simp only [visitOrder, hl', List.filterMap_cons, hl, Except.toOption, Option.filter_none]
        exact ih hw hr hnd' hsnap' hload'
      | ok o =>
        have hl' := (hload id List.mem_cons_self).trans hl
        obtain ⟨hst, rfl⟩ := hw.loadOrder_eq_ok.mp hl'
        obtain ⟨hpair, rfl⟩ := hsnap o.id List.mem_cons_self o hst rfl
        rw [visitOrder_eq hw hl' hpair, List.filterMap_cons, hl]
        by_cases he : Eligible env.sequence isBuy pair o
        · simp only [Except.toOption, Option.filter_some, he, decide_true, if_true, sweepOrders,
            if_neg hz]
          refine bind_congr_ok fun s₁ h₁ => ?_
          obtain ⟨q, out, o', htr⟩ := settleFill_of_tradable hw ht hr hz hl' he h₁
          refine ih (htr.wellFormed hw) htr.remaining_nonneg hnd'
            (hsnap'.of_step hw ⟨o, q, out, o', htr⟩) fun j hj => ?_
          rw [htr.loadOrder_of_ne hw fun hj' => hid (hj' ▸ hj)]
          exact hload' j hj
        · simp only [Except.toOption, Option.filter_some, he, decide_false, Bool.false_eq_true,
            if_false]
          exact ih hw hr hnd' hsnap' hload'

/-- The ticks still to be walked read as they did in the book before the sweep. -/
def Unwalked (pair : AssetPair) (b : Book) (ticks : List ℤ) (s : Sweep) : Prop :=
  ∀ x ∈ ticks, s.book.getOrdersAtTick pair x = b.getOrdersAtTick pair x ∧
    ∀ id ∈ b.getOrdersAtTick pair x, s.book.loadOrder id = b.loadOrder id

theorem Unwalked.tradable {b : Book} {tick : ℤ} {ticks : List ℤ} (hb : b.WellFormed here)
    (h : Unwalked pair b (tick :: ticks) s) :
    Tradable env isBuy pair (eligibleAt env.sequence isBuy pair b tick) s.book := by
  intro o ho
  obtain ⟨hst, he, rfl⟩ := (mem_eligibleAt hb).mp ho
  refine ⟨?_, he⟩
  have hmem : o.id ∈ b.getOrdersAtTick pair o.priceTick := by
    refine (hb.indexed.bucket_mem _ _ _).mpr ⟨o, ?_, he.1⟩
    rw [← he.2.2.2]
    exact hst
  rw [(h _ List.mem_cons_self).2 o.id hmem]
  exact hb.loadOrder_eq_ok.mpr ⟨hst, rfl⟩

/-- Sweeping the orders of one tick leaves the other ticks as they were. -/
theorem Unwalked.tail {b : Book} {tick : ℤ} {ticks : List ℤ} (hb : b.WellFormed here)
    (h : Unwalked pair b (tick :: ticks) s) (hnd : tick ∉ ticks)
    (hs : SweptList here pair (eligibleAt env.sequence isBuy pair b tick) s s') :
    Unwalked pair b ticks s' := by
  intro x hx
  obtain ⟨hbucket, hload⟩ := h x (List.mem_cons_of_mem _ hx)
  have hne : tick ≠ x := fun he => hnd (he ▸ hx)
  constructor
  · rw [hs.bucket_eq x fun o ho => ((mem_eligibleAt hb).mp ho).2.2 ▸ hne]
    exact hbucket
  · intro id hid
    rw [hs.loadOrder_eq id fun o ho hoid => ?_]
    · exact hload id hid
    · obtain ⟨hst, _, hto⟩ := (mem_eligibleAt hb).mp ho
      obtain ⟨r, hr, _⟩ := (hb.indexed.bucket_mem _ _ _).mp hid
      have hk := hb.indexed.key_eq_of_id_eq hst hr hoid
      exact hne (hto.symm.trans (congrArg (·.2.1) hk))

/-- Walking ticks and buckets is sweeping the flat list they spell out. -/
theorem sweepTicks_eq {b : Book} {ticks : List ℤ} (hb : b.WellFormed here)
    (hw : s.book.WellFormed here) (ht : taker ≠ here) (hr : 0 ≤ s.remaining)
    (hnd : ticks.Nodup) (hun : Unwalked pair b ticks s) :
    sweepTicks env taker isBuy pair ticks s =
      sweepOrders env taker isBuy pair
        (ticks.flatMap (eligibleAt env.sequence isBuy pair b)) s := by
  induction ticks generalizing s with
  | nil => rfl
  | cons tick ticks ih =>
    obtain ⟨htick, hnd'⟩ := List.nodup_cons.mp hnd
    obtain ⟨hbucket, hload⟩ := hun tick List.mem_cons_self
    rw [sweepTicks]
    split_ifs with hz
    · exact (sweepOrders_done hz _).symm
    · have hids : (s.book.getOrdersAtTick pair tick).Nodup :=
        (hw.indexed.bucket_sorted pair tick).imp fun h => h.ne
      rw [sweepBucket_eq hw ht hr hids (.of_bucket hw tick) (hbucket ▸ hload), hbucket,
        List.flatMap_cons, sweepOrders_append]
      refine bind_congr_ok fun s₁ h₁ => ?_
      have hswept := sweepOrders_swept hw ht hr (hun.tradable hb)
        ((eligibleAt_pairwise hb tick).imp fun h => h.ne) h₁
      exact ih hswept.wellFormed hswept.remaining_nonneg hnd' (hun.tail hb htick hswept)

/-- The sweep of a market order is the sweep over the reference list. -/
theorem sweepTicks_eq_reference {b : Book} (hw : b.WellFormed here) (hr : b.ticks.Ranked)
    (hc : VolumesCover b) (ht : taker ≠ here) {amount : ℤ} (ha : 0 < amount) :
    sweepTicks env taker isBuy pair (b.ticks.getActiveTicks pair (!isBuy)) ⟨b, amount, 0, []⟩ =
      sweepOrders env taker isBuy pair (referenceList env.sequence isBuy pair b)
        ⟨b, amount, 0, []⟩ := by
  rw [sweepTicks_eq (s := ⟨b, amount, 0, []⟩) hw hw ht ha.le (hr.ticks_nodup pair _)
    fun x _ => ⟨rfl, fun _ _ => rfl⟩, ← walkList_eq_referenceList hw hr hc]
  rfl

/-- The fills of a successful market order are the greedy consumption of the reference list. -/
theorem matchMarketOrder_fills {b b' : Book} (hw : b.WellFormed here) (hr : b.ticks.Ranked)
    (hc : VolumesCover b) {amount : ℤ} {r : TickMatchResult}
    (h : matchMarketOrder env taker isBuy pair amount b = .ok (r, b')) :
    r.fills.map TickMatchFill.view =
      (greedy LimitOrder.remainingAmount (referenceList env.sequence isBuy pair b) amount).map
        fillView := by
  simp only [matchMarketOrder, bind_eq_ok, failIf_eq_ok, Env.requireAuth_eq_ok, okOr_eq_ok,
    IntRange.check_eq_some, pure_eq_ok, Prod.mk.injEq] at h
  obtain ⟨_, ha, _, hauth, s, hs, _, _, _, ⟨_, rfl⟩, rfl, rfl⟩ := h
  have ht := env.ne_here_of_auth hauth
  rw [sweepTicks_eq_reference hw hr hc ht (not_le.mp ha)] at hs
  have href := @referenceList_pairwise here b env.sequence isBuy pair hw
  have hids : (referenceList env.sequence isBuy pair b).Pairwise fun x y => x.id ≠ y.id := by
    refine href.imp_of_mem fun {x y} hx hy hxy hid => ?_
    have hk := hw.indexed.key_eq_of_id_eq ((mem_referenceList hw).mp hx).1
      ((mem_referenceList hw).mp hy).1 hid
    have hst := ((mem_referenceList hw).mp hx).1
    rw [hk, ((mem_referenceList hw).mp hy).1] at hst
    obtain rfl := Option.some.inj hst
    exact rankBefore_asymm _ _ hxy hxy
  have htrad : Tradable env isBuy pair (referenceList env.sequence isBuy pair b) b := by
    intro o ho
    obtain ⟨hst, he⟩ := (mem_referenceList hw).mp ho
    exact ⟨hw.loadOrder_eq_ok.mpr ⟨hst, rfl⟩, he⟩
  exact (sweepOrders_swept (s := ⟨b, amount, 0, []⟩) hw ht (not_le.mp ha).le htrad hids hs).fills_eq

/-- With nothing eligible a market order fails for lack of depth. -/
theorem matchMarketOrder_no_depth {b : Book} (hw : b.WellFormed here) (hr : b.ticks.Ranked)
    (hc : VolumesCover b) {amount : ℤ} (ha : 0 < amount) (hauth : env.auth taker = true)
    (href : referenceList env.sequence isBuy pair b = []) :
    matchMarketOrder env taker isBuy pair amount b =
      .error (ContractError.insufficientLiquidityDepth : Fault) := by
  have hs := @sweepTicks_eq_reference here env taker isBuy pair b hw hr hc
    (env.ne_here_of_auth hauth) amount ha
  rw [href] at hs
  have hsign : env.requireAuth taker = .ok () := Env.requireAuth_eq_ok.mpr hauth
  unfold matchMarketOrder
  rw [failIf_of_not (not_le.mpr ha), ok_bind, hsign, ok_bind, hs]
  rfl

theorem bookAfter_cover (tokens : Tokens) (run : List (BookStep here)) :
    VolumesCover (bookAfter tokens run) :=
  (bookAfter_induction (volumesAgree_empty tokens).cover
    (fun _ _ _ _ hw hc he => he.volumesCover hw hc) run).2

/-- Fills that view as a greedy consumption skip nobody of higher priority. -/
theorem fills_respect_rank {ref : List LimitOrder} {fills : List TickMatchFill} {amount : ℤ}
    (hsort : ref.Pairwise (rankBefore (!isBuy)))
    (hfills : fills.map TickMatchFill.view =
      (greedy LimitOrder.remainingAmount ref amount).map fillView)
    {f : TickMatchFill} (hf : f ∈ fills) (ho : o ∈ ref)
    (hbefore : tickBefore (!isBuy) o.priceTick f.priceTick = true ∨
      (o.priceTick = f.priceTick ∧ o.id < f.orderId)) :
    ∃ g ∈ fills, g.orderId = o.id ∧ g.filledAmount = o.remainingAmount := by
  have hview : ∀ {v}, v ∈ fills.map TickMatchFill.view ↔
      ∃ x ∈ greedy LimitOrder.remainingAmount ref amount, fillView x = v := by
    intro v
    rw [hfills, List.mem_map]
  obtain ⟨⟨p, q⟩, hp, hpv⟩ := hview.mp (List.mem_map_of_mem hf)
  have hid : p.id = f.orderId := congrArg (·.1) hpv
  have htick : p.priceTick = f.priceTick := congrArg (·.2.2.1) hpv
  rw [← hid, ← htick] at hbefore
  have hfull := greedy_earlier_full rankBefore_asymm hsort ho hbefore hp
  obtain ⟨g, hg, hgv⟩ := List.mem_map.mp (hview.mpr ⟨_, hfull, rfl⟩)
  exact ⟨g, hg, congrArg (·.1) hgv, congrArg (·.2.2.2.1) hgv⟩

/-- In every reachable book, for every taker amount: the reference list holds exactly the
eligible orders of the opposite side in strict price-time order; the fills of a market order
are its greedy consumption; an order that ranks ahead of a filled one is filled completely;
and a market order that finds nothing eligible fails for lack of depth. -/
theorem matchMarketOrder_priority (tokens : Tokens) (run : List (BookStep here))
    (env : Env here) (taker : Address) (isBuy : Bool) (pair : AssetPair) (amount : ℤ) :
    let b := bookAfter tokens run
    let ref := referenceList env.sequence isBuy pair b
    (∀ o, o ∈ ref ↔ b.loadOrder o.id = .ok o ∧ o.active = true ∧ ¬ o.expired env.sequence ∧
      o.isBid = !isBuy ∧ o.pair = pair) ∧
    ref.Pairwise (rankBefore (!isBuy)) ∧
    (∀ r b', matchMarketOrder env taker isBuy pair amount b = .ok (r, b') →
      r.fills.map TickMatchFill.view =
        (greedy LimitOrder.remainingAmount ref amount).map fillView ∧
      ∀ f ∈ r.fills, ∀ o ∈ ref,
        (tickBefore (!isBuy) o.priceTick f.priceTick = true ∨
          (o.priceTick = f.priceTick ∧ o.id < f.orderId)) →
        ∃ g ∈ r.fills, g.orderId = o.id ∧ g.filledAmount = o.remainingAmount) ∧
    (0 < amount → env.auth taker = true → ref = [] →
      matchMarketOrder env taker isBuy pair amount b =
        .error (ContractError.insufficientLiquidityDepth : Fault)) := by
  intro b ref
  obtain ⟨hw, hr⟩ : b.WellFormed here ∧ b.ticks.Ranked := bookAfter_ranked tokens run
  have hc : VolumesCover b := bookAfter_cover tokens run
  have hsort : ref.Pairwise (rankBefore (!isBuy)) := referenceList_pairwise hw
  have hload : ∀ o : LimitOrder, b.loadOrder o.id = .ok o ↔ b.table.orders.lookup o.key = some o :=
    fun o => hw.loadOrder_eq_ok.trans (and_iff_left rfl)
  refine ⟨fun o => ?_, hsort, fun r b' h => ?_, fun ha hauth href => ?_⟩
  · rw [hload]
    exact mem_referenceList hw
  · have hfills := matchMarketOrder_fills hw hr hc h
    refine ⟨hfills, fun f hf o ho hbefore => fills_respect_rank hsort hfills hf ho hbefore⟩
  · exact matchMarketOrder_no_depth hw hr hc ha hauth href

/-- Two asks, the later one at the better price. -/
def twoAsksRun : List (BookStep ⟨0⟩) :=
  [(.standard _ 1 none, .placeOrderWithExpiry ⟨1⟩ samplePair (2 * priceScale) 50 0),
   (.standard _ 1 none, .placeOrderWithExpiry ⟨2⟩ samplePair priceScale 30 0)]

theorem twoAsksRun_priority :
    (greedy LimitOrder.remainingAmount
      (referenceList 1 true samplePair (bookAfter sampleTokens twoAsksRun)) 60).map fillView =
        [(1, ⟨2⟩, priceScale, 30, 30), (0, ⟨1⟩, 2 * priceScale, 30, 60)] := by
  have hfills : (matchMarketOrder (.standard ⟨0⟩ 1 none) ⟨3⟩ true samplePair 60
      (bookAfter sampleTokens twoAsksRun)).toOption.map
        (fun r => r.1.fills.map TickMatchFill.view) =
      some [(1, ⟨2⟩, priceScale, 30, 30), (0, ⟨1⟩, 2 * priceScale, 30, 60)] := by
    decide +kernel
  cases h : matchMarketOrder (.standard ⟨0⟩ 1 none) ⟨3⟩ true samplePair 60
      (bookAfter sampleTokens twoAsksRun) with
  | error e =>
    rw [h] at hfills
    cases hfills
  | ok r =>
    have hp := (matchMarketOrder_priority sampleTokens twoAsksRun (.standard ⟨0⟩ 1 none) ⟨3⟩ true
      samplePair 60).2.2.1 r.1 r.2 h
    rw [h] at hfills
    exact hp.1.symm.trans (Option.some.inj hfills)

end StellarFlow.Orders
