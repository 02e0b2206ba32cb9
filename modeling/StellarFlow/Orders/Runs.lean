import StellarFlow.Orders.Sweep

/-!
# Runs of the book

Every successful call is a chain of edits, so a property that single edits keep holds in
every state of every run. The first such property is the representation of the four
persistent structures: the buckets, the id index, the active ticks and the tick volumes
always describe the same set of open orders.
-/
namespace StellarFlow.Orders

open Foundation

variable {here : Address} {env : Env here} {call : BookCall} {b b' : Book}

theorem sweepSteps_edits {amount : ℤ} {isBuy : Bool} {taker : Address} {pair : AssetPair}
    {s s' : Sweep} (h : Relation.ReflTransGen (Sweep.Step env isBuy pair) s s') :
    Relation.ReflTransGen (Edit env (.matchMarketOrder taker pair amount isBuy)) s.book
      s'.book := by
  refine h.lift Sweep.book ?_
  rintro s s' ⟨o, q, out, o', ht⟩
  exact .trade taker pair amount isBuy ht.live ht.trade

/-- A successful call is a chain of edits. -/
theorem exec_edits (hw : b.WellFormed here) (h : call.exec env b = .ok b') :
    Relation.ReflTransGen (Edit env call) b b' := by
  cases call <;> simp only [BookCall.exec, snd_map_eq_ok] at h <;> obtain ⟨r, h⟩ := h
  case placeOrderWithExpiry => exact .single (.place trivial (placeOrderWithExpiry_place h))
  case placeBuyOrder => exact .single (.place trivial (placeBuyOrder_place h))
  case fillOrder =>
    obtain ⟨o, out, o', rfl, hexp, ht⟩ := fillOrder_trade hw h
    exact .single (.fill _ hexp ht)
  case matchOrders =>
    obtain ⟨seller, buyer, _, _, _, _, _, rfl, rfl, hm⟩ := matchOrders_match hw h
    exact .single (.settle hm)
  case matchMarketOrder =>
    obtain ⟨s, rfl, _, _, _, _, hsteps⟩ := matchMarketOrder_steps hw h
    exact sweepSteps_edits hsteps
  case cancelOrder =>
    obtain ⟨_, _, h⟩ := bind_eq_ok.mp h
    obtain ⟨o, hid, _, _, hc⟩ := cancelOrderInner_cancel hw h
    exact .single (.cancel hid.symm hc)
  case cancelOrdersBatch =>
    obtain ⟨_, _, h⟩ := bind_eq_ok.mp h
    exact cancelLoop_edits (fun _ hid => hid) hw h
  case withdrawBalance =>
    exact .single (.withdraw _ _ _ (withdrawBalance_withdraw h))
  case purgeClosedOrders =>
    simp only [purgeClosedOrders, bind_eq_ok, pure_eq_ok, Prod.exists, Prod.mk.injEq] at h
    obtain ⟨_, t, h, _, rfl⟩ := h
    exact purgeLoop_edits hw h

/-- A property that every edit of a call keeps is kept by the call. -/
theorem exec_induction {P : Book → Prop} (hw : b.WellFormed here) (hp : P b)
    (hstep : ∀ c c', c.WellFormed here → P c → Edit env call c c' → P c')
    (h : call.exec env b = .ok b') : b'.WellFormed here ∧ P b' := by
  have hchain := exec_edits hw h
  clear h
  induction hchain with
  | refl => exact ⟨hw, hp⟩
  | tail _ he ih => exact ⟨he.wellFormed ih.1, hstep _ _ ih.1 ih.2 he⟩

theorem exec_wellFormed (hw : b.WellFormed here) (h : call.exec env b = .ok b') :
    b'.WellFormed here :=
  (exec_induction (P := fun _ => True) hw trivial (fun _ _ _ _ _ => trivial) h).1

theorem commit_wellFormed (hw : b.WellFormed here) (i : BookStep here) :
    (commit bookStep b i).WellFormed here :=
  commit_induction hw fun _ h => exec_wellFormed hw h

/-- Order ids are never given back. -/
theorem Edit.nextOrderId_le (h : Edit env call b b') :
    b.table.nextOrderId ≤ b'.table.nextOrderId := by
  cases h with
  | place _ h => rw [h.table_eq]; exact Nat.le_succ _
  | fill filler _ h => rw [h.table_eq]; simp
  | trade taker pair amount isBuy _ h => rw [h.table_eq]; simp
  | settle h => rw [h.table_eq]; simp
  | cancel _ h => rw [h.table_eq]; simp
  | withdraw owner asset amount h => rw [h.table_eq]
  | purge orderIds h => rw [h.table_eq]; simp [OrderTable.removeOrder]

theorem exec_nextOrderId_le (hw : b.WellFormed here) (h : call.exec env b = .ok b') :
    b.table.nextOrderId ≤ b'.table.nextOrderId :=
  (exec_induction (P := fun c => b.table.nextOrderId ≤ c.table.nextOrderId) hw le_rfl
    (fun _ _ _ hle he => hle.trans he.nextOrderId_le) h).2

/-- The book after a run from the empty book. -/
def bookAfter (tokens : Tokens) (run : List (BookStep here)) : Book :=
  runAll bookStep (Book.empty tokens) run

/-- A property that every edit keeps holds at the end of every run from the empty book. -/
theorem bookAfter_induction {P : Book → Prop} {tokens : Tokens} (h0 : P (Book.empty tokens))
    (hstep : ∀ (env : Env here) call c c', c.WellFormed here → P c → Edit env call c c' → P c')
    (run : List (BookStep here)) :
    (bookAfter tokens run).WellFormed here ∧ P (bookAfter tokens run) := by
  refine runAll_induction (P := fun b => b.WellFormed here ∧ P b) ?_ ⟨.empty tokens, h0⟩ run
  rintro s ⟨env, call⟩ s' ⟨hw, hp⟩ h
  exact exec_induction hw hp (hstep env call) h

theorem Place.remaining_pos {o : LimitOrder} (h : Place here b b' o) : 0 < o.remainingAmount :=
  h.sound.remaining_pos h.active

theorem Cancel.remaining_pos {o : LimitOrder} (h : Cancel here b b' o)
    (hw : b.WellFormed here) : 0 < o.remainingAmount :=
  (h.is_open.sound hw).remaining_pos h.is_open.active

theorem Trade.delta_pos {o o' : LimitOrder} {q paid : ℤ} {out : FillUpdateOutcome}
    {asset : Address} (h : Trade here b b' o q out o' asset paid) (hw : b.WellFormed here) :
    0 < q + out.dustRemainingBase :=
  add_pos_of_pos_of_nonneg h.pos (h.spec hw).dust_nonneg

/-- Every edit keeps the tick table ranked. -/
theorem Edit.ranked (h : Edit env call b b') (hw : b.WellFormed here) (hr : b.ticks.Ranked) :
    b'.ticks.Ranked := by
  cases h with
  | place _ h => exact hr.add h.remaining_pos h.ticks_eq
  | fill filler _ h => exact h.ticks_eq ▸ hr.remove (h.delta_pos hw)
  | trade taker pair amount isBuy _ h => exact h.ticks_eq ▸ hr.remove (h.delta_pos hw)
  | settle h => exact h.ticks_eq ▸ hr
  | cancel _ h => exact h.ticks_eq ▸ hr.remove (h.remaining_pos hw)
  | withdraw owner asset amount h => exact h.ticks_eq ▸ hr
  | purge orderIds h => exact h.ticks_eq ▸ hr

theorem bookAfter_ranked (tokens : Tokens) (run : List (BookStep here)) :
    (bookAfter tokens run).WellFormed here ∧ (bookAfter tokens run).ticks.Ranked :=
  bookAfter_induction TickTable.Ranked.empty (fun _ _ _ _ hw hr he => he.ranked hw hr) run

theorem OrderTable.Indexed.mem_bucket_iff_load {t : OrderTable} (h : t.Indexed) (p : AssetPair)
    (x : ℤ) (id : ℕ) : id ∈ t.getOrdersAtTick p x ↔
      ∃ o, t.loadOrder id = .ok o ∧ o.active = true ∧ o.pair = p ∧ o.priceTick = x := by
  rw [h.bucket_mem]
  constructor
  · rintro ⟨o, ho, ha⟩
    obtain ⟨rfl, hk⟩ := Prod.mk.inj (h.order_key _ o ho)
    obtain ⟨rfl, rfl⟩ := Prod.mk.inj hk
    exact ⟨o, h.loadOrder_eq_ok.mpr ⟨ho, rfl⟩, ha, rfl, rfl⟩
  · rintro ⟨o, hl, ha, rfl, rfl⟩
    obtain ⟨ho, rfl⟩ := h.loadOrder_eq_ok.mp hl
    exact ⟨o, ho, ha⟩

/-- In every reachable state the buckets are strictly increasing and list exactly the active
orders of their pair and tick, the id index points exactly at the stored orders, the active
ticks are strictly sorted by side, and a tick is active exactly when its stored volume exists
and is positive. -/
theorem bookAfter_represented (tokens : Tokens) (run : List (BookStep here)) :
    let b := bookAfter tokens run
    (∀ p x ids, b.table.buckets.lookup (p, x) = some ids →
      ids.Pairwise (· < ·) ∧ ids.Nodup) ∧
    (∀ p x id, id ∈ b.getOrdersAtTick p x ↔
      ∃ o, b.loadOrder id = .ok o ∧ o.active = true ∧ o.pair = p ∧ o.priceTick = x) ∧
    (∀ id (index : AssetPair × ℤ), b.table.orderIndex.lookup id = some index ↔
      ∃ o, b.table.orders.lookup (index.1, index.2, id) = some o) ∧
    (∀ k o, b.table.orders.lookup k = some o → k = (o.pair, o.priceTick, o.id)) ∧
    (∀ p ticks, b.ticks.activeTicks.lookup (p, true) = some ticks →
      ticks.Pairwise (· > ·) ∧ ticks.Nodup) ∧
    (∀ p ticks, b.ticks.activeTicks.lookup (p, false) = some ticks →
      ticks.Pairwise (· < ·) ∧ ticks.Nodup) ∧
    (∀ p x isBid, x ∈ b.ticks.getActiveTicks p isBid ↔
      ∃ v, b.ticks.tickVolume.lookup (p, x, isBid) = some v ∧ 0 < v) := by
  intro b
  obtain ⟨hw, hr⟩ : b.WellFormed here ∧ b.ticks.Ranked := bookAfter_ranked tokens run
  have hticks : ∀ p s ticks, b.ticks.activeTicks.lookup (p, s) = some ticks →
      ticks = b.ticks.getActiveTicks p s := by
    intro p s ticks h
    simp [TickTable.getActiveTicks, h]
  refine ⟨?_, hw.indexed.mem_bucket_iff_load, hw.indexed.order_index, hw.indexed.order_key,
    ?_, ?_, ?_⟩
  · intro p x ids h
    have hs := hw.indexed.bucket_sorted p x
    simp only [OrderTable.getOrdersAtTick, h, Option.getD_some] at hs
    exact ⟨hs, hs.imp fun hlt => hlt.ne⟩
  · intro p ticks h
    have hs := hr.ticks_sorted p true
    rw [← hticks p true ticks h] at hs
    have hs' : ticks.Pairwise (· > ·) := hs.imp fun hxy => by simpa [tickBefore] using hxy
    exact ⟨hs', hs'.imp fun hlt => hlt.ne'⟩
  · intro p ticks h
    have hs := hr.ticks_sorted p false
    rw [← hticks p false ticks h] at hs
    have hs' : ticks.Pairwise (· < ·) := hs.imp fun hxy => by simpa [tickBefore] using hxy
    exact ⟨hs', hs'.imp fun hlt => hlt.ne⟩
  · intro p x s
    rw [hr.ticks_mem]
    exact exists_congr fun v => ⟨fun h => ⟨h, hr.volume_pos _ v h⟩, And.left⟩

/-- Holders with a thousand units of every token, and a contract with none. -/
def sampleTokens : Tokens := fun _ holder => if holder = ⟨0⟩ then 0 else 1000

def samplePair : AssetPair := ⟨⟨10⟩, ⟨11⟩⟩

end StellarFlow.Orders
