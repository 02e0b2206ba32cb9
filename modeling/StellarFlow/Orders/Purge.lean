import StellarFlow.Orders.Runs

/-!
# Purging closed orders

The purge reads the index entry of an id twice, the second time as an order record. For a
closed order the entry is gone by then, and an id without a record has none. The entry of an
open order is still there and decoding it traps, so a list is purged exactly when none of its
ids belongs to an open order.
-/
namespace StellarFlow.Orders

open Foundation

/-- The order is closed or has nothing left to trade. -/
def LimitOrder.Spent (o : LimitOrder) : Prop := o.active = false ∨ o.remainingAmount = 0

instance (o : LimitOrder) : Decidable o.Spent := inferInstanceAs (Decidable (_ ∨ _))

namespace Book

/-- The id belongs to a stored order that may be removed. -/
def purgeable (b : Book) (orderId : ℕ) : Bool :=
  match b.loadOrder orderId with
  | .ok o => o.Spent
  | .error _ => false

/-- Number of distinct listed ids that may be removed. -/
def purgeCount (b : Book) (orderIds : List ℕ) : ℕ :=
  (orderIds.toFinset.filter fun orderId => b.purgeable orderId).card

end Book

/-- The records and index entries of the listed spent orders are gone, and nothing else is. -/
structure Purged (b b' : Book) (orderIds : List ℕ) : Prop where
  orders_eq : ∀ k : OrderKey, b'.table.orders.lookup k =
    if k.2.2 ∈ orderIds ∧ b.purgeable k.2.2 then none else b.table.orders.lookup k
  index_eq : ∀ orderId, b'.table.orderIndex.lookup orderId =
    if orderId ∈ orderIds ∧ b.purgeable orderId then none
    else b.table.orderIndex.lookup orderId
  buckets_eq : ∀ p x, b'.getOrdersAtTick p x = b.getOrdersAtTick p x
  nextOrderId_eq : b'.table.nextOrderId = b.table.nextOrderId
  ticks_eq : b'.ticks = b.ticks
  balances_eq : b'.balances = b.balances
  tokens_eq : b'.tokens = b.tokens

/-- The purge goes through, removes what it should and returns how much that was. -/
def PurgesListed (b : Book) (orderIds : List ℕ) : Prop :=
  ∃ b', purgeClosedOrders orderIds b = .ok (b.purgeCount orderIds, b') ∧ Purged b b' orderIds

variable {here : Address} {b b' : Book} {o : LimitOrder} {orderId : ℕ} {orderIds : List ℕ}

theorem Book.purgeable_of_load (h : b.loadOrder orderId = .ok o) :
    b.purgeable orderId = decide o.Spent := by
  simp [purgeable, h]

section Iteration

/-- The sound orders with nothing left are the closed ones. -/
theorem LimitOrder.Sound.spent_iff (h : o.Sound here) : o.Spent ↔ o.active = false := by
  refine ⟨fun hs => hs.elim (fun hclosed => hclosed) fun h0 => ?_, .inl⟩
  by_contra ha
  have hpos := h.remaining_pos (by simpa using ha)
  omega

theorem Book.WellFormed.index_eq_none (hw : b.WellFormed here)
    (h : ∀ o, b.loadOrder orderId ≠ .ok o) : b.table.orderIndex.lookup orderId = none := by
  cases hi : b.table.orderIndex.lookup orderId with
  | none => rfl
  | some index =>
    obtain ⟨o, ho⟩ := (hw.indexed.order_index orderId index).mp hi
    exact absurd (by simp [Book.loadOrder, OrderTable.loadOrder, hi, ho]) (h o)

theorem Book.WellFormed.index_eq_some (hw : b.WellFormed here)
    (h : b.loadOrder orderId = .ok o) :
    b.table.orderIndex.lookup orderId = some (o.pair, o.priceTick) ∧
      b.table.orders.lookup (o.pair, o.priceTick, orderId) = some o := by
  obtain ⟨ho, rfl⟩ := hw.indexed.loadOrder_eq_ok.mp h
  exact ⟨(hw.indexed.order_index _ _).mpr ⟨o, ho⟩, ho⟩

/-- There is nothing to do for an id without a record. -/
theorem purgeClosedOrder_of_absent (hw : b.WellFormed here)
    (h : ∀ o, b.loadOrder orderId ≠ .ok o) :
    purgeClosedOrder orderId b.table = .ok (false, b.table) := by
  have hi := hw.index_eq_none h
  simp [purgeClosedOrder, purgeRecord, hi, failIf, pure, Except.pure, bind, Except.bind]

/-- The index entry of an open order is decoded as a record. -/
theorem purgeClosedOrder_of_open (hw : b.WellFormed here) (h : b.loadOrder orderId = .ok o)
    (hopen : ¬ o.Spent) : purgeClosedOrder orderId b.table = .error Fault.trap := by
  obtain ⟨hi, ho⟩ := hw.index_eq_some h
  unfold LimitOrder.Spent at hopen
  push Not at hopen
  simp [purgeClosedOrder, purgeRecord, hi, ho, hopen.1, hopen.2, failIf, bind, Except.bind]

/-- A closed order is delisted and both of its entries are removed. -/
theorem purgeClosedOrder_of_spent (hw : b.WellFormed here) (h : b.loadOrder orderId = .ok o)
    (hs : o.Spent) : ∃ t, purgeClosedOrder orderId b.table = .ok (true, t) ∧
      Purge here b { b with table := t } o := by
  obtain ⟨hi, ho⟩ := hw.index_eq_some h
  obtain ⟨hst, rfl⟩ := hw.indexed.loadOrder_eq_ok.mp h
  refine ⟨_, ?_, hst, (hw.sound _ o hst).spent_iff.mp hs, rfl, rfl, rfl, fun _ => rfl⟩
  unfold LimitOrder.Spent at hs
  simp [purgeClosedOrder, purgeRecord, hi, ho, hs, failIf, OrderTable.removeOrder,
    LimitOrder.key, bind, Except.bind, pure, Except.pure]

end Iteration

section Effect

variable (hw : b.WellFormed here) (h : Purge here b b' o)
include hw h

/-- The purged order was the only one with its id. -/
theorem Purge.orders_lookup (k : OrderKey) : b'.table.orders.lookup k =
    if k.2.2 = o.id then none else b.table.orders.lookup k := by
  rw [h.table_eq, OrderTable.removeOrder, OrderTable.bucketRemove_orders, Store.lookup_erase_ite]
  split_ifs with hk hid hid
  · rfl
  · exact absurd (congrArg (·.2.2) hk) hid
  · cases ho : b.table.orders.lookup k with
    | none => rfl
    | some r => exact absurd (hw.indexed.key_eq_of_id_eq ho h.stored hid) hk
  · rfl

omit hw in
theorem Purge.index_lookup (orderId : ℕ) : b'.table.orderIndex.lookup orderId =
    if orderId = o.id then none else b.table.orderIndex.lookup orderId := by
  rw [h.table_eq, OrderTable.removeOrder, OrderTable.bucketRemove_orderIndex,
    Store.lookup_erase_ite]
  rfl

/-- A closed order stands in no bucket. -/
theorem Purge.getOrdersAtTick_eq (p : AssetPair) (x : ℤ) :
    b'.getOrdersAtTick p x = b.getOrdersAtTick p x := by
  rw [Book.getOrdersAtTick, h.table_eq, OrderTable.removeOrder_getOrdersAtTick,
    OrderTable.getOrdersAtTick_bucketRemove]
  split_ifs with he
  · obtain ⟨rfl, rfl⟩ := Prod.mk.inj he
    refine List.filter_eq_self.mpr fun id hid => ?_
    obtain ⟨r, hr, hactive⟩ := (hw.indexed.bucket_mem _ _ _).mp hid
    have hne : id ≠ o.id := by
      rintro rfl
      obtain rfl := Option.some.inj (hr.symm.trans h.stored)
      exact Bool.false_ne_true (h.closed.symm.trans hactive)
    simpa using hne
  · rfl

theorem Purge.loadOrder_of_ne (hne : orderId ≠ o.id) :
    b'.loadOrder orderId = b.loadOrder orderId := by
  have ho : ∀ p x, b'.table.orders.lookup (p, x, orderId) =
      b.table.orders.lookup (p, x, orderId) := fun p x => by
    rw [h.orders_lookup hw, if_neg hne]
  simp only [Book.loadOrder, OrderTable.loadOrder, h.index_lookup orderId, if_neg hne, ho]

theorem Purge.purgeable_eq (orderId : ℕ) :
    b'.purgeable orderId = (b.purgeable orderId && decide (orderId ≠ o.id)) := by
  by_cases hid : orderId = o.id
  · have hnone : ∀ r, b'.loadOrder orderId ≠ .ok r := by
      simp [Book.loadOrder, OrderTable.loadOrder, h.index_lookup orderId, hid, bind, Except.bind,
        okOr]
    have hf : b'.purgeable orderId = false := by
      unfold Book.purgeable
      cases hl : b'.loadOrder orderId with
      | error e => rfl
      | ok r => exact absurd hl (hnone r)
    rw [hf]
    simp [hid]
  · simp [Book.purgeable, h.loadOrder_of_ne hw hid, hid]

end Effect

section Loop

/-- The order of the head is counted once, however often its id is listed again. -/
theorem Purge.purgeCount_cons (hw : b.WellFormed here) (h : Purge here b b' o)
    (hp : b.purgeable o.id = true) :
    b.purgeCount (o.id :: orderIds) = b'.purgeCount orderIds + 1 := by
  have hset : ((o.id :: orderIds).toFinset.filter fun i => b.purgeable i) =
      insert o.id (orderIds.toFinset.filter fun i => b'.purgeable i) := by
    ext i
    simp only [List.toFinset_cons, Finset.mem_filter, Finset.mem_insert, List.mem_toFinset,
      h.purgeable_eq hw, Bool.and_eq_true, decide_eq_true_eq]
    by_cases hi : i = o.id <;> simp [hi, hp]
  rw [Book.purgeCount, hset, Finset.card_insert_of_notMem, Book.purgeCount]
  simp [h.purgeable_eq hw]

theorem Book.purgeCount_cons_of_not (hp : b.purgeable orderId = false) :
    b.purgeCount (orderId :: orderIds) = b.purgeCount orderIds := by
  unfold Book.purgeCount
  rw [List.toFinset_cons, Finset.filter_insert, if_neg (by simp [hp])]

theorem Purged.nil (b : Book) : Purged b b [] := by
  constructor <;> simp

theorem Purged.skip (h : Purged b b' orderIds) (hp : b.purgeable orderId = false) :
    Purged b b' (orderId :: orderIds) := by
  have hmem : ∀ i, (i ∈ orderId :: orderIds ∧ b.purgeable i = true) ↔
      i ∈ orderIds ∧ b.purgeable i = true := by
    intro i
    by_cases hi : i = orderId <;> simp [hi, hp]
  refine ⟨fun k => ?_, fun i => ?_, h.buckets_eq, h.nextOrderId_eq, h.ticks_eq, h.balances_eq,
    h.tokens_eq⟩
  · simp only [hmem]
    exact h.orders_eq k
  · simp only [hmem]
    exact h.index_eq i

/-- Removing one order and then the rest of the list. -/
theorem Purged.cons {t : OrderTable} (hw : b.WellFormed here)
    (hpurge : Purge here b { b with table := t } o) (hp : b.purgeable o.id = true)
    (h : Purged { b with table := t } b' orderIds) : Purged b b' (o.id :: orderIds) := by
  have hmem : ∀ i, (i ∈ o.id :: orderIds ∧ b.purgeable i = true) ↔
      i = o.id ∨ i ∈ orderIds ∧ Book.purgeable { b with table := t } i = true := by
    intro i
    rw [hpurge.purgeable_eq hw]
    by_cases hi : i = o.id <;> simp [hi, hp]
  refine ⟨fun k => ?_, fun i => ?_, fun p x => ?_, ?_, h.ticks_eq, h.balances_eq, h.tokens_eq⟩
  · rw [h.orders_eq, hpurge.orders_lookup hw]
    simp only [hmem]
    split_ifs <;> grind
  · rw [h.index_eq, hpurge.index_lookup]
    simp only [hmem]
    split_ifs <;> grind
  · exact (h.buckets_eq p x).trans (hpurge.getOrdersAtTick_eq hw p x)
  · refine h.nextOrderId_eq.trans ?_
    rw [hpurge.table_eq]
    simp [OrderTable.removeOrder]

/-- A list without open orders is worked off. -/
theorem purgeLoop_purged (hw : b.WellFormed here)
    (hspent : ∀ id ∈ orderIds, ∀ o, b.loadOrder id = .ok o → o.Spent) {n : ℕ}
    (hn : n + orderIds.length < 2 ^ 32) :
    ∃ t, purgeLoop orderIds n b.table = .ok (n + b.purgeCount orderIds, t) ∧
      Purged b { b with table := t } orderIds := by
  induction orderIds generalizing b n with
  | nil => exact ⟨b.table, rfl, .nil b⟩
  | cons orderId orderIds ih =>
    rw [List.length_cons] at hn
    have hrest := fun id hid => hspent id (List.mem_cons_of_mem orderId hid)
    by_cases hload : ∃ o, b.loadOrder orderId = .ok o
    · obtain ⟨o, hload⟩ := hload
      have hs := hspent orderId List.mem_cons_self o hload
      obtain ⟨t₁, hstep, hpurge⟩ := purgeClosedOrder_of_spent hw hload hs
      obtain ⟨_, rfl⟩ := hw.indexed.loadOrder_eq_ok.mp hload
      have hp : b.purgeable o.id = true := by simp [Book.purgeable_of_load hload, hs]
      obtain ⟨t, hloop, hpurged⟩ := ih (hpurge.wellFormed hw) (n := n + 1) (fun id hid r hr => by
        by_cases hne : id = o.id
        · rw [hne] at hr
          simp [Book.loadOrder, OrderTable.loadOrder, hpurge.index_lookup, okOr, bind,
            Except.bind] at hr
        · exact hrest id hid r (by rwa [hpurge.loadOrder_of_ne hw hne] at hr)) (by omega)
      refine ⟨t, ?_, hpurged.cons hw hpurge hp⟩
      have hcount : checkBits 32 (n + 1) = some (n + 1) := by simp; omega
      rw [hpurge.purgeCount_cons hw hp, purgeLoop, hstep, ok_bind]
      simp only [countPurged, if_true, hcount, okOr_some, ok_bind, hloop]
      rw [add_assoc, add_comm 1]
    · push Not at hload
      have hp : b.purgeable orderId = false := by
        unfold Book.purgeable
        cases hl : b.loadOrder orderId with
        | error e => rfl
        | ok r => exact absurd hl (hload r)
      obtain ⟨t, hloop, hpurged⟩ := ih hw hrest (n := n) (by omega)
      refine ⟨t, ?_, hpurged.skip hp⟩
      rw [Book.purgeCount_cons_of_not hp, purgeLoop, purgeClosedOrder_of_absent hw hload, ok_bind]
      simpa [countPurged] using hloop

/-- The first open order in the list stops the purge. -/
theorem purgeLoop_spent (hw : b.WellFormed here) {n : ℕ} {r : ℕ × OrderTable}
    (h : purgeLoop orderIds n b.table = .ok r) :
    ∀ id ∈ orderIds, ∀ o, b.loadOrder id = .ok o → o.Spent := by
  induction orderIds generalizing b n with
  | nil => simp
  | cons orderId orderIds ih =>
    simp only [purgeLoop, bind_eq_ok, Prod.exists] at h
    obtain ⟨wasPurged, t, hstep, n', _, h⟩ := h
    intro id hid o hload
    by_contra hopen
    rcases List.mem_cons.mp hid with rfl | hid
    · rw [purgeClosedOrder_of_open hw hload hopen] at hstep
      cases hstep
    · rcases purgeClosedOrder_cases hw hstep with rfl | ⟨c, hpurge⟩
      · exact hopen (ih hw h id hid o hload)
      · have hne : id ≠ c.id := by
          rintro rfl
          obtain rfl : o = c := Except.ok.inj
            (hload.symm.trans (hw.indexed.loadOrder_eq_ok.mpr ⟨hpurge.stored, rfl⟩))
          exact hopen (.inl hpurge.closed)
        exact hopen (ih (hpurge.wellFormed hw) h id hid o
          ((hpurge.loadOrder_of_ne hw hne).trans hload))

end Loop

theorem purgesListed_iff (hw : b.WellFormed here) (hlen : orderIds.length < 2 ^ 32) :
    PurgesListed b orderIds ↔ ∀ id ∈ orderIds, ∀ o, b.loadOrder id = .ok o → o.Spent := by
  constructor
  · rintro ⟨b', h, _⟩
    obtain ⟨r, hloop, _⟩ := bind_eq_ok.mp h
    exact purgeLoop_spent hw hloop
  · intro hspent
    obtain ⟨t, hloop, hpurged⟩ := purgeLoop_purged hw hspent (n := 0) (by omega)
    refine ⟨_, ?_, hpurged⟩
    rw [purgeClosedOrders, hloop, ok_bind, zero_add]
    rfl

/-- In every reachable book, a list of at most `2 ^ 32 - 1` ids is purged, whatever repetitions
and unknown ids it has, exactly when every listed order that is stored is spent. -/
theorem bookAfter_purgesListed_iff (tokens : Tokens) (run : List (BookStep here))
    (orderIds : List ℕ) (hlen : orderIds.length < 2 ^ 32) :
    PurgesListed (bookAfter tokens run) orderIds ↔
      ∀ id ∈ orderIds, ∀ o, (bookAfter tokens run).loadOrder id = .ok o → o.Spent :=
  purgesListed_iff (bookAfter_ranked tokens run).1 hlen

/-- Two sell orders are placed and the first one is cancelled. -/
def cancelledRun : List (BookStep ⟨0⟩) :=
  [(.standard _ 1 none, .placeOrderWithExpiry ⟨1⟩ samplePair priceScale 100 0),
   (.standard _ 1 none, .placeOrderWithExpiry ⟨2⟩ samplePair priceScale 50 0),
   (.standard _ 1 none, .cancelOrder ⟨1⟩ 0)]

/-- The cancelled order and an unknown one, listed twice. -/
theorem cancelledRun_purged :
    [0, 7, 0].length < 2 ^ 32 ∧ PurgesListed (bookAfter sampleTokens cancelledRun) [0, 7, 0] := by
  refine ⟨by norm_num, (bookAfter_purgesListed_iff sampleTokens cancelledRun [0, 7, 0]
    (by norm_num)).mpr fun id hid o ho => ?_⟩
  have hspent : ∀ id ∈ [0, 7, 0], ((bookAfter sampleTokens cancelledRun).loadOrder
      id).toOption.all (fun o => o.Spent) = true := by decide +kernel
  have hall := hspent id hid
  rw [ho] at hall
  simpa [Except.toOption] using hall

/-- With the open order in the list, nothing is purged. -/
theorem cancelledRun_trapped :
    (bookAfter sampleTokens cancelledRun).purgeable 0 = true ∧
    purgeClosedOrders [0, 1] (bookAfter sampleTokens cancelledRun) = .error Fault.trap ∧
    ¬ PurgesListed (bookAfter sampleTokens cancelledRun) [0, 1] := by
  have hcount : Prod.fst <$> purgeClosedOrders [0, 1] (bookAfter sampleTokens cancelledRun) =
      .error Fault.trap := by decide +kernel
  have htrap := map_eq_error.mp hcount
  refine ⟨by decide +kernel, htrap, ?_⟩
  rintro ⟨b', h, _⟩
  cases htrap.symm.trans h

end StellarFlow.Orders
