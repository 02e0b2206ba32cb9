import StellarFlow.Orders.Limit

/-!
# The order table

`OrderTable.Indexed` ties the order records, the id index and the buckets together:
a record sits under its own key, the index points exactly at the stored records, and
a bucket lists exactly the active ids of its pair and tick in increasing order. The
table is edited in four ways only (a new order, a reduced order, a closed order, a
purged order), and each of them keeps the representation.
-/
namespace StellarFlow.Orders

open Foundation

namespace OrderTable

structure Indexed (t : OrderTable) : Prop where
  order_key : ∀ k o, t.orders.lookup k = some o → k = o.key
  order_index : ∀ id (x : AssetPair × ℤ),
    t.orderIndex.lookup id = some x ↔ ∃ o, t.orders.lookup (x.1, x.2, id) = some o
  order_fresh : ∀ (k : OrderKey) o, t.orders.lookup k = some o → k.2.2 < t.nextOrderId
  bucket_sorted : ∀ p x, (t.getOrdersAtTick p x).Pairwise (· < ·)
  bucket_mem : ∀ p x id, id ∈ t.getOrdersAtTick p x ↔
    ∃ o, t.orders.lookup (p, x, id) = some o ∧ o.active = true

/-- Sum of a weight over all stored orders. -/
def sumOrders (w : LimitOrder → ℤ) (t : OrderTable) : ℤ := Store.total (fun _ o => w o) t.orders

section Edits

variable (t : OrderTable) (p p' : AssetPair) (x x' : ℤ) (id : ℕ) (o : LimitOrder) (k : OrderKey)

@[simp] theorem bucketRemove_orders : (t.bucketRemove p x id).orders = t.orders := by
  unfold bucketRemove
  split
  · rfl
  · dsimp only
    split_ifs <;> rfl

@[simp] theorem bucketRemove_orderIndex :
    (t.bucketRemove p x id).orderIndex = t.orderIndex := by
  unfold bucketRemove
  split
  · rfl
  · dsimp only
    split_ifs <;> rfl

@[simp] theorem bucketRemove_nextOrderId :
    (t.bucketRemove p x id).nextOrderId = t.nextOrderId := by
  unfold bucketRemove
  split
  · rfl
  · dsimp only
    split_ifs <;> rfl

/-- An emptied bucket disappears, which reads back as the empty list. -/
theorem getOrdersAtTick_bucketRemove : (t.bucketRemove p x id).getOrdersAtTick p' x' =
    if (p', x') = (p, x) then (t.getOrdersAtTick p x).filter (· ≠ id)
    else t.getOrdersAtTick p' x' := by
  cases h : t.buckets.lookup (p, x) with
  | none =>
    simp only [bucketRemove, getOrdersAtTick, h]
    split_ifs with he
    · rw [he, h]; rfl
    · rfl
  | some bucket =>
    simp only [bucketRemove, getOrdersAtTick, h, Option.getD_some]
    split_ifs with hu he he
    · rw [he, hu]; simp
    · rw [Store.lookup_erase_ite, if_neg he]
    · rw [he]; simp
    · rw [Store.lookup_insert_ite, if_neg he]

theorem mem_bucketRemove {id' : ℕ} : id' ∈ (t.bucketRemove p x id).getOrdersAtTick p' x' ↔
    id' ∈ t.getOrdersAtTick p' x' ∧ ¬ (p', x', id') = (p, x, id) := by
  rw [getOrdersAtTick_bucketRemove]
  split_ifs with he
  · cases he; simp
  · have hne : ¬ (p', x', id') = (p, x, id) := fun hc => he (by cases hc; rfl)
    simp [hne]

theorem bucketRemove_pairwise (h : (t.getOrdersAtTick p' x').Pairwise (· < ·)) :
    ((t.bucketRemove p x id).getOrdersAtTick p' x').Pairwise (· < ·) := by
  rw [getOrdersAtTick_bucketRemove]
  split_ifs with he
  · cases he; exact h.filter _
  · exact h

theorem getOrdersAtTick_bucketPush : (t.bucketPush p x id).getOrdersAtTick p' x' =
    if (p', x') = (p, x) then t.getOrdersAtTick p x ++ [id] else t.getOrdersAtTick p' x' := by
  simp only [bucketPush, getOrdersAtTick, Store.lookup_insert_ite]
  split_ifs <;> rfl

@[simp] theorem saveOrder_getOrdersAtTick :
    (t.saveOrder o).getOrdersAtTick p x = t.getOrdersAtTick p x := rfl

@[simp] theorem removeOrder_getOrdersAtTick :
    (t.removeOrder k).getOrdersAtTick p x = t.getOrdersAtTick p x := rfl

@[simp] theorem bucketPush_orders : (t.bucketPush p x id).orders = t.orders := rfl

@[simp] theorem bucketPush_orderIndex :
    (t.bucketPush p x id).orderIndex = t.orderIndex := rfl

@[simp] theorem bucketPush_nextOrderId :
    (t.bucketPush p x id).nextOrderId = t.nextOrderId := rfl

end Edits

variable {t : OrderTable} {o o' : LimitOrder} {out : FillUpdateOutcome}

namespace Indexed

theorem empty : Indexed ⟨0, ∅, ∅, ∅⟩ where
  order_key := by simp
  order_index := by simp
  order_fresh := by simp
  bucket_sorted := by simp [getOrdersAtTick]
  bucket_mem := by simp [getOrdersAtTick]

/-- Loading an id returns the one record stored under that id. -/
theorem loadOrder_eq_ok (h : t.Indexed) {id : ℕ} :
    t.loadOrder id = .ok o ↔ t.orders.lookup o.key = some o ∧ o.id = id := by
  simp only [loadOrder, bind_eq_ok, okOr_eq_ok]
  constructor
  · rintro ⟨y, _, ho⟩
    have hk := h.order_key _ o ho
    have hid : o.id = id := by simpa [LimitOrder.key] using (congrArg (·.2.2) hk).symm
    exact ⟨hk ▸ ho, hid⟩
  · rintro ⟨ho, rfl⟩
    exact ⟨(o.pair, o.priceTick), (h.order_index _ _).mpr ⟨o, ho⟩, ho⟩

/-- Two stored records with the same id are stored under the same key. -/
theorem key_eq_of_id_eq (h : t.Indexed) {k k' : OrderKey} (ho : t.orders.lookup k = some o)
    (ho' : t.orders.lookup k' = some o') (hid : k.2.2 = k'.2.2) : k = k' := by
  obtain ⟨p, x, id⟩ := k
  obtain ⟨p', x', id'⟩ := k'
  obtain rfl : id = id' := hid
  have h1 := (h.order_index id (p, x)).mpr ⟨o, ho⟩
  have h2 := (h.order_index id (p', x')).mpr ⟨o', ho'⟩
  rw [h1] at h2
  cases h2
  rfl

/-- Any edit that rewrites one stored record and lists it exactly when it is active. -/
theorem rewrite (h : t.Indexed) {t' : OrderTable} (ho : t.orders.lookup o.key = some o)
    (hk : o'.key = o.key) (hords : t'.orders = t.orders.insert o'.key o')
    (hindex : t'.orderIndex = t.orderIndex.insert o'.id (o'.pair, o'.priceTick))
    (hnext : t'.nextOrderId = t.nextOrderId)
    (hsorted : ∀ p x, (t'.getOrdersAtTick p x).Pairwise (· < ·))
    (hmem : ∀ p x id, id ∈ t'.getOrdersAtTick p x ↔
      if (p, x, id) = o'.key then o'.active = true else id ∈ t.getOrdersAtTick p x) :
    t'.Indexed := by
  have hid : o'.id = o.id := congrArg (·.2.2) hk
  have hx : (o'.pair, o'.priceTick) = (o.pair, o.priceTick) :=
    congrArg (fun k : OrderKey => (k.1, k.2.1)) hk
  have hlook : ∀ k, t'.orders.lookup k = if k = o'.key then some o' else t.orders.lookup k := by
    intro k
    rw [hords, Store.lookup_insert_ite]
  have hex : ∀ k, (∃ q, t'.orders.lookup k = some q) ↔ ∃ q, t.orders.lookup k = some q := by
    intro k
    rw [hlook, hk]
    split_ifs with hko
    · subst hko; simp [ho]
    · rfl
  refine ⟨?_, ?_, ?_, hsorted, ?_⟩
  · intro k q hq
    rw [hlook] at hq
    split_ifs at hq with hko
    · cases hq; exact hko
    · exact h.order_key k q hq
  · intro id y
    rw [hex, ← h.order_index, hindex, Store.lookup_insert_ite]
    split_ifs with hio
    · rw [hio, hid, hx, (h.order_index o.id (o.pair, o.priceTick)).mpr ⟨o, ho⟩]
    · rfl
  · intro k q hq
    obtain ⟨q', hq'⟩ := (hex k).mp ⟨q, hq⟩
    rw [hnext]
    exact h.order_fresh k q' hq'
  · intro p x id
    rw [hmem, hlook]
    split_ifs with hko
    · simp
    · exact h.bucket_mem p x id

/-- Overwriting an active record in place. -/
theorem update (h : t.Indexed) (ho : t.orders.lookup o.key = some o) (hk : o'.key = o.key)
    (ha : o.active = true) (ha' : o'.active = true) : (t.saveOrder o').Indexed := by
  refine h.rewrite ho hk rfl rfl rfl h.bucket_sorted fun p x id => ?_
  rw [saveOrder_getOrdersAtTick]
  split_ifs with hko
  · rw [hk] at hko
    rw [h.bucket_mem, hko]
    simp [ho, ha, ha']
  · rfl

/-- Delisting an order and leaving an inactive record behind. -/
theorem close (h : t.Indexed) (ho : t.orders.lookup o.key = some o) (hk : o'.key = o.key)
    (ha' : o'.active = false) :
    ((t.bucketRemove o'.pair o'.priceTick o'.id).saveOrder o').Indexed := by
  refine h.rewrite ho hk (by simp [saveOrder]) (by simp [saveOrder]) (by simp [saveOrder])
    (fun p x => bucketRemove_pairwise _ _ _ _ _ _ (h.bucket_sorted p x)) fun p x id => ?_
  rw [saveOrder_getOrdersAtTick, mem_bucketRemove, ha']
  change _ ∧ ¬ (p, x, id) = o'.key ↔ _
  split_ifs with hko <;> simp [hko]

/-- Delisting an order and removing its record. -/
theorem purge (h : t.Indexed) {p : AssetPair} {x : ℤ} {id : ℕ}
    (ho : t.orders.lookup (p, x, id) = some o) :
    ((t.bucketRemove p x id).removeOrder (p, x, id)).Indexed := by
  have hlook : ∀ k, ((t.bucketRemove p x id).removeOrder (p, x, id)).orders.lookup k =
      if k = (p, x, id) then none else t.orders.lookup k := by
    intro k
    simp only [removeOrder, bucketRemove_orders, Store.lookup_erase_ite]
  refine ⟨?_, ?_, ?_, fun p' x' => bucketRemove_pairwise _ _ _ _ _ _ (h.bucket_sorted p' x'), ?_⟩
  · intro k q hq
    rw [hlook] at hq
    split_ifs at hq
    exact h.order_key k q hq
  · intro id' y
    rw [hlook]
    simp only [removeOrder, bucketRemove_orderIndex, Store.lookup_erase_ite]
    by_cases hid : id' = id
    · subst hid
      rw [if_pos rfl]
      split_ifs with hko
      · simp
      · simp only [false_iff, not_exists]
        exact fun q hq => hko (h.key_eq_of_id_eq hq ho rfl)
    · rw [if_neg hid, if_neg fun hc => hid (congrArg (·.2.2) hc)]
      exact h.order_index id' y
  · intro k q hq
    rw [hlook] at hq
    split_ifs at hq
    simpa [removeOrder] using h.order_fresh k q hq
  · intro p' x' id'
    rw [removeOrder_getOrdersAtTick, mem_bucketRemove, hlook, h.bucket_mem]
    split_ifs with hko <;> simp [hko]

/-- Listing a new order under the next id. -/
theorem place (h : t.Indexed) (hid : o.id = t.nextOrderId) (ha : o.active = true) {n : ℕ}
    (hn : n = t.nextOrderId + 1) :
    (({ t with nextOrderId := n }.saveOrder o).bucketPush o.pair o.priceTick o.id).Indexed := by
  have hnew : ∀ p x, t.orders.lookup (p, x, o.id) = none := by
    intro p x
    cases hl : t.orders.lookup (p, x, o.id) with
    | none => rfl
    | some q =>
      have := h.order_fresh _ q hl
      simp only at this
      omega
  have hlook : ∀ k, (({ t with nextOrderId := n }.saveOrder o).bucketPush o.pair o.priceTick
      o.id).orders.lookup k = if k = o.key then some o else t.orders.lookup k := by
    intro k
    simp only [saveOrder, bucketPush_orders, Store.lookup_insert_ite]
  refine ⟨?_, ?_, ?_, ?_, ?_⟩
  · intro k q hq
    rw [hlook] at hq
    split_ifs at hq with hko
    · cases hq; exact hko
    · exact h.order_key k q hq
  · intro id y
    rw [hlook]
    simp only [saveOrder, bucketPush_orderIndex, Store.lookup_insert_ite]
    by_cases hio : id = o.id
    · subst hio
      rw [if_pos rfl]
      split_ifs with hko
      · have hy : y = (o.pair, o.priceTick) :=
          congrArg (fun k : OrderKey => (k.1, k.2.1)) hko
        simp [hy]
      · rw [hnew]
        simp only [reduceCtorEq, exists_false, iff_false, Option.some.injEq]
        rintro rfl
        exact hko rfl
    · rw [if_neg hio, if_neg fun hc => hio (congrArg (·.2.2) hc)]
      exact h.order_index id y
  · intro k q hq
    rw [hlook] at hq
    simp only [saveOrder, bucketPush_nextOrderId]
    split_ifs at hq with hko
    · rw [hko, hn]
      simp only [LimitOrder.key, hid]
      omega
    · have := h.order_fresh k q hq
      omega
  · intro p x
    rw [getOrdersAtTick_bucketPush]
    split_ifs with he
    · refine List.pairwise_append.mpr ⟨h.bucket_sorted _ _, List.pairwise_singleton _ _, ?_⟩
      intro i hi j hj
      rw [List.mem_singleton] at hj
      obtain ⟨q, hq, _⟩ := (h.bucket_mem _ _ _).mp hi
      have := h.order_fresh _ q hq
      simp only at this
      omega
    · exact h.bucket_sorted p x
  · intro p x id
    rw [getOrdersAtTick_bucketPush, hlook]
    by_cases he : (p, x) = (o.pair, o.priceTick)
    · cases he
      simp only [if_true, List.mem_append, List.mem_singleton, LimitOrder.key, Prod.mk.injEq,
        true_and]
      change id ∈ t.getOrdersAtTick _ _ ∨ _ ↔ _
      by_cases hio : id = o.id
      · simp [hio, ha]
      · simp only [hio, or_false, if_false]
        exact h.bucket_mem _ _ _
    · have hko : ¬ (p, x, id) = o.key := fun hc =>
        he (congrArg (fun k : OrderKey => (k.1, k.2.1)) hc)
      rw [if_neg he, if_neg hko]
      exact h.bucket_mem _ _ _

/-- Storing the outcome of a fill keeps the representation. -/
theorem storeFill (h : t.Indexed) (ho : t.orders.lookup o.key = some o) (hk : o'.key = o.key)
    (ha : o.active = true) (ha' : o'.active = !out.closed) : (t.storeFill out o').Indexed := by
  simp only [OrderTable.storeFill]
  split_ifs with hpurged hclosed
  · exact h.purge (o := o) (by rw [← ho, ← hk]; rfl)
  · exact h.close ho hk (by simp [ha', hclosed])
  · exact h.update ho hk ha (by simp [ha', hclosed])

end Indexed

theorem storeFill_lookup (t : OrderTable) (out : FillUpdateOutcome) (o : LimitOrder)
    (k : OrderKey) : (t.storeFill out o).orders.lookup k =
      if k = o.key then (if out.purged then none else some o) else t.orders.lookup k := by
  simp only [storeFill]
  split_ifs with hp hk hc hk hk <;>
    simp [removeOrder, saveOrder, Store.lookup_erase_ite, Store.lookup_insert_ite, hk]

@[simp] theorem storeFill_nextOrderId (t : OrderTable) (out : FillUpdateOutcome)
    (o : LimitOrder) : (t.storeFill out o).nextOrderId = t.nextOrderId := by
  simp only [storeFill]
  split_ifs <;> simp [removeOrder, saveOrder]

/-- A fill leaves every other order as it can be loaded. -/
theorem storeFill_loadOrder_of_ne (t : OrderTable) (out : FillUpdateOutcome) {o : LimitOrder}
    {id : ℕ} (hid : id ≠ o.id) : (t.storeFill out o).loadOrder id = t.loadOrder id := by
  have hindex : (t.storeFill out o).orderIndex.lookup id = t.orderIndex.lookup id := by
    simp only [storeFill]
    split_ifs <;> simp [removeOrder, saveOrder, LimitOrder.key, hid]
  have hords : ∀ p x, (t.storeFill out o).orders.lookup (p, x, id) =
      t.orders.lookup (p, x, id) := by
    intro p x
    rw [storeFill_lookup, if_neg fun hk => hid (congrArg (·.2.2) hk)]
  simp only [loadOrder, hindex, hords]

/-- A fill leaves every other bucket alone. -/
theorem storeFill_getOrdersAtTick_of_ne (t : OrderTable) (out : FillUpdateOutcome)
    {o : LimitOrder} {p : AssetPair} {x : ℤ} (hx : (p, x) ≠ (o.pair, o.priceTick)) :
    (t.storeFill out o).getOrdersAtTick p x = t.getOrdersAtTick p x := by
  simp only [storeFill]
  split_ifs
  · rw [removeOrder_getOrdersAtTick, getOrdersAtTick_bucketRemove, if_neg hx]
  · rw [saveOrder_getOrdersAtTick, getOrdersAtTick_bucketRemove, if_neg hx]
  · rfl

/-- For a weight that closed orders do not carry, a fill exchanges the weight of the old
version of the order for that of the new one, purged or not. -/
theorem sumOrders_storeFill {w : LimitOrder → ℤ} (hw : ∀ q, q.active = false → w q = 0)
    (ho : t.orders.lookup o.key = some o) (hk : o'.key = o.key)
    (hp : out.purged = true → o'.active = false) :
    sumOrders w (t.storeFill out o') + w o = sumOrders w t + w o' := by
  have hpart : Store.part (fun _ q => w q) t.orders o'.key = w o := by
    rw [hk]; exact Store.part_of_lookup _ ho
  have hins := Store.total_insert (fun _ q => w q) t.orders o'.key o'
  have hers := Store.total_erase (fun _ q => w q) t.orders o'.key
  rw [hpart] at hins hers
  simp only [sumOrders, storeFill]
  split_ifs with hpurged
  · simp only [removeOrder, bucketRemove_orders]
    rw [hers, hw o' (hp hpurged), add_zero]
  · simpa only [saveOrder, bucketRemove_orders] using hins
  · exact hins

theorem sumOrders_place (h : t.Indexed) (w : LimitOrder → ℤ) (hid : o.id = t.nextOrderId)
    (n : ℕ) : sumOrders w (({ t with nextOrderId := n }.saveOrder o).bucketPush o.pair
      o.priceTick o.id) = sumOrders w t + w o := by
  have hnew : t.orders.lookup o.key = none := by
    cases hl : t.orders.lookup o.key with
    | none => rfl
    | some q =>
      have := h.order_fresh _ q hl
      simp only [LimitOrder.key] at this
      omega
  simp only [sumOrders, bucketPush_orders, saveOrder]
  rw [Store.total_insert_of_none _ _ hnew, add_comm]

/-- Removing a record that carries no weight. -/
theorem sumOrders_purge (w : LimitOrder → ℤ) {p : AssetPair} {x : ℤ} {id : ℕ}
    (ho : t.orders.lookup (p, x, id) = some o) (hw : w o = 0) :
    sumOrders w ((t.bucketRemove p x id).removeOrder (p, x, id)) = sumOrders w t := by
  have hers := Store.total_erase (fun _ q => w q) t.orders (p, x, id)
  rw [Store.part_of_lookup _ ho, hw, add_zero] at hers
  simpa only [sumOrders, removeOrder, bucketRemove_orders] using hers

end OrderTable

end StellarFlow.Orders
