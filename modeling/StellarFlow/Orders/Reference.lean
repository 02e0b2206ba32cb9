import StellarFlow.Orders.Volume

/-!
# The reference list of a market order

The reference for a market order is one flat list: all eligible resting orders, sorted by
price and then by id. The contract never builds that list. It is what the active ticks,
the buckets and the id index spell out together when they are read in a book at rest.
-/
namespace StellarFlow.Orders

open Foundation

/-- Every order ever issued that is still stored, by id. -/
def storedOrders (b : Book) : List LimitOrder :=
  (List.range b.table.nextOrderId).filterMap fun id => (b.loadOrder id).toOption

/-- An active, unexpired order of the pair on the side opposite to the taker. -/
def Eligible (sequence : ℕ) (isBuy : Bool) (pair : AssetPair) (o : LimitOrder) : Prop :=
  o.active = true ∧ ¬ o.expired sequence ∧ o.isBid = !isBuy ∧ o.pair = pair

instance (sequence : ℕ) (isBuy : Bool) (pair : AssetPair) (o : LimitOrder) :
    Decidable (Eligible sequence isBuy pair o) :=
  inferInstanceAs (Decidable (_ ∧ _ ∧ _ ∧ _))

/-- Priority on one side of the book: the better price, then the older order. -/
def rankBefore (isBid : Bool) (x y : LimitOrder) : Prop :=
  tickBefore isBid x.priceTick y.priceTick = true ∨ (x.priceTick = y.priceTick ∧ x.id < y.id)

def rankLe (isBid : Bool) (x y : LimitOrder) : Prop :=
  tickBefore isBid x.priceTick y.priceTick = true ∨ (x.priceTick = y.priceTick ∧ x.id ≤ y.id)

instance (isBid : Bool) : DecidableRel (rankLe isBid) :=
  fun _ _ => inferInstanceAs (Decidable (_ ∨ _))

/-- The reference list of a market order. -/
def referenceList (sequence : ℕ) (isBuy : Bool) (pair : AssetPair) (b : Book) :
    List LimitOrder :=
  ((storedOrders b).filter (Eligible sequence isBuy pair ·)).insertionSort (rankLe (!isBuy))

section Rank

variable {isBid : Bool} {x y z : LimitOrder}

theorem tickBefore_asymm {i j : ℤ} (h : tickBefore isBid i j = true) :
    ¬ tickBefore isBid j i = true := fun h' => by
  have := tickBefore_trans isBid i j i h h'
  simp [tickBefore_irrefl] at this

theorem rankBefore_asymm (x y : LimitOrder) (h : rankBefore isBid x y) :
    ¬ rankBefore isBid y x := by
  rintro (h' | ⟨h', hlt'⟩)
  · rcases h with h | ⟨h, _⟩
    · exact tickBefore_asymm h h'
    · rw [h] at h'
      simp [tickBefore_irrefl] at h'
  · rcases h with h | ⟨_, hlt⟩
    · rw [h'] at h
      simp [tickBefore_irrefl] at h
    · omega

theorem rankLe_total (isBid : Bool) (x y : LimitOrder) : rankLe isBid x y ∨ rankLe isBid y x := by
  by_cases hp : x.priceTick = y.priceTick
  · rcases le_total x.id y.id with hid | hid
    · exact .inl (.inr ⟨hp, hid⟩)
    · exact .inr (.inr ⟨hp.symm, hid⟩)
  · exact (tickBefore_total isBid _ _ hp).imp .inl .inl

theorem rankLe_trans (isBid : Bool) (x y z : LimitOrder) (hxy : rankLe isBid x y)
    (hyz : rankLe isBid y z) : rankLe isBid x z := by
  rcases hxy with hxy | ⟨hxy, hid⟩
  · rcases hyz with hyz | ⟨hyz, _⟩
    · exact .inl (tickBefore_trans isBid _ _ _ hxy hyz)
    · exact .inl (hyz ▸ hxy)
  · rcases hyz with hyz | ⟨hyz, hid'⟩
    · exact .inl (hxy ▸ hyz)
    · exact .inr ⟨hxy.trans hyz, hid.trans hid'⟩

instance (isBid : Bool) : Std.Total (rankLe isBid) := ⟨rankLe_total isBid⟩

instance (isBid : Bool) : IsTrans LimitOrder (rankLe isBid) := ⟨rankLe_trans isBid⟩

theorem rankBefore_of_rankLe (h : rankLe isBid x y) (hid : x.id ≠ y.id) :
    rankBefore isBid x y := by
  rcases h with h | ⟨hp, hle⟩
  · exact .inl h
  · exact .inr ⟨hp, lt_of_le_of_ne hle hid⟩

end Rank

section Reference

variable {here : Address} {b : Book} {sequence : ℕ} {isBuy : Bool} {pair : AssetPair}
  {o : LimitOrder}

theorem mem_storedOrders (hw : b.WellFormed here) :
    o ∈ storedOrders b ↔ b.table.orders.lookup o.key = some o := by
  simp only [storedOrders, List.mem_filterMap, List.mem_range]
  constructor
  · rintro ⟨id, _, h⟩
    cases hl : b.loadOrder id with
    | error e => simp [hl, Except.toOption] at h
    | ok r =>
      simp only [hl, Except.toOption, Option.some.injEq] at h
      subst h
      exact (hw.loadOrder_eq_ok.mp hl).1
  · intro h
    refine ⟨o.id, hw.indexed.order_fresh _ o h, ?_⟩
    rw [hw.loadOrder_eq_ok.mpr ⟨h, rfl⟩]
    rfl

theorem storedOrders_pairwise (hw : b.WellFormed here) :
    (storedOrders b).Pairwise fun x y => x.id < y.id := by
  refine List.Pairwise.filterMap _ (fun i j hij x hx y hy => ?_) List.pairwise_lt_range
  cases hi : b.loadOrder i with
  | error e => simp [hi, Except.toOption] at hx
  | ok r =>
    cases hj : b.loadOrder j with
    | error e => simp [hj, Except.toOption] at hy
    | ok r' =>
      simp only [hi, hj, Except.toOption, Option.some.injEq] at hx hy
      subst hx hy
      rw [(hw.loadOrder_eq_ok.mp hi).2, (hw.loadOrder_eq_ok.mp hj).2]
      exact hij

theorem mem_referenceList (hw : b.WellFormed here) :
    o ∈ referenceList sequence isBuy pair b ↔
      b.table.orders.lookup o.key = some o ∧ Eligible sequence isBuy pair o := by
  rw [referenceList, List.mem_insertionSort, List.mem_filter, mem_storedOrders hw,
    decide_eq_true_eq]

theorem referenceList_pairwise (hw : b.WellFormed here) :
    (referenceList sequence isBuy pair b).Pairwise (rankBefore (!isBuy)) := by
  have hids : (referenceList sequence isBuy pair b).Pairwise fun x y => x.id ≠ y.id := by
    refine List.Pairwise.perm ?_ (List.perm_insertionSort _ _).symm fun h => h.symm
    exact ((storedOrders_pairwise hw).filter _).imp fun h => h.ne
  have hsort := List.pairwise_insertionSort (rankLe (!isBuy))
    ((storedOrders b).filter (Eligible sequence isBuy pair ·))
  exact (hsort.and hids).imp fun h => rankBefore_of_rankLe h.1 h.2

/-- The eligible orders of one bucket, in bucket order. -/
def eligibleAt (sequence : ℕ) (isBuy : Bool) (pair : AssetPair) (b : Book) (tick : ℤ) :
    List LimitOrder :=
  (b.getOrdersAtTick pair tick).filterMap fun id =>
    (b.loadOrder id).toOption.filter (Eligible sequence isBuy pair ·)

/-- The orders the walk over ticks and buckets finds in a book at rest. -/
def walkList (sequence : ℕ) (isBuy : Bool) (pair : AssetPair) (b : Book) : List LimitOrder :=
  (b.ticks.getActiveTicks pair (!isBuy)).flatMap (eligibleAt sequence isBuy pair b)

theorem loadOrder_filter_eq_some (hw : b.WellFormed here) {id : ℕ} :
    (b.loadOrder id).toOption.filter (Eligible sequence isBuy pair ·) = some o ↔
      b.table.orders.lookup o.key = some o ∧ o.id = id ∧ Eligible sequence isBuy pair o := by
  rw [Option.filter_eq_some_iff, decide_eq_true_eq, ← and_assoc, ← hw.loadOrder_eq_ok]
  refine and_congr_left fun _ => ?_
  cases b.loadOrder id <;> simp [Except.toOption]

theorem mem_eligibleAt (hw : b.WellFormed here) {tick : ℤ} :
    o ∈ eligibleAt sequence isBuy pair b tick ↔
      b.table.orders.lookup o.key = some o ∧ Eligible sequence isBuy pair o ∧
        o.priceTick = tick := by
  simp only [eligibleAt, List.mem_filterMap, loadOrder_filter_eq_some hw]
  constructor
  · rintro ⟨id, hmem, hst, rfl, he⟩
    obtain ⟨r, hr, _⟩ := (hw.indexed.bucket_mem _ _ _).mp hmem
    have hk := hw.indexed.key_eq_of_id_eq hst hr rfl
    exact ⟨hst, he, congrArg (·.2.1) hk⟩
  · rintro ⟨hst, he, rfl⟩
    refine ⟨o.id, (hw.indexed.bucket_mem _ _ _).mpr ⟨o, ?_, he.1⟩, hst, rfl, he⟩
    rw [← he.2.2.2]
    exact hst

theorem eligibleAt_pairwise (hw : b.WellFormed here) (tick : ℤ) :
    (eligibleAt sequence isBuy pair b tick).Pairwise fun x y => x.id < y.id := by
  refine List.Pairwise.filterMap _ (fun i j hij x hx y hy => ?_)
    (hw.indexed.bucket_sorted pair tick)
  rw [((loadOrder_filter_eq_some hw).mp hx).2.1, ((loadOrder_filter_eq_some hw).mp hy).2.1]
  exact hij

/-- An eligible order makes its tick active, because stored volumes are never too low. -/
theorem mem_walkList (hw : b.WellFormed here) (hr : b.ticks.Ranked) (hc : VolumesCover b) :
    o ∈ walkList sequence isBuy pair b ↔
      b.table.orders.lookup o.key = some o ∧ Eligible sequence isBuy pair o := by
  simp only [walkList, List.mem_flatMap, mem_eligibleAt hw]
  constructor
  · rintro ⟨_, _, hst, he, _⟩
    exact ⟨hst, he⟩
  · rintro ⟨hst, he⟩
    refine ⟨o.priceTick, ?_, hst, he, rfl⟩
    have hopen : b.Open o := ⟨hst, he.1⟩
    have hpos := (hopen.sound hw).remaining_pos he.1
    have hle := hc.remaining_le hw hopen
    rw [he.2.2.1, he.2.2.2] at hle
    rw [hr.mem_getActiveTicks]
    exact hpos.trans_le hle

theorem walkList_pairwise (hw : b.WellFormed here) (hr : b.ticks.Ranked) :
    (walkList sequence isBuy pair b).Pairwise (rankBefore (!isBuy)) := by
  rw [walkList, List.pairwise_flatMap]
  refine ⟨fun tick _ => ?_, ?_⟩
  · refine (eligibleAt_pairwise hw tick).imp_of_mem fun hx hy hlt => .inr ⟨?_, hlt⟩
    rw [((mem_eligibleAt hw).mp hx).2.2, ((mem_eligibleAt hw).mp hy).2.2]
  · refine (hr.ticks_sorted pair (!isBuy)).imp fun hij x hx y hy => .inl ?_
    rw [((mem_eligibleAt hw).mp hx).2.2, ((mem_eligibleAt hw).mp hy).2.2]
    exact hij

theorem nodup_of_rankBefore {isBid : Bool} {l : List LimitOrder}
    (h : l.Pairwise (rankBefore isBid)) : l.Nodup :=
  h.imp fun {x y} hxy heq => by
    subst heq
    exact rankBefore_asymm x x hxy hxy

/-- The three indexes together list the reference list. -/
theorem walkList_eq_referenceList (hw : b.WellFormed here) (hr : b.ticks.Ranked)
    (hc : VolumesCover b) :
    walkList sequence isBuy pair b = referenceList sequence isBuy pair b := by
  have hwalk := @walkList_pairwise here b sequence isBuy pair hw hr
  have href := @referenceList_pairwise here b sequence isBuy pair hw
  refine List.Perm.eq_of_pairwise (fun x y _ _ hxy hyx => ?_) hwalk href ?_
  · exact absurd hyx (rankBefore_asymm x y hxy)
  · rw [List.perm_ext_iff_of_nodup (nodup_of_rankBefore hwalk) (nodup_of_rankBefore href)]
    intro o
    rw [mem_walkList hw hr hc, mem_referenceList hw]

end Reference

end StellarFlow.Orders
