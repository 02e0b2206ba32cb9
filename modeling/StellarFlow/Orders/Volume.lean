import StellarFlow.Orders.Runs

/-!
# Tick volume against resting orders

The stored volume of a tick is an aggregate kept apart from the orders. Every edit but a
match changes it by exactly what leaves or enters the book. A match leaves it alone, so
the volume can only be too high afterwards, and agreement with the orders is lost for the
tick of the sell order at the first match.
-/
namespace StellarFlow.Orders

open Foundation

/-- What an order contributes to the resting volume of a pair, tick and side. -/
def restingWeight (p : AssetPair) (x : ℤ) (isBid : Bool) (o : LimitOrder) : ℤ :=
  if o.active = true ∧ o.pair = p ∧ o.priceTick = x ∧ o.isBid = isBid then o.remainingAmount else 0

/-- Sum of the remaining amounts of the active orders of a pair, tick and side. -/
def restingVolume (p : AssetPair) (x : ℤ) (isBid : Bool) (b : Book) : ℤ :=
  b.table.sumOrders (restingWeight p x isBid)

/-- By how much the stored volume exceeds the resting volume. -/
def volumeSlack (p : AssetPair) (x : ℤ) (isBid : Bool) (b : Book) : ℤ :=
  b.getTickVolume p x isBid - restingVolume p x isBid b

/-- Every stored tick volume is the volume of the resting orders. -/
def VolumesAgree (b : Book) : Prop :=
  ∀ p x isBid, b.getTickVolume p x isBid = restingVolume p x isBid b

/-- Stored tick volumes are never below the volume of the resting orders. -/
def VolumesCover (b : Book) : Prop :=
  ∀ p x isBid, 0 ≤ volumeSlack p x isBid b

/-- How much of a volume change at an order's tick is seen at the given tick. -/
def atTick (p : AssetPair) (x : ℤ) (isBid : Bool) (o : LimitOrder) (v : ℤ) : ℤ :=
  if (p, x, isBid) = (o.pair, o.priceTick, o.isBid) then v else 0

variable {here : Address} {env : Env here} {call : BookCall} {b b' : Book}
  {p : AssetPair} {x : ℤ} {s : Bool} {o o' : LimitOrder} {q : ℤ} {out : FillUpdateOutcome}

theorem restingWeight_inactive (h : o.active = false) : restingWeight p x s o = 0 := by
  simp [restingWeight, h]

theorem restingWeight_active (h : o.active = true) :
    restingWeight p x s o = atTick p x s o o.remainingAmount := by
  simp only [restingWeight, atTick, h, true_and, Prod.mk.injEq]
  congr 1
  simp only [eq_comm]

/-- A fill takes the traded volume and the dust off the order's tick. -/
theorem FillSpec.restingWeight_eq (h : FillSpec o q out o') (ha : o.active = true) :
    restingWeight p x s o =
      restingWeight p x s o' + atTick p x s o (q + out.dustRemainingBase) := by
  have hw' : restingWeight p x s o' = atTick p x s o o'.remainingAmount := by
    cases ha' : o'.active with
    | true =>
      rw [restingWeight_active ha']
      simp only [atTick]
      rw [h.eq]
      rfl
    | false =>
      rw [restingWeight_inactive ha', h.remaining_eq_zero ha']
      simp [atTick]
  have hrem := h.remaining_eq
  rw [restingWeight_active ha, hw']
  simp only [atTick]
  split_ifs <;> omega

theorem restingWeight_nonneg (h : o.Sound here) : 0 ≤ restingWeight p x s o := by
  unfold restingWeight
  split_ifs with ha
  · exact (h.remaining_pos ha.1).le
  · exact le_rfl

/-- A single open order is part of the resting volume of its tick. -/
theorem remaining_le_restingVolume (hw : b.WellFormed here) (ho : b.Open o) :
    o.remainingAmount ≤ restingVolume o.pair o.priceTick o.isBid b := by
  have hle := Store.part_le_total (f := fun _ => restingWeight o.pair o.priceTick o.isBid)
    (s := b.table.orders) (fun k r hr => restingWeight_nonneg (hw.sound k r hr)) o.key
  rw [Store.part_of_lookup _ ho.stored, restingWeight_active ho.active] at hle
  simp only [atTick, if_true] at hle
  exact hle

theorem VolumesCover.remaining_le (hc : VolumesCover b) (hw : b.WellFormed here)
    (ho : b.Open o) : o.remainingAmount ≤ b.getTickVolume o.pair o.priceTick o.isBid := by
  have h1 := remaining_le_restingVolume hw ho
  have h2 := hc o.pair o.priceTick o.isBid
  unfold volumeSlack at h2
  omega

theorem volumesAgree_iff : VolumesAgree b ↔ ∀ p x isBid, volumeSlack p x isBid b = 0 := by
  simp only [VolumesAgree, volumeSlack, sub_eq_zero]

section Steps

theorem restingVolume_storeFill (ho : b.Open o) (hk : o'.key = o.key)
    (hp : out.purged = true → o'.active = false)
    (ht : b'.table = b.table.storeFill out o') :
    restingVolume p x s b' + restingWeight p x s o =
      restingVolume p x s b + restingWeight p x s o' := by
  unfold restingVolume
  rw [ht]
  exact OrderTable.sumOrders_storeFill (fun _ hq => restingWeight_inactive hq) ho.stored hk hp

theorem FillSpec.restingVolume_eq (h : FillSpec o q out o') (ho : b.Open o)
    (ht : b'.table = b.table.storeFill out o') :
    restingVolume p x s b' =
      restingVolume p x s b - atTick p x s o (q + out.dustRemainingBase) := by
  have h1 := restingVolume_storeFill (p := p) (x := x) (s := s) ho h.key_eq
    h.inactive_of_purged ht
  have h2 := h.restingWeight_eq (p := p) (x := x) (s := s) ho.active
  omega

theorem getTickVolume_of_remove (ha : 0 < q) (hle : q ≤ b.getTickVolume o.pair o.priceTick o.isBid)
    (ht : b'.ticks = b.ticks.removeTickLiquidity o.pair o.priceTick q o.isBid) :
    b'.getTickVolume p x s = b.getTickVolume p x s - atTick p x s o q := by
  unfold Book.getTickVolume
  rw [ht]
  exact TickTable.getTickVolume_remove ha hle p x s

theorem Place.volume_slack (h : Place here b b' o) (hw : b.WellFormed here) :
    volumeSlack p x s b' = volumeSlack p x s b := by
  have hv : b'.getTickVolume p x s = b.getTickVolume p x s + atTick p x s o o.remainingAmount :=
    TickTable.getTickVolume_add h.remaining_pos h.ticks_eq p x s
  have hr : restingVolume p x s b' = restingVolume p x s b + restingWeight p x s o := by
    unfold restingVolume
    rw [h.table_eq]
    exact OrderTable.sumOrders_place hw.indexed _ h.id_eq _
  rw [volumeSlack, volumeSlack, hv, hr, restingWeight_active h.active]
  omega

theorem Trade.volume_slack {asset : Address} {paid : ℤ}
    (h : Trade here b b' o q out o' asset paid) (hw : b.WellFormed here) (hc : VolumesCover b) :
    volumeSlack p x s b' = volumeSlack p x s b := by
  have hspec := h.spec hw
  have hle := hc.remaining_le hw h.is_open
  have hrem := hspec.remaining_eq
  have hnn := hspec.remaining_nonneg
  rw [volumeSlack, volumeSlack, hspec.restingVolume_eq h.is_open h.table_eq,
    getTickVolume_of_remove (h.delta_pos hw) (by omega) h.ticks_eq]
  omega

theorem Cancel.volume_slack (h : Cancel here b b' o) (hw : b.WellFormed here)
    (hc : VolumesCover b) : volumeSlack p x s b' = volumeSlack p x s b := by
  have hle := hc.remaining_le hw h.is_open
  have hk : o.cancelled.key = o.key := rfl
  have hr := restingVolume_storeFill (p := p) (x := x) (s := s) h.is_open hk (fun _ => rfl)
    h.table_eq
  rw [restingWeight_active h.is_open.active, restingWeight_inactive rfl] at hr
  rw [volumeSlack, volumeSlack, getTickVolume_of_remove (h.remaining_pos hw) hle h.ticks_eq]
  omega

theorem Purge.volume_slack (h : Purge here b b' o) :
    volumeSlack p x s b' = volumeSlack p x s b := by
  have hr : restingVolume p x s b' = restingVolume p x s b := by
    unfold restingVolume
    rw [h.table_eq]
    exact OrderTable.sumOrders_purge _ h.stored (restingWeight_inactive h.closed)
  rw [volumeSlack, volumeSlack, hr, Book.getTickVolume, Book.getTickVolume, h.ticks_eq]

theorem Withdraw.volume_slack {asset : Address} {amount : ℤ}
    (h : Withdraw here b b' asset amount) : volumeSlack p x s b' = volumeSlack p x s b := by
  simp only [volumeSlack, restingVolume, Book.getTickVolume, h.table_eq, h.ticks_eq]

/-- A match takes its volume out of both orders and leaves the tick volumes as they were. -/
theorem Match.volume_slack {treasury : Option Address}
    {seller buyer seller' buyer' : LimitOrder} {sellerOut buyerOut : FillUpdateOutcome}
    {amounts : Settlement}
    (h : Match here b b' treasury seller buyer q sellerOut buyerOut seller' buyer' amounts)
    (hw : b.WellFormed here) : volumeSlack p x s b' = volumeSlack p x s b +
      atTick p x s seller (q + sellerOut.dustRemainingBase) +
      atTick p x s buyer (q + buyerOut.dustRemainingBase) := by
  have hr : restingVolume p x s b' = restingVolume p x s b -
      atTick p x s seller (q + sellerOut.dustRemainingBase) -
      atTick p x s buyer (q + buyerOut.dustRemainingBase) := by
    rw [(h.buyer_spec hw).restingVolume_eq (h.buyer_half_open hw) h.table_eq]
    congr 1
    exact (h.seller_spec hw).restingVolume_eq h.seller_open rfl
  rw [volumeSlack, volumeSlack, hr, Book.getTickVolume, Book.getTickVolume, h.ticks_eq]
  omega

end Steps

/-- No edit but a match changes the slack of any tick. -/
theorem Edit.volume_slack (h : Edit env call b b') (hw : b.WellFormed here)
    (hc : VolumesCover b) (hcall : ∀ i j q, call ≠ .matchOrders i j q) :
    volumeSlack p x s b' = volumeSlack p x s b := by
  cases h with
  | place _ h => exact h.volume_slack hw
  | fill filler _ h => exact h.volume_slack hw hc
  | trade taker pair amount isBuy _ h => exact h.volume_slack hw hc
  | settle h => exact absurd rfl (hcall _ _ _)
  | cancel _ h => exact h.volume_slack hw hc
  | withdraw owner asset amount h => exact h.volume_slack
  | purge orderIds h => exact h.volume_slack

theorem atTick_nonneg {v : ℤ} (hv : 0 ≤ v) : 0 ≤ atTick p x s o v := by
  unfold atTick
  split_ifs
  · exact hv
  · exact le_rfl

/-- Every edit keeps the stored volumes at or above the resting volumes. -/
theorem Edit.volumesCover (h : Edit env call b b') (hw : b.WellFormed here)
    (hc : VolumesCover b) : VolumesCover b' := by
  intro p x s
  by_cases hcall : ∃ i j q, call = .matchOrders i j q
  · obtain ⟨i, j, q, rfl⟩ := hcall
    cases h with
    | place hcall _ => exact hcall.elim
    | cancel hcall _ => exact hcall.elim
    | settle h =>
      rw [h.volume_slack hw]
      have hs := add_nonneg h.pos.le (h.seller_spec hw).dust_nonneg
      have hb := add_nonneg h.pos.le (h.buyer_spec hw).dust_nonneg
      exact add_nonneg (add_nonneg (hc p x s) (atTick_nonneg hs)) (atTick_nonneg hb)
  · push Not at hcall
    exact h.volume_slack hw hc hcall ▸ hc p x s

theorem volumesAgree_empty (tokens : Tokens) : VolumesAgree (Book.empty tokens) :=
  fun _ _ _ => rfl

theorem VolumesAgree.cover (h : VolumesAgree b) : VolumesCover b :=
  fun p x s => (volumesAgree_iff.mp h p x s).ge

/-- Any other call than a match keeps the agreement. -/
theorem exec_volumesAgree (hw : b.WellFormed here) (ha : VolumesAgree b)
    (hcall : ∀ i j q, call ≠ .matchOrders i j q) (h : call.exec env b = .ok b') :
    VolumesAgree b' := by
  refine (exec_induction hw ha (fun c c' hwc hac he => ?_) h).2
  rw [volumesAgree_iff] at hac ⊢
  intro p x s
  rw [he.volume_slack hwc (volumesAgree_iff.mpr hac).cover hcall, hac]

/-- A successful match leaves the volume of the seller's tick too high. -/
theorem matchOrders_disagree (hw : b.WellFormed here) (ha : VolumesAgree b) {i j : ℕ} {q : ℤ}
    (h : (BookCall.matchOrders i j q).exec env b = .ok b') : ¬ VolumesAgree b' := by
  simp only [BookCall.exec, snd_map_eq_ok] at h
  obtain ⟨r, h⟩ := h
  obtain ⟨seller, buyer, sellerOut, buyerOut, _, _, _, _, _, hm⟩ := matchOrders_match hw h
  intro ha'
  rw [volumesAgree_iff] at ha ha'
  have hslack := hm.volume_slack (p := seller.pair) (x := seller.priceTick) (s := seller.isBid) hw
  rw [ha', ha] at hslack
  have hseller : atTick seller.pair seller.priceTick seller.isBid seller
      (q + sellerOut.dustRemainingBase) = q + sellerOut.dustRemainingBase := if_pos rfl
  have hbuyer := atTick_nonneg (p := seller.pair) (x := seller.priceTick) (s := seller.isBid)
    (o := buyer) (add_nonneg hm.pos.le (hm.buyer_spec hw).dust_nonneg)
  have hpos := hm.pos
  have hdust := (hm.seller_spec hw).dust_nonneg
  omega

/-- The call is not a match, or it is a match that fails in this state. -/
def MatchRejected (b : Book) (i : BookStep here) : Prop :=
  ∀ sellerOrderId buyerOrderId fillAmount,
    i.2 = .matchOrders sellerOrderId buyerOrderId fillAmount →
      ∃ e, matchOrders i.1 sellerOrderId buyerOrderId fillAmount b = .error e

theorem commit_volumesAgree_iff (hw : b.WellFormed here) (ha : VolumesAgree b)
    (i : BookStep here) : VolumesAgree (commit bookStep b i) ↔ MatchRejected b i := by
  obtain ⟨env, call⟩ := i
  by_cases hcall : ∃ i j q, call = .matchOrders i j q
  · obtain ⟨i, j, q, rfl⟩ := hcall
    cases h : matchOrders env i j q b with
    | error e =>
      have hstep : bookStep (env, .matchOrders i j q) b = .error e := by
        simp [bookStep, BookCall.exec, h, Functor.map, Except.map]
      rw [commit_of_error hstep]
      refine iff_of_true ha ?_
      rintro i' j' q' heq
      cases heq
      exact ⟨e, h⟩
    | ok r =>
      obtain ⟨r, b'⟩ := r
      have hstep : bookStep (env, .matchOrders i j q) b = .ok b' := by
        simp [bookStep, BookCall.exec, h, Functor.map, Except.map]
      rw [commit_of_ok hstep]
      refine iff_of_false (matchOrders_disagree hw ha hstep) fun hr => ?_
      obtain ⟨e, he⟩ := hr i j q rfl
      rw [h] at he
      cases he
  · push Not at hcall
    refine iff_of_true ?_ fun i j q heq => absurd heq (hcall i j q)
    exact commit_induction ha fun b' h => exec_volumesAgree hw ha hcall h

/-- The stored tick volumes agree with the resting orders in every state of a run exactly
when no match of the run goes through. -/
theorem volumesAgree_throughout_iff (tokens : Tokens) (run : List (BookStep here)) :
    Throughout bookStep VolumesAgree (Book.empty tokens) run ↔
      Along bookStep MatchRejected (Book.empty tokens) run :=
  throughout_iff_along (I := Book.WellFormed here) (fun _ i hw => commit_wellFormed hw i)
    (fun _ i hw ha => commit_volumesAgree_iff hw ha i) (.empty tokens)
    (volumesAgree_empty tokens) run

/-- A sell order of one hundred units meets a buy order at the same price and is matched in
full. -/
def matchedRun : List (BookStep ⟨0⟩) :=
  [(.standard _ 1 (some ⟨9⟩), .placeOrderWithExpiry ⟨1⟩ samplePair priceScale 100 0),
   (.standard _ 1 (some ⟨9⟩), .placeBuyOrder ⟨2⟩ samplePair priceScale 100),
   (.standard _ 1 (some ⟨9⟩), .matchOrders 0 1 100)]

theorem matchedRun_volume :
    (bookAfter sampleTokens matchedRun).getTickVolume samplePair priceScale false = 100 ∧
    restingVolume samplePair priceScale false (bookAfter sampleTokens matchedRun) = 0 ∧
    ¬ VolumesAgree (bookAfter sampleTokens matchedRun) := by
  have h : (bookAfter sampleTokens matchedRun).getTickVolume samplePair priceScale false = 100 ∧
      restingVolume samplePair priceScale false (bookAfter sampleTokens matchedRun) = 0 := by
    decide +kernel
  refine ⟨h.1, h.2, fun ha => ?_⟩
  have := ha samplePair priceScale false
  omega

end StellarFlow.Orders
