import StellarFlow.Amm.Ticks

/-!
# The list of initialised ticks

Whether a tick became initialised is decided from its gross liquidity after the
update, which is positive whenever liquidity was added. No tick is ever inserted, so
the list and its counter stay empty, and they describe the ticks of a pool exactly as
long as no liquidity was placed.
-/
namespace StellarFlow.Amm

open Foundation

variable {p p' : Pools} {asset : AssetId} {tick delta : ℤ} {d : TickData}
  {pool pool' : TickIndexMeta}

theorem applyDelta_eq {amount amount' : ℕ} (h : applyDelta amount delta = .ok amount') :
    (amount' : ℤ) = amount + delta := by
  unfold applyDelta at h
  split_ifs at h with hpos hneg
  · simp only [okOr_eq_ok, checkBits_eq_some] at h
    omega
  · simp only [bind_eq_ok, okOr_eq_ok, IntRange.check_eq_some, checkedSub_eq_some] at h
    obtain ⟨x, ⟨_, rfl⟩, hle, heq⟩ := h
    omega
  · simp only [pure_eq_ok] at h
    omega

/-- A representable amount can be added to an empty accumulator. -/
theorem applyDelta_zero (hpos : 0 < delta) (hfits : i64.Fits delta) :
    applyDelta 0 delta = .ok delta.toNat := by
  have hlt : delta.toNat < 2 ^ 64 := by
    have hle : delta ≤ 2 ^ 63 - 1 := hfits.2
    omega
  rw [applyDelta, if_pos hpos, checkBits, zero_add, if_pos hlt, okOr_some]

/-- The tick passes the checks of a placement in the pool. -/
structure TickAdmitted (p : Pools) (asset : AssetId) (pool : TickIndexMeta) (tick : ℤ) :
    Prop where
  indexed : p.index.lookup asset = some pool
  aligned : tick.tmod pool.tickSpacing = 0
  lower : minTickIndex ≤ tick
  upper : tick ≤ maxTickIndex

/-- What a successful placement does. -/
structure Placed (p p' : Pools) (asset : AssetId) (tick delta : ℤ) (d : TickData)
    (pool pool' : TickIndexMeta) : Prop where
  admitted : TickAdmitted p asset pool tick
  gross_eq : (d.liquidityGross : ℤ) = (p.getTickData asset tick).liquidityGross + delta
  net_eq : d.liquidityNet = (p.getTickData asset tick).liquidityNet + delta
  active_eq : (pool'.activeLiquidity : ℤ) =
    pool.activeLiquidity + if tick ≤ pool.currentTick then delta else 0
  current_eq : pool'.currentTick = pool.currentTick
  /-- The list only ever loses a tick. -/
  listing : p'.lists = p.lists ∧ pool'.tickCount = pool.tickCount ∨
    p'.lists = p.lists.insert asset (removeTickSorted (p.getTickList asset) tick) ∧
      pool'.tickCount = pool.tickCount - 1
  index_eq : p'.index = p.index.insert asset pool'
  data_eq : p'.data = p.data.insert (asset, tick) d

/-- Added liquidity leaves a positive gross amount, so the insertion is never taken. -/
theorem updateTickList_of_pos {gross : ℕ} {r : Store AssetId (List ℤ) × ℕ}
    (hpos : 0 < delta → 0 < gross) (h : updateTickList p asset pool tick gross delta = .ok r) :
    r = (p.lists, pool.tickCount) ∨
      r = (p.lists.insert asset (removeTickSorted (p.getTickList asset) tick),
        pool.tickCount - 1) := by
  unfold updateTickList at h
  simp only at h
  split_ifs at h with hwas hempty
  · have := hpos hwas.2
    omega
  · exact .inr (pure_eq_ok.mp h).symm
  · exact .inl (pure_eq_ok.mp h).symm

theorem placeLiquidity_placed (h : placeLiquidity asset tick delta p = .ok (d, p')) :
    ∃ pool pool', Placed p p' asset tick delta d pool pool' := by
  simp only [placeLiquidity, Pools.getTickIndex, bind_eq_ok, okOr_eq_ok, failIf_eq_ok,
    IntRange.check_eq_some, pure_eq_ok, not_or, not_not, not_lt, Prod.mk.injEq] at h
  obtain ⟨pool, hpool, _, haligned, _, ⟨hlow, hup⟩, gross, hgross, active, hactive, net,
    ⟨_, hnet⟩, r, hlist, rfl, rfl⟩ := h
  have hgross' := applyDelta_eq hgross
  refine ⟨pool, { pool with activeLiquidity := active, tickCount := r.2 },
    ⟨hpool, haligned, hlow, hup⟩, hgross', hnet.symm, ?_, rfl, ?_, rfl, rfl⟩
  · unfold updateActive at hactive
    split_ifs at hactive ⊢ with hcur
    · exact applyDelta_eq hactive
    · rw [pure_eq_ok] at hactive
      simp [hactive]
  · rcases updateTickList_of_pos (by omega) hlist with rfl | rfl
    · exact .inl ⟨rfl, rfl⟩
    · exact .inr ⟨rfl, rfl⟩

/-- Gross liquidity of a pool at or below a tick. -/
def grossBelow (asset : AssetId) (current : ℤ) (p : Pools) : ℕ :=
  Store.total (fun k d => if k.1 = asset ∧ k.2 ≤ current then d.liquidityGross else 0) p.data

/-- Holds in every reachable state: nothing is listed, and the accumulators agree with
the gross liquidity of the ticks. -/
structure Pools.Unlisted (p : Pools) : Prop where
  list_nil : ∀ asset pool, p.index.lookup asset = some pool → p.getTickList asset = []
  count_zero : ∀ asset pool, p.index.lookup asset = some pool → pool.tickCount = 0
  active_eq : ∀ asset pool, p.index.lookup asset = some pool →
    pool.activeLiquidity = grossBelow asset pool.currentTick p
  net_eq : ∀ asset tick,
    (p.getTickData asset tick).liquidityNet = (p.getTickData asset tick).liquidityGross
  indexed : ∀ asset tick d, p.data.lookup (asset, tick) = some d →
    (p.index.lookup asset).isSome = true

theorem Pools.Unlisted.empty : Pools.empty.Unlisted where
  list_nil _ _ h := by simp [Pools.empty] at h
  count_zero _ _ h := by simp [Pools.empty] at h
  active_eq _ _ h := by simp [Pools.empty] at h
  net_eq _ _ := rfl
  indexed _ _ _ h := by simp [Pools.empty] at h

theorem removeTickSorted_nil (tick : ℤ) : removeTickSorted [] tick = [] := by
  simp [removeTickSorted]

section Initialize

variable {spacing : ℤ}

theorem initializeTickIndex_eq_ok :
    initializeTickIndex asset spacing p = .ok (pool, p') ↔
      0 < spacing ∧ p.index.lookup asset = none ∧ pool = ⟨asset, spacing, 0, 0, 0, 0⟩ ∧
      p' = ⟨p.index.insert asset pool, p.data, p.lists.insert asset []⟩ := by
  simp only [initializeTickIndex, bind_eq_ok, failIf_eq_ok, pure_eq_ok, not_le,
    Bool.not_eq_true, Option.isSome_eq_false_iff, Option.isNone_iff_eq_none, exists_const,
    Prod.mk.injEq]
  refine and_congr_right fun _ => and_congr_right fun _ => ?_
  constructor
  · rintro ⟨rfl, rfl⟩
    exact ⟨rfl, rfl⟩
  · rintro ⟨rfl, rfl⟩
    exact ⟨rfl, rfl⟩

end Initialize

section Lookups

variable {asset' : AssetId} {tick' : ℤ}

theorem getTickData_insert (h : p'.data = p.data.insert (asset, tick) d) :
    p'.getTickData asset' tick' =
      if asset' = asset ∧ tick' = tick then d else p.getTickData asset' tick' := by
  unfold Pools.getTickData
  rw [h, Store.lookup_insert_ite]
  simp only [Prod.mk.injEq]
  split_ifs <;> rfl

/-- Writing a tick exchanges its old gross liquidity for the new one. -/
theorem grossBelow_insert (h : p'.data = p.data.insert (asset, tick) d) (asset' : AssetId)
    (current : ℤ) : grossBelow asset' current p' +
        (if asset = asset' ∧ tick ≤ current then (p.getTickData asset tick).liquidityGross else 0) =
      grossBelow asset' current p +
        (if asset = asset' ∧ tick ≤ current then d.liquidityGross else 0) := by
  have hx := Store.total_insert (fun k (d : TickData) =>
    if k.1 = asset' ∧ k.2 ≤ current then d.liquidityGross else 0) p.data (asset, tick) d
  rw [grossBelow, h, grossBelow, ← hx]
  congr 1
  unfold Store.part Pools.getTickData
  cases p.data.lookup (asset, tick) <;> simp

end Lookups

section Placement

variable (h : Placed p p' asset tick delta d pool pool')
include h

theorem Placed.lookup_index {a : AssetId} {q : TickIndexMeta} (hq : p'.index.lookup a = some q) :
    a = asset ∧ q = pool' ∨ a ≠ asset ∧ p.index.lookup a = some q := by
  rw [h.index_eq] at hq
  exact Store.lookup_insert_eq_some.mp hq

/-- There is nothing to remove from an empty list. -/
theorem Placed.getTickList_eq (hlist : p.getTickList asset = []) (a : AssetId) :
    p'.getTickList a = p.getTickList a := by
  rcases h.listing with ⟨hl, _⟩ | ⟨hl, _⟩
  · rw [Pools.getTickList, hl, Pools.getTickList]
  · rw [hlist, removeTickSorted_nil] at hl
    unfold Pools.getTickList at hlist ⊢
    rw [hl, Store.lookup_insert_ite]
    split_ifs with ha
    · rw [ha, hlist, Option.getD_some]
    · rfl

/-- The active liquidity of the pool follows the gross liquidity below its current tick. -/
theorem Placed.active_eq_grossBelow
    (hact : pool.activeLiquidity = grossBelow asset pool.currentTick p) :
    pool'.activeLiquidity = grossBelow asset pool'.currentTick p' := by
  have hsum := grossBelow_insert h.data_eq asset pool'.currentTick
  have hnew := h.active_eq
  have hgross := h.gross_eq
  rw [h.current_eq] at hsum ⊢
  simp only [true_and] at hsum
  split_ifs at hsum hnew <;> omega

theorem Placed.grossBelow_of_ne {a : AssetId} (ha : a ≠ asset) (current : ℤ) :
    grossBelow a current p' = grossBelow a current p := by
  have hsum := grossBelow_insert h.data_eq a current
  rw [if_neg fun hc => ha hc.1.symm, if_neg fun hc => ha hc.1.symm] at hsum
  omega

end Placement

theorem Pools.Unlisted.placed (hu : p.Unlisted)
    (h : Placed p p' asset tick delta d pool pool') : p'.Unlisted := by
  have hlist := hu.list_nil asset pool h.admitted.indexed
  have hcount := hu.count_zero asset pool h.admitted.indexed
  constructor
  · intro a q hq
    rw [h.getTickList_eq hlist]
    rcases h.lookup_index hq with ⟨rfl, _⟩ | ⟨_, hq⟩
    · exact hlist
    · exact hu.list_nil a q hq
  · intro a q hq
    rcases h.lookup_index hq with ⟨rfl, rfl⟩ | ⟨_, hq⟩
    · rcases h.listing with ⟨_, hc⟩ | ⟨_, hc⟩ <;> omega
    · exact hu.count_zero a q hq
  · intro a q hq
    rcases h.lookup_index hq with ⟨rfl, rfl⟩ | ⟨ha, hq⟩
    · exact h.active_eq_grossBelow (hu.active_eq a pool h.admitted.indexed)
    · rw [h.grossBelow_of_ne ha]
      exact hu.active_eq a q hq
  · intro a t
    rw [getTickData_insert h.data_eq]
    split_ifs with hat
    · rw [h.net_eq, h.gross_eq, hu.net_eq]
    · exact hu.net_eq a t
  · intro a t e he
    rw [h.index_eq, Store.lookup_insert_ite]
    split_ifs with ha
    · rfl
    · rw [h.data_eq, Store.lookup_insert_ite, if_neg fun hc => ha (Prod.mk.inj hc).1] at he
      exact hu.indexed a t e he

theorem Pools.Unlisted.data_none (hu : p.Unlisted) (h : p.index.lookup asset = none)
    (tick : ℤ) : p.data.lookup (asset, tick) = none := by
  cases hd : p.data.lookup (asset, tick) with
  | none => rfl
  | some d =>
    have hs := hu.indexed asset tick d hd
    rw [h] at hs
    cases hs

theorem Pools.Unlisted.grossBelow_zero (hu : p.Unlisted) (h : p.index.lookup asset = none)
    (current : ℤ) : grossBelow asset current p = 0 := by
  apply Store.total_eq_zero
  rintro ⟨a, t⟩ d hd
  refine if_neg fun hc => ?_
  obtain rfl : a = asset := hc.1
  rw [hu.data_none h] at hd
  cases hd

theorem Pools.Unlisted.initialized {spacing : ℤ} (hu : p.Unlisted)
    (h : initializeTickIndex asset spacing p = .ok (pool, p')) : p'.Unlisted := by
  obtain ⟨_, hnone, hpool, rfl⟩ := initializeTickIndex_eq_ok.mp h
  constructor
  · intro a q hq
    simp only [getTickList, Store.lookup_insert_ite]
    rcases Store.lookup_insert_eq_some.mp hq with ⟨rfl, _⟩ | ⟨ha, hq⟩
    · simp
    · rw [if_neg ha]
      exact hu.list_nil a q hq
  · intro a q hq
    rcases Store.lookup_insert_eq_some.mp hq with ⟨_, rfl⟩ | ⟨_, hq⟩
    · rw [hpool]
    · exact hu.count_zero a q hq
  · intro a q hq
    rcases Store.lookup_insert_eq_some.mp hq with ⟨rfl, rfl⟩ | ⟨_, hq⟩
    · have hzero := hu.grossBelow_zero hnone q.currentTick
      rw [grossBelow] at hzero ⊢
      rw [hzero, hpool]
    · exact hu.active_eq a q hq
  · exact hu.net_eq
  · intro a t e he
    rw [Store.lookup_insert_ite]
    split_ifs
    · rfl
    · exact hu.indexed a t e he

/-- One call on the tick indices, with arguments of the source's types. -/
inductive TickCall
  | initializeTickIndex (asset : AssetId) (tickSpacing : i32.Value)
  | placeLiquidity (asset : AssetId) (tick : i32.Value) (liquidityDelta : i64.Value)

def tickStep : TickCall → Pools → Except Fault Pools
  | .initializeTickIndex asset spacing, p => Prod.snd <$> initializeTickIndex asset spacing.1 p
  | .placeLiquidity asset tick delta, p => Prod.snd <$> placeLiquidity asset tick.1 delta.1 p

/-- The list of every pool is strictly ascending, counted, within its limit, and holds
exactly the ticks with liquidity. -/
def TicksRepresented (p : Pools) : Prop :=
  ∀ asset pool, p.index.lookup asset = some pool →
    (p.getTickList asset).Pairwise (· < ·) ∧
    pool.tickCount = (p.getTickList asset).length ∧
    (p.getTickList asset).length ≤ maxTicksPerPool ∧
    ∀ tick, tick ∈ p.getTickList asset ↔ 0 < (p.getTickData asset tick).liquidityGross

/-- The call does not add liquidity at an admitted tick. -/
def AddsNothing (p : Pools) (call : TickCall) : Prop :=
  ∀ asset tick delta pool, call = .placeLiquidity asset tick delta →
    TickAdmitted p asset pool tick.1 → delta.1 ≤ 0

theorem ticksRepresented_iff (hu : p.Unlisted) : TicksRepresented p ↔
    ∀ asset pool, p.index.lookup asset = some pool →
      ∀ tick, (p.getTickData asset tick).liquidityGross = 0 := by
  refine forall_congr' fun a => forall_congr' fun q => forall_congr' fun hq => ?_
  rw [hu.list_nil a q hq, hu.count_zero a q hq]
  simp [maxTicksPerPool]

theorem tickStep_unlisted (hu : p.Unlisted) {call : TickCall} (h : tickStep call p = .ok p') :
    p'.Unlisted := by
  cases call with
  | initializeTickIndex asset spacing =>
    obtain ⟨pool, h⟩ := snd_map_eq_ok.mp h
    exact hu.initialized h
  | placeLiquidity asset tick delta =>
    obtain ⟨d, h⟩ := snd_map_eq_ok.mp h
    obtain ⟨pool, pool', h⟩ := placeLiquidity_placed h
    exact hu.placed h

/-- Liquidity can be added at every admitted tick of a pool without any. -/
theorem placeLiquidity_fresh (hu : p.Unlisted) (hr : TicksRepresented p)
    (ha : TickAdmitted p asset pool tick) (hpos : 0 < delta) (hfits : i64.Fits delta) :
    ∃ d p', placeLiquidity asset tick delta p = .ok (d, p') := by
  rw [ticksRepresented_iff hu] at hr
  have hgross := hr asset pool ha.indexed
  have hnet : (p.getTickData asset tick).liquidityNet = 0 := by
    rw [hu.net_eq, hgross]
    rfl
  have hactive : pool.activeLiquidity = 0 := by
    rw [hu.active_eq asset pool ha.indexed]
    apply Store.total_eq_zero
    rintro ⟨a, t⟩ e he
    refine ite_eq_right_iff.mpr fun hc => ?_
    have hzero := hgross t
    rw [Pools.getTickData, ← hc.1, he] at hzero
    exact hzero
  have hbounds : ¬ (tick < minTickIndex ∨ maxTickIndex < tick) := by
    have := ha.lower
    have := ha.upper
    omega
  have hlist : updateTickList p asset pool tick delta.toNat delta =
      .ok (p.lists, pool.tickCount) := by
    have hne : delta.toNat ≠ 0 := by omega
    simp [updateTickList, hne, pure, Except.pure]
  have hup : ∃ active, updateActive pool tick delta = .ok active := by
    unfold updateActive
    split_ifs
    · exact ⟨_, hactive ▸ applyDelta_zero hpos hfits⟩
    · exact ⟨_, rfl⟩
  obtain ⟨active, hup⟩ := hup
  simp only [placeLiquidity, Pools.getTickIndex, ha.indexed, ha.aligned, okOr_some, ok_bind,
    failIf_of_not hbounds, failIf_of_not (not_not.mpr (rfl : (0 : ℤ) = 0)), hgross,
    applyDelta_zero hpos hfits, hup, hnet, zero_add, hfits.check_eq, hlist]
  exact ⟨_, _, rfl⟩

/-- A placement of liquidity is not followed by its listing. -/
theorem Placed.not_ticksRepresented (hu : p.Unlisted) (hpos : 0 < delta)
    (h : Placed p p' asset tick delta d pool pool') : ¬ TicksRepresented p' := by
  rw [ticksRepresented_iff (hu.placed h)]
  intro hzero
  have hlookup : p'.index.lookup asset = some pool' := by
    rw [h.index_eq, Store.lookup_insert_ite, if_pos rfl]
  have hd := hzero asset pool' hlookup tick
  rw [getTickData_insert h.data_eq, if_pos ⟨rfl, rfl⟩] at hd
  have hgross := h.gross_eq
  omega

/-- Without liquidity there is nothing to take, so a placement that adds nothing changes
nothing. -/
theorem Placed.ticksRepresented (hu : p.Unlisted) (hr : TicksRepresented p) (hle : delta ≤ 0)
    (h : Placed p p' asset tick delta d pool pool') : TicksRepresented p' := by
  rw [ticksRepresented_iff (hu.placed h)]
  rw [ticksRepresented_iff hu] at hr
  have hold := hr asset pool h.admitted.indexed
  have hd : d.liquidityGross = 0 := by
    have hgross := h.gross_eq
    rw [hold] at hgross
    omega
  intro a q hq t
  rw [getTickData_insert h.data_eq]
  split_ifs with hat
  · exact hd
  · rcases h.lookup_index hq with ⟨rfl, _⟩ | ⟨_, hq⟩
    · exact hold t
    · exact hr a q hq t

theorem ticksRepresented_initialized {spacing : ℤ} (hu : p.Unlisted) (hr : TicksRepresented p)
    (h : initializeTickIndex asset spacing p = .ok (pool, p')) : TicksRepresented p' := by
  rw [ticksRepresented_iff (hu.initialized h)]
  rw [ticksRepresented_iff hu] at hr
  obtain ⟨_, hnone, _, rfl⟩ := initializeTickIndex_eq_ok.mp h
  intro a q hq t
  rcases Store.lookup_insert_eq_some.mp hq with ⟨rfl, _⟩ | ⟨_, hq⟩
  · simp [Pools.getTickData, hu.data_none hnone]
  · exact hr a q hq t

theorem commit_ticksRepresented_iff (hu : p.Unlisted) (hr : TicksRepresented p)
    (call : TickCall) : TicksRepresented (commit tickStep p call) ↔ AddsNothing p call := by
  cases call with
  | initializeTickIndex asset spacing =>
    refine iff_of_true (commit_induction hr fun p' h => ?_) fun _ _ _ _ heq => by cases heq
    obtain ⟨pool, h⟩ := snd_map_eq_ok.mp h
    exact ticksRepresented_initialized hu hr h
  | placeLiquidity asset tick delta =>
    by_cases hadd : ∃ pool, TickAdmitted p asset pool tick.1 ∧ 0 < delta.1
    · obtain ⟨pool, hadm, hpos⟩ := hadd
      obtain ⟨d, p', h⟩ := placeLiquidity_fresh hu hr hadm hpos delta.2
      have hstep : tickStep (.placeLiquidity asset tick delta) p = .ok p' :=
        snd_map_eq_ok.mpr ⟨d, h⟩
      obtain ⟨_, _, hplaced⟩ := placeLiquidity_placed h
      rw [commit_of_ok hstep]
      refine iff_of_false (hplaced.not_ticksRepresented hu hpos) fun hnone => ?_
      have := hnone asset tick delta pool rfl hadm
      omega
    · push Not at hadd
      refine iff_of_true (commit_induction hr fun p' h => ?_) ?_
      · obtain ⟨d, h⟩ := snd_map_eq_ok.mp h
        obtain ⟨pool, _, hplaced⟩ := placeLiquidity_placed h
        exact hplaced.ticksRepresented hu hr (hadd pool hplaced.admitted)
      · rintro _ _ _ pool heq hadm
        cases heq
        exact hadd pool hadm

/-- A pool with spacing ten and one placement of a thousand units at tick zero. -/
def addedRun : List TickCall :=
  [.initializeTickIndex 1 ⟨10, by decide⟩, .placeLiquidity 1 ⟨0, by decide⟩ ⟨1000, by decide⟩]

end StellarFlow.Amm
