import StellarFlow.Foundation.Shares
import StellarFlow.Settlement.Fees

/-!
# What an operation leaves to the other providers

Every operation changes one pool and at most the position of its caller. The units of all
positions always add up to the units of the pool. What another provider could redeem
shrinks only when units are added for less than their part of the reserves, or, by
rounding, when a single asset is deposited.
-/
namespace StellarFlow.Settlement

open Foundation Amm

namespace LpLedger

/-- Units held by a provider. -/
def unitsOf (l : LpLedger) (asset : AssetId) (provider : Address) : ℕ :=
  ((l.positions.lookup (asset, provider)).map (·.lpUnits)).getD 0

/-- Sum of the units of all positions in a pool. -/
def units (l : LpLedger) (asset : AssetId) : ℕ :=
  Store.total (fun k r => if k.1 = asset then r.lpUnits else 0) l.positions

/-- What a provider could redeem of the two reserves for all of its units. -/
def redeemable (l : LpLedger) (asset : AssetId) (provider : Address) : ℕ × ℕ :=
  (share (l.loadPool asset).reserveA (l.unitsOf asset provider) (l.loadPool asset).totalLpUnits,
    share (l.loadPool asset).reserveB (l.unitsOf asset provider) (l.loadPool asset).totalLpUnits)

/-- Pools are stored under their own asset with values of their types, and the units of all
positions add up. -/
structure WellFormed (l : LpLedger) : Prop where
  asset_eq : ∀ asset pool, l.pools.lookup asset = some pool → pool.asset = asset
  reserveA_lt : ∀ asset, (l.loadPool asset).reserveA < 2 ^ 128
  reserveB_lt : ∀ asset, (l.loadPool asset).reserveB < 2 ^ 128
  total_lt : ∀ asset, (l.loadPool asset).totalLpUnits < 2 ^ 64
  units_eq : ∀ asset, (l.loadPool asset).totalLpUnits = l.units asset

end LpLedger

variable {here : Address} {env : Env here} {l l' : LpLedger} {asset : AssetId}
  {provider : Address} {pool : LiquidityPool}

/-- The position of one provider changes, by a number of units. -/
structure Reissued (l l' : LpLedger) (asset : AssetId) (provider : Address) (before after : ℕ) :
    Prop where
  others : ∀ k, k ≠ (asset, provider) → l'.positions.lookup k = l.positions.lookup k
  balance : l'.unitsOf asset provider + before = l.unitsOf asset provider + after

/-- One pool is replaced, together with the position of one provider. -/
structure Edited (l l' : LpLedger) (asset : AssetId) (provider : Address)
    (pool : LiquidityPool) : Prop where
  pools_eq : l'.pools = l.pools.insert asset pool
  asset_eq : pool.asset = asset
  reserveA_lt : pool.reserveA < 2 ^ 128
  reserveB_lt : pool.reserveB < 2 ^ 128
  total_lt : pool.totalLpUnits < 2 ^ 64
  reissued : Reissued l l' asset provider (l.loadPool asset).totalLpUnits pool.totalLpUnits

theorem LpLedger.WellFormed.loadPool_asset (hw : l.WellFormed) (asset : AssetId) :
    (l.loadPool asset).asset = asset := by
  unfold LpLedger.loadPool
  cases h : l.pools.lookup asset with
  | none => rfl
  | some pool => exact hw.asset_eq asset pool h

theorem LpLedger.WellFormed.empty (admin : Option Address) :
    (LpLedger.empty admin).WellFormed := by
  constructor <;> simp [LpLedger.empty, LpLedger.loadPool, LpLedger.units]

theorem part_units (l : LpLedger) (asset asset' : AssetId) (provider : Address) :
    Store.part (fun k r => if k.1 = asset' then r.lpUnits else 0) l.positions (asset, provider) =
      if asset = asset' then l.unitsOf asset provider else 0 := by
  unfold Store.part LpLedger.unitsOf
  cases l.positions.lookup (asset, provider) <;> simp

/-- Nobody holds more than the units issued. -/
theorem LpLedger.WellFormed.unitsOf_le (hw : l.WellFormed) (asset : AssetId)
    (provider : Address) : l.unitsOf asset provider ≤ (l.loadPool asset).totalLpUnits := by
  have he := Store.total_erase (fun k (r : LiquidityPosition) =>
    if k.1 = asset then r.lpUnits else 0) l.positions (asset, provider)
  rw [part_units, if_pos rfl] at he
  rw [hw.units_eq, LpLedger.units]
  omega

theorem Edited.loadPool_eq (h : Edited l l' asset provider pool) (asset' : AssetId) :
    l'.loadPool asset' = if asset' = asset then pool else l.loadPool asset' := by
  unfold LpLedger.loadPool
  rw [h.pools_eq, Store.lookup_insert_ite]
  split_ifs <;> rfl

theorem Reissued.units_eq {before after : ℕ}
    (h : Reissued l l' asset provider before after) (asset' : AssetId) :
    l'.units asset' + (if asset = asset' then before else 0) =
      l.units asset' + if asset = asset' then after else 0 := by
  have hx := Store.total_exchange (fun k (r : LiquidityPosition) =>
    if k.1 = asset' then r.lpUnits else 0) l.positions l'.positions (asset, provider) h.others
  rw [part_units, part_units] at hx
  have hb := h.balance
  unfold LpLedger.units
  split_ifs at hx ⊢ <;> omega

theorem Edited.wellFormed (hw : l.WellFormed) (h : Edited l l' asset provider pool) :
    l'.WellFormed := by
  refine ⟨?_, ?_, ?_, ?_, ?_⟩
  · intro a q hq
    rw [h.pools_eq] at hq
    rcases Store.lookup_insert_eq_some.mp hq with ⟨rfl, rfl⟩ | ⟨_, hq⟩
    · exact h.asset_eq
    · exact hw.asset_eq a q hq
  · intro a
    rw [h.loadPool_eq]
    split_ifs
    · exact h.reserveA_lt
    · exact hw.reserveA_lt a
  · intro a
    rw [h.loadPool_eq]
    split_ifs
    · exact h.reserveB_lt
    · exact hw.reserveB_lt a
  · intro a
    rw [h.loadPool_eq]
    split_ifs
    · exact h.total_lt
    · exact hw.total_lt a
  · intro a
    have hu := h.reissued.units_eq a
    have ha := hw.units_eq a
    rw [h.loadPool_eq]
    by_cases heq : a = asset
    · subst heq
      simp only [if_true] at hu ⊢
      omega
    · rw [if_neg (Ne.symm heq), if_neg (Ne.symm heq)] at hu
      rw [if_neg heq]
      omega

theorem Edited.unitsOf_eq (h : Edited l l' asset provider pool) (asset' : AssetId)
    {other : Address} (hne : other ≠ provider) :
    l'.unitsOf asset' other = l.unitsOf asset' other := by
  unfold LpLedger.unitsOf
  rw [h.reissued.others _ fun hk => hne (Prod.mk.inj hk).2]

/-- Other pools are not touched. -/
theorem Edited.redeemable_of_ne (h : Edited l l' asset provider pool) {asset' : AssetId}
    {other : Address} (hne : other ≠ provider) (ha : asset' ≠ asset) :
    l'.redeemable asset' other = l.redeemable asset' other := by
  rw [LpLedger.redeemable, h.loadPool_eq, if_neg ha, h.unitsOf_eq asset' hne, LpLedger.redeemable]

theorem Edited.redeemable_eq (h : Edited l l' asset provider pool) {other : Address}
    (hne : other ≠ provider) : l'.redeemable asset other =
      (share pool.reserveA (l.unitsOf asset other) pool.totalLpUnits,
        share pool.reserveB (l.unitsOf asset other) pool.totalLpUnits) := by
  rw [LpLedger.redeemable, h.loadPool_eq, if_pos rfl, h.unitsOf_eq asset hne]

theorem Edited.unitsOf_le (hw : l.WellFormed) (h : Edited l l' asset provider pool)
    {other : Address} (hne : other ≠ provider) : l.unitsOf asset other ≤ pool.totalLpUnits := by
  have hle := (h.wellFormed hw).unitsOf_le asset other
  rwa [h.unitsOf_eq asset hne, h.loadPool_eq, if_pos rfl] at hle

/-- Another provider's part of a reserve does not shrink when the reserve per unit does not. -/
theorem Edited.share_le (hw : l.WellFormed) (h : Edited l l' asset provider pool)
    {other : Address} (hne : other ≠ provider) {r r' : ℕ}
    (hr : r * pool.totalLpUnits ≤ r' * (l.loadPool asset).totalLpUnits) :
    share r (l.unitsOf asset other) (l.loadPool asset).totalLpUnits ≤
      share r' (l.unitsOf asset other) pool.totalLpUnits := by
  have hold := hw.unitsOf_le asset other
  have hnew := h.unitsOf_le hw hne
  rcases Nat.eq_zero_or_pos (l.unitsOf asset other) with hz | hpos
  · rw [hz, share_zero_units]
    exact Nat.zero_le _
  · exact share_le_share _ (by omega) (by omega) hr

/-- With neither reserve per unit smaller, the redeemable product does not shrink. -/
theorem Edited.redeemable_mul_le (hw : l.WellFormed) (h : Edited l l' asset provider pool)
    {other : Address} (hne : other ≠ provider)
    (ha : (l.loadPool asset).reserveA * pool.totalLpUnits ≤
      pool.reserveA * (l.loadPool asset).totalLpUnits)
    (hb : (l.loadPool asset).reserveB * pool.totalLpUnits ≤
      pool.reserveB * (l.loadPool asset).totalLpUnits) (asset' : AssetId) :
    (l.redeemable asset' other).1 * (l.redeemable asset' other).2 ≤
      (l'.redeemable asset' other).1 * (l'.redeemable asset' other).2 := by
  by_cases heq : asset' = asset
  · subst heq
    rw [h.redeemable_eq hne]
    exact Nat.mul_le_mul (h.share_le hw hne ha) (h.share_le hw hne hb)
  · rw [h.redeemable_of_ne hne heq]

section Operations

theorem recordFee_edited {admin : Address} {fee : ℕ} {r : LiquidityPool} (hw : l.WellFormed)
    (h : recordFee env admin asset fee l = .ok (r, l')) (provider : Address) :
    ∃ pool, Edited l l' asset provider pool ∧ pool.reserveA = (l.loadPool asset).reserveA ∧
      pool.reserveB = (l.loadPool asset).reserveB ∧
      pool.totalLpUnits = (l.loadPool asset).totalLpUnits := by
  simp only [recordFee, bind_eq_ok, okOr_eq_ok, checkBits_eq_some, pure_eq_ok,
    Prod.mk.injEq] at h
  obtain ⟨_, _, feePool, _, rfl, rfl⟩ := h
  refine ⟨{ l.loadPool asset with feePool := feePool }, ⟨?_, hw.loadPool_asset asset,
    hw.reserveA_lt asset, hw.reserveB_lt asset, hw.total_lt asset, fun _ _ => rfl, rfl⟩,
    rfl, rfl, rfl⟩
  simp only [LpLedger.savePool, hw.loadPool_asset]

theorem creditPosition_eq_ok {n : ℕ} {position : LiquidityPosition}
    (h : l.creditPosition asset provider n = .ok (position, l')) :
    l'.pools = l.pools ∧
      (∀ k, k ≠ (asset, provider) → l'.positions.lookup k = l.positions.lookup k) ∧
      l'.unitsOf asset provider = l.unitsOf asset provider + n := by
  simp only [LpLedger.creditPosition, bind_eq_ok, okOr_eq_ok, checkBits_eq_some, pure_eq_ok,
    Prod.mk.injEq] at h
  obtain ⟨units, ⟨_, rfl⟩, _, rfl⟩ := h
  refine ⟨rfl, fun k hk => Finmap.lookup_insert_of_ne _ hk, ?_⟩
  unfold LpLedger.unitsOf
  simp only [Finmap.lookup_insert, Option.map_some, Option.getD_some]
  cases l.positions.lookup (asset, provider) <;> rfl

/-- Issuing the same number of units to a position and to the pool. -/
theorem edited_of_credit {n : ℕ} {l₁ : LpLedger} {position : LiquidityPosition}
    (hcredit : l.creditPosition asset provider n = .ok (position, l₁))
    (hasset : pool.asset = asset) (ha : pool.reserveA < 2 ^ 128) (hb : pool.reserveB < 2 ^ 128)
    (ht : pool.totalLpUnits < 2 ^ 64)
    (heq : pool.totalLpUnits = (l.loadPool asset).totalLpUnits + n) :
    Edited l (l₁.savePool pool) asset provider pool := by
  obtain ⟨hpools, hothers, hunits⟩ := creditPosition_eq_ok hcredit
  refine ⟨?_, hasset, ha, hb, ht, hothers, ?_⟩
  · rw [LpLedger.savePool, hpools, hasset]
  · change l₁.unitsOf asset provider + _ = _
    omega

theorem addLiquidity_edited {a b n : ℕ} {position : LiquidityPosition} (hw : l.WellFormed)
    (h : addLiquidity env provider asset a b n l = .ok (position, l')) :
    ∃ pool, Edited l l' asset provider pool ∧
      pool.reserveA = (l.loadPool asset).reserveA + a ∧
      pool.reserveB = (l.loadPool asset).reserveB + b ∧
      pool.totalLpUnits = (l.loadPool asset).totalLpUnits + n := by
  simp only [addLiquidity, bind_eq_ok, okOr_eq_ok, checkBits_eq_some, pure_eq_ok,
    Prod.mk.injEq] at h
  obtain ⟨_, _, _, _, newA, ⟨hA, rfl⟩, newB, ⟨hB, rfl⟩, total, ⟨hT, rfl⟩, ⟨p₁, l₁⟩, hc, _, rfl⟩ := h
  exact ⟨_, edited_of_credit hc (hw.loadPool_asset asset) hA hB hT rfl, rfl, rfl, rfl⟩

/-- The swap part of a deposit keeps the product of the reserves. -/
theorem swapReserves_mul {isAssetA : Bool} {reserveIn reserveOut x out newA newB : ℕ}
    (hout : reserveOut < 2 ^ 128) (hle : out * (reserveIn + x) ≤ reserveOut * x)
    (h : swapReserves isAssetA reserveIn reserveOut x out = .ok (newA, newB)) :
    reserveIn * reserveOut ≤ newA * newB ∧ newA < 2 ^ 128 ∧ newB < 2 ^ 128 := by
  simp only [swapReserves, bind_eq_ok, okOr_eq_ok, checkBits_eq_some, checkedSub_eq_some,
    pure_eq_ok] at h
  obtain ⟨newIn, ⟨hin, rfl⟩, newOut, ⟨hsub, rfl⟩, h⟩ := h
  have hmul : reserveIn * reserveOut ≤ (reserveIn + x) * (reserveOut - out) := by
    rw [Nat.mul_sub]
    have hexp : (reserveIn + x) * reserveOut = reserveIn * reserveOut + reserveOut * x := by ring
    have hcomm : (reserveIn + x) * out = out * (reserveIn + x) := mul_comm _ _
    omega
  cases isAssetA with
  | true =>
    obtain ⟨rfl, rfl⟩ := Prod.mk.inj h
    exact ⟨hmul, hin, by omega⟩
  | false =>
    obtain ⟨rfl, rfl⟩ := Prod.mk.inj h
    exact ⟨hmul.trans_eq (mul_comm _ _), by omega, hin⟩

theorem ordered_mul (isAssetA : Bool) (a b : ℕ) :
    (ordered isAssetA a b).1 * (ordered isAssetA a b).2 = a * b := by
  cases isAssetA
  · exact mul_comm b a
  · rfl

theorem ordered_snd_lt (isAssetA : Bool) {a b n : ℕ} (ha : a < n) (hb : b < n) :
    (ordered isAssetA a b).2 < n := by
  cases isAssetA
  · exact ha
  · exact hb

/-- Minting shares takes their part of a reserve, short of it by less than one unit. -/
theorem minted_mul_le {reserve s t actual : ℕ} (hr : reserve < 2 ^ 128) (hs : s < 2 ^ 128)
    (ht : t < 2 ^ 64) (ht0 : 0 < t) (h : mulDiv s reserve t = .ok actual) :
    reserve * (t + s % 2 ^ 64) ≤ (reserve + actual + 1) * t := by
  have hfloor := mulDiv_floor hs hr (by omega) h
  have hlt := lt_share_succ_mul s reserve ht0
  rw [share, ← hfloor] at hlt
  have hmod : reserve * (s % 2 ^ 64) ≤ reserve * s := Nat.mul_le_mul_left _ (Nat.mod_le _ _)
  nlinarith

/-- A deposit of one asset keeps the product of the reserves per unit up to one unit in each
reserve. -/
theorem depositSingleAsset_edited {quoteFee : AssetId → ℕ → Except Fault ℕ} {amount : ℕ}
    {isAssetA : Bool} {r : LiquidityPosition × ℕ × ℕ} (hw : l.WellFormed)
    (h : depositSingleAsset env quoteFee provider asset amount isAssetA l = .ok (r, l')) :
    ∃ pool, Edited l l' asset provider pool ∧ 0 < (l.loadPool asset).totalLpUnits ∧
      (l.loadPool asset).totalLpUnits ≤ pool.totalLpUnits ∧
      (l.loadPool asset).reserveA * (l.loadPool asset).reserveB * pool.totalLpUnits ^ 2 ≤
        (pool.reserveA + 1) * (pool.reserveB + 1) * (l.loadPool asset).totalLpUnits ^ 2 := by
  simp only [depositSingleAsset, bind_eq_ok, failIf_eq_ok, okOr_eq_ok, checkBits_eq_some,
    pure_eq_ok, Prod.mk.injEq] at h
  obtain ⟨_, _, _, _, _, ht0, ⟨out, fee⟩, hswap, feePool, _, ⟨newA, newB⟩, hres, shares, hshares,
    actualA, hactA, actualB, hactB, reserveA, ⟨hA, rfl⟩, reserveB, ⟨hB, rfl⟩, total, ⟨hT, rfl⟩,
    ⟨position, l₁⟩, hc, _, rfl⟩ := h
  have hout := ordered_snd_lt isAssetA (hw.reserveA_lt asset) (hw.reserveB_lt asset)
  obtain ⟨hmul, hnewA, hnewB⟩ := swapReserves_mul hout (computeSwapOut_mul_le hswap) hres
  rw [ordered_mul] at hmul
  have hs := computeLpShares_lt hshares
  have ht := hw.total_lt asset
  have hpos : 0 < (l.loadPool asset).totalLpUnits := Nat.pos_of_ne_zero ht0
  have hmA := minted_mul_le hnewA hs ht hpos hactA
  have hmB := minted_mul_le hnewB hs ht hpos hactB
  refine ⟨_, edited_of_credit hc (hw.loadPool_asset asset) hA hB hT rfl, hpos,
    Nat.le_add_right _ _, ?_⟩
  generalize (l.loadPool asset).totalLpUnits = t at *
  generalize t + shares % 2 ^ 64 = t' at *
  calc (l.loadPool asset).reserveA * (l.loadPool asset).reserveB * t' ^ 2
      ≤ newA * newB * t' ^ 2 := Nat.mul_le_mul_right _ hmul
    _ = (newA * t') * (newB * t') := by ring
    _ ≤ ((newA + actualA + 1) * t) * ((newB + actualB + 1) * t) := Nat.mul_le_mul hmA hmB
    _ = (newA + actualA + 1) * (newB + actualB + 1) * t ^ 2 := by ring

theorem proRata_eq_ok {amount units total q : ℕ} (h : proRata amount units total = .ok q) :
    q = share amount units total := by
  simp only [proRata, bind_eq_ok, okOr_eq_ok, checkBits_eq_some, pure_eq_ok] at h
  obtain ⟨_, ⟨_, rfl⟩, rfl⟩ := h
  rfl

theorem redeemLiquidity_edited {n : ℕ} {r : RedemptionResult} (hw : l.WellFormed)
    (h : redeemLiquidity env provider asset n l = .ok (r, l')) :
    ∃ pool, Edited l l' asset provider pool ∧ n ≤ (l.loadPool asset).totalLpUnits ∧
      pool.reserveA = (l.loadPool asset).reserveA -
        share (l.loadPool asset).reserveA n (l.loadPool asset).totalLpUnits ∧
      pool.reserveB = (l.loadPool asset).reserveB -
        share (l.loadPool asset).reserveB n (l.loadPool asset).totalLpUnits ∧
      pool.totalLpUnits = (l.loadPool asset).totalLpUnits - n := by
  simp only [redeemLiquidity, bind_eq_ok, failIf_eq_ok, okOr_eq_ok, checkBits_eq_some,
    checkedSub_eq_some, pure_eq_ok, Prod.mk.injEq, not_lt] at h
  obtain ⟨_, _, _, _, _, _, position, hposition, _, hle, a, ha, b, hb, _, _, fees, _, _, ⟨_, rfl⟩,
    _, ⟨_, rfl⟩, feePool, _, _, ⟨hn, rfl⟩, _, rfl⟩ := h
  obtain rfl := proRata_eq_ok ha
  obtain rfl := proRata_eq_ok hb
  have hA := hw.reserveA_lt asset
  have hB := hw.reserveB_lt asset
  have hT := hw.total_lt asset
  refine ⟨⟨(l.loadPool asset).asset, _, _, feePool, _⟩,
    ⟨?_, hw.loadPool_asset asset, ?_, ?_, ?_, ?_, ?_⟩, hn, rfl, rfl, rfl⟩
  · simp only [LpLedger.savePool, hw.loadPool_asset]
  · exact (Nat.sub_le _ _).trans_lt hA
  · exact (Nat.sub_le _ _).trans_lt hB
  · exact (Nat.sub_le _ _).trans_lt hT
  · intro k hk
    simp only [LpLedger.savePool]
    split_ifs
    · exact Finmap.lookup_erase_ne hk
    · exact Finmap.lookup_insert_of_ne _ hk
  · have hold : l.unitsOf asset provider = position.lpUnits := by
      simp [LpLedger.unitsOf, hposition]
    rw [hold]
    simp only [LpLedger.savePool, LpLedger.unitsOf]
    split_ifs with hz
    · simp only [Finmap.lookup_erase, Option.map_none, Option.getD_none]
      omega
    · simp only [Finmap.lookup_insert, Option.map_some, Option.getD_some]
      omega

end Operations

/-- The provider whose position the call may change. -/
def LpCall.actingProvider : LpCall → Option Address
  | .recordFee _ _ _ => none
  | .addLiquidity p _ _ _ _ => some p
  | .depositSingleAsset p _ _ _ => some p
  | .redeemLiquidity p _ _ => some p

/-- Units added to the pool are paid for by their part of both reserves. -/
def LpCall.Proportional (l : LpLedger) (asset : AssetId) : LpCall → Prop
  | .addLiquidity _ a reserveA reserveB lpUnits => a = asset →
      lpUnits * (l.loadPool a).reserveA ≤ reserveA * (l.loadPool a).totalLpUnits ∧
      lpUnits * (l.loadPool a).reserveB ≤ reserveB * (l.loadPool a).totalLpUnits
  | _ => True

/-- By how many units of each asset rounding may lower the redeemable reserves. -/
def LpCall.slack (asset : AssetId) : LpCall → ℕ
  | .depositSingleAsset _ a _ _ => if a = asset then 2 else 0
  | _ => 0

/-- The product of what another provider could redeem does not decrease. -/
def KeepsOthers (l : LpLedger) (i : LpStep here) : Prop :=
  ∀ asset other, some other ≠ i.call.actingProvider →
    (l.redeemable asset other).1 * (l.redeemable asset other).2 ≤
      ((commit lpStep l i).redeemable asset other).1 *
        ((commit lpStep l i).redeemable asset other).2

/-- The same for proportional additions, and up to rounding for single-asset deposits. -/
def KeepsOthersRounded (l : LpLedger) (i : LpStep here) : Prop :=
  ∀ asset other, some other ≠ i.call.actingProvider → i.call.Proportional l asset →
    (l.redeemable asset other).1 * (l.redeemable asset other).2 ≤
      (((commit lpStep l i).redeemable asset other).1 + i.call.slack asset) *
        (((commit lpStep l i).redeemable asset other).2 + i.call.slack asset)

/-- The units of all positions add up to the units of the pool. -/
def UnitsBalanced (l : LpLedger) : Prop :=
  ∀ asset, l.units asset = (l.loadPool asset).totalLpUnits

theorem lpStep_wellFormed {i : LpStep here} (hw : l.WellFormed) (h : lpStep i l = .ok l') :
    l'.WellFormed := by
  obtain ⟨env, quoteFee, call⟩ := i
  cases call with
  | recordFee admin asset fee =>
    obtain ⟨_, h⟩ := snd_map_eq_ok.mp h
    obtain ⟨_, he, _⟩ := recordFee_edited hw h admin
    exact he.wellFormed hw
  | addLiquidity provider asset a b n =>
    obtain ⟨_, h⟩ := snd_map_eq_ok.mp h
    obtain ⟨_, he, _⟩ := addLiquidity_edited hw h
    exact he.wellFormed hw
  | depositSingleAsset provider asset amount isAssetA =>
    obtain ⟨_, h⟩ := snd_map_eq_ok.mp h
    obtain ⟨_, he, _⟩ := depositSingleAsset_edited hw h
    exact he.wellFormed hw
  | redeemLiquidity provider asset n =>
    obtain ⟨_, h⟩ := snd_map_eq_ok.mp h
    obtain ⟨_, he, _⟩ := redeemLiquidity_edited hw h
    exact he.wellFormed hw

section Others

variable {quoteFee : AssetId → ℕ → Except Fault ℕ} {other : Address} {asset' : AssetId}

theorem recordFee_keeps {admin : Address} {fee : ℕ} {r : LiquidityPool} (hw : l.WellFormed)
    (h : recordFee env admin asset fee l = .ok (r, l')) :
    (l.redeemable asset' other).1 * (l.redeemable asset' other).2 ≤
      (l'.redeemable asset' other).1 * (l'.redeemable asset' other).2 := by
  obtain ⟨pool, he, hA, hB, hT⟩ := recordFee_edited hw h ⟨other.raw + 1⟩
  refine he.redeemable_mul_le hw (fun hc => ?_) (by rw [hA, hT]) (by rw [hB, hT]) asset'
  have := congrArg Address.raw hc
  simp at this

theorem addLiquidity_keeps {a b n : ℕ} {r : LiquidityPosition} (hw : l.WellFormed)
    (h : addLiquidity env provider asset a b n l = .ok (r, l')) (hne : other ≠ provider)
    (hp : (LpCall.addLiquidity provider asset a b n).Proportional l asset') :
    (l.redeemable asset' other).1 * (l.redeemable asset' other).2 ≤
      (l'.redeemable asset' other).1 * (l'.redeemable asset' other).2 := by
  obtain ⟨pool, he, hA, hB, hT⟩ := addLiquidity_edited hw h
  by_cases heq : asset' = asset
  · obtain ⟨ha, hb⟩ := hp heq.symm
    refine he.redeemable_mul_le hw hne ?_ ?_ asset'
    · rw [hA, hT]
      linarith
    · rw [hB, hT]
      linarith
  · rw [he.redeemable_of_ne hne heq]

theorem redeemLiquidity_keeps {n : ℕ} {r : RedemptionResult} (hw : l.WellFormed)
    (h : redeemLiquidity env provider asset n l = .ok (r, l')) (hne : other ≠ provider) :
    (l.redeemable asset' other).1 * (l.redeemable asset' other).2 ≤
      (l'.redeemable asset' other).1 * (l'.redeemable asset' other).2 := by
  obtain ⟨pool, he, hn, hA, hB, hT⟩ := redeemLiquidity_edited hw h
  refine he.redeemable_mul_le hw hne ?_ ?_ asset'
  · rw [hA, hT]
    exact sub_share_mul _ hn
  · rw [hB, hT]
    exact sub_share_mul _ hn

theorem depositSingleAsset_keeps {amount : ℕ} {isAssetA : Bool}
    {r : LiquidityPosition × ℕ × ℕ} (hw : l.WellFormed)
    (h : depositSingleAsset env quoteFee provider asset amount isAssetA l = .ok (r, l'))
    (hne : other ≠ provider) :
    (l.redeemable asset' other).1 * (l.redeemable asset' other).2 ≤
      ((l'.redeemable asset' other).1 + if asset = asset' then 2 else 0) *
        ((l'.redeemable asset' other).2 + if asset = asset' then 2 else 0) := by
  obtain ⟨pool, he, hpos, hle, hmul⟩ := depositSingleAsset_edited hw h
  by_cases heq : asset' = asset
  · subst heq
    rw [he.redeemable_eq hne, if_pos rfl]
    exact share_mul_share_le hpos (by omega) (he.unitsOf_le hw hne) hmul
  · rw [he.redeemable_of_ne hne heq, if_neg (Ne.symm heq)]
    exact le_rfl

end Others

theorem keepsOthersRounded (hw : l.WellFormed) (i : LpStep here) : KeepsOthersRounded l i := by
  intro asset' other hne hp
  obtain ⟨env, quoteFee, call⟩ := i
  apply commit_induction (P := fun c : LpLedger =>
    (l.redeemable asset' other).1 * (l.redeemable asset' other).2 ≤
      ((c.redeemable asset' other).1 + call.slack asset') *
        ((c.redeemable asset' other).2 + call.slack asset'))
  · exact Nat.mul_le_mul (Nat.le_add_right _ _) (Nat.le_add_right _ _)
  · intro l' h
    cases call with
    | recordFee admin asset fee =>
      obtain ⟨_, h⟩ := snd_map_eq_ok.mp h
      exact recordFee_keeps hw h
    | addLiquidity provider asset a b n =>
      obtain ⟨_, h⟩ := snd_map_eq_ok.mp h
      exact addLiquidity_keeps hw h (fun hc => hne (congrArg some hc)) hp
    | depositSingleAsset provider asset amount isAssetA =>
      obtain ⟨_, h⟩ := snd_map_eq_ok.mp h
      exact depositSingleAsset_keeps hw h fun hc => hne (congrArg some hc)
    | redeemLiquidity provider asset n =>
      obtain ⟨_, h⟩ := snd_map_eq_ok.mp h
      exact redeemLiquidity_keeps hw h fun hc => hne (congrArg some hc)

/-- In every run, no call lowers the redeemable product of another provider, up to rounding
for single-asset deposits and apart from units added for less than their part, and the units
of the positions add up in every state. -/
theorem lp_undiluted (admin : Option Address) (run : List (LpStep here)) :
    Along lpStep KeepsOthersRounded (.empty admin) run ∧
      Throughout lpStep UnitsBalanced (.empty admin) run := by
  constructor
  · exact along_of_invariant (fun _ _ _ hw h => lpStep_wellFormed hw h)
      (fun _ i hw => keepsOthersRounded hw i) (.empty admin) run
  · exact throughout_of_invariant (fun _ _ _ hw h => lpStep_wellFormed hw h)
      (fun _ hw asset => (hw.units_eq asset).symm) (.empty admin) run

def lpCall (call : LpCall) : LpStep ⟨0⟩ := ⟨.standard _ 0 none, fun _ _ => .ok 30, call⟩

/-- Two providers with one and three units of a pool with reserves four and three. -/
def twoProvidersRun : List (LpStep ⟨0⟩) :=
  [lpCall (.addLiquidity ⟨1⟩ 7 1 1 1), lpCall (.addLiquidity ⟨2⟩ 7 3 2 3)]

/-- The first provider deposits five units of asset A, or adds units for almost nothing. -/
theorem twoProvidersRun_diluted :
    let l := runAll lpStep (.empty none) twoProvidersRun
    let deposit := lpCall (.depositSingleAsset ⟨1⟩ 7 5 true)
    let addition := lpCall (.addLiquidity ⟨1⟩ 7 1 1 1000)
    l.redeemable 7 ⟨2⟩ = (3, 2) ∧ (commit lpStep l deposit).redeemable 7 ⟨2⟩ = (4, 1) ∧
      (commit lpStep l addition).redeemable 7 ⟨2⟩ = (0, 0) ∧
      ¬ KeepsOthers l deposit ∧ ¬ KeepsOthers l addition := by
  intro l deposit addition
  have h : l.redeemable 7 ⟨2⟩ = (3, 2) ∧
      (commit lpStep l deposit).redeemable 7 ⟨2⟩ = (4, 1) ∧
      (commit lpStep l addition).redeemable 7 ⟨2⟩ = (0, 0) := by
    decide +kernel
  obtain ⟨hbefore, hdeposit, haddition⟩ := h
  refine ⟨hbefore, hdeposit, haddition, fun hk => ?_, fun hk => ?_⟩
  · have hle := hk 7 ⟨2⟩ (by decide)
    rw [hbefore, hdeposit] at hle
    omega
  · have hle := hk 7 ⟨2⟩ (by decide)
    rw [hbefore, haddition] at hle
    omega

end StellarFlow.Settlement
