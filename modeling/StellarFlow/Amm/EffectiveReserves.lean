import StellarFlow.Amm.ConstantProduct
import StellarFlow.Amm.VirtualReserves

/-!
# Effective reserves after a swap

A swap quotes at double width on the effective balances, which is exact, so the product of the
effective balances that it leaves does not decrease. The snapshot it returns has the new real
balances and still the old effective ones. The product computed from it is the old one, and
the check that compares the two passes whatever the swap did.
-/
namespace StellarFlow.Amm

open Foundation

/-! ## Wide arithmetic -/

section Wide

variable {a b c d e : ℤ}

theorem U256.ge_iff {x y : U256} (hx : x.lo < 2 ^ 128) (hy : y.lo < 2 ^ 128) :
    x.ge y = true ↔ y.value ≤ x.value := by
  rw [← not_lt, U256.value_lt_iff hx hy, U256.ge]
  split_ifs with hhi
  · rw [decide_eq_true_iff]
    omega
  · rw [decide_eq_true_iff]
    omega

theorem U256.value_inj {x y : U256} (hx : x.lo < 2 ^ 128) (hy : y.lo < 2 ^ 128)
    (h : x.value = y.value) : x = y := by
  unfold value at h
  obtain ⟨lo, hi⟩ := x
  obtain ⟨lo', hi'⟩ := y
  simp only [U256.mk.injEq] at *
  omega

/-- The quotient is the floor or an overflow, and comparing wide products compares the exact
ones. -/
theorem wideArithmetic_exact :
    (∀ a b d, 0 ≤ a → 0 ≤ b → 0 < d → i128.Fits a → i128.Fits b → i128.Fits d →
      wideMulDiv a b d = if a * b / d ≤ i128.hi then .ok (a * b / d) else .error .overflow) ∧
    ∀ a b c e, 0 ≤ a → 0 ≤ b → 0 ≤ c → 0 ≤ e →
      i128.Fits a → i128.Fits b → i128.Fits c → i128.Fits e →
      ((wideProduct a b).ge (wideProduct c e) = true ↔ c * e ≤ a * b) ∧
      (wideProduct a b = wideProduct c e ↔ a * b = c * e) := by
  refine ⟨fun a b d ha hb hd hfa hfb hfd => wideMulDiv_eq ha hb hd hfa hfb hfd, ?_⟩
  intro a b c e ha hb hc he hfa hfb hfc hfe
  have hab := wideProduct_value ha hb hfa hfb
  have hce := wideProduct_value hc he hfc hfe
  have hge := U256.ge_iff (wideProduct_lo_lt a b) (wideProduct_lo_lt c e)
  refine ⟨?_, ?_⟩
  · rw [hge, ← hab, ← hce]
    norm_cast
  · rw [← hab, ← hce, Nat.cast_inj]
    refine ⟨fun h => congrArg U256.value h, fun h => ?_⟩
    exact U256.value_inj (wideProduct_lo_lt a b) (wideProduct_lo_lt c e) h

/-- At the top of the type. -/
theorem wideArithmetic_largest :
    wideMulDiv i128.hi i128.hi i128.hi = .ok i128.hi ∧
      (wideProduct i128.hi i128.hi).ge (wideProduct i128.hi (i128.hi - 1)) = true := by
  refine ⟨(wideArithmetic_exact.1 _ _ _ ?_ ?_ ?_ ?_ ?_ ?_).trans ?_,
    ((wideArithmetic_exact.2 _ _ _ _ ?_ ?_ ?_ ?_ ?_ ?_ ?_ ?_).1).mpr ?_⟩
  all_goals decide

end Wide

/-! ## Snapshots -/

section Snapshots

variable {r r' : EffectiveReserves} {x y vX vY n out : ℤ} {k : U256}

/-- What a swap should return: the effective balances of the new real ones, their product, and
a check that rejects a smaller one. -/
structure SnapshotExact (before : U256) (after : EffectiveReserves) : Prop where
  xEff_eq : after.xEff = after.x + after.vX
  yEff_eq : after.yEff = after.y + after.vY
  kEff_eq : (after.kEff.value : ℤ) = (after.x + after.vX) * (after.y + after.vY)
  rejects_iff : assertKEffNotDecreased before after.kEff = .error .invariantViolation ↔
    (after.x + after.vX) * (after.y + after.vY) < before.value

theorem U256.ge_refl (x : U256) : x.ge x = true := by
  unfold U256.ge
  simp

/-- Paying out the floor keeps the product. -/
theorem quote_mul_le (xEff yEff n : ℤ) (h : 0 < xEff + n) :
    xEff * yEff ≤ (xEff + n) * (yEff - yEff * n / (xEff + n)) := by
  have hfloor := Int.ediv_mul_le (yEff * n) h.ne'
  nlinarith

/-- A swap moves the real balances only, one of them up by the amount put in, and the product
of the effective balances they belong to does not decrease. -/
structure Restated (r r' : EffectiveReserves) (k : U256) : Prop where
  xEff_eq : r'.xEff = r.xEff
  yEff_eq : r'.yEff = r.yEff
  vX_eq : r'.vX = r.vX
  vY_eq : r'.vY = r.vY
  before_eq : k = r.kEff
  moved : r.x < r'.x ∨ r.y < r'.y
  product_le : r.xEff * r.yEff ≤ (r'.x + r'.vX) * (r'.y + r'.vY)

theorem swapAToB_before (h : r.swapAToB n = .ok (r', out, k)) : k = r.kEff := by
  simp only [EffectiveReserves.swapAToB, bind_eq_ok, failIf_eq_ok, okOr_eq_ok, pure_eq_ok,
    IntRange.check_eq_some, Prod.mk.injEq] at h
  obtain ⟨_, _, _, _, _, _, _, _, _, _, _, _, _, _, rfl⟩ := h
  rfl

theorem swapBToA_before (h : r.swapBToA n = .ok (r', out, k)) : k = r.kEff := by
  simp only [EffectiveReserves.swapBToA, bind_eq_ok, failIf_eq_ok, okOr_eq_ok, pure_eq_ok,
    IntRange.check_eq_some, Prod.mk.injEq] at h
  obtain ⟨_, _, _, _, _, _, _, _, _, _, _, _, _, _, rfl⟩ := h
  rfl

theorem swapAToB_restated (hr : EffectiveReserves.new x y vX vY = .ok r)
    (h : r.swapAToB n = .ok (r', out, k)) : Restated r r' k := by
  have hbefore := swapAToB_before h
  obtain ⟨hn, hout, _, rfl⟩ := swapAToB_eq_ok hr h
  obtain ⟨hx, hy, hvx, hvy, _, _, rfl⟩ := EffectiveReserves.new_eq_ok hr
  refine ⟨rfl, rfl, rfl, rfl, hbefore, .inl (lt_add_of_pos_right x hn), ?_⟩
  have hkept := quote_mul_le (x + vX) (y + vY) n (by linarith)
  rw [← hout] at hkept
  calc (x + vX) * (y + vY) ≤ (x + vX + n) * (y + vY - out) := hkept
    _ = (x + n + vX) * (y - out + vY) := by ring

theorem swapBToA_restated (hr : EffectiveReserves.new x y vX vY = .ok r)
    (h : r.swapBToA n = .ok (r', out, k)) : Restated r r' k := by
  have hbefore := swapBToA_before h
  obtain ⟨hn, hout, _, rfl⟩ := swapBToA_eq_ok hr h
  obtain ⟨hx, hy, hvx, hvy, _, _, rfl⟩ := EffectiveReserves.new_eq_ok hr
  refine ⟨rfl, rfl, rfl, rfl, hbefore, .inr (lt_add_of_pos_right y hn), ?_⟩
  have hkept := quote_mul_le (y + vY) (x + vX) n (by linarith)
  rw [← hout] at hkept
  calc (x + vX) * (y + vY) = (y + vY) * (x + vX) := mul_comm _ _
    _ ≤ (y + vY + n) * (x + vX - out) := hkept
    _ = (x - out + vX) * (y + n + vY) := by ring

/-- No swap returns an exact snapshot. The product computed from it is the one before the swap,
so the check compares that product with itself. The exact product does not decrease. -/
theorem swap_snapshot_stale (hr : EffectiveReserves.new x y vX vY = .ok r)
    (h : r.swapAToB n = .ok (r', out, k) ∨ r.swapBToA n = .ok (r', out, k)) :
    ¬ SnapshotExact k r' ∧ r'.kEff = k ∧ assertKEffNotDecreased k r'.kEff = .ok () ∧
      (k.value : ℤ) ≤ (r'.x + r'.vX) * (r'.y + r'.vY) := by
  have hstale : Restated r r' k := h.elim (swapAToB_restated hr) (swapBToA_restated hr)
  have hkEff : r'.kEff = k := by
    rw [hstale.before_eq, EffectiveReserves.kEff, EffectiveReserves.kEff, hstale.xEff_eq,
      hstale.yEff_eq]
  obtain ⟨hx, hy, hvx, hvy, hfx, hfy, rfl⟩ := EffectiveReserves.new_eq_ok hr
  refine ⟨fun hexact => ?_, hkEff, ?_, ?_⟩
  · have hxEff := hexact.xEff_eq
    have hyEff := hexact.yEff_eq
    rw [hstale.xEff_eq, hstale.vX_eq] at hxEff
    rw [hstale.yEff_eq, hstale.vY_eq] at hyEff
    have hmoved := hstale.moved
    simp only at hxEff hyEff hmoved
    omega
  · rw [hkEff]
    exact failIf_of_not (not_not.mpr (U256.ge_refl k))
  · rw [hstale.before_eq, EffectiveReserves.kEff,
      wideProduct_value (by linarith) (by linarith) hfx hfy]
    exact hstale.product_le

/-- A thousand units of each token, with buffers of the same size. -/
def thousands : EffectiveReserves := ⟨1000, 2000, 1000, 1000, 2000, 1000⟩

/-- After a swap of a thousand units the effective balance of A is still two thousand. -/
theorem thousands_swap_stale :
    EffectiveReserves.new 1000 1000 1000 1000 = .ok thousands ∧
    thousands.swapAToB 1000 =
      .ok (⟨2000, 2000, 1000, 334, 2000, 1000⟩, 666, ⟨4000000, 0⟩) ∧
    ¬ SnapshotExact ⟨4000000, 0⟩ ⟨2000, 2000, 1000, 334, 2000, 1000⟩ := by
  refine ⟨by decide, by decide +kernel, fun h => ?_⟩
  exact absurd h.xEff_eq (by decide)

/-- The other way round. -/
theorem thousands_swap_back_stale :
    ¬ SnapshotExact ⟨4000000, 0⟩ ⟨334, 2000, 1000, 2000, 2000, 1000⟩ := by
  have hnew : EffectiveReserves.new 1000 1000 1000 1000 = .ok thousands := by decide
  have hswap : thousands.swapBToA 1000 =
      .ok (⟨334, 2000, 1000, 2000, 2000, 1000⟩, 666, ⟨4000000, 0⟩) := by decide +kernel
  exact (swap_snapshot_stale hnew (.inr hswap)).1

end Snapshots

end StellarFlow.Amm
