import StellarFlow.Amm.Ticks
import StellarFlow.Foundation.Compounding

/-!
# Prices of ticks

The price of a tick is compounded one tick at a time from one in fixed point, with a
truncating division at every step. Upwards the product outgrows its type at tick 627049,
downwards the truncation takes at least one unit a step and nothing is left at tick -74858.
In between the price is positive and strictly increasing.
-/
namespace StellarFlow.Amm

open Foundation Compounding

def tickBase : ℤ := 10001
def tickBasePrecision : ℤ := 10000

/-- Fixed-point precision of prices. -/
def priceScale : ℤ := 10 ^ 7

/-- The loop over the distance of a tick from zero. -/
def priceLoop (up : Bool) : ℕ → ℤ → Except Fault ℤ
  | 0, price => pure price
  | n + 1, price => do
    let scaled ← okOr (i128.check (price * if up then tickBase else tickBasePrecision))
      (Fault.error .overflow)
    let price ← okOr (i128.checkedDiv scaled (if up then tickBasePrecision else tickBase))
      (Fault.error .divisionByZero)
    priceLoop up n price

def tickToPrice (tick : ℤ) : Except Fault ℤ := priceLoop (0 < tick) tick.natAbs priceScale

/-- The highest tick whose price the type holds. -/
def maxPricedTick : ℤ := 627048
/-- The lowest tick with a price above zero. -/
def minPricedTick : ℤ := -74857

/-! ## The loop as compounding -/

section Loop

variable {n p : ℕ}

/-- The products of the upward loop stay inside the type. -/
def FitsUpTo (n p : ℕ) : Prop := ∀ j < n, (grow 10000)^[j] p * 10001 < 2 ^ 127

theorem checkedDiv_natCast {x y : ℕ} (hx : x < 2 ^ 127) (hy : 0 < y) :
    i128.checkedDiv x y = some ((x / y : ℕ) : ℤ) := by
  rw [IntRange.checkedDiv_of_nonneg (fits_natCast_iff.mpr hx) (Int.natCast_nonneg x)
    (Int.natCast_pos.mpr hy), Int.natCast_div]

theorem priceLoop_up_succ (hp : p * 10001 < 2 ^ 127) :
    priceLoop true (n + 1) p = priceLoop true n (grow 10000 p : ℕ) := by
  have hscaled : i128.check ((p : ℤ) * tickBase) = some ((p * 10001 : ℕ) : ℤ) := by
    rw [← check_natCast hp, Nat.cast_mul]
    rfl
  have hdiv : i128.checkedDiv ((p * 10001 : ℕ) : ℤ) tickBasePrecision =
      some ((grow 10000 p : ℕ) : ℤ) := checkedDiv_natCast (y := 10000) hp (by norm_num)
  simp only [priceLoop, if_true, hscaled, okOr_some, ok_bind, hdiv]

theorem priceLoop_up_stop (hp : 2 ^ 127 ≤ p * 10001) :
    priceLoop true (n + 1) p = .error (Fault.error .overflow) := by
  have hscaled : i128.check ((p : ℤ) * tickBase) = none := by
    refine if_neg fun hfits => ?_
    have hhi : (p : ℤ) * 10001 ≤ 2 ^ 127 - 1 := hfits.2
    omega
  simp [priceLoop, hscaled, okOr, bind, Except.bind]

theorem priceLoop_up (h : FitsUpTo n p) : priceLoop true n p = .ok ((grow 10000)^[n] p : ℕ) := by
  induction n generalizing p with
  | zero => rfl
  | succ n ih =>
    have hp : p * 10001 < 2 ^ 127 := h 0 (Nat.succ_pos n)
    rw [priceLoop_up_succ hp]
    exact ih fun j hj => h (j + 1) (Nat.succ_lt_succ hj)

theorem priceLoop_up_overflow (h : ¬ FitsUpTo n p) :
    priceLoop true n p = .error (Fault.error .overflow) := by
  induction n generalizing p with
  | zero => exact absurd (fun j hj => absurd hj (Nat.not_lt_zero j)) h
  | succ n ih =>
    rcases Nat.lt_or_ge (p * 10001) (2 ^ 127) with hp | hp
    · rw [priceLoop_up_succ hp]
      refine ih fun hall => h fun j hj => ?_
      cases j with
      | zero => exact hp
      | succ j => exact hall j (Nat.lt_of_succ_lt_succ hj)
    · exact priceLoop_up_stop hp

/-- Downwards the products only get smaller. -/
theorem priceLoop_down (hp : p ≤ 10 ^ 7) :
    priceLoop false n p = .ok ((decay 10000)^[n] p : ℕ) := by
  induction n generalizing p with
  | zero => rfl
  | succ n ih =>
    have hlt : p * 10000 < 2 ^ 127 := by omega
    have hscaled : i128.check ((p : ℤ) * tickBasePrecision) = some ((p * 10000 : ℕ) : ℤ) := by
      rw [← check_natCast hlt, Nat.cast_mul]
      rfl
    have hdiv : i128.checkedDiv ((p * 10000 : ℕ) : ℤ) tickBase =
        some ((decay 10000 p : ℕ) : ℤ) := checkedDiv_natCast (y := 10001) hlt (by norm_num)
    simp only [priceLoop, Bool.false_eq_true, if_false, hscaled, okOr_some, ok_bind, hdiv]
    exact ih ((decay_le 10000 p).trans hp)

end Loop

/-! ## The ends of the range -/

section Ends

theorem grow_block : (grow 10000)^[65536] (10 ^ 7) = 7011853923 := by
  rw [show 65536 = 64 * 2 ^ 10 from rfl, ← doubling_iterate_eq]
  decide +kernel

theorem decay_block : (decay 10000)^[65536] (10 ^ 7) = 9322 := by
  rw [show 65536 = 64 * 2 ^ 10 from rfl, ← doubling_iterate_eq]
  decide +kernel

/-- Past the exact block the powers decide; the truncation no longer matters. -/
theorem last_product_lt : (grow 10000)^[627047] (10 ^ 7) * 10001 < 2 ^ 127 := by
  rw [show 627047 = 561511 + 65536 from rfl, Function.iterate_add_apply, grow_block]
  exact iterate_grow_mul_lt (by decide +kernel)

theorem first_product_ge : 2 ^ 127 ≤ (grow 10000)^[627048] (10 ^ 7) * 10001 := by
  rw [show 627048 = 561512 + 65536 from rfl, Function.iterate_add_apply, grow_block]
  exact le_iterate_grow_mul (by norm_num) (by decide +kernel)

theorem fitsUpTo_iff {n : ℕ} : FitsUpTo n (10 ^ 7) ↔ n ≤ 627048 := by
  constructor
  · intro h
    by_contra hn
    exact (h 627048 (by omega)).not_ge first_product_ge
  · intro hn j hj
    have hmono := (strictMono_iterate_grow (m := 10000) (p := 10 ^ 7) (by norm_num)
      (by norm_num)).monotone (show j ≤ 627047 by omega)
    exact (Nat.mul_le_mul_right _ hmono).trans_lt last_product_lt

/-- The last 9322 steps take one unit each. -/
theorem iterate_decay_pos_iff {n : ℕ} : 0 < (decay 10000)^[n] (10 ^ 7) ↔ n ≤ 74857 := by
  rcases Nat.le_total n 65536 with hn | hn
  · have hle := iterate_decay_antitone 10000 (10 ^ 7) hn
    simp only [decay_block] at hle
    exact iff_of_true (by omega) (by omega)
  · obtain ⟨k, rfl⟩ := Nat.exists_eq_add_of_le' hn
    rw [Function.iterate_add_apply, decay_block, iterate_decay_of_le _ (by norm_num)]
    omega

end Ends

section Ticks

variable {tick tick' : ℤ}

/-- The compounded price of a tick, whatever the type can hold. -/
def compounded (tick : ℤ) : ℕ :=
  if 0 < tick then (grow 10000)^[tick.natAbs] (10 ^ 7)
  else (decay 10000)^[tick.natAbs] (10 ^ 7)

theorem tickToPrice_eq (tick : ℤ) : tickToPrice tick =
    if tick ≤ maxPricedTick then .ok (compounded tick : ℤ) else .error (Fault.error .overflow) := by
  have hscale : priceScale = ((10 ^ 7 : ℕ) : ℤ) := by norm_num [priceScale]
  unfold tickToPrice compounded maxPricedTick
  rw [hscale]
  by_cases hpos : 0 < tick
  · rw [decide_eq_true hpos, if_pos hpos]
    split_ifs with hmax
    · exact priceLoop_up (fitsUpTo_iff.mpr (by omega))
    · refine priceLoop_up_overflow fun h => hmax ?_
      have hle := fitsUpTo_iff.mp h
      omega
  · rw [decide_eq_false hpos, if_neg hpos, if_pos (by omega)]
    exact priceLoop_down le_rfl

theorem compounded_pos_iff : 0 < compounded tick ↔ minPricedTick ≤ tick := by
  unfold compounded minPricedTick
  split_ifs with hpos
  · have hle := le_iterate_grow (m := 10000) (by norm_num) tick.natAbs (10 ^ 7)
    exact iff_of_true (by omega) (by omega)
  · rw [iterate_decay_pos_iff]
    omega

/-- The prices increase from the highest tick without one. -/
theorem compounded_lt (hlt : tick < tick') (hmin : minPricedTick ≤ tick') :
    compounded tick < compounded tick' := by
  have hpos := compounded_pos_iff.mpr hmin
  unfold compounded at hpos ⊢
  split_ifs at hpos ⊢ with h h' h'
  · exact strictMono_iterate_grow (m := 10000) (by norm_num) (by norm_num) (by omega)
  · omega
  · exact (iterate_decay_le 10000 tick.natAbs (10 ^ 7)).trans_lt
      (lt_iterate_grow (by norm_num) (by norm_num) (by omega))
  · exact iterate_decay_lt (by omega) hpos

/-- A tick has a positive price, and one above all prices below it, exactly when it lies between
the lowest and the highest priced tick. -/
theorem tickToPrice_increasing_iff (tick tick' : ℤ) :
    ((∃ price, tickToPrice tick' = .ok price ∧ 0 < price) ↔
      minPricedTick ≤ tick' ∧ tick' ≤ maxPricedTick) ∧
    (tick < tick' → ((∃ price price', tickToPrice tick = .ok price ∧
      tickToPrice tick' = .ok price' ∧ price < price') ↔
        minPricedTick ≤ tick' ∧ tick' ≤ maxPricedTick)) := by
  constructor
  · rw [tickToPrice_eq, ← compounded_pos_iff]
    split_ifs with hmax
    · simp [hmax]
    · simp [hmax]
  · intro hlt
    rw [tickToPrice_eq, tickToPrice_eq]
    constructor
    · rintro ⟨price, price', hprice, hprice', hless⟩
      split_ifs at hprice hprice' with hmax hmax'
      obtain rfl := Except.ok.inj hprice
      obtain rfl := Except.ok.inj hprice'
      refine ⟨compounded_pos_iff.mp ?_, hmax'⟩
      omega
    · rintro ⟨hmin, hmax⟩
      rw [if_pos hmax, if_pos (hlt.le.trans hmax)]
      exact ⟨_, _, rfl, rfl, by exact_mod_cast compounded_lt hlt hmin⟩

/-- The lowest priced tick and the one below it. -/
theorem tickToPrice_increasing_lowest :
    minPricedTick - 1 < minPricedTick ∧ ∃ price price',
      tickToPrice (minPricedTick - 1) = .ok price ∧ tickToPrice minPricedTick = .ok price' ∧
        price < price' :=
  ⟨by decide, ((tickToPrice_increasing_iff _ _).2 (by decide)).mpr (by decide)⟩

/-- The prices end before the ticks do, on both sides. -/
theorem tickToPrice_ends :
    tickToPrice maxTickIndex = .error (Fault.error .overflow) ∧
    tickToPrice minTickIndex = .ok 0 ∧ tickToPrice (minTickIndex + 1) = .ok 0 ∧
    ¬ (∀ tick, minTickIndex ≤ tick → tick ≤ maxTickIndex →
      ∃ price, tickToPrice tick = .ok price ∧ 0 < price) ∧
    ¬ (∀ tick tick', minTickIndex ≤ tick → tick < tick' → tick' ≤ maxTickIndex →
      ∃ price price', tickToPrice tick = .ok price ∧ tickToPrice tick' = .ok price' ∧
        price < price') := by
  have hzero : ∀ tick, tick < minPricedTick → tickToPrice tick = .ok 0 := by
    intro tick hlow
    have hnone : compounded tick = 0 := by
      have := mt compounded_pos_iff.mp hlow.not_ge
      omega
    rw [tickToPrice_eq, if_pos (hlow.le.trans (by decide)), hnone]
    rfl
  have htop : tickToPrice maxTickIndex = .error (Fault.error .overflow) := by
    rw [tickToPrice_eq, if_neg (by decide)]
  have hlow := hzero minTickIndex (by decide)
  have hnext := hzero (minTickIndex + 1) (by decide)
  refine ⟨htop, hlow, hnext, fun h => ?_, fun h => ?_⟩
  · obtain ⟨price, hprice, _⟩ := h maxTickIndex (by decide) le_rfl
    cases htop.symm.trans hprice
  · obtain ⟨price, price', hprice, hprice', hless⟩ :=
      h minTickIndex (minTickIndex + 1) le_rfl (by decide) (by decide)
    obtain rfl := Except.ok.inj (hlow.symm.trans hprice)
    obtain rfl := Except.ok.inj (hnext.symm.trans hprice')
    exact absurd hless (lt_irrefl _)

end Ticks

end StellarFlow.Amm
