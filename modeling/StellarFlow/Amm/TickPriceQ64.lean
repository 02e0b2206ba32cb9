import StellarFlow.Amm.TickBitmap
import StellarFlow.Amm.VirtualReserves
import StellarFlow.Foundation.BinaryPower
import Mathlib.Data.Nat.Bitwise

/-!
# Prices of ticks in Q64.64

The price of a tick is a truncated product of tabulated powers, or its reciprocal below zero.
The powers of neighbouring ticks differ by a relative gap that the truncations of at most 19
products do not close, and the reciprocals stay large enough to keep it. So prices increase over
the whole range, and a binary search inverts them.
-/
namespace StellarFlow.Amm.TickBitmap

open Foundation

/-- One in Q64.64. -/
def q64 : ℕ := 2 ^ 64

def powQ64 : List ℕ := [
  0x1_0006_8db8_bac7_10cb,
  0x1_000d_1b9c_68ab_e5f7,
  0x1_001a_37e4_a234_cb08,
  0x1_0034_7278_ab0e_92ad,
  0x1_0068_efb0_0a52_5480,
  0x1_00d2_0a63_b417_3839,
  0x1_01a4_c11c_742d_d772,
  0x1_034c_35c3_1f64_cfa6,
  0x1_06a3_4b78_c8aa_ffbf,
  0x1_0d72_a6a4_6ccd_8bce,
  0x1_1b9a_258e_6392_8596,
  0x1_3a2e_2bda_04f8_379f,
  0x1_8195_4be6_9e0d_a8fe,
  0x2_44c2_655d_185a_0290,
  0x5_2581_6eeb_9f93_5b1c,
  0x1a_7c8d_00b5_5168_4ff4,
  0x2bd_893d_0b2d_f7c9_7884,
  0x7_8278_e1e1_9e44_8cf8_b95d,
  0x38_651b_58d4_5750_1416_feade319]

/-- The high word of a product, from the four products of halves. -/
def mulHigh (a b : ℕ) : ℕ :=
  let aLo := a % 2 ^ 64
  let aHi := a / 2 ^ 64
  let bLo := b % 2 ^ 64
  let bHi := b / 2 ^ 64
  let pLl := aLo * bLo
  let pLh := aLo * bHi
  let pHl := aHi * bLo
  let pHh := aHi * bHi
  let mid := (pLh + pHl) % 2 ^ 128
  let carryMid := (pLh + pHl) / 2 ^ 128
  let lowCarry := (pLl / 2 ^ 64 + mid % 2 ^ 64) / 2 ^ 64
  (((pHh + mid / 2 ^ 64) % 2 ^ 128 + carryMid * 2 ^ 64 % 2 ^ 128) % 2 ^ 128 + lowCarry) % 2 ^ 128

/-- Product of two Q64.64 values, refused when it does not fit. -/
def mulQ64 (a b : ℕ) : Except TickFault ℕ := do
  let hi := mulHigh a b
  failIf (hi / 2 ^ 64 ≠ 0) (.error .priceOutOfBounds)
  let lo := a * b % 2 ^ 128
  pure (hi * 2 ^ 64 % 2 ^ 128 ||| lo / 2 ^ 64)

/-- The loop over the factors from the `k`-th one on. -/
def powLoop (magnitude : ℕ) : ℕ → List ℕ → ℕ → Except TickFault ℕ
  | _, [], price => pure price
  | k, factor :: factors, price => do
    let price ← if magnitude &&& 1 <<< k ≠ 0 then mulQ64 price factor else pure price
    powLoop magnitude (k + 1) factors price

def tickToPriceQ64 (tick : ℤ) : Except TickFault ℕ := do
  checkTick tick
  let price ← powLoop tick.natAbs 0 powQ64 q64
  if tick < 0 then
    failIf (price = 0) .divideByZero
    pure ((2 ^ 128 - 1) / price)
  else pure price

/-- The binary search for the greatest tick with at most the given price. -/
def searchTick (price : ℕ) (lo hi : ℤ) : Except TickFault ℤ :=
  if _ : lo < hi then do
    let mid := lo + (hi - lo + 1) / 2
    let midPrice ← tickToPriceQ64 mid
    if midPrice ≤ price then searchTick price mid hi else searchTick price lo (mid - 1)
  else pure lo
termination_by (hi - lo).toNat

def priceQ64ToTick (price : ℕ) : Except TickFault ℤ := do
  let low ← tickToPriceQ64 minTick
  failIf (price < low) (.error .priceOutOfBounds)
  let high ← tickToPriceQ64 maxTick
  failIf (high < price) (.error .priceOutOfBounds)
  searchTick price minTick maxTick

/-- The price lies in the band of the tick, which is a single price at the last tick. -/
def assertTickPriceBounds (tick : ℤ) (price : ℕ) : Except TickFault Unit := do
  let lower ← tickToPriceQ64 tick
  let within ←
    if tick = maxTick then pure (decide (price = lower))
    else if lower ≤ price then do
      let upper ← tickToPriceQ64 (tick + 1)
      pure (decide (price < upper))
    else pure false
  failIf (within = false) (.error .tickPriceMismatch)

/-- The product of the factors of a tick without the checks. -/
def powerAt (n : ℕ) : ℕ := binaryPower q64 powQ64 n q64

/-- The price of a tick without the checks. -/
def priceAt (tick : ℤ) : ℕ :=
  if tick < 0 then (2 ^ 128 - 1) / powerAt tick.natAbs else powerAt tick.natAbs

/-! ## Products -/

section Products

variable {a b : ℕ}

theorem mulHigh_eq (ha : a < 2 ^ 128) (hb : b < 2 ^ 128) : mulHigh a b = a * b / 2 ^ 128 := by
  have hah : a / 2 ^ 64 % 2 ^ 64 = a / 2 ^ 64 := by omega
  have hbh : b / 2 ^ 64 % 2 ^ 64 = b / 2 ^ 64 := by omega
  have hhigh : mulHigh a b = (U256.mul a b).hi := by
    simp only [mulHigh, U256.mul, hah, hbh]
    exact wide_words _ _ _ _
  have hvalue := U256.mul_value a b
  have hlo := U256.mul_lo_lt a b
  rw [Nat.mod_eq_of_lt ha, Nat.mod_eq_of_lt hb, U256.value] at hvalue
  rw [hhigh, ← hvalue]
  omega

/-- The product is the truncated exact one where that fits. -/
theorem mulQ64_eq (ha : a < 2 ^ 128) (hb : b < 2 ^ 128) (hfits : a * b / q64 < 2 ^ 128) :
    mulQ64 a b = .ok (a * b / q64) := by
  have hlt : a * b < 2 ^ 192 := by
    rw [q64, Nat.div_lt_iff_lt_mul (by norm_num)] at hfits
    exact hfits
  rw [mulQ64, mulHigh_eq ha hb]
  generalize a * b = c at *
  have hhi : c / 2 ^ 128 / 2 ^ 64 = 0 := by omega
  have hshift : c / 2 ^ 128 * 2 ^ 64 % 2 ^ 128 = 2 ^ 64 * (c / 2 ^ 128) := by omega
  have hlo : c % 2 ^ 128 / 2 ^ 64 < 2 ^ 64 := by omega
  have hwords : 2 ^ 64 * (c / 2 ^ 128) ||| c % 2 ^ 128 / 2 ^ 64 = c / q64 := by
    rw [← Nat.two_pow_add_eq_or_of_lt hlo, q64]
    omega
  rw [failIf_of_not (not_not.mpr hhi), ok_bind, hshift]
  exact congrArg Except.ok hwords

theorem and_bit_ne_zero {m k : ℕ} : m &&& 1 <<< k ≠ 0 ↔ m / 2 ^ k % 2 = 1 := by
  rw [Nat.one_shiftLeft, Nat.and_two_pow, Nat.testBit_eq_decide_div_mod_eq]
  by_cases h : m / 2 ^ k % 2 = 1
  · simp [h]
  · simp [h]

/-- While the products fit, the loop multiplies by the factors of the digits that are left. -/
theorem powLoop_eq {m k price : ℕ} {factors : List ℕ} (hf : ∀ f ∈ factors, q64 ≤ f ∧ f < 2 ^ 128)
    (hfits : binaryPower q64 factors (m / 2 ^ k) price < 2 ^ 128) :
    powLoop m k factors price = .ok (binaryPower q64 factors (m / 2 ^ k) price) := by
  have hq : 0 < q64 := by norm_num [q64]
  induction factors generalizing k price with
  | nil => rfl
  | cons f factors ih =>
    have hprice := (le_binaryPower hq (fun g hg => (hf g hg).1) (m / 2 ^ k) price).trans_lt hfits
    obtain ⟨hhead, htail⟩ := List.forall_mem_cons.mp hf
    have hhalf : m / 2 ^ k / 2 = m / 2 ^ (k + 1) := by rw [pow_succ, Nat.div_div_eq_div_mul]
    rw [binaryPower, hhalf] at hfits
    rw [powLoop, binaryPower, hhalf]
    by_cases hbit : m / 2 ^ k % 2 = 1
    · rw [if_pos hbit] at hfits
      have hnext := (le_binaryPower hq (fun g hg => (htail g hg).1) _ _).trans_lt hfits
      rw [if_pos (and_bit_ne_zero.mpr hbit), if_pos hbit, mulQ64_eq hprice hhead.2 hnext, ok_bind]
      exact ih htail hfits
    · rw [if_neg hbit] at hfits
      rw [if_neg fun h => hbit (and_bit_ne_zero.mp h), if_neg hbit]
      exact ih htail hfits

end Products

/-! ## Powers -/

section Powers

theorem powQ64_bounds : ∀ f ∈ powQ64, q64 ≤ f ∧ f < 2 ^ 128 := by decide

/-- The tabulated factors keep a gap of one part in 10001 to the carries below them. -/
theorem powQ64_carriesApart : CarriesApart q64 10001 powQ64 q64 := by decide

/-- Neighbouring powers are one part in 10020 apart. -/
theorem powerAt_apart {n : ℕ} (hn : n + 1 < 2 ^ 19) : Apart 10020 (powerAt n) (powerAt (n + 1)) :=
  binaryPower_succ_apart (by norm_num) (by norm_num [q64]) (fun f hf => (powQ64_bounds f hf).1)
    (by decide) le_rfl powQ64_carriesApart hn

theorem q64_le_powerAt (n : ℕ) : q64 ≤ powerAt n :=
  le_binaryPower (by norm_num [q64]) (fun f hf => (powQ64_bounds f hf).1) n q64

theorem powerAt_lt {m n : ℕ} (hmn : m < n) (hn : n < 2 ^ 19) : powerAt m < powerAt n := by
  have hstep : ∀ k, k + 1 < 2 ^ 19 → powerAt k < powerAt (k + 1) := by
    intro k hk
    exact (powerAt_apart hk).lt ((by norm_num [q64] : 0 < q64).trans_le (q64_le_powerAt k))
  induction n, hmn using Nat.le_induction with
  | base => exact hstep m hn
  | succ k _ ih => exact (ih (by omega)).trans (hstep k hn)

theorem powerAt_last : powerAt 300000 = 196835207006294262227063869276040 := by decide +kernel

theorem powerAt_le {n : ℕ} (hn : n ≤ 300000) : powerAt n ≤ powerAt 300000 := by
  rcases Nat.lt_or_eq_of_le hn with hlt | rfl
  · exact (powerAt_lt hlt (by norm_num)).le
  · exact le_rfl

theorem powerAt_lt_two_pow {n : ℕ} (hn : n ≤ 300000) : powerAt n < 2 ^ 128 :=
  (powerAt_le hn).trans_lt (by rw [powerAt_last]; norm_num)

end Powers

/-! ## Prices -/

section Prices

variable {tick : ℤ} {price : ℕ}

/-- In range a price is computed without an overflow, and out of range it is refused. -/
theorem tickToPriceQ64_of_inRange (h : InRange tick) :
    tickToPriceQ64 tick = .ok (priceAt tick) := by
  have habs : tick.natAbs ≤ 300000 := by
    obtain ⟨hmin, hmax⟩ := h
    unfold minTick at hmin
    unfold maxTick at hmax
    omega
  have hloop : powLoop tick.natAbs 0 powQ64 q64 = .ok (powerAt tick.natAbs) := by
    have hfits : binaryPower q64 powQ64 (tick.natAbs / 2 ^ 0) q64 < 2 ^ 128 := by
      rw [pow_zero, Nat.div_one]
      exact powerAt_lt_two_pow habs
    rw [powLoop_eq powQ64_bounds hfits, pow_zero, Nat.div_one]
    rfl
  have hpos : powerAt tick.natAbs ≠ 0 := by
    have hge := q64_le_powerAt tick.natAbs
    have hq : 0 < q64 := by norm_num [q64]
    omega
  rw [tickToPriceQ64, checkTick_eq_ok h, ok_bind, hloop, ok_bind, priceAt]
  split_ifs
  · rw [failIf_of_not hpos, ok_bind]
    rfl
  · rfl

theorem tickToPriceQ64_of_not_inRange (h : ¬ InRange tick) :
    tickToPriceQ64 tick = .error (.error .tickOutOfBounds) := by
  rw [tickToPriceQ64, checkTick, failIf, if_pos h]
  rfl

theorem tickToPriceQ64_eq_ok : tickToPriceQ64 tick = .ok price ↔
    InRange tick ∧ priceAt tick = price := by
  by_cases h : InRange tick
  · simp [tickToPriceQ64_of_inRange h, h]
  · simp [tickToPriceQ64_of_not_inRange h, h]

theorem priceAt_natCast (n : ℕ) : priceAt n = powerAt n := by
  rw [priceAt, if_neg (not_lt.mpr (Int.natCast_nonneg n)), Int.natAbs_natCast]

theorem priceAt_neg_succ (n : ℕ) : priceAt (-(n + 1 : ℕ)) = (2 ^ 128 - 1) / powerAt (n + 1) := by
  rw [priceAt, if_pos (by omega), Int.natAbs_neg, Int.natAbs_natCast]

/-- The lowest price is still far above the number of parts of the gap, so reciprocals of
neighbours differ. -/
theorem reciprocal_lt {n : ℕ} (hn : n < 300000) :
    (2 ^ 128 - 1) / powerAt (n + 1) < (2 ^ 128 - 1) / powerAt n := by
  refine (powerAt_apart (by omega)).div_lt_div (by norm_num) ?_ ?_
  · exact (by norm_num [q64] : 0 < q64).trans_le (q64_le_powerAt n)
  · have hle := powerAt_le (show n + 1 ≤ 300000 by omega)
    rw [powerAt_last] at hle
    exact le_trans (by norm_num) (Nat.div_le_div_left hle
      ((by norm_num [q64] : 0 < q64).trans_le (q64_le_powerAt (n + 1))))

theorem priceAt_lt_succ (hmin : minTick ≤ tick) (hmax : tick < maxTick) :
    priceAt tick < priceAt (tick + 1) := by
  unfold minTick at hmin
  unfold maxTick at hmax
  rcases lt_or_ge tick 0 with hneg | hpos
  · obtain ⟨n, hn⟩ := Int.eq_ofNat_of_zero_le (show 0 ≤ -tick - 1 by omega)
    have htick : tick = -(n + 1 : ℕ) := by omega
    cases n with
    | zero =>
      rw [htick]
      decide
    | succ n =>
      have hnext : tick + 1 = -(n + 1 : ℕ) := by omega
      rw [hnext, htick, priceAt_neg_succ, priceAt_neg_succ]
      exact reciprocal_lt (by omega)
  · obtain ⟨n, rfl⟩ := Int.eq_ofNat_of_zero_le hpos
    have hnext : (n : ℤ) + 1 = (n + 1 : ℕ) := rfl
    rw [hnext, priceAt_natCast, priceAt_natCast]
    exact powerAt_lt (Nat.lt_succ_self n) (by omega)

/-- Prices increase strictly over the range. -/
theorem priceAt_lt {t t' : ℤ} (ht : minTick ≤ t) (htt' : t < t') (ht' : t' ≤ maxTick) :
    priceAt t < priceAt t' := by
  induction t', htt' using Int.leInduction with
  | base => exact priceAt_lt_succ ht ht'
  | succ t' hle ih => exact (ih (by omega)).trans (priceAt_lt_succ (by omega) (by omega))

theorem priceAt_le {t t' : ℤ} (ht : minTick ≤ t) (htt' : t ≤ t') (ht' : t' ≤ maxTick) :
    priceAt t ≤ priceAt t' := by
  rcases Int.lt_or_eq_of_le htt' with hlt | rfl
  · exact (priceAt_lt ht hlt ht').le
  · exact le_rfl

end Prices

/-! ## The binary search -/

section Search

variable {price : ℕ} {lo hi tick : ℤ}

/-- The tick whose band holds the price. -/
def InBand (tick : ℤ) (price : ℕ) : Prop :=
  InRange tick ∧ priceAt tick ≤ price ∧ (tick = maxTick ∨ price < priceAt (tick + 1))

/-- The search keeps the lower end at most and the tick above the upper end over the price. -/
theorem searchTick_spec (hlo : minTick ≤ lo) (hle : lo ≤ hi) (hhi : hi ≤ maxTick)
    (hlow : priceAt lo ≤ price) (hhigh : hi = maxTick ∨ price < priceAt (hi + 1)) :
    ∃ t, searchTick price lo hi = .ok t ∧ InBand t price := by
  fun_induction searchTick price lo hi with
  | case1 lo hi hlt mid ihup ihdown =>
    have hmid : lo < mid ∧ mid ≤ hi := by omega
    have hok := tickToPriceQ64_of_inRange (show InRange mid from ⟨by omega, by omega⟩)
    rw [hok, ok_bind]
    by_cases hprice : priceAt mid ≤ price
    · rw [if_pos hprice]
      exact ihup (by omega) hmid.2 hhi hprice hhigh
    · rw [if_neg hprice]
      refine ihdown hlo (by omega) (by omega) hlow (.inr ?_)
      rw [Int.sub_add_cancel]
      exact not_le.mp hprice
  | case2 lo hi hlt =>
    obtain rfl : lo = hi := by omega
    exact ⟨lo, rfl, ⟨hlo, hhi⟩, hlow, hhigh⟩

theorem priceQ64ToTick_of_between (hlow : priceAt minTick ≤ price)
    (hhigh : price ≤ priceAt maxTick) : ∃ t, priceQ64ToTick price = .ok t ∧ InBand t price := by
  rw [priceQ64ToTick, tickToPriceQ64_of_inRange (by decide), ok_bind,
    failIf_of_not (not_lt.mpr hlow), ok_bind, tickToPriceQ64_of_inRange (by decide), ok_bind,
    failIf_of_not (not_lt.mpr hhigh), ok_bind]
  exact searchTick_spec le_rfl (by decide) le_rfl hlow (.inl rfl)

theorem priceQ64ToTick_eq_ok {t : ℤ} (h : priceQ64ToTick price = .ok t) :
    priceAt minTick ≤ price ∧ price ≤ priceAt maxTick ∧ InBand t price := by
  have hrun := h
  simp only [priceQ64ToTick, bind_eq_ok, tickToPriceQ64_eq_ok, failIf_eq_ok, not_lt] at h
  obtain ⟨_, ⟨_, rfl⟩, _, hlow, _, ⟨_, rfl⟩, _, hhigh, _⟩ := h
  obtain ⟨t', hok, hband⟩ := priceQ64ToTick_of_between hlow hhigh
  obtain rfl := Except.ok.inj (hrun.symm.trans hok)
  exact ⟨hlow, hhigh, hband⟩

/-- No price lies in two bands. -/
theorem InBand.not_before {t t' : ℤ} (h : InBand t price) (h' : InBand t' price) : ¬ t < t' := by
  intro hlt
  obtain ⟨⟨hmin, _⟩, _, hend⟩ := h
  obtain ⟨⟨_, hmax⟩, hlow, _⟩ := h'
  rcases hend with rfl | hprice
  · omega
  · exact absurd (priceAt_le (by omega) hlt hmax) (by omega)

theorem InBand.unique {t t' : ℤ} (h : InBand t price) (h' : InBand t' price) : t' = t :=
  le_antisymm (not_lt.mp (h.not_before h')) (not_lt.mp (h'.not_before h))

/-- The assertion accepts the bands of the prices up to the last one. -/
theorem assertTickPriceBounds_eq_ok : assertTickPriceBounds tick price = .ok () ↔
    InBand tick price ∧ price ≤ priceAt maxTick := by
  by_cases hr : InRange tick
  · rw [assertTickPriceBounds, tickToPriceQ64_of_inRange hr, ok_bind]
    by_cases hlast : tick = maxTick
    · obtain rfl := hlast
      rw [if_pos rfl]
      simp only [pure_bind, failIf_eq_ok, decide_eq_false_iff_not, not_not, InBand, hr, true_or,
        and_true, true_and]
      omega
    · have hlt : tick < maxTick := lt_of_le_of_ne hr.2 hlast
      have hmin : minTick ≤ tick + 1 := hr.1.trans (Int.le_add_one le_rfl)
      have hnext : InRange (tick + 1) := ⟨hmin, hlt⟩
      have htop := priceAt_le hmin (show tick + 1 ≤ maxTick from hlt) le_rfl
      rw [if_neg hlast, tickToPriceQ64_of_inRange hnext]
      simp only [InBand, hr, hlast, false_or, true_and]
      by_cases hlow : priceAt tick ≤ price
      · simp only [if_pos hlow, ok_bind, pure_bind, failIf_eq_ok, decide_eq_false_iff_not, not_not]
        omega
      · simp only [if_neg hlow, pure_bind, failIf_eq_ok]
        simp [hlow]
  · refine iff_of_false (fun h => ?_) fun h => hr h.1.1
    rw [assertTickPriceBounds, tickToPriceQ64_of_not_inRange hr] at h
    cases h

end Search

/-- Ticks and prices correspond: prices exist and increase over the whole range of ticks, and a
price between the ends is taken to the only tick whose bounds hold it. -/
theorem tickPrice_correspondence :
    (∀ t, InRange t → ∃ p, tickToPriceQ64 t = .ok p ∧ p < 2 ^ 128) ∧
    (∀ t t' p p', tickToPriceQ64 t = .ok p → tickToPriceQ64 t' = .ok p' → t < t' → p < p') ∧
    (∀ price, (∃ t, priceQ64ToTick price = .ok t) ↔
      ∃ low high, tickToPriceQ64 minTick = .ok low ∧ tickToPriceQ64 maxTick = .ok high ∧
        low ≤ price ∧ price ≤ high) ∧
    (∀ price t, priceQ64ToTick price = .ok t →
      ∀ t', assertTickPriceBounds t' price = .ok () ↔ t' = t) ∧
    ∀ t p, tickToPriceQ64 t = .ok p → priceQ64ToTick p = .ok t := by
  refine ⟨fun t ht => ⟨priceAt t, tickToPriceQ64_of_inRange ht, ?_⟩, ?_, fun price => ⟨?_, ?_⟩, ?_,
    ?_⟩
  · exact (priceAt_le ht.1 ht.2 le_rfl).trans_lt (powerAt_lt_two_pow le_rfl)
  · intro t t' p p' hp hp' hlt
    obtain ⟨ht, rfl⟩ := tickToPriceQ64_eq_ok.mp hp
    obtain ⟨ht', rfl⟩ := tickToPriceQ64_eq_ok.mp hp'
    exact priceAt_lt ht.1 hlt ht'.2
  · rintro ⟨t, ht⟩
    obtain ⟨hlow, hhigh, _⟩ := priceQ64ToTick_eq_ok ht
    exact ⟨_, _, tickToPriceQ64_of_inRange (by decide), tickToPriceQ64_of_inRange (by decide),
      hlow, hhigh⟩
  · rintro ⟨low, high, hl, hh, hlow, hhigh⟩
    obtain ⟨_, rfl⟩ := tickToPriceQ64_eq_ok.mp hl
    obtain ⟨_, rfl⟩ := tickToPriceQ64_eq_ok.mp hh
    obtain ⟨t, ht, _⟩ := priceQ64ToTick_of_between hlow hhigh
    exact ⟨t, ht⟩
  · intro price t ht t'
    obtain ⟨_, hhigh, hband⟩ := priceQ64ToTick_eq_ok ht
    rw [assertTickPriceBounds_eq_ok]
    constructor
    · exact fun h => hband.unique h.1
    · rintro rfl
      exact ⟨hband, hhigh⟩
  · intro t p hp
    obtain ⟨ht, rfl⟩ := tickToPriceQ64_eq_ok.mp hp
    have hband : InBand t (priceAt t) := by
      refine ⟨ht, le_rfl, ?_⟩
      rcases Int.lt_or_eq_of_le ht.2 with hlt | heq
      · exact .inr (priceAt_lt_succ ht.1 hlt)
      · exact .inl heq
    obtain ⟨t', ht', hband'⟩ :=
      priceQ64ToTick_of_between (priceAt_le le_rfl ht.1 ht.2) (priceAt_le ht.1 ht.2 le_rfl)
    rw [ht', hband.unique hband']

/-- The first tick below zero has the largest price below one, and is found from it. -/
theorem tickPrice_correspondence_sample :
    tickToPriceQ64 (-1) = .ok 18444899583751176498 ∧
      priceQ64ToTick 18444899583751176498 = .ok (-1) := by
  have hprice : tickToPriceQ64 (-1) = .ok 18444899583751176498 := by decide +kernel
  exact ⟨hprice, tickPrice_correspondence.2.2.2.2 _ _ hprice⟩

end StellarFlow.Amm.TickBitmap
