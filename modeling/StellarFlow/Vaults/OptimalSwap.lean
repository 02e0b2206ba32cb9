import StellarFlow.Foundation.Crossing
import StellarFlow.Foundation.Heron
import StellarFlow.Host

/-!
# How much of a deposit to swap

A deposit in one token of a pool becomes one in both: a part is swapped into the other token
first. The part that makes both legs match the pool is a root of a quadratic equation. The code
takes it in 256-bit integers and rounds it up.
-/
namespace StellarFlow.Vaults.YieldStrategy

open Foundation

def bpsDenominator : ℕ := 10000
def poolFeeBps : ℕ := 30
def maxZapAmount : ℤ := 2 ^ 96

/-- Result of an operator on 256-bit values, which traps out of range. -/
def u256 (x : ℕ) : Except Fault ℕ := okOr (checkBits 256 x) .trap

/-- Floor of the root of `n = b * b + x`, from the first guess `b + x / 2b + 1`. -/
def isqrtAbove (n b x : ℕ) : Except Fault ℕ := do
  let root ← u256 (b + x / (b * 2))
  let root ← u256 (root + 1)
  let sum ← u256 (root + n / root)
  okOr (Heron.checkedLoop (2 ^ 256 - 1) n root (sum / 2)) .trap

def optimalSwapAmount (reserveIn amountIn : ℤ) (feeBps : ℕ) : Except Fault ℤ := do
  failIf (reserveIn ≤ 0 ∨ amountIn ≤ 0 ∨ bpsDenominator ≤ feeBps) (Fault.error .invalidInput)
  failIf (maxZapAmount < reserveIn ∨ maxZapAmount < amountIn) (Fault.error .mathOverflow)
  let gamma := bpsDenominator - feeBps
  let reserve := reserveIn.toNat
  let amount := amountIn.toNat
  let b ← u256 (reserve * (bpsDenominator + gamma))
  let x ← u256 (4 * bpsDenominator * gamma * reserve)
  let x ← u256 (x * amount)
  let square ← u256 (b * b)
  let n ← u256 (square + x)
  let root ← isqrtAbove n b x
  let denominator := 2 * gamma
  let difference ← okOr (checkedSub root b) .trap
  let sum ← u256 (difference + (denominator - 1))
  okOr ((checkBits 128 (sum / denominator)).bind fun s => i128.check s) (Fault.error .mathOverflow)

/-! ## The square root -/

section Root

variable {n b x : ℕ}

/-- The first guess is not too small. -/
theorem lt_succ_guess_sq (hb : 0 < b) :
    b * b + x < (b + x / (b * 2) + 1 + 1) * (b + x / (b * 2) + 1 + 1) := by
  have hquot : x < b * 2 * (x / (b * 2) + 1) := Nat.lt_mul_div_succ x (by omega)
  generalize x / (b * 2) = q at hquot ⊢
  nlinarith

theorem guess_le (hb : 2 ≤ b) : b + x / (b * 2) + 1 ≤ b * b + x := by
  have hquot : x / (b * 2) ≤ x := Nat.div_le_self _ _
  nlinarith

theorem isqrtAbove_eq_sqrt (hn : n = b * b + x) (hb : 2 ≤ b) (hlt : n < 2 ^ 255) :
    isqrtAbove n b x = .ok (Nat.sqrt n) := by
  have hle : b + x / (b * 2) + 1 ≤ n := hn ▸ guess_le hb
  have hpos : 0 < b + x / (b * 2) + 1 := Nat.succ_pos _
  have hsum : b + x / (b * 2) + 1 + n / (b + x / (b * 2) + 1) ≤ n + 1 := Heron.add_div_le hpos hle
  have hroot : Heron.checkedLoop (2 ^ 256 - 1) n (b + x / (b * 2) + 1)
      (Heron.next n (b + x / (b * 2) + 1)) = some (Nat.sqrt n) :=
    Heron.checkedLoop_eq_sqrt (by omega) (by omega) hpos hle
      (hn ▸ lt_succ_guess_sq (by omega))
  simp only [isqrtAbove, u256]
  rw [okOr_checkBits (by omega), ok_bind, okOr_checkBits (by omega), ok_bind,
    okOr_checkBits (by omega), ok_bind]
  exact okOr_eq_ok.mpr hroot

end Root

/-! ## The result -/

/-- What the function accepts. -/
structure ZapInput (reserveIn amountIn : ℤ) (feeBps : ℕ) : Prop where
  reserve_pos : 0 < reserveIn
  reserve_le : reserveIn ≤ maxZapAmount
  amount_pos : 0 < amountIn
  amount_le : amountIn ≤ maxZapAmount
  fee_lt : feeBps < bpsDenominator

/-- Coefficient of the linear term of the equation `gamma * t ^ 2 + linear * t = 10000 * r * a`
that the balanced part `t` solves. -/
def linear (r gamma : ℕ) : ℕ := r * (bpsDenominator + gamma)

/-- The value under the root of its solution. -/
def discriminant (r a gamma : ℕ) : ℕ :=
  linear r gamma * linear r gamma + 4 * bpsDenominator * gamma * r * a

/-- The solution with a root rounded down and a quotient rounded up. -/
def swapPart (r a gamma : ℕ) : ℕ :=
  (Nat.sqrt (discriminant r a gamma) - linear r gamma + (2 * gamma - 1)) / (2 * gamma)

section Solution

variable {r a gamma t : ℕ}

theorem sq_eq_discriminant_add (r a gamma t : ℕ) :
    ((2 * gamma * t + linear r gamma : ℕ) : ℤ) * (2 * gamma * t + linear r gamma : ℕ) =
      discriminant r a gamma + 4 * gamma *
        (gamma * t * (r + t) - 10000 * r * (a - t)) := by
  simp only [discriminant, linear, bpsDenominator]
  push_cast
  ring

/-- A part is too small exactly when it stays below the root. -/
theorem sq_le_discriminant_iff (hgamma : 0 < gamma) :
    (2 * gamma * t + linear r gamma) * (2 * gamma * t + linear r gamma) ≤
        discriminant r a gamma ↔
      (gamma * t * (r + t) : ℤ) ≤ 10000 * r * (a - t) := by
  have hsq := sq_eq_discriminant_add r a gamma t
  have hpos : (0 : ℤ) < 4 * gamma := by positivity
  rw [← Nat.cast_le (α := ℤ), Nat.cast_mul, hsq]
  constructor
  · intro h
    have hmul : (4 * gamma : ℤ) * (gamma * t * (r + t) - 10000 * r * (a - t)) ≤ 4 * gamma * 0 := by
      linarith
    linarith [le_of_mul_le_mul_left hmul hpos]
  · intro h
    have hmul := mul_le_mul_of_nonneg_left (sub_nonpos.mpr h) hpos.le
    linarith

theorem linear_lt_sqrt (hr : 0 < r) (ha : 0 < a) (hgamma : 0 < gamma) :
    linear r gamma < Nat.sqrt (discriminant r a gamma) := by
  have hra : r ≤ r * a := Nat.le_mul_of_pos_right r ha
  have hrg : r ≤ r * gamma := Nat.le_mul_of_pos_right r hgamma
  have hrag : r * gamma ≤ gamma * r * a := by nlinarith
  rw [← Nat.succ_le_iff, Nat.le_sqrt, discriminant, linear, bpsDenominator]
  nlinarith

theorem swapPart_bounds (hgamma : 0 < gamma)
    (hlt : linear r gamma < Nat.sqrt (discriminant r a gamma)) :
    Nat.sqrt (discriminant r a gamma) ≤ 2 * gamma * swapPart r a gamma + linear r gamma ∧
      2 * gamma * swapPart r a gamma + linear r gamma <
        Nat.sqrt (discriminant r a gamma) + 2 * gamma := by
  unfold swapPart
  generalize Nat.sqrt (discriminant r a gamma) = root at hlt ⊢
  have hle := Nat.mul_div_le (root - linear r gamma + (2 * gamma - 1)) (2 * gamma)
  have hge := Nat.lt_mul_div_succ (root - linear r gamma + (2 * gamma - 1))
    (by omega : 0 < 2 * gamma)
  rw [Nat.mul_add, Nat.mul_one] at hge
  generalize 2 * gamma * ((root - linear r gamma + (2 * gamma - 1)) / (2 * gamma)) = m at hle hge ⊢
  omega

/-- Below the result, a part is at most the balanced one. -/
theorem balance_of_lt_swapPart (hr : 0 < r) (ha : 0 < a) (hgamma : 0 < gamma)
    (h : t < swapPart r a gamma) : (gamma * t * (r + t) : ℤ) ≤ 10000 * r * (a - t) := by
  obtain ⟨_, hhi⟩ := swapPart_bounds hgamma (linear_lt_sqrt hr ha hgamma)
  have hstep : 2 * gamma * (t + 1) ≤ 2 * gamma * swapPart r a gamma := Nat.mul_le_mul_left _ h
  have hroot : 2 * gamma * t + linear r gamma ≤ Nat.sqrt (discriminant r a gamma) := by
    rw [Nat.mul_add, Nat.mul_one] at hstep
    omega
  exact (sq_le_discriminant_iff hgamma).mp
    ((Nat.mul_le_mul hroot hroot).trans (Nat.sqrt_le _))

/-- Above the result, it is at least the balanced one. -/
theorem balance_of_swapPart_lt (hr : 0 < r) (ha : 0 < a) (hgamma : 0 < gamma)
    (h : swapPart r a gamma < t) : (10000 * r * (a - t) : ℤ) ≤ gamma * t * (r + t) := by
  obtain ⟨hlo, _⟩ := swapPart_bounds hgamma (linear_lt_sqrt hr ha hgamma)
  have hstep : 2 * gamma * (swapPart r a gamma + 1) ≤ 2 * gamma * t := Nat.mul_le_mul_left _ h
  have hroot : Nat.sqrt (discriminant r a gamma) + 1 ≤ 2 * gamma * t + linear r gamma := by
    rw [Nat.mul_add, Nat.mul_one] at hstep
    omega
  by_contra hlt
  have hsq := (sq_le_discriminant_iff hgamma).mpr (le_of_not_ge hlt)
  have hsucc := (Nat.mul_le_mul hroot hroot).trans hsq
  exact absurd (Nat.lt_succ_sqrt (discriminant r a gamma)) hsucc.not_gt

theorem swapPart_pos (hr : 0 < r) (ha : 0 < a) (hgamma : 0 < gamma) :
    0 < swapPart r a gamma := by
  have hlt := linear_lt_sqrt hr ha hgamma
  obtain ⟨hlo, _⟩ := swapPart_bounds hgamma hlt
  by_contra hzero
  rw [Nat.eq_zero_of_not_pos hzero] at hlo
  omega

theorem swapPart_le (hr : 0 < r) (ha : 0 < a) (hgamma : 0 < gamma) : swapPart r a gamma ≤ a := by
  by_contra hlt
  have hbalance := balance_of_lt_swapPart hr ha hgamma (not_le.mp hlt)
  have hpos : (0 : ℤ) < gamma * a * (r + a) := by positivity
  rw [sub_self, mul_zero] at hbalance
  exact hbalance.not_gt hpos

end Solution

section Totality

variable {r a gamma : ℕ}

theorem linear_lt (hr : r ≤ 2 ^ 96) (hgamma : gamma ≤ 10000) : linear r gamma < 2 ^ 111 := by
  have hle : linear r gamma ≤ 2 ^ 96 * 20000 :=
    Nat.mul_le_mul hr (Nat.add_le_add_left hgamma _)
  exact hle.trans_lt (by norm_num)

theorem discriminant_lt (hr : r ≤ 2 ^ 96) (ha : a ≤ 2 ^ 96) (hgamma : gamma ≤ 10000) :
    4 * bpsDenominator * gamma * r < 2 ^ 224 ∧ 4 * bpsDenominator * gamma * r * a < 2 ^ 224 ∧
      linear r gamma * linear r gamma < 2 ^ 224 ∧ discriminant r a gamma < 2 ^ 224 := by
  have hone : 4 * bpsDenominator * gamma * r ≤ 4 * 10000 * 10000 * 2 ^ 96 :=
    Nat.mul_le_mul (Nat.mul_le_mul_left _ hgamma) hr
  have htwo : 4 * bpsDenominator * gamma * r * a ≤ 4 * 10000 * 10000 * 2 ^ 96 * 2 ^ 96 :=
    Nat.mul_le_mul hone ha
  have hlinear := (linear_lt hr hgamma).le
  have hsq : linear r gamma * linear r gamma ≤ 2 ^ 111 * 2 ^ 111 :=
    Nat.mul_le_mul hlinear hlinear
  norm_num at hone htwo hsq
  rw [discriminant]
  refine ⟨?_, ?_, ?_, ?_⟩ <;> omega

end Totality

/-- No intermediate result leaves 256 bits. -/
theorem optimalSwapAmount_natCast {r a feeBps : ℕ} (h : ZapInput r a feeBps) :
    optimalSwapAmount r a feeBps = .ok (swapPart r a (bpsDenominator - feeBps) : ℕ) := by
  obtain ⟨hrpos, hrle, hapos, hale, hfee⟩ := h
  have hgamma : 0 < bpsDenominator - feeBps := Nat.sub_pos_of_lt hfee
  have hgle : bpsDenominator - feeBps ≤ 10000 := Nat.sub_le _ _
  simp only [optimalSwapAmount, bind_eq_ok, failIf_eq_ok, u256, okOr_eq_ok, checkBits_eq_some,
    checkedSub_eq_some, Option.bind_eq_some_iff, IntRange.check_eq_some, exists_const,
    Int.toNat_natCast]
  refine ⟨by omega, by omega, ?_⟩
  unfold maxZapAmount at hrle hale
  norm_cast at hrpos hrle hapos hale
  generalize bpsDenominator - feeBps = gamma at hgamma hgle ⊢
  obtain ⟨hone, htwo, hsq, hdisc⟩ := discriminant_lt hrle hale hgle
  have hlin : linear r gamma < 2 ^ 111 := linear_lt hrle hgle
  have hbase : 2 ≤ linear r gamma :=
    (by decide : 2 ≤ 1 * bpsDenominator).trans (Nat.mul_le_mul hrpos (Nat.le_add_right _ _))
  have hroot : isqrtAbove (discriminant r a gamma) _ _ = _ :=
    isqrtAbove_eq_sqrt rfl hbase (by omega)
  have hlt := linear_lt_sqrt hrpos hapos hgamma
  have hself := Nat.sqrt_le_self (discriminant r a gamma)
  have hle : swapPart r a gamma ≤ 2 ^ 96 := (swapPart_le hrpos hapos hgamma).trans hale
  exact ⟨_, ⟨hlin.trans (by norm_num), rfl⟩, _, ⟨hone.trans (by norm_num), rfl⟩, _,
    ⟨htwo.trans (by norm_num), rfl⟩, _, ⟨hsq.trans (by norm_num), rfl⟩, _,
    ⟨hdisc.trans (by norm_num), rfl⟩, _, hroot, _, ⟨hlt.le, rfl⟩, _, ⟨by omega, rfl⟩, _,
    ⟨hle.trans_lt (by norm_num), rfl⟩, fits_natCast_iff.mpr (hle.trans_lt (by norm_num)), rfl⟩

theorem optimalSwapAmount_eq_ok {reserveIn amountIn s : ℤ} {feeBps : ℕ} :
    optimalSwapAmount reserveIn amountIn feeBps = .ok s ↔ ZapInput reserveIn amountIn feeBps ∧
      swapPart reserveIn.toNat amountIn.toNat (bpsDenominator - feeBps) = s := by
  have hok : ZapInput reserveIn amountIn feeBps → optimalSwapAmount reserveIn amountIn feeBps =
      .ok (swapPart reserveIn.toNat amountIn.toNat (bpsDenominator - feeBps) : ℕ) := by
    intro h
    lift reserveIn to ℕ using h.reserve_pos.le
    lift amountIn to ℕ using h.amount_pos.le
    exact optimalSwapAmount_natCast h
  constructor
  · intro h
    have hvalid : ZapInput reserveIn amountIn feeBps := by
      simp only [optimalSwapAmount, bind_eq_ok, failIf_eq_ok] at h
      obtain ⟨_, hpos, _, hle, _⟩ := h
      constructor <;> omega
    exact ⟨hvalid, Except.ok.inj ((hok hvalid).symm.trans h)⟩
  · rintro ⟨hvalid, rfl⟩
    exact hok hvalid

/-! ## What a split is worth -/

/-- What a pool pays for an amount `t` of which the part `g` is left after the fee. -/
def poolOutput (g reserveIn reserveOut t : ℚ) : ℚ := reserveOut * (g * t) / (reserveIn + g * t)

/-- The rest of a deposit as a part of the reserve it is added to after `t` was swapped. -/
def keptShare (reserveIn amountIn t : ℚ) : ℚ := (amountIn - t) / (reserveIn + t)

/-- The output of the swap as a part of the reserve it is added to. -/
def pairedShare (g reserveIn reserveOut t : ℚ) : ℚ :=
  poolOutput g reserveIn reserveOut t / (reserveOut - poolOutput g reserveIn reserveOut t)

/-- The part of the pool's liquidity that a deposit gets in exact arithmetic when `t` of it is
swapped first: the smaller leg counts. -/
def zapShare (g reserveIn reserveOut amountIn t : ℚ) : ℚ :=
  min (keptShare reserveIn amountIn t) (pairedShare g reserveIn reserveOut t)

/-- What the fee leaves of an amount. -/
def feeFactor (feeBps : ℕ) : ℚ := (bpsDenominator - feeBps : ℕ) / bpsDenominator

section Shares

variable {g r p a t t' : ℚ}

/-- The other reserve does not matter. -/
theorem pairedShare_eq (hg : 0 ≤ g) (hr : 0 < r) (hp : 0 < p) (ht : 0 ≤ t) :
    pairedShare g r p t = g * t / r := by
  have hsum : 0 < r + g * t := by positivity
  have hrest : p - p * (g * t) / (r + g * t) = p * r / (r + g * t) := by
    field_simp
    ring
  rw [pairedShare, poolOutput, hrest, div_div_div_cancel_right₀ hsum.ne',
    mul_div_mul_left _ _ hp.ne']

theorem keptShare_eq (hr : 0 < r) (ht : 0 ≤ t) : keptShare r a t = (r + a) / (r + t) - 1 := by
  have hsum : 0 < r + t := by positivity
  rw [keptShare]
  field_simp
  ring

theorem keptShare_antitone (hr : 0 < r) (ha : 0 ≤ a) (ht : 0 ≤ t) (h : t ≤ t') :
    keptShare r a t' ≤ keptShare r a t := by
  rw [keptShare_eq hr ht, keptShare_eq hr (ht.trans h)]
  gcongr

theorem zapShare_eq (hg : 0 ≤ g) (hr : 0 < r) (hp : 0 < p) (ht : 0 ≤ t) :
    zapShare g r p a t = min (keptShare r a t) (g * t / r) := by
  rw [zapShare, pairedShare_eq hg hr hp ht]

/-- The legs match where the equation holds. -/
theorem paired_le_keptShare_iff (hr : 0 < r) (ht : 0 ≤ t) :
    g * t / r ≤ keptShare r a t ↔ g * t * (r + t) ≤ r * (a - t) := by
  have hsum : 0 < r + t := by positivity
  rw [keptShare, div_le_div_iff₀ hr hsum, mul_comm (a - t)]

theorem keptShare_le_paired_iff (hr : 0 < r) (ht : 0 ≤ t) :
    keptShare r a t ≤ g * t / r ↔ r * (a - t) ≤ g * t * (r + t) := by
  have hsum : 0 < r + t := by positivity
  rw [keptShare, div_le_div_iff₀ hsum hr, mul_comm (a - t)]

/-- A part that is no longer too small loses little to one unit less. -/
theorem keptShare_pred_le (hg1 : g ≤ 1) (hr : 0 < r) (ht : 1 ≤ t)
    (h : keptShare r a t ≤ g * t / r) :
    keptShare r a (t - 1) ≤ keptShare r a t + (r + 1) / r ^ 2 := by
  have ht0 : 0 ≤ t := zero_le_one.trans ht
  rw [keptShare_eq hr ht0] at h
  rw [keptShare_eq hr ht0, keptShare_eq hr (sub_nonneg.mpr ht)]
  have hsum : 0 < r + t := by positivity
  have hpred : 0 < r + (t - 1) := by linarith
  have hquot : (r + a) / (r + t) ≤ (r + t) / r := by
    have hgt : g * t / r ≤ t / r := by gcongr; nlinarith
    have hsplit : (r + t) / r = 1 + t / r := by field_simp
    linarith
  have hdiff : (r + a) / (r + (t - 1)) - (r + a) / (r + t) =
      (r + a) / (r + t) / (r + (t - 1)) := by
    field_simp
    ring
  have hbound : (r + t) / r / (r + (t - 1)) ≤ (r + 1) / r ^ 2 := by
    rw [div_div, div_le_div_iff₀ (by positivity) (by positivity)]
    nlinarith
  have hstep : (r + a) / (r + t) / (r + (t - 1)) ≤ (r + t) / r / (r + (t - 1)) := by gcongr
  linarith

/-- Where the shares cross between two neighbours. -/
theorem crossing_of_balance {a lo : ℤ} (hr : 0 < r) (hg : 0 ≤ g) (h0 : 0 ≤ lo) (hle : lo + 1 ≤ a)
    (hbelow : g * lo / r ≤ keptShare r a lo)
    (habove : keptShare r a (lo + 1 : ℤ) ≤ g * (lo + 1 : ℤ) / r) :
    Crossing (fun t : ℤ => keptShare r a t) (fun t : ℤ => g * t / r) (Set.Icc 0 a) lo (lo + 1) where
  falls t ht t' _ h := by
    have ha : (0 : ℚ) ≤ a := by exact_mod_cast ht.1.trans ht.2
    exact keptShare_antitone hr ha (by exact_mod_cast ht.1) (by exact_mod_cast h)
  rises t _ t' _ h := by
    have hcast : (t : ℚ) ≤ t' := by exact_mod_cast h
    dsimp only
    gcongr
  lo_mem := ⟨h0, by omega⟩
  hi_mem := ⟨by omega, hle⟩
  below := hbelow
  above := habove
  gap t _ := by omega

end Shares

/-- A part of a deposit whose share is the best one or a neighbour of it, and short of it by
little more than one unit of the reserve. -/
structure NearlyBest (g : ℚ) (reserveIn amountIn s : ℤ) : Prop where
  pos : 0 < s
  le_amount : s ≤ amountIn
  best_near : ∃ best : ℤ, |best - s| ≤ 1 ∧ 0 ≤ best ∧ best ≤ amountIn ∧
    ∀ reserveOut : ℚ, 0 < reserveOut → ∀ t : ℤ, 0 ≤ t → t ≤ amountIn →
      zapShare g reserveIn reserveOut amountIn t ≤ zapShare g reserveIn reserveOut amountIn best
  loss_le : ∀ reserveOut : ℚ, 0 < reserveOut → ∀ t : ℤ, 0 ≤ t → t ≤ amountIn →
    zapShare g reserveIn reserveOut amountIn t ≤
      zapShare g reserveIn reserveOut amountIn s + (reserveIn + 1) / (reserveIn : ℚ) ^ 2

section Best

variable {g : ℚ} {r a s lo : ℤ}

theorem nearlyBest_of_crossing (hg : 0 ≤ g) (hr : 0 < r) (hs : 0 < s) (hsa : s ≤ a)
    (h : Crossing (fun t : ℤ => keptShare r a t) (fun t : ℤ => g * t / r) (Set.Icc 0 a) lo (lo + 1))
    (hnear : s = lo ∨ s = lo + 1)
    (hlo : g * lo / r ≤ min (keptShare r a s) (g * s / r) + (r + 1) / (r : ℚ) ^ 2)
    (hhi : keptShare r a (lo + 1 : ℤ) ≤
      min (keptShare r a s) (g * s / r) + (r + 1) / (r : ℚ) ^ 2) : NearlyBest g r a s := by
  have hrat : (0 : ℚ) < r := by exact_mod_cast hr
  have hshare : ∀ p : ℚ, 0 < p → ∀ t : ℤ, 0 ≤ t →
      zapShare g r p a t = min (keptShare r a t) (g * t / r) :=
    fun p hp t ht => zapShare_eq hg hrat hp (by exact_mod_cast ht)
  obtain ⟨best, hside, hbest⟩ := h.exists_best
  have hmem : best ∈ Set.Icc 0 a := by
    rcases hside with rfl | rfl
    · exact h.lo_mem
    · exact h.hi_mem
  refine ⟨hs, hsa, ⟨best, by rw [abs_le]; omega, hmem.1, hmem.2, fun p hp t ht hta => ?_⟩,
    fun p hp t ht hta => ?_⟩
  · rw [hshare p hp t ht, hshare p hp best hmem.1]
    exact hbest t ⟨ht, hta⟩
  · rw [hshare p hp t ht, hshare p hp s hs.le]
    exact (h.min_le ⟨ht, hta⟩).trans (max_le hlo hhi)

/-- The part is too small or just right. -/
theorem nearlyBest_of_below (hg : 0 < g) (hg1 : g ≤ 1) (hr : 0 < r) (hs : 0 < s) (hsa : s ≤ a)
    (hbelow : g * s / r ≤ keptShare r a s)
    (habove : keptShare r a (s + 1 : ℤ) ≤ g * (s + 1 : ℤ) / r) : NearlyBest g r a s := by
  have hrat : (0 : ℚ) < r := by exact_mod_cast hr
  have hsrat : (0 : ℚ) < s := by exact_mod_cast hs
  have hlt : s < a := by
    refine lt_of_le_of_ne hsa ?_
    rintro rfl
    have hpos : 0 < g * s / r := by positivity
    rw [keptShare, sub_self, zero_div] at hbelow
    exact hbelow.not_gt hpos
  have hmin : min (keptShare r a s) (g * s / r) = g * s / r := min_eq_right hbelow
  have hunit : g / r ≤ (r + 1) / (r : ℚ) ^ 2 := by
    rw [div_le_div_iff₀ hrat (by positivity)]
    nlinarith
  have hnonneg : 0 ≤ g / r := by positivity
  refine nearlyBest_of_crossing hg.le hr hs hsa
    (crossing_of_balance hrat hg.le hs.le hlt hbelow habove) (.inl rfl) ?_ ?_
  · rw [hmin]
    linarith
  · have hsplit : g * (s + 1 : ℤ) / r = g * s / r + g / r := by
      push_cast
      ring
    rw [hmin]
    linarith

/-- The part is too large or just right. -/
theorem nearlyBest_of_above (hg : 0 < g) (hg1 : g ≤ 1) (hr : 0 < r) (hs : 0 < s) (hsa : s ≤ a)
    (hbelow : g * (s - 1 : ℤ) / r ≤ keptShare r a (s - 1 : ℤ))
    (habove : keptShare r a s ≤ g * s / r) : NearlyBest g r a s := by
  have hrat : (0 : ℚ) < r := by exact_mod_cast hr
  have hone : (1 : ℚ) ≤ s := by exact_mod_cast hs
  have hmin : min (keptShare r a s) (g * s / r) = keptShare r a s := min_eq_left habove
  have hnonneg : 0 ≤ (r + 1) / (r : ℚ) ^ 2 := by positivity
  have hpred := keptShare_pred_le hg1 hrat hone habove
  have hback : s - 1 + 1 = s := sub_add_cancel s 1
  refine nearlyBest_of_crossing hg.le hr hs hsa
    (crossing_of_balance hrat hg.le (by omega) (by omega) hbelow (by rwa [hback]))
    (.inr hback.symm) ?_ ?_
  · rw [hmin]
    push_cast at hbelow ⊢
    linarith
  · rw [hback, hmin]
    linarith

end Best

section Result

variable {r a gamma t : ℕ}

theorem paired_le_keptShare (hr : 0 < r) (h : (gamma * t * (r + t) : ℤ) ≤ 10000 * r * (a - t)) :
    (gamma / bpsDenominator : ℚ) * t / r ≤ keptShare r a t := by
  have hrat : (gamma * t * (r + t) : ℚ) ≤ 10000 * r * (a - t) := by exact_mod_cast h
  rw [paired_le_keptShare_iff (by exact_mod_cast hr) (Nat.cast_nonneg t), bpsDenominator]
  push_cast
  linarith

theorem keptShare_le_paired (hr : 0 < r) (h : (10000 * r * (a - t) : ℤ) ≤ gamma * t * (r + t)) :
    keptShare r a t ≤ (gamma / bpsDenominator : ℚ) * t / r := by
  have hrat : (10000 * r * (a - t) : ℚ) ≤ gamma * t * (r + t) := by exact_mod_cast h
  rw [keptShare_le_paired_iff (by exact_mod_cast hr) (Nat.cast_nonneg t), bpsDenominator]
  push_cast
  linarith

theorem swapPart_nearlyBest (hr : 0 < r) (ha : 0 < a) (hgamma : 0 < gamma)
    (hle : gamma ≤ bpsDenominator) :
    NearlyBest (gamma / bpsDenominator) r a (swapPart r a gamma : ℕ) := by
  have hden : (0 : ℚ) < bpsDenominator := by norm_num [bpsDenominator]
  have hg : (0 : ℚ) < gamma / bpsDenominator := div_pos (by exact_mod_cast hgamma) hden
  have hg1 : (gamma / bpsDenominator : ℚ) ≤ 1 := (div_le_one hden).mpr (by exact_mod_cast hle)
  have hpos := swapPart_pos hr ha hgamma
  have hsa := swapPart_le hr ha hgamma
  have hlow := fun t => balance_of_lt_swapPart (t := t) hr ha hgamma
  have hhigh := fun t => balance_of_swapPart_lt (t := t) hr ha hgamma
  generalize swapPart r a gamma = s at hpos hsa hlow hhigh ⊢
  rcases le_total ((gamma / bpsDenominator : ℚ) * s / r) (keptShare r a s) with hside | hside
  · have hnext := keptShare_le_paired hr (hhigh (s + 1) (Nat.lt_succ_self s))
    exact nearlyBest_of_below hg hg1 (by exact_mod_cast hr) (by exact_mod_cast hpos)
      (by exact_mod_cast hsa) (by exact_mod_cast hside) (by exact_mod_cast hnext)
  · obtain ⟨k, rfl⟩ := Nat.exists_eq_add_of_lt hpos
    rw [Nat.zero_add] at *
    have hprev := paired_le_keptShare hr (hlow k (Nat.lt_succ_self k))
    refine nearlyBest_of_above hg hg1 (by exact_mod_cast hr) (by exact_mod_cast hpos)
      (by exact_mod_cast hsa) ?_ (by exact_mod_cast hside)
    rw [Nat.cast_succ, add_sub_cancel_right]
    exact_mod_cast hprev

end Result

theorem optimalSwapAmount_spec {reserveIn amountIn s : ℤ} {feeBps : ℕ}
    (h : optimalSwapAmount reserveIn amountIn feeBps = .ok s) :
    NearlyBest (feeFactor feeBps) reserveIn amountIn s := by
  obtain ⟨hvalid, rfl⟩ := optimalSwapAmount_eq_ok.mp h
  have hrpos := hvalid.reserve_pos
  have hapos := hvalid.amount_pos
  lift reserveIn to ℕ using hrpos.le
  lift amountIn to ℕ using hapos.le
  exact swapPart_nearlyBest (by exact_mod_cast hrpos) (by exact_mod_cast hapos)
    (Nat.sub_pos_of_lt hvalid.fee_lt) (Nat.sub_le _ _)

/-- The part to swap is found exactly for reserves and amounts in range and a fee below the
whole. No other part of the amount gets a share of the pool that is larger by more than a unit
of the reserve, and the best part is at most one unit away. -/
theorem optimalSwapAmount_nearlyBest (reserveIn amountIn : ℤ) (feeBps : ℕ) :
    ((∃ s, optimalSwapAmount reserveIn amountIn feeBps = .ok s) ↔
      ZapInput reserveIn amountIn feeBps) ∧
    ∀ s, optimalSwapAmount reserveIn amountIn feeBps = .ok s →
      NearlyBest (feeFactor feeBps) reserveIn amountIn s := by
  refine ⟨⟨?_, fun h => ⟨_, optimalSwapAmount_eq_ok.mpr ⟨h, rfl⟩⟩⟩, fun _ => optimalSwapAmount_spec⟩
  rintro ⟨s, h⟩
  exact (optimalSwapAmount_eq_ok.mp h).1

end StellarFlow.Vaults.YieldStrategy
