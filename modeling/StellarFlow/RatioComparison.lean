import StellarFlow.Host
import StellarFlow.Foundation.RatioCompare

/-!
# The ratio comparison on machine integers

The collateral module compares ratios of unsigned 128-bit values and the mathematics module
those of signed ones, by the same loop. Here every division is the checked one of its type, so
that a result also says that nothing overflowed on the way.
-/
namespace StellarFlow

open Foundation

theorem u128_lo_nonpos : (0 : ℤ) ≤ 0 := le_rfl

theorem u128_hi_nonneg : (0 : ℤ) ≤ 2 ^ 128 - 1 := by norm_num

def u128 : IntRange := ⟨0, 2 ^ 128 - 1, u128_lo_nonpos, u128_hi_nonneg⟩

/-- The loop on values of a machine type. A zero divisor and a quotient out of range trap. -/
def ratioGeLoop (w : IntRange) (directionGe : Bool) (a b c d : ℤ) : Except Fault Bool :=
  if _ : b = 0 ∨ d = 0 then .error .trap
  else do
    let qa ← okOr (w.check (a.tdiv b)) .trap
    let qc ← okOr (w.check (c.tdiv d)) .trap
    if qa ≠ qc then pure (if directionGe then decide (qc < qa) else decide (qa < qc))
    else if a.tmod b = 0 ∧ c.tmod d = 0 then pure true
    else if a.tmod b = 0 then pure !directionGe
    else if c.tmod d = 0 then pure directionGe
    else ratioGeLoop w (!directionGe) b (a.tmod b) d (c.tmod d)
termination_by b.natAbs
decreasing_by
  rw [Int.natAbs_tmod]
  exact Nat.mod_lt _ (by omega)

/-- The comparison of the collateral module. -/
def AnchorCollateral.ratioGe (a b c d : ℤ) : Except Fault Bool := ratioGeLoop u128 true a b c d

/-- The comparison of the mathematics module. -/
def Math.ratioGe (a b c d : ℤ) : Except Fault Bool := ratioGeLoop i128 true a b c d

section Loop

variable {w : IntRange} {a b c d : ℕ}

theorem fits_div (ha : w.Fits a) : w.check ((a : ℤ).tdiv b) = some ((a / b : ℕ) : ℤ) := by
  have hle : ((a / b : ℕ) : ℤ) ≤ a := by exact_mod_cast Nat.div_le_self a b
  rw [Int.tdiv_eq_ediv_of_nonneg (Int.natCast_nonneg a), ← Int.natCast_ediv]
  exact (ha.of_abs_le (Int.natCast_nonneg _) hle).check_eq

theorem tmod_natCast (x y : ℕ) : (x : ℤ).tmod y = ((x % y : ℕ) : ℤ) := rfl

/-- On natural numbers of the type the loop answers as the comparison without bounds does. The
values of the next round are divisors and remainders of this one, and so fit as well. -/
theorem ratioGeLoop_natCast (ge : Bool) (hb : 0 < b) (hd : 0 < d) (ha : w.Fits a)
    (hb' : w.Fits b) (hc : w.Fits c) (hd' : w.Fits d) :
    ratioGeLoop w ge a b c d = .ok (ratioLoop ge a b c d) := by
  induction b using Nat.strong_induction_on generalizing ge a c d with
  | _ b ih =>
    have hz : ¬ ((b : ℤ) = 0 ∨ (d : ℤ) = 0) := by omega
    rw [ratioGeLoop, dif_neg hz, fits_div ha, okOr_some, ok_bind, fits_div hc, okOr_some, ok_bind,
      tmod_natCast, tmod_natCast, ratioLoop, if_neg (show ¬ (b = 0 ∨ d = 0) by omega)]
    simp only [ne_eq, Nat.cast_inj, Nat.cast_lt, Nat.cast_eq_zero]
    split_ifs with hq hboth ha0 hc0
    all_goals try rfl
    have hra : w.Fits (a % b : ℕ) :=
      hb'.of_abs_le (Int.natCast_nonneg _) (by exact_mod_cast (Nat.mod_lt a hb).le)
    have hrc : w.Fits (c % d : ℕ) :=
      hd'.of_abs_le (Int.natCast_nonneg _) (by exact_mod_cast (Nat.mod_lt c hd).le)
    exact ih (a % b) (Nat.mod_lt a hb) (!ge) (Nat.pos_of_ne_zero ha0) (Nat.pos_of_ne_zero hc0) hb'
      hra hd' hrc

/-- The same at nonnegative values. -/
theorem ratioGeLoop_eq_ok {a b c d : ℤ} (ge : Bool) (h0a : 0 ≤ a) (hb : 0 < b) (h0c : 0 ≤ c)
    (hd : 0 < d) (ha : w.Fits a) (hb' : w.Fits b) (hc : w.Fits c) (hd' : w.Fits d) :
    ratioGeLoop w ge a b c d = .ok (ratioLoop ge a.toNat b.toNat c.toNat d.toNat) := by
  lift a to ℕ using h0a
  lift b to ℕ using hb.le
  lift c to ℕ using h0c
  lift d to ℕ using hd.le
  exact ratioGeLoop_natCast ge (by omega) (by omega) ha hb' hc hd'

theorem ratioGeLoop_true {a b c d : ℤ} (h0a : 0 ≤ a) (hb : 0 < b) (h0c : 0 ≤ c) (hd : 0 < d)
    (ha : w.Fits a) (hb' : w.Fits b) (hc : w.Fits c) (hd' : w.Fits d) :
    ratioGeLoop w true a b c d = .ok (decide (c * b ≤ a * d)) := by
  rw [ratioGeLoop_eq_ok true h0a hb h0c hd ha hb' hc hd', Except.ok.injEq, Bool.eq_iff_iff,
    decide_eq_true_eq, ratioLoop_iff true _ _ _ _ (by omega) (by omega), if_pos rfl]
  zify
  rw [Int.toNat_of_nonneg h0a, Int.toNat_of_nonneg hb.le, Int.toNat_of_nonneg h0c,
    Int.toNat_of_nonneg hd.le]

/-- The comparison that the models of the two modules call is the checked one. -/
theorem AnchorCollateral.ratioGe_natCast (hb : 0 < b) (hd : 0 < d) (ha : u128.Fits a)
    (hb' : u128.Fits b) (hc : u128.Fits c) (hd' : u128.Fits d) :
    AnchorCollateral.ratioGe a b c d = .ok (Foundation.ratioGe a b c d) :=
  ratioGeLoop_natCast true hb hd ha hb' hc hd'

theorem Math.ratioGe_natCast (hb : 0 < b) (hd : 0 < d) (ha : i128.Fits a) (hb' : i128.Fits b)
    (hc : i128.Fits c) (hd' : i128.Fits d) :
    Math.ratioGe a b c d = .ok (Foundation.ratioGe a b c d) :=
  ratioGeLoop_natCast true hb hd ha hb' hc hd'

end Loop

/-- Both comparisons terminate without an overflow and answer as cross multiplication does. -/
theorem ratioGe_eq_cross :
    (∀ a b c d : u128.Value, 0 < b.1 → 0 < d.1 →
      AnchorCollateral.ratioGe a b c d = .ok (decide (c * b ≤ (a * d : ℤ)))) ∧
    (∀ a b c d : i128.Value, 0 ≤ a.1 → 0 < b.1 → 0 ≤ c.1 → 0 < d.1 →
      Math.ratioGe a b c d = .ok (decide (c * b ≤ (a * d : ℤ)))) :=
  ⟨fun a b c d hb hd => ratioGeLoop_true a.2.1 hb c.2.1 hd a.2 b.2 c.2 d.2,
    fun a b c d ha hb hc hd => ratioGeLoop_true ha hb hc hd a.2 b.2 c.2 d.2⟩

/-- A ratio of 120 percent reaches a floor of 120 percent in both modules. -/
theorem ratioGe_sample :
    AnchorCollateral.ratioGe 1200 1000 12000 10000 = .ok true ∧
      Math.ratioGe 1200 1000 12000 10000 = .ok true :=
  ⟨ratioGe_eq_cross.1 ⟨1200, by decide⟩ ⟨1000, by decide⟩ ⟨12000, by decide⟩ ⟨10000, by decide⟩
      (by decide) (by decide),
    ratioGe_eq_cross.2 ⟨1200, by decide⟩ ⟨1000, by decide⟩ ⟨12000, by decide⟩ ⟨10000, by decide⟩
      (by decide) (by decide) (by decide) (by decide)⟩

end StellarFlow
