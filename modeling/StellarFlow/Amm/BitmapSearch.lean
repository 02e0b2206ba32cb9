import StellarFlow.Amm.TickBitmap

/-!
# Searching the tick bitmap

A search by words finds what a search of the set finds. One word either holds the nearest tick
or takes the search past everything up to its end, so the loop never skips a tick. Every miss
brings the end of the usable range one word closer, and 4688 words reach across it.
-/
namespace StellarFlow.Amm.TickBitmap

open Foundation

/-- The tick lies in the direction of the search. -/
def Ahead (lte : Bool) (tick s : ℤ) : Prop := if lte then s ≤ tick else tick < s

/-- The nearest tick of the set in the direction of the search. -/
def IsNearest (lte : Bool) (ticks : Finset ℤ) (tick n : ℤ) : Prop :=
  if lte then IsGreatest {s | s ∈ ticks ∧ s ≤ tick} n else IsLeast {s | s ∈ ticks ∧ tick < s} n

/-- The tick lies between the start and the end of a search, in its direction. -/
def Between (lte : Bool) (tick n s : ℤ) : Prop := if lte then n ≤ s ∧ s ≤ tick else tick < s ∧ s ≤ n

/-- The number of words that reach across the range of ticks at any spacing. -/
def wordsInRange : ℕ := 4688

/-- Where the search goes on after a word without a tick. -/
def stepPast (lte : Bool) (next : ℤ) : ℤ := if lte then next - 1 else next

/-- The last usable tick in the direction of the search. -/
def lastTick (tickSpacing : ℤ) (lte : Bool) : ℤ :=
  if lte then minUsableTick tickSpacing else maxUsableTick tickSpacing

def ReachedEnd (tickSpacing : ℤ) (lte : Bool) (next : ℤ) : Prop :=
  if lte then next ≤ lastTick tickSpacing lte else lastTick tickSpacing lte ≤ next

instance (tickSpacing : ℤ) : ∀ lte next, Decidable (ReachedEnd tickSpacing lte next)
  | true, _ => inferInstanceAs (Decidable (_ ≤ _))
  | false, _ => inferInstanceAs (Decidable (_ ≤ _))

/-- Words from the one that a search looks at to that of the last usable tick. -/
def wordsLeft (tickSpacing : ℤ) (lte : Bool) (tick : ℤ) : ℕ :=
  if lte then (tick / tickSpacing / 128 - -(maxTick / tickSpacing) / 128).toNat
  else (maxTick / tickSpacing / 128 - (tick / tickSpacing + 1) / 128).toNat

/-- What a word without a tick tells: the search passes no tick of the set, and unless it is at
the end it goes on one word further. -/
structure Missed (tickSpacing : ℤ) (lte : Bool) (ticks : Finset ℤ) (tick next : ℤ) : Prop where
  passed : ∀ s ∈ ticks, Ahead lte tick s → Ahead lte (stepPast lte next) s
  onward : ¬ ReachedEnd tickSpacing lte next → InRange (stepPast lte next) ∧
    (∀ s, Ahead lte (stepPast lte next) s → Ahead lte tick s) ∧
    wordsLeft tickSpacing lte (stepPast lte next) + 1 = wordsLeft tickSpacing lte tick

section Spacing

variable {tickSpacing tick : ℤ}

theorem minUsableTick_eq (tickSpacing : ℤ) :
    minUsableTick tickSpacing = -(maxTick / tickSpacing) * tickSpacing := by
  rw [minUsableTick, show minTick = -maxTick from rfl, Int.neg_tdiv,
    Int.tdiv_eq_ediv_of_nonneg (by decide)]

theorem maxUsableTick_eq (tickSpacing : ℤ) :
    maxUsableTick tickSpacing = maxTick / tickSpacing * tickSpacing := by
  rw [maxUsableTick, Int.tdiv_eq_ediv_of_nonneg (by decide)]

theorem usableTicks_inRange (hs : ValidSpacing tickSpacing) : minTick ≤ minUsableTick tickSpacing ∧
    minUsableTick tickSpacing ≤ maxUsableTick tickSpacing ∧
    maxUsableTick tickSpacing ≤ maxTick := by
  have htop : maxTick / tickSpacing * tickSpacing ≤ maxTick := Int.ediv_mul_le maxTick hs.1.ne'
  have hnonneg : 0 ≤ maxTick / tickSpacing * tickSpacing :=
    mul_nonneg (Int.ediv_nonneg (by decide) hs.1.le) hs.1.le
  have hopp : minTick = -maxTick := rfl
  rw [minUsableTick_eq, maxUsableTick_eq, neg_mul]
  omega

/-- The bits that ticks in range are compressed to, rounding down. -/
theorem compressed_bounds (hs : ValidSpacing tickSpacing) (ht : InRange tick) :
    -(maxTick / tickSpacing) - 1 ≤ tick / tickSpacing ∧
      tick / tickSpacing ≤ maxTick / tickSpacing := by
  obtain ⟨h0, h1⟩ := ht
  constructor
  · rw [Int.le_ediv_iff_mul_le hs.1]
    have hlt := Int.lt_ediv_add_one_mul_self maxTick hs.1
    have hmin : minTick = -maxTick := rfl
    linarith
  · exact Int.ediv_le_ediv hs.1 h1

/-- A word beyond the range a product with the spacing still has its type. -/
theorem decompress_eq_ok (hs : ValidSpacing tickSpacing) {c : ℤ}
    (hlo : -(maxTick / tickSpacing) - 128 ≤ c) (hhi : c ≤ maxTick / tickSpacing + 128) :
    decompress c tickSpacing = .ok (c * tickSpacing) := by
  have htop : maxTick / tickSpacing * tickSpacing ≤ 300000 := Int.ediv_mul_le maxTick hs.1.ne'
  have hword : 128 * tickSpacing ≤ 2097152 := by
    have hmax : tickSpacing ≤ 16384 := hs.2
    omega
  have hlow := Int.mul_le_mul_of_nonneg_right hlo hs.1.le
  have hhigh := Int.mul_le_mul_of_nonneg_right hhi hs.1.le
  rw [sub_mul, neg_mul] at hlow
  rw [add_mul] at hhigh
  have hfits : i32.Fits (c * tickSpacing) := by
    constructor
    · have hlo32 : i32.lo = -2147483648 := rfl
      omega
    · have hhi32 : i32.hi = 2147483647 := rfl
      omega
  rw [decompress, hfits.check_eq, okOr_some]

theorem usable_mul (hs : ValidSpacing tickSpacing) {c : ℤ}
    (h : Usable tickSpacing (c * tickSpacing)) :
    -(maxTick / tickSpacing) ≤ c ∧ c ≤ maxTick / tickSpacing := by
  obtain ⟨⟨hmin, hmax⟩, _⟩ := h
  have hle := (Int.le_ediv_iff_mul_le hs.1).mpr hmax
  have hneg : -c * tickSpacing ≤ maxTick := by
    have hopp : minTick = -maxTick := rfl
    rw [neg_mul]
    omega
  have hge := (Int.le_ediv_iff_mul_le hs.1).mpr hneg
  omega

end Spacing

/-! ## One word -/

section Word

variable {tickSpacing : ℤ} {words : Words} {ticks : Finset ℤ} {c : ℤ}

theorem Holds.notMem_of_clear (hw : Holds tickSpacing words ticks)
    (h : Bitmap.bitAt (loadWord words) c = false) : c * tickSpacing ∉ ticks := by
  rw [hw.bits, decide_eq_false_iff_not] at h
  exact h

theorem Holds.mem_of_set (hw : Holds tickSpacing words ticks)
    (h : Bitmap.bitAt (loadWord words) c = true) : c * tickSpacing ∈ ticks := by
  rw [hw.bits, decide_eq_true_eq] at h
  exact h

/-- Both directions in terms of masked words. -/
theorem searchDown_eq (words : Words) (c tickSpacing : ℤ) : searchDown words c tickSpacing =
    (let bit := (c % (128 : ℕ)).toNat
    let masked := Bitmap.upTo (loadWord words (c / (128 : ℕ))) bit
    if masked ≠ 0#128 then do
      let back ← okOr (checkedSub bit (128 - 1 - masked.clz.toNat)) .trap
      let next ← decompress (c - back) tickSpacing
      pure (next, true)
    else do
      let next ← decompress (c - bit) tickSpacing
      pure (next, false)) := rfl

theorem searchUp_eq (words : Words) (c tickSpacing : ℤ) : searchUp words c tickSpacing =
    (let bit := (c % (128 : ℕ)).toNat
    let masked := Bitmap.fromOn (loadWord words (c / (128 : ℕ))) bit
    if masked ≠ 0#128 then do
      let ahead ← okOr (checkedSub masked.ctz.toNat bit) .trap
      let next ← decompress (c + ahead) tickSpacing
      pure (next, true)
    else do
      let ahead ← okOr (checkedSub (128 - 1) bit) .trap
      let next ← decompress (c + ahead) tickSpacing
      pure (next, false)) := rfl

theorem searchDown_spec (hs : ValidSpacing tickSpacing) (hw : Holds tickSpacing words ticks)
    (hlo : -(maxTick / tickSpacing) - 1 ≤ c) (hhi : c ≤ maxTick / tickSpacing) :
    ∃ d found, searchDown words c tickSpacing = .ok (d * tickSpacing, found) ∧ d ≤ c ∧
      (found = true → d * tickSpacing ∈ ticks ∧ ∀ d', d < d' → d' ≤ c → d' * tickSpacing ∉ ticks) ∧
      (found = false → d = c / 128 * 128 ∧ ∀ d', d ≤ d' → d' ≤ c → d' * tickSpacing ∉ ticks) := by
  have hbit : (c % (128 : ℕ)).toNat < 128 := by omega
  rw [searchDown_eq]
  dsimp only
  by_cases hx : Bitmap.upTo (loadWord words (c / (128 : ℕ))) (c % (128 : ℕ)).toNat = 0#128
  · have hmiss := Bitmap.down_miss (by norm_num) hx
    refine ⟨c - (c % (128 : ℕ)).toNat, false, ?_, by omega, nofun, fun _ => ⟨by omega, ?_⟩⟩
    · rw [if_neg (not_not.mpr hx), decompress_eq_ok hs (by omega) (by omega)]
      rfl
    · exact fun d' h1 h2 => hw.notMem_of_clear (hmiss d' h1 h2)
  · obtain ⟨j, hj, hle, hset, hclear⟩ := Bitmap.down_hit (by norm_num) hx
    refine ⟨c - ((c % (128 : ℕ)).toNat - j : ℕ), true, ?_, by omega, fun _ => ⟨?_, ?_⟩, nofun⟩
    · rw [if_pos hx, hj, checkedSub_eq_some.mpr ⟨hle, rfl⟩, okOr_some, ok_bind,
        decompress_eq_ok hs (by omega) (by omega)]
      rfl
    · exact hw.mem_of_set hset
    · exact fun d' h1 h2 => hw.notMem_of_clear (hclear d' h1 h2)

theorem searchUp_spec (hs : ValidSpacing tickSpacing) (hw : Holds tickSpacing words ticks)
    (hlo : -(maxTick / tickSpacing) ≤ c) (hhi : c ≤ maxTick / tickSpacing + 1) :
    ∃ d found, searchUp words c tickSpacing = .ok (d * tickSpacing, found) ∧ c ≤ d ∧
      (found = true → d * tickSpacing ∈ ticks ∧ ∀ d', c ≤ d' → d' < d → d' * tickSpacing ∉ ticks) ∧
      (found = false → d = c / 128 * 128 + 127 ∧
        ∀ d', c ≤ d' → d' ≤ d → d' * tickSpacing ∉ ticks) := by
  have hbit : (c % (128 : ℕ)).toNat ≤ 128 - 1 := by omega
  rw [searchUp_eq]
  dsimp only
  by_cases hx : Bitmap.fromOn (loadWord words (c / (128 : ℕ))) (c % (128 : ℕ)).toNat = 0#128
  · have hmiss := Bitmap.up_miss (by norm_num) hx
    refine ⟨c + (128 - 1 - (c % (128 : ℕ)).toNat : ℕ), false, ?_, by omega, nofun,
      fun _ => ⟨by omega, ?_⟩⟩
    · rw [if_neg (not_not.mpr hx), checkedSub_eq_some.mpr ⟨hbit, rfl⟩, okOr_some, ok_bind,
        decompress_eq_ok hs (by omega) (by omega)]
      rfl
    · exact fun d' h1 h2 => hw.notMem_of_clear (hmiss d' h1 h2)
  · obtain ⟨j, hj, hle, hlt, hset, hclear⟩ := Bitmap.up_hit (by norm_num) hx
    refine ⟨c + (j - (c % (128 : ℕ)).toNat : ℕ), true, ?_, by omega, fun _ => ⟨?_, ?_⟩, nofun⟩
    · rw [if_pos hx, hj, checkedSub_eq_some.mpr ⟨hle, rfl⟩, okOr_some, ok_bind,
        decompress_eq_ok hs (by omega) (by omega)]
      rfl
    · exact hw.mem_of_set hset
    · exact fun d' h1 h2 => hw.notMem_of_clear (hclear d' h1 h2)

theorem Holds.exists_mul (hs : ValidSpacing tickSpacing) (hw : Holds tickSpacing words ticks)
    {s : ℤ} (hmem : s ∈ ticks) :
    ∃ e, s = e * tickSpacing ∧ -(maxTick / tickSpacing) ≤ e ∧ e ≤ maxTick / tickSpacing := by
  have hu := hw.usable s hmem
  obtain ⟨e, he⟩ := hu.2
  rw [mul_comm] at he
  obtain rfl := he
  exact ⟨e, rfl, usable_mul hs hu⟩

end Word

section WithinOneWord

variable {tickSpacing tick : ℤ} {words : Words} {ticks : Finset ℤ}

theorem nearest_down (hs : ValidSpacing tickSpacing) (hw : Holds tickSpacing words ticks) {d : ℤ}
    (hd : d ≤ tick / tickSpacing) (hmem : d * tickSpacing ∈ ticks)
    (hclear : ∀ d', d < d' → d' ≤ tick / tickSpacing → d' * tickSpacing ∉ ticks) :
    IsNearest true ticks tick (d * tickSpacing) := by
  refine ⟨⟨hmem, (Int.le_ediv_iff_mul_le hs.1).mp hd⟩, ?_⟩
  rintro s ⟨hs', hle⟩
  obtain ⟨e, rfl, _⟩ := hw.exists_mul hs hs'
  by_contra hlt
  have hde : d < e := lt_of_mul_lt_mul_right (not_le.mp hlt) hs.1.le
  exact hclear e hde ((Int.le_ediv_iff_mul_le hs.1).mpr hle) hs'

theorem nearest_up (hs : ValidSpacing tickSpacing) (hw : Holds tickSpacing words ticks) {d : ℤ}
    (hd : tick / tickSpacing + 1 ≤ d) (hmem : d * tickSpacing ∈ ticks)
    (hclear : ∀ d', tick / tickSpacing + 1 ≤ d' → d' < d → d' * tickSpacing ∉ ticks) :
    IsNearest false ticks tick (d * tickSpacing) := by
  refine ⟨⟨hmem, (Int.ediv_lt_iff_lt_mul hs.1).mp hd⟩, ?_⟩
  rintro s ⟨hs', hlt⟩
  obtain ⟨e, rfl, _⟩ := hw.exists_mul hs hs'
  by_contra hgt
  have hed : e < d := lt_of_mul_lt_mul_right (not_le.mp hgt) hs.1.le
  exact hclear e ((Int.ediv_lt_iff_lt_mul hs.1).mpr hlt) hed hs'

/-- Downwards the start of the word is not above the usable range, and the search goes on in the
word below it. -/
theorem missed_down (hs : ValidSpacing tickSpacing) (hw : Holds tickSpacing words ticks)
    (ht : InRange tick) {d : ℤ} (hd : d = tick / tickSpacing / 128 * 128)
    (hclear : ∀ d', d ≤ d' → d' ≤ tick / tickSpacing → d' * tickSpacing ∉ ticks) :
    Missed tickSpacing true ticks tick
      (min (max (d * tickSpacing) (minUsableTick tickSpacing)) (maxUsableTick tickSpacing)) := by
  obtain ⟨_, hhi⟩ := compressed_bounds hs ht
  obtain ⟨hmin, hends, _⟩ := usableTicks_inRange hs
  have hmax : tick ≤ maxTick := ht.2
  have hdc : d ≤ tick / tickSpacing := by omega
  have htop : d * tickSpacing ≤ maxUsableTick tickSpacing := by
    rw [maxUsableTick_eq]
    exact Int.mul_le_mul_of_nonneg_right (hdc.trans hhi) hs.1.le
  have htick : d * tickSpacing ≤ tick := (Int.le_ediv_iff_mul_le hs.1).mp hdc
  refine ⟨fun s hmem hahead => ?_, fun hend => ?_⟩
  · obtain ⟨e, rfl, _⟩ := hw.exists_mul hs hmem
    have hed : e < d := by
      by_contra hge
      exact hclear e (not_lt.mp hge) ((Int.le_ediv_iff_mul_le hs.1).mpr hahead) hmem
    have hlt := Int.mul_lt_mul_of_pos_right hed hs.1
    simp only [Ahead, stepPast, if_true]
    omega
  · simp only [ReachedEnd, lastTick, if_true, not_le] at hend
    have hnext : min (max (d * tickSpacing) (minUsableTick tickSpacing))
        (maxUsableTick tickSpacing) = d * tickSpacing := by omega
    have hbottom : minUsableTick tickSpacing < d * tickSpacing := by omega
    have hindex : -(maxTick / tickSpacing) < d := by
      rw [minUsableTick_eq] at hbottom
      exact lt_of_mul_lt_mul_right hbottom hs.1.le
    have hdiv : (d * tickSpacing - 1) / tickSpacing = d - 1 := by
      rw [Int.ediv_eq_iff_of_pos hs.1, sub_mul]
      have hpos := hs.1
      omega
    rw [hnext]
    simp only [stepPast, if_true, Ahead, wordsLeft, hdiv]
    exact ⟨⟨by omega, by omega⟩, fun s hle => by omega, by omega⟩

/-- Upwards the end of the word is not below the usable range, and the search goes on in the
word above it. -/
theorem missed_up (hs : ValidSpacing tickSpacing) (hw : Holds tickSpacing words ticks)
    (ht : InRange tick) {d : ℤ} (hd : d = (tick / tickSpacing + 1) / 128 * 128 + 127)
    (hclear : ∀ d', tick / tickSpacing + 1 ≤ d' → d' ≤ d → d' * tickSpacing ∉ ticks) :
    Missed tickSpacing false ticks tick
      (min (max (d * tickSpacing) (minUsableTick tickSpacing)) (maxUsableTick tickSpacing)) := by
  obtain ⟨hlo, _⟩ := compressed_bounds hs ht
  obtain ⟨hmin, hends, hmax⟩ := usableTicks_inRange hs
  have hcd : tick / tickSpacing + 1 ≤ d := by omega
  have hbottom : minUsableTick tickSpacing ≤ d * tickSpacing := by
    rw [minUsableTick_eq]
    exact Int.mul_le_mul_of_nonneg_right (by omega) hs.1.le
  have htick : tick < d * tickSpacing := (Int.ediv_lt_iff_lt_mul hs.1).mp hcd
  refine ⟨fun s hmem hahead => ?_, fun hend => ?_⟩
  · obtain ⟨e, rfl, _⟩ := hw.exists_mul hs hmem
    have hde : d < e := by
      by_contra hge
      exact hclear e ((Int.ediv_lt_iff_lt_mul hs.1).mpr hahead) (not_lt.mp hge) hmem
    have hlt := Int.mul_lt_mul_of_pos_right hde hs.1
    simp only [Ahead, stepPast, Bool.false_eq_true, if_false]
    omega
  · simp only [ReachedEnd, lastTick, Bool.false_eq_true, if_false, not_le] at hend
    have hnext : min (max (d * tickSpacing) (minUsableTick tickSpacing))
        (maxUsableTick tickSpacing) = d * tickSpacing := by omega
    have htop : d * tickSpacing < maxUsableTick tickSpacing := by omega
    have hindex : d < maxTick / tickSpacing := by
      rw [maxUsableTick_eq] at htop
      exact lt_of_mul_lt_mul_right htop hs.1.le
    have hdiv : d * tickSpacing / tickSpacing = d := Int.mul_ediv_cancel d hs.1.ne'
    rw [hnext]
    simp only [stepPast, Bool.false_eq_true, if_false, Ahead, wordsLeft, hdiv]
    exact ⟨⟨by omega, by omega⟩, fun s hlt => by omega, by omega⟩

/-- One word: it gives the nearest tick of the set or is passed. -/
theorem nextInitializedTickWithinOneWord_spec (hs : ValidSpacing tickSpacing)
    (hw : Holds tickSpacing words ticks) (ht : InRange tick) (lte : Bool) :
    ∃ next found,
      nextInitializedTickWithinOneWord words tick tickSpacing lte = .ok (next, found) ∧
      (found = true → IsNearest lte ticks tick next) ∧
      (found = false → Missed tickSpacing lte ticks tick next) := by
  obtain ⟨hlo, hhi⟩ := compressed_bounds hs ht
  rw [nextInitializedTickWithinOneWord, checkSpacing_eq_ok hs, ok_bind, checkTick_eq_ok ht, ok_bind]
  cases lte with
  | true =>
    obtain ⟨d, found, hok, hd, hhit, hmiss⟩ := searchDown_spec hs hw hlo hhi
    rw [if_pos rfl, hok, ok_bind]
    cases found with
    | true =>
      obtain ⟨hmem, hclear⟩ := hhit rfl
      exact ⟨_, true, rfl, fun _ => nearest_down hs hw hd hmem hclear, nofun⟩
    | false =>
      obtain ⟨hstart, hclear⟩ := hmiss rfl
      exact ⟨_, false, rfl, nofun, fun _ => missed_down hs hw ht hstart hclear⟩
  | false =>
    obtain ⟨d, found, hok, hd, hhit, hmiss⟩ :=
      searchUp_spec hs hw (c := tick / tickSpacing + 1) (by omega) (by omega)
    rw [if_neg Bool.false_ne_true, hok, ok_bind]
    cases found with
    | true =>
      obtain ⟨hmem, hclear⟩ := hhit rfl
      exact ⟨_, true, rfl, fun _ => nearest_up hs hw hd hmem hclear, nofun⟩
    | false =>
      obtain ⟨hend, hclear⟩ := hmiss rfl
      exact ⟨_, false, rfl, nofun, fun _ => missed_up hs hw ht hend hclear⟩

end WithinOneWord

/-! ## The scan -/

section Scan

variable {tickSpacing tick n : ℤ} {words : Words} {ticks : Finset ℤ} {lte : Bool}

/-- What a scan from a cursor answers. -/
def Answers (lte : Bool) (ticks : Finset ℤ) (cursor : ℤ) (r : ℤ × Bool) : Prop :=
  if r.2 then IsNearest lte ticks cursor r.1
  else ∀ s ∈ ticks, Ahead lte cursor s → Ahead lte (stepPast lte r.1) s

/-- Nothing of the set lies beyond the end of the usable range. -/
theorem Missed.none_ahead {next : ℤ} (hs : ValidSpacing tickSpacing)
    (hw : Holds tickSpacing words ticks) (hm : Missed tickSpacing lte ticks tick next)
    (hend : ReachedEnd tickSpacing lte next) : ∀ s ∈ ticks, ¬ Ahead lte tick s := by
  intro s hmem hahead
  have hpast := hm.passed s hmem hahead
  obtain ⟨e, rfl, hlo, hhi⟩ := hw.exists_mul hs hmem
  have hlow := Int.mul_le_mul_of_nonneg_right hlo hs.1.le
  have hhigh := Int.mul_le_mul_of_nonneg_right hhi hs.1.le
  rw [← minUsableTick_eq] at hlow
  rw [← maxUsableTick_eq] at hhigh
  cases lte <;> simp only [Ahead, stepPast, ReachedEnd, lastTick, if_true, Bool.false_eq_true,
    if_false] at hpast hend <;> omega

/-- Only the ticks ahead of the start matter. -/
theorem isNearest_congr {cursor : ℤ}
    (hiff : ∀ s ∈ ticks, Ahead lte tick s ↔ Ahead lte cursor s) :
    IsNearest lte ticks tick n ↔ IsNearest lte ticks cursor n := by
  have hset : {s | s ∈ ticks ∧ Ahead lte tick s} = {s | s ∈ ticks ∧ Ahead lte cursor s} :=
    Set.ext fun s => and_congr_right fun hs => hiff s hs
  cases lte with
  | true => exact (congrArg (IsGreatest · n) hset).to_iff
  | false => exact (congrArg (IsLeast · n) hset).to_iff

section Loop

variable {k : ℕ} {cursor next : ℤ} {r : ℤ × Bool}

/-- The loop between the ends of the usable range. -/
def scanUsable (words : Words) (tickSpacing : ℤ) (lte : Bool) (k : ℕ) (cursor : ℤ)
    (r : ℤ × Bool) : Except TickFault (ℤ × Bool) :=
  scanWords words tickSpacing lte (minUsableTick tickSpacing) (maxUsableTick tickSpacing) k cursor r

theorem scanUsable_hit
    (h : nextInitializedTickWithinOneWord words cursor tickSpacing lte = .ok (next, true)) :
    scanUsable words tickSpacing lte (k + 1) cursor r = .ok (next, true) := by
  rw [scanUsable, scanWords, h, ok_bind]
  rfl

theorem scanUsable_end
    (h : nextInitializedTickWithinOneWord words cursor tickSpacing lte = .ok (next, false))
    (hend : ReachedEnd tickSpacing lte next) :
    scanUsable words tickSpacing lte (k + 1) cursor r = .ok (lastTick tickSpacing lte, false) := by
  rw [scanUsable, scanWords, h, ok_bind]
  cases lte with
  | true => exact if_pos hend
  | false => exact if_pos hend

theorem scanUsable_onward
    (h : nextInitializedTickWithinOneWord words cursor tickSpacing lte = .ok (next, false))
    (hend : ¬ ReachedEnd tickSpacing lte next) :
    scanUsable words tickSpacing lte (k + 1) cursor r =
      scanUsable words tickSpacing lte k (stepPast lte next) (next, false) := by
  rw [scanUsable, scanWords, h, ok_bind]
  cases lte with
  | true => exact if_neg hend
  | false => exact if_neg hend

end Loop

/-- A loop whose cursor has the same ticks ahead as the start answers for the start, and one
over more words than are left has seen every tick ahead. -/
theorem scanUsable_spec (hs : ValidSpacing tickSpacing) (hw : Holds tickSpacing words ticks)
    (k : ℕ) {cursor : ℤ} (hc : InRange cursor)
    (hiff : ∀ s ∈ ticks, Ahead lte tick s ↔ Ahead lte cursor s) {r : ℤ × Bool}
    (hr : k = 0 → Answers lte ticks tick r) :
    ∃ r', scanUsable words tickSpacing lte k cursor r = .ok r' ∧ Answers lte ticks tick r' ∧
      (wordsLeft tickSpacing lte cursor < k → r'.2 = false → ∀ s ∈ ticks, ¬ Ahead lte tick s) := by
  induction k generalizing cursor r with
  | zero => exact ⟨r, rfl, hr rfl, fun h => absurd h (Nat.not_lt_zero _)⟩
  | succ k ih =>
    obtain ⟨next, found, hok, hhit, hmiss⟩ := nextInitializedTickWithinOneWord_spec hs hw hc lte
    cases found with
    | true =>
      refine ⟨(next, true), scanUsable_hit hok, ?_, nofun⟩
      exact (isNearest_congr hiff).mpr (hhit rfl)
    | false =>
      have hm := hmiss rfl
      have hpassed : ∀ s ∈ ticks, Ahead lte tick s → Ahead lte (stepPast lte next) s :=
        fun s hmem hahead => hm.passed s hmem ((hiff s hmem).mp hahead)
      by_cases hend : ReachedEnd tickSpacing lte next
      · have hnone : ∀ s ∈ ticks, ¬ Ahead lte tick s :=
          fun s hmem hahead => hm.none_ahead hs hw hend s hmem ((hiff s hmem).mp hahead)
        refine ⟨(lastTick tickSpacing lte, false), scanUsable_end hok hend, ?_, fun _ _ => hnone⟩
        exact fun s hmem hahead => absurd hahead (hnone s hmem)
      · obtain ⟨hrange, hback, hleft⟩ := hm.onward hend
        have hiff' : ∀ s ∈ ticks, Ahead lte tick s ↔ Ahead lte (stepPast lte next) s :=
          fun s hmem => ⟨hpassed s hmem, fun h => (hiff s hmem).mpr (hback s h)⟩
        obtain ⟨r', hscan, hanswer, hall⟩ :=
          ih hrange hiff' (r := (next, false)) fun _ => hpassed
        refine ⟨r', (scanUsable_onward hok hend).trans hscan, hanswer, fun hlt => hall ?_⟩
        omega

/-- No search has more words to look at than reach across the range. -/
theorem wordsLeft_lt (hs : ValidSpacing tickSpacing) (ht : InRange tick) (lte : Bool) :
    wordsLeft tickSpacing lte tick < wordsInRange := by
  obtain ⟨hlo, hhi⟩ := compressed_bounds hs ht
  have htop : maxTick / tickSpacing ≤ 300000 := Int.ediv_le_self tickSpacing (by decide)
  have hbottom : 0 ≤ maxTick / tickSpacing := Int.ediv_nonneg (by decide) hs.1.le
  unfold wordsLeft wordsInRange
  cases lte
  · simp only [Bool.false_eq_true, if_false]
    omega
  · simp only [if_true]
    omega

/-- The whole search answers for the set, and with enough words completely. -/
theorem nextInitializedTick_spec (hs : ValidSpacing tickSpacing)
    (hw : Holds tickSpacing words ticks) (ht : InRange tick) (lte : Bool) (maxWords : ℕ) :
    ∃ r, nextInitializedTick words tick tickSpacing lte maxWords = .ok r ∧
      Answers lte ticks tick r ∧
      (wordsInRange ≤ maxWords → r.2 = false → ∀ s ∈ ticks, ¬ Ahead lte tick s) := by
  obtain ⟨r, hscan, hanswer, hall⟩ := scanUsable_spec hs hw (max maxWords 1) ht
    (fun s _ => Iff.rfl) (r := (tick, false)) fun h => by omega
  refine ⟨r, ?_, hanswer, fun hmax => hall ?_⟩
  · rw [nextInitializedTick, checkSpacing_eq_ok hs, ok_bind]
    exact hscan
  · have hlt := wordsLeft_lt hs ht lte
    omega

end Scan

theorem IsNearest.mem {lte : Bool} {ticks : Finset ℤ} {tick n : ℤ}
    (h : IsNearest lte ticks tick n) : n ∈ ticks ∧ Ahead lte tick n := by
  cases lte with
  | true => exact h.1
  | false => exact h.1

theorem Between.ahead {lte : Bool} {tick n s : ℤ} (h : Between lte tick n s) :
    Ahead lte tick s ∧ ¬ Ahead lte (stepPast lte n) s := by
  cases lte <;> simp only [Between, Ahead, stepPast, if_true, Bool.false_eq_true, if_false] at * <;>
    omega

/-- After any sequence of flips the search by words agrees with a search of the flipped set. -/
theorem nextInitializedTick_correct {tickSpacing tick : ℤ} (hs : ValidSpacing tickSpacing)
    (ht : InRange tick) (calls : List ℤ) (lte : Bool) :
    let words := runAll (flipStep tickSpacing) ∅ calls
    let ticks := flippedTicks tickSpacing calls ∅
    (∀ maxWords n, nextInitializedTick words tick tickSpacing lte maxWords = .ok (n, true) →
      IsNearest lte ticks tick n) ∧
    (∀ maxWords n, nextInitializedTick words tick tickSpacing lte maxWords = .ok (n, false) →
      ∀ s ∈ ticks, ¬ Between lte tick n s) ∧
    ∀ maxWords ≥ wordsInRange,
      (∃ n, nextInitializedTick words tick tickSpacing lte maxWords = .ok (n, true)) ↔
        ∃ s ∈ ticks, Ahead lte tick s := by
  intro words ticks
  have hw : Holds tickSpacing words ticks := (Holds.empty tickSpacing).run hs calls
  refine ⟨fun maxWords n hok => ?_, fun maxWords n hok s hmem hbetween => ?_,
    fun maxWords hmax => ⟨?_, ?_⟩⟩
  · obtain ⟨r, hr, hanswer, _⟩ := nextInitializedTick_spec hs hw ht lte maxWords
    obtain rfl := Except.ok.inj (hok.symm.trans hr)
    exact hanswer
  · obtain ⟨r, hr, hanswer, _⟩ := nextInitializedTick_spec hs hw ht lte maxWords
    obtain rfl := Except.ok.inj (hok.symm.trans hr)
    obtain ⟨hahead, hnot⟩ := hbetween.ahead
    exact hnot (hanswer s hmem hahead)
  · rintro ⟨n, hok⟩
    obtain ⟨r, hr, hanswer, _⟩ := nextInitializedTick_spec hs hw ht lte maxWords
    obtain rfl := Except.ok.inj (hok.symm.trans hr)
    exact ⟨n, IsNearest.mem hanswer⟩
  · rintro ⟨s, hmem, hahead⟩
    obtain ⟨⟨n, found⟩, hr, _, hall⟩ := nextInitializedTick_spec hs hw ht lte maxWords
    cases found with
    | true => exact ⟨n, hr⟩
    | false => exact absurd hahead (hall hmax rfl s hmem)

/-- An unaligned start below zero is rounded down to the tick two spacings below. -/
theorem nextInitializedTick_correct_sample :
    nextInitializedTick (runAll (flipStep 60) ∅ [-120, 600, 30]) (-61) 60 true 1 =
        .ok (-120, true) ∧
      IsNearest true (flippedTicks 60 [-120, 600, 30] ∅) (-61) (-120) := by
  have hrun : nextInitializedTick (runAll (flipStep 60) ∅ [-120, 600, 30]) (-61) 60 true 1 =
      .ok (-120, true) := by decide +kernel
  exact ⟨hrun, (nextInitializedTick_correct (by decide) (by decide) _ true).1 1 (-120) hrun⟩

end StellarFlow.Amm.TickBitmap
