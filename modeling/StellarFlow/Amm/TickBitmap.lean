import StellarFlow.Host
import StellarFlow.Foundation.Bitmap

/-!
# The tick bitmap

Initialised ticks are kept in words of 128 bits. A tick is divided by the spacing, rounding
down, and the quotient is the number of its bit. Flips touch one word each, and an empty word
is dropped from storage. The search looks at one word at a time.
-/
namespace StellarFlow.Amm.TickBitmap

open Foundation

/-- The errors of the pair contract that its tick functions raise. -/
inductive AmmError
  | invalidTickSpacing
  | tickOutOfBounds
  | tickNotAligned
  | priceOutOfBounds
  | tickPriceMismatch
  deriving DecidableEq, Repr

abbrev TickFault := Abort AmmError

def minTick : ℤ := -300000
def maxTick : ℤ := 300000
def maxTickSpacing : ℤ := 16384

/-- Number of ticks in one word. -/
def wordBits : ℤ := 128

/-- The words by their key in persistent storage. -/
abbrev Words := Store ℤ (BitVec 128)

def loadWord (words : Words) (wordPos : ℤ) : BitVec 128 := (words.lookup wordPos).getD 0#128

def storeWord (wordPos : ℤ) (word : BitVec 128) (words : Words) : Words :=
  if word = 0#128 then words.erase wordPos else words.insert wordPos word

def ValidSpacing (tickSpacing : ℤ) : Prop := 0 < tickSpacing ∧ tickSpacing ≤ maxTickSpacing

def InRange (tick : ℤ) : Prop := minTick ≤ tick ∧ tick ≤ maxTick

instance (tickSpacing : ℤ) : Decidable (ValidSpacing tickSpacing) :=
  inferInstanceAs (Decidable (_ ∧ _))

instance (tick : ℤ) : Decidable (InRange tick) := inferInstanceAs (Decidable (_ ∧ _))

def checkSpacing (tickSpacing : ℤ) : Except TickFault Unit :=
  failIf (tickSpacing ≤ 0 ∨ maxTickSpacing < tickSpacing) (.error .invalidTickSpacing)

def checkTick (tick : ℤ) : Except TickFault Unit :=
  failIf (¬ InRange tick) (.error .tickOutOfBounds)

def minUsableTick (tickSpacing : ℤ) : ℤ := minTick.tdiv tickSpacing * tickSpacing
def maxUsableTick (tickSpacing : ℤ) : ℤ := maxTick.tdiv tickSpacing * tickSpacing

/-- Word and bit of a compressed tick. The shift and the mask of a signed value round down. -/
def position (compressed : ℤ) : ℤ × ℕ := (compressed / wordBits, (compressed % wordBits).toNat)

/-- Toggle the flag of a tick and return its new value. -/
def flipTick (tick tickSpacing : ℤ) (words : Words) : Except TickFault (Bool × Words) := do
  checkSpacing tickSpacing
  checkTick tick
  failIf (tick.tmod tickSpacing ≠ 0) (.error .tickNotAligned)
  let (wordPos, bitPos) := position (tick.tdiv tickSpacing)
  let mask := 1#128 <<< bitPos
  let word := loadWord words wordPos ^^^ mask
  pure (word &&& mask ≠ 0#128, storeWord wordPos word words)

def isInitialized (words : Words) (tick tickSpacing : ℤ) : Except TickFault Bool := do
  checkSpacing tickSpacing
  checkTick tick
  if tick.tmod tickSpacing ≠ 0 then pure false
  else
    let (wordPos, bitPos) := position (tick.tdiv tickSpacing)
    pure (loadWord words wordPos &&& 1#128 <<< bitPos ≠ 0#128)

/-- A compressed tick as a tick. The product traps when it leaves its type. -/
def decompress (compressed tickSpacing : ℤ) : Except TickFault ℤ :=
  okOr (i32.check (compressed * tickSpacing)) .trap

/-- The greatest tick of the word at or below a compressed tick, or the start of the word. -/
def searchDown (words : Words) (compressed tickSpacing : ℤ) : Except TickFault (ℤ × Bool) := do
  let (wordPos, bitPos) := position compressed
  let mask := BitVec.allOnes 128 >>> (127 - bitPos)
  let masked := loadWord words wordPos &&& mask
  if masked ≠ 0#128 then
    let msb := 127 - masked.clz.toNat
    let back ← okOr (checkedSub bitPos msb) .trap
    let next ← decompress (compressed - back) tickSpacing
    pure (next, true)
  else
    let next ← decompress (compressed - bitPos) tickSpacing
    pure (next, false)

/-- The least tick of the word at or above a compressed tick, or the end of the word. -/
def searchUp (words : Words) (start tickSpacing : ℤ) : Except TickFault (ℤ × Bool) := do
  let (wordPos, bitPos) := position start
  let mask := BitVec.allOnes 128 <<< bitPos
  let masked := loadWord words wordPos &&& mask
  if masked ≠ 0#128 then
    let lsb := masked.ctz.toNat
    let ahead ← okOr (checkedSub lsb bitPos) .trap
    let next ← decompress (start + ahead) tickSpacing
    pure (next, true)
  else
    let ahead ← okOr (checkedSub 127 bitPos) .trap
    let next ← decompress (start + ahead) tickSpacing
    pure (next, false)

/-- The next initialised tick in a single word. The end of a word without one is clamped to the
usable range. -/
def nextInitializedTickWithinOneWord (words : Words) (tick tickSpacing : ℤ) (lte : Bool) :
    Except TickFault (ℤ × Bool) := do
  checkSpacing tickSpacing
  checkTick tick
  let compressed := tick / tickSpacing
  let (next, initialized) ←
    if lte then searchDown words compressed tickSpacing
    else searchUp words (compressed + 1) tickSpacing
  if initialized then pure (next, true)
  else pure (min (max next (minUsableTick tickSpacing)) (maxUsableTick tickSpacing), false)

/-- The loop over at most so many words from a cursor. -/
def scanWords (words : Words) (tickSpacing : ℤ) (lte : Bool) (lower upper : ℤ) :
    ℕ → ℤ → ℤ × Bool → Except TickFault (ℤ × Bool)
  | 0, _, result => pure result
  | n + 1, cursor, _ => do
    let (next, initialized) ← nextInitializedTickWithinOneWord words cursor tickSpacing lte
    if initialized then pure (next, initialized)
    else if lte then
      if next ≤ lower then pure (lower, false)
      else scanWords words tickSpacing lte lower upper n (next - 1) (next, initialized)
    else if upper ≤ next then pure (upper, false)
    else scanWords words tickSpacing lte lower upper n next (next, initialized)

def nextInitializedTick (words : Words) (tick tickSpacing : ℤ) (lte : Bool) (maxWords : ℕ) :
    Except TickFault (ℤ × Bool) := do
  checkSpacing tickSpacing
  let lower := minUsableTick tickSpacing
  let upper := maxUsableTick tickSpacing
  scanWords words tickSpacing lte lower upper (max maxWords 1) tick (tick, false)

/-! ## The set of a bitmap -/

/-- The ticks that a flip accepts. -/
def Usable (tickSpacing tick : ℤ) : Prop := InRange tick ∧ tickSpacing ∣ tick

instance (tickSpacing tick : ℤ) : Decidable (Usable tickSpacing tick) :=
  inferInstanceAs (Decidable (_ ∧ _))

/-- Flipping a tick of a set of ticks. -/
def toggle (ticks : Finset ℤ) (tick : ℤ) : Finset ℤ :=
  if tick ∈ ticks then ticks.erase tick else insert tick ticks

/-- A call of `flip_tick` as a step of a run. -/
def flipStep (tickSpacing tick : ℤ) (words : Words) : Except TickFault Words :=
  Prod.snd <$> flipTick tick tickSpacing words

/-- The set that a sequence of flips leaves behind. A flip that fails does not count. -/
def flippedTicks (tickSpacing : ℤ) (calls : List ℤ) (ticks : Finset ℤ) : Finset ℤ :=
  calls.foldl (fun ticks tick => if Usable tickSpacing tick then toggle ticks tick else ticks) ticks

/-- The words hold exactly the compressed ticks of the set. -/
structure Holds (tickSpacing : ℤ) (words : Words) (ticks : Finset ℤ) : Prop where
  usable : ∀ s ∈ ticks, Usable tickSpacing s
  bits : ∀ c, Bitmap.bitAt (loadWord words) c = decide (c * tickSpacing ∈ ticks)

section Flips

variable {tickSpacing tick : ℤ} {words : Words} {ticks : Finset ℤ}

theorem mem_toggle {s : ℤ} : s ∈ toggle ticks tick ↔ (s ∈ ticks ↔ s ≠ tick) := by
  unfold toggle
  by_cases hs : s = tick
  · split_ifs with h <;> simp [hs, h]
  · split_ifs with h <;> simp [hs]

theorem loadWord_storeWord (words : Words) (wordPos : ℤ) (word : BitVec 128) :
    loadWord (storeWord wordPos word words) =
      Function.update (loadWord words) wordPos word := by
  funext k
  unfold loadWord storeWord
  by_cases hk : k = wordPos
  · rw [hk, Function.update_self]
    split_ifs with hz
    · rw [Store.lookup_erase_ite, if_pos rfl, hz]
      rfl
    · rw [Store.lookup_insert_ite, if_pos rfl]
      rfl
  · rw [Function.update_of_ne hk]
    split_ifs
    · rw [Store.lookup_erase_ite, if_neg hk]
    · rw [Store.lookup_insert_ite, if_neg hk]

theorem checkSpacing_eq_ok (h : ValidSpacing tickSpacing) : checkSpacing tickSpacing = .ok () := by
  refine failIf_of_not ?_
  obtain ⟨h0, hmax⟩ := h
  omega

theorem checkTick_eq_ok (h : InRange tick) : checkTick tick = .ok () :=
  failIf_of_not (not_not.mpr h)

/-- The bit of a compressed tick in its word. -/
theorem and_mask_ne_zero (words : Words) (c : ℤ) :
    loadWord words (position c).1 &&& 1#128 <<< (position c).2 ≠ 0#128 ↔
      Bitmap.bitAt (loadWord words) c = true := by
  have hlt : (c % 128).toNat < 128 := by omega
  exact Bitmap.and_one_shiftLeft_ne_zero hlt

theorem Holds.empty (tickSpacing : ℤ) : Holds tickSpacing ∅ ∅ where
  usable s hs := absurd hs (Finset.notMem_empty s)
  bits c := by simp [Bitmap.bitAt, loadWord]

/-- The words after the flip of a compressed tick. -/
def flipBit (words : Words) (c : ℤ) : Words :=
  storeWord (position c).1 (loadWord words (position c).1 ^^^ 1#128 <<< (position c).2) words

theorem bitAt_flipBit (words : Words) (c c' : ℤ) :
    Bitmap.bitAt (loadWord (flipBit words c)) c' =
      (Bitmap.bitAt (loadWord words) c' ^^ decide (c' = c)) := by
  rw [flipBit, loadWord_storeWord]
  exact Bitmap.bitAt_toggle (by norm_num) (loadWord words) c c'

theorem flipTick_mul (hs : ValidSpacing tickSpacing) {c : ℤ} (ht : InRange (c * tickSpacing)) :
    flipTick (c * tickSpacing) tickSpacing words =
      .ok (Bitmap.bitAt (loadWord (flipBit words c)) c, flipBit words c) := by
  have hmod : (c * tickSpacing).tmod tickSpacing = 0 := Int.mul_tmod_left c tickSpacing
  have hdiv : (c * tickSpacing).tdiv tickSpacing = c := Int.mul_tdiv_cancel c hs.1.ne'
  have hload : loadWord (flipBit words c) (position c).1 =
      loadWord words (position c).1 ^^^ 1#128 <<< (position c).2 := by
    rw [flipBit, loadWord_storeWord, Function.update_self]
  rw [flipTick, checkSpacing_eq_ok hs, ok_bind, checkTick_eq_ok ht, ok_bind,
    failIf_of_not (not_not.mpr hmod), ok_bind, hdiv]
  simp only [← hload, and_mask_ne_zero, Bool.decide_eq_true]
  rw [hload]
  rfl

/-- A flip that is accepted toggles the tick and returns its new flag. -/
theorem flipTick_of_usable (hs : ValidSpacing tickSpacing) (h : Usable tickSpacing tick)
    (hw : Holds tickSpacing words ticks) : ∃ words',
      flipTick tick tickSpacing words = .ok (decide (tick ∈ toggle ticks tick), words') ∧
      Holds tickSpacing words' (toggle ticks tick) := by
  obtain ⟨hrange, c, hc⟩ := h
  rw [mul_comm] at hc
  obtain rfl := hc
  have hbits : ∀ c', Bitmap.bitAt (loadWord (flipBit words c)) c' =
      decide (c' * tickSpacing ∈ toggle ticks (c * tickSpacing)) := by
    intro c'
    have hne : c' * tickSpacing = c * tickSpacing ↔ c' = c := mul_left_inj' hs.1.ne'
    rw [bitAt_flipBit, hw.bits, Bool.eq_iff_iff, Bool.xor_iff_ne, ne_eq, decide_eq_decide,
      decide_eq_true_eq, mem_toggle, ne_eq, hne]
    exact not_iff.trans (not_iff_comm.trans Iff.comm)
  refine ⟨flipBit words c, ?_, fun s hmem => ?_, hbits⟩
  · rw [flipTick_mul hs hrange, hbits]
  · by_cases hsc : s = c * tickSpacing
    · rw [hsc]
      exact ⟨hrange, Int.dvd_mul_left c tickSpacing⟩
    · exact hw.usable s ((mem_toggle.mp hmem).mpr hsc)

/-- Any other flip fails. -/
theorem flipTick_of_not_usable (h : ¬ Usable tickSpacing tick) :
    ∃ e, flipTick tick tickSpacing words = .error e := by
  cases hflip : flipTick tick tickSpacing words with
  | error e => exact ⟨e, rfl⟩
  | ok r =>
    simp only [flipTick, checkTick, bind_eq_ok, failIf_eq_ok, not_not, ne_eq] at hflip
    obtain ⟨_, _, _, hrange, _, hmod, _⟩ := hflip
    exact absurd ⟨hrange, Int.dvd_of_tmod_eq_zero hmod⟩ h

/-- Along a run the words keep holding the set of the flips so far. -/
theorem Holds.run (hs : ValidSpacing tickSpacing) (hw : Holds tickSpacing words ticks)
    (calls : List ℤ) : Holds tickSpacing (runAll (flipStep tickSpacing) words calls)
      (flippedTicks tickSpacing calls ticks) := by
  induction calls generalizing words ticks with
  | nil => exact hw
  | cons tick calls ih =>
    rw [runAll_cons, flippedTicks, List.foldl_cons, ← flippedTicks]
    by_cases hu : Usable tickSpacing tick
    · obtain ⟨words', hok, hw'⟩ := flipTick_of_usable hs hu hw
      have hstep : flipStep tickSpacing tick words = .ok words' := by
        rw [flipStep, hok]
        rfl
      rw [commit_of_ok hstep, if_pos hu]
      exact ih hw'
    · obtain ⟨e, herror⟩ : ∃ e, flipTick tick tickSpacing words = .error e :=
        flipTick_of_not_usable hu
      have hstep : flipStep tickSpacing tick words = .error e := by
        rw [flipStep, herror]
        rfl
      rw [commit_of_error hstep, if_neg hu]
      exact ih hw

theorem isInitialized_eq (hs : ValidSpacing tickSpacing) (ht : InRange tick)
    (hw : Holds tickSpacing words ticks) :
    isInitialized words tick tickSpacing = .ok (decide (tick ∈ ticks)) := by
  rw [isInitialized, checkSpacing_eq_ok hs, ok_bind, checkTick_eq_ok ht, ok_bind]
  by_cases hmod : tick.tmod tickSpacing = 0
  · have hdiv := Int.tdiv_mul_cancel (Int.dvd_of_tmod_eq_zero hmod)
    rw [if_neg (not_not.mpr hmod)]
    simp only [and_mask_ne_zero, hw.bits, hdiv, decide_eq_true_eq]
    rfl
  · have hout : tick ∉ ticks :=
      fun hmem => hmod (Int.tmod_eq_zero_of_dvd (hw.usable tick hmem).2)
    rw [if_pos hmod, decide_eq_false hout]
    rfl

end Flips

end StellarFlow.Amm.TickBitmap
