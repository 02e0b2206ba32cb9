import StellarFlow.Foundation.Checked
import StellarFlow.Foundation.Transaction

/-!
# Emission of staking rewards

The pool emits a reward for every ledger. The rate is the same throughout an epoch and decays
from one epoch to the next, and the emission ends at a cap. An update goes through the epochs
since the last one, however many there are.
-/
namespace StellarFlow.Staking.YieldEmission

open Foundation

inductive EmissionError
  | alreadyInitialized
  | invalidParameters
  deriving DecidableEq, Repr

/-- Why a call aborts: an error of the contract or an arithmetic trap. -/
inductive EmissionAbort
  | error (e : EmissionError)
  | trap
  deriving DecidableEq, Repr

/-- The largest 128-bit number. -/
def maxU128 : ℕ := 2 ^ 128 - 1

def saturatingAdd (a b : ℕ) : ℕ := min (a + b) maxU128

def saturatingMul (a b : ℕ) : ℕ := min (a * b) maxU128

structure Schedule where
  startLedger : ℕ
  initialRate : ℕ
  epochLength : ℕ
  decayRateBps : ℕ
  maxEmissionCap : ℕ
  deriving DecidableEq

structure EmissionPool where
  schedule : Schedule
  totalEmitted : ℕ
  lastUpdateLedger : ℕ
  currentRate : ℕ
  deriving DecidableEq

namespace Schedule

variable (p : Schedule)

/-- The rate after an epoch with the given rate. -/
def decay (rate : ℕ) : ℕ := saturatingMul rate (10000 - p.decayRateBps) / 10000

/-- The rate of an epoch, by as many rounds of decay. -/
def rateIn (epoch : ℕ) : ℕ := p.decay^[epoch] p.initialRate

/-- The epoch of a ledger. -/
def epochOf (ledger : ℕ) : ℕ := (ledger - p.startLedger) / p.epochLength

end Schedule

/-- The emission of one span, cut off at the cap. -/
def emitSpan (cap total emission : ℕ) : ℕ :=
  saturatingAdd total (if cap < saturatingAdd total emission then cap - total else emission)

/-- The loop over the epochs. Every round gets at least one ledger further, which bounds their
number. -/
def emitSpans (p : Schedule) (currentLedger : ℕ) : ℕ → ℕ → ℕ → Except EmissionAbort ℕ
  | 0, _, total => pure total
  | fuel + 1, temp, total =>
    if temp < currentLedger ∧ total < p.maxEmissionCap then do
      let currentEpoch := p.epochOf temp
      let epochs ← okOr (checkBits 32 (currentEpoch + 1)) .trap
      let length ← okOr (checkBits 32 (epochs * p.epochLength)) .trap
      let nextEpochLedger ← okOr (checkBits 32 (p.startLedger + length)) .trap
      let endLedger := if currentLedger < nextEpochLedger then currentLedger else nextEpochLedger
      let emission := saturatingMul (p.rateIn currentEpoch) (endLedger - temp)
      emitSpans p currentLedger fuel endLedger (emitSpan p.maxEmissionCap total emission)
    else pure total

/-- Nobody signs here. -/
def setUp (startLedger : ℕ) (initialRate : ℕ) (epochLength decayRateBps : ℕ)
    (maxEmissionCap : ℕ) (s : Option EmissionPool) :
    Except EmissionAbort (Option EmissionPool) := do
  failIf (s.isSome = true) (.error .alreadyInitialized)
  failIf (10000 < decayRateBps ∨ epochLength = 0) (.error .invalidParameters)
  pure (some ⟨⟨startLedger, initialRate, epochLength, decayRateBps, maxEmissionCap⟩, 0,
    startLedger, initialRate⟩)

def updateEmissions (currentLedger : ℕ) (s : Option EmissionPool) :
    Except EmissionAbort (ℕ × Option EmissionPool) :=
  match s with
  | none => pure (0, none)
  | some pool =>
    if currentLedger ≤ pool.lastUpdateLedger then pure (pool.totalEmitted, s)
    else if currentLedger < pool.schedule.startLedger then pure (0, s)
    else do
      let effectiveLast := if pool.lastUpdateLedger < pool.schedule.startLedger
        then pool.schedule.startLedger else pool.lastUpdateLedger
      let totalEmitted ← emitSpans pool.schedule currentLedger (currentLedger - effectiveLast)
        effectiveLast pool.totalEmitted
      pure (totalEmitted, some { pool with
        totalEmitted, lastUpdateLedger := currentLedger
        currentRate := pool.schedule.rateIn (pool.schedule.epochOf currentLedger) })

inductive EmissionCall
  | setUp (startLedger epochLength decayRateBps : UInt32)
      (initialRate maxEmissionCap : Fin (2 ^ 128))
  | updateEmissions (currentLedger : UInt32)

def emissionStep (i : EmissionCall) (s : Option EmissionPool) :
    Except EmissionAbort (Option EmissionPool) :=
  match i with
  | .setUp startLedger epochLength decayRateBps initialRate maxEmissionCap =>
    setUp startLedger.toNat initialRate epochLength.toNat decayRateBps.toNat maxEmissionCap s
  | .updateEmissions currentLedger => Prod.snd <$> updateEmissions currentLedger.toNat s

/-! ## The schedule -/

namespace Schedule

variable (p : Schedule)

/-- What the schedule emits before a ledger, without the cap. -/
def scheduled (ledger : ℕ) : ℕ := ∑ l ∈ Finset.Ico p.startLedger ledger, p.rateIn (p.epochOf l)

/-- The first ledger of the epoch of a ledger, and that of the next epoch. -/
def epochStart (ledger : ℕ) : ℕ := p.startLedger + p.epochOf ledger * p.epochLength

def epochEnd (ledger : ℕ) : ℕ := p.startLedger + (p.epochOf ledger + 1) * p.epochLength

/-- Every epoch that is entered before the cap is reached ends at a ledger number. -/
def EndsInRange (since ledger : ℕ) : Prop :=
  ∀ l, since ≤ l → l < ledger → p.scheduled (max since (p.epochStart l)) < p.maxEmissionCap →
    p.epochEnd l < 2 ^ 32

variable {p} {a b l : ℕ}

theorem epochStart_le (h : p.startLedger ≤ l) : p.epochStart l ≤ l := by
  have hle : p.epochOf l * p.epochLength ≤ l - p.startLedger := Nat.div_mul_le_self _ _
  unfold epochStart
  omega

theorem lt_epochEnd (hlen : 0 < p.epochLength) (l : ℕ) : l < p.epochEnd l := by
  have hlt : l - p.startLedger < (p.epochOf l + 1) * p.epochLength := by
    rw [mul_comm]
    exact Nat.lt_mul_div_succ _ hlen
  unfold epochEnd
  omega

/-- The ledgers up to the end of an epoch belong to it. -/
theorem epochOf_eq (hlen : 0 < p.epochLength) (ha : p.startLedger ≤ a) (hal : a ≤ l)
    (hl : l < p.epochEnd a) : p.epochOf l = p.epochOf a := by
  refine le_antisymm ?_ (Nat.div_le_div_right (Nat.sub_le_sub_right hal _))
  refine Nat.lt_succ_iff.mp ((Nat.div_lt_iff_lt_mul hlen).mpr ?_)
  unfold epochEnd at hl
  rw [Nat.succ_eq_add_one]
  omega

theorem scheduled_mono : Monotone p.scheduled := fun _ _ hab =>
  Finset.sum_le_sum_of_subset (Finset.Ico_subset_Ico_right hab)

/-- Within an epoch the schedule emits at one rate. -/
theorem scheduled_span (hlen : 0 < p.epochLength) (ha : p.startLedger ≤ a) (hab : a ≤ b)
    (hb : b ≤ p.epochEnd a) :
    p.scheduled b = p.scheduled a + p.rateIn (p.epochOf a) * (b - a) := by
  have hconst : ∑ l ∈ Finset.Ico a b, p.rateIn (p.epochOf l) =
      ∑ l ∈ Finset.Ico a b, p.rateIn (p.epochOf a) := by
    refine Finset.sum_congr rfl fun l hl => ?_
    obtain ⟨hal, hlb⟩ := Finset.mem_Ico.mp hl
    rw [epochOf_eq hlen ha hal (by omega)]
  rw [scheduled, ← Finset.sum_Ico_consecutive _ ha hab, hconst, Finset.sum_const,
    Nat.card_Ico, smul_eq_mul, mul_comm (b - a)]
  rfl

end Schedule

section Spans

variable {p : Schedule} {cap total rate n : ℕ}

/-- Saturation does not show below a cap that fits. -/
theorem emitSpan_eq (hcap : cap ≤ maxU128) (htotal : total ≤ cap) :
    emitSpan cap total (saturatingMul rate n) = min cap (total + rate * n) := by
  rw [saturatingMul]
  generalize rate * n = emission
  rw [emitSpan]
  by_cases hover : cap < saturatingAdd total (min emission maxU128)
  · rw [if_pos hover]
    unfold saturatingAdd at hover ⊢
    omega
  · rw [if_neg hover]
    unfold saturatingAdd at hover ⊢
    omega

/-- What was emitted before a ledger, with the cap. -/
def emittedBefore (p : Schedule) (ledger : ℕ) : ℕ := min p.maxEmissionCap (p.scheduled ledger)

theorem emittedBefore_of_reached {a b : ℕ} (h : p.maxEmissionCap ≤ p.scheduled a) (hab : a ≤ b) :
    emittedBefore p b = emittedBefore p a := by
  rw [emittedBefore, emittedBefore, min_eq_left h,
    min_eq_left (h.trans (Schedule.scheduled_mono hab))]

/-- Ranges that begin in an epoch and go on after it. -/
theorem endsInRange_iff (hlen : 0 < p.epochLength) {temp ledger : ℕ} (hstart : p.startLedger ≤ temp)
    (hlt : temp < ledger) (hbelow : p.scheduled temp < p.maxEmissionCap) :
    p.EndsInRange temp ledger ↔
      p.epochEnd temp < 2 ^ 32 ∧ p.EndsInRange (min ledger (p.epochEnd temp)) ledger := by
  have hnext := Schedule.lt_epochEnd (p := p) hlen temp
  have hsame : ∀ l, temp ≤ l → l < p.epochEnd temp →
      p.epochStart l = p.epochStart temp ∧ p.epochEnd l = p.epochEnd temp := by
    intro l htl hl
    simp only [Schedule.epochStart, Schedule.epochEnd, Schedule.epochOf_eq hlen hstart htl hl,
      and_self]
  have hlater : ∀ l, p.epochEnd temp ≤ l → p.epochEnd temp ≤ p.epochStart l := by
    intro l hl
    have hepoch : p.epochOf temp + 1 ≤ p.epochOf l := by
      refine (Nat.le_div_iff_mul_le hlen).mpr ?_
      unfold Schedule.epochEnd at hl
      omega
    exact Nat.add_le_add_left (Nat.mul_le_mul_right _ hepoch) _
  have hbegin : max temp (p.epochStart temp) = temp := max_eq_left (Schedule.epochStart_le hstart)
  constructor
  · intro h
    have hfirst := h temp le_rfl hlt (by rwa [hbegin])
    refine ⟨hfirst, fun l hl hledger hopen => ?_⟩
    have hend : p.epochEnd temp ≤ l := by omega
    refine h l (by omega) hledger ?_
    have hle := hlater l hend
    rwa [max_eq_right (by omega)] at hopen ⊢
  · rintro ⟨hfirst, h⟩ l htl hledger hopen
    by_cases hend : l < p.epochEnd temp
    · rw [(hsame l htl hend).2]
      exact hfirst
    · have hle := hlater l (not_lt.mp hend)
      refine h l (by omega) hledger ?_
      rwa [max_eq_right (by omega)] at hopen ⊢

/-- With enough rounds the loop emits what is scheduled, exactly when every epoch that it enters
below the cap ends in range. -/
theorem emitSpans_eq_ok (hlen : 0 < p.epochLength) (hcap : p.maxEmissionCap ≤ maxU128)
    {fuel temp ledger r : ℕ} (hstart : p.startLedger ≤ temp) (hle : temp ≤ ledger)
    (hfuel : ledger - temp ≤ fuel) (hledger : ledger < 2 ^ 32) :
    emitSpans p ledger fuel temp (emittedBefore p temp) = .ok r ↔
      p.EndsInRange temp ledger ∧ r = emittedBefore p ledger := by
  induction fuel generalizing temp with
  | zero =>
    obtain rfl : temp = ledger := by omega
    rw [emitSpans, pure_eq_ok, eq_comm]
    exact (and_iff_right fun l hl hlt => absurd hl hlt.not_ge).symm
  | succ fuel ih =>
    rw [emitSpans]
    by_cases hgo : temp < ledger ∧ emittedBefore p temp < p.maxEmissionCap
    · obtain ⟨hlt, hopen⟩ := hgo
      have hbelow : p.scheduled temp < p.maxEmissionCap := by
        unfold emittedBefore at hopen
        omega
      have hnext := Schedule.lt_epochEnd (p := p) hlen temp
      have hend : (if ledger < p.epochEnd temp then ledger else p.epochEnd temp) =
          min ledger (p.epochEnd temp) := by
        split_ifs <;> omega
      have hspan : emitSpan p.maxEmissionCap (emittedBefore p temp)
          (saturatingMul (p.rateIn (p.epochOf temp)) (min ledger (p.epochEnd temp) - temp)) =
            emittedBefore p (min ledger (p.epochEnd temp)) := by
        unfold emittedBefore
        rw [emitSpan_eq hcap (min_le_left _ _), min_eq_right hbelow.le,
          Schedule.scheduled_span hlen hstart (by omega) (min_le_right _ _)]
      rw [if_pos ⟨hlt, hopen⟩, endsInRange_iff hlen hstart hlt hbelow]
      have hrest := @ih (min ledger (p.epochEnd temp)) (by omega) (min_le_left _ _) (by omega)
      have hdef : p.startLedger + (p.epochOf temp + 1) * p.epochLength = p.epochEnd temp := rfl
      simp only [bind_eq_ok, okOr_eq_ok, checkBits_eq_some]
      constructor
      · rintro ⟨_, ⟨_, rfl⟩, _, ⟨_, rfl⟩, _, ⟨hfits, rfl⟩, hloop⟩
        rw [hdef, hend, hspan, hrest] at hloop
        exact ⟨⟨hfits, hloop.1⟩, hloop.2⟩
      · rintro ⟨⟨hfits, hranges⟩, hr⟩
        have hmul : p.epochOf temp + 1 ≤ (p.epochOf temp + 1) * p.epochLength :=
          Nat.le_mul_of_pos_right _ hlen
        refine ⟨_, ⟨by omega, rfl⟩, _, ⟨by omega, rfl⟩, _, ⟨hfits, rfl⟩, ?_⟩
        rw [hdef, hend, hspan, hrest]
        exact ⟨hranges, hr⟩
    · have hover : temp = ledger ∨ p.maxEmissionCap ≤ p.scheduled temp := by
        unfold emittedBefore at hgo
        omega
      have hdone : emittedBefore p temp = emittedBefore p ledger ∧ p.EndsInRange temp ledger := by
        rcases hover with rfl | hreached
        · exact ⟨rfl, fun l hl hlt => absurd hl hlt.not_ge⟩
        · refine ⟨(emittedBefore_of_reached hreached hle).symm, fun l _ _ hopen => ?_⟩
          exact absurd hopen (hreached.trans (Schedule.scheduled_mono (le_max_left _ _))).not_gt
      rw [if_neg hgo, pure_eq_ok, hdone.1, eq_comm]
      exact (and_iff_right hdone.2).symm

end Spans

/-! ## Runs -/

/-- The pool after an update. -/
def EmissionPool.advanced (pool : EmissionPool) (ledger : ℕ) : EmissionPool :=
  if ledger ≤ pool.lastUpdateLedger then pool
  else { pool with
    totalEmitted := emittedBefore pool.schedule ledger
    lastUpdateLedger := ledger
    currentRate := pool.schedule.rateIn (pool.schedule.epochOf ledger) }

/-- What the setup checks, and the total that the schedule gives. -/
structure EmissionPool.Sound (pool : EmissionPool) : Prop where
  epochLength_pos : 0 < pool.schedule.epochLength
  cap_le : pool.schedule.maxEmissionCap ≤ maxU128
  start_le : pool.schedule.startLedger ≤ pool.lastUpdateLedger
  total_eq : pool.totalEmitted = emittedBefore pool.schedule pool.lastUpdateLedger

section Runs

variable {pool : EmissionPool} {s s' : Option EmissionPool} {ledger r : ℕ}

theorem updateEmissions_eq_ok (h : pool.Sound) (hledger : ledger < 2 ^ 32) :
    updateEmissions ledger (some pool) = .ok (r, s') ↔
      pool.schedule.EndsInRange pool.lastUpdateLedger ledger ∧
        r = emittedBefore pool.schedule (max pool.lastUpdateLedger ledger) ∧
        s' = some (pool.advanced ledger) := by
  have hstart := h.start_le
  rw [updateEmissions, EmissionPool.advanced]
  dsimp only
  by_cases hle : ledger ≤ pool.lastUpdateLedger
  · rw [if_pos hle, if_pos hle, max_eq_left hle, pure_eq_ok, Prod.mk.injEq, h.total_eq,
      eq_comm (a := emittedBefore _ _), eq_comm (a := some pool)]
    exact (and_iff_right fun l hl hlt => absurd (hl.trans_lt hlt) hle.not_gt).symm
  · rw [if_neg hle, if_neg hle, if_neg (by omega), if_neg (by omega),
      max_eq_right (not_le.mp hle).le, h.total_eq]
    simp only [bind_eq_ok, pure_eq_ok, Prod.mk.injEq,
      emitSpans_eq_ok h.epochLength_pos h.cap_le hstart (not_le.mp hle).le le_rfl hledger]
    constructor
    · rintro ⟨_, ⟨hranges, rfl⟩, rfl, rfl⟩
      exact ⟨hranges, rfl, rfl⟩
    · rintro ⟨hranges, rfl, rfl⟩
      exact ⟨_, ⟨hranges, rfl⟩, rfl, rfl⟩

theorem EmissionPool.Sound.advanced (h : pool.Sound) (ledger : ℕ) :
    (pool.advanced ledger).Sound := by
  have hstart := h.start_le
  unfold EmissionPool.advanced
  split_ifs with hle
  · exact h
  · exact ⟨h.epochLength_pos, h.cap_le, by dsimp only; omega, rfl⟩

theorem emissionStep_sound {i : EmissionCall} (hs : ∀ pool, s = some pool → pool.Sound)
    (h : emissionStep i s = .ok s') : ∀ pool, s' = some pool → pool.Sound := by
  cases i with
  | setUp startLedger epochLength decayRateBps initialRate maxEmissionCap =>
    simp only [emissionStep, setUp, bind_eq_ok, failIf_eq_ok, pure_eq_ok] at h
    obtain ⟨_, _, _, hvalid, rfl⟩ := h
    intro pool hpool
    obtain rfl := Option.some.inj hpool
    have hcap := maxEmissionCap.isLt
    refine ⟨by dsimp only; omega, ?_, le_rfl, ?_⟩
    · exact Nat.le_sub_one_of_lt hcap
    · simp [emittedBefore, Schedule.scheduled]
  | updateEmissions currentLedger =>
    obtain ⟨r, h⟩ := snd_map_eq_ok.mp h
    cases s with
    | none =>
      obtain ⟨_, rfl⟩ := Prod.mk.inj (pure_eq_ok.mp h)
      exact fun _ hnone => absurd hnone (by simp)
    | some pool =>
      have hpool := hs pool rfl
      obtain ⟨_, _, rfl⟩ := (updateEmissions_eq_ok hpool currentLedger.toNat_lt).mp h
      intro pool' hpool'
      obtain rfl := Option.some.inj hpool'
      exact hpool.advanced _

end Runs

/-- In every run the total is what the schedule emits up to the last update, cut off at the cap,
however often and at which ledgers the pool was updated. An update succeeds exactly when every
epoch that it enters below the cap ends at a ledger number. -/
theorem emission_path_independent (run : List EmissionCall) :
    Throughout emissionStep (fun s => ∀ pool, s = some pool →
      pool.totalEmitted = min pool.schedule.maxEmissionCap
        (pool.schedule.scheduled pool.lastUpdateLedger)) none run ∧
    Along emissionStep (fun s _ => ∀ pool, s = some pool → ∀ (ledger : UInt32) r s',
      updateEmissions ledger.toNat s = .ok (r, s') ↔
        pool.schedule.EndsInRange pool.lastUpdateLedger ledger.toNat ∧
          r = min pool.schedule.maxEmissionCap
            (pool.schedule.scheduled (max pool.lastUpdateLedger ledger.toNat)) ∧
          s' = some (pool.advanced ledger.toNat)) none run := by
  have hstep : ∀ s i s', (∀ pool, s = some pool → pool.Sound) → emissionStep i s = .ok s' →
      ∀ pool, s' = some pool → pool.Sound := fun s i s' hs h => emissionStep_sound hs h
  have hnone : ∀ pool, (none : Option EmissionPool) = some pool → pool.Sound := nofun
  constructor
  · exact throughout_of_invariant hstep (fun s hs pool hpool => (hs pool hpool).total_eq) hnone run
  · refine along_of_invariant hstep (fun s _ hs pool hpool ledger r s' => ?_) hnone run
    rw [hpool]
    exact updateEmissions_eq_ok (hs pool hpool) ledger.toNat_lt

end StellarFlow.Staking.YieldEmission
