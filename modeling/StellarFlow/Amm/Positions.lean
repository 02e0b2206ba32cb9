import StellarFlow.Amm.TickIndex

/-!
# Range positions

Opening a position places its liquidity at the lower tick and takes it from the upper
tick. The gross liquidity of a tick is unsigned, so the second placement needs liquidity
that is already there. A pool starts without any, and positions are the only way to
bring some in.
-/
namespace StellarFlow.Amm

open Foundation

/-- A position on the half-open range from its lower to its upper tick. -/
structure Position where
  id : ℕ
  owner : Address
  asset : AssetId
  tickLower : ℤ
  tickUpper : ℤ
  liquidity : ℕ
  feeGrowthInsideLast : ℕ
  tokensOwed : ℕ
  deriving DecidableEq, Repr

/-- The pools with the position records and their id counter. -/
structure PositionLedger where
  pools : Pools
  records : Store ℕ Position
  counter : ℕ

namespace PositionLedger

def empty : PositionLedger := ⟨Pools.empty, ∅, 0⟩

def mintPositionId (l : PositionLedger) : Except Fault (ℕ × PositionLedger) := do
  let id ← okOr (checkBits 64 (l.counter + 1)) (Fault.error .overflow)
  pure (id, { l with counter := id })

def setPositionRecord (l : PositionLedger) (r : Position) : PositionLedger :=
  { l with records := l.records.insert r.id r }

def removePositionRecord (l : PositionLedger) (positionId : ℕ) : PositionLedger :=
  { l with records := l.records.erase positionId }

end PositionLedger

/-- Conversion of an unsigned to a signed 64-bit value. -/
def toI64 (x : ℕ) : Except Fault ℤ := okOr (i64.check x) (Fault.error .overflow)

def openPosition {here : Address} (env : Env here) (owner : Address) (asset : AssetId)
    (tickLower tickUpper : ℤ) (liquidity : ℕ) (l : PositionLedger) :
    Except Fault (Position × PositionLedger) := do
  env.requireAuth owner
  failIf (tickUpper ≤ tickLower) (Fault.error .invalidSplitBoundary)
  failIf (liquidity = 0) (Fault.error .amountTooLow)
  let liquidityI64 ← toI64 liquidity
  let pools ← ensureTickInitialized asset tickLower l.pools
  let pools ← ensureTickInitialized asset tickUpper pools
  let (_, pools) ← placeLiquidity asset tickLower liquidityI64 pools
  let (_, pools) ← placeLiquidity asset tickUpper (-liquidityI64) pools
  let feeGrowthInsideLast ← getFeeGrowthInside asset tickLower tickUpper pools
  let (id, l) ← PositionLedger.mintPositionId { l with pools := pools }
  let position := ⟨id, owner, asset, tickLower, tickUpper, liquidity, feeGrowthInsideLast, 0⟩
  pure (position, l.setPositionRecord position)

/-- Fees owed to a position up to now. -/
def settleOwed (position : Position) (pools : Pools) : Except Fault ℕ := do
  let feeGrowthInsideNow ←
    getFeeGrowthInside position.asset position.tickLower position.tickUpper pools
  let feeGrowthDelta := wrappingSub feeGrowthInsideNow position.feeGrowthInsideLast
  let product ← okOr (checkBits 128 (feeGrowthDelta * position.liquidity)) (Fault.error .overflow)
  let totalOwed ← okOr (checkBits 128 (position.tokensOwed + product / feeGrowthScale))
    (Fault.error .overflow)
  okOr (checkBits 64 totalOwed) (Fault.error .overflow)

/-- The share of an amount that goes to the lower part, narrowed to 64 bits, and the rest. -/
def splitByWidth (amount widthLower widthTotal : ℕ) : Except Fault (ℕ × ℕ) := do
  let product ← okOr (checkBits 128 (amount * widthLower)) (Fault.error .overflow)
  let lower := product / widthTotal % 2 ^ 64
  let upper ← okOr (checkedSub amount lower) (Fault.error .overflow)
  pure (lower, upper)

/-- Split a position at an inner tick into two positions on the parts of its range. -/
def splitPosition {here : Address} (env : Env here) (caller : Address) (positionId : ℕ)
    (tickMid : ℤ) (l : PositionLedger) : Except Fault ((Position × Position) × PositionLedger) := do
  env.requireAuth caller
  let position ← okOr (l.records.lookup positionId) (Fault.error .positionNotFound)
  failIf (position.owner ≠ caller) (Fault.error .unauthorized)
  failIf (tickMid ≤ position.tickLower ∨ position.tickUpper ≤ tickMid)
    (Fault.error .invalidSplitBoundary)
  let pool ← l.pools.getTickIndex position.asset
  failIf (tickMid.tmod pool.tickSpacing ≠ 0) (Fault.error .tickNotAligned)
  let totalOwed ← settleOwed position l.pools
  let widthTotal ← okOr (i32.check (position.tickUpper - position.tickLower)) Fault.trap
  let widthLower ← okOr (i32.check (tickMid - position.tickLower)) Fault.trap
  let (liquidityLower, liquidityUpper) ←
    splitByWidth position.liquidity widthLower.toNat widthTotal.toNat
  failIf (liquidityLower = 0 ∨ liquidityUpper = 0) (Fault.error .amountTooLow)
  let (owedLower, owedUpper) ← splitByWidth totalOwed widthLower.toNat widthTotal.toNat
  let lowerI64 ← toI64 liquidityLower
  let upperI64 ← toI64 liquidityUpper
  let pools ← ensureTickInitialized position.asset tickMid l.pools
  let (_, pools) ← placeLiquidity position.asset position.tickLower (-upperI64) pools
  let (_, pools) ← placeLiquidity position.asset tickMid (upperI64 - lowerI64) pools
  let (_, pools) ← placeLiquidity position.asset position.tickUpper lowerI64 pools
  let growthLower ← getFeeGrowthInside position.asset position.tickLower tickMid pools
  let growthUpper ← getFeeGrowthInside position.asset tickMid position.tickUpper pools
  let l := PositionLedger.removePositionRecord { l with pools := pools } positionId
  let (lowerId, l) ← l.mintPositionId
  let lower : Position := ⟨lowerId, position.owner, position.asset, position.tickLower, tickMid,
    liquidityLower, growthLower, owedLower⟩
  let l := l.setPositionRecord lower
  let (upperId, l) ← l.mintPositionId
  let upper : Position := ⟨upperId, position.owner, position.asset, tickMid, position.tickUpper,
    liquidityUpper, growthUpper, owedUpper⟩
  pure ((lower, upper), l.setPositionRecord upper)

inductive PositionCall
  | initializeTickIndex (asset : AssetId) (tickSpacing : i32.Value)
  | openPosition (owner : Address) (asset : AssetId) (tickLower tickUpper : i32.Value)
      (liquidity : ℕ)
  | splitPosition (caller : Address) (positionId : ℕ) (tickMid : i32.Value)

/-- A call together with the environment it runs in. -/
abbrev PositionStep (here : Address) := Env here × PositionCall

def positionStep {here : Address} (i : PositionStep here) (l : PositionLedger) :
    Except Fault PositionLedger :=
  match i.2 with
  | .initializeTickIndex asset spacing =>
    (fun r => { l with pools := r.2 }) <$> initializeTickIndex asset spacing.1 l.pools
  | .openPosition owner asset lower upper liquidity =>
    Prod.snd <$> openPosition i.1 owner asset lower.1 upper.1 liquidity l
  | .splitPosition caller positionId mid =>
    Prod.snd <$> splitPosition i.1 caller positionId mid.1 l

/-! ## What the ledger should say -/

/-- Liquidity of a position if its range starts at the tick. -/
def startsAt (asset : AssetId) (tick : ℤ) (r : Position) : ℤ :=
  if r.asset = asset ∧ r.tickLower = tick then r.liquidity else 0

/-- Liquidity of a position if its range ends at the tick. -/
def endsAt (asset : AssetId) (tick : ℤ) (r : Position) : ℤ :=
  if r.asset = asset ∧ r.tickUpper = tick then r.liquidity else 0

/-- Liquidity of a position if its range contains the tick. -/
def covers (asset : AssetId) (tick : ℤ) (r : Position) : ℤ :=
  if r.asset = asset ∧ r.tickLower ≤ tick ∧ tick < r.tickUpper then r.liquidity else 0

/-- Sum of a weight over the live positions. -/
def PositionLedger.sum (l : PositionLedger) (f : Position → ℤ) : ℤ :=
  Store.total (fun _ => f) l.records

/-- The ticks and the active liquidity of every pool are those of the live positions. -/
def TicksMatchPositions (l : PositionLedger) : Prop :=
  ∀ asset pool, l.pools.index.lookup asset = some pool →
    (∀ tick, (l.pools.getTickData asset tick).liquidityNet =
      l.sum (startsAt asset tick) - l.sum (endsAt asset tick)) ∧
    (∀ tick, ((l.pools.getTickData asset tick).liquidityGross : ℤ) =
      l.sum (startsAt asset tick) + l.sum (endsAt asset tick)) ∧
    (pool.activeLiquidity : ℤ) = l.sum (covers asset pool.currentTick)

/-- The position is well formed, its owner signs, and it overflows no accumulator. -/
structure OpenAdmitted {here : Address} (env : Env here) (owner : Address) (asset : AssetId)
    (pool : TickIndexMeta) (tickLower tickUpper : ℤ) (liquidity : ℕ) (l : PositionLedger) :
    Prop where
  auth : env.auth owner = true
  lower : TickAdmitted l.pools asset pool tickLower
  upper : TickAdmitted l.pools asset pool tickUpper
  range : tickLower < tickUpper
  liquidity_pos : 1 ≤ liquidity
  liquidity_le : (liquidity : ℤ) ≤ i64.hi
  gross_lower : (l.pools.getTickData asset tickLower).liquidityGross + liquidity < 2 ^ 64
  gross_upper : (l.pools.getTickData asset tickUpper).liquidityGross + liquidity < 2 ^ 64
  net_lower : i64.Fits ((l.pools.getTickData asset tickLower).liquidityNet + liquidity)
  net_upper : i64.Fits ((l.pools.getTickData asset tickUpper).liquidityNet - liquidity)
  active : pool.activeLiquidity + liquidity < 2 ^ 64
  counter : l.counter + 1 < 2 ^ 64

/-- Every admitted position can be opened. -/
def OpensSucceed (here : Address) (l : PositionLedger) : Prop :=
  ∀ (env : Env here) owner asset pool tickLower tickUpper liquidity,
    OpenAdmitted env owner asset pool tickLower tickUpper liquidity l →
      ∃ r, openPosition env owner asset tickLower tickUpper liquidity l = .ok r

def RangeLedger (here : Address) (l : PositionLedger) : Prop :=
  OpensSucceed here l ∧ TicksMatchPositions l

/-! ## Why no position is ever opened -/

section Open

variable {here : Address} {env : Env here} {owner : Address} {asset : AssetId}
  {tickLower tickUpper : ℤ} {liquidity : ℕ} {l : PositionLedger} {r : Position × PositionLedger}

theorem ensureTickInitialized_gross {p p' : Pools} {tick : ℤ}
    (h : ensureTickInitialized asset tick p = .ok p') (a : AssetId) (t : ℤ) :
    (p'.getTickData a t).liquidityGross = (p.getTickData a t).liquidityGross := by
  unfold ensureTickInitialized at h
  split_ifs at h with hsome
  · rw [pure_eq_ok.mp h]
  · simp only [bind_eq_ok, pure_eq_ok] at h
    obtain ⟨pool, _, rfl⟩ := h
    rw [getTickData_insert rfl]
    by_cases hat : a = asset ∧ t = tick
    · obtain ⟨rfl, rfl⟩ := hat
      rw [Bool.not_eq_true, Option.isSome_eq_false_iff, Option.isNone_iff_eq_none] at hsome
      simp [Pools.getTickData, hsome]
    · rw [if_neg hat]

/-- A position can only be opened over liquidity that already refers to its upper tick. -/
theorem openPosition_upper_gross
    (h : openPosition env owner asset tickLower tickUpper liquidity l = .ok r) :
    0 < liquidity ∧ liquidity ≤ (l.pools.getTickData asset tickUpper).liquidityGross := by
  simp only [openPosition, toI64, bind_eq_ok, failIf_eq_ok, okOr_eq_ok, IntRange.check_eq_some,
    not_le] at h
  obtain ⟨_, _, _, hrange, _, hpos, x, ⟨_, rfl⟩, p₁, h₁, p₂, h₂, ⟨d₃, p₃⟩, h₃, ⟨d₄, p₄⟩, h₄, _⟩ := h
  obtain ⟨_, _, hlow⟩ := placeLiquidity_placed h₃
  obtain ⟨_, _, hup⟩ := placeLiquidity_placed h₄
  have hgross := hup.gross_eq
  rw [getTickData_insert hlow.data_eq, if_neg fun hc => hrange.ne' hc.2,
    ensureTickInitialized_gross h₂, ensureTickInitialized_gross h₁] at hgross
  omega

end Open

/-- Holds in every reachable state: no tick was written and no position exists. -/
structure PositionLedger.Pristine (l : PositionLedger) : Prop where
  data_empty : l.pools.data = ∅
  records_empty : l.records = ∅
  counter_zero : l.counter = 0
  spacing_pos : ∀ asset pool, l.pools.index.lookup asset = some pool → 0 < pool.tickSpacing
  active_zero : ∀ asset pool, l.pools.index.lookup asset = some pool → pool.activeLiquidity = 0

section Pristine

variable {here : Address} {env : Env here} {owner caller : Address} {asset : AssetId}
  {tickLower tickUpper tickMid : ℤ} {liquidity positionId : ℕ} {l l' : PositionLedger}

theorem PositionLedger.Pristine.empty : PositionLedger.empty.Pristine where
  data_empty := rfl
  records_empty := rfl
  counter_zero := rfl
  spacing_pos _ _ h := by simp [PositionLedger.empty, Pools.empty] at h
  active_zero _ _ h := by simp [PositionLedger.empty, Pools.empty] at h

theorem PositionLedger.Pristine.getTickData (hp : l.Pristine) (asset : AssetId) (tick : ℤ) :
    l.pools.getTickData asset tick = ⟨0, 0, 0⟩ := by
  rw [Pools.getTickData, hp.data_empty]
  rfl

theorem PositionLedger.Pristine.openPosition_ne_ok (hp : l.Pristine)
    (r : Position × PositionLedger) :
    openPosition env owner asset tickLower tickUpper liquidity l ≠ .ok r := by
  intro h
  obtain ⟨hpos, hle⟩ := openPosition_upper_gross h
  rw [hp.getTickData] at hle
  exact hpos.not_ge hle

theorem PositionLedger.Pristine.splitPosition_ne_ok (hp : l.Pristine)
    (r : (Position × Position) × PositionLedger) :
    splitPosition env caller positionId tickMid l ≠ .ok r := by
  intro h
  simp only [splitPosition, bind_eq_ok, okOr_eq_ok, hp.records_empty, Finmap.lookup_empty] at h
  obtain ⟨_, _, _, hnone, _⟩ := h
  cases hnone

theorem PositionLedger.Pristine.ticksMatchPositions (hp : l.Pristine) :
    TicksMatchPositions l := by
  intro asset pool hpool
  simp [hp.getTickData, hp.active_zero asset pool hpool, PositionLedger.sum, hp.records_empty]

/-- Only the creation of a pool succeeds. -/
theorem positionStep_initializes (hp : l.Pristine) {i : PositionStep here}
    (h : positionStep i l = .ok l') : ∃ asset spacing pool p',
      i.2 = .initializeTickIndex asset spacing ∧
      initializeTickIndex asset spacing.1 l.pools = .ok (pool, p') ∧
      l' = { l with pools := p' } := by
  obtain ⟨env, call⟩ := i
  cases call with
  | initializeTickIndex asset spacing =>
    simp only [positionStep] at h
    cases hi : initializeTickIndex asset spacing.1 l.pools with
    | error e => simp [hi, Functor.map, Except.map] at h
    | ok r =>
      obtain ⟨pool, p'⟩ := r
      rw [hi] at h
      exact ⟨asset, spacing, pool, p', rfl, hi, (Except.ok.inj h).symm⟩
  | openPosition owner asset lower upper liquidity =>
    obtain ⟨r, h⟩ := snd_map_eq_ok.mp h
    exact absurd h (hp.openPosition_ne_ok _)
  | splitPosition caller positionId mid =>
    obtain ⟨r, h⟩ := snd_map_eq_ok.mp h
    exact absurd h (hp.splitPosition_ne_ok _)

theorem PositionLedger.Pristine.step (hp : l.Pristine) {i : PositionStep here}
    (h : positionStep i l = .ok l') : l'.Pristine := by
  obtain ⟨asset, spacing, pool, p', _, hi, rfl⟩ := positionStep_initializes hp h
  obtain ⟨hpos, _, rfl, rfl⟩ := initializeTickIndex_eq_ok.mp hi
  refine ⟨hp.data_empty, hp.records_empty, hp.counter_zero, ?_, ?_⟩
  · intro a q hq
    rcases Store.lookup_insert_eq_some.mp hq with ⟨_, rfl⟩ | ⟨_, hq⟩
    · exact hpos
    · exact hp.spacing_pos a q hq
  · intro a q hq
    rcases Store.lookup_insert_eq_some.mp hq with ⟨_, rfl⟩ | ⟨_, hq⟩
    · rfl
    · exact hp.active_zero a q hq

/-- With a spacing above the greatest tick, zero is the only aligned tick in bounds. -/
theorem TickAdmitted.eq_zero {p : Pools} {pool : TickIndexMeta} {tick : ℤ}
    (h : TickAdmitted p asset pool tick) (hs : maxTickIndex < pool.tickSpacing) : tick = 0 := by
  have hdvd := Int.dvd_of_tmod_eq_zero h.aligned
  have hlow := h.lower
  have hup := h.upper
  apply Int.eq_zero_of_abs_lt_dvd hdvd
  rw [abs_lt]
  simp only [minTickIndex, maxTickIndex] at *
  omega

/-- A pool with two aligned ticks in bounds has a position that should open and does not. -/
theorem rangeLedger_iff (hp : l.Pristine) : RangeLedger here l ↔
    ∀ asset pool, l.pools.index.lookup asset = some pool → maxTickIndex < pool.tickSpacing := by
  constructor
  · rintro ⟨hopen, _⟩ asset pool hpool
    by_contra hle
    push Not at hle
    have hpos := hp.spacing_pos asset pool hpool
    have hadm : OpenAdmitted (.standard here 0 none) ⟨here.raw + 1⟩ asset pool 0
        pool.tickSpacing 1 l := by
      refine ⟨?_, ⟨hpool, by simp, by decide, by decide⟩, ⟨hpool, by simp, ?_, hle⟩, hpos, le_rfl,
        by decide, ?_, ?_, ?_, ?_, ?_, ?_⟩
      · simp only [Env.standard, ne_eq, decide_not, Bool.not_eq_true', decide_eq_false_iff_not]
        intro heq
        have := congrArg Address.raw heq
        simp at this
      · exact (by decide : minTickIndex ≤ 0).trans hpos.le
      all_goals
        simp only [hp.getTickData, hp.active_zero asset pool hpool, hp.counter_zero]
        decide
    obtain ⟨r, hr⟩ := hopen _ _ _ _ _ _ _ hadm
    exact hp.openPosition_ne_ok r hr
  · intro hall
    refine ⟨fun env owner asset pool lower upper liquidity hadm => ?_, hp.ticksMatchPositions⟩
    have hs := hall asset pool hadm.lower.indexed
    have hlow := hadm.lower.eq_zero hs
    have hup := hadm.upper.eq_zero hs
    have := hadm.range
    omega

end Pristine

/-- The call creates no pool on which a range exists. -/
def CreatesNoRange {here : Address} (l : PositionLedger) (i : PositionStep here) : Prop :=
  ∀ asset spacing, i.2 = .initializeTickIndex asset spacing →
    l.pools.index.lookup asset = none → 0 < spacing.1 → maxTickIndex < spacing.1

theorem commit_rangeLedger_iff {here : Address} {l : PositionLedger} (hp : l.Pristine)
    (hr : RangeLedger here l) (i : PositionStep here) :
    RangeLedger here (commit positionStep l i) ↔ CreatesNoRange l i := by
  cases h : positionStep i l with
  | error e =>
    rw [commit_of_error h]
    refine iff_of_true hr fun asset spacing hcall hnone hpos => ?_
    obtain ⟨env, call⟩ := i
    obtain rfl : call = .initializeTickIndex asset spacing := hcall
    have hok := (initializeTickIndex_eq_ok (p := l.pools)).mpr ⟨hpos, hnone, rfl, rfl⟩
    simp [positionStep, hok, Functor.map, Except.map] at h
  | ok l' =>
    rw [commit_of_ok h, rangeLedger_iff (hp.step h)]
    obtain ⟨asset, spacing, pool, p', hcall, hi, rfl⟩ := positionStep_initializes hp h
    obtain ⟨hpos, hnone, rfl, rfl⟩ := initializeTickIndex_eq_ok.mp hi
    constructor
    · intro hall a sp hcall' _ _
      obtain ⟨rfl, rfl⟩ : asset = a ∧ spacing = sp := by
        rw [hcall] at hcall'
        simpa using hcall'
      exact hall _ _ (Store.lookup_insert_eq_some.mpr (.inl ⟨rfl, rfl⟩))
    · intro hnew a q hq
      rcases Store.lookup_insert_eq_some.mp hq with ⟨_, rfl⟩ | ⟨_, hq⟩
      · exact hnew asset spacing hcall hnone hpos
      · exact (rangeLedger_iff hp).mp hr a q hq

/-- A pool with spacing one. -/
def freshPoolRun : List (PositionStep ⟨0⟩) :=
  [(.standard _ 0 none, .initializeTickIndex 1 ⟨1, by decide⟩)]

end StellarFlow.Amm
