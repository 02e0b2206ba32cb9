import StellarFlow.Fees.DynamicFee

/-!
# Adaptive fees after the volatility of a pool

Each pool has a buffer of prices and a volatility that decays with time. The fee of a swap is
resolved from both, and the volatility is stored anew. The queries resolve the fee in the same
way and store the volatility too, so they restart its decay.
-/
namespace StellarFlow.Amm

open Foundation

/-- The settings of a pool, whose storage is not among the modelled code. -/
structure AdaptiveFeeConfig where
  sampleIntervalSecs : ℕ
  ringBufferLen : ℕ
  lowVolatilityBps : ℕ
  highVolatilityBps : ℕ
  baseFeeBps : ℕ
  maxFeeBps : ℕ
  decayHalfLifeSecs : ℕ
  deriving DecidableEq

structure PriceObservationBuffer where
  /-- The newest price is the last one. -/
  prices : List ℤ
  /-- Absent while the buffer is empty. -/
  assetSymbol : Option Symbol
  lastObserved : ℕ
  deriving DecidableEq

structure AdaptiveFeeState where
  volatilityBps : ℕ
  feeBps : ℕ
  lastUpdated : ℕ
  deriving DecidableEq

structure AdaptiveFeeSnapshot where
  pool : AssetId
  assetSymbol : Option Symbol
  volatilityBps : ℕ
  feeBps : ℕ
  baseFeeBps : ℕ
  maxFeeBps : ℕ
  observations : ℕ
  deriving DecidableEq

structure AdaptiveStore where
  rings : Store AssetId PriceObservationBuffer
  states : Store AssetId AdaptiveFeeState

namespace AdaptiveStore

def loadRing (pool : AssetId) (s : AdaptiveStore) : PriceObservationBuffer :=
  (s.rings.lookup pool).getD ⟨[], none, 0⟩

def saveRing (pool : AssetId) (buf : PriceObservationBuffer) (s : AdaptiveStore) :
    AdaptiveStore :=
  { s with rings := s.rings.insert pool buf }

/-- A pool without a state has none since now. -/
def loadState (now : ℕ) (pool : AssetId) (s : AdaptiveStore) : AdaptiveFeeState :=
  (s.states.lookup pool).getD ⟨0, 0, now⟩

def saveState (pool : AssetId) (state : AdaptiveFeeState) (s : AdaptiveStore) : AdaptiveStore :=
  { s with states := s.states.insert pool state }

end AdaptiveStore

/-! ## Volatility and fee -/

/-- Drop the oldest prices beyond a number. -/
def trimRing (maxLen : ℕ) (prices : List ℤ) : List ℤ := prices.drop (prices.length - maxLen)

/-- The number of digits in base four that the root is recovered from. -/
def isqrtDigits : ℕ → ℕ → ℕ
  | 0, _ => 0
  | digits + 1, num => if num < 4 ^ digits then isqrtDigits digits num else digits + 1

/-- The loop over the digits, with the residual and the root so far. -/
def isqrtLoop : ℕ → ℕ → ℕ → ℕ
  | 0, _, res => res
  | digits + 1, num, res =>
    let bit := 4 ^ digits
    if res + bit ≤ num then isqrtLoop digits (num - (res + bit)) (res / 2 + bit)
    else isqrtLoop digits num (res / 2)

def isqrt (num : ℕ) : ℕ := isqrtLoop (isqrtDigits 64 num) num 0

def sumPrices : List ℤ → ℤ → Except Fault ℤ
  | [], sum => pure sum
  | price :: prices, sum => do
    let sum ← okOr (i128.check (sum + price)) (Fault.error .overflow)
    sumPrices prices sum

def sumSquares (mean : ℤ) : List ℤ → ℤ → Except Fault ℤ
  | [], sumSq => pure sumSq
  | price :: prices, sumSq => do
    let dev ← okOr (i128.check (price - mean)) (Fault.error .overflow)
    let dev ← okOr (i128.check |dev|) Fault.trap
    let sq ← okOr (i128.check (dev * dev)) (Fault.error .overflow)
    let sumSq ← okOr (i128.check (sumSq + sq)) (Fault.error .overflow)
    sumSquares mean prices sumSq

/-- The volatility and whether there is enough data for one. -/
def computeVolatilityBps (now : ℕ) (pool : AssetId) (cfg : AdaptiveFeeConfig)
    (s : AdaptiveStore) : Except Fault (ℕ × Bool) := do
  let buf := s.loadRing pool
  let n := buf.prices.length
  if n < 2 then pure (0, false)
  else do
    let sum ← sumPrices buf.prices 0
    let mean := sum.tdiv n
    if mean ≤ 0 then pure (0, false)
    else do
      let sumSq ← sumSquares mean buf.prices 0
      let variance := sumSq.tdiv n
      let stdDev := isqrt variance.natAbs
      let scaled ← okOr (checkBits 128 (stdDev * 10000)) (Fault.error .overflow)
      let volBps := scaled / mean.natAbs
      let windowSecs ← okOr (checkBits 128 (cfg.sampleIntervalSecs * cfg.ringBufferLen))
        (Fault.error .overflow)
      let stale := match checkedSub now buf.lastObserved with
        | some age => decide (windowSecs < age)
        | none => true
      pure (if stale then 0 else volBps % 2 ^ 64, true)

def feeForVolatility (volBps : ℕ) (cfg : AdaptiveFeeConfig) : Except Fault ℕ :=
  if volBps ≤ cfg.lowVolatilityBps then pure cfg.baseFeeBps
  else if cfg.highVolatilityBps ≤ volBps then pure cfg.maxFeeBps
  else
    let span := cfg.maxFeeBps - cfg.baseFeeBps
    let ratio := (volBps - cfg.lowVolatilityBps) * span /
      (cfg.highVolatilityBps - cfg.lowVolatilityBps)
    -- The sum is at most the larger fee, so its cast to 32 bits drops nothing.
    Fees.clamp (cfg.baseFeeBps + ratio) cfg.baseFeeBps cfg.maxFeeBps

def decayedVolatility (prevVol halfLifeSecs elapsedSecs : ℕ) : ℕ :=
  if elapsedSecs = 0 then prevVol
  else if halfLifeSecs + elapsedSecs = 0 then prevVol
  else prevVol * halfLifeSecs / (halfLifeSecs + elapsedSecs)

/-! ## Entry points -/

section Calls

variable (config : AssetId → Option AdaptiveFeeConfig) (now : ℕ)

def recordPriceObservation (pool : AssetId) (assetSymbol : Symbol) (price : ℤ)
    (s : AdaptiveStore) : Except Fault (ℕ × AdaptiveStore) := do
  let cfg ← okOr (config pool) (Fault.error .notRegistered)
  failIf (price ≤ 0) (Fault.error .amountTooLow)
  let buf := s.loadRing pool
  let populated := 0 < buf.prices.length
  let elapsed := now - buf.lastObserved
  if populated ∧ elapsed < cfg.sampleIntervalSecs then pure (buf.prices.length, s)
  else
    let prices := trimRing cfg.ringBufferLen (buf.prices ++ [price])
    pure (prices.length, s.saveRing pool
      { prices
        assetSymbol := if populated then buf.assetSymbol else some assetSymbol
        lastObserved := now })

/-- The fee and the volatility in force, which is stored. -/
def resolveAdaptiveFee (pool : AssetId) (s : AdaptiveStore) :
    Except Fault ((ℕ × ℕ) × AdaptiveStore) := do
  let cfg ← okOr (config pool) (Fault.error .notRegistered)
  let (instVol, _) ← computeVolatilityBps now pool cfg s
  let prev := s.loadState now pool
  let elapsed := now - prev.lastUpdated
  let decayed := decayedVolatility prev.volatilityBps cfg.decayHalfLifeSecs elapsed
  let effectiveVol := max instVol decayed
  let feeBps ← feeForVolatility effectiveVol cfg
  pure ((feeBps, effectiveVol), s.saveState pool ⟨effectiveVol, feeBps, now⟩)

def getAdaptiveFeeSnapshot (pool : AssetId) (s : AdaptiveStore) :
    Except Fault (AdaptiveFeeSnapshot × AdaptiveStore) := do
  let cfg ← okOr (config pool) (Fault.error .notRegistered)
  let ((feeBps, volatilityBps), s) ← resolveAdaptiveFee config now pool s
  let buf := s.loadRing pool
  pure (⟨pool, buf.assetSymbol, volatilityBps, feeBps, cfg.baseFeeBps, cfg.maxFeeBps,
    buf.prices.length⟩, s)

def getPoolVolatilityBps (pool : AssetId) (s : AdaptiveStore) :
    Except Fault (ℕ × AdaptiveStore) := do
  let _ ← okOr (config pool) (Fault.error .notRegistered)
  let ((_, vol), s) ← resolveAdaptiveFee config now pool s
  pure (vol, s)

end Calls

/-! ## The fee of a volatility -/

section Fee

variable {cfg : AdaptiveFeeConfig} {vol vol' fee fee' : ℕ}

theorem feeForVolatility_mem (hband : cfg.baseFeeBps ≤ cfg.maxFeeBps)
    (h : feeForVolatility vol cfg = .ok fee) : cfg.baseFeeBps ≤ fee ∧ fee ≤ cfg.maxFeeBps := by
  rw [feeForVolatility] at h
  split_ifs at h
  · obtain rfl := pure_eq_ok.mp h
    exact ⟨le_rfl, hband⟩
  · obtain rfl := pure_eq_ok.mp h
    exact ⟨hband, le_rfl⟩
  · obtain ⟨-, rfl⟩ := Fees.clamp_eq_ok.mp h
    omega

/-- A higher volatility has no lower fee. -/
theorem feeForVolatility_mono (hband : cfg.baseFeeBps ≤ cfg.maxFeeBps) (hle : vol ≤ vol')
    (h : feeForVolatility vol cfg = .ok fee) (h' : feeForVolatility vol' cfg = .ok fee') :
    fee ≤ fee' := by
  have hmem := feeForVolatility_mem hband h
  have hmem' := feeForVolatility_mem hband h'
  rw [feeForVolatility] at h h'
  split_ifs at h with hlow hhigh
  · obtain rfl := pure_eq_ok.mp h
    exact hmem'.1
  · have hlow' : ¬ vol' ≤ cfg.lowVolatilityBps := by omega
    rw [if_neg hlow', if_pos (hhigh.trans hle)] at h'
    exact (pure_eq_ok.mp h').symm ▸ hmem.2
  · split_ifs at h' with hlow' hhigh'
    · omega
    · exact (pure_eq_ok.mp h').symm ▸ hmem.2
    · obtain ⟨-, rfl⟩ := Fees.clamp_eq_ok.mp h
      obtain ⟨-, rfl⟩ := Fees.clamp_eq_ok.mp h'
      have hratio : (vol - cfg.lowVolatilityBps) * (cfg.maxFeeBps - cfg.baseFeeBps) /
            (cfg.highVolatilityBps - cfg.lowVolatilityBps) ≤
          (vol' - cfg.lowVolatilityBps) * (cfg.maxFeeBps - cfg.baseFeeBps) /
            (cfg.highVolatilityBps - cfg.lowVolatilityBps) :=
        Nat.div_le_div_right (Nat.mul_le_mul_right _ (Nat.sub_le_sub_right hle _))
      omega

end Fee

/-! ## When storing the volatility changes nothing later -/

section Decay

variable {vol halfLife elapsed now lastUpdated inst : ℕ}

@[simp] theorem decayedVolatility_zero (vol halfLife : ℕ) :
    decayedVolatility vol halfLife 0 = vol := if_pos rfl

theorem decayedVolatility_of_pos (h : 0 < elapsed) :
    decayedVolatility vol halfLife elapsed = vol * halfLife / (halfLife + elapsed) := by
  rw [decayedVolatility, if_neg h.ne', if_neg (by omega)]

theorem decayedVolatility_le (vol halfLife elapsed : ℕ) :
    decayedVolatility vol halfLife elapsed ≤ vol := by
  rcases Nat.eq_zero_or_pos elapsed with rfl | hpos
  · rw [decayedVolatility_zero]
  · rw [decayedVolatility_of_pos hpos]
    refine Nat.div_le_of_le_mul ?_
    rw [mul_comm]
    exact Nat.mul_le_mul_right _ (Nat.le_add_right _ _)

/-- Nothing is left of a volatility of zero. -/
@[simp] theorem zero_decayedVolatility (halfLife elapsed : ℕ) :
    decayedVolatility 0 halfLife elapsed = 0 :=
  Nat.le_zero.mp (decayedVolatility_le 0 halfLife elapsed)

/-- The decayed volatility is zero exactly after this time. -/
theorem decayedVolatility_eq_zero (h : 0 < elapsed) :
    decayedVolatility vol halfLife elapsed = 0 ↔ vol * halfLife < halfLife + elapsed := by
  rw [decayedVolatility_of_pos h, Nat.div_eq_zero_iff]
  omega

/-- The stored volatility has decayed to nothing, or was stored just now, or has decayed to one
at the last moment. The volatility of the buffer is not above it. -/
def Settled (vol halfLife lastUpdated now inst : ℕ) : Prop :=
  let decayed := decayedVolatility vol halfLife (now - lastUpdated)
  inst ≤ decayed ∧
    (now = lastUpdated ∨ decayed = 0 ∨
      lastUpdated < now ∧ decayed = 1 ∧ now - lastUpdated = (vol - 1) * halfLife)

/-- The decay restarted from a volatility of at least two takes longer or shorter than the one
that goes on. -/
theorem decayedVolatility_ne_of_two_le (helapsed : 0 < elapsed)
    (htwo : 2 ≤ decayedVolatility vol halfLife elapsed) :
    ∃ e, decayedVolatility (decayedVolatility vol halfLife elapsed) halfLife e ≠
      decayedVolatility vol halfLife (elapsed + e) := by
  obtain ⟨f, hf⟩ : ∃ f, f = decayedVolatility vol halfLife elapsed := ⟨_, rfl⟩
  rw [← hf] at htwo ⊢
  have hdiv : f * (halfLife + elapsed) ≤ vol * halfLife := by
    rw [decayedVolatility_of_pos helapsed] at hf
    rw [hf]
    exact Nat.div_mul_le_self _ _
  obtain ⟨k, rfl⟩ : ∃ k, f = k + 2 := ⟨f - 2, by omega⟩
  -- After this time the restarted volatility is zero and the other one is not.
  refine ⟨(k + 1) * halfLife + 1, fun heq => ?_⟩
  have hzero : decayedVolatility (k + 2) halfLife ((k + 1) * halfLife + 1) = 0 := by
    rw [decayedVolatility_eq_zero (by omega)]
    nlinarith
  rw [hzero, eq_comm, decayedVolatility_eq_zero (by omega)] at heq
  nlinarith

/-- A settled volatility decays from the time of a query as it did before. -/
theorem Settled.decayedVolatility_eq {later : ℕ} (h : Settled vol halfLife lastUpdated now inst)
    (hlater : now ≤ later) :
    decayedVolatility (max inst (decayedVolatility vol halfLife (now - lastUpdated)))
        halfLife (later - now) =
      decayedVolatility vol halfLife (later - lastUpdated) := by
  obtain ⟨hinst, hcase⟩ := h
  rw [max_eq_right hinst]
  obtain rfl | hzero | ⟨hlt, hone, htime⟩ := hcase
  · rw [Nat.sub_self, decayedVolatility_zero]
  · rw [hzero, zero_decayedVolatility]
    rcases Nat.eq_zero_or_pos (now - lastUpdated) with hnow | hnow
    · rw [hnow, decayedVolatility_zero] at hzero
      rw [hzero, zero_decayedVolatility]
    · rw [decayedVolatility_eq_zero hnow] at hzero
      rw [eq_comm, decayedVolatility_eq_zero (by omega)]
      omega
  · rw [hone]
    obtain rfl | hafter := hlater.eq_or_lt
    · rw [Nat.sub_self, decayedVolatility_zero, hone]
    · obtain ⟨k, rfl⟩ : ∃ k, vol = k + 1 := by
        refine ⟨vol - 1, ?_⟩
        rcases Nat.eq_zero_or_pos vol with rfl | hpos
        · rw [zero_decayedVolatility] at hone
          cases hone
        · omega
      rw [Nat.add_sub_cancel] at htime
      have hleft : decayedVolatility 1 halfLife (later - now) = 0 := by
        rw [decayedVolatility_eq_zero (by omega)]
        omega
      rw [hleft, eq_comm, decayedVolatility_eq_zero (by omega), add_mul]
      omega

/-- Only a settled volatility decays as if nothing had been stored. -/
theorem settled_of_decayedVolatility_eq
    (h : ∀ later, now ≤ later →
      decayedVolatility (max inst (decayedVolatility vol halfLife (now - lastUpdated)))
          halfLife (later - now) =
        decayedVolatility vol halfLife (later - lastUpdated)) :
    Settled vol halfLife lastUpdated now inst := by
  have hnow := h now le_rfl
  rw [Nat.sub_self, decayedVolatility_zero] at hnow
  have hinst : inst ≤ decayedVolatility vol halfLife (now - lastUpdated) :=
    max_eq_right_iff.mp hnow
  refine ⟨hinst, ?_⟩
  rw [max_eq_right hinst] at h
  rcases lt_trichotomy now lastUpdated with hfuture | heq | hpast
  · right
    left
    have hlast := h lastUpdated hfuture.le
    rw [Nat.sub_self, Nat.sub_eq_zero_of_le hfuture.le, decayedVolatility_zero] at hlast
    rw [Nat.sub_eq_zero_of_le hfuture.le, decayedVolatility_zero]
    by_contra hpos
    have hloss := Nat.mul_pos (Nat.pos_of_ne_zero hpos) (Nat.sub_pos_of_lt hfuture)
    rw [decayedVolatility_of_pos (by omega), Nat.div_eq_iff (by omega), mul_add] at hlast
    omega
  · exact .inl heq
  · rcases Nat.lt_or_ge (decayedVolatility vol halfLife (now - lastUpdated)) 2 with hlt | hge
    · rcases Nat.eq_zero_or_pos (decayedVolatility vol halfLife (now - lastUpdated)) with
        hzero | hpos
      · exact .inr (.inl hzero)
      · have hone : decayedVolatility vol halfLife (now - lastUpdated) = 1 := by omega
        refine .inr (.inr ⟨hpast, hone, ?_⟩)
        have hnext := h (now + 1) (Nat.le_add_right _ _)
        rw [hone, Nat.add_sub_cancel_left] at hnext
        have hleft : decayedVolatility 1 halfLife 1 = 0 := by
          rw [decayedVolatility_eq_zero (by omega)]
          omega
        rw [hleft, eq_comm, decayedVolatility_eq_zero (by omega)] at hnext
        have hfits : ¬ vol * halfLife < halfLife + (now - lastUpdated) := by
          rw [← decayedVolatility_eq_zero (by omega), hone]
          decide
        rw [Nat.sub_mul, one_mul]
        omega
    · obtain ⟨e, hne⟩ := decayedVolatility_ne_of_two_le (by omega) hge
      refine absurd ?_ hne
      have he := h (now + e) (Nat.le_add_right _ _)
      rw [Nat.add_sub_cancel_left] at he
      rw [he, show now + e - lastUpdated = now - lastUpdated + e by omega]

theorem settled_iff :
    Settled vol halfLife lastUpdated now inst ↔
      ∀ later, now ≤ later →
        decayedVolatility (max inst (decayedVolatility vol halfLife (now - lastUpdated)))
            halfLife (later - now) =
          decayedVolatility vol halfLife (later - lastUpdated) :=
  ⟨fun h _ hlater => h.decayedVolatility_eq hlater, settled_of_decayedVolatility_eq⟩

end Decay

/-! ## Runs with and without queries -/

inductive AdaptiveCall where
  | recordPriceObservation (pool : AssetId) (assetSymbol : Symbol) (price : ℤ)
  | resolveAdaptiveFee (pool : AssetId)
  | getAdaptiveFeeSnapshot (pool : AssetId)
  | getPoolVolatilityBps (pool : AssetId)

section Runs

variable (config : AssetId → Option AdaptiveFeeConfig)

def AdaptiveCall.exec (now : ℕ) (s : AdaptiveStore) : AdaptiveCall → Except Fault AdaptiveStore
  | recordPriceObservation pool assetSymbol price =>
    Prod.snd <$> Amm.recordPriceObservation config now pool assetSymbol price s
  | resolveAdaptiveFee pool => Prod.snd <$> Amm.resolveAdaptiveFee config now pool s
  | getAdaptiveFeeSnapshot pool => Prod.snd <$> Amm.getAdaptiveFeeSnapshot config now pool s
  | getPoolVolatilityBps pool => Prod.snd <$> Amm.getPoolVolatilityBps config now pool s

/-- The pool that a call only asks about. -/
def AdaptiveCall.queries : AdaptiveCall → Option AssetId
  | getAdaptiveFeeSnapshot pool | getPoolVolatilityBps pool => some pool
  | _ => none

/-- The fee and the volatility that a call resolves for a swap. -/
def AdaptiveCall.outcome (now : ℕ) (s : AdaptiveStore) :
    AdaptiveCall → List (AssetId × Except Fault (ℕ × ℕ))
  | resolveAdaptiveFee pool => [(pool, Prod.fst <$> Amm.resolveAdaptiveFee config now pool s)]
  | _ => []

/-- A call at a time. -/
def adaptiveStep (i : ℕ × AdaptiveCall) (s : AdaptiveStore) : Except Fault AdaptiveStore :=
  i.2.exec config i.1 s

def outcomes : AdaptiveStore → List (ℕ × AdaptiveCall) →
    List (AssetId × Except Fault (ℕ × ℕ))
  | _, [] => []
  | s, i :: run => i.2.outcome config i.1 s ++ outcomes (commit (adaptiveStep config) s i) run

def withoutQueries (run : List (ℕ × AdaptiveCall)) : List (ℕ × AdaptiveCall) :=
  run.filter fun i => i.2.queries.isNone

/-- A query comes when storing the volatility of its pool anew changes nothing later. -/
def SparesDecay (s : AdaptiveStore) (i : ℕ × AdaptiveCall) : Prop :=
  ∀ pool cfg inst hasData, i.2.queries = some pool → config pool = some cfg →
    computeVolatilityBps i.1 pool cfg s = .ok (inst, hasData) →
      Settled (s.loadState i.1 pool).volatilityBps cfg.decayHalfLifeSecs
        (s.loadState i.1 pool).lastUpdated i.1 inst

variable {config} {now later : ℕ} {pool other : AssetId} {cfg : AdaptiveFeeConfig}
  {s s' t t' : AdaptiveStore} {fee vol inst : ℕ}

/-- What is left of the stored volatility at a time. -/
def decayedAt (cfg : AdaptiveFeeConfig) (now : ℕ) (pool : AssetId) (s : AdaptiveStore) : ℕ :=
  decayedVolatility (s.loadState now pool).volatilityBps cfg.decayHalfLifeSecs
    (now - (s.loadState now pool).lastUpdated)

/-- Two stores that no call but a query can tell apart from a time on. -/
structure Agree (config : AssetId → Option AdaptiveFeeConfig) (now : ℕ) (s t : AdaptiveStore) :
    Prop where
  rings : s.rings = t.rings
  decayed : ∀ pool cfg, config pool = some cfg → ∀ later, now ≤ later →
    decayedAt cfg later pool s = decayedAt cfg later pool t

theorem Agree.refl (now : ℕ) (s : AdaptiveStore) : Agree config now s s :=
  ⟨rfl, fun _ _ _ _ _ => rfl⟩

theorem Agree.trans {u : AdaptiveStore} (hst : Agree config now s t) (htu : Agree config now t u) :
    Agree config now s u :=
  ⟨hst.rings.trans htu.rings, fun pool cfg hcfg later hle =>
    (hst.decayed pool cfg hcfg later hle).trans (htu.decayed pool cfg hcfg later hle)⟩

theorem Agree.mono (h : Agree config now s t) (hle : now ≤ later) : Agree config later s t :=
  ⟨h.rings, fun pool cfg hcfg time htime => h.decayed pool cfg hcfg time (hle.trans htime)⟩

theorem loadState_saveState (state : AdaptiveFeeState) :
    (s.saveState pool state).loadState now pool = state := by
  rw [AdaptiveStore.loadState, AdaptiveStore.saveState, Finmap.lookup_insert, Option.getD_some]

theorem loadState_saveState_of_ne (state : AdaptiveFeeState) (h : other ≠ pool) :
    (s.saveState pool state).loadState now other = s.loadState now other := by
  rw [AdaptiveStore.loadState, AdaptiveStore.saveState, Finmap.lookup_insert_of_ne _ h,
    AdaptiveStore.loadState]

theorem resolveAdaptiveFee_eq_ok
    (h : resolveAdaptiveFee config now pool s = .ok ((fee, vol), s')) :
    ∃ cfg inst hasData, config pool = some cfg ∧
      computeVolatilityBps now pool cfg s = .ok (inst, hasData) ∧
      vol = max inst (decayedAt cfg now pool s) ∧ feeForVolatility vol cfg = .ok fee ∧
      s' = s.saveState pool ⟨vol, fee, now⟩ := by
  obtain ⟨cfg, hcfg, h⟩ := bind_eq_ok.mp h
  obtain ⟨⟨inst, hasData⟩, hinst, h⟩ := bind_eq_ok.mp h
  obtain ⟨_, hfee, hwrite⟩ := bind_eq_ok.mp h
  obtain ⟨heq, rfl⟩ := Prod.mk.inj (pure_eq_ok.mp hwrite)
  obtain ⟨rfl, rfl⟩ := Prod.mk.inj heq
  exact ⟨cfg, inst, hasData, okOr_eq_ok.mp hcfg, hinst, rfl, hfee, rfl⟩

/-- A query leaves what resolving the fee leaves. -/
theorem exec_of_queries {call : AdaptiveCall} (hquery : call.queries = some pool)
    (h : call.exec config now s = .ok s') :
    ∃ r, resolveAdaptiveFee config now pool s = .ok (r, s') := by
  cases call with
  | recordPriceObservation pool assetSymbol price => cases hquery
  | resolveAdaptiveFee pool => cases hquery
  | getAdaptiveFeeSnapshot pool =>
    obtain rfl := Option.some.inj hquery
    obtain ⟨snapshot, h⟩ := snd_map_eq_ok.mp h
    obtain ⟨cfg, -, h⟩ := bind_eq_ok.mp h
    obtain ⟨⟨r, s₁⟩, hresolve, hwrite⟩ := bind_eq_ok.mp h
    obtain ⟨-, rfl⟩ := Prod.mk.inj (pure_eq_ok.mp hwrite)
    exact ⟨r, hresolve⟩
  | getPoolVolatilityBps pool =>
    obtain rfl := Option.some.inj hquery
    obtain ⟨vol, h⟩ := snd_map_eq_ok.mp h
    obtain ⟨cfg, -, h⟩ := bind_eq_ok.mp h
    obtain ⟨⟨r, s₁⟩, hresolve, hwrite⟩ := bind_eq_ok.mp h
    obtain ⟨-, rfl⟩ := Prod.mk.inj (pure_eq_ok.mp hwrite)
    exact ⟨r, hresolve⟩

/-- A settled volatility may be stored anew. -/
theorem agree_saveState (hcfg : config pool = some cfg)
    (hsettled : Settled (s.loadState now pool).volatilityBps cfg.decayHalfLifeSecs
      (s.loadState now pool).lastUpdated now inst) (fee : ℕ) :
    Agree config now
      (s.saveState pool ⟨max inst (decayedAt cfg now pool s), fee, now⟩) s := by
  refine ⟨rfl, fun other cfg' hcfg' later hle => ?_⟩
  by_cases hpool : other = pool
  · subst hpool
    obtain rfl := Option.some.inj (hcfg.symm.trans hcfg')
    rw [decayedAt, loadState_saveState]
    dsimp only
    rw [decayedAt, decayedAt, settled_iff.mp hsettled later hle]
    rw [AdaptiveStore.loadState, AdaptiveStore.loadState]
    cases s.states.lookup other with
    | none => rw [Option.getD_none, Option.getD_none, zero_decayedVolatility,
        zero_decayedVolatility]
    | some state => rfl
  · rw [decayedAt, loadState_saveState_of_ne _ hpool, decayedAt]

theorem agree_of_query (h : Agree config now s t) {i : ℕ × AdaptiveCall} (hle : now ≤ i.1)
    (hquery : i.2.queries = some pool) (hspared : SparesDecay config s i) :
    Agree config i.1 (commit (adaptiveStep config) s i) t := by
  refine commit_induction (P := fun s' => Agree config i.1 s' t) (h.mono hle) fun s' h0 => ?_
  obtain ⟨⟨fee, vol⟩, hresolve⟩ := exec_of_queries hquery h0
  obtain ⟨cfg, inst, hasData, hcfg, hinst, rfl, -, rfl⟩ := resolveAdaptiveFee_eq_ok hresolve
  exact (agree_saveState hcfg (hspared pool cfg inst hasData hquery hcfg hinst) fee).trans
    (h.mono hle)

/-- The volatility of the buffer is a matter of the buffers. -/
theorem computeVolatilityBps_congr (h : s.rings = t.rings) :
    computeVolatilityBps now pool cfg s = computeVolatilityBps now pool cfg t := by
  rw [computeVolatilityBps, computeVolatilityBps, AdaptiveStore.loadRing,
    AdaptiveStore.loadRing, h]

/-- The fee and the volatility in force, without the state that is written. -/
def resolvedFee (config : AssetId → Option AdaptiveFeeConfig) (now : ℕ) (pool : AssetId)
    (s : AdaptiveStore) : Except Fault (ℕ × ℕ) := do
  let cfg ← okOr (config pool) (Fault.error .notRegistered)
  let (inst, _) ← computeVolatilityBps now pool cfg s
  let vol := max inst (decayedAt cfg now pool s)
  let fee ← feeForVolatility vol cfg
  pure (fee, vol)

theorem resolveAdaptiveFee_eq (now : ℕ) (pool : AssetId) (s : AdaptiveStore) :
    resolveAdaptiveFee config now pool s =
      (fun r : ℕ × ℕ => (r, s.saveState pool ⟨r.2, r.1, now⟩)) <$>
        resolvedFee config now pool s := by
  rw [resolveAdaptiveFee, resolvedFee]
  cases config pool with
  | none => rfl
  | some cfg =>
    change (computeVolatilityBps now pool cfg s >>= _) =
      (fun r : ℕ × ℕ => (r, s.saveState pool ⟨r.2, r.1, now⟩)) <$>
        (computeVolatilityBps now pool cfg s >>= _)
    cases computeVolatilityBps now pool cfg s with
    | error e => rfl
    | ok inst =>
      change (feeForVolatility (max inst.1 (decayedAt cfg now pool s)) cfg >>= _) =
        (fun r : ℕ × ℕ => (r, s.saveState pool ⟨r.2, r.1, now⟩)) <$>
          (feeForVolatility (max inst.1 (decayedAt cfg now pool s)) cfg >>= _)
      cases feeForVolatility (max inst.1 (decayedAt cfg now pool s)) cfg <;> rfl

theorem resolvedFee_congr (h : Agree config now s t) (pool : AssetId) :
    resolvedFee config now pool s = resolvedFee config now pool t := by
  rw [resolvedFee, resolvedFee]
  cases hcfg : config pool with
  | none => rfl
  | some cfg =>
    have hdecayed := h.decayed pool cfg hcfg now le_rfl
    dsimp only [okOr_some, bind, Except.bind]
    rw [computeVolatilityBps_congr h.rings, hdecayed]

/-- Resolving the fee of stores that agree gives the same result, and they agree again. -/
theorem agree_of_resolve (h : Agree config now s t) (pool : AssetId) :
    Prod.fst <$> resolveAdaptiveFee config now pool s =
        Prod.fst <$> resolveAdaptiveFee config now pool t ∧
      Agree config now (commit (adaptiveStep config) s (now, .resolveAdaptiveFee pool))
        (commit (adaptiveStep config) t (now, .resolveAdaptiveFee pool)) := by
  have hstep (s : AdaptiveStore) : adaptiveStep config (now, .resolveAdaptiveFee pool) s =
      Prod.snd <$> resolveAdaptiveFee config now pool s := rfl
  rw [commit, commit, hstep, hstep, resolveAdaptiveFee_eq, resolveAdaptiveFee_eq,
    resolvedFee_congr h pool]
  cases resolvedFee config now pool t with
  | error e => exact ⟨rfl, h⟩
  | ok r =>
    refine ⟨rfl, h.rings, fun other cfg hcfg later hle => ?_⟩
    change decayedAt cfg later other (s.saveState pool ⟨r.2, r.1, now⟩) =
      decayedAt cfg later other (t.saveState pool ⟨r.2, r.1, now⟩)
    by_cases hpool : other = pool
    · rw [hpool, decayedAt, decayedAt, loadState_saveState, loadState_saveState]
    · rw [decayedAt, decayedAt, loadState_saveState_of_ne _ hpool,
        loadState_saveState_of_ne _ hpool]
      exact h.decayed other cfg hcfg later hle

/-- A recorded price changes the buffers of stores that agree in the same way. -/
theorem agree_of_record (h : Agree config now s t) (pool : AssetId) (assetSymbol : Symbol)
    (price : ℤ) :
    Agree config now
      (commit (adaptiveStep config) s (now, .recordPriceObservation pool assetSymbol price))
      (commit (adaptiveStep config) t (now, .recordPriceObservation pool assetSymbol price)) := by
  have hring : s.loadRing pool = t.loadRing pool := by
    rw [AdaptiveStore.loadRing, AdaptiveStore.loadRing, h.rings]
  have hstep (s : AdaptiveStore) :
      adaptiveStep config (now, .recordPriceObservation pool assetSymbol price) s =
        Prod.snd <$> recordPriceObservation config now pool assetSymbol price s := rfl
  rw [commit, commit, hstep, hstep, recordPriceObservation, recordPriceObservation, hring]
  cases config pool with
  | none => exact h
  | some cfg =>
    by_cases hprice : price ≤ 0
    · rw [okOr_some, failIf, if_pos hprice]
      exact h
    · rw [okOr_some, failIf_of_not hprice]
      dsimp only [bind, Except.bind]
      by_cases hskip : 0 < (t.loadRing pool).prices.length ∧
          now - (t.loadRing pool).lastObserved < cfg.sampleIntervalSecs
      · rw [if_pos hskip, if_pos hskip]
        exact h
      · rw [if_neg hskip, if_neg hskip]
        refine ⟨?_, h.decayed⟩
        change s.rings.insert pool _ = t.rings.insert pool _
        rw [h.rings]

/-- The runs with and without the queries resolve the same fees from stores that agree. -/
theorem outcomes_withoutQueries {run : List (ℕ × AdaptiveCall)}
    (hclock : run.Pairwise fun i j => i.1 ≤ j.1) (hstart : ∀ i ∈ run, now ≤ i.1)
    (hspared : Along (adaptiveStep config) (SparesDecay config) s run)
    (h : Agree config now s t) :
    outcomes config s run = outcomes config t (withoutQueries run) := by
  induction run generalizing now s t with
  | nil => rfl
  | cons i run ih =>
    obtain ⟨hlater, hrest⟩ := List.pairwise_cons.mp hclock
    have hle := hstart i List.mem_cons_self
    obtain ⟨time, call⟩ := i
    obtain ⟨hspares, hspared⟩ := hspared
    have hagree : Agree config time s t := h.mono hle
    cases call with
    | recordPriceObservation pool assetSymbol price =>
      exact ih hrest hlater hspared (agree_of_record hagree pool assetSymbol price)
    | resolveAdaptiveFee pool =>
      obtain ⟨hsame, hagree'⟩ := agree_of_resolve hagree pool
      change (pool, _) :: outcomes config _ run = (pool, _) :: outcomes config _ _
      rw [hsame]
      exact congrArg _ (ih hrest hlater hspared hagree')
    | getAdaptiveFeeSnapshot pool =>
      exact ih hrest hlater hspared (agree_of_query h hle rfl hspares)
    | getPoolVolatilityBps pool =>
      exact ih hrest hlater hspared (agree_of_query h hle rfl hspares)

/-- Every resolved fee is that of its volatility, within the band of its pool. -/
theorem fee_of_outcome
    (hband : ∀ pool cfg, config pool = some cfg → cfg.baseFeeBps ≤ cfg.maxFeeBps)
    {run : List (ℕ × AdaptiveCall)} (hmem : (pool, .ok (fee, vol)) ∈ outcomes config s run) :
    ∃ cfg, config pool = some cfg ∧ feeForVolatility vol cfg = .ok fee ∧
      cfg.baseFeeBps ≤ fee ∧ fee ≤ cfg.maxFeeBps := by
  induction run generalizing s with
  | nil => cases hmem
  | cons i run ih =>
    obtain hfirst | hrest := List.mem_append.mp hmem
    · obtain ⟨time, call⟩ := i
      cases call with
      | resolveAdaptiveFee pool' =>
        obtain ⟨rfl, hresult⟩ := Prod.mk.inj (List.mem_singleton.mp hfirst)
        rw [resolveAdaptiveFee_eq] at hresult
        obtain ⟨cfg, hcfg, hresult⟩ : ∃ cfg, config pool = some cfg ∧
            feeForVolatility vol cfg = .ok fee := by
          cases hresolved : resolvedFee config time pool s with
          | error e =>
            rw [hresolved] at hresult
            cases hresult
          | ok r =>
            rw [hresolved] at hresult
            obtain rfl : r = (fee, vol) := (Except.ok.inj hresult).symm
            obtain ⟨cfg, hcfg, hresolved⟩ := bind_eq_ok.mp hresolved
            obtain ⟨inst, -, hresolved⟩ := bind_eq_ok.mp hresolved
            obtain ⟨_, hfee, hwrite⟩ := bind_eq_ok.mp hresolved
            obtain ⟨rfl, rfl⟩ := Prod.mk.inj (pure_eq_ok.mp hwrite)
            exact ⟨cfg, okOr_eq_ok.mp hcfg, hfee⟩
        exact ⟨cfg, hcfg, hresult, feeForVolatility_mem (hband pool cfg hcfg) hresult⟩
      | recordPriceObservation pool assetSymbol price => cases hfirst
      | getAdaptiveFeeSnapshot pool => cases hfirst
      | getPoolVolatilityBps pool => cases hfirst
    · exact ih hrest

end Runs

section Sample

def sampleAdaptiveConfig : AdaptiveFeeConfig := ⟨60, 2, 100, 10000, 30, 150, 1000⟩

def sampleConfig (pool : AssetId) : Option AdaptiveFeeConfig :=
  if pool = 7 then some sampleAdaptiveConfig else none

/-- Two prices, a swap, a query once the prices are old, and a swap. -/
def queriedRun : List (ℕ × AdaptiveCall) :=
  [(1000, .recordPriceObservation 7 ⟨5⟩ 100), (1060, .recordPriceObservation 7 ⟨5⟩ 300),
    (1060, .resolveAdaptiveFee 7), (2060, .getAdaptiveFeeSnapshot 7),
    (3060, .resolveAdaptiveFee 7)]

theorem sampleConfig_band (pool : AssetId) (cfg : AdaptiveFeeConfig)
    (h : sampleConfig pool = some cfg) : cfg.baseFeeBps ≤ cfg.maxFeeBps := by
  rw [sampleConfig] at h
  split_ifs at h
  obtain rfl := Option.some.inj h
  decide

end Sample

end StellarFlow.Amm
