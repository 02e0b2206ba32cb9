import StellarFlow.Host
import StellarFlow.Foundation.RatioCompare

/-!
# Drawdown guard of the compounding vaults

For every vault the guard keeps a few prices of the reward token and compares the newest with
the oldest one that is at least a window old. A loss beyond a limit pauses compounding. The
rewards are then swapped for a base reserve, which the guard books for the vault and an
administrator sweeps. The pause is stored at every evaluation, while the advice to the
strategy is evaluated anew each time it is asked for.
-/
namespace StellarFlow.Vaults

open Foundation

/-! ## Trend -/

def guardBps : ℤ := 10000
def maxPriceSamples : ℕ := 9
def minAllowedDrawdownBps : ℤ := 0
def maxAllowedDrawdownBps : ℤ := 100000
def minSwapPathLen : ℕ := 2
def maxSwapPathLen : ℕ := 5

/-- The ratio in basis points for reports, which saturates and may lose a fraction. Just below
the saturation the fraction can carry the sum out of range, which traps. -/
def scaledRatioBps (numerator denominator : ℤ) : Except Fault ℤ :=
  let whole := numerator / denominator
  if i128.hi / guardBps < whole then pure i128.hi
  else
    let remainder := numerator % denominator
    let shrink := denominator / i64.hi + 1
    let fracBps :=
      if remainder = 0 then 0 else remainder / shrink * guardBps / (denominator / shrink)
    okOr (i128.check (whole * guardBps + fracBps)) Fault.trap

def priceTrendBps (current reference : ℤ) : Except Fault ℤ := do
  failIf (current < 0) (Fault.error .yieldPriceNotPositive)
  failIf (reference ≤ 0) (Fault.error .yieldPriceNotPositive)
  let bps ←
    if reference ≤ current then scaledRatioBps (current - reference) reference
    else Neg.neg <$> scaledRatioBps (reference - current) reference
  okOr (i64.check bps) (Fault.error .mathOverflow)

/-- The loss is strictly more than the limit. An undefined trend counts as a breach. -/
def isDrawdownExceeded (current reference maxDrawdownBps : ℤ) : Bool :=
  if current < 0 ∨ reference ≤ 0 then true
  else if reference ≤ current then false
  else if maxDrawdownBps ≤ 0 then true
  else !ratioGe maxDrawdownBps.toNat guardBps.toNat (reference - current).toNat reference.toNat

/-! ## State -/

structure PriceSample where
  price : ℤ
  observedAt : ℕ
  deriving DecidableEq, Repr

structure CompoundingGuardConfig where
  vault : AssetId
  rewardToken : Address
  baseReserve : Address
  maxDrawdownBps : ℤ
  windowSecs : ℕ
  deriving DecidableEq, Repr

structure DrawdownStatus where
  vault : AssetId
  rewardToken : Address
  currentPrice : ℤ
  referencePrice : ℤ
  referenceAgeSecs : ℕ
  armed : Bool
  trendBps : ℤ
  maxDrawdownBps : ℤ
  breached : Bool
  compoundingPaused : Bool
  compoundingPausedAt : ℕ

inductive CompoundingAction
  | reinvest
  | convertToReserves
  | hold
  deriving DecidableEq, Repr

structure ReserveConversion where
  rewardSpent : ℤ
  reserveReceived : ℤ

structure GuardState where
  configs : Store AssetId CompoundingGuardConfig
  samples : Store AssetId (List PriceSample)
  paused : Store AssetId Bool
  pausedAt : Store AssetId ℕ
  reserves : Store AssetId ℤ
  tokens : Tokens

/-- The router of a swap may leave any token balances behind, or fail. -/
structure GuardEnv (here : Address) extends Env here where
  admin : Option Address
  swap : Address → List Address → ℤ → Tokens → Option Tokens

namespace GuardState

def fresh (tokens : Tokens) : GuardState := ⟨∅, ∅, ∅, ∅, ∅, tokens⟩

variable (s : GuardState)

def requireConfig (vault : AssetId) : Except Fault CompoundingGuardConfig :=
  okOr (s.configs.lookup vault) (Fault.error .vaultNotInitialized)

def readSamples (vault : AssetId) : List PriceSample := (s.samples.lookup vault).getD []

def reserveAccrued (vault : AssetId) : ℤ := (s.reserves.lookup vault).getD 0

def isAutoCompoundingPaused (vault : AssetId) : Bool := (s.paused.lookup vault).getD false

def storePause (vault : AssetId) (flag : Bool) (since : ℕ) : GuardState :=
  { s with paused := s.paused.insert vault flag, pausedAt := s.pausedAt.insert vault since }

end GuardState

/-! ## Evaluation -/

structure Evaluation where
  armed : Bool
  currentPrice : ℤ
  referencePrice : ℤ
  referenceAgeSecs : ℕ
  trendBps : ℤ
  breached : Bool
  deriving DecidableEq

def Evaluation.unarmed : Evaluation := ⟨false, 0, 0, 0, 0, false⟩

/-- The oldest retained sample that is old enough. -/
def findReference (now windowSecs : ℕ) (samples : List PriceSample) : Option PriceSample :=
  samples.find? fun sample => windowSecs ≤ now - sample.observedAt

/-- The newest sample against the reference. -/
def evaluate (now : ℕ) (samples : List PriceSample) (config : CompoundingGuardConfig) :
    Except Fault Evaluation :=
  match samples.getLast? with
  | none => pure .unarmed
  | some current =>
    match findReference now config.windowSecs samples with
    | some reference => do
      let trendBps ← unwrapOr (priceTrendBps current.price reference.price) 0
      pure {
        armed := true
        currentPrice := current.price
        referencePrice := reference.price
        referenceAgeSecs := now - reference.observedAt
        trendBps
        breached := isDrawdownExceeded current.price reference.price config.maxDrawdownBps }
    | none => pure { Evaluation.unarmed with currentPrice := current.price }

/-- Move the stored pause to the evaluated breach. -/
def movePause (now : ℕ) (vault : AssetId) (breached : Bool) (s : GuardState) : GuardState :=
  let paused := s.isAutoCompoundingPaused vault
  if breached = true ∧ paused = false then s.storePause vault true now
  else if breached = false ∧ paused = true then s.storePause vault false 0
  else s

def syncPause (now : ℕ) (vault : AssetId) (config : CompoundingGuardConfig) (s : GuardState) :
    Except Fault GuardState := do
  let evaluation ← evaluate now (s.readSamples vault) config
  pure (movePause now vault evaluation.breached s)

def drawdownStatus (now : ℕ) (vault : AssetId) (s : GuardState) : Except Fault DrawdownStatus := do
  let config ← s.requireConfig vault
  let evaluation ← evaluate now (s.readSamples vault) config
  pure {
    vault
    rewardToken := config.rewardToken
    currentPrice := evaluation.currentPrice
    referencePrice := evaluation.referencePrice
    referenceAgeSecs := evaluation.referenceAgeSecs
    armed := evaluation.armed
    trendBps := evaluation.trendBps
    maxDrawdownBps := config.maxDrawdownBps
    breached := evaluation.breached
    compoundingPaused := s.isAutoCompoundingPaused vault
    compoundingPausedAt := (s.pausedAt.lookup vault).getD 0 }

def requireCompoundingAllowed (vault : AssetId) (s : GuardState) : Except Fault Unit :=
  failIf (s.isAutoCompoundingPaused vault = true) (Fault.error .yieldCompoundingPaused)

def strategyAction (now : ℕ) (vault : AssetId) (s : GuardState) :
    Except Fault CompoundingAction :=
  match drawdownStatus now vault s with
  | .error .trap => .error .trap
  | .error (.error _) => .ok .hold
  | .ok status =>
    if status.breached then .ok .convertToReserves
    else if status.armed then .ok .reinvest
    else .ok .hold

/-! ## Calls -/

section Calls

variable {here : Address} (env : GuardEnv here)

def requireGuardAdmin (admin : Address) : Except Fault Unit := do
  let current ← okOr env.admin (Fault.error .notInitialized)
  failIf (current ≠ admin) (Fault.error .notAdmin)
  env.requireAuth admin

def checkDrawdownLimit (maxDrawdownBps : ℤ) : Except Fault Unit :=
  failIf (¬ (minAllowedDrawdownBps ≤ maxDrawdownBps ∧ maxDrawdownBps ≤ maxAllowedDrawdownBps))
    (Fault.error .yieldInvalidDrawdownLimit)

/-- Store a configuration and evaluate the guard under it. -/
def saveConfig (vault : AssetId) (config : CompoundingGuardConfig) (s : GuardState) :
    Except Fault GuardState :=
  syncPause env.timestamp vault config { s with configs := s.configs.insert vault config }

def configureGuard (admin : Address) (vault : AssetId) (rewardToken baseReserve : Address)
    (maxDrawdownBps : ℤ) (windowSecs : ℕ) (s : GuardState) :
    Except Fault (CompoundingGuardConfig × GuardState) := do
  requireGuardAdmin env admin
  failIf (rewardToken = baseReserve) (Fault.error .invalidArgument)
  checkDrawdownLimit maxDrawdownBps
  failIf (windowSecs = 0) (Fault.error .invalidArgument)
  let config : CompoundingGuardConfig :=
    ⟨vault, rewardToken, baseReserve, maxDrawdownBps, windowSecs⟩
  let s ← saveConfig env vault config s
  pure (config, s)

def setMaxDrawdownBps (admin : Address) (vault : AssetId) (maxDrawdownBps : ℤ) (s : GuardState) :
    Except Fault (CompoundingGuardConfig × GuardState) := do
  requireGuardAdmin env admin
  let config ← s.requireConfig vault
  checkDrawdownLimit maxDrawdownBps
  let config := { config with maxDrawdownBps }
  let s ← saveConfig env vault config s
  pure (config, s)

/-- Append a sample and drop the oldest one beyond the capacity. -/
def pushSample (samples : List PriceSample) (sample : PriceSample) : List PriceSample :=
  if maxPriceSamples < (samples ++ [sample]).length then (samples ++ [sample]).tail
  else samples ++ [sample]

def recordPriceSample (keeper : Address) (vault : AssetId) (price : ℤ) (s : GuardState) :
    Except Fault (DrawdownStatus × GuardState) := do
  env.requireAuth keeper
  failIf (price ≤ 0) (Fault.error .yieldPriceNotPositive)
  let config ← s.requireConfig vault
  let samples := s.readSamples vault
  failIf (∃ newest ∈ samples.getLast?, env.timestamp < newest.observedAt)
    (Fault.error .yieldStalePriceSample)
  let s ← syncPause env.timestamp vault config { s with
    samples := s.samples.insert vault (pushSample samples ⟨price, env.timestamp⟩) }
  let status ← drawdownStatus env.timestamp vault s
  pure (status, s)

def syncDrawdown (vault : AssetId) (s : GuardState) :
    Except Fault (DrawdownStatus × GuardState) := do
  let config ← s.requireConfig vault
  let s ← syncPause env.timestamp vault config s
  let status ← drawdownStatus env.timestamp vault s
  pure (status, s)

def validateConversionPath (path : List Address) (config : CompoundingGuardConfig) :
    Except Fault Unit := do
  failIf (¬ (minSwapPathLen ≤ path.length ∧ path.length ≤ maxSwapPathLen))
    (Fault.error .yieldInvalidConversionPath)
  failIf (path.head? ≠ some config.rewardToken ∨ path.getLast? ≠ some config.baseReserve)
    (Fault.error .yieldInvalidConversionPath)

/-- What is booked is the increase of the balance over the call of the router. -/
def convertRewardsToReserves (keeper router : Address) (vault : AssetId) (path : List Address)
    (rewardAmount minReserveOut : ℤ) (s : GuardState) :
    Except Fault (ReserveConversion × GuardState) := do
  env.requireAuth keeper
  failIf (rewardAmount ≤ 0) (Fault.error .amountTooLow)
  failIf (minReserveOut ≤ 0) (Fault.error .amountTooLow)
  let config ← s.requireConfig vault
  validateConversionPath path config
  failIf (s.tokens config.rewardToken here < rewardAmount)
    (Fault.error .insufficientReserveBalance)
  let funded ← env.transfer config.rewardToken here router rewardAmount s.tokens
  let swapped ← okOr (env.swap router path rewardAmount funded) Fault.trap
  let reserveReceived ← okOr
    (i128.check (swapped config.baseReserve here - funded config.baseReserve here))
    (Fault.error .mathOverflow)
  failIf (reserveReceived ≤ 0) (Fault.error .yieldConversionProducedNothing)
  failIf (reserveReceived < minReserveOut) (Fault.error .slippageExceeded)
  let booked ← okOr (i128.check (s.reserveAccrued vault + reserveReceived))
    (Fault.error .mathOverflow)
  pure (⟨rewardAmount, reserveReceived⟩,
    { s with reserves := s.reserves.insert vault booked, tokens := swapped })

def sweepReserves (admin recipient : Address) (vault : AssetId) (amount : ℤ) (s : GuardState) :
    Except Fault (ℤ × GuardState) := do
  requireGuardAdmin env admin
  failIf (amount ≤ 0) (Fault.error .amountTooLow)
  let config ← s.requireConfig vault
  let booked := s.reserveAccrued vault
  failIf (booked < amount) (Fault.error .insufficientReserveBalance)
  let tokens ← env.transfer config.baseReserve here recipient amount s.tokens
  pure (amount, { s with reserves := s.reserves.insert vault (booked - amount), tokens })

end Calls

inductive GuardCall
  | configureGuard (admin : Address) (vault : AssetId) (rewardToken baseReserve : Address)
      (maxDrawdownBps : ℤ) (windowSecs : ℕ)
  | setMaxDrawdownBps (admin : Address) (vault : AssetId) (maxDrawdownBps : ℤ)
  | recordPriceSample (keeper : Address) (vault : AssetId) (price : ℤ)
  | syncDrawdown (vault : AssetId)
  | convertRewardsToReserves (keeper router : Address) (vault : AssetId) (path : List Address)
      (rewardAmount minReserveOut : ℤ)
  | sweepReserves (admin recipient : Address) (vault : AssetId) (amount : ℤ)

def GuardCall.exec {here : Address} (env : GuardEnv here) (s : GuardState) :
    GuardCall → Except Fault GuardState
  | .configureGuard admin vault rewardToken baseReserve maxDrawdownBps windowSecs =>
    Prod.snd <$> Vaults.configureGuard env admin vault rewardToken baseReserve maxDrawdownBps
      windowSecs s
  | .setMaxDrawdownBps admin vault maxDrawdownBps =>
    Prod.snd <$> Vaults.setMaxDrawdownBps env admin vault maxDrawdownBps s
  | .recordPriceSample keeper vault price =>
    Prod.snd <$> Vaults.recordPriceSample env keeper vault price s
  | .syncDrawdown vault => Prod.snd <$> Vaults.syncDrawdown env vault s
  | .convertRewardsToReserves keeper router vault path rewardAmount minReserveOut =>
    Prod.snd <$> Vaults.convertRewardsToReserves env keeper router vault path rewardAmount
      minReserveOut s
  | .sweepReserves admin recipient vault amount =>
    Prod.snd <$> Vaults.sweepReserves env admin recipient vault amount s

/-- Everybody but the contract signs, and the router delivers what it is paid. -/
def guardEnv : GuardEnv ⟨0⟩ :=
  { Env.standard ⟨0⟩ 1 none with
    admin := some ⟨9⟩
    swap := fun _ path amount t => path.getLast?.map fun token => t.credit token ⟨0⟩ amount }

/-! ## Accepted calls -/

section Accepted

variable {here : Address} {env : GuardEnv here} {vault : AssetId} {s s' : GuardState}

theorem configureGuard_eq_ok {admin rewardToken baseReserve : Address} {maxDrawdownBps : ℤ}
    {windowSecs : ℕ} {config : CompoundingGuardConfig}
    (h : configureGuard env admin vault rewardToken baseReserve maxDrawdownBps windowSecs s =
      .ok (config, s')) :
    saveConfig env vault ⟨vault, rewardToken, baseReserve, maxDrawdownBps, windowSecs⟩ s =
      .ok s' := by
  simp only [configureGuard, bind_eq_ok, pure_eq_ok, Prod.mk.injEq] at h
  obtain ⟨_, _, _, _, _, _, _, _, _, hsave, _, rfl⟩ := h
  exact hsave

theorem setMaxDrawdownBps_eq_ok {admin : Address} {maxDrawdownBps : ℤ}
    {updated : CompoundingGuardConfig}
    (h : setMaxDrawdownBps env admin vault maxDrawdownBps s = .ok (updated, s')) :
    ∃ config, s.configs.lookup vault = some config ∧
      saveConfig env vault { config with maxDrawdownBps } s = .ok s' := by
  simp only [setMaxDrawdownBps, GuardState.requireConfig, bind_eq_ok, okOr_eq_ok, pure_eq_ok,
    Prod.mk.injEq] at h
  obtain ⟨_, _, config, hstored, _, _, _, hsave, _, rfl⟩ := h
  exact ⟨config, hstored, hsave⟩

theorem recordPriceSample_eq_ok {keeper : Address} {price : ℤ} {status : DrawdownStatus}
    (h : recordPriceSample env keeper vault price s = .ok (status, s')) :
    ∃ config, s.configs.lookup vault = some config ∧
      syncPause env.timestamp vault config { s with
        samples := s.samples.insert vault
          (pushSample (s.readSamples vault) ⟨price, env.timestamp⟩) } = .ok s' := by
  simp only [recordPriceSample, GuardState.requireConfig, bind_eq_ok, okOr_eq_ok, pure_eq_ok,
    Prod.mk.injEq] at h
  obtain ⟨_, _, _, _, config, hstored, _, _, _, hsync, status, _, _, rfl⟩ := h
  exact ⟨config, hstored, hsync⟩

theorem syncDrawdown_eq_ok {status : DrawdownStatus}
    (h : syncDrawdown env vault s = .ok (status, s')) :
    ∃ config, s.configs.lookup vault = some config ∧
      syncPause env.timestamp vault config s = .ok s' := by
  simp only [syncDrawdown, GuardState.requireConfig, bind_eq_ok, okOr_eq_ok, pure_eq_ok,
    Prod.mk.injEq] at h
  obtain ⟨config, hstored, _, hsync, status, _, _, rfl⟩ := h
  exact ⟨config, hstored, hsync⟩

/-- A conversion adds what it received to the reserve of its vault. -/
theorem convertRewardsToReserves_eq_ok {keeper router : Address} {path : List Address}
    {rewardAmount minReserveOut : ℤ} {conversion : ReserveConversion}
    (h : convertRewardsToReserves env keeper router vault path rewardAmount minReserveOut s =
      .ok (conversion, s')) :
    0 < conversion.reserveReceived ∧ ∃ tokens, s' = { s with
      reserves := s.reserves.insert vault (s.reserveAccrued vault + conversion.reserveReceived)
      tokens } := by
  simp only [convertRewardsToReserves, bind_eq_ok, okOr_eq_ok, failIf_eq_ok,
    IntRange.check_eq_some, pure_eq_ok, Prod.mk.injEq] at h
  obtain ⟨_, _, _, _, _, _, config, _, _, _, _, _, funded, _, swapped, _, received, ⟨_, rfl⟩, _,
    hpos, _, _, booked, ⟨_, rfl⟩, rfl, rfl⟩ := h
  exact ⟨not_le.mp hpos, swapped, rfl⟩

/-- A sweep takes an amount out of the reserve of its vault. -/
theorem sweepReserves_eq_ok {admin recipient : Address} {amount paid : ℤ}
    (h : sweepReserves env admin recipient vault amount s = .ok (paid, s')) :
    paid = amount ∧ amount ≤ s.reserveAccrued vault ∧ ∃ tokens, s' = { s with
      reserves := s.reserves.insert vault (s.reserveAccrued vault - amount)
      tokens } := by
  simp only [sweepReserves, bind_eq_ok, failIf_eq_ok, pure_eq_ok, Prod.mk.injEq] at h
  obtain ⟨_, _, _, _, config, _, _, hle, tokens, _, rfl, rfl⟩ := h
  exact ⟨rfl, not_lt.mp hle, tokens, rfl⟩

end Accepted

/-! ## The stored pause -/

section Pause

variable {now : ℕ} {vault : AssetId} {config : CompoundingGuardConfig} {s s' : GuardState}

/-- The flag of the vault becomes the breach, and the other vaults keep theirs. -/
theorem movePause_paused (now : ℕ) (vault v : AssetId) (breached : Bool) (s : GuardState) :
    (movePause now vault breached s).isAutoCompoundingPaused v =
      if v = vault then breached else s.isAutoCompoundingPaused v := by
  simp only [movePause, GuardState.storePause]
  by_cases hv : v = vault
  · subst hv
    rw [if_pos rfl]
    split_ifs with hset hclear
    · simp [GuardState.isAutoCompoundingPaused, hset.1]
    · simp [GuardState.isAutoCompoundingPaused, hclear.1]
    · cases breached <;> cases hp : s.isAutoCompoundingPaused v <;> simp_all
  · rw [if_neg hv]
    split_ifs <;> simp [GuardState.isAutoCompoundingPaused, hv]

theorem syncPause_eq_ok (h : syncPause now vault config s = .ok s') :
    ∃ e, evaluate now (s.readSamples vault) config = .ok e ∧
      s' = movePause now vault e.breached s := by
  simp only [syncPause, bind_eq_ok, pure_eq_ok] at h
  obtain ⟨e, he, rfl⟩ := h
  exact ⟨e, he, rfl⟩

theorem syncPause_keeps (h : syncPause now vault config s = .ok s') :
    s'.configs = s.configs ∧ s'.samples = s.samples ∧ s'.reserves = s.reserves ∧
      s'.tokens = s.tokens := by
  obtain ⟨e, _, rfl⟩ := syncPause_eq_ok h
  simp only [movePause, GuardState.storePause]
  split_ifs <;> exact ⟨rfl, rfl, rfl, rfl⟩

end Pause

/-! ## The evaluation on ordered samples -/

/-- Oldest first. -/
def Ordered (samples : List PriceSample) : Prop :=
  samples.Pairwise fun a b => a.observedAt ≤ b.observedAt

/-- The oldest retained sample is at least a window old. -/
def OldestAged (now windowSecs : ℕ) (samples : List PriceSample) : Prop :=
  ∃ oldest, samples.head? = some oldest ∧ windowSecs ≤ now - oldest.observedAt

/-- The newest price is more than the limit below the oldest retained one. -/
def FellBelow (maxDrawdownBps : ℤ) (samples : List PriceSample) : Prop :=
  ∃ oldest newest, samples.head? = some oldest ∧ samples.getLast? = some newest ∧
    isDrawdownExceeded newest.price oldest.price maxDrawdownBps = true

section Samples

variable {now windowSecs : ℕ} {samples : List PriceSample} {config : CompoundingGuardConfig}
  {sample : PriceSample}

/-- If any sample is old enough, then the oldest is, and it is the reference. -/
theorem find_aged (hs : Ordered samples) :
    samples.find? (fun sample => windowSecs ≤ now - sample.observedAt) =
      samples.head?.filter fun sample => windowSecs ≤ now - sample.observedAt := by
  cases samples with
  | nil => rfl
  | cons oldest rest =>
    by_cases haged : windowSecs ≤ now - oldest.observedAt
    · simp [haged, Option.filter]
    · have hrest : ∀ sample ∈ rest, ¬ windowSecs ≤ now - sample.observedAt := by
        intro sample hmem
        have hle := (List.pairwise_cons.mp hs).1 sample hmem
        omega
      rw [List.find?_cons_of_neg (by simpa using haged),
        List.find?_eq_none.mpr (by simpa using hrest)]
      simp [haged, Option.filter]

theorem findReference_eq_some (hs : Ordered samples) {reference : PriceSample} :
    findReference now windowSecs samples = some reference ↔
      samples.head? = some reference ∧ windowSecs ≤ now - reference.observedAt := by
  rw [findReference, find_aged hs, Option.filter_eq_some_iff]
  simp

theorem findReference_isSome_iff (hs : Ordered samples) :
    (findReference now windowSecs samples).isSome = true ↔ OldestAged now windowSecs samples := by
  rw [Option.isSome_iff_exists]
  exact exists_congr fun _ => findReference_eq_some hs

/-- An evaluation finds its reference in the oldest sample and compares the newest with it. -/
theorem evaluate_eq_ok (hs : Ordered samples) {e : Evaluation}
    (h : evaluate now samples config = .ok e) :
    (e.armed = true ↔ OldestAged now config.windowSecs samples) ∧
    (e.breached = true ↔
      OldestAged now config.windowSecs samples ∧ FellBelow config.maxDrawdownBps samples) := by
  cases hlast : samples.getLast? with
  | none =>
    obtain rfl := List.getLast?_eq_none_iff.mp hlast
    obtain rfl := pure_eq_ok.mp h
    simp [Evaluation.unarmed, OldestAged]
  | some current =>
    rw [evaluate, hlast] at h
    cases href : findReference now config.windowSecs samples with
    | none =>
      simp only [href] at h
      obtain rfl := pure_eq_ok.mp h
      have hnot : ¬ OldestAged now config.windowSecs samples := by
        rw [← findReference_isSome_iff hs, href]
        simp
      simp [Evaluation.unarmed, hnot]
    | some reference =>
      simp only [href, bind_eq_ok, pure_eq_ok] at h
      obtain ⟨trendBps, _, rfl⟩ := h
      obtain ⟨hhead, haged⟩ := (findReference_eq_some hs).mp href
      have holdest : OldestAged now config.windowSecs samples := ⟨reference, hhead, haged⟩
      refine ⟨iff_of_true rfl holdest,
        fun hbreach => ⟨holdest, reference, current, hhead, hlast, hbreach⟩, ?_⟩
      rintro ⟨_, oldest, newest, hhead', hlast', hexceeded⟩
      obtain rfl := Option.some.inj (hhead.symm.trans hhead')
      obtain rfl := Option.some.inj (hlast.symm.trans hlast')
      exact hexceeded

theorem mul_guardBps_ediv_le {a b : ℤ} (ha : 0 ≤ a) (hab : a ≤ b) :
    0 ≤ a * guardBps / b ∧ a * guardBps / b ≤ guardBps := by
  have hb : 0 ≤ b := ha.trans hab
  refine ⟨Int.ediv_nonneg (mul_nonneg ha (by decide)) hb, ?_⟩
  rcases hb.eq_or_lt with rfl | hpos
  · rw [Int.ediv_zero]
    decide
  · refine Int.ediv_le_of_le_mul hpos ?_
    rw [mul_comm]
    exact mul_le_mul_of_nonneg_left hab (by decide)

/-- The part of a whole is reported in range. -/
theorem scaledRatioBps_of_le {numerator denominator : ℤ} (hn : 0 ≤ numerator)
    (hle : numerator ≤ denominator) (hd : 0 < denominator) :
    ∃ bps, scaledRatioBps numerator denominator = .ok bps := by
  have hwhole : 0 ≤ numerator / denominator ∧ numerator / denominator ≤ 1 :=
    ⟨Int.ediv_nonneg hn hd.le, Int.ediv_le_of_le_mul hd (by omega)⟩
  have hshrink : 0 < denominator / i64.hi + 1 :=
    Int.lt_add_one_of_le (Int.ediv_nonneg hd.le (by decide))
  have hfrac := mul_guardBps_ediv_le
    (Int.ediv_nonneg (Int.emod_nonneg numerator hd.ne') hshrink.le)
    (Int.ediv_le_ediv hshrink (Int.emod_lt_of_pos numerator hd).le)
  have hbps : guardBps = 10000 := rfl
  have hscaled : numerator / denominator * guardBps = numerator / denominator * 10000 := rfl
  have hlo : i128.lo ≤ 0 := by decide
  have hhi : 20000 ≤ i128.hi := by decide
  simp only [scaledRatioBps]
  split_ifs with hhigh hzero
  · exact ⟨_, rfl⟩
  · refine ⟨_, okOr_eq_ok.mpr (IntRange.Fits.check_eq ⟨?_, ?_⟩)⟩ <;> omega
  · refine ⟨_, okOr_eq_ok.mpr (IntRange.Fits.check_eq ⟨?_, ?_⟩)⟩ <;> omega

/-- A loss is reported in range. -/
theorem priceTrendBps_ne_trap {current reference maxDrawdownBps : ℤ}
    (h : isDrawdownExceeded current reference maxDrawdownBps = true) :
    priceTrendBps current reference ≠ .error .trap := by
  intro htrap
  simp only [priceTrendBps, bind_eq_error, failIf_eq_error, failIf_eq_ok] at htrap
  rcases htrap with ⟨_, hne⟩ | ⟨_, hcurrent, ⟨_, hne⟩ | ⟨_, hreference, htrap⟩⟩
  · cases hne
  · cases hne
  · have hbelow : ¬ reference ≤ current := by
      intro hge
      simp [isDrawdownExceeded, hcurrent, hreference, hge] at h
    obtain ⟨bps, hbps⟩ := scaledRatioBps_of_le (show 0 ≤ reference - current by omega)
      (show reference - current ≤ reference by omega) (by omega)
    simp [hbelow, hbps] at htrap

theorem evaluate_of_fellBelow (hs : Ordered samples)
    (h : FellBelow config.maxDrawdownBps samples) (now : ℕ) :
    ∃ e, evaluate now samples config = .ok e := by
  obtain ⟨oldest, newest, hhead, hlast, hexceeded⟩ := h
  rw [evaluate, hlast]
  cases href : findReference now config.windowSecs samples with
  | none => exact ⟨_, rfl⟩
  | some reference =>
    obtain rfl := Option.some.inj (((findReference_eq_some hs).mp href).1.symm.trans hhead)
    obtain ⟨trendBps, htrend⟩ := unwrapOr_of_ne_trap (priceTrendBps_ne_trap hexceeded) 0
    exact ⟨_, by simp only [htrend]; rfl⟩

/-- Only the last samples up to the capacity are kept. -/
theorem pushSample_sublist (samples : List PriceSample) (sample : PriceSample) :
    (pushSample samples sample).Sublist (samples ++ [sample]) := by
  unfold pushSample
  split_ifs
  · exact List.tail_sublist _
  · exact List.Sublist.refl _

theorem Ordered.push (hs : Ordered samples)
    (hle : ∀ other ∈ samples, other.observedAt ≤ sample.observedAt) :
    Ordered (pushSample samples sample) := by
  refine List.Pairwise.sublist (pushSample_sublist samples sample) ?_
  exact List.pairwise_append.mpr ⟨hs, List.pairwise_singleton _ _, by simpa using hle⟩

end Samples

end StellarFlow.Vaults
