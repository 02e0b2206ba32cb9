import StellarFlow.Vaults.CompoundingGuard

/-!
# Stored pause and evaluated breach

The pause is written at calls, while the breach is evaluated against the running clock. A loss
that is recorded, or comes into a tightened limit, while the oldest sample is still younger
than the window does not pause. It becomes a breach as soon as that sample is old enough, and
the strategy is told to convert although compounding is still allowed.
-/
namespace StellarFlow.Vaults

open Foundation

/-! ## Histories -/

/-- The guard and the ledger time of the last accepted call. -/
structure GuardHistory where
  state : GuardState
  clock : ℕ

def GuardHistory.fresh (tokens : Tokens) : GuardHistory := ⟨.fresh tokens, 0⟩

/-- A call some seconds after the last accepted one. -/
structure GuardStep (here : Address) where
  elapsed : ℕ
  env : GuardEnv here
  call : GuardCall

/-- Ledger times are 64-bit numbers. -/
def guardStep {here : Address} (i : GuardStep here) (h : GuardHistory) :
    Except Fault GuardHistory := do
  let clock ← okOr (checkBits 64 (h.clock + i.elapsed)) Fault.trap
  let state ← i.call.exec { i.env with timestamp := clock } h.state
  pure ⟨state, clock⟩

/-- The advice to the strategy and the gate of the compounding agree from now on. -/
def PauseAgrees (h : GuardHistory) : Prop :=
  ∀ vault now, h.clock ≤ now → now < 2 ^ 64 →
    (strategyAction now vault h.state = .ok .convertToReserves →
      requireCompoundingAllowed vault h.state = .error (Fault.error .yieldCompoundingPaused)) ∧
    (strategyAction now vault h.state = .ok .reinvest →
      requireCompoundingAllowed vault h.state = .ok ())

/-- The oldest sample grows old enough within the range of ledger times. -/
def WillAge (windowSecs : ℕ) (samples : List PriceSample) : Prop :=
  ∃ oldest, samples.head? = some oldest ∧ oldest.observedAt + windowSecs < 2 ^ 64

/-- If the newest price is more than the limit below the oldest retained one, then that sample
is already a window old, unless it never will be. -/
def NoEarlyLoss (now : ℕ) (maxDrawdownBps : ℤ) (windowSecs : ℕ) (samples : List PriceSample) :
    Prop :=
  FellBelow maxDrawdownBps samples → WillAge windowSecs samples →
    OldestAged now windowSecs samples

/-- An accepted sample, configuration or limit leaves no loss beyond the limit in a vault whose
oldest retained sample is younger than the window. -/
def LeavesNoEarlyLoss {here : Address} (h : GuardHistory) (i : GuardStep here) : Prop :=
  (∃ h', guardStep i h = .ok h') →
    let now := h.clock + i.elapsed
    match i.call with
    | .configureGuard _ vault _ _ maxDrawdownBps windowSecs =>
      NoEarlyLoss now maxDrawdownBps windowSecs (h.state.readSamples vault)
    | .setMaxDrawdownBps _ vault maxDrawdownBps =>
      ∀ config, h.state.configs.lookup vault = some config →
        NoEarlyLoss now maxDrawdownBps config.windowSecs (h.state.readSamples vault)
    | .recordPriceSample _ vault price =>
      ∀ config, h.state.configs.lookup vault = some config →
        NoEarlyLoss now config.maxDrawdownBps config.windowSecs
          (pushSample (h.state.readSamples vault) ⟨price, now⟩)
    | _ => True

/-! ## Calls that evaluate a vault -/

/-- The configuration and the samples under which a call evaluates its vault. -/
inductive Reviewed (now : ℕ) (s : GuardState) :
    GuardCall → AssetId → CompoundingGuardConfig → List PriceSample → Prop
  | configure {admin : Address} {vault : AssetId} {rewardToken baseReserve : Address}
    {maxDrawdownBps : ℤ} {windowSecs : ℕ} :
    Reviewed now s
      (.configureGuard admin vault rewardToken baseReserve maxDrawdownBps windowSecs) vault
      ⟨vault, rewardToken, baseReserve, maxDrawdownBps, windowSecs⟩ (s.readSamples vault)
  | setMax {admin : Address} {vault : AssetId} {maxDrawdownBps : ℤ}
    {config : CompoundingGuardConfig} (stored : s.configs.lookup vault = some config) :
    Reviewed now s (.setMaxDrawdownBps admin vault maxDrawdownBps) vault
      { config with maxDrawdownBps } (s.readSamples vault)
  | record {keeper : Address} {vault : AssetId} {price : ℤ} {config : CompoundingGuardConfig}
    (stored : s.configs.lookup vault = some config) :
    Reviewed now s (.recordPriceSample keeper vault price) vault config
      (pushSample (s.readSamples vault) ⟨price, now⟩)
  | sync {vault : AssetId} {config : CompoundingGuardConfig}
    (stored : s.configs.lookup vault = some config) :
    Reviewed now s (.syncDrawdown vault) vault config (s.readSamples vault)

/-- The vault has this configuration and these samples and was evaluated; the other vaults are
as before. -/
structure Reevaluated (now : ℕ) (vault : AssetId) (config : CompoundingGuardConfig)
    (samples : List PriceSample) (s s' : GuardState) : Prop where
  config_eq : s'.configs.lookup vault = some config
  samples_eq : s'.readSamples vault = samples
  evaluated : ∃ e, evaluate now samples config = .ok e ∧
    s'.isAutoCompoundingPaused vault = e.breached
  configs_others : ∀ v, v ≠ vault → s'.configs.lookup v = s.configs.lookup v
  samples_others : ∀ v, v ≠ vault → s'.readSamples v = s.readSamples v
  paused_others : ∀ v, v ≠ vault → s'.isAutoCompoundingPaused v = s.isAutoCompoundingPaused v

section Steps

variable {here : Address} {env : GuardEnv here} {now : ℕ} {vault : AssetId}
  {config : CompoundingGuardConfig} {s s₁ s' : GuardState} {call : GuardCall}
  {samples : List PriceSample}

theorem syncPause_reevaluated (hsync : syncPause now vault config s₁ = .ok s')
    (hconfig : s₁.configs.lookup vault = some config)
    (hsamples : s₁.readSamples vault = samples)
    (hconfigs : ∀ v, v ≠ vault → s₁.configs.lookup v = s.configs.lookup v)
    (hothers : ∀ v, v ≠ vault → s₁.readSamples v = s.readSamples v)
    (hpaused : s₁.paused = s.paused) :
    Reevaluated now vault config samples s s' := by
  obtain ⟨hc, hs, _, _⟩ := syncPause_keeps hsync
  obtain ⟨e, he, rfl⟩ := syncPause_eq_ok hsync
  refine ⟨by rw [hc, hconfig], ?_, ?_, fun v hv => by rw [hc, hconfigs v hv], fun v hv => ?_,
    fun v hv => ?_⟩
  · rw [GuardState.readSamples, hs]
    exact hsamples
  · rw [movePause_paused, if_pos rfl]
    exact ⟨e, hsamples ▸ he, rfl⟩
  · rw [GuardState.readSamples, hs]
    exact hothers v hv
  · rw [movePause_paused, if_neg hv, GuardState.isAutoCompoundingPaused, hpaused,
      GuardState.isAutoCompoundingPaused]

theorem saveConfig_reevaluated (h : saveConfig env vault config s = .ok s') :
    Reevaluated env.timestamp vault config (s.readSamples vault) s s' :=
  syncPause_reevaluated h (by simp) rfl (fun v hv => by simp [hv]) (fun _ _ => rfl) rfl

/-- A call evaluates one vault, or it leaves configurations, samples and pauses alone. -/
theorem exec_guard_cases (h : call.exec env s = .ok s') :
    (s'.configs = s.configs ∧ s'.samples = s.samples ∧ s'.paused = s.paused ∧
      ∀ vault config samples, ¬ Reviewed env.timestamp s call vault config samples) ∨
    ∃ vault config samples, Reviewed env.timestamp s call vault config samples ∧
      Reevaluated env.timestamp vault config samples s s' := by
  cases call with
  | configureGuard admin vault rewardToken baseReserve maxDrawdownBps windowSecs =>
    obtain ⟨r, h⟩ := snd_map_eq_ok.mp h
    exact .inr ⟨_, _, _, .configure, saveConfig_reevaluated (configureGuard_eq_ok h)⟩
  | setMaxDrawdownBps admin vault maxDrawdownBps =>
    obtain ⟨r, h⟩ := snd_map_eq_ok.mp h
    obtain ⟨config, hstored, hsave⟩ := setMaxDrawdownBps_eq_ok h
    exact .inr ⟨_, _, _, .setMax hstored, saveConfig_reevaluated hsave⟩
  | recordPriceSample keeper vault price =>
    obtain ⟨r, h⟩ := snd_map_eq_ok.mp h
    obtain ⟨config, hstored, hsync⟩ := recordPriceSample_eq_ok h
    refine .inr ⟨_, _, _, .record hstored,
      syncPause_reevaluated hsync hstored ?_ (fun _ _ => rfl) ?_ rfl⟩
    · simp [GuardState.readSamples]
    · intro v hv
      simp [GuardState.readSamples, hv]
  | syncDrawdown vault =>
    obtain ⟨r, h⟩ := snd_map_eq_ok.mp h
    obtain ⟨config, hstored, hsync⟩ := syncDrawdown_eq_ok h
    exact .inr ⟨_, _, _, .sync hstored,
      syncPause_reevaluated hsync hstored rfl (fun _ _ => rfl) (fun _ _ => rfl) rfl⟩
  | convertRewardsToReserves keeper router vault path rewardAmount minReserveOut =>
    obtain ⟨r, h⟩ := snd_map_eq_ok.mp h
    obtain ⟨_, tokens, rfl⟩ := convertRewardsToReserves_eq_ok h
    exact .inl ⟨rfl, rfl, rfl, fun _ _ _ hr => by cases hr⟩
  | sweepReserves admin recipient vault amount =>
    obtain ⟨r, h⟩ := snd_map_eq_ok.mp h
    obtain ⟨_, _, tokens, rfl⟩ := sweepReserves_eq_ok h
    exact .inl ⟨rfl, rfl, rfl, fun _ _ _ hr => by cases hr⟩

end Steps

/-! ## Runs -/

/-- Samples are ordered and in the past, and a paused vault is in a breach. -/
structure GuardHistory.Sound (h : GuardHistory) : Prop where
  clock_lt : h.clock < 2 ^ 64
  ordered : ∀ vault, Ordered (h.state.readSamples vault)
  observed : ∀ vault, ∀ sample ∈ h.state.readSamples vault, sample.observedAt ≤ h.clock
  breached : ∀ vault, h.state.isAutoCompoundingPaused vault = true →
    ∃ config, h.state.configs.lookup vault = some config ∧
      OldestAged h.clock config.windowSecs (h.state.readSamples vault) ∧
      FellBelow config.maxDrawdownBps (h.state.readSamples vault)

/-- Every loss that can become a breach has paused its vault. -/
def PausesLosses (s : GuardState) : Prop :=
  ∀ vault config, s.configs.lookup vault = some config →
    FellBelow config.maxDrawdownBps (s.readSamples vault) →
    WillAge config.windowSecs (s.readSamples vault) → s.isAutoCompoundingPaused vault = true

section Runs

variable {here : Address} {i : GuardStep here} {h h' : GuardHistory} {s : GuardState}
  {now now' : ℕ} {vault : AssetId} {config : CompoundingGuardConfig} {samples : List PriceSample}

theorem strategyAction_of_config {e : Evaluation} (hconfig : s.configs.lookup vault = some config)
    (he : evaluate now (s.readSamples vault) config = .ok e) :
    strategyAction now vault s =
      if e.breached then .ok .convertToReserves
      else if e.armed then .ok .reinvest
      else .ok .hold := by
  simp only [strategyAction, drawdownStatus, GuardState.requireConfig, hconfig, okOr_some, ok_bind,
    he]
  rfl

/-- Advice other than to hold comes from an evaluation. -/
theorem strategyAction_eq_ok {action : CompoundingAction}
    (h : strategyAction now vault s = .ok action) (hne : action ≠ .hold) :
    ∃ config e, s.configs.lookup vault = some config ∧
      evaluate now (s.readSamples vault) config = .ok e ∧
      action = if e.breached then .convertToReserves else .reinvest := by
  cases hconfig : s.configs.lookup vault with
  | none =>
    simp only [strategyAction, drawdownStatus, GuardState.requireConfig, hconfig] at h
    exact absurd (Except.ok.inj h).symm hne
  | some config =>
    cases he : evaluate now (s.readSamples vault) config with
    | error f =>
      simp only [strategyAction, drawdownStatus, GuardState.requireConfig, hconfig, okOr_some,
        ok_bind, he] at h
      cases f with
      | trap => cases h
      | error _ => exact absurd (Except.ok.inj h).symm hne
    | ok e =>
      refine ⟨config, e, rfl, he, ?_⟩
      rw [strategyAction_of_config hconfig he] at h
      split_ifs at h ⊢
      · exact (Except.ok.inj h).symm
      · exact (Except.ok.inj h).symm
      · exact absurd (Except.ok.inj h).symm hne

theorem requireCompoundingAllowed_of_paused (hp : s.isAutoCompoundingPaused vault = true) :
    requireCompoundingAllowed vault s = .error (Fault.error .yieldCompoundingPaused) := by
  rw [requireCompoundingAllowed, failIf, if_pos hp]

theorem requireCompoundingAllowed_of_running (hp : s.isAutoCompoundingPaused vault = false) :
    requireCompoundingAllowed vault s = .ok () := by
  rw [requireCompoundingAllowed, failIf, if_neg (by simp [hp])]

theorem OldestAged.mono (hle : now ≤ now') {windowSecs : ℕ}
    (h : OldestAged now windowSecs samples) : OldestAged now' windowSecs samples := by
  obtain ⟨oldest, hhead, haged⟩ := h
  exact ⟨oldest, hhead, by omega⟩

/-- Advice and gate agree from now on exactly when every loss that can become a breach has
paused its vault. -/
theorem pauseAgrees_iff (hs : h.Sound) : PauseAgrees h ↔ PausesLosses h.state := by
  constructor
  · rintro hagree vault config hconfig hfell ⟨oldest, hhead, hlt⟩
    -- Ask at a time when the oldest sample has grown old enough.
    have haged : OldestAged (max h.clock (oldest.observedAt + config.windowSecs))
        config.windowSecs (h.state.readSamples vault) := ⟨oldest, hhead, by omega⟩
    obtain ⟨e, he⟩ := evaluate_of_fellBelow (hs.ordered vault) hfell
      (max h.clock (oldest.observedAt + config.windowSecs))
    have hbreach := (evaluate_eq_ok (hs.ordered vault) he).2.mpr ⟨haged, hfell⟩
    have hgate := (hagree vault _ (le_max_left _ _) (max_lt hs.clock_lt hlt)).1
      (by rw [strategyAction_of_config hconfig he, if_pos hbreach])
    by_contra hp
    rw [requireCompoundingAllowed_of_running (by simpa using hp)] at hgate
    cases hgate
  · intro hpauses vault now hnow hlt
    constructor
    · intro hadvice
      obtain ⟨config, e, hconfig, he, haction⟩ := strategyAction_eq_ok hadvice (by decide)
      have hbreach : e.breached = true := by
        by_contra hb
        rw [if_neg hb] at haction
        cases haction
      obtain ⟨⟨oldest, hhead, haged⟩, hfell⟩ := (evaluate_eq_ok (hs.ordered vault) he).2.mp hbreach
      have hpast := hs.observed vault oldest (List.mem_of_mem_head? hhead)
      exact requireCompoundingAllowed_of_paused
        (hpauses vault config hconfig hfell ⟨oldest, hhead, by omega⟩)
    · intro hadvice
      obtain ⟨config, e, hconfig, he, haction⟩ := strategyAction_eq_ok hadvice (by decide)
      apply requireCompoundingAllowed_of_running
      -- A paused vault stays in its breach, since samples only grow older.
      by_contra hp
      obtain ⟨config', hconfig', haged, hfell⟩ := hs.breached vault (by simpa using hp)
      obtain rfl := Option.some.inj (hconfig.symm.trans hconfig')
      have hbreach := (evaluate_eq_ok (hs.ordered vault) he).2.mpr ⟨haged.mono hnow, hfell⟩
      rw [if_pos hbreach] at haction
      cases haction

theorem GuardHistory.Sound.fresh (tokens : Tokens) : (GuardHistory.fresh tokens).Sound where
  clock_lt := by simp [GuardHistory.fresh]
  ordered _ := List.Pairwise.nil
  observed _ := List.forall_mem_nil _
  breached _ hp := by simp [GuardHistory.fresh, GuardState.fresh,
    GuardState.isAutoCompoundingPaused] at hp

theorem guardStep_eq_ok (hstep : guardStep i h = .ok h') :
    h'.clock = h.clock + i.elapsed ∧ h'.clock < 2 ^ 64 ∧
      i.call.exec { i.env with timestamp := h'.clock } h.state = .ok h'.state := by
  simp only [guardStep, bind_eq_ok, okOr_eq_ok, checkBits_eq_some, pure_eq_ok] at hstep
  obtain ⟨_, ⟨hlt, rfl⟩, state, hexec, rfl⟩ := hstep
  exact ⟨rfl, hlt, hexec⟩

/-- The samples of an evaluation are ordered and in the past. -/
theorem Reviewed.ordered {call : GuardCall} (hr : Reviewed now h.state call vault config samples)
    (hs : h.Sound) (hle : h.clock ≤ now) :
    Ordered samples ∧ ∀ sample ∈ samples, sample.observedAt ≤ now := by
  have hold : ∀ vault, ∀ sample ∈ h.state.readSamples vault, sample.observedAt ≤ now :=
    fun vault sample hmem => (hs.observed vault sample hmem).trans hle
  cases hr with
  | configure => exact ⟨hs.ordered _, hold _⟩
  | setMax _ => exact ⟨hs.ordered _, hold _⟩
  | sync _ => exact ⟨hs.ordered _, hold _⟩
  | record _ =>
    refine ⟨(hs.ordered _).push (hold _), fun sample hmem => ?_⟩
    rcases List.mem_append.mp ((pushSample_sublist _ _).subset hmem) with hmem | hmem
    · exact hold _ sample hmem
    · exact (congrArg PriceSample.observedAt (List.mem_singleton.mp hmem)).le

theorem guardStep_sound (hs : h.Sound) (hstep : guardStep i h = .ok h') : h'.Sound := by
  obtain ⟨hclock, hlt, hexec⟩ := guardStep_eq_ok hstep
  have hle : h.clock ≤ h'.clock := by omega
  rcases exec_guard_cases hexec with
    ⟨hconfigs, hsamples, hpaused, _⟩ | ⟨vault, config, samples, hr, he⟩
  · refine ⟨hlt, ?_, ?_, ?_⟩
    · simp only [GuardState.readSamples, hsamples]
      exact hs.ordered
    · simp only [GuardState.readSamples, hsamples]
      exact fun v sample hmem => (hs.observed v sample hmem).trans hle
    · intro v hp
      rw [GuardState.isAutoCompoundingPaused, hpaused] at hp
      obtain ⟨config, hconfig, haged, hfell⟩ := hs.breached v hp
      rw [GuardState.readSamples, hsamples, hconfigs]
      exact ⟨config, hconfig, haged.mono hle, hfell⟩
  · obtain ⟨hord, hpast⟩ := hr.ordered hs hle
    refine ⟨hlt, fun v => ?_, fun v => ?_, fun v hp => ?_⟩
    · by_cases hv : v = vault
      · rw [hv, he.samples_eq]
        exact hord
      · rw [he.samples_others v hv]
        exact hs.ordered v
    · by_cases hv : v = vault
      · rw [hv, he.samples_eq]
        exact hpast
      · rw [he.samples_others v hv]
        exact fun sample hmem => (hs.observed v sample hmem).trans hle
    · by_cases hv : v = vault
      · obtain ⟨e, heval, hpaused⟩ := he.evaluated
        rw [hv, hpaused] at hp
        rw [hv, he.samples_eq]
        exact ⟨config, he.config_eq, (evaluate_eq_ok hord heval).2.mp hp⟩
      · rw [he.paused_others v hv] at hp
        obtain ⟨config', hconfig', haged, hfell⟩ := hs.breached v hp
        rw [he.samples_others v hv, he.configs_others v hv]
        exact ⟨config', hconfig', haged.mono hle, hfell⟩

/-- An evaluation leaves every loss paused exactly when there is no early loss in its vault. -/
theorem Reevaluated.pausesLosses_iff {s s' : GuardState}
    (he : Reevaluated now vault config samples s s') (hord : Ordered samples)
    (hp : PausesLosses s) :
    PausesLosses s' ↔ NoEarlyLoss now config.maxDrawdownBps config.windowSecs samples := by
  obtain ⟨e, heval, hpaused⟩ := he.evaluated
  have hiff := (evaluate_eq_ok hord heval).2
  constructor
  · intro hp' hfell hage
    have hbreach := hp' vault config he.config_eq (by rwa [he.samples_eq]) (by rwa [he.samples_eq])
    rw [hpaused] at hbreach
    exact (hiff.mp hbreach).1
  · intro hearly v config' hconfig hfell hage
    by_cases hv : v = vault
    · subst hv
      obtain rfl := Option.some.inj (he.config_eq.symm.trans hconfig)
      rw [he.samples_eq] at hfell hage
      rw [hpaused]
      exact hiff.mpr ⟨hearly hfell hage, hfell⟩
    · rw [he.configs_others v hv] at hconfig
      rw [he.samples_others v hv] at hfell hage
      rw [he.paused_others v hv]
      exact hp v config' hconfig hfell hage

theorem guardStep_pausesLosses_iff (hs : h.Sound) (hp : PausesLosses h.state)
    (hstep : guardStep i h = .ok h') : PausesLosses h'.state ↔ LeavesNoEarlyLoss h i := by
  have hok : ∃ h', guardStep i h = .ok h' := ⟨h', hstep⟩
  unfold LeavesNoEarlyLoss
  rw [imp_iff_right hok]
  obtain ⟨hclock, hlt, hexec⟩ := guardStep_eq_ok hstep
  have hle : h.clock ≤ h'.clock := by omega
  obtain ⟨elapsed, env, call⟩ := i
  rcases exec_guard_cases hexec with
    ⟨hconfigs, hsamples, hpaused, hnot⟩ | ⟨vault, config, samples, hr, he⟩
  · have hp' : PausesLosses h'.state := by
      intro v config hconfig
      rw [GuardState.readSamples, GuardState.isAutoCompoundingPaused, hsamples, hpaused]
      exact hp v config (hconfigs ▸ hconfig)
    refine iff_of_true hp' ?_
    cases call with
    | configureGuard => exact absurd .configure (hnot _ _ _)
    | setMaxDrawdownBps => exact fun config hconfig => absurd (.setMax hconfig) (hnot _ _ _)
    | recordPriceSample => exact fun config hconfig => absurd (.record hconfig) (hnot _ _ _)
    | _ => trivial
  · rw [he.pausesLosses_iff (hr.ordered hs hle).1 hp]
    simp only at hclock
    rw [← hclock]
    cases hr with
    | configure => exact Iff.rfl
    | @setMax _ _ _ config hstored =>
      constructor
      · intro hearly _ config' hconfig
        obtain rfl := Option.some.inj (hstored.symm.trans hconfig)
        exact hearly
      · exact fun hall => hall config hstored
    | record hstored =>
      constructor
      · intro hearly _ config' hconfig
        obtain rfl := Option.some.inj (hstored.symm.trans hconfig)
        exact hearly
      · exact fun hall => hall _ hstored
    | sync hstored =>
      refine iff_of_true (fun hfell hage => ?_) trivial
      -- The loss has paused the vault before, when the oldest sample was old enough.
      obtain ⟨config', hconfig', haged, _⟩ := hs.breached _ (hp _ _ hstored hfell hage)
      obtain rfl := Option.some.inj (hstored.symm.trans hconfig')
      exact haged.mono hle

theorem commit_guard_sound (hs : h.Sound) (i : GuardStep here) : (commit guardStep h i).Sound :=
  commit_induction hs fun _ hstep => guardStep_sound hs hstep

theorem commit_pauseAgrees_iff (hs : h.Sound) (ha : PauseAgrees h) (i : GuardStep here) :
    PauseAgrees (commit guardStep h i) ↔ LeavesNoEarlyLoss h i := by
  rw [pauseAgrees_iff (commit_guard_sound hs i)]
  have hp := (pauseAgrees_iff hs).mp ha
  exact commit_iff_of_accepted (P := fun h' : GuardHistory => PausesLosses h'.state) hp
    fun _ hstep => guardStep_pausesLosses_iff hs hp hstep

theorem pauseAgrees_fresh (tokens : Tokens) : PauseAgrees (.fresh tokens) :=
  (pauseAgrees_iff (.fresh tokens)).mpr fun _ _ hconfig => by
    simp [GuardHistory.fresh, GuardState.fresh] at hconfig

/-- The advice and the gate agree at all times after every call of a run exactly when no call
of the run leaves a loss beyond the limit over samples that are still too young. -/
theorem pauseAgrees_throughout_iff (tokens : Tokens) (run : List (GuardStep here)) :
    Throughout guardStep PauseAgrees (.fresh tokens) run ↔
      Along guardStep LeavesNoEarlyLoss (.fresh tokens) run :=
  throughout_iff_along (I := GuardHistory.Sound) (fun _ i hs => commit_guard_sound hs i)
    (fun _ i hs ha => commit_pauseAgrees_iff hs ha i) (.fresh tokens) (pauseAgrees_fresh tokens)
    run

end Runs

def guardCall (elapsed : ℕ) (call : GuardCall) : GuardStep ⟨0⟩ := ⟨elapsed, guardEnv, call⟩

/-- The price halves one second after the first sample of a seven day window. -/
def halvedRun : List (GuardStep ⟨0⟩) :=
  [guardCall 1000 (.configureGuard ⟨9⟩ 5 ⟨1⟩ ⟨2⟩ 2000 604800),
   guardCall 0 (.recordPriceSample ⟨3⟩ 5 100), guardCall 1 (.recordPriceSample ⟨3⟩ 5 50)]

/-- Seven days after the first sample the advice is to convert, with compounding allowed. -/
theorem halved_advice_ne_gate :
    strategyAction 605800 5 (runAll guardStep (.fresh (fun _ _ => 0)) halvedRun).state =
      .ok .convertToReserves ∧
    requireCompoundingAllowed 5 (runAll guardStep (.fresh (fun _ _ => 0)) halvedRun).state =
      .ok () ∧
    ¬ PauseAgrees (runAll guardStep (.fresh (fun _ _ => 0)) halvedRun) := by
  have hadvice : strategyAction 605800 5
      (runAll guardStep (.fresh (fun _ _ => 0)) halvedRun).state = .ok .convertToReserves := by
    decide +kernel
  have hallowed : (runAll guardStep (.fresh (fun _ _ => 0)) halvedRun).state.isAutoCompoundingPaused
      5 = false := by
    decide +kernel
  have hclock : (runAll guardStep (.fresh (fun _ _ => 0)) halvedRun).clock = 1001 := by
    decide +kernel
  have hgate := requireCompoundingAllowed_of_running hallowed
  refine ⟨hadvice, hgate, fun hagree => ?_⟩
  have hfails := (hagree 5 605800 (by rw [hclock]; norm_num) (by norm_num)).1 hadvice
  exact absurd (hgate.symm.trans hfails) (by simp)

end StellarFlow.Vaults
