import StellarFlow.Vaults.CompoundingGuard

/-!
# Tokens behind the accrued reserves

The reserve of a vault is a number without a token; the configuration says which token it is
paid in. A conversion books what the contract received in the token configured then. If an
administrator configures another base reserve while a reserve is booked, then the old amount
is owed and paid in the new token, which no conversion brought in.
-/
namespace StellarFlow.Vaults

open Foundation

/-- An amount of a token that came in or went out for a vault. -/
structure Booking where
  vault : AssetId
  token : Address
  amount : ℤ

namespace Booking

def amountIn (token : Address) (booking : Booking) : ℤ :=
  if booking.token = token then booking.amount else 0

def amountFor (vault : AssetId) (token : Address) (booking : Booking) : ℤ :=
  if booking.vault = vault then booking.amountIn token else 0

end Booking

/-- The guard with everything its conversions received and its sweeps paid. -/
structure ReserveHistory where
  state : GuardState
  conversions : List Booking
  sweeps : List Booking

namespace ReserveHistory

def fresh (tokens : Tokens) : ReserveHistory := ⟨.fresh tokens, [], []⟩

variable (h : ReserveHistory)

/-- What came in of a token and was not swept yet. -/
def held (token : Address) : ℤ :=
  (h.conversions.map (Booking.amountIn token)).sum - (h.sweeps.map (Booking.amountIn token)).sum

/-- The same for one vault. -/
def heldFor (vault : AssetId) (token : Address) : ℤ :=
  (h.conversions.map (Booking.amountFor vault token)).sum -
    (h.sweeps.map (Booking.amountFor vault token)).sum

end ReserveHistory

abbrev ReserveStep (here : Address) := GuardEnv here × GuardCall

def reserveStep {here : Address} (i : ReserveStep here) (h : ReserveHistory) :
    Except Fault ReserveHistory :=
  match i.2 with
  | .convertRewardsToReserves keeper router vault path rewardAmount minReserveOut => do
    let (conversion, state) ← convertRewardsToReserves i.1 keeper router vault path rewardAmount
      minReserveOut h.state
    let config ← h.state.requireConfig vault
    pure { h with
      state
      conversions := ⟨vault, config.baseReserve, conversion.reserveReceived⟩ :: h.conversions }
  | .sweepReserves admin recipient vault amount => do
    let (paid, state) ← sweepReserves i.1 admin recipient vault amount h.state
    let config ← h.state.requireConfig vault
    pure { h with state, sweeps := ⟨vault, config.baseReserve, paid⟩ :: h.sweeps }
  | call => do
    let state ← call.exec i.1 h.state
    pure { h with state }

/-- What the guard owes in a token to a vault with this configuration. -/
def owedIn (s : GuardState) (token : Address) (vault : AssetId)
    (config : CompoundingGuardConfig) : ℤ :=
  if config.baseReserve = token then s.reserveAccrued vault else 0

/-- What the guard owes in a token to all vaults. -/
def owed (s : GuardState) (token : Address) : ℤ := Store.total (owedIn s token) s.configs

/-- The reserves in a token are covered by what came in of it and was not swept yet. -/
def Covered (h : ReserveHistory) : Prop := ∀ token, owed h.state token ≤ h.held token

/-- A sweep pays no more than its own vault brought in of the token and did not sweep yet. -/
def SweepsOwn (here : Address) (h : ReserveHistory) : Prop :=
  ∀ (env : GuardEnv here) admin recipient vault amount r config,
    h.state.configs.lookup vault = some config →
    sweepReserves env admin recipient vault amount h.state = .ok r →
    amount ≤ h.heldFor vault config.baseReserve

/-- An accepted configuration of a vault with a reserve leaves its base reserve as it is. -/
def KeepsBase {here : Address} (h : ReserveHistory) (i : ReserveStep here) : Prop :=
  (∃ h', reserveStep i h = .ok h') →
    match i.2 with
    | .configureGuard _ vault _ baseReserve _ _ =>
      h.state.reserveAccrued vault ≠ 0 →
        ∀ config, h.state.configs.lookup vault = some config → config.baseReserve = baseReserve
    | _ => True

/-! ## Effects of a call -/

/-- The configuration of a vault was written. -/
structure Configured (vault : AssetId) (config : CompoundingGuardConfig) (h h' : ReserveHistory) :
    Prop where
  configs_eq : h'.state.configs = h.state.configs.insert vault config
  reserves_eq : h'.state.reserves = h.state.reserves
  conversions_eq : h'.conversions = h.conversions
  sweeps_eq : h'.sweeps = h.sweeps

/-- The reserve of a vault moved by an amount of its configured token. -/
structure Booked (vault : AssetId) (config : CompoundingGuardConfig) (amount : ℤ)
    (h h' : ReserveHistory) : Prop where
  config_eq : h.state.configs.lookup vault = some config
  configs_eq : h'.state.configs = h.state.configs
  reserves_eq :
    h'.state.reserves = h.state.reserves.insert vault (h.state.reserveAccrued vault + amount)
  nonneg : 0 ≤ h.state.reserveAccrued vault → 0 ≤ h.state.reserveAccrued vault + amount
  held_eq : ∀ token,
    h'.held token = h.held token + if config.baseReserve = token then amount else 0
  heldFor_eq : ∀ v token, h'.heldFor v token = h.heldFor v token +
    if vault = v then if config.baseReserve = token then amount else 0 else 0

/-- Nothing that the reserves depend on moved. -/
structure Unbooked (h h' : ReserveHistory) : Prop where
  configs_eq : h'.state.configs = h.state.configs
  reserves_eq : h'.state.reserves = h.state.reserves
  conversions_eq : h'.conversions = h.conversions
  sweeps_eq : h'.sweeps = h.sweeps

/-- What an accepted call did to the reserves. -/
inductive ReserveEffect (h h' : ReserveHistory) : GuardCall → Prop
  | configured {admin : Address} {vault : AssetId} {rewardToken baseReserve : Address}
    {maxDrawdownBps : ℤ} {windowSecs : ℕ}
    (effect : Configured vault ⟨vault, rewardToken, baseReserve, maxDrawdownBps, windowSecs⟩ h h') :
    ReserveEffect h h'
      (.configureGuard admin vault rewardToken baseReserve maxDrawdownBps windowSecs)
  | limited {admin : Address} {vault : AssetId} {maxDrawdownBps : ℤ}
    {config : CompoundingGuardConfig} (stored : h.state.configs.lookup vault = some config)
    (effect : Configured vault { config with maxDrawdownBps } h h') :
    ReserveEffect h h' (.setMaxDrawdownBps admin vault maxDrawdownBps)
  | recorded {keeper : Address} {vault : AssetId} {price : ℤ} (effect : Unbooked h h') :
    ReserveEffect h h' (.recordPriceSample keeper vault price)
  | synced {vault : AssetId} (effect : Unbooked h h') : ReserveEffect h h' (.syncDrawdown vault)
  | converted {keeper router : Address} {vault : AssetId} {path : List Address}
    {rewardAmount minReserveOut received : ℤ} {config : CompoundingGuardConfig}
    (effect : Booked vault config received h h') :
    ReserveEffect h h'
      (.convertRewardsToReserves keeper router vault path rewardAmount minReserveOut)
  | swept {admin recipient : Address} {vault : AssetId} {amount : ℤ}
    {config : CompoundingGuardConfig} (effect : Booked vault config (-amount) h h') :
    ReserveEffect h h' (.sweepReserves admin recipient vault amount)

section Steps

variable {here : Address} {env : GuardEnv here} {h h' : ReserveHistory} {i : ReserveStep here}
  {vault : AssetId} {config : CompoundingGuardConfig} {amount : ℤ} {s s' : GuardState}

theorem Configured.of_saveConfig (hsave : saveConfig env vault config h.state = .ok h'.state)
    (hconversions : h'.conversions = h.conversions) (hsweeps : h'.sweeps = h.sweeps) :
    Configured vault config h h' := by
  obtain ⟨hconfigs, _, hreserves, _⟩ := syncPause_keeps hsave
  exact ⟨hconfigs, hreserves, hconversions, hsweeps⟩

theorem Unbooked.of_syncPause {now : ℕ} (hsync : syncPause now vault config s = .ok h'.state)
    (hconfigs : s.configs = h.state.configs) (hreserves : s.reserves = h.state.reserves)
    (hconversions : h'.conversions = h.conversions) (hsweeps : h'.sweeps = h.sweeps) :
    Unbooked h h' := by
  obtain ⟨hc, _, hr, _⟩ := syncPause_keeps hsync
  exact ⟨hc.trans hconfigs, hr.trans hreserves, hconversions, hsweeps⟩

/-- Every accepted call has one of the effects. -/
theorem reserveStep_cases (hstep : reserveStep i h = .ok h') : ReserveEffect h h' i.2 := by
  obtain ⟨env, call⟩ := i
  cases call with
  | configureGuard admin vault rewardToken baseReserve maxDrawdownBps windowSecs =>
    simp only [reserveStep, bind_eq_ok, pure_eq_ok] at hstep
    obtain ⟨state, hexec, rfl⟩ := hstep
    obtain ⟨r, hok⟩ := snd_map_eq_ok.mp hexec
    exact .configured (.of_saveConfig (configureGuard_eq_ok hok) rfl rfl)
  | setMaxDrawdownBps admin vault maxDrawdownBps =>
    simp only [reserveStep, bind_eq_ok, pure_eq_ok] at hstep
    obtain ⟨state, hexec, rfl⟩ := hstep
    obtain ⟨r, hok⟩ := snd_map_eq_ok.mp hexec
    obtain ⟨config, hstored, hsave⟩ := setMaxDrawdownBps_eq_ok hok
    exact .limited hstored (.of_saveConfig hsave rfl rfl)
  | recordPriceSample keeper vault price =>
    simp only [reserveStep, bind_eq_ok, pure_eq_ok] at hstep
    obtain ⟨state, hexec, rfl⟩ := hstep
    obtain ⟨r, hok⟩ := snd_map_eq_ok.mp hexec
    obtain ⟨config, _, hsync⟩ := recordPriceSample_eq_ok hok
    exact .recorded (.of_syncPause hsync rfl rfl rfl rfl)
  | syncDrawdown vault =>
    simp only [reserveStep, bind_eq_ok, pure_eq_ok] at hstep
    obtain ⟨state, hexec, rfl⟩ := hstep
    obtain ⟨r, hok⟩ := snd_map_eq_ok.mp hexec
    obtain ⟨config, _, hsync⟩ := syncDrawdown_eq_ok hok
    exact .synced (.of_syncPause hsync rfl rfl rfl rfl)
  | convertRewardsToReserves keeper router vault path rewardAmount minReserveOut =>
    simp only [reserveStep, GuardState.requireConfig, bind_eq_ok, okOr_eq_ok, pure_eq_ok] at hstep
    obtain ⟨⟨conversion, state⟩, hok, config, hconfig, rfl⟩ := hstep
    obtain ⟨hpos, tokens, rfl⟩ := convertRewardsToReserves_eq_ok hok
    refine .converted ⟨hconfig, rfl, rfl, fun hle => add_nonneg hle hpos.le, fun token => ?_,
      fun v token => ?_⟩
    · simp only [ReserveHistory.held, List.map_cons, List.sum_cons, Booking.amountIn]
      ring
    · simp only [ReserveHistory.heldFor, List.map_cons, List.sum_cons, Booking.amountFor,
        Booking.amountIn]
      ring
  | sweepReserves admin recipient vault amount =>
    simp only [reserveStep, GuardState.requireConfig, bind_eq_ok, okOr_eq_ok, pure_eq_ok] at hstep
    obtain ⟨⟨paid, state⟩, hok, config, hconfig, rfl⟩ := hstep
    obtain ⟨rfl, hle, tokens, rfl⟩ := sweepReserves_eq_ok hok
    refine .swept ⟨hconfig, rfl, rfl, fun _ => sub_nonneg.mpr hle, fun token => ?_,
      fun v token => ?_⟩
    · simp only [ReserveHistory.held, List.map_cons, List.sum_cons, Booking.amountIn]
      split_ifs <;> ring
    · simp only [ReserveHistory.heldFor, List.map_cons, List.sum_cons, Booking.amountFor,
        Booking.amountIn]
      split_ifs <;> ring

end Steps

/-! ## Balance -/

/-- The reserve of every vault is what it brought in and did not sweep, in its own token. -/
structure Balanced (h : ReserveHistory) : Prop where
  nonneg : ∀ vault, 0 ≤ h.state.reserveAccrued vault
  configured : ∀ vault, h.state.configs.lookup vault = none → h.state.reserveAccrued vault = 0
  each : ∀ vault token,
    h.heldFor vault token = Store.part (owedIn h.state token) h.state.configs vault
  whole : ∀ token, h.held token = owed h.state token

section Balance

variable {h h' : ReserveHistory} {vault : AssetId} {config : CompoundingGuardConfig} {amount : ℤ}
  {s s' : GuardState}

theorem reserveAccrued_congr (hreserves : s'.reserves = s.reserves) :
    s'.reserveAccrued = s.reserveAccrued := by
  funext v
  rw [GuardState.reserveAccrued, hreserves, GuardState.reserveAccrued]

theorem owedIn_congr (hreserves : s'.reserves = s.reserves) : owedIn s' = owedIn s := by
  funext token vault config
  rw [owedIn, reserveAccrued_congr hreserves, owedIn]

theorem reserveAccrued_insert (hreserves : s'.reserves = s.reserves.insert vault amount)
    (v : AssetId) :
    s'.reserveAccrued v = if vault = v then amount else s.reserveAccrued v := by
  rw [GuardState.reserveAccrued, hreserves]
  split_ifs with hv
  · rw [hv, Finmap.lookup_insert, Option.getD_some]
  · rw [Finmap.lookup_insert_of_ne _ (Ne.symm hv), GuardState.reserveAccrued]

theorem Balanced.unbooked (hb : Balanced h) (he : Unbooked h h') : Balanced h' := by
  have hr := reserveAccrued_congr he.reserves_eq
  refine ⟨?_, ?_, fun v token => ?_, fun token => ?_⟩
  · rw [hr]
    exact hb.nonneg
  · rw [hr, he.configs_eq]
    exact hb.configured
  · rw [ReserveHistory.heldFor, he.conversions_eq, he.sweeps_eq, owedIn_congr he.reserves_eq,
      he.configs_eq]
    exact hb.each v token
  · rw [ReserveHistory.held, he.conversions_eq, he.sweeps_eq, owed, owedIn_congr he.reserves_eq,
      he.configs_eq]
    exact hb.whole token

/-- A configuration keeps the balance if there is no reserve or the token stays. -/
theorem Balanced.configure (hb : Balanced h) (he : Configured vault config h h')
    (hbase : h.state.reserveAccrued vault ≠ 0 → ∀ old,
      h.state.configs.lookup vault = some old → old.baseReserve = config.baseReserve) :
    Balanced h' := by
  have hr := reserveAccrued_congr he.reserves_eq
  have hsame : ∀ token, Store.part (owedIn h.state token) h.state.configs vault =
      owedIn h.state token vault config := by
    intro token
    cases hold : h.state.configs.lookup vault with
    | none =>
      rw [Store.part_of_none _ hold, owedIn, hb.configured vault hold, ite_self]
    | some old =>
      rw [Store.part_of_lookup _ hold, owedIn, owedIn]
      by_cases hzero : h.state.reserveAccrued vault = 0
      · rw [hzero, ite_self, ite_self]
      · rw [hbase hzero old hold]
  refine ⟨?_, fun v hv => ?_, fun v token => ?_, fun token => ?_⟩
  · rw [hr]
    exact hb.nonneg
  · rw [he.configs_eq, Store.lookup_insert_ite] at hv
    split_ifs at hv
    rw [hr]
    exact hb.configured v hv
  · rw [ReserveHistory.heldFor, he.conversions_eq, he.sweeps_eq, owedIn_congr he.reserves_eq,
      he.configs_eq]
    refine (hb.each v token).trans ?_
    by_cases hv : v = vault
    · rw [hv, hsame token, Store.part_of_lookup _ (Finmap.lookup_insert _)]
    · rw [Store.part, Store.part, Finmap.lookup_insert_of_ne _ hv]
  · have htotal := Store.total_insert (owedIn h.state token) h.state.configs vault config
    rw [ReserveHistory.held, he.conversions_eq, he.sweeps_eq, owed, owedIn_congr he.reserves_eq,
      he.configs_eq]
    rw [hsame token] at htotal
    exact (hb.whole token).trans (add_right_cancel htotal).symm

/-- A conversion or sweep moves the reserve and the books alike. -/
theorem Balanced.book (hb : Balanced h) (he : Booked vault config amount h h') : Balanced h' := by
  have hr := reserveAccrued_insert he.reserves_eq
  have hpart : ∀ token, Store.part (owedIn h'.state token) h.state.configs vault =
      Store.part (owedIn h.state token) h.state.configs vault +
        if config.baseReserve = token then amount else 0 := by
    intro token
    rw [Store.part_of_lookup _ he.config_eq, Store.part_of_lookup _ he.config_eq, owedIn, owedIn,
      hr, if_pos rfl]
    split_ifs <;> ring
  have hothers : ∀ token v config', v ≠ vault →
      owedIn h.state token v config' = owedIn h'.state token v config' := by
    intro token v config' hv
    rw [owedIn, owedIn, hr, if_neg hv.symm]
  refine ⟨fun v => ?_, fun v hv => ?_, fun v token => ?_, fun token => ?_⟩
  · rw [hr]
    split_ifs
    · exact he.nonneg (hb.nonneg vault)
    · exact hb.nonneg v
  · rw [he.configs_eq] at hv
    have hne : vault ≠ v := by
      rintro rfl
      rw [he.config_eq] at hv
      cases hv
    rw [hr, if_neg hne]
    exact hb.configured v hv
  · rw [he.heldFor_eq, he.configs_eq, hb.each]
    by_cases hv : vault = v
    · rw [← hv, if_pos rfl, hpart]
    · rw [if_neg hv, add_zero]
      cases hconfig : h.state.configs.lookup v with
      | none => rw [Store.part_of_none _ hconfig, Store.part_of_none _ hconfig]
      | some config' =>
        rw [Store.part_of_lookup _ hconfig, Store.part_of_lookup _ hconfig]
        exact hothers token v config' (Ne.symm hv)
  · have htotal := Store.total_reweigh h.state.configs vault
      fun v config' hv => hothers token v config' hv
    rw [hpart token] at htotal
    rw [he.held_eq, hb.whole, owed, owed, he.configs_eq]
    linarith

/-- Another token for a vault with a reserve leaves a debt in it that nothing covers. -/
theorem Balanced.not_covered (hb : Balanced h) (he : Configured vault config h h')
    (hreserve : h.state.reserveAccrued vault ≠ 0) {old : CompoundingGuardConfig}
    (hold : h.state.configs.lookup vault = some old)
    (hbase : old.baseReserve ≠ config.baseReserve) : ¬ Covered h' := by
  intro hcovered
  have hle := hcovered config.baseReserve
  have htotal := Store.total_insert (owedIn h.state config.baseReserve) h.state.configs vault config
  have hpos : 0 < h.state.reserveAccrued vault := lt_of_le_of_ne (hb.nonneg vault) hreserve.symm
  rw [Store.part_of_lookup _ hold, owedIn, if_neg hbase, owedIn, if_pos rfl] at htotal
  rw [ReserveHistory.held, he.conversions_eq, he.sweeps_eq, owed, owedIn_congr he.reserves_eq,
    he.configs_eq] at hle
  have hwhole := hb.whole config.baseReserve
  rw [ReserveHistory.held, owed] at hwhole
  omega

end Balance

/-! ## Runs -/

section Runs

variable {here : Address} {h h' : ReserveHistory} {i : ReserveStep here}

theorem Balanced.fresh (tokens : Tokens) : Balanced (.fresh tokens) where
  nonneg _ := le_refl 0
  configured _ _ := rfl
  each _ _ := rfl
  whole _ := rfl

theorem Balanced.covered (hb : Balanced h) : Covered h := fun token => (hb.whole token).ge

theorem Balanced.sweepsOwn (hb : Balanced h) : SweepsOwn here h := by
  rintro env admin recipient vault amount ⟨paid, s'⟩ config hconfig hok
  rw [hb.each, Store.part_of_lookup _ hconfig, owedIn, if_pos rfl]
  exact (sweepReserves_eq_ok hok).2.1

theorem reserveStep_balanced (hb : Balanced h) (hkeeps : KeepsBase h i)
    (hstep : reserveStep i h = .ok h') : Balanced h' := by
  have heffect := reserveStep_cases hstep
  obtain ⟨env, call⟩ := i
  cases heffect with
  | configured he => exact hb.configure he (hkeeps ⟨h', hstep⟩)
  | limited hstored he =>
    refine hb.configure he fun _ old hold => ?_
    rw [Option.some.inj (hold.symm.trans hstored)]
  | recorded he => exact hb.unbooked he
  | synced he => exact hb.unbooked he
  | converted he => exact hb.book he
  | swept he => exact hb.book he

theorem reserveStep_not_covered (hb : Balanced h) (hkeeps : ¬ KeepsBase h i) :
    ¬ Covered (commit reserveStep h i) := by
  obtain ⟨⟨h', hstep⟩, hbase⟩ := Classical.not_imp.mp hkeeps
  have heffect := reserveStep_cases hstep
  obtain ⟨env, call⟩ := i
  rw [commit_of_ok hstep]
  cases heffect with
  | configured he =>
    intro hcovered
    refine hbase fun hreserve old hold => ?_
    by_contra hne
    exact hb.not_covered he hreserve hold hne hcovered
  | _ => exact absurd trivial hbase

/-- Throughout a run the reserves are covered and sweeps pay what their own vault brought in,
exactly when no accepted configuration changes the token of a vault with a reserve. -/
theorem reserves_covered_throughout_iff (tokens : Tokens) (run : List (ReserveStep here)) :
    Throughout reserveStep (fun h => Covered h ∧ SweepsOwn here h) (.fresh tokens) run ↔
      Along reserveStep KeepsBase (.fresh tokens) run :=
  throughout_iff_along_of_breaks (I := Balanced) (fun _ hb => ⟨hb.covered, hb.sweepsOwn⟩)
    (fun _ _ hb hkeeps => commit_induction hb fun _ hstep => reserveStep_balanced hb hkeeps hstep)
    (fun _ _ hb hkeeps hcovered => reserveStep_not_covered hb hkeeps hcovered.1)
    (Balanced.fresh tokens) run

end Runs

/-- The contract holds rewards in one token and units of another subsystem in a third. -/
def heldTokens : Tokens := fun token holder =>
  if holder = ⟨0⟩ ∧ token = ⟨1⟩ then 100 else if holder = ⟨0⟩ ∧ token = ⟨3⟩ then 70 else 0

/-- Rewards are converted into one token, and then another one is configured. -/
def rebasedRun : List (ReserveStep ⟨0⟩) :=
  [(guardEnv, .configureGuard ⟨9⟩ 5 ⟨1⟩ ⟨2⟩ 2000 604800),
   (guardEnv, .convertRewardsToReserves ⟨4⟩ ⟨8⟩ 5 [⟨1⟩, ⟨2⟩] 100 1),
   (guardEnv, .configureGuard ⟨9⟩ 5 ⟨1⟩ ⟨3⟩ 2000 604800)]

def rebasedSweep : ReserveStep ⟨0⟩ := (guardEnv, .sweepReserves ⟨9⟩ ⟨7⟩ 5 70)

/-- The sweep pays out a token that no conversion brought in. -/
theorem rebased_sweep_uncovered :
    let h := runAll reserveStep (.fresh heldTokens) rebasedRun
    owed h.state ⟨3⟩ = 100 ∧ h.held ⟨3⟩ = 0 ∧
    (runAll reserveStep (.fresh heldTokens) (rebasedRun ++ [rebasedSweep])).state.tokens ⟨3⟩ ⟨7⟩ =
      70 ∧
    ¬ Throughout reserveStep (fun h => Covered h ∧ SweepsOwn ⟨0⟩ h) (.fresh heldTokens)
      rebasedRun := by
  have howed : owed (runAll reserveStep (.fresh heldTokens) rebasedRun).state ⟨3⟩ = 100 := by
    decide +kernel
  have hheld : (runAll reserveStep (.fresh heldTokens) rebasedRun).held ⟨3⟩ = 0 := by
    decide +kernel
  have hpaid : (runAll reserveStep (.fresh heldTokens)
      (rebasedRun ++ [rebasedSweep])).state.tokens ⟨3⟩ ⟨7⟩ = 70 := by
    decide +kernel
  refine ⟨howed, hheld, hpaid, ?_⟩
  rintro ⟨_, _, _, hcovered, _⟩
  have hle : owed (runAll reserveStep (.fresh heldTokens) rebasedRun).state ⟨3⟩ ≤
      (runAll reserveStep (.fresh heldTokens) rebasedRun).held ⟨3⟩ := hcovered ⟨3⟩
  rw [howed, hheld] at hle
  omega

end StellarFlow.Vaults
