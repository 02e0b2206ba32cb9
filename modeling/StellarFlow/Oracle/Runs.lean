import StellarFlow.Oracle.Updates

/-!
# Runs of the oracle

In every run a buffer that is not empty belongs to a ledger in which the price of its asset was
stored, and the next update of that ledger is refused for that reason. So every update starts from
an empty buffer, and without a bypass no update ever finds a quorum.
-/
namespace StellarFlow.Oracle

open Foundation

inductive OracleCall where
  | initializeOracle (admin : Address) (baseCurrencyPairs : List Symbol)
  | initAdmin (admin : Address)
  | assignDelegate (admin delegate : Address)
  | enableBypassSafetyChecks (admin : Address)
  | disableBypassSafetyChecks (admin : Address)
  | addAsset (admin : Address) (asset : Symbol)
  | registerAssetsWithConfig (admin : Address) (configs : List AssetRegistrationConfig)
      (maxDeviationBps : ℤ)
  | removeAsset (admin : Address) (asset : Symbol)
  | setPrice (asset : Symbol) (val : ℤ) (ttl : ℕ)
  | updatePrice (u : PriceUpdate)
  /-- Any other entry point, with the settings that it leaves. -/
  | other (settings : OracleSettings)

/-- A call, some ledgers after the last one. -/
structure OracleStep (here : Address) where
  elapsed : ℕ
  env : OracleEnv here
  call : OracleCall

/-- The store and the ledger of the last call. -/
structure OracleState where
  store : OracleStore
  sequence : ℕ

def OracleState.deployed : OracleState := ⟨.deployed, 0⟩

section Model

variable {here : Address}

/-- Also a contract that was destroyed can be initialised. -/
def initializeOracle (admin : Address) (baseCurrencyPairs : List Symbol) (s : OracleStore) :
    Except OracleFault OracleStore := do
  failIf (s.settings.initialized ∨ s.settings.admins ≠ none) (.error .alreadyInitialized)
  pure { s with settings := { s.settings with
    admins := some [admin], baseCurrencyPairs, initialized := true } }

def initAdmin (admin : Address) (s : OracleStore) : Except OracleFault OracleStore := do
  s.settings.requireNotDestroyed
  failIf s.settings.initialized (.error .alreadyInitialized)
  pure { s with settings := { s.settings with admins := some [admin], initialized := true } }

def assignDelegate (env : OracleEnv here) (admin delegate : Address) (s : OracleStore) :
    Except OracleFault OracleStore := do
  requireAdmin env admin s
  failIf (admin = delegate) (.error .invalidDelegate)
  pure { s with settings := s.settings.setDelegate admin delegate }

def enableBypassSafetyChecks (env : OracleEnv here) (admin : Address) (s : OracleStore) :
    Except OracleFault OracleStore := do
  s.settings.requireNotDestroyed
  requireAdmin env admin s
  let expiry ← okOr (checkBits 64 (env.timestamp + bypassDuration)) .trap
  pure { s with settings := { s.settings with bypassExpiry := some expiry } }

def disableBypassSafetyChecks (env : OracleEnv here) (admin : Address) (s : OracleStore) :
    Except OracleFault OracleStore := do
  s.settings.requireNotDestroyed
  hostCall (env.requireAuth admin)
  s.settings.requireAuthorized admin
  pure { s with settings := { s.settings with bypassExpiry := none } }

variable (validConfigs : List AssetRegistrationConfig → ℤ → Bool)

def OracleCall.exec (env : OracleEnv here) (s : OracleStore) :
    OracleCall → Except OracleFault OracleStore
  | .initializeOracle admin baseCurrencyPairs => Oracle.initializeOracle admin baseCurrencyPairs s
  | .initAdmin admin => Oracle.initAdmin admin s
  | .assignDelegate admin delegate => Oracle.assignDelegate env admin delegate s
  | .enableBypassSafetyChecks admin => Oracle.enableBypassSafetyChecks env admin s
  | .disableBypassSafetyChecks admin => Oracle.disableBypassSafetyChecks env admin s
  | .addAsset admin asset => Oracle.addAsset env admin asset s
  | .registerAssetsWithConfig admin configs maxDeviationBps =>
    Oracle.registerAssetsWithConfig env validConfigs admin configs maxDeviationBps s
  | .removeAsset admin asset => Oracle.removeAsset env admin asset s
  | .setPrice asset val ttl => Oracle.setPrice env asset val ttl s
  | .updatePrice u => Oracle.updatePrice env u s
  | .other settings => pure { s with settings }

/-- The environment of a call at a ledger. -/
def OracleStep.envAt (i : OracleStep here) (sequence : ℕ) : OracleEnv here :=
  { i.env with sequence }

def oracleStep (i : OracleStep here) (s : OracleState) : Except OracleFault OracleState := do
  let sequence ← okOr (checkBits 32 (s.sequence + i.elapsed)) .trap
  let store ← i.call.exec validConfigs (i.envAt sequence) s.store
  pure ⟨store, sequence⟩

end Model

/-! ## Settings -/

section Settings

variable {here : Address} {env : OracleEnv here} {s s' : OracleStore} {admin : Address}

theorem initializeOracle_keeps {baseCurrencyPairs : List Symbol}
    (h : initializeOracle admin baseCurrencyPairs s = .ok s') : KeepsPrices s s' := by
  obtain ⟨_, -, h⟩ := bind_eq_ok.mp h
  obtain rfl := pure_eq_ok.mp h
  exact ⟨rfl, rfl, rfl, rfl⟩

theorem initAdmin_keeps (h : initAdmin admin s = .ok s') : KeepsPrices s s' := by
  obtain ⟨_, -, h⟩ := bind_eq_ok.mp h
  obtain ⟨_, -, h⟩ := bind_eq_ok.mp h
  obtain rfl := pure_eq_ok.mp h
  exact ⟨rfl, rfl, rfl, rfl⟩

theorem assignDelegate_keeps {delegate : Address}
    (h : assignDelegate env admin delegate s = .ok s') : KeepsPrices s s' := by
  obtain ⟨_, -, h⟩ := bind_eq_ok.mp h
  obtain ⟨_, -, h⟩ := bind_eq_ok.mp h
  obtain rfl := pure_eq_ok.mp h
  exact ⟨rfl, rfl, rfl, rfl⟩

theorem enableBypassSafetyChecks_keeps (h : enableBypassSafetyChecks env admin s = .ok s') :
    KeepsPrices s s' := by
  obtain ⟨_, -, h⟩ := bind_eq_ok.mp h
  obtain ⟨_, -, h⟩ := bind_eq_ok.mp h
  obtain ⟨_, -, h⟩ := bind_eq_ok.mp h
  obtain rfl := pure_eq_ok.mp h
  exact ⟨rfl, rfl, rfl, rfl⟩

theorem disableBypassSafetyChecks_keeps (h : disableBypassSafetyChecks env admin s = .ok s') :
    KeepsPrices s s' := by
  obtain ⟨_, -, h⟩ := bind_eq_ok.mp h
  obtain ⟨_, -, h⟩ := bind_eq_ok.mp h
  obtain ⟨_, -, h⟩ := bind_eq_ok.mp h
  obtain rfl := pure_eq_ok.mp h
  exact ⟨rfl, rfl, rfl, rfl⟩

theorem other_keeps {validConfigs : List AssetRegistrationConfig → ℤ → Bool}
    {settings : OracleSettings}
    (h : (OracleCall.other settings).exec validConfigs env s = .ok s') : KeepsPrices s s' := by
  obtain rfl := pure_eq_ok.mp h
  exact ⟨rfl, rfl, rfl, rfl⟩

end Settings

/-! ## Buffers and prices -/

/-- A tracked asset has a price, no buffer belongs to a later ledger, and where there is one for
the current ledger the price of its asset is not older. -/
structure Orderly (sequence : ℕ) (s : OracleStore) : Prop where
  priced : ∀ asset ∈ s.trackedAssets, ∃ priceData, s.verifiedPrices.lookup asset = some priceData
  buffer_past : ∀ asset ledger buffer, s.buffers.lookup (asset, ledger) = some buffer →
    ledger ≤ sequence
  buffer_priced : ∀ asset buffer, s.buffers.lookup (asset, sequence) = some buffer →
    ∀ priceData, s.verifiedPrices.lookup asset = some priceData →
      sequence ≤ priceData.ledgerSequence

section Invariant

variable {here : Address} {env : OracleEnv here} {s s' : OracleStore} {sequence sequence' : ℕ}
  {u : PriceUpdate} {asset : Symbol} {priceData : PriceData}

theorem Orderly.deployed : Orderly 0 .deployed where
  priced asset hmem := absurd hmem (Finset.notMem_empty _)
  buffer_past asset ledger buffer h := by cases h
  buffer_priced asset buffer h := by cases h

theorem Orderly.later (ho : Orderly sequence s) (hle : sequence ≤ sequence') :
    Orderly sequence' s where
  priced := ho.priced
  buffer_past asset ledger buffer h := (ho.buffer_past asset ledger buffer h).trans hle
  buffer_priced asset buffer h := by
    obtain rfl := le_antisymm hle (ho.buffer_past asset sequence' buffer h)
    exact ho.buffer_priced asset buffer h

/-- A price of the current ledger may be stored at any time. -/
theorem Orderly.store (ho : Orderly sequence s)
    (hledger : priceData.ledgerSequence = sequence)
    (hprices : s'.verifiedPrices = s.verifiedPrices.insert asset priceData)
    (htracked : s'.trackedAssets ⊆ insert asset s.trackedAssets)
    (hbuffers : s'.buffers = s.buffers ∨
      ∃ buffer, s'.buffers = s.buffers.insert (asset, sequence) buffer) :
    Orderly sequence s' := by
  have hkeys : ∀ other ledger buffer, s'.buffers.lookup (other, ledger) = some buffer →
      other = asset ∧ ledger = sequence ∨ s.buffers.lookup (other, ledger) = some buffer := by
    intro other ledger buffer hlookup
    obtain hbuffers | ⟨new, hbuffers⟩ := hbuffers
    · rw [hbuffers] at hlookup
      exact .inr hlookup
    · rw [hbuffers] at hlookup
      obtain ⟨hkey, -⟩ | ⟨-, hold⟩ := Store.lookup_insert_eq_some.mp hlookup
      · exact .inl (Prod.mk.inj hkey)
      · exact .inr hold
  refine ⟨fun other hmem => ?_, fun other ledger buffer hlookup => ?_,
    fun other buffer hlookup stored hstored => ?_⟩
  · rw [hprices, Store.lookup_insert_ite]
    split_ifs with hother
    · exact ⟨priceData, rfl⟩
    · exact ho.priced other ((Finset.mem_insert.mp (htracked hmem)).resolve_left hother)
  · obtain ⟨-, rfl⟩ | hold := hkeys other ledger buffer hlookup
    · exact le_rfl
    · exact ho.buffer_past other ledger buffer hold
  · rw [hprices] at hstored
    obtain ⟨-, rfl⟩ | ⟨hother, hstored⟩ := Store.lookup_insert_eq_some.mp hstored
    · exact hledger.ge
    · obtain ⟨rfl, -⟩ | hold := hkeys other sequence buffer hlookup
      · exact absurd rfl hother
      · exact ho.buffer_priced other buffer hold stored hstored

theorem Orderly.starts (ho : Orderly env.sequence s) {assets : List Symbol}
    (h : Starts env assets s s') : Orderly env.sequence s' where
  priced other hmem := by
    rw [h.lookup_eq]
    obtain hmem | hmem := h.trackedAssets_subset other hmem
    · obtain ⟨priceData, hprice⟩ := ho.priced other hmem
      exact ⟨priceData, by rw [hprice, Option.some_or]⟩
    · rw [if_pos hmem]
      cases s.verifiedPrices.lookup other with
      | none => exact ⟨placeholder env, rfl⟩
      | some priceData => exact ⟨priceData, rfl⟩
  buffer_past := h.buffers_eq ▸ ho.buffer_past
  buffer_priced other buffer hlookup priceData hprice := by
    rw [h.buffers_eq] at hlookup
    rw [h.lookup_eq, Option.or_eq_some_iff] at hprice
    obtain hprice | ⟨-, hprice⟩ := hprice
    · exact ho.buffer_priced other buffer hlookup priceData hprice
    · split_ifs at hprice
      obtain rfl := Option.some.inj hprice
      exact le_rfl

theorem Orderly.keeps (ho : Orderly sequence s) (h : KeepsPrices s s') : Orderly sequence s' where
  priced := h.verifiedPrices_eq ▸ h.trackedAssets_eq ▸ ho.priced
  buffer_past := h.buffers_eq ▸ ho.buffer_past
  buffer_priced := h.buffers_eq ▸ h.verifiedPrices_eq ▸ ho.buffer_priced

theorem Orderly.remove (ho : Orderly sequence s)
    (hprices : s'.verifiedPrices = s.verifiedPrices.erase asset)
    (htracked : s'.trackedAssets = s.trackedAssets.erase asset)
    (hbuffers : s'.buffers = s.buffers) : Orderly sequence s' where
  priced other hmem := by
    rw [htracked, Finset.mem_erase] at hmem
    rw [hprices, Store.lookup_erase_ite, if_neg hmem.1]
    exact ho.priced other hmem.2
  buffer_past := hbuffers ▸ ho.buffer_past
  buffer_priced other buffer hlookup priceData hprice := by
    rw [hbuffers] at hlookup
    rw [hprices, Store.lookup_erase_ite] at hprice
    split_ifs at hprice
    exact ho.buffer_priced other buffer hlookup priceData hprice

/-- An accepted update starts from an empty buffer. -/
theorem Orderly.joinedBuffer_eq (ho : Orderly env.sequence s) (h : UpdateAccepted env u s s') :
    (joinedBuffer env u s).entries = [⟨u.price, u.source, env.timestamp⟩] := by
  obtain ⟨priceData, hprice⟩ := ho.priced u.asset h.tracked
  have hempty : s.buffers.lookup (u.asset, env.sequence) = none := by
    cases hlookup : s.buffers.lookup (u.asset, env.sequence) with
    | none => rfl
    | some buffer =>
      exact absurd (ho.buffer_priced u.asset buffer hlookup priceData hprice)
        (not_le.mpr (h.advanced priceData hprice))
  rw [joinedBuffer, getPriceBuffer, hempty]
  dsimp only [Option.getD_none]
  rw [clearStaleBuffer, if_neg (not_not.mpr rfl)]
  rfl

/-- An accepted update stores the price that was submitted. -/
theorem Orderly.updatedPrice_eq (ho : Orderly env.sequence s) (h : UpdateAccepted env u s s') :
    (updatedPrice env u s).price = u.price := by
  have hone := ho.joinedBuffer_eq h
  have hstored : (storedBuffer env u s).entries = [⟨u.price, u.source, env.timestamp⟩] := by
    rw [storedBuffer, truncateBufferByWeight_of_le _ (by simp [hone, maxMedianEntries])]
    exact hone
  rw [updatedPrice_price (by simp [hstored]), hstored, List.map_singleton, median_singleton]

/-- Without a bypass no update is accepted. -/
theorem Orderly.bypassActive (ho : Orderly env.sequence s)
    (h : updatePrice env u s = .ok s') : s.settings.isBypassActive env.timestamp = true := by
  have haccepted := updatePrice_eq_ok h
  refine haccepted.quorum.resolve_right fun hquorum => ?_
  rw [ho.joinedBuffer_eq haccepted] at hquorum
  have hone := hquorum.trans (List.dedup_sublist _).length_le
  rw [List.length_map, List.length_singleton] at hone
  exact absurd hone (by decide)

end Invariant

section Steps

variable {here : Address} {validConfigs : List AssetRegistrationConfig → ℤ → Bool}
  {i : OracleStep here} {s s' : OracleState}

theorem oracleStep_eq_ok (h : oracleStep validConfigs i s = .ok s') :
    s'.sequence = s.sequence + i.elapsed ∧
      i.call.exec validConfigs (i.envAt s'.sequence) s.store = .ok s'.store := by
  obtain ⟨sequence, hsequence, h⟩ := bind_eq_ok.mp h
  obtain ⟨store, hexec, h⟩ := bind_eq_ok.mp h
  obtain ⟨-, rfl⟩ := checkBits_eq_some.mp (okOr_eq_ok.mp hsequence)
  obtain rfl := pure_eq_ok.mp h
  exact ⟨rfl, hexec⟩

theorem Orderly.exec {env : OracleEnv here} {call : OracleCall} {t t' : OracleStore}
    (ho : Orderly env.sequence t) (h : call.exec validConfigs env t = .ok t') :
    Orderly env.sequence t' := by
  cases call with
  | initializeOracle admin baseCurrencyPairs => exact ho.keeps (initializeOracle_keeps h)
  | initAdmin admin => exact ho.keeps (initAdmin_keeps h)
  | assignDelegate admin delegate => exact ho.keeps (assignDelegate_keeps h)
  | enableBypassSafetyChecks admin => exact ho.keeps (enableBypassSafetyChecks_keeps h)
  | disableBypassSafetyChecks admin => exact ho.keeps (disableBypassSafetyChecks_keeps h)
  | addAsset admin asset => exact ho.starts (addAsset_eq_ok h).2
  | registerAssetsWithConfig admin configs maxDeviationBps =>
    exact ho.starts (registerAssetsWithConfig_eq_ok h).2
  | removeAsset admin asset =>
    obtain ⟨hprices, htracked, hbuffers⟩ := removeAsset_eq_ok h
    exact ho.remove hprices htracked hbuffers
  | setPrice asset val ttl =>
    have haccepted := setPrice_eq_ok h
    obtain ⟨current, -, -, -, hprices⟩ := haccepted.refreshed
    exact ho.store rfl hprices haccepted.trackedAssets_subset (.inl haccepted.buffers_eq)
  | updatePrice u =>
    have haccepted := updatePrice_eq_ok h
    refine ho.store rfl haccepted.verifiedPrices_eq ?_ (.inr ⟨_, haccepted.buffers_eq⟩)
    rw [haccepted.trackedAssets_eq]
    exact Finset.subset_insert _ _
  | other settings => exact ho.keeps (other_keeps h)

theorem Orderly.step (ho : Orderly s.sequence s.store)
    (h : oracleStep validConfigs i s = .ok s') : Orderly s'.sequence s'.store := by
  obtain ⟨hsequence, hexec⟩ := oracleStep_eq_ok h
  exact Orderly.exec (ho.later (hsequence.symm ▸ Nat.le_add_right _ _)) hexec

theorem Orderly.commit (ho : Orderly s.sequence s.store) (i : OracleStep here) :
    Orderly (commit (oracleStep validConfigs) s i).sequence
      (commit (oracleStep validConfigs) s i).store :=
  commit_induction (P := fun s : OracleState => Orderly s.sequence s.store) ho
    fun _ h => ho.step h

theorem orderly_runAll (validConfigs : List AssetRegistrationConfig → ℤ → Bool)
    (run : List (OracleStep here)) :
    Orderly (runAll (oracleStep validConfigs) .deployed run).sequence
      (runAll (oracleStep validConfigs) .deployed run).store :=
  runAll_induction (P := fun s => Orderly s.sequence s.store) (fun _ _ _ ho h => ho.step h)
    Orderly.deployed run

end Steps

def sampleOracleEnv : OracleEnv ⟨0⟩ :=
  { Env.standard ⟨0⟩ 0 none with
    onPriceUpdate := fun _ => true
    reimburse := fun _ => true }

def sampleUpdate (source : Address) (price : ℤ) : PriceUpdate := ⟨source, ⟨7⟩, price, 9, 100, 60, 1⟩

end StellarFlow.Oracle
