import StellarFlow.Oracle.Runs

/-!
# Who changes verified prices

Verified prices are meant to be written by providers and admins only, with the contract in use and
the price checked. Updates do not look at the state of the contract, prices are set without any
authorisation, and new assets start with a price that is not checked. The changes of a run are
lawful exactly where no price is set and the other writers are called where they should be.
-/
namespace StellarFlow.Oracle

open Foundation

section Model

variable {here : Address}

/-- The address whose authorisation a writer of prices requires. To set a price takes none. -/
def OracleCall.requiresAuth : OracleCall → Option Address
  | .addAsset admin _ => some admin
  | .registerAssetsWithConfig admin _ _ => some admin
  | .updatePrice u => some u.source
  | _ => none

/-- The call requires the authorisation of a provider or an admin, and has it. -/
def SignedByWriter (env : OracleEnv here) (s : OracleStore) (call : OracleCall) : Prop :=
  ∃ signer, call.requiresAuth = some signer ∧ env.auth signer = true ∧
    (s.settings.isProvider signer = true ∨ s.settings.isAuthorized signer = true)

def AboveFloor (s : OracleStore) (asset : Symbol) (price : ℤ) : Prop :=
  ∀ priceFloor, s.settings.priceFloors.lookup asset = some priceFloor → priceFloor ≤ price

def WithinBounds (s : OracleStore) (asset : Symbol) (price : ℤ) : Prop :=
  ∀ bounds, s.settings.priceBounds.lookup asset = some bounds →
    bounds.minPrice ≤ price ∧ price ≤ bounds.maxPrice

/-- The deviation from the stored price, in basis points, is at most the largest one allowed. -/
def NearStored (s : OracleStore) (asset : Symbol) (price : ℤ) : Prop :=
  ∀ stored, s.verifiedPrices.lookup asset = some stored →
    |price - stored.price| * 10000 ≤ s.settings.getMaxDeviationPercentage * stored.price

/-- What the writer of a price has to meet in the store before the call. -/
structure LawfulPrice (env : OracleEnv here) (s : OracleStore) (call : OracleCall)
    (asset : Symbol) (price : ℤ) : Prop where
  signed : SignedByWriter env s call
  initialized : s.settings.initialized = true
  alive : s.settings.destroyed = false
  checked : s.settings.isBypassActive env.timestamp = false →
    AboveFloor s asset price ∧ WithinBounds s asset price ∧ NearStored s asset price

/-- Every price that differs after a call is lawful. -/
def LawfulChange (env : OracleEnv here) (call : OracleCall) (s s' : OracleStore) : Prop :=
  ∀ asset priceData, s'.verifiedPrices.lookup asset = some priceData →
    s.verifiedPrices.lookup asset ≠ some priceData → LawfulPrice env s call asset priceData.price

/-- The price of a new asset passes the checks of the asset. -/
def PlaceholderAllowed (env : OracleEnv here) (s : OracleStore) (asset : Symbol) : Prop :=
  s.verifiedPrices.lookup asset = none → s.settings.isBypassActive env.timestamp = false →
    AboveFloor s asset 0 ∧ WithinBounds s asset 0

/-- Where a writer of prices should be called. -/
def OracleCall.Permitted (env : OracleEnv here) (s : OracleStore) : OracleCall → Prop
  | .addAsset _ asset => PlaceholderAllowed env s asset
  | .registerAssetsWithConfig _ configs _ =>
    ∀ config ∈ configs, PlaceholderAllowed env s config.asset
  | .setPrice _ _ _ => False
  | .updatePrice _ => s.settings.initialized = true ∧ s.settings.destroyed = false
  | _ => True

variable (validConfigs : List AssetRegistrationConfig → ℤ → Bool)

def ChangesLawful (s : OracleState) (i : OracleStep here) : Prop :=
  LawfulChange (i.envAt (s.sequence + i.elapsed)) i.call s.store
    (commit (oracleStep validConfigs) s i).store

def WritesPermitted (s : OracleState) (i : OracleStep here) : Prop :=
  (∃ s', oracleStep validConfigs i s = .ok s') →
    i.call.Permitted (i.envAt (s.sequence + i.elapsed)) s.store

end Model

section Changes

variable {here : Address} {env : OracleEnv here} {call : OracleCall} {s s' : OracleStore}
  {asset : Symbol} {priceData : PriceData}

/-- Setting a price does not depend on who has signed. -/
theorem setPrice_of_auth {auth : Address → Bool} (hauth : auth here = false) (asset : Symbol)
    (val : ℤ) (ttl : ℕ) (s : OracleStore) :
    setPrice { env with auth, here_auth := hauth } asset val ttl s =
      setPrice env asset val ttl s := rfl

theorem KeepsPrices.lawfulChange (h : KeepsPrices s s') : LawfulChange env call s s' := by
  intro asset priceData hnew hold
  rw [h.verifiedPrices_eq] at hnew
  exact absurd hnew hold

theorem LawfulChange.of_erase (h : s'.verifiedPrices = s.verifiedPrices.erase asset) :
    LawfulChange env call s s' := by
  intro other priceData hnew hold
  rw [h, Store.lookup_erase_ite] at hnew
  split_ifs at hnew
  exact absurd hnew hold

theorem lawfulChange_insert (h : s'.verifiedPrices = s.verifiedPrices.insert asset priceData)
    (hchanged : s.verifiedPrices.lookup asset ≠ some priceData) :
    LawfulChange env call s s' ↔ LawfulPrice env s call asset priceData.price := by
  rw [LawfulChange, h]
  constructor
  · intro hlawful
    exact hlawful asset priceData (Finmap.lookup_insert _) hchanged
  · intro hlawful other stored hnew hold
    obtain ⟨rfl, rfl⟩ | ⟨-, hnew⟩ := Store.lookup_insert_eq_some.mp hnew
    · exact hlawful
    · exact absurd hnew hold

/-- An admin who adds assets is lawful as far as their first prices are. -/
theorem Starts.lawfulChange_iff {assets : List Symbol} {admin : Address}
    (h : Starts env assets s s') (halive : s.settings.destroyed = false)
    (hinitialized : s.settings.initialized = true) (hrequires : call.requiresAuth = some admin)
    (hauth : env.auth admin = true) (hadmin : s.settings.isAuthorized admin = true) :
    LawfulChange env call s s' ↔ ∀ asset ∈ assets, PlaceholderAllowed env s asset := by
  constructor
  · intro hlawful asset hmem hnone hbypass
    have hnew : s'.verifiedPrices.lookup asset = some (placeholder env) := by
      rw [h.lookup_eq, hnone, if_pos hmem, Option.none_or]
    have hprice := hlawful asset (placeholder env) hnew (by simp [hnone])
    obtain ⟨hfloor, hbounds, -⟩ := hprice.checked hbypass
    exact ⟨hfloor, hbounds⟩
  · intro hallowed asset priceData hnew hold
    rw [h.lookup_eq, Option.or_eq_some_iff] at hnew
    obtain ⟨hnone, hnew⟩ := hnew.resolve_left hold
    split_ifs at hnew with hmem
    obtain rfl := Option.some.inj hnew
    refine ⟨⟨admin, hrequires, hauth, .inr hadmin⟩, hinitialized, halive, fun hbypass => ?_⟩
    obtain ⟨hfloor, hbounds⟩ := hallowed asset hmem hnone hbypass
    refine ⟨hfloor, hbounds, fun stored hstored => ?_⟩
    rw [hnone] at hstored
    cases hstored

/-- An update under a bypass is lawful as far as the state of the contract is. -/
theorem UpdateAccepted.lawfulChange_iff {u : PriceUpdate} (h : UpdateAccepted env u s s')
    (hbypass : s.settings.isBypassActive env.timestamp = true) :
    LawfulChange env (.updatePrice u) s s' ↔
      s.settings.initialized = true ∧ s.settings.destroyed = false := by
  have hchanged : s.verifiedPrices.lookup u.asset ≠ some (updatedPrice env u s) := by
    intro hsame
    exact absurd (h.advanced _ hsame) (lt_irrefl _)
  rw [lawfulChange_insert h.verifiedPrices_eq hchanged]
  constructor
  · intro hlawful
    exact ⟨hlawful.initialized, hlawful.alive⟩
  · rintro ⟨hinitialized, halive⟩
    refine ⟨⟨u.source, rfl, h.signed, .inl h.provider⟩, hinitialized, halive, fun hoff => ?_⟩
    exact absurd (hoff.symm.trans hbypass) Bool.false_ne_true

/-- A price that is set changes at least its time, and nobody had to sign for it. -/
theorem SetAccepted.not_lawfulChange {val : ℤ} {ttl : ℕ} (h : SetAccepted env asset val s s') :
    ¬ LawfulChange env (.setPrice asset val ttl) s s' := by
  obtain ⟨current, hcurrent, -, hgap, hprices⟩ := h.refreshed
  have hchanged : s.verifiedPrices.lookup asset ≠
      some { current with timestamp := env.timestamp, ledgerSequence := env.sequence } := by
    rw [hcurrent]
    intro heq
    exact absurd (congrArg PriceData.ledgerSequence (Option.some.inj heq)) hgap.ne
  rw [lawfulChange_insert hprices hchanged]
  intro hlawful
  obtain ⟨signer, hrequires, -⟩ := hlawful.signed
  cases hrequires

end Changes

section Runs

variable {here : Address} {validConfigs : List AssetRegistrationConfig → ℤ → Bool}

/-- The change of an accepted call, one entry point at a time. -/
theorem Orderly.lawfulChange_iff {env : OracleEnv here} {call : OracleCall} {s s' : OracleStore}
    (ho : Orderly env.sequence s) (h : call.exec validConfigs env s = .ok s') :
    LawfulChange env call s s' ↔ call.Permitted env s := by
  cases call with
  | addAsset admin asset =>
    obtain ⟨⟨halive, hinitialized, hauth, hadmin⟩, hstarts⟩ := addAsset_eq_ok h
    rw [hstarts.lawfulChange_iff halive hinitialized rfl hauth hadmin]
    exact List.forall_mem_singleton
  | registerAssetsWithConfig admin configs maxDeviationBps =>
    obtain ⟨⟨halive, hinitialized, hauth, hadmin⟩, hstarts⟩ := registerAssetsWithConfig_eq_ok h
    rw [hstarts.lawfulChange_iff halive hinitialized rfl hauth hadmin]
    exact List.forall_mem_map
  | removeAsset admin asset => exact iff_of_true (.of_erase (removeAsset_eq_ok h).1) trivial
  | setPrice asset val ttl => exact iff_of_false (setPrice_eq_ok h).not_lawfulChange id
  | updatePrice u => exact (updatePrice_eq_ok h).lawfulChange_iff (ho.bypassActive h)
  | initializeOracle admin baseCurrencyPairs =>
    exact iff_of_true (initializeOracle_keeps h).lawfulChange trivial
  | initAdmin admin => exact iff_of_true (initAdmin_keeps h).lawfulChange trivial
  | assignDelegate admin delegate =>
    exact iff_of_true (assignDelegate_keeps h).lawfulChange trivial
  | enableBypassSafetyChecks admin =>
    exact iff_of_true (enableBypassSafetyChecks_keeps h).lawfulChange trivial
  | disableBypassSafetyChecks admin =>
    exact iff_of_true (disableBypassSafetyChecks_keeps h).lawfulChange trivial
  | other settings => exact iff_of_true (other_keeps h).lawfulChange trivial

/-- In every run from the deployment the changes of verified prices are lawful if and only if no
price is set and the other writers are accepted only where they are permitted. -/
theorem changesLawful_along_iff (validConfigs : List AssetRegistrationConfig → ℤ → Bool)
    (run : List (OracleStep here)) :
    Along (oracleStep validConfigs) (ChangesLawful validConfigs) .deployed run ↔
      Along (oracleStep validConfigs) (WritesPermitted validConfigs) .deployed run := by
  refine along_congr (I := fun s : OracleState => Orderly s.sequence s.store)
    (fun s i ho => ho.commit i) (fun s i ho => ?_) Orderly.deployed run
  refine commit_iff_of_accepted
    (P := fun s' : OracleState =>
      LawfulChange (i.envAt (s.sequence + i.elapsed)) i.call s.store s'.store)
    (KeepsPrices.refl s.store).lawfulChange fun s' h => ?_
  obtain ⟨hsequence, hexec⟩ := oracleStep_eq_ok h
  have hlater := ho.later (Nat.le_add_right s.sequence i.elapsed)
  rw [hsequence] at hexec
  rw [hlater.lawfulChange_iff hexec]
  exact ⟨fun hkept _ => hkept, fun hkept => hkept ⟨s', h⟩⟩

/-- A delegate submits a price under a bypass, and in the next ledger somebody who signs nothing
sets the same price. -/
def refreshRun : List (OracleStep ⟨0⟩) :=
  [⟨1, sampleOracleEnv, .initAdmin ⟨1⟩⟩, ⟨0, sampleOracleEnv, .assignDelegate ⟨1⟩ ⟨11⟩⟩,
    ⟨0, sampleOracleEnv, .addAsset ⟨1⟩ ⟨7⟩⟩,
    ⟨0, sampleOracleEnv, .enableBypassSafetyChecks ⟨1⟩⟩,
    ⟨1, sampleOracleEnv, .updatePrice (sampleUpdate ⟨11⟩ 100)⟩,
    ⟨1, { sampleOracleEnv with auth := fun _ => false, here_auth := rfl }, .setPrice ⟨7⟩ 100 60⟩]

theorem refreshRun_unlawful :
    ¬ Along (oracleStep fun _ _ => true) (ChangesLawful fun _ _ => true) .deployed refreshRun := by
  rintro ⟨-, -, -, -, -, hlawful, -⟩
  have hprice := hlawful ⟨7⟩ ⟨100, 0, 3, ⟨11⟩, 9, 100, 60⟩ (by decide) (by decide)
  obtain ⟨signer, -, hauth, -⟩ := hprice.signed
  cases hauth

end Runs

end StellarFlow.Oracle
