import StellarFlow.Oracle.Runs

/-!
# Consensus of the providers

In each ledger the providers submit prices, and three of them are needed for the median to be
stored. An update that finds fewer is rolled back together with its entry in the buffer, so the
next one finds no more: without a bypass the stored price never changes.
-/
namespace StellarFlow.Oracle

open Foundation

/-- An update, some ledgers after the last one. -/
structure SubmissionStep (here : Address) where
  elapsed : ℕ
  env : OracleEnv here
  update : PriceUpdate

/-- The store, with the store at the beginning of the ledger and the calls made in it, accepted or
not, in their order. -/
structure Round (here : Address) where
  store : OracleStore
  sequence : ℕ
  opening : OracleStore
  calls : List (OracleEnv here × PriceUpdate)

section Model

variable {here : Address}

def SubmissionStep.envAt (i : SubmissionStep here) (h : Round here) : OracleEnv here :=
  { i.env with sequence := h.sequence + i.elapsed }

def Round.start (s : OracleState) : Round here := ⟨s.store, s.sequence, s.store, []⟩

/-- The calls and the opening of the ledger in which a step is made. -/
def Round.next (h : Round here) (i : SubmissionStep here) : Round here where
  store := commit (fun u s => updatePrice (i.envAt h) u s) h.store i.update
  sequence := h.sequence + i.elapsed
  opening := if i.elapsed = 0 then h.opening else h.store
  calls := (if i.elapsed = 0 then h.calls else []) ++ [(i.envAt h, i.update)]

def roundStep (i : SubmissionStep here) (h : Round here) : Except OracleFault (Round here) :=
  .ok (h.next i)

/-- A whitelisted provider, not seen in the last ledgers, submits a price that passes the checks
against a store. -/
def qualifies (env : OracleEnv here) (u : PriceUpdate) (s : OracleStore) : Bool :=
  !s.settings.frozen && env.auth u.source && decide (u.asset ∈ s.trackedAssets) &&
    isValid u.price && s.settings.isProvider u.source && (s.enforceLedgerGap env u.source).isOk &&
    (screenPrice env u u.price s).isOk

/-- The first update of each provider. -/
def firstOfEach (updates : List PriceUpdate) : List PriceUpdate :=
  updates.foldl (fun kept u =>
    if kept.any fun other => other.source = u.source then kept else kept ++ [u]) []

/-- The updates of the ledger that pass the checks against the store at its beginning. -/
def Round.qualified (asset : Symbol) (h : Round here) : List PriceUpdate :=
  firstOfEach ((h.calls.filter fun call =>
    call.2.asset = asset && qualifies call.1 call.2 h.opening).map Prod.snd)

/-- The store has the median of the prices. -/
def HasMedian (asset : Symbol) (updates : List PriceUpdate) (s : OracleStore) : Prop :=
  ∃ priceData, s.verifiedPrices.lookup asset = some priceData ∧
    priceData.price = median (updates.map PriceUpdate.price)

/-- With three qualified providers in the ledger the median of their prices is stored. -/
def ConsensusStored (asset : Symbol) (h : Round here) : Prop :=
  minQuorum ≤ (h.qualified asset).length → HasMedian asset (h.qualified asset) h.store

/-- Where an update is one of three or more qualified ones, their median is the price that was
stored before the ledger. -/
def MedianBefore (asset : Symbol) (h : Round here) (i : SubmissionStep here) : Prop :=
  minQuorum ≤ ((h.next i).qualified asset).length →
    HasMedian asset ((h.next i).qualified asset) (h.next i).opening

/-- A price that an update stores is the median of updates of three providers of the ledger. -/
def StoresConsensus (h : Round here) (i : SubmissionStep here) : Prop :=
  ∀ s', updatePrice (i.envAt h) i.update h.store = .ok s' →
    ∃ updates, updates.Sublist ((h.next i).calls.map Prod.snd) ∧
      (∀ u ∈ updates, u.asset = i.update.asset) ∧
      (updates.map PriceUpdate.source).Nodup ∧ minQuorum ≤ updates.length ∧
      HasMedian i.update.asset updates s'

/-- Nothing has changed since the beginning of the ledger. -/
structure Unsettled (s : OracleStore) (h : Round here) : Prop where
  store_eq : h.store = s
  opening_eq : h.opening = s
  orderly : Orderly h.sequence s

end Model

section Rounds

variable {here : Address} {s s' : OracleStore} {h : Round here} {i : SubmissionStep here}
  {asset : Symbol}

/-- Without a bypass an update is refused. -/
theorem Unsettled.refused (hu : Unsettled s h)
    (hbypass : s.settings.isBypassActive i.env.timestamp = false) :
    updatePrice (i.envAt h) i.update h.store ≠ .ok s' := by
  intro haccepted
  rw [hu.store_eq] at haccepted
  have hlater : Orderly (i.envAt h).sequence s := hu.orderly.later (Nat.le_add_right _ _)
  have hactive := hlater.bypassActive haccepted
  exact Bool.noConfusion (hactive.symm.trans hbypass)

theorem Unsettled.next (hu : Unsettled s h)
    (hbypass : s.settings.isBypassActive i.env.timestamp = false) : Unsettled s (h.next i) where
  store_eq := by
    cases hstep : updatePrice (i.envAt h) i.update h.store with
    | ok s' => exact absurd hstep (hu.refused hbypass)
    | error e => exact (commit_of_error hstep).trans hu.store_eq
  opening_eq := by
    rw [Round.next]
    split_ifs
    · exact hu.opening_eq
    · exact hu.store_eq
  orderly := hu.orderly.later (Nat.le_add_right _ _)

theorem Unsettled.start (validConfigs : List AssetRegistrationConfig → ℤ → Bool)
    (past : List (OracleStep here)) :
    Unsettled (runAll (oracleStep validConfigs) .deployed past).store
      (Round.start (runAll (oracleStep validConfigs) .deployed past) : Round here) :=
  ⟨rfl, rfl, orderly_runAll validConfigs past⟩

theorem Unsettled.consensus_iff (hu : Unsettled s h)
    (hbypass : s.settings.isBypassActive i.env.timestamp = false) :
    ConsensusStored asset (h.next i) ↔ MedianBefore asset h i := by
  have hnext := hu.next hbypass
  rw [ConsensusStored, MedianBefore, hnext.store_eq, hnext.opening_eq]

theorem Unsettled.along (hu : Unsettled s h) (run : List (SubmissionStep here))
    (hbypass : ∀ i ∈ run, s.settings.isBypassActive i.env.timestamp = false)
    (hstored : ConsensusStored asset h) :
    (Throughout roundStep (ConsensusStored asset) h run ↔
      Along roundStep (MedianBefore asset) h run) := by
  induction run generalizing h with
  | nil => exact iff_of_true hstored trivial
  | cons i run ih =>
    have hi := hbypass i List.mem_cons_self
    have hrest := fun j hj => hbypass j (List.mem_cons_of_mem i hj)
    constructor
    · rintro ⟨-, ht⟩
      have hnext : ConsensusStored asset (h.next i) := ht.head
      exact ⟨(hu.consensus_iff hi).mp hnext, (ih (hu.next hi) hrest hnext).mp ht⟩
    · rintro ⟨hc, ha⟩
      exact ⟨hstored, (ih (hu.next hi) hrest ((hu.consensus_iff hi).mpr hc)).mpr ha⟩

theorem Unsettled.stores (hu : Unsettled s h) (run : List (SubmissionStep here))
    (hbypass : ∀ i ∈ run, s.settings.isBypassActive i.env.timestamp = false) :
    Along roundStep StoresConsensus h run := by
  induction run generalizing h with
  | nil => trivial
  | cons i run ih =>
    have hi := hbypass i List.mem_cons_self
    exact ⟨fun s' haccepted => absurd haccepted (hu.refused hi),
      ih (hu.next hi) fun j hj => hbypass j (List.mem_cons_of_mem i hj)⟩

/-- In a run without a bypass the median of three qualified providers is stored if and only if it
was stored before their ledger. -/
theorem consensus_throughout_iff (validConfigs : List AssetRegistrationConfig → ℤ → Bool)
    (past : List (OracleStep here)) {s : OracleState}
    (hs : runAll (oracleStep validConfigs) .deployed past = s) (run : List (SubmissionStep here))
    (hbypass : ∀ i ∈ run, s.store.settings.isBypassActive i.env.timestamp = false) :
    (∀ asset, Throughout roundStep (ConsensusStored asset) (Round.start s) run ↔
      Along roundStep (MedianBefore asset) (Round.start s) run) ∧
    Along roundStep StoresConsensus (Round.start s) run := by
  subst hs
  have hu := Unsettled.start validConfigs past
  refine ⟨fun asset => hu.along run hbypass fun hthree => ?_, hu.stores run hbypass⟩
  change minQuorum ≤ 0 at hthree
  exact absurd hthree (by decide)

end Rounds

section Sample

/-- The settings with two more admins, registered by the governance of the first one. -/
def threeAdmins : OracleSettings :=
  { OracleSettings.deployed with initialized := true, admins := some [⟨1⟩, ⟨2⟩, ⟨3⟩] }

/-- Each of three admins has a delegate, and an asset is tracked. -/
def delegatesRun : List (OracleStep ⟨0⟩) :=
  [⟨1, sampleOracleEnv, .initAdmin ⟨1⟩⟩, ⟨0, sampleOracleEnv, .other threeAdmins⟩,
    ⟨0, sampleOracleEnv, .assignDelegate ⟨1⟩ ⟨11⟩⟩,
    ⟨0, sampleOracleEnv, .assignDelegate ⟨2⟩ ⟨12⟩⟩,
    ⟨0, sampleOracleEnv, .assignDelegate ⟨3⟩ ⟨13⟩⟩, ⟨0, sampleOracleEnv, .addAsset ⟨1⟩ ⟨7⟩⟩]

/-- The delegates submit their prices in one ledger. -/
def consensusRun : List (SubmissionStep ⟨0⟩) :=
  [⟨1, sampleOracleEnv, sampleUpdate ⟨11⟩ 100⟩, ⟨0, sampleOracleEnv, sampleUpdate ⟨12⟩ 101⟩,
    ⟨0, sampleOracleEnv, sampleUpdate ⟨13⟩ 102⟩]

def delegatesState : OracleState :=
  runAll (oracleStep fun _ _ => true) .deployed delegatesRun

theorem consensusRun_unreached :
    ¬ Throughout roundStep (ConsensusStored ⟨7⟩) (Round.start delegatesState) consensusRun := by
  intro hstored
  obtain ⟨priceData, hlookup, hmedian⟩ := hstored.last (by decide)
  have hstart : (runAll roundStep (Round.start delegatesState)
      consensusRun).store.verifiedPrices.lookup ⟨7⟩ = some ⟨0, 0, 1, ⟨0⟩, 0, 0, 0⟩ := by decide
  obtain rfl := Option.some.inj (hlookup.symm.trans hstart)
  revert hmedian
  decide

theorem consensusRun_consensus_iff :
    (∀ asset, Throughout roundStep (ConsensusStored asset) (Round.start delegatesState)
        consensusRun ↔
      Along roundStep (MedianBefore asset) (Round.start delegatesState) consensusRun) ∧
    Along roundStep StoresConsensus (Round.start delegatesState) consensusRun :=
  consensus_throughout_iff (fun _ _ => true) delegatesRun rfl consensusRun (by decide)

end Sample

end StellarFlow.Oracle
