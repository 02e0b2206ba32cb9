import StellarFlow.Amm.CircuitBreaker

/-!
# How far the price of a pool moves within one ledger

Every accepted price is near the one before it. Only the first of a ledger is compared with the
last price of the earlier ledgers; from there the price moves on in steps.
-/
namespace StellarFlow.Amm

open Foundation

/-- A call for the pool, some ledgers after the last accepted one. -/
structure PriceStep (here : Address) where
  elapsed : ℕ
  env : BreakerEnv here
  price : ℤ

/-- The breaker at a ledger, with the accepted prices and their ledgers, newest first. -/
structure PriceHistory where
  breaker : CircuitBreaker
  ledger : ℕ
  accepted : List (ℕ × ℤ)

/-- The last price accepted before a ledger. -/
def lastBefore (ledger : ℕ) (accepted : List (ℕ × ℤ)) : Option ℤ :=
  (accepted.find? fun entry => entry.1 < ledger).map Prod.snd

/-- The deviation in basis points, rounded down. -/
def deviationBps (baseline price : ℤ) : ℕ :=
  (price - baseline).natAbs * bpsScale / baseline.toNat

variable {here : Address} (poolId : AssetId)

def priceStep (i : PriceStep here) (h : PriceHistory) : Except Fault PriceHistory := do
  let ledger ← okOr (checkBits 32 (h.ledger + i.elapsed)) Fault.trap
  let breaker ← asTransaction
    (checkAndUpdateSpotPrice { i.env with sequence := ledger } poolId i.price h.breaker)
  pure ⟨breaker, ledger, (ledger, i.price) :: h.accepted⟩

/-- Every price accepted in a ledger is near the last price of the earlier ledgers. -/
def BoundedPerLedger (h : PriceHistory) : Prop :=
  ∀ ledger price, (ledger, price) ∈ h.accepted → ∀ baseline,
    lastBefore ledger h.accepted = some baseline →
      |price - baseline| * bpsScale < (h.breaker.getConfig.maxDeviationBps + 1) * baseline

/-- A call after the first accepted one of its ledger keeps to the last price of the earlier
ledgers, if it is accepted. -/
def Restrained (h : PriceHistory) (i : PriceStep here) : Prop :=
  (∃ h', priceStep poolId i h = .ok h') →
    (∃ price, (h.ledger + i.elapsed, price) ∈ h.accepted) → ∀ baseline,
      lastBefore (h.ledger + i.elapsed) h.accepted = some baseline →
        deviationBps baseline i.price ≤ h.breaker.getConfig.maxDeviationBps

variable {poolId} {h h' : PriceHistory} {i : PriceStep here} {baseline price : ℤ} {max : ℕ}
  {ledger : ℕ} {accepted : List (ℕ × ℤ)}

theorem deviationBps_le_iff (hpos : 0 < baseline) :
    deviationBps baseline price ≤ max ↔
      |price - baseline| * bpsScale < (max + 1) * baseline := by
  obtain ⟨n, rfl⟩ := Int.eq_ofNat_of_zero_le hpos.le
  have hn : 0 < n := Int.natCast_pos.mp hpos
  rw [deviationBps, Int.toNat_natCast, ← Nat.lt_succ_iff, Nat.div_lt_iff_lt_mul hn,
    Int.abs_eq_natAbs]
  exact_mod_cast Iff.rfl

/-- What the accepted prices say about the pool. -/
structure Tracks (poolId : AssetId) (h : PriceHistory) : Prop where
  enabled : h.breaker.getConfig.enabled = true
  unfrozen : (h.breaker.getState poolId).isFrozen = false
  /-- The tick is the last accepted price. -/
  tick : (h.breaker.getLastTick poolId).map SpotPriceTick.lastPrice =
    h.accepted.head?.map Prod.snd
  positive : ∀ entry ∈ h.accepted, 0 < entry.2
  /-- The ledgers do not go back. -/
  sorted : h.accepted.Pairwise fun later earlier => earlier.1 ≤ later.1
  past : ∀ entry ∈ h.accepted, entry.1 ≤ h.ledger

theorem priceStep_eq_ok (ht : Tracks poolId h) (h0 : priceStep poolId i h = .ok h') :
    0 < i.price ∧
      (∀ baseline, h.accepted.head?.map Prod.snd = some baseline →
        deviationBps baseline i.price ≤ h.breaker.getConfig.maxDeviationBps) ∧
      h' = ⟨h.breaker.saveTick ⟨poolId, i.price, h.ledger + i.elapsed, i.env.timestamp⟩,
        h.ledger + i.elapsed, (h.ledger + i.elapsed, i.price) :: h.accepted⟩ := by
  obtain ⟨ledger, hledger, h0⟩ := bind_eq_ok.mp h0
  obtain ⟨breaker, hcheck, hwrite⟩ := bind_eq_ok.mp h0
  obtain ⟨-, rfl⟩ := checkBits_eq_some.mp (okOr_eq_ok.mp hledger)
  obtain rfl := pure_eq_ok.mp hwrite
  obtain ⟨hpos, rfl, hnear⟩ :=
    checkAndUpdateSpotPrice_eq_ok ht.unfrozen ht.enabled (asTransaction_eq_ok.mp hcheck)
  refine ⟨hpos, fun baseline hbaseline => ?_, rfl⟩
  rw [← ht.tick] at hbaseline
  obtain ⟨tick, htick, rfl⟩ := Option.map_eq_some_iff.mp hbaseline
  obtain ⟨devBps, hdev, hle⟩ := hnear tick htick
  obtain ⟨-, -, rfl⟩ := calculatePriceDeviationBps_eq_ok hdev
  exact hle

theorem Tracks.step (ht : Tracks poolId h) (h0 : priceStep poolId i h = .ok h') :
    Tracks poolId h' := by
  obtain ⟨hpos, -, rfl⟩ := priceStep_eq_ok ht h0
  refine ⟨ht.enabled, ht.unfrozen, ?_, ?_, ?_, ?_⟩
  · rw [CircuitBreaker.getLastTick, CircuitBreaker.saveTick, Finmap.lookup_insert]
    rfl
  · exact List.forall_mem_cons.mpr ⟨hpos, ht.positive⟩
  · refine List.pairwise_cons.mpr ⟨fun entry hmem => ?_, ht.sorted⟩
    exact (ht.past entry hmem).trans (Nat.le_add_right _ _)
  · refine List.forall_mem_cons.mpr ⟨le_rfl, fun entry hmem => ?_⟩
    exact (ht.past entry hmem).trans (Nat.le_add_right _ _)

theorem lastBefore_cons {later : ℕ} (hle : ledger ≤ later) :
    lastBefore ledger ((later, price) :: accepted) = lastBefore ledger accepted := by
  rw [lastBefore, List.find?_cons_of_neg (by simpa using hle), lastBefore]

theorem Tracks.lastBefore_pos (ht : Tracks poolId h)
    (hbaseline : lastBefore ledger h.accepted = some baseline) : 0 < baseline := by
  obtain ⟨entry, hfind, rfl⟩ := Option.map_eq_some_iff.mp hbaseline
  exact ht.positive entry (List.mem_of_find?_eq_some hfind)

/-- Where a ledger has no accepted price yet, the last one is of an earlier ledger. -/
theorem lastBefore_eq_head (hfirst : ∀ entry ∈ accepted, entry.1 < ledger) :
    lastBefore ledger accepted = accepted.head?.map Prod.snd := by
  cases accepted with
  | nil => rfl
  | cons entry accepted =>
    have hlt := hfirst entry List.mem_cons_self
    rw [lastBefore, List.find?_cons_of_pos (by simpa using hlt), List.head?_cons]

/-- An accepted call keeps the prices near if and only if its own price is near the last one of
the earlier ledgers, which the first call of a ledger always is. -/
theorem Tracks.bounded_iff (ht : Tracks poolId h) (hb : BoundedPerLedger h)
    (h0 : priceStep poolId i h = .ok h') :
    BoundedPerLedger h' ↔
      ((∃ price, (h.ledger + i.elapsed, price) ∈ h.accepted) → ∀ baseline,
        lastBefore (h.ledger + i.elapsed) h.accepted = some baseline →
          deviationBps baseline i.price ≤ h.breaker.getConfig.maxDeviationBps) := by
  obtain ⟨hpos, hnear, rfl⟩ := priceStep_eq_ok ht h0
  have hpast : ∀ entry ∈ h.accepted, entry.1 ≤ h.ledger + i.elapsed := fun entry hmem =>
    (ht.past entry hmem).trans (Nat.le_add_right _ _)
  constructor
  · rintro hbounded - baseline hbaseline
    rw [deviationBps_le_iff (ht.lastBefore_pos hbaseline)]
    refine hbounded (h.ledger + i.elapsed) i.price List.mem_cons_self baseline ?_
    rwa [lastBefore_cons le_rfl]
  · intro hkept ledger price hmem baseline hbaseline
    obtain heq | hold := List.mem_cons.mp hmem
    · obtain ⟨rfl, rfl⟩ := Prod.mk.inj heq
      rw [lastBefore_cons le_rfl] at hbaseline
      refine (deviationBps_le_iff (ht.lastBefore_pos hbaseline)).mp ?_
      by_cases hlater : ∃ price, (h.ledger + i.elapsed, price) ∈ h.accepted
      · exact hkept hlater baseline hbaseline
      · rw [lastBefore_eq_head] at hbaseline
        · exact hnear baseline hbaseline
        · intro entry hentry
          refine lt_of_le_of_ne (hpast entry hentry) fun heq => hlater ⟨entry.2, ?_⟩
          rw [← heq]
          exact hentry
    · rw [lastBefore_cons (hpast _ hold)] at hbaseline
      exact hb ledger price hold baseline hbaseline

/-- In a run without manual freezes, every price accepted in a ledger is near the last price of
the earlier ledgers if and only if the calls after the first of a ledger keep to it. -/
theorem boundedPerLedger_throughout_iff {config : Option SpotCircuitBreakerConfig}
    (henabled : (CircuitBreaker.deployed config).getConfig.enabled = true)
    (run : List (PriceStep here)) :
    Throughout (priceStep poolId) BoundedPerLedger ⟨.deployed config, 0, []⟩ run ↔
      Along (priceStep poolId) (Restrained poolId) ⟨.deployed config, 0, []⟩ run := by
  have hstart : Tracks poolId ⟨.deployed config, 0, []⟩ :=
    ⟨henabled, rfl, rfl, by simp, List.Pairwise.nil, by simp⟩
  refine throughout_iff_along
    (fun h i (ht : Tracks poolId h) => commit_induction ht fun h' h0 => ht.step h0)
    (fun h i ht hb => ?_) hstart (fun _ _ hmem => absurd hmem List.not_mem_nil) run
  exact commit_iff_of_accepted hb fun h' h0 => (ht.bounded_iff hb h0).trans
    ⟨fun hkept _ => hkept, fun hkept => hkept ⟨h', h0⟩⟩

section Sample

/-- Two steps of a tenth each in one ledger. -/
def climbRun : List (PriceStep ⟨0⟩) :=
  [⟨10, sampleBreakerEnv, 10000000⟩, ⟨1, sampleBreakerEnv, 11000000⟩,
    ⟨0, sampleBreakerEnv, 12100000⟩]

theorem climbRun_exceeds :
    ¬ Throughout (priceStep 7) BoundedPerLedger ⟨.deployed none, 0, []⟩ climbRun := by
  rintro ⟨-, -, -, hbounded⟩
  have hprice := hbounded 11 12100000 (by decide) 10000000 (by decide)
  revert hprice
  decide

theorem climbRun_bounded_iff :
    Throughout (priceStep 7) BoundedPerLedger ⟨.deployed none, 0, []⟩ climbRun ↔
      Along (priceStep 7) (Restrained 7) ⟨.deployed none, 0, []⟩ climbRun :=
  boundedPerLedger_throughout_iff rfl climbRun

end Sample

end StellarFlow.Amm
