import StellarFlow.Amm.Traversal

/-!
# Liquidity across ticks

The net liquidity of a tick is signed and the liquidity of the walk is not. Upwards the cast of
a positive net liquidity is exact and that of a negative one is larger than any sum. Downwards
the negation is cast, so a positive net liquidity takes everything and a negative one takes off
what it should add.
-/
namespace StellarFlow.Amm

open Foundation

/-- The liquidity on the other side of a tick, in exact arithmetic. -/
def exactLiquidity (directionUp : Bool) (liquidity : ℕ) (liquidityNet : ℤ) : ℤ :=
  if directionUp then liquidity + liquidityNet else liquidity - liquidityNet

/-- The crossing gives the exact liquidity, or an overflow where that is not representable. -/
def CrossesExactly (directionUp : Bool) (liquidity : ℕ) (liquidityNet : ℤ) : Prop :=
  crossLiquidity directionUp liquidity liquidityNet =
    if 0 ≤ exactLiquidity directionUp liquidity liquidityNet ∧
      exactLiquidity directionUp liquidity liquidityNet < 2 ^ 64
    then .ok (exactLiquidity directionUp liquidity liquidityNet).toNat
    else .error (Fault.error .overflow)

/-- Cross a tick upwards and back. -/
def crossBack (liquidity : ℕ) (liquidityNet : ℤ) : Except Fault ℕ := do
  let above ← crossLiquidity true liquidity liquidityNet
  crossLiquidity false above liquidityNet

/-- The crossings that the casts get right. -/
def CrossedRight (directionUp : Bool) (liquidity : ℕ) (liquidityNet : ℤ) : Prop :=
  if directionUp then 0 ≤ liquidityNet else liquidityNet = 0 ∨ liquidityNet = liquidity

instance (directionUp : Bool) (liquidity : ℕ) (liquidityNet : ℤ) :
    Decidable (CrossedRight directionUp liquidity liquidityNet) :=
  inferInstanceAs (Decidable (if directionUp then _ else _))

section Crossing

variable {liquidity liquidity' : ℕ} {net : ℤ}

theorem i64_fits_iff : i64.Fits net ↔ -2 ^ 63 ≤ net ∧ net < 2 ^ 63 :=
  IntRange.signed_fits_iff

theorem asU64_of_nonneg (h : i64.Fits net) (h0 : 0 ≤ net) : (asU64 net : ℤ) = net := by
  have := i64_fits_iff.mp h
  unfold asU64
  omega

theorem asU64_of_neg (h : i64.Fits net) (h0 : net < 0) : (asU64 net : ℤ) = net + 2 ^ 64 := by
  have := i64_fits_iff.mp h
  unfold asU64
  omega

theorem crossLiquidity_up_eq_ok : crossLiquidity true liquidity net = .ok liquidity' ↔
    liquidity + asU64 net < 2 ^ 64 ∧ liquidity + asU64 net = liquidity' := by
  rw [crossLiquidity, if_pos rfl, okOr_eq_ok, checkBits_eq_some]

theorem crossLiquidity_down_eq_ok : crossLiquidity false liquidity net = .ok liquidity' ↔
    i64.Fits (-net) ∧ liquidity - asU64 (-net) = liquidity' := by
  simp only [crossLiquidity, Bool.false_eq_true, if_false, bind_eq_ok, okOr_eq_ok,
    IntRange.check_eq_some, pure_eq_ok]
  constructor
  · rintro ⟨_, ⟨hfits, rfl⟩, heq⟩
    exact ⟨hfits, heq⟩
  · rintro ⟨hfits, heq⟩
    exact ⟨_, ⟨hfits, rfl⟩, heq⟩

/-- A crossing that succeeds is exact only where the cast is right. -/
theorem crossLiquidity_exact_iff {up : Bool} (hL : liquidity < 2 ^ 64) (hnet : i64.Fits net)
    (h : crossLiquidity up liquidity net = .ok liquidity') :
    (liquidity' : ℤ) = exactLiquidity up liquidity net ↔ CrossedRight up liquidity net := by
  have hbounds := i64_fits_iff.mp hnet
  unfold exactLiquidity CrossedRight
  cases up with
  | true =>
    obtain ⟨hlt, rfl⟩ := crossLiquidity_up_eq_ok.mp h
    rw [if_pos rfl, if_pos rfl]
    rcases le_or_gt 0 net with h0 | h0
    · have hcast := asU64_of_nonneg hnet h0
      omega
    · have hcast := asU64_of_neg hnet h0
      omega
  | false =>
    obtain ⟨hfits, rfl⟩ := crossLiquidity_down_eq_ok.mp h
    rw [if_neg Bool.false_ne_true, if_neg Bool.false_ne_true]
    rcases le_or_gt 0 (-net) with h0 | h0
    · have hcast := asU64_of_nonneg hfits h0
      omega
    · have hcast := asU64_of_neg hfits h0
      omega

theorem crossLiquidity_lt {up : Bool} (hL : liquidity < 2 ^ 64)
    (h : crossLiquidity up liquidity net = .ok liquidity') : liquidity' < 2 ^ 64 := by
  cases up with
  | true =>
    obtain ⟨hlt, rfl⟩ := crossLiquidity_up_eq_ok.mp h
    exact hlt
  | false =>
    obtain ⟨_, rfl⟩ := crossLiquidity_down_eq_ok.mp h
    exact (Nat.sub_le _ _).trans_lt hL

theorem crossLiquidity_up_eq_error {e : Fault} (h : crossLiquidity true liquidity net = .error e) :
    Fault.error .overflow = e ∧ 2 ^ 64 ≤ liquidity + asU64 net := by
  rw [crossLiquidity, if_pos rfl, okOr_eq_error, checkBits] at h
  split_ifs at h with hlt
  · cases h.1
  · exact ⟨h.2, not_lt.mp hlt⟩

/-- Only the least net liquidity has no negation. -/
theorem crossLiquidity_down_eq_error {e : Fault}
    (h : crossLiquidity false liquidity net = .error e) : Fault.trap = e ∧ ¬ i64.Fits (-net) := by
  simp only [crossLiquidity, Bool.false_eq_true, if_false, bind_eq_error, okOr_eq_error,
    pure_ne_error, and_false, exists_false, or_false] at h
  refine ⟨h.2, fun hfits => ?_⟩
  rw [hfits.check_eq] at h
  cases h.1

theorem crossesExactly_iff {up : Bool} (hL : liquidity < 2 ^ 64) (hnet : i64.Fits net) :
    CrossesExactly up liquidity net ↔ CrossedRight up liquidity net := by
  have hbounds := i64_fits_iff.mp hnet
  unfold CrossesExactly
  cases hcross : crossLiquidity up liquidity net with
  | ok liquidity' =>
    have hlt := crossLiquidity_lt hL hcross
    rw [← crossLiquidity_exact_iff hL hnet hcross]
    constructor
    · intro h
      split_ifs at h with hrep
      have := Except.ok.inj h
      omega
    · intro h
      rw [← h, if_pos (by omega), Int.toNat_natCast]
  | error e =>
    cases up with
    | true =>
      obtain ⟨rfl, hge⟩ := crossLiquidity_up_eq_error hcross
      simp only [exactLiquidity, CrossedRight, if_true]
      rcases le_or_gt 0 net with h0 | h0
      · have hcast := asU64_of_nonneg hnet h0
        rw [if_neg (by omega)]
        exact iff_of_true rfl h0
      · have hcast := asU64_of_neg hnet h0
        rw [if_pos (by omega)]
        exact iff_of_false (by simp) h0.not_ge
    | false =>
      obtain ⟨rfl, hleast⟩ := crossLiquidity_down_eq_error hcross
      have hneg : net < 0 := by
        by_contra h0
        exact hleast (i64_fits_iff.mpr (by omega))
      refine iff_of_false (fun h => ?_) ?_
      · split_ifs at h
        cases h
      · simp only [CrossedRight, Bool.false_eq_true, if_false]
        omega

/-- The way back takes everything, so that only nothing is restored. -/
theorem crossBack_iff (hnet : i64.Fits net) (hlo : 0 ≤ liquidity + net)
    (hhi : liquidity + net < 2 ^ 64) : crossBack liquidity net = .ok liquidity ↔
      net = 0 ∨ liquidity = 0 := by
  have hbounds := i64_fits_iff.mp hnet
  simp only [crossBack, bind_eq_ok, crossLiquidity_up_eq_ok, crossLiquidity_down_eq_ok]
  rcases le_or_gt 0 net with h0 | h0
  · have hcast := asU64_of_nonneg hnet h0
    have hfits : i64.Fits (-net) := i64_fits_iff.mpr (by omega)
    have hback : (asU64 (-net) : ℤ) = if net = 0 then 0 else 2 ^ 64 - net := by
      unfold asU64
      split_ifs with hzero
      · omega
      · omega
    constructor
    · rintro ⟨above, ⟨_, rfl⟩, _, heq⟩
      split_ifs at hback with hzero
      · exact .inl hzero
      · omega
    · intro h
      refine ⟨_, ⟨by omega, rfl⟩, hfits, ?_⟩
      split_ifs at hback with hzero
      · omega
      · omega
  · have hcast := asU64_of_neg hnet h0
    constructor
    · rintro ⟨_, ⟨hlt, _⟩, _⟩
      omega
    · omega

end Crossing

/-! ## Along a simulated swap -/

/-- Every step with the liquidity that is used after it. -/
def liquidityAfter : List SwapStep → ℕ → List (SwapStep × ℕ)
  | [], _ => []
  | [s], final => [(s, final)]
  | s :: s' :: later, final => (s, s'.liquidity) :: liquidityAfter (s' :: later) final

section Run

variable {p : Pools} {asset : AssetId} {up : Bool} {feeBps : ℕ} {s : SwapStep}
  {steps : List SwapStep} {final : ℕ} {startTick : ℤ} {startLiquidity amountIn : ℕ}
  {result : SwapTickResult}

theorem liquidityAfter_append : liquidityAfter (steps ++ [s]) final =
    liquidityAfter steps s.liquidity ++ [(s, final)] := by
  induction steps with
  | nil => rfl
  | cons s₁ rest ih =>
    cases rest with
    | nil => rfl
    | cons s₂ later => exact congrArg ((s₁, s₂.liquidity) :: ·) ih

theorem map_fst_liquidityAfter : (liquidityAfter steps final).map Prod.fst = steps := by
  induction steps with
  | nil => rfl
  | cons s₁ rest ih =>
    cases rest with
    | nil => rfl
    | cons s₂ later => exact congrArg (s₁ :: ·) ih

/-- The liquidity after every step comes from crossing the tick at its end. -/
structure SwapWalk.Crossed (p : Pools) (asset : AssetId) (up : Bool) (w : SwapWalk) : Prop where
  lt : w.currentLiquidity < 2 ^ 64
  steps_lt : ∀ c ∈ liquidityAfter w.steps w.currentLiquidity, c.1.liquidity < 2 ^ 64
  crossed : ∀ c ∈ liquidityAfter w.steps w.currentLiquidity,
    crossLiquidity up c.1.liquidity (p.getTickData asset c.1.endTick).liquidityNet = .ok c.2

theorem Stepped.after {w w' : SwapWalk} (hs : Stepped p asset up feeBps w s w') :
    liquidityAfter w'.steps w'.currentLiquidity =
      liquidityAfter w.steps w.currentLiquidity ++ [(s, w'.currentLiquidity)] := by
  rw [hs.steps_eq, liquidityAfter_append, hs.liquidity_eq]

theorem Stepped.keeps_crossed {w w' : SwapWalk} (hw : w.Crossed p asset up)
    (hs : Stepped p asset up feeBps w s w') : w'.Crossed p asset up where
  lt := crossLiquidity_lt (hs.liquidity_eq ▸ hw.lt) hs.crossed
  steps_lt c hc := by
    rw [hs.after, List.mem_append, List.mem_singleton] at hc
    rcases hc with hc | rfl
    · exact hw.steps_lt c hc
    · exact hs.liquidity_eq ▸ hw.lt
  crossed c hc := by
    rw [hs.after, List.mem_append, List.mem_singleton] at hc
    rcases hc with hc | rfl
    · exact hw.crossed c hc
    · exact hs.crossed

theorem singleTickPools_fits {tick net : ℤ} (hnet : i64.Fits net) (tick' : ℤ) :
    i64.Fits ((singleTickPools tick net).getTickData 1 tick').liquidityNet := by
  unfold Pools.getTickData singleTickPools
  rw [Store.lookup_insert_ite]
  split_ifs
  · exact hnet
  · rw [Finmap.lookup_empty]
    decide

end Run

end StellarFlow.Amm
