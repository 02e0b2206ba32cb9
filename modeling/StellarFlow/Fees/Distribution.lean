import StellarFlow.Host
import StellarFlow.Foundation.FloorSplit

/-!
# Distribution of fees

A fee is split over weights in one pass. Every entry but the last is the floor of its share, and
the last one gets what is left. The fee of a flash loan also advances an accumulator, before the
pass begins, so a share that overflows in the pass leaves the accumulator advanced.
-/
namespace StellarFlow.Fees

open Foundation

def u64 : IntRange := ⟨0, 2 ^ 64 - 1, le_rfl, by norm_num⟩

def standardFixedPointScale : ℤ := 10 ^ 7
def interiorFeePrecisionScale : ℤ := 10 ^ 14
def lpFeeGrowthScale : ℤ := interiorFeePrecisionScale

/-- Total of the weights in the wide type. -/
def totalOf (e : Fault) (weights : List ℕ) : Except Fault ℤ :=
  weights.foldlM (fun total (weight : ℕ) => okOr (i128.check (total + weight)) e) 0

/-- The allocation of a weight. What is left of the amount goes to the last entry, after which
nothing follows. -/
def allocationOf (w : IntRange) (e : Fault) (amount : ℤ) (share : ℕ → Except Fault ℤ)
    (weight : ℕ) (weights : List ℕ) (assigned : ℤ) : Except Fault ℤ :=
  if weights = [] then okOr (w.check (amount - assigned)) e else share weight

/-- The pass over the weights, on values of the type `w`. -/
def allocateLoop (w : IntRange) (e : Fault) (amount : ℤ) (share : ℕ → Except Fault ℤ) :
    List ℕ → ℤ → Except Fault (List ℕ × ℤ)
  | [], assigned => pure ([], assigned)
  | weight :: weights, assigned => do
    let allocation ← allocationOf w e amount share weight weights assigned
    let assigned ← okOr (w.check (assigned + allocation)) e
    let entry ← okOr (u64.check allocation) e
    let (entries, assigned) ← allocateLoop w e amount share weights assigned
    pure (entry.toNat :: entries, assigned)

/-! ## Flash loans -/

/-- Total of the shares and the advanced accumulator. -/
def advanceGrowth (feeGrowthAccumulator : ℤ) (flashFee : ℕ) (lpShares : List ℕ) :
    Except Fault (ℤ × ℤ) := do
  let totalLp ← totalOf (.error .overflow) lpShares
  failIf (totalLp ≤ 0 ∨ lpShares.length = 0) (.error .divisionByZero)
  let scaled ← okOr (i128.check (flashFee * lpFeeGrowthScale)) (.error .overflow)
  let feeGrowth ← okOr (i128.checkedDiv scaled totalLp) (.error .divisionByZero)
  let accumulator ← okOr (i128.check (feeGrowthAccumulator + feeGrowth)) (.error .overflow)
  pure (totalLp, accumulator)

/-- Share of a provider in the fee. -/
def lpShareOf (flashFee : ℕ) (totalLp : ℤ) (share : ℕ) : Except Fault ℤ := do
  let product ← okOr (i128.check ((flashFee : ℤ) * share)) (.error .overflow)
  let allocation ← okOr (i128.checkedDiv product totalLp) (.error .divisionByZero)
  okOr (u64.check allocation) (.error .overflow)

def allocateFlashFee (flashFee : ℕ) (totalLp : ℤ) (lpShares : List ℕ) :
    Except Fault (List ℕ) := do
  let (allocations, allocated) ←
    allocateLoop u64 (.error .overflow) flashFee (lpShareOf flashFee totalLp) lpShares 0
  failIf (allocated ≠ flashFee) (.error .overflow)
  pure allocations

/-- The result, and the accumulator of the caller afterwards. It is written before the pass. -/
def settleFlashLoanFee (feeGrowthAccumulator : ℤ) (flashFee : ℕ) (lpShares : List ℕ) :
    Except Fault (List ℕ) × ℤ :=
  match advanceGrowth feeGrowthAccumulator flashFee lpShares with
  | .error e => (.error e, feeGrowthAccumulator)
  | .ok (totalLp, accumulator) => (allocateFlashFee flashFee totalLp lpShares, accumulator)

/-! ## The variable fee pool -/

/-- Share of a relayer in the pool, by way of the finer scale. -/
def relayerShareOf (interiorPoolProfile totalWeight : ℤ) (weight : ℕ) : Except Fault ℤ := do
  let product ← okOr (i128.check (interiorPoolProfile * weight)) (.error .mathOverflow)
  let interiorShare ← okOr (i128.checkedDiv product totalWeight) (.error .divisionByZero)
  okOr (i128.checkedDiv interiorShare interiorFeePrecisionScale) (.error .divisionByZero)

def distributeVariableFeePool (variablePool : ℕ) (relayerWeights : List ℕ) :
    Except Fault (List ℕ) := do
  let totalWeight ← totalOf (.error .mathOverflow) relayerWeights
  if totalWeight = 0 ∨ relayerWeights.length = 0 then pure []
  else do
    let poolProfile ← okOr (i128.check (variablePool * standardFixedPointScale))
      (.error .mathOverflow)
    let interiorPoolProfile ← okOr (i128.check (poolProfile * interiorFeePrecisionScale))
      (.error .mathOverflow)
    let (profiles, _) ← allocateLoop i128 (.error .mathOverflow) poolProfile
      (relayerShareOf interiorPoolProfile totalWeight) relayerWeights 0
    pure profiles

/-! ## The pass -/

section Pass

variable {w : IntRange} {e : Fault} {amount total last given : ℕ} {share : ℕ → Except Fault ℤ}
  {init entries : List ℕ} {final : ℤ}

theorem foldlM_total (e : Fault) (weights : List ℕ) {start : ℕ} (hstart : i128.Fits start) :
    weights.foldlM (fun (total : ℤ) (weight : ℕ) => okOr (i128.check (total + weight)) e) start =
      if i128.Fits ((start + weights.sum : ℕ) : ℤ) then .ok ((start + weights.sum : ℕ) : ℤ)
      else .error e := by
  induction weights generalizing start with
  | nil =>
    rw [List.sum_nil, Nat.add_zero, if_pos hstart]
    rfl
  | cons weight weights ih =>
    rw [List.foldlM_cons, List.sum_cons, ← Nat.add_assoc, ← Nat.cast_add]
    by_cases hfits : i128.Fits ((start + weight : ℕ) : ℤ)
    · rw [hfits.check_eq, okOr_some, ok_bind, ih hfits]
    · have hlarge : ¬ i128.Fits ((start + weight + weights.sum : ℕ) : ℤ) := by
        rw [fits_natCast_iff] at hfits ⊢
        omega
      rw [IntRange.check, if_neg hfits, if_neg hlarge]
      rfl

theorem totalOf_eq (e : Fault) (weights : List ℕ) :
    totalOf e weights = if i128.Fits weights.sum then .ok (weights.sum : ℤ) else .error e := by
  have hzero : i128.Fits ((0 : ℕ) : ℤ) := by decide
  have h := foldlM_total e weights hzero
  rwa [Nat.zero_add] at h

theorem totalOf_eq_ok {weights : List ℕ} {t : ℤ} (h : totalOf e weights = .ok t) :
    i128.Fits weights.sum ∧ t = weights.sum := by
  rw [totalOf_eq] at h
  split_ifs at h with hfits
  exact ⟨hfits, (Except.ok.inj h).symm⟩

/-- One entry of the pass. -/
theorem allocateLoop_cons_eq_ok {weight : ℕ} {weights : List ℕ} {assigned : ℤ} :
    allocateLoop w e amount share (weight :: weights) assigned = .ok (entries, final) ↔
      ∃ allocation rest, allocationOf w e amount share weight weights assigned = .ok allocation ∧
        w.Fits (assigned + allocation) ∧ u64.Fits allocation ∧
        allocateLoop w e amount share weights (assigned + allocation) = .ok (rest, final) ∧
        entries = allocation.toNat :: rest := by
  simp only [allocateLoop, bind_eq_ok, okOr_eq_ok, IntRange.check_eq_some, pure_eq_ok]
  constructor
  · rintro ⟨allocation, hallocation, _, ⟨hassigned, rfl⟩, _, ⟨hentry, rfl⟩, ⟨rest, _⟩, hrest,
      hwrite⟩
    obtain ⟨rfl, rfl⟩ := Prod.mk.inj hwrite
    exact ⟨allocation, rest, hallocation, hassigned, hentry, hrest, rfl⟩
  · rintro ⟨allocation, rest, hallocation, hassigned, hentry, hrest, rfl⟩
    exact ⟨allocation, hallocation, _, ⟨hassigned, rfl⟩, _, ⟨hentry, rfl⟩, (rest, final), hrest,
      rfl⟩

/-- What a pass that succeeds gives: the floors, and what they leave to the last entry. -/
theorem allocateLoop_eq_ok
    (hshare : ∀ v s, share v = .ok s → s = ((amount * v / total : ℕ) : ℤ))
    (h : allocateLoop w e amount share (init ++ [last]) given = .ok (entries, final)) :
    given + (floors amount total init).sum ≤ amount ∧ final = amount ∧
      entries = floors amount total init ++ [amount - (given + (floors amount total init).sum)] ∧
      ∀ v ∈ init, ∃ s, share v = .ok s := by
  induction init generalizing given entries with
  | nil =>
    obtain ⟨allocation, rest, hlast, -, ⟨hnonneg, -⟩, hrest, rfl⟩ := allocateLoop_cons_eq_ok.mp h
    rw [allocationOf, if_pos rfl, okOr_eq_ok, IntRange.check_eq_some] at hlast
    obtain ⟨-, rfl⟩ := hlast
    obtain ⟨rfl, rfl⟩ := Prod.mk.inj (pure_eq_ok.mp hrest)
    change 0 ≤ _ at hnonneg
    have hgiven : given ≤ amount := by omega
    refine ⟨by simpa using hgiven, add_sub_cancel _ _, ?_, fun v hv => absurd hv List.not_mem_nil⟩
    simp
  | cons v init ih =>
    obtain ⟨allocation, rest, hv, -, -, hrest, rfl⟩ := allocateLoop_cons_eq_ok.mp h
    rw [allocationOf, if_neg (by simp)] at hv
    obtain rfl := hshare v allocation hv
    rw [← Nat.cast_add] at hrest
    obtain ⟨hle, hfinal, rfl, hinit⟩ := ih hrest
    refine ⟨?_, hfinal, ?_, ?_⟩
    · rwa [floors_cons, List.sum_cons, ← Nat.add_assoc]
    · rw [Int.toNat_natCast, floors_cons, List.sum_cons, List.cons_append, ← Nat.add_assoc]
    · exact List.forall_mem_cons.mpr ⟨⟨_, hv⟩, hinit⟩

/-- A pass whose shares are computed and fit does succeed. -/
theorem allocateLoop_of_fits (hw : w.Fits amount) (hamount : u64.Fits amount)
    (hshare : ∀ v ∈ init, share v = .ok ((amount * v / total : ℕ) : ℤ))
    (hle : given + (floors amount total init).sum ≤ amount) :
    ∃ entries, allocateLoop w e amount share (init ++ [last]) given = .ok (entries, amount) := by
  have hwithin : ∀ x : ℤ, 0 ≤ x → x ≤ amount → w.Fits x ∧ u64.Fits x :=
    fun x h0 hx => ⟨hw.of_abs_le h0 hx, hamount.of_abs_le h0 hx⟩
  induction init generalizing given with
  | nil =>
    have hrest : given ≤ amount := by simpa using hle
    obtain ⟨hfits, hentry⟩ := hwithin (amount - given) (by omega) (by omega)
    refine ⟨_, allocateLoop_cons_eq_ok.mpr ⟨amount - given, [], ?_, ?_, hentry, ?_, rfl⟩⟩
    · rw [allocationOf, if_pos rfl, hfits.check_eq, okOr_some]
    · rwa [add_sub_cancel]
    · rw [add_sub_cancel]
      rfl
  | cons v init ih =>
    obtain ⟨hv, hinit⟩ := List.forall_mem_cons.mp hshare
    rw [floors_cons, List.sum_cons, ← Nat.add_assoc] at hle
    obtain ⟨entries, hentries⟩ := ih hinit hle
    obtain ⟨hassigned, -⟩ := hwithin ((given + amount * v / total : ℕ) : ℤ) (by positivity)
      (by omega)
    obtain ⟨-, hentry⟩ := hwithin ((amount * v / total : ℕ) : ℤ) (by positivity) (by omega)
    rw [Nat.cast_add] at hassigned hentries
    refine ⟨_, allocateLoop_cons_eq_ok.mpr ⟨_, entries, ?_, hassigned, hentry, hentries, rfl⟩⟩
    rwa [allocationOf, if_neg (by simp)]

end Pass

/-! ## Both distributions are fair -/

section Fair

variable {flashFee variablePool : ℕ} {weights parts : List ℕ} {accumulator : ℤ}

/-- A list of weights with a positive total has a last one. -/
theorem exists_last (hpos : 0 < weights.sum) : ∃ init last, weights = init ++ [last] := by
  have hne : weights ≠ [] := by
    rintro rfl
    exact absurd hpos (Nat.lt_irrefl 0)
  exact ⟨weights.dropLast, weights.getLast hne, (List.dropLast_append_getLast hne).symm⟩

theorem okOr_checkedDiv_natCast {x y : ℕ} {z : ℤ} {e : Fault}
    (h : okOr (i128.checkedDiv x y) e = .ok z) : z = ((x / y : ℕ) : ℤ) := by
  rw [okOr_eq_ok, IntRange.checkedDiv] at h
  split_ifs at h
  rw [IntRange.check_eq_some, Int.tdiv_eq_ediv_of_nonneg (Int.natCast_nonneg x)] at h
  rw [← h.2]
  exact (Int.natCast_ediv x y).symm

/-- The share of a provider is rounded down once. -/
theorem lpShareOf_eq_ok {total share : ℕ} {s : ℤ} (h : lpShareOf flashFee total share = .ok s) :
    flashFee * share < 2 ^ 127 ∧ s = ((flashFee * share / total : ℕ) : ℤ) := by
  simp only [lpShareOf, bind_eq_ok] at h
  obtain ⟨product, hproduct, allocation, hallocation, hs⟩ := h
  obtain ⟨hfits, rfl⟩ := IntRange.check_eq_some.mp (okOr_eq_ok.mp hproduct)
  obtain ⟨-, rfl⟩ := IntRange.check_eq_some.mp (okOr_eq_ok.mp hs)
  rw [← Nat.cast_mul] at hallocation hfits
  exact ⟨fits_natCast_iff.mp hfits, okOr_checkedDiv_natCast hallocation⟩

/-- The finer scale does not change the floor. -/
theorem relayerShareOf_eq_ok {total weight : ℕ} {s : ℤ}
    (h : relayerShareOf ((variablePool : ℤ) * standardFixedPointScale * interiorFeePrecisionScale)
      total weight = .ok s) :
    s = ((variablePool * 10 ^ 7 * weight / total : ℕ) : ℤ) := by
  simp only [relayerShareOf, bind_eq_ok] at h
  obtain ⟨product, hproduct, interior, hinterior, hs⟩ := h
  obtain ⟨-, rfl⟩ := IntRange.check_eq_some.mp (okOr_eq_ok.mp hproduct)
  have hcast : (variablePool : ℤ) * standardFixedPointScale * interiorFeePrecisionScale * weight =
      ((variablePool * 10 ^ 7 * weight * 10 ^ 14 : ℕ) : ℤ) := by
    rw [standardFixedPointScale, interiorFeePrecisionScale]
    push_cast
    ring
  rw [hcast] at hinterior
  obtain rfl := okOr_checkedDiv_natCast hinterior
  have hscale : interiorFeePrecisionScale = ((10 ^ 14 : ℕ) : ℤ) := by
    rw [interiorFeePrecisionScale]
    norm_num
  rw [hscale] at hs
  rw [okOr_checkedDiv_natCast hs, Nat.div_div_eq_div_mul, Nat.mul_div_mul_right _ _ (by norm_num)]

/-- What the settlement of a flash loan hands out is fair. -/
theorem allocateFlashFee_fair (hpos : 0 < weights.sum)
    (h : allocateFlashFee flashFee weights.sum weights = .ok parts) :
    FairSplit flashFee weights parts := by
  obtain ⟨init, last, rfl⟩ := exists_last hpos
  obtain ⟨⟨entries, final⟩, hloop, h⟩ := bind_eq_ok.mp h
  obtain ⟨_, -, h⟩ := bind_eq_ok.mp h
  obtain rfl := pure_eq_ok.mp h
  have hzero : ((0 : ℕ) : ℤ) = 0 := rfl
  rw [← hzero] at hloop
  obtain ⟨-, -, rfl, -⟩ := allocateLoop_eq_ok (fun v s hs => (lpShareOf_eq_ok hs).2) hloop
  rw [Nat.zero_add]
  exact floorSplit_fair hpos

/-- What the pool hands out is fair, in the standard scale. -/
theorem distributeVariableFeePool_fair (hpos : 0 < weights.sum)
    (h : distributeVariableFeePool variablePool weights = .ok parts) :
    FairSplit (variablePool * 10 ^ 7) weights parts := by
  obtain ⟨init, last, rfl⟩ := exists_last hpos
  obtain ⟨total, htotal, h⟩ := bind_eq_ok.mp h
  obtain ⟨-, rfl⟩ := totalOf_eq_ok htotal
  have hsome : ¬ (((init ++ [last]).sum : ℤ) = 0 ∨ (init ++ [last]).length = 0) :=
    not_or.mpr ⟨by omega, by simp⟩
  rw [if_neg hsome] at h
  obtain ⟨pool, hpool, h⟩ := bind_eq_ok.mp h
  obtain ⟨interior, hinterior, h⟩ := bind_eq_ok.mp h
  obtain ⟨-, rfl⟩ := IntRange.check_eq_some.mp (okOr_eq_ok.mp hpool)
  obtain ⟨-, rfl⟩ := IntRange.check_eq_some.mp (okOr_eq_ok.mp hinterior)
  obtain ⟨⟨entries, final⟩, hloop, h⟩ := bind_eq_ok.mp h
  obtain rfl := pure_eq_ok.mp h
  have hzero : ((0 : ℕ) : ℤ) = 0 := rfl
  have hamount : (variablePool : ℤ) * standardFixedPointScale =
      ((variablePool * 10 ^ 7 : ℕ) : ℤ) := by
    rw [standardFixedPointScale]
    push_cast
    rfl
  rw [← hzero] at hloop
  have hshare : ∀ v s, relayerShareOf ((variablePool : ℤ) * standardFixedPointScale *
      interiorFeePrecisionScale) (init ++ [last]).sum v = .ok s →
      s = ((variablePool * 10 ^ 7 * v / (init ++ [last]).sum : ℕ) : ℤ) :=
    fun v s hs => relayerShareOf_eq_ok hs
  generalize relayerShareOf ((variablePool : ℤ) * standardFixedPointScale *
    interiorFeePrecisionScale) (init ++ [last]).sum = share at hshare hloop
  rw [hamount] at hloop
  obtain ⟨-, -, rfl, -⟩ := allocateLoop_eq_ok hshare hloop
  rw [Nat.zero_add]
  exact floorSplit_fair hpos

end Fair

/-! ## When an error leaves the accumulator alone -/

section Atomic

variable {flashFee total share : ℕ} {shares : List ℕ} {accumulator t accumulator' : ℤ}

theorem fits_u64_iff {x : ℕ} : u64.Fits x ↔ x < 2 ^ 64 := by
  constructor
  · rintro ⟨-, hle⟩
    change (x : ℤ) ≤ 2 ^ 64 - 1 at hle
    omega
  · intro hlt
    refine ⟨Int.natCast_nonneg x, ?_⟩
    change (x : ℤ) ≤ 2 ^ 64 - 1
    omega

/-- The share of a provider is computed exactly when the product fits. -/
theorem lpShareOf_of_lt (hfee : flashFee < 2 ^ 64) (hle : share ≤ total) (hpos : 0 < total)
    (hfits : flashFee * share < 2 ^ 127) :
    lpShareOf flashFee total share = .ok ((flashFee * share / total : ℕ) : ℤ) := by
  have hquot : flashFee * share / total ≤ flashFee :=
    Nat.div_le_of_le_mul (by rw [Nat.mul_comm]; exact Nat.mul_le_mul_right _ hle)
  have hproduct : i128.Fits ((flashFee * share : ℕ) : ℤ) := fits_natCast_iff.mpr hfits
  rw [lpShareOf, ← Nat.cast_mul, hproduct.check_eq, okOr_some, ok_bind,
    IntRange.checkedDiv_of_nonneg hproduct (Int.natCast_nonneg _) (by exact_mod_cast hpos),
    okOr_some, ok_bind, ← Int.natCast_ediv, (fits_u64_iff.mpr (hquot.trans_lt hfee)).check_eq,
    okOr_some]

/-- The pass over the shares succeeds exactly when no product but the last can overflow. -/
theorem allocateFlashFee_isOk_iff (hfee : flashFee < 2 ^ 64) (hpos : 0 < shares.sum) :
    (∃ parts, allocateFlashFee flashFee shares.sum shares = .ok parts) ↔
      ∀ share ∈ shares.dropLast, flashFee * share < 2 ^ 127 := by
  obtain ⟨init, last, rfl⟩ := exists_last hpos
  rw [List.dropLast_concat]
  have hzero : ((0 : ℕ) : ℤ) = 0 := rfl
  constructor
  · rintro ⟨parts, h⟩ share hmem
    obtain ⟨⟨entries, final⟩, hloop, -⟩ := bind_eq_ok.mp h
    rw [← hzero] at hloop
    obtain ⟨-, -, -, hinit⟩ := allocateLoop_eq_ok (fun v s hs => (lpShareOf_eq_ok hs).2) hloop
    obtain ⟨s, hs⟩ := hinit share hmem
    exact (lpShareOf_eq_ok hs).1
  · intro hfits
    have hsum : init.sum ≤ (init ++ [last]).sum := by simp
    have hu64 : u64.Fits flashFee := fits_u64_iff.mpr hfee
    have hshare : ∀ v ∈ init, lpShareOf flashFee (init ++ [last]).sum v =
        .ok ((flashFee * v / (init ++ [last]).sum : ℕ) : ℤ) := fun v hv =>
      lpShareOf_of_lt hfee ((List.le_sum_of_mem hv).trans hsum) hpos (hfits v hv)
    have hgiven : 0 + (floors flashFee (init ++ [last]).sum init).sum ≤ flashFee := by
      rw [Nat.zero_add]
      exact floors_sum_le hpos hsum
    obtain ⟨entries, hloop⟩ := allocateLoop_of_fits hu64 hu64 hshare hgiven
    rw [hzero] at hloop
    refine ⟨entries, ?_⟩
    rw [allocateFlashFee, hloop, ok_bind]
    dsimp only
    rw [failIf_of_not (not_not.mpr rfl)]
    rfl

/-- Growth of the accumulator for a fee. -/
def feeGrowth (flashFee : ℕ) (lpShares : List ℕ) : ℕ := flashFee * 10 ^ 14 / lpShares.sum

/-- The accumulator advances when there are shares and it stays in range. -/
theorem advanceGrowth_eq_ok (hfee : flashFee < 2 ^ 64) :
    advanceGrowth accumulator flashFee shares = .ok (t, accumulator') ↔
      0 < shares.sum ∧ i128.Fits shares.sum ∧
        i128.Fits (accumulator + feeGrowth flashFee shares) ∧ t = shares.sum ∧
        accumulator' = accumulator + feeGrowth flashFee shares := by
  have hscale : (flashFee : ℤ) * lpFeeGrowthScale = ((flashFee * 10 ^ 14 : ℕ) : ℤ) := by
    rw [lpFeeGrowthScale, interiorFeePrecisionScale]
    push_cast
    rfl
  have hscaled : i128.Fits ((flashFee * 10 ^ 14 : ℕ) : ℤ) := fits_natCast_iff.mpr (by omega)
  rw [advanceGrowth, hscale]
  constructor
  · intro h
    obtain ⟨total, htotal, h⟩ := bind_eq_ok.mp h
    obtain ⟨hfits, rfl⟩ := totalOf_eq_ok htotal
    obtain ⟨_, hsome, h⟩ := bind_eq_ok.mp h
    obtain ⟨scaled, hcheck, h⟩ := bind_eq_ok.mp h
    obtain ⟨-, rfl⟩ := IntRange.check_eq_some.mp (okOr_eq_ok.mp hcheck)
    obtain ⟨growth, hgrowth, h⟩ := bind_eq_ok.mp h
    obtain rfl := okOr_checkedDiv_natCast hgrowth
    obtain ⟨next, hnext, h⟩ := bind_eq_ok.mp h
    obtain ⟨hrange, rfl⟩ := IntRange.check_eq_some.mp (okOr_eq_ok.mp hnext)
    obtain ⟨rfl, rfl⟩ := Prod.mk.inj (pure_eq_ok.mp h)
    rw [failIf_eq_ok, not_or] at hsome
    exact ⟨by omega, hfits, hrange, rfl, rfl⟩
  · rintro ⟨hpos, hfits, hrange, rfl, rfl⟩
    have hsome : ¬ ((shares.sum : ℤ) ≤ 0 ∨ shares.length = 0) := by
      obtain ⟨init, last, rfl⟩ := exists_last hpos
      exact not_or.mpr ⟨by omega, by simp⟩
    rw [totalOf_eq, if_pos hfits, ok_bind, failIf_of_not hsome, ok_bind, hscaled.check_eq,
      okOr_some, ok_bind,
      IntRange.checkedDiv_of_nonneg hscaled (Int.natCast_nonneg _) (by exact_mod_cast hpos),
      okOr_some, ok_bind, ← Int.natCast_ediv, ← feeGrowth, hrange.check_eq, okOr_some]
    rfl

/-- A share other than the last overflows after the accumulator was advanced. -/
def LateOverflow (accumulator : ℤ) (flashFee : ℕ) (lpShares : List ℕ) : Prop :=
  0 < lpShares.sum ∧ i128.Fits lpShares.sum ∧
    i128.Fits (accumulator + feeGrowth flashFee lpShares) ∧ feeGrowth flashFee lpShares ≠ 0 ∧
    ∃ share ∈ lpShares.dropLast, 2 ^ 127 ≤ flashFee * share

/-- A settlement hands out a fair split, or fails and leaves the accumulator alone. -/
structure SettlesFairly (accumulator : ℤ) (flashFee : ℕ) (lpShares : List ℕ) : Prop where
  fair : ∀ parts, 0 < lpShares.sum →
    (settleFlashLoanFee accumulator flashFee lpShares).1 = .ok parts →
    FairSplit flashFee lpShares parts
  atomic : ∀ e, (settleFlashLoanFee accumulator flashFee lpShares).1 = .error e →
    (settleFlashLoanFee accumulator flashFee lpShares).2 = accumulator

/-- The settlement either stops before it writes the accumulator or goes on to the pass. -/
theorem settleFlashLoanFee_cases (accumulator : ℤ) (shares : List ℕ) (hfee : flashFee < 2 ^ 64) :
    (∃ e, settleFlashLoanFee accumulator flashFee shares = (.error e, accumulator) ∧
        ¬ (0 < shares.sum ∧ i128.Fits shares.sum ∧
          i128.Fits (accumulator + feeGrowth flashFee shares))) ∨
      (0 < shares.sum ∧ i128.Fits shares.sum ∧
        i128.Fits (accumulator + feeGrowth flashFee shares) ∧
        settleFlashLoanFee accumulator flashFee shares =
          (allocateFlashFee flashFee shares.sum shares,
            accumulator + feeGrowth flashFee shares)) := by
  rw [settleFlashLoanFee]
  cases hadvance : advanceGrowth accumulator flashFee shares with
  | error e =>
    refine .inl ⟨e, rfl, fun ⟨hpos, hfits, hrange⟩ => ?_⟩
    rw [(advanceGrowth_eq_ok hfee).mpr ⟨hpos, hfits, hrange, rfl, rfl⟩] at hadvance
    cases hadvance
  | ok advanced =>
    obtain ⟨t, next⟩ := advanced
    obtain ⟨hpos, hfits, hrange, rfl, rfl⟩ := (advanceGrowth_eq_ok hfee).mp hadvance
    exact .inr ⟨hpos, hfits, hrange, rfl⟩

/-- The settlement is fair and atomic exactly when no share overflows late. -/
theorem settlesFairly_iff (hfee : flashFee < 2 ^ 64) :
    SettlesFairly accumulator flashFee shares ↔ ¬ LateOverflow accumulator flashFee shares := by
  rcases settleFlashLoanFee_cases accumulator shares hfee with
    ⟨e, hsettle, hstop⟩ | ⟨hpos, hfits, hrange, hsettle⟩
  · refine iff_of_true ⟨fun parts _ h => ?_, fun _ _ => ?_⟩ fun hlate =>
      hstop ⟨hlate.1, hlate.2.1, hlate.2.2.1⟩
    · rw [hsettle] at h
      cases h
    · rw [hsettle]
  · constructor
    · rintro ⟨-, hatomic⟩ ⟨-, -, -, hgrowth, share, hmem, hlarge⟩
      cases hpass : allocateFlashFee flashFee shares.sum shares with
      | ok parts =>
        have hsmall := (allocateFlashFee_isOk_iff hfee hpos).mp ⟨parts, hpass⟩ share hmem
        omega
      | error e =>
        have hsame := hatomic e (by rw [hsettle, hpass])
        rw [hsettle] at hsame
        dsimp only at hsame
        omega
    · intro hlate
      refine ⟨fun parts _ h => ?_, fun e h => ?_⟩
      · rw [hsettle] at h
        exact allocateFlashFee_fair hpos h
      · rw [hsettle] at h ⊢
        by_cases hgrowth : feeGrowth flashFee shares = 0
        · simp [hgrowth]
        · have hsmall : ∀ share ∈ shares.dropLast, flashFee * share < 2 ^ 127 := by
            intro share hmem
            by_contra hlarge
            exact hlate ⟨hpos, hfits, hrange, hgrowth, share, hmem, not_lt.mp hlarge⟩
          obtain ⟨parts, hparts⟩ := (allocateFlashFee_isOk_iff hfee hpos).mpr hsmall
          rw [hparts] at h
          cases h

end Atomic

/-- Whatever a distribution hands out is fair, and a settlement that fails leaves the accumulator
alone, exactly when no share other than the last overflows after the accumulator advanced. -/
theorem fee_distribution_iff (accumulator : ℤ) (flashFee variablePool : UInt64)
    (lpShares relayerWeights : List ℕ) :
    (SettlesFairly accumulator flashFee.toNat lpShares ∧
        ∀ profiles, 0 < relayerWeights.sum →
          distributeVariableFeePool variablePool.toNat relayerWeights = .ok profiles →
          FairSplit (variablePool.toNat * 10 ^ 7) relayerWeights profiles) ↔
      ¬ LateOverflow accumulator flashFee.toNat lpShares := by
  have hpool : ∀ profiles, 0 < relayerWeights.sum →
      distributeVariableFeePool variablePool.toNat relayerWeights = .ok profiles →
      FairSplit (variablePool.toNat * 10 ^ 7) relayerWeights profiles :=
    fun profiles hpos h => distributeVariableFeePool_fair hpos h
  rw [← settlesFairly_iff flashFee.toNat_lt]
  exact and_iff_left hpool

/-- The share of the first of two providers overflows, with the accumulator advanced. -/
theorem settleFlashLoanFee_not_atomic :
    settleFlashLoanFee 0 (2 ^ 64 - 1) [2 ^ 64 - 1, 1] =
        (.error (.error .overflow), 99999999999999) ∧
      ¬ SettlesFairly 0 (2 ^ 64 - 1) [2 ^ 64 - 1, 1] := by
  have hrun : settleFlashLoanFee 0 (2 ^ 64 - 1) [2 ^ 64 - 1, 1] =
      (.error (.error .overflow), 99999999999999) := by decide
  refine ⟨hrun, fun hfair => ?_⟩
  have hsame := hfair.atomic (.error .overflow) (by rw [hrun])
  rw [hrun] at hsame
  cases hsame

end StellarFlow.Fees
