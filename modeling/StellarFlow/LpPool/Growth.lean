import StellarFlow.LpPool.Pool
import StellarFlow.Foundation.Heron
import StellarFlow.Foundation.Shares

/-!
# Value of a share

Every operation rounds in favour of the pool, so the product of the reserves per squared
share never falls, and with the square root at the first deposit it starts at one or more.
-/
namespace StellarFlow.LpPool

open Foundation

variable {here : Address} {env : Env here} {s s' : PoolState} {user : Address}

section SquareRoot

theorem isqrtLoop_eq (value x y : ℕ) : isqrtLoop value x y = Heron.loop value x y := by
  fun_induction isqrtLoop value x y with
  | case1 x y hlt ih => rw [ih, Heron.loop.eq_def value x, if_pos hlt]
  | case2 x y hge => rw [Heron.loop, if_neg hge]

theorem isqrt_sq_le {value root : ℤ} (h0 : 0 ≤ value) (h : isqrt value = .ok root) :
    root ^ 2 ≤ value := by
  unfold isqrt at h
  split_ifs at h with hlt
  · obtain rfl := pure_eq_ok.mp h
    interval_cases value <;> decide
  · simp only [bind_eq_ok, arith_eq_ok, pure_eq_ok] at h
    obtain ⟨_, ⟨_, rfl⟩, rfl⟩ := h
    lift value to ℕ using h0
    have hpos : 0 < value := by omega
    rw [Int.toNat_natCast, isqrtLoop_eq, Heron.half_succ_eq_next hpos, Heron.loop_self_eq_sqrt hpos]
    exact_mod_cast Nat.sqrt_le' value

end SquareRoot

/-- Reserves and shares of a pool in every reachable state. -/
structure PoolReserves.Sound (r : PoolReserves) : Prop where
  positive_or_empty : (0 < r.totalShares ∧ 0 < r.reserveA ∧ 0 < r.reserveB) ∨
    (r.totalShares = 0 ∧ r.reserveA = 0 ∧ r.reserveB = 0)
  product : r.totalShares ^ 2 ≤ r.reserveA * r.reserveB

/-- The product of the reserves per squared share is not smaller afterwards. -/
def PoolReserves.Grows (r r' : PoolReserves) : Prop :=
  r.reserveA * r.reserveB * r'.totalShares ^ 2 ≤ r'.reserveA * r'.reserveB * r.totalShares ^ 2

section Reserves

variable {r r' : PoolReserves} {a b x shares minted : ℤ}

/-- Growth carries the bound on the product over. -/
theorem PoolReserves.Grows.product (h : r.Grows r') (hpos : 0 < r.totalShares)
    (hprod : r.totalShares ^ 2 ≤ r.reserveA * r.reserveB) :
    r'.totalShares ^ 2 ≤ r'.reserveA * r'.reserveB := by
  have hsq : 0 < r.totalShares ^ 2 := by positivity
  apply le_of_mul_le_mul_right _ hsq
  calc r'.totalShares ^ 2 * r.totalShares ^ 2 = r.totalShares ^ 2 * r'.totalShares ^ 2 := by ring
    _ ≤ r.reserveA * r.reserveB * r'.totalShares ^ 2 :=
        mul_le_mul_of_nonneg_right hprod (sq_nonneg _)
    _ ≤ r'.reserveA * r'.reserveB * r.totalShares ^ 2 := h

theorem checkedMulDiv_eq_ok {x y d q : ℤ} (hx : 0 ≤ x * y) (hd : 0 < d)
    (h : checkedMulDiv x y d = .ok q) : q = x * y / d := by
  simp only [checkedMulDiv, bind_eq_ok, okOr_eq_ok, IntRange.check_eq_some] at h
  obtain ⟨_, ⟨hfits, rfl⟩, hdiv⟩ := h
  rw [IntRange.checkedDiv_of_nonneg hfits hx hd] at hdiv
  exact (Option.some.inj hdiv).symm

/-- The first deposit. -/
theorem mintedShares_first (h0 : r.totalShares = 0) (ha : 0 < a) (hb : 0 < b)
    (h : mintedShares r a b = .ok minted) : minted ^ 2 ≤ a * b := by
  simp only [mintedShares, h0, if_true, bind_eq_ok, okOr_eq_ok, IntRange.check_eq_some] at h
  obtain ⟨_, ⟨_, rfl⟩, hroot⟩ := h
  exact isqrt_sq_le (by positivity) hroot

/-- A later deposit mints within the proportion on both sides. -/
theorem mintedShares_later (hT : 0 < r.totalShares) (hA : 0 < r.reserveA) (hB : 0 < r.reserveB)
    (ha : 0 < a) (hb : 0 < b) (h : mintedShares r a b = .ok minted) :
    minted * r.reserveA ≤ a * r.totalShares ∧ minted * r.reserveB ≤ b * r.totalShares := by
  simp only [mintedShares, hT.ne', if_false, bind_eq_ok, pure_eq_ok] at h
  obtain ⟨fromA, hfromA, fromB, hfromB, rfl⟩ := h
  rw [checkedMulDiv_eq_ok (by positivity) hA hfromA, checkedMulDiv_eq_ok (by positivity) hB hfromB]
  constructor
  · exact (mul_le_mul_of_nonneg_right (min_le_left _ _) hA.le).trans (Int.ediv_mul_le _ hA.ne')
  · exact (mul_le_mul_of_nonneg_right (min_le_right _ _) hB.le).trans (Int.ediv_mul_le _ hB.ne')

theorem PoolReserves.Sound.deposit (hr : r.Sound) (ha : 0 < a) (hb : 0 < b) (hm : 0 < minted)
    (h : mintedShares r a b = .ok minted) :
    let r' : PoolReserves := ⟨r.reserveA + a, r.reserveB + b, r.totalShares + minted⟩
    r'.Sound ∧ (0 < r.totalShares → r.Grows r') := by
  rcases hr.positive_or_empty with ⟨hT, hA, hB⟩ | ⟨hT, hA, hB⟩
  · obtain ⟨hmA, hmB⟩ := mintedShares_later hT hA hB ha hb h
    have hgrows : r.Grows ⟨r.reserveA + a, r.reserveB + b, r.totalShares + minted⟩ :=
      ratio_mul_le (by positivity) (by positivity) (ratio_le_of_mint hmA) (ratio_le_of_mint hmB)
    exact ⟨⟨.inl ⟨by positivity, by positivity, by positivity⟩, hgrows.product hT hr.product⟩,
      fun _ => hgrows⟩
  · have hsq := mintedShares_first hT ha hb h
    refine ⟨⟨.inl ⟨add_pos_of_nonneg_of_pos hT.ge hm, add_pos_of_nonneg_of_pos hA.ge ha,
      add_pos_of_nonneg_of_pos hB.ge hb⟩, ?_⟩, fun hpos => absurd hT hpos.ne'⟩
    simp only [hT, hA, hB, zero_add]
    exact hsq

theorem PoolReserves.Sound.withdraw (hr : r.Sound) (hs : 0 < shares)
    (hle : shares ≤ r.totalShares) :
    let r' : PoolReserves := ⟨r.reserveA - r.reserveA * shares / r.totalShares,
      r.reserveB - r.reserveB * shares / r.totalShares, r.totalShares - shares⟩
    r'.Sound ∧ r.Grows r' := by
  rcases hr.positive_or_empty with ⟨hT, hA, hB⟩ | ⟨hT, _, _⟩
  · have hT' : 0 ≤ r.totalShares - shares := sub_nonneg.mpr hle
    have hgrows : r.Grows ⟨r.reserveA - r.reserveA * shares / r.totalShares,
        r.reserveB - r.reserveB * shares / r.totalShares, r.totalShares - shares⟩ :=
      ratio_mul_le (mul_nonneg hA.le hT') (mul_nonneg hB.le hT')
        (ratio_le_of_burn (Int.ediv_mul_le _ hT.ne')) (ratio_le_of_burn (Int.ediv_mul_le _ hT.ne'))
    refine ⟨⟨?_, hgrows.product hT hr.product⟩, hgrows⟩
    rcases hle.lt_or_eq with hlt | heq
    · exact .inl ⟨sub_pos.mpr hlt, sub_pos.mpr (floor_part_lt hA hT hlt),
        sub_pos.mpr (floor_part_lt hB hT hlt)⟩
    · refine .inr ⟨sub_eq_zero.mpr heq.symm, ?_, ?_⟩ <;>
        simp only [heq, Int.mul_ediv_cancel _ hT.ne', sub_self]
  · omega

/-- With the same shares a larger product is growth. -/
theorem PoolReserves.Sound.of_product_le (hr : r.Sound) (hT : r'.totalShares = r.totalShares)
    (hA : 0 < r.reserveA) (hA' : 0 < r'.reserveA) (hB' : 0 < r'.reserveB)
    (h : r.reserveA * r.reserveB ≤ r'.reserveA * r'.reserveB) : r'.Sound ∧ r.Grows r' := by
  have hpos : 0 < r.totalShares := by
    rcases hr.positive_or_empty with ⟨hpos, _⟩ | ⟨_, h0, _⟩
    · exact hpos
    · exact absurd h0 hA.ne'
  refine ⟨⟨.inl ⟨hT ▸ hpos, hA', hB'⟩, ?_⟩, ?_⟩
  · rw [hT]
    exact hr.product.trans h
  · unfold Grows
    rw [hT]
    exact mul_le_mul_of_nonneg_right h (sq_nonneg _)

/-- A swap on one side, with the reserves in the order paid in, paid out. -/
theorem swap_product_le {rin amountIn : ℤ} (rout : ℤ) (hin : 0 < rin) (hx : 0 < amountIn) :
    rin * rout ≤ (rin + amountIn) * (rout - rout * amountIn / (rin + amountIn)) := by
  have hle := Int.ediv_mul_le (rout * amountIn) (add_pos hin hx).ne'
  calc rin * rout = (rin + amountIn) * rout - rout * amountIn := by ring
    _ ≤ (rin + amountIn) * rout - rout * amountIn / (rin + amountIn) * (rin + amountIn) :=
        Int.sub_le_sub_left hle _
    _ = _ := by ring

end Reserves

/-- What the claims of the users and the reserves have to do with each other. -/
structure Ledger (r : PoolReserves) (userShares : Store Address ℤ) : Prop where
  sound : r.Sound
  total_eq : Store.total (fun _ shares => shares) userShares = r.totalShares
  nonneg : ∀ user shares, userShares.lookup user = some shares → 0 ≤ shares

/-- Before the initialisation nobody has shares. -/
def PoolInvariant (s : PoolState) : Prop :=
  match s.pool with
  | none => s.userShares = ∅
  | some c => Ledger c.reserves s.userShares

section Users

variable {r r' : PoolReserves} {shares : ℤ}

theorem readUserShares_eq_part (s : PoolState) (user : Address) :
    s.readUserShares user = Store.part (fun _ shares => shares) s.userShares user := by
  unfold PoolState.readUserShares Store.part
  cases s.userShares.lookup user <;> rfl

/-- Changing the shares of one user by the change of the total. -/
theorem Ledger.update (hl : Ledger r s.userShares) (hr : r'.Sound) (h0 : 0 ≤ shares)
    (hsum : r'.totalShares + s.readUserShares user = r.totalShares + shares) :
    Ledger r' (s.userShares.insert user shares) := by
  refine ⟨hr, ?_, ?_⟩
  · have htotal := Store.total_insert (fun _ shares => shares) s.userShares user shares
    rw [← readUserShares_eq_part, hl.total_eq] at htotal
    linarith
  · intro other x hx
    rcases Store.lookup_insert_eq_some.mp hx with ⟨_, rfl⟩ | ⟨_, hx⟩
    · exact h0
    · exact hl.nonneg other x hx

theorem Ledger.readUserShares_nonneg (hl : Ledger r s.userShares) (user : Address) :
    0 ≤ s.readUserShares user := by
  unfold PoolState.readUserShares
  cases h : s.userShares.lookup user with
  | none => exact le_rfl
  | some x => exact hl.nonneg user x h

theorem Ledger.readUserShares_le (hl : Ledger r s.userShares) (user : Address) :
    s.readUserShares user ≤ r.totalShares := by
  rw [readUserShares_eq_part, ← hl.total_eq]
  exact Store.part_le_total hl.nonneg user

end Users

section Calls

variable {c : PoolConfig} {a b shares amountIn : ℤ}

theorem PoolInvariant.ledger (hs : PoolInvariant s) (hc : s.pool = some c) :
    Ledger c.reserves s.userShares := by
  unfold PoolInvariant at hs
  rwa [hc] at hs

theorem deposit_eq_ok {r : ℤ} (h : deposit env user a b s = .ok (r, s')) :
    ∃ c minted, s.pool = some c ∧ 0 < a ∧ 0 < b ∧ 0 < minted ∧
      mintedShares c.reserves a b = .ok minted ∧ s' = {
        pool := some { c with reserves := ⟨c.reserves.reserveA + a, c.reserves.reserveB + b,
          c.reserves.totalShares + minted⟩ }
        userShares := s.userShares.insert user (s.readUserShares user + minted) } := by
  simp only [deposit, bind_eq_ok, hostCall_eq_ok, failIf_eq_ok, okOr_eq_ok, IntRange.check_eq_some,
    pure_eq_ok, Prod.mk.injEq, not_or, not_le] at h
  obtain ⟨_, _, _, ⟨ha, hb⟩, c, hc, minted, hminted, _, hpos, _, ⟨_, rfl⟩, _, ⟨_, rfl⟩, _,
    ⟨_, rfl⟩, _, ⟨_, rfl⟩, _, rfl⟩ := h
  exact ⟨c, minted, hc, ha, hb, hpos, hminted, rfl⟩

theorem withdraw_eq_ok {r : ℤ × ℤ} (hs : PoolInvariant s)
    (h : withdraw env user shares s = .ok (r, s')) :
    ∃ c, s.pool = some c ∧ 0 < shares ∧ shares ≤ s.readUserShares user ∧ s' = {
      pool := some { c with reserves :=
        ⟨c.reserves.reserveA - c.reserves.reserveA * shares / c.reserves.totalShares,
          c.reserves.reserveB - c.reserves.reserveB * shares / c.reserves.totalShares,
          c.reserves.totalShares - shares⟩ }
      userShares := s.userShares.insert user (s.readUserShares user - shares) } := by
  simp only [withdraw, bind_eq_ok, hostCall_eq_ok, failIf_eq_ok, okOr_eq_ok, IntRange.check_eq_some,
    pure_eq_ok, Prod.mk.injEq, not_or, not_le, not_lt] at h
  obtain ⟨_, _, _, hpos, c, hc, _, hle, amountA, hA, amountB, hB, _, _, _, _, _, ⟨_, rfl⟩, _,
    ⟨_, rfl⟩, _, ⟨_, rfl⟩, _, ⟨_, rfl⟩, _, rfl⟩ := h
  have hl := hs.ledger hc
  have hT : 0 < c.reserves.totalShares := (hpos.trans_le hle).trans_le (hl.readUserShares_le user)
  rcases hl.sound.positive_or_empty with ⟨_, hA0, hB0⟩ | ⟨h0, _⟩
  · rw [checkedMulDiv_eq_ok (by positivity) hT hA, checkedMulDiv_eq_ok (by positivity) hT hB]
    exact ⟨c, hc, hpos, hle, rfl⟩
  · exact absurd h0 hT.ne'

theorem swapSides_eq_ok {tokenIn : Address} {rin rout : ℤ} {aIn : Bool}
    (h : swapSides c tokenIn = .ok (rin, rout, aIn)) :
    (rin, rout) = if aIn then (c.reserves.reserveA, c.reserves.reserveB)
      else (c.reserves.reserveB, c.reserves.reserveA) := by
  unfold swapSides at h
  split_ifs at h
  · obtain ⟨rfl, rfl, rfl⟩ := by simpa using pure_eq_ok.mp h
    rfl
  · obtain ⟨rfl, rfl, rfl⟩ := by simpa using pure_eq_ok.mp h
    rfl

/-- The reserves after a swap, in the order paid in, paid out. -/
theorem swap_eq_ok {tokenIn : Address} {m out : ℤ}
    (h : swap env user tokenIn amountIn m s = .ok (out, s')) :
    ∃ c rin rout, ∃ aIn : Bool, s.pool = some c ∧ 0 < amountIn ∧ 0 < rin ∧ 0 < rout ∧
      ((rin, rout) = if aIn then (c.reserves.reserveA, c.reserves.reserveB)
        else (c.reserves.reserveB, c.reserves.reserveA)) ∧
      out = rout * amountIn / (rin + amountIn) ∧ s' = { s with
        pool := some { c with reserves := if aIn
          then ⟨rin + amountIn, rout - out, c.reserves.totalShares⟩
          else ⟨rout - out, rin + amountIn, c.reserves.totalShares⟩ } } := by
  simp only [swap, bind_eq_ok, hostCall_eq_ok, failIf_eq_ok, okOr_eq_ok, IntRange.check_eq_some,
    pure_eq_ok, Prod.mk.injEq, not_or, not_le] at h
  obtain ⟨_, _, _, hx, c, hc, ⟨rin, rout, aIn⟩, hsides, _, ⟨hin, hout⟩, _, ⟨_, rfl⟩, _,
    ⟨hfits, rfl⟩, amountOut, hdiv, _, _, _, _, _, _, _, _, _, ⟨_, rfl⟩, rfl, rfl⟩ := h
  rw [IntRange.checkedDiv_of_nonneg hfits (by positivity) (by positivity)] at hdiv
  exact ⟨c, rin, rout, aIn, hc, hx, hin, hout, swapSides_eq_ok hsides,
    (Option.some.inj hdiv).symm, rfl⟩

theorem PoolReserves.Sound.swap {r : PoolReserves} {rin rout out : ℤ} {aIn : Bool} (hr : r.Sound)
    (hx : 0 < amountIn) (hin : 0 < rin) (hout : 0 < rout)
    (hsides : (rin, rout) = if aIn then (r.reserveA, r.reserveB) else (r.reserveB, r.reserveA))
    (h : out = rout * amountIn / (rin + amountIn)) :
    let r' : PoolReserves := if aIn then ⟨rin + amountIn, rout - out, r.totalShares⟩
      else ⟨rout - out, rin + amountIn, r.totalShares⟩
    r'.Sound ∧ r.Grows r' := by
  have hin' : 0 < rin + amountIn := add_pos hin hx
  have hout' : 0 < rout - out := by
    rw [h]
    exact sub_pos.mpr (floor_part_lt hout hin' (by linarith))
  have hle := swap_product_le rout hin hx
  rw [← h] at hle
  cases aIn with
  | true =>
    obtain ⟨rfl, rfl⟩ := Prod.mk.inj hsides
    exact hr.of_product_le rfl hin hin' hout' hle
  | false =>
    obtain ⟨rfl, rfl⟩ := Prod.mk.inj hsides
    refine hr.of_product_le rfl hout hout' hin' ?_
    calc r.reserveA * r.reserveB = r.reserveB * r.reserveA := mul_comm _ _
      _ ≤ (r.reserveB + amountIn) * (r.reserveA - out) := hle
      _ = (r.reserveA - out) * (r.reserveB + amountIn) := mul_comm _ _

end Calls

section Runs

/-- The sum of all shares is the total, there are shares exactly when both reserves are
positive, and the product of the reserves covers the square of the shares. -/
def Accounted (s : PoolState) : Prop :=
  ∀ c, s.pool = some c →
    Store.total (fun _ shares => shares) s.userShares = c.reserves.totalShares ∧
    (0 < c.reserves.totalShares ↔ 0 < c.reserves.reserveA ∧ 0 < c.reserves.reserveB) ∧
    c.reserves.totalShares ^ 2 ≤ c.reserves.reserveA * c.reserves.reserveB

/-- Between two states with shares the value of a share does not fall. -/
def ValueKept (s : PoolState) (i : PoolStep here) : Prop :=
  ∀ c c', s.pool = some c → (commit poolStep s i).pool = some c' →
    0 < c.reserves.totalShares → 0 < c'.reserves.totalShares →
    c.reserves.reserveA * c.reserves.reserveB * c'.reserves.totalShares ^ 2 ≤
      c'.reserves.reserveA * c'.reserves.reserveB * c.reserves.totalShares ^ 2

/-- One call keeps the invariant and, from a state with shares, the value of a share. -/
theorem poolStep_invariant {i : PoolStep here} (hs : PoolInvariant s) (h : poolStep i s = .ok s') :
    PoolInvariant s' ∧ ∀ c c', s.pool = some c → s'.pool = some c' → 0 < c.reserves.totalShares →
      c.reserves.Grows c'.reserves := by
  obtain ⟨env, call⟩ := i
  cases call with
  | initializePool tokenA tokenB =>
    simp only [poolStep, initializePool, bind_eq_ok, failIf_eq_ok, pure_eq_ok, Bool.not_eq_true,
      Option.isSome_eq_false_iff, Option.isNone_iff_eq_none] at h
    obtain ⟨_, hnone, rfl⟩ := h
    simp only [PoolInvariant, hnone] at hs
    refine ⟨⟨⟨.inr ⟨rfl, rfl, rfl⟩, le_rfl⟩, ?_, ?_⟩, fun c c' hc => ?_⟩
    · rw [hs]
      rfl
    · intro user shares hx
      rw [hs] at hx
      simp at hx
    · rw [hnone] at hc
      exact absurd hc.symm (Option.some_ne_none _)
  | deposit user a b =>
    obtain ⟨r, h⟩ := snd_map_eq_ok.mp h
    obtain ⟨c, minted, hc, ha, hb, hpos, hminted, rfl⟩ := deposit_eq_ok h
    have hl := hs.ledger hc
    obtain ⟨hsound, hgrows⟩ := hl.sound.deposit ha hb hpos hminted
    refine ⟨hl.update hsound ?_ ?_, ?_⟩
    · exact add_nonneg (hl.readUserShares_nonneg user) hpos.le
    · dsimp only
      ring
    · intro c₁ c' h₁ h' hT
      obtain rfl := Option.some.inj (hc.symm.trans h₁)
      obtain rfl := Option.some.inj h'
      exact hgrows hT
  | withdraw user shares =>
    obtain ⟨r, h⟩ := snd_map_eq_ok.mp h
    obtain ⟨c, hc, hpos, hle, rfl⟩ := withdraw_eq_ok hs h
    have hl := hs.ledger hc
    obtain ⟨hsound, hgrows⟩ := hl.sound.withdraw hpos (hle.trans (hl.readUserShares_le user))
    refine ⟨hl.update hsound (sub_nonneg.mpr hle) ?_, ?_⟩
    · dsimp only
      ring
    · intro c₁ c' h₁ h' _
      obtain rfl := Option.some.inj (hc.symm.trans h₁)
      obtain rfl := Option.some.inj h'
      exact hgrows
  | swap user tokenIn amountIn m =>
    obtain ⟨out, h⟩ := snd_map_eq_ok.mp h
    obtain ⟨c, rin, rout, aIn, hc, hx, hin, hout, hsides, heq, rfl⟩ := swap_eq_ok h
    have hl := hs.ledger hc
    obtain ⟨hsound, hgrows⟩ := hl.sound.swap hx hin hout hsides heq
    refine ⟨⟨hsound, ?_, hl.nonneg⟩, ?_⟩
    · rw [hl.total_eq]
      cases aIn <;> rfl
    · intro c₁ c' h₁ h' _
      obtain rfl := Option.some.inj (hc.symm.trans h₁)
      obtain rfl := Option.some.inj h'
      exact hgrows

theorem PoolInvariant.accounted (hs : PoolInvariant s) : Accounted s := by
  intro c hc
  have hl := hs.ledger hc
  refine ⟨hl.total_eq, ?_, hl.sound.product⟩
  rcases hl.sound.positive_or_empty with ⟨hT, hA, hB⟩ | ⟨hT, hA, hB⟩
  · exact ⟨fun _ => ⟨hA, hB⟩, fun _ => hT⟩
  · simp [hT, hA, hB]

theorem PoolInvariant.valueKept (hs : PoolInvariant s) (i : PoolStep here) : ValueKept s i := by
  intro c c' hc hc' hT _
  cases h : poolStep i s with
  | error e =>
    rw [commit_of_error h, hc] at hc'
    obtain rfl := Option.some.inj hc'
    exact le_rfl
  | ok s' =>
    rw [commit_of_ok h] at hc'
    exact (poolStep_invariant hs h).2 c c' hc hc' hT

/-- Every run of the pool keeps the accounts in every state and the value of a share at every
call. -/
theorem poolRun_growth (run : List (PoolStep here)) :
    Throughout poolStep Accounted .empty run ∧ Along poolStep ValueKept .empty run := by
  have hstep : ∀ s (i : PoolStep here) s', PoolInvariant s → poolStep i s = .ok s' →
      PoolInvariant s' := fun _ _ _ hs h => (poolStep_invariant hs h).1
  have hempty : PoolInvariant .empty := rfl
  constructor
  · exact throughout_of_invariant hstep (fun _ hs => hs.accounted) hempty run
  · exact along_of_invariant hstep (fun _ i hs => hs.valueKept i) hempty run

end Runs

end StellarFlow.LpPool
