import StellarFlow.Amm.Pair

/-!
# Booked reserves and held tokens

The booked reserves of a pair drift away from the tokens it holds with every fee that is
charged, since the fee is paid into the contract and booked nowhere, and with every deposit
into a pair of one token with itself. And they reach zero exactly when a swap pays out the
whole reserve, after which no deposit and no swap can go through.
-/
namespace StellarFlow.Amm.Pair

open Foundation

variable {here : Address} {env : PairEnv here} {s s' : PairState} {p : TokenPair}
  {provider trader : Address} {a b m da db minted x : ℤ}

section Sound

theorem TokenPair.Sound.deposit (hp : p.Sound) (ha : 0 < a) (hb : 0 < b)
    (h : depositAmounts p a b m = .ok (da, db, minted)) :
    { p with
      reserveA := p.reserveA + da
      reserveB := p.reserveB + db
      totalShares := p.totalShares + minted : TokenPair }.Sound ∧
      0 ≤ da ∧ 0 ≤ db ∧ 0 < da + db := by
  have hA := hp.reserveA_nonneg
  have hB := hp.reserveB_nonneg
  have hT := hp.shares_nonneg
  have hamounts : 0 ≤ da ∧ 0 ≤ db ∧ 0 < da + db ∧ 0 ≤ minted ∧ 0 < p.totalShares + minted := by
    by_cases h0 : p.totalShares = 0
    · obtain ⟨h1, h2, h3⟩ := depositAmounts_first hp h h0
      exact ⟨h1.le, h2.le, by omega, h3.le, by omega⟩
    · obtain ⟨_, _, h1, h2, h3, h4⟩ := depositAmounts_later hp ha hb h h0
      exact ⟨h1, h2, h3, h4, by omega⟩
  obtain ⟨hda, hdb, hsum, hminted, hpos⟩ := hamounts
  exact ⟨⟨add_nonneg hA hda, add_nonneg hB hdb, hpos.le, hp.virtualA_pos, hp.virtualB_pos,
    fun h => absurd h hpos.ne'⟩, hda, hdb, hsum⟩

theorem TokenPair.Sound.swap {net out : ℤ} (hp : p.Sound) (hA : 0 < p.reserveA) (hnet : 0 < net)
    (hout : out ≤ p.reserveB) :
    { p with reserveA := p.reserveA + net, reserveB := p.reserveB - out : TokenPair }.Sound :=
  ⟨by linarith, sub_nonneg.mpr hout, hp.shares_nonneg, hp.virtualA_pos, hp.virtualB_pos,
    fun h => absurd (hp.empty_of_no_shares h).1 hA.ne'⟩

/-- A withdrawal leaves the buffer behind, so it is never of all shares. -/
theorem TokenPair.Sound.removeLiquidity {shares amountA amountB : ℤ} (hp : p.Sound)
    (hpos : 0 < shares) (hle : shares ≤ p.totalShares)
    (hamount : amountA = shares * p.reserveA / p.totalShares)
    (hA : p.virtualA ≤ p.reserveA - amountA) (hB : p.virtualB ≤ p.reserveB - amountB) :
    { p with
      reserveA := p.reserveA - amountA
      reserveB := p.reserveB - amountB
      totalShares := p.totalShares - shares : TokenPair }.Sound := by
  have hvA := hp.virtualA_pos
  have hvB := hp.virtualB_pos
  have hne : p.totalShares - shares ≠ 0 := by
    intro h
    have hall : shares = p.totalShares := by omega
    rw [hall, Int.mul_ediv_cancel_left _ (by omega)] at hamount
    omega
  exact ⟨by linarith, by linarith, sub_nonneg.mpr hle, hvA, hvB, fun h => absurd h hne⟩

/-- The pair of every reachable state is sound. -/
def PairSound (s : PairState) : Prop := ∀ p, s.pair = some p → p.Sound

theorem initialize_eq_ok {tokenA tokenB lpToken : Address} {virtualA virtualB : ℤ}
    (h : initializeWithVirtualReserves tokenA tokenB lpToken virtualA virtualB s = .ok s') :
    s.pair = none ∧ 0 < virtualA ∧ 0 < virtualB ∧ s' = { s with
      pair := some ⟨tokenA, tokenB, lpToken, 0, 0, 0, virtualA, virtualB⟩ } := by
  simp only [initializeWithVirtualReserves, validateVirtualReserves, bind_eq_ok, failIf_eq_ok,
    onVirtual_eq_ok, pure_eq_ok, Bool.not_eq_true, Option.isSome_eq_false_iff,
    Option.isNone_iff_eq_none, not_or, not_le] at h
  obtain ⟨_, hnone, _, ⟨_, _, hA, hB⟩, rfl⟩ := h
  exact ⟨hnone, hA, hB, rfl⟩

theorem setAdaptiveFeeConfig_eq_ok {fBase fScalar : ℕ} {oracle : Option Address}
    {assetSymbol : Option Symbol}
    (h : setAdaptiveFeeConfig fBase fScalar oracle assetSymbol s = .ok s') :
    s'.pair = s.pair ∧ s'.tokens = s.tokens := by
  simp only [setAdaptiveFeeConfig, bind_eq_ok, pure_eq_ok] at h
  obtain ⟨_, _, _, _, rfl⟩ := h
  exact ⟨rfl, rfl⟩

theorem setVolatilityScalar_eq_ok {vSigma : ℕ} (h : setVolatilityScalar vSigma s = .ok s') :
    s'.pair = s.pair ∧ s'.tokens = s.tokens := by
  obtain rfl := pure_eq_ok.mp h
  exact ⟨rfl, rfl⟩

theorem pairStep_sound {i : PairStep here} (hs : PairSound s) (h : pairStep i s = .ok s') :
    PairSound s' := by
  obtain ⟨env, call⟩ := i
  intro p' hp'
  cases call with
  | initializeWithVirtualReserves tokenA tokenB lpToken virtualA virtualB =>
    obtain ⟨_, hA, hB, rfl⟩ := initialize_eq_ok h
    obtain rfl := Option.some.inj hp'
    exact ⟨le_rfl, le_rfl, le_rfl, hA, hB, fun _ => ⟨rfl, rfl⟩⟩
  | setAdaptiveFeeConfig fBase fScalar oracle assetSymbol =>
    rw [(setAdaptiveFeeConfig_eq_ok h).1] at hp'
    exact hs p' hp'
  | setVolatilityScalar vSigma =>
    rw [(setVolatilityScalar_eq_ok h).1] at hp'
    exact hs p' hp'
  | deposit provider a b m =>
    obtain ⟨r, h⟩ := snd_map_eq_ok.mp h
    obtain ⟨p, da, db, minted, hp, _, ha, hb, hamounts, rfl⟩ := deposit_eq_ok h
    obtain rfl := Option.some.inj hp'
    exact ((hs p hp).deposit ha hb hamounts).1
  | swap trader x m =>
    obtain ⟨r, h⟩ := snd_map_eq_ok.mp h
    obtain ⟨p, f, net, snap, hp, _, _, hA, _, _, _, hnet, _, hle, rfl⟩ := swap_eq_ok h
    obtain rfl := Option.some.inj hp'
    exact (hs p hp).swap hA hnet hle
  | removeLiquidity provider shares minA minB =>
    obtain ⟨r, h⟩ := snd_map_eq_ok.mp h
    obtain ⟨p, amountA, amountB, hp, _, hpos, hle, hamount, hA, hB, rfl⟩ :=
      removeLiquidity_eq_ok h
    obtain rfl := Option.some.inj hp'
    exact (hs p hp).removeLiquidity hpos hle hamount hA hB

end Sound

section Held

/-- The contract holds exactly the reserves it has booked. -/
def ReservesHeld (here : Address) (s : PairState) : Prop :=
  ∀ p, s.pair = some p →
    s.tokens p.tokenA here = p.reserveA ∧ s.tokens p.tokenB here = p.reserveB

/-- Before the initialisation nothing is held. A pair of one token with itself holds at least
both of its reserves. -/
structure Custody (here : Address) (s : PairState) : Prop where
  sound : PairSound s
  fresh : s.pair = none → ∀ token, s.tokens token here = 0
  same : ∀ p, s.pair = some p → p.tokenA = p.tokenB →
    p.reserveA + p.reserveB ≤ s.tokens p.tokenA here

/-- An accepted deposit is into a pair of different tokens, and the fee of an accepted swap
rounds to zero. -/
def BooksAll (s : PairState) (i : PairStep here) : Prop :=
  match i.2 with
  | .deposit provider a b m => (∃ r, deposit i.1 provider a.1 b.1 m.1 s = .ok r) →
    ∀ p, s.pair = some p → p.tokenA ≠ p.tokenB
  | .swap trader x m => (∃ r, swap i.1 trader x.1 m.1 s = .ok r) →
    ∀ f, getDynamicSwapFee i.1 s = .ok f → x.1 * f < 10000
  | _ => True

variable {t : Tokens} {tokenA tokenB lpToken token : Address} {out : ℤ}

theorem tokens_deposit (hne : here ≠ provider) :
    ((t.move tokenA provider here da).move tokenB provider here db).credit lpToken provider minted
        token here =
      t token here + (if token = tokenA then da else 0) + if token = tokenB then db else 0 := by
  rw [Tokens.credit_apply_of_ne _ _ _ hne, Tokens.move_apply_dst _ _ _ hne,
    Tokens.move_apply_dst _ _ _ hne]

theorem tokens_swap (hne : here ≠ trader) :
    (t.move tokenA trader here x).move tokenB here trader out token here =
      t token here + (if token = tokenA then x else 0) - if token = tokenB then out else 0 := by
  rw [Tokens.move_apply_src _ _ _ hne, Tokens.move_apply_dst _ _ _ hne]

theorem tokens_remove (hne : here ≠ provider) :
    ((t.credit lpToken provider minted).move tokenA here provider da).move tokenB here provider db
        token here =
      t token here - (if token = tokenA then da else 0) - if token = tokenB then db else 0 := by
  rw [Tokens.move_apply_src _ _ _ hne, Tokens.move_apply_src _ _ _ hne,
    Tokens.credit_apply_of_ne _ _ _ hne]

/-- Settings change neither the pair nor the tokens. -/
theorem Custody.of_settings (hs : Custody here s) (hsound : PairSound s')
    (h : s'.pair = s.pair ∧ s'.tokens = s.tokens) : Custody here s' := by
  obtain ⟨hpair, htokens⟩ := h
  refine ⟨hsound, ?_, ?_⟩
  · rw [hpair, htokens]
    exact hs.fresh
  · rw [hpair, htokens]
    exact hs.same

/-- A call on an existing pair has to look at the pair of one token with itself only. -/
theorem Custody.of_pair {p' : TokenPair} {tokens : Tokens} {snap : Option AppliedFeeSnapshot}
    (hsound : PairSound { s with pair := some p', feeSnap := snap, tokens })
    (hsame : p'.tokenA = p'.tokenB → p'.reserveA + p'.reserveB ≤ tokens p'.tokenA here) :
    Custody here { s with pair := some p', feeSnap := snap, tokens } := by
  refine ⟨hsound, fun h => absurd h (Option.some_ne_none _), ?_⟩
  intro q hq
  obtain rfl := Option.some.inj hq
  exact hsame

theorem pairStep_custody {i : PairStep here} (hs : Custody here s) (h : pairStep i s = .ok s') :
    Custody here s' := by
  have hsound := pairStep_sound hs.sound h
  obtain ⟨env, call⟩ := i
  cases call with
  | initializeWithVirtualReserves tokenA tokenB lpToken virtualA virtualB =>
    obtain ⟨hnone, _, _, rfl⟩ := initialize_eq_ok h
    exact Custody.of_pair hsound fun _ => (hs.fresh hnone tokenA).ge
  | setAdaptiveFeeConfig fBase fScalar oracle assetSymbol =>
    exact hs.of_settings hsound (setAdaptiveFeeConfig_eq_ok h)
  | setVolatilityScalar vSigma => exact hs.of_settings hsound (setVolatilityScalar_eq_ok h)
  | deposit provider a b m =>
    obtain ⟨r, h⟩ := snd_map_eq_ok.mp h
    obtain ⟨p, da, db, minted, hp, hauth, _, _, _, rfl⟩ := deposit_eq_ok h
    refine Custody.of_pair hsound fun heq => ?_
    have hold := hs.same p hp heq
    rw [tokens_deposit (Env.ne_here_of_auth hauth).symm, if_pos rfl, if_pos heq]
    linarith
  | swap trader x m =>
    obtain ⟨r, h⟩ := snd_map_eq_ok.mp h
    obtain ⟨p, f, net, snap, hp, hauth, hx, _, _, _, hfee, _, _, _, rfl⟩ := swap_eq_ok h
    refine Custody.of_pair hsound fun heq => ?_
    have hold := hs.same p hp heq
    have hfee0 : 0 ≤ x.1 * f / 10000 := by positivity
    rw [tokens_swap (Env.ne_here_of_auth hauth).symm, if_pos rfl, if_pos heq]
    linarith
  | removeLiquidity provider shares minA minB =>
    obtain ⟨r, h⟩ := snd_map_eq_ok.mp h
    obtain ⟨p, amountA, amountB, hp, hauth, _, _, _, _, _, rfl⟩ := removeLiquidity_eq_ok h
    refine Custody.of_pair hsound fun heq => ?_
    have hold := hs.same p hp heq
    rw [tokens_remove (Env.ne_here_of_auth hauth).symm, if_pos rfl, if_pos heq]
    linarith

/-- A deposit is booked in full, but twice in the same token if the tokens are the same. -/
theorem deposit_reservesHeld_iff {r : ℤ} (hs : Custody here s) (hheld : ReservesHeld here s)
    (h : deposit env provider a b m s = .ok (r, s')) :
    ReservesHeld here s' ↔ ∀ p, s.pair = some p → p.tokenA ≠ p.tokenB := by
  obtain ⟨p, da, db, minted, hp, hauth, ha, hb, hamounts, rfl⟩ := deposit_eq_ok h
  obtain ⟨_, _, _, hsum⟩ := (hs.sound p hp).deposit ha hb hamounts
  obtain ⟨hA, hB⟩ := hheld p hp
  have hne := (Env.ne_here_of_auth hauth).symm
  simp only [ReservesHeld, hp, Option.some.injEq, forall_eq', tokens_deposit hne, hA, hB]
  by_cases heq : p.tokenA = p.tokenB
  · rw [heq] at hA
    simp only [heq, if_true, ne_eq, not_true_eq_false, iff_false]
    omega
  · simp [heq, Ne.symm heq]

/-- A swap books the input net of the fee. -/
theorem swap_reservesHeld_iff {f : ℕ} {r : ℤ} (hs : Custody here s) (hheld : ReservesHeld here s)
    (hf : getDynamicSwapFee env s = .ok f) (h : swap env trader x m s = .ok (r, s')) :
    ReservesHeld here s' ↔ x * f < 10000 := by
  obtain ⟨p, f', net, snap, hp, hauth, hx, hA0, hB0, hf', hfee, hnet, _, _, rfl⟩ := swap_eq_ok h
  obtain rfl : f' = f := by
    rw [hf] at hf'
    exact (Except.ok.inj hf').symm
  obtain ⟨hA, hB⟩ := hheld p hp
  have hne := (Env.ne_here_of_auth hauth).symm
  have hdiff : p.tokenA ≠ p.tokenB := by
    intro heq
    have hold := hs.same p hp heq
    omega
  have hfee0 : 0 ≤ x * f' := by positivity
  simp only [ReservesHeld, Option.some.injEq, forall_eq', tokens_swap hne, hA, hB, hdiff,
    hdiff.symm, if_true, if_false]
  omega

theorem removeLiquidity_reservesHeld {shares minA minB : ℤ} {r : ℤ × ℤ} (hs : Custody here s)
    (hheld : ReservesHeld here s)
    (h : removeLiquidity env provider shares minA minB s = .ok (r, s')) : ReservesHeld here s' := by
  obtain ⟨p, amountA, amountB, hp, hauth, hpos, hle, hamount, hvA, hvB, rfl⟩ :=
    removeLiquidity_eq_ok h
  obtain ⟨hA, hB⟩ := hheld p hp
  have hne := (Env.ne_here_of_auth hauth).symm
  have hdiff : p.tokenA ≠ p.tokenB := by
    intro heq
    have hold := hs.same p hp heq
    have hzero : p.reserveA = 0 := by
      have hA0 := (hs.sound p hp).reserveA_nonneg
      have hB0 := (hs.sound p hp).reserveB_nonneg
      rw [heq] at hA
      rw [heq] at hold
      omega
    have hpos := (hs.sound p hp).virtualA_pos
    rw [hzero, mul_zero, Int.zero_ediv] at hamount
    omega
  simp only [ReservesHeld, Option.some.injEq, forall_eq', tokens_remove hne, hA, hB, hdiff,
    hdiff.symm, if_true, if_false]
  omega

theorem ReservesHeld.of_settings (hheld : ReservesHeld here s)
    (h : s'.pair = s.pair ∧ s'.tokens = s.tokens) : ReservesHeld here s' := by
  unfold ReservesHeld
  rw [h.1, h.2]
  exact hheld

/-- A call keeps the reserves held exactly when it meets the condition. -/
theorem commit_reservesHeld_iff (hs : Custody here s) (hheld : ReservesHeld here s)
    (i : PairStep here) : ReservesHeld here (commit pairStep s i) ↔ BooksAll s i := by
  obtain ⟨env, call⟩ := i
  cases call with
  | initializeWithVirtualReserves tokenA tokenB lpToken virtualA virtualB =>
    refine iff_of_true (commit_induction hheld fun s' h => ?_) trivial
    obtain ⟨hnone, _, _, rfl⟩ := initialize_eq_ok h
    intro p hp
    obtain rfl := Option.some.inj hp
    exact ⟨hs.fresh hnone tokenA, hs.fresh hnone tokenB⟩
  | setAdaptiveFeeConfig fBase fScalar oracle assetSymbol =>
    refine iff_of_true (commit_induction hheld fun s' h => ?_) trivial
    exact hheld.of_settings (setAdaptiveFeeConfig_eq_ok h)
  | setVolatilityScalar vSigma =>
    refine iff_of_true (commit_induction hheld fun s' h => ?_) trivial
    exact hheld.of_settings (setVolatilityScalar_eq_ok h)
  | deposit provider a b m =>
    exact commit_iff_of_result rfl hheld fun r s' h => deposit_reservesHeld_iff hs hheld h
  | swap trader x m =>
    refine commit_iff_of_result rfl hheld fun r s' h => ?_
    obtain ⟨_, f, _, _, _, _, _, _, _, hf, _⟩ := swap_eq_ok h
    rw [swap_reservesHeld_iff hs hheld hf h]
    constructor
    · intro hlt f' hf'
      obtain rfl : f = f' := Except.ok.inj (hf.symm.trans hf')
      exact hlt
    · exact fun hlt => hlt f hf
  | removeLiquidity provider shares minA minB =>
    refine iff_of_true (commit_induction hheld fun s' h => ?_) trivial
    obtain ⟨r, h⟩ := snd_map_eq_ok.mp h
    exact removeLiquidity_reservesHeld hs hheld h

theorem custody_fresh {t : Tokens} (h0 : ∀ token, t token here = 0) :
    Custody here (.fresh t) :=
  ⟨fun _ h => absurd h.symm (Option.some_ne_none _), fun _ => h0,
    fun _ h => absurd h.symm (Option.some_ne_none _)⟩

/-- From a contract without tokens, the reserves are held in every state of a run exactly when
every call of the run meets the condition. -/
theorem reservesHeld_throughout_iff {t : Tokens} (h0 : ∀ token, t token here = 0)
    (run : List (PairStep here)) :
    Throughout pairStep (ReservesHeld here) (.fresh t) run ↔
      Along pairStep BooksAll (.fresh t) run :=
  throughout_iff_along (I := Custody here)
    (fun _ _ hs => commit_induction hs fun _ h => pairStep_custody hs h)
    (fun _ i hs hheld => commit_reservesHeld_iff hs hheld i) (custody_fresh h0)
    (fun _ h => absurd h.symm (Option.some_ne_none _)) run

/-- The tokens accept everything that their holders can cover. -/
def pairCall (call : PairCall) : PairStep ⟨0⟩ :=
  ({ Env.standard ⟨0⟩ 1 none with
      volatility := fun _ _ => none
      mints := fun _ _ _ amount => 0 ≤ amount
      burns := fun t token holder amount => 0 ≤ amount ∧ amount ≤ t token holder }, call)

/-- Everybody but the contract is rich. -/
def outsideTokens : Tokens := fun _ holder => if holder = ⟨0⟩ then 0 else 1000000

/-- A pair of the tokens 1 and 2 with a core of 1000 each and a first deposit. -/
def openedRun (a b : i128.Value) : List (PairStep ⟨0⟩) :=
  [pairCall (.initializeWithVirtualReserves ⟨1⟩ ⟨2⟩ ⟨3⟩ (units 1000) (units 1000)),
   pairCall (.deposit ⟨8⟩ a b (units 1))]

/-- One percent is charged on a swap. -/
def feeRun : List (PairStep ⟨0⟩) :=
  openedRun (units 10000) (units 10000) ++
    [pairCall (.setAdaptiveFeeConfig 100 0 none none),
     pairCall (.swap ⟨9⟩ (units 1000) (units 1))]

theorem feeRun_not_held : ¬ ReservesHeld ⟨0⟩ (runAll pairStep (.fresh outsideTokens) feeRun) := by
  intro h
  have hpair : (runAll pairStep (.fresh outsideTokens) feeRun).pair =
      some ⟨⟨1⟩, ⟨2⟩, ⟨3⟩, 10990, 9092, 11000, 1000, 1000⟩ := by
    decide +kernel
  have hbalance : (runAll pairStep (.fresh outsideTokens) feeRun).tokens ⟨1⟩ ⟨0⟩ = 11000 := by
    decide +kernel
  have hA := (h _ hpair).1
  rw [hbalance] at hA
  exact absurd hA (by norm_num)

/-- Without a fee the contract holds what it has booked. -/
theorem openedRun_held :
    (∀ token, outsideTokens token ⟨0⟩ = 0) ∧
      Throughout pairStep (ReservesHeld ⟨0⟩) (.fresh outsideTokens)
        (openedRun (units 500) (units 500) ++ [pairCall (.swap ⟨9⟩ (units 200) (units 1))]) := by
  refine ⟨fun _ => rfl, (reservesHeld_throughout_iff (fun _ => rfl) _).mpr ?_⟩
  refine ⟨trivial, fun _ p hp => ?_, fun _ f hf => ?_, trivial⟩
  · have hpair : (runAll pairStep (.fresh outsideTokens)
        ((openedRun (units 500) (units 500)).take 1)).pair =
        some ⟨⟨1⟩, ⟨2⟩, ⟨3⟩, 0, 0, 0, 1000, 1000⟩ := by
      decide +kernel
    obtain rfl := Option.some.inj (hpair.symm.trans hp)
    decide
  · have hfee : getDynamicSwapFee (pairCall (.setVolatilityScalar 0)).1
        (runAll pairStep (.fresh outsideTokens) (openedRun (units 500) (units 500))) = .ok 0 := by
      decide +kernel
    obtain rfl := Except.ok.inj (hfee.symm.trans hf)
    decide

end Held

section Positive

/-- While there are shares, both reserves are positive. -/
def ReservesPositive (s : PairState) : Prop :=
  ∀ p, s.pair = some p → 0 < p.totalShares → 0 < p.reserveA ∧ 0 < p.reserveB

/-- While there are shares, no deposit divides by zero and no swap finds the pool empty. -/
def Tradable (here : Address) (s : PairState) : Prop :=
  ∀ p, s.pair = some p → 0 < p.totalShares →
    (∀ (env : PairEnv here) provider a b m, deposit env provider a b m s ≠ .error .divideByZero) ∧
    ∀ (env : PairEnv here) trader x m, swap env trader x m s ≠ .error (.error .poolEmpty)

/-- Output on the effective balances for an input less its fee. -/
def quotedOut (p : TokenPair) (amountIn : ℤ) (feeBps : ℕ) : ℤ :=
  let net := amountIn - amountIn * feeBps / 10000
  (p.reserveB + p.virtualB) * net / (p.reserveA + p.virtualA + net)

/-- The quote of an accepted swap is not the whole reserve. -/
def LeavesReserve (s : PairState) (i : PairStep here) : Prop :=
  match i.2 with
  | .swap trader x m => (∃ r, swap i.1 trader x.1 m.1 s = .ok r) →
    ∀ p f, s.pair = some p → getDynamicSwapFee i.1 s = .ok f → quotedOut p x.1 f ≠ p.reserveB
  | _ => True

@[simp] theorem onVirtual_ne_divideByZero {α : Type} {x : Except VirtualReserveError α} :
    onVirtual x ≠ .error .divideByZero := by
  simp [onVirtual]

@[simp] theorem onVirtual_ne_poolEmpty {α : Type} {x : Except VirtualReserveError α} :
    onVirtual x ≠ .error (.error .poolEmpty) := by
  intro h
  obtain ⟨v, _, hv⟩ := mapError_eq_error.mp h
  cases v <;> simp [mapVirtual] at hv

/-- With positive reserves all divisors of a deposit are positive. -/
theorem depositAmounts_ne_divideByZero (hA : 0 < p.reserveA) (hB : 0 < p.reserveB) :
    depositAmounts p a b m ≠ .error .divideByZero := by
  intro h
  unfold depositAmounts at h
  split_ifs at h
  · simp only [bind_eq_error, onVirtual_ne_divideByZero, failIf_eq_error, reduceCtorEq, and_false,
      pure_ne_error, exists_false, or_false] at h
  · simp only [bind_eq_error, onVirtual_ne_divideByZero, onVirtual_eq_ok, arith_eq_error,
      divide_eq_divideByZero, failIf_eq_error, reduceCtorEq, and_false, false_or, hA.ne', hB.ne',
      pure_ne_error, exists_false, or_false] at h
    obtain ⟨e, he, h⟩ := h
    obtain ⟨_, _, hvx, hvy, _, _, rfl⟩ := EffectiveReserves.new_eq_ok he
    rcases h with ⟨_, _, hx | ⟨_, _, _, _, _, _, hy⟩⟩
    · exact absurd hx (add_pos hA hvx).ne'
    · exact absurd hy (add_pos hB hvy).ne'

theorem deposit_ne_divideByZero (hp : s.pair = some p) (hA : 0 < p.reserveA)
    (hB : 0 < p.reserveB) : deposit env provider a b m s ≠ .error .divideByZero := by
  intro h
  simp only [deposit, mint, hp, bind_eq_error, hostCall_eq_error, failIf_eq_error, arith_eq_error,
    okOr_some, Except.ok.injEq, depositAmounts_ne_divideByZero hA hB, reduceCtorEq, and_false,
    pure_ne_error, exists_false, exists_eq_left', or_false] at h

theorem volatilityScalar_ne_error {e : AmmError} : volatilityScalar env s ≠ .error (.error e) := by
  unfold volatilityScalar
  split <;> simp

theorem chargeFee_ne_poolEmpty : chargeFee env x s ≠ .error (.error .poolEmpty) := by
  intro h
  unfold chargeFee at h
  split at h
  · simp only [computeDynamicFee, applyFeeToAmountIn, bind_eq_error, mapError_eq_error,
      volatilityScalar_ne_error, failIf_eq_error, okOr_eq_error, Abort.error.injEq, exists_eq_right,
      pure_ne_error, reduceCtorEq, and_false, exists_false, or_false] at h
  · exact absurd h (by simp)

theorem swap_ne_poolEmpty (hp : s.pair = some p) (hA : 0 < p.reserveA) (hB : 0 < p.reserveB) :
    swap env trader x m s ≠ .error (.error .poolEmpty) := by
  intro h
  have hpos : ¬ (p.reserveA ≤ 0 ∨ p.reserveB ≤ 0) := by omega
  simp only [swap, hp, bind_eq_error, hostCall_eq_error, failIf_eq_error, onVirtual_ne_poolEmpty,
    okOr_some, Except.ok.injEq, chargeFee_ne_poolEmpty, Abort.error.injEq, reduceCtorEq, and_false,
    false_and, hpos, pure_ne_error, exists_false, exists_eq_left', or_false] at h

theorem ReservesPositive.tradable (h : ReservesPositive s) : Tradable here s := by
  intro p hp hT
  obtain ⟨hA, hB⟩ := h p hp hT
  exact ⟨fun _ _ _ _ _ => deposit_ne_divideByZero hp hA hB,
    fun _ _ _ _ => swap_ne_poolEmpty hp hA hB⟩

/-- A swap empties the reserve exactly when its quote is the whole of it. -/
theorem swap_reservesPositive_iff {f : ℕ} {r : ℤ} (hs : PairSound s) (hp : s.pair = some p)
    (hf : getDynamicSwapFee env s = .ok f) (h : swap env trader x m s = .ok (r, s')) :
    ReservesPositive s' ↔ quotedOut p x f ≠ p.reserveB := by
  obtain ⟨p', f', net, snap, hp', _, _, hA, hB, hf', hnet, hnet0, hout, hle, rfl⟩ := swap_eq_ok h
  obtain rfl : p = p' := Option.some.inj (hp.symm.trans hp')
  obtain rfl : f = f' := Except.ok.inj (hf.symm.trans hf')
  have hT : 0 < p.totalShares := by
    apply lt_of_le_of_ne (hs p hp).shares_nonneg
    intro h0
    exact absurd ((hs p hp).empty_of_no_shares h0.symm).1 hA.ne'
  have hquote : quotedOut p x f = r := by rw [hout, hnet, quotedOut]
  simp only [ReservesPositive, Option.some.injEq, forall_eq', hT, true_imp_iff, hquote]
  omega

/-- A call keeps the reserves positive exactly when it meets the condition. -/
theorem commit_reservesPositive_iff (hs : PairSound s) (hpos : ReservesPositive s)
    (i : PairStep here) : ReservesPositive (commit pairStep s i) ↔ LeavesReserve s i := by
  obtain ⟨env, call⟩ := i
  cases call with
  | initializeWithVirtualReserves tokenA tokenB lpToken virtualA virtualB =>
    refine iff_of_true (commit_induction hpos fun s' h => ?_) trivial
    obtain ⟨_, _, _, rfl⟩ := initialize_eq_ok h
    intro p hp hT
    obtain rfl := Option.some.inj hp
    exact absurd hT (lt_irrefl 0)
  | setAdaptiveFeeConfig fBase fScalar oracle assetSymbol =>
    refine iff_of_true (commit_induction hpos fun s' h => ?_) trivial
    unfold ReservesPositive
    rwa [(setAdaptiveFeeConfig_eq_ok h).1]
  | setVolatilityScalar vSigma =>
    refine iff_of_true (commit_induction hpos fun s' h => ?_) trivial
    unfold ReservesPositive
    rwa [(setVolatilityScalar_eq_ok h).1]
  | deposit provider a b m =>
    refine iff_of_true (commit_induction hpos fun s' h => ?_) trivial
    obtain ⟨r, h⟩ := snd_map_eq_ok.mp h
    obtain ⟨p, da, db, minted, hp, _, ha, hb, hamounts, rfl⟩ := deposit_eq_ok h
    intro p' hp' _
    obtain rfl := Option.some.inj hp'
    have hA := (hs p hp).reserveA_nonneg
    have hB := (hs p hp).reserveB_nonneg
    by_cases h0 : p.totalShares = 0
    · obtain ⟨hda, hdb, _⟩ := depositAmounts_first (hs p hp) hamounts h0
      exact ⟨add_pos_of_nonneg_of_pos hA hda, add_pos_of_nonneg_of_pos hB hdb⟩
    · obtain ⟨hA0, hB0, hda, hdb, _⟩ := depositAmounts_later (hs p hp) ha hb hamounts h0
      exact ⟨add_pos_of_pos_of_nonneg (lt_of_le_of_ne hA hA0.symm) hda,
        add_pos_of_pos_of_nonneg (lt_of_le_of_ne hB hB0.symm) hdb⟩
  | swap trader x m =>
    refine commit_iff_of_result rfl hpos fun r s' h => ?_
    obtain ⟨p, f, _, _, hp, _, _, _, _, hf, _⟩ := swap_eq_ok h
    rw [swap_reservesPositive_iff hs hp hf h]
    constructor
    · intro hne p' f' hp' hf'
      obtain rfl : p = p' := Option.some.inj (hp.symm.trans hp')
      obtain rfl : f = f' := Except.ok.inj (hf.symm.trans hf')
      exact hne
    · exact fun hne => hne p f hp hf
  | removeLiquidity provider shares minA minB =>
    refine iff_of_true (commit_induction hpos fun s' h => ?_) trivial
    obtain ⟨r, h⟩ := snd_map_eq_ok.mp h
    obtain ⟨p, amountA, amountB, hp, _, _, _, _, hA, hB, rfl⟩ := removeLiquidity_eq_ok h
    intro p' hp' _
    obtain rfl := Option.some.inj hp'
    exact ⟨(hs p hp).virtualA_pos.trans_le hA, (hs p hp).virtualB_pos.trans_le hB⟩

/-- In every state of a run the reserves of a pair with shares are positive, no deposit divides
by zero and no swap finds the pool empty, exactly when every call of the run meets the
condition. -/
theorem reservesPositive_throughout_iff (t : Tokens) (run : List (PairStep here)) :
    Throughout pairStep (fun s => ReservesPositive s ∧ Tradable here s) (.fresh t) run ↔
      Along pairStep LeavesReserve (.fresh t) run :=
  throughout_and_iff_along (I := PairSound) (P := ReservesPositive)
    (fun _ _ hs _ => commit_induction hs fun _ h => pairStep_sound hs h)
    (fun _ i hs hpos => commit_reservesPositive_iff hs hpos i) (fun _ _ hpos => hpos.tradable)
    (fun _ h => absurd h.symm (Option.some_ne_none _))
    (fun _ h => absurd h.symm (Option.some_ne_none _)) run

/-- A swap pays out the whole reserve of the second token. -/
def drainedRun : List (PairStep ⟨0⟩) :=
  openedRun (units 500) (units 500) ++ [pairCall (.swap ⟨9⟩ (units 750) (units 1))]

theorem drainedRun_bricked :
    ¬ ReservesPositive (runAll pairStep (.fresh outsideTokens) drainedRun) ∧
      ¬ Tradable ⟨0⟩ (runAll pairStep (.fresh outsideTokens) drainedRun) := by
  have hpair : (runAll pairStep (.fresh outsideTokens) drainedRun).pair =
      some ⟨⟨1⟩, ⟨2⟩, ⟨3⟩, 1250, 0, 1500, 1000, 1000⟩ := by
    decide +kernel
  constructor
  · intro h
    exact absurd (h _ hpair (by norm_num)).2 (lt_irrefl 0)
  · intro h
    obtain ⟨_, hswap⟩ := h _ hpair (by norm_num)
    apply hswap (pairCall (.setVolatilityScalar 0)).1 ⟨9⟩ 10 1
    simp [swap, hpair, pairCall, Env.standard, Env.requireAuth, hostCall, failIf]
    rfl

end Positive

end StellarFlow.Amm.Pair
