import StellarFlow.Vaults.Accounts

/-!
# Held and booked assets

Deposits, withdrawals and harvests trap unless the contract holds exactly the booked assets.
A flash loan is the only call that can move the two apart: its fee is demanded from the
borrower and booked nowhere, and any surplus repaid stays unbooked too. After that nobody can
deposit, withdraw or harvest any more.
-/
namespace StellarFlow.Vaults

open Foundation

variable {here : Address} {env : VaultEnv here} {s s' : VaultState} {config : VaultConfig}

/-- The contract holds exactly the booked assets. -/
def AssetsHeld (here : Address) (s : VaultState) : Prop :=
  ∀ config, s.config = some config → s.tokens config.asset here = s.totalAssets

/-- The balance check passes, and every holder can redeem every number of its shares that is
worth anything. -/
def Operable (here : Address) (s : VaultState) : Prop :=
  ∀ config, s.config = some config →
    assertBalanceInvariant here config s = .ok () ∧
    ∀ (env : VaultEnv here) owner n, env.auth owner = true → 0 < n →
      n ≤ s.shareBalanceOf owner → i128.Fits (n * s.totalAssets) →
      0 < n * s.totalAssets / s.totalShares →
      env.accepts s.tokens config.asset here owner (n * s.totalAssets / s.totalShares) = true →
      ∃ s', withdraw env owner n s = .ok (n * s.totalAssets / s.totalShares, s')

/-- Before the initialisation the contract holds nothing. -/
structure Funded (here : Address) (s : VaultState) : Prop where
  sound : s.Sound
  unset : s.config = none → ∀ token, s.tokens token here = 0

/-- An accepted flash loan has a fee of zero and is repaid exactly. -/
def RepaysExactly (s : VaultState) (i : VaultStep here) : Prop :=
  match i.2 with
  | .flashLoan borrower amount => (∃ r, flashLoan i.1 borrower amount.1 s = .ok r) →
    ∀ config, s.config = some config → amount.1 * config.feeBps < 10000 ∧
      ∀ tokens, i.1.onFlashLoan borrower config.asset amount.1 0
        (s.tokens.move config.asset here borrower amount.1) = some tokens →
        tokens config.asset here = s.tokens config.asset here
  | _ => True

section Steps

theorem AssetsHeld.operable (hheld : AssetsHeld here s) (hv : s.Sound) : Operable here s := by
  intro config hc
  have hA := hheld config hc
  refine ⟨assertBalanceInvariant_eq_ok.mpr hA, ?_⟩
  intro env owner n hauth hn hcov hfits howed hacc
  have hbalance := hv.shareBalanceOf_le owner
  have hS : 0 < s.totalShares := by omega
  have hA0 := hv.assets_pos hS
  have hlarge : s.totalShares ≤ n * s.totalAssets := by
    by_contra hlt
    push Not at hlt
    rw [Int.ediv_eq_zero_of_lt (by positivity) hlt] at howed
    exact absurd howed (lt_irrefl 0)
  have hle : n * s.totalAssets / s.totalShares ≤ s.totalAssets := by
    apply Int.ediv_le_of_le_mul hS
    rw [mul_comm]
    exact mul_le_mul_of_nonneg_left (hcov.trans hbalance) hA0.le
  have hassets : s.totalAssets ≤ n * s.totalAssets := le_mul_of_one_le_left hA0.le hn
  refine ⟨_, withdraw_eq_ok.mpr ⟨config, ⟨hc, hn, hauth, hA, hcov, hS.ne', hfits, ?_, howed, hle,
    ?_, ?_, ?_, hacc⟩, rfl⟩⟩
  · exact IntRange.checkedDiv_of_nonneg hfits (by positivity) hS
  · exact hfits.of_abs_le (by omega) (by omega)
  · exact hfits.of_abs_le (by omega) (by omega)
  · exact hfits.of_abs_le (by omega) (by omega)

/-- A flash loan leaves the booked assets alone. -/
theorem flashLoan_assetsHeld_iff {borrower : Address} {amount r : ℤ}
    (hheld : AssetsHeld here s) (h : flashLoan env borrower amount s = .ok (r, s')) :
    AssetsHeld here s' ↔
      ∀ config, s.config = some config → amount * config.feeBps < 10000 ∧
        ∀ tokens, env.onFlashLoan borrower config.asset amount 0
          (s.tokens.move config.asset here borrower amount) = some tokens →
          tokens config.asset here = s.tokens config.asset here := by
  obtain ⟨config, tokens, hc, hpos, hfee, hcallback, hle, hs⟩ := flashLoan_eq_ok h
  have hA := hheld config hc
  have hfee0 : 0 ≤ amount * config.feeBps := mul_nonneg hpos.le (by positivity)
  have hkeeps : AssetsHeld here s' ↔ tokens config.asset here = s.tokens config.asset here := by
    subst hs
    constructor
    · intro h'
      exact (h' config hc).trans hA.symm
    · intro heq config' hc'
      obtain rfl := Option.some.inj (hc.symm.trans hc')
      exact heq.trans hA
  rw [hkeeps]
  constructor
  · intro heq config' hc'
    obtain rfl := Option.some.inj (hc.symm.trans hc')
    have hr : r = 0 := by omega
    refine ⟨by omega, fun tokens' h' => ?_⟩
    rw [hr] at hcallback
    obtain rfl := Option.some.inj (hcallback.symm.trans h')
    exact heq
  · intro hexact
    obtain ⟨hsmall, hrepaid⟩ := hexact config hc
    have hr : r = 0 := by omega
    rw [hr] at hcallback
    exact hrepaid tokens hcallback

theorem vaultStep_funded {i : VaultStep here} (hs : Funded here s) (h : vaultStep i s = .ok s') :
    Funded here s' := by
  refine ⟨(vaultStep_sound hs.sound h).1, ?_⟩
  obtain ⟨env, call⟩ := i
  cases call with
  | initVault admin asset feeRecipient =>
    obtain ⟨r, h⟩ := snd_map_eq_ok.mp h
    obtain ⟨_, rfl⟩ := initVault_eq_ok h
    exact fun h => absurd h (Option.some_ne_none _)
  | setPerformanceFee admin feeBps =>
    obtain ⟨r, h⟩ := snd_map_eq_ok.mp h
    obtain ⟨config, _, _, rfl⟩ := setPerformanceFee_eq_ok h
    exact fun h => absurd h (Option.some_ne_none _)
  | deposit depositor amount =>
    obtain ⟨r, h⟩ := snd_map_eq_ok.mp h
    obtain ⟨config, hc, _, _, _, _, rfl, _⟩ := deposit_eq_ok h
    exact fun hnone => absurd (hnone.symm.trans hc) (by simp)
  | withdraw owner shares =>
    obtain ⟨r, h⟩ := snd_map_eq_ok.mp h
    obtain ⟨config, hadm, rfl⟩ := withdraw_eq_ok.mp h
    exact fun hnone => absurd (hnone.symm.trans hadm.config_eq) (by simp)
  | harvest keeper yieldAmount =>
    obtain ⟨r, h⟩ := snd_map_eq_ok.mp h
    obtain ⟨config, tokens, hc, _, rfl, _⟩ := harvest_eq_ok h
    exact fun hnone => absurd (hnone.symm.trans hc) (by simp)
  | flashLoan borrower amount =>
    obtain ⟨r, h⟩ := snd_map_eq_ok.mp h
    obtain ⟨config, tokens, hc, _, _, _, _, rfl⟩ := flashLoan_eq_ok h
    exact fun hnone => absurd (hnone.symm.trans hc) (by simp)

/-- A call keeps the assets held exactly when it meets the condition. -/
theorem commit_assetsHeld_iff (hs : Funded here s) (hheld : AssetsHeld here s)
    (i : VaultStep here) : AssetsHeld here (commit vaultStep s i) ↔ RepaysExactly s i := by
  obtain ⟨env, call⟩ := i
  cases call with
  | initVault admin asset feeRecipient =>
    refine iff_of_true (commit_induction hheld fun s' h => ?_) trivial
    obtain ⟨r, h⟩ := snd_map_eq_ok.mp h
    obtain ⟨hnone, rfl⟩ := initVault_eq_ok h
    exact fun config _ => hs.unset hnone config.asset
  | setPerformanceFee admin feeBps =>
    refine iff_of_true (commit_induction hheld fun s' h => ?_) trivial
    obtain ⟨r, h⟩ := snd_map_eq_ok.mp h
    obtain ⟨config, hc, _, rfl⟩ := setPerformanceFee_eq_ok h
    intro config' hc'
    obtain rfl := Option.some.inj hc'
    exact hheld config hc
  | deposit depositor amount =>
    refine iff_of_true (commit_induction hheld fun s' h => ?_) trivial
    obtain ⟨r, h⟩ := snd_map_eq_ok.mp h
    obtain ⟨config, hc, _, _, _, _, rfl, hafter⟩ := deposit_eq_ok h
    intro config' hc'
    obtain rfl := Option.some.inj (hc.symm.trans hc')
    exact hafter
  | withdraw owner shares =>
    refine iff_of_true (commit_induction hheld fun s' h => ?_) trivial
    obtain ⟨r, h⟩ := snd_map_eq_ok.mp h
    obtain ⟨config, hadm, rfl⟩ := withdraw_eq_ok.mp h
    intro config' hc'
    obtain rfl := Option.some.inj (hadm.config_eq.symm.trans hc')
    have hne := (Env.ne_here_of_auth hadm.auth).symm
    exact (Tokens.move_apply_src _ _ _ hne).trans (by rw [if_pos rfl, hadm.held]; rfl)
  | harvest keeper yieldAmount =>
    refine iff_of_true (commit_induction hheld fun s' h => ?_) trivial
    obtain ⟨r, h⟩ := snd_map_eq_ok.mp h
    obtain ⟨config, tokens, hc, _, rfl, hafter⟩ := harvest_eq_ok h
    intro config' hc'
    obtain rfl := Option.some.inj (hc.symm.trans hc')
    exact hafter
  | flashLoan borrower amount =>
    exact commit_iff_of_result rfl hheld fun r s' h => flashLoan_assetsHeld_iff hheld h

end Steps

/-- From a contract without tokens, the assets are held in every state of a run, the balance
check passes and every holder can redeem, exactly when every call of the run meets the
condition. -/
theorem assetsHeld_throughout_iff {t : Tokens} (h0 : ∀ token, t token here = 0)
    (run : List (VaultStep here)) :
    Throughout vaultStep (fun s => AssetsHeld here s ∧ Operable here s) (.fresh t) run ↔
      Along vaultStep RepaysExactly (.fresh t) run :=
  throughout_and_iff_along (I := Funded here) (P := AssetsHeld here)
    (fun _ _ hs _ => commit_induction hs fun _ h => vaultStep_funded hs h)
    (fun _ i hs hheld => commit_assetsHeld_iff hs hheld i)
    (fun _ hs hheld => hheld.operable hs.sound) ⟨sound_fresh t, fun _ => h0⟩
    (fun _ h => absurd h.symm (Option.some_ne_none _)) run

/-- A deposit, then a flash loan with a fee of 2%. -/
def loanRun (amount : i128.Value) : List (VaultStep ⟨0⟩) :=
  [vaultCall (.initVault ⟨9⟩ ⟨1⟩ ⟨8⟩), vaultCall (.deposit ⟨2⟩ (units 1000)),
   vaultCall (.flashLoan ⟨3⟩ amount)]

/-- A loan too small for a fee. -/
theorem loanRun_held :
    (∀ token, outsideTokens token ⟨0⟩ = 0) ∧
      Throughout vaultStep (fun s => AssetsHeld ⟨0⟩ s ∧ Operable ⟨0⟩ s) (.fresh outsideTokens)
        (loanRun (units 49)) := by
  refine ⟨fun _ => rfl, (assetsHeld_throughout_iff (fun _ => rfl) _).mpr ?_⟩
  refine ⟨trivial, trivial, fun _ config hc => ?_, trivial⟩
  have hconfig : (runAll vaultStep (.fresh outsideTokens) ((loanRun (units 49)).take 2)).config =
      some ⟨⟨9⟩, ⟨1⟩, 200, ⟨8⟩⟩ := by
    decide +kernel
  obtain rfl := Option.some.inj (hconfig.symm.trans hc)
  refine ⟨by decide, fun tokens h => ?_⟩
  obtain rfl := Option.some.inj h
  decide +kernel

/-- A fee of 2 stays in the balance, so the depositor cannot withdraw. -/
theorem loanRun_frozen :
    ¬ AssetsHeld ⟨0⟩ (runAll vaultStep (.fresh outsideTokens) (loanRun (units 100))) ∧
      ¬ Operable ⟨0⟩ (runAll vaultStep (.fresh outsideTokens) (loanRun (units 100))) := by
  have hconfig : (runAll vaultStep (.fresh outsideTokens) (loanRun (units 100))).config =
      some ⟨⟨9⟩, ⟨1⟩, 200, ⟨8⟩⟩ := by
    decide +kernel
  have hassets : (runAll vaultStep (.fresh outsideTokens) (loanRun (units 100))).tokens ⟨1⟩ ⟨0⟩ =
      1002 ∧
      (runAll vaultStep (.fresh outsideTokens) (loanRun (units 100))).totalAssets = 1000 := by
    decide +kernel
  generalize runAll vaultStep (.fresh outsideTokens) (loanRun (units 100)) = s at hconfig hassets ⊢
  have hne : ¬ s.tokens ⟨1⟩ ⟨0⟩ = s.totalAssets := by
    rw [hassets.1, hassets.2]
    decide
  constructor
  · exact fun h => hne (h _ hconfig)
  · exact fun h => hne (assertBalanceInvariant_eq_ok.mp (h _ hconfig).1)

end StellarFlow.Vaults
