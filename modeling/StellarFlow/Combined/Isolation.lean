import StellarFlow.Orders.CommitReveal
import StellarFlow.Orders.Holdings
import StellarFlow.Vaults.Accounts

/-!
# The vault next to the order book

Vault, order book and commitments live in one contract and hold their tokens under its one
address, while the vault insists that the balance of its asset is exactly what it booked.
An order or a bond in the asset of the vault therefore stops all withdrawals, and exactly
the calls that move some of that asset do.
-/
namespace StellarFlow.Combined

open Foundation Orders Vaults

/-- Storage of the modules that share the address; the tokens are part of the book. -/
structure Contract where
  vault : Vault
  desk : Desk

def Contract.fresh (tokens : Tokens) : Contract := ⟨Vault.empty, Desk.empty tokens⟩

def Contract.vaultState (c : Contract) : VaultState := { c.vault with tokens := c.desk.book.tokens }

/-- What the contract holds of a token. -/
def Contract.held (here token : Address) (c : Contract) : ℤ := c.desk.book.held here token

inductive ContractCall
  | vault (call : VaultCall)
  | book (call : BookCall)
  | desk (call : CommitCall)

/-- A call together with the environment it runs in. -/
abbrev ContractStep (here : Address) := VaultEnv here × ContractCall

def contractStep (codec : Codec) {here : Address} (i : ContractStep here) (c : Contract) :
    Except Fault Contract :=
  match i.2 with
  | .vault call => do
    let s ← vaultStep (i.1, call) c.vaultState
    pure ⟨s.toVault, { c.desk with book := { c.desk.book with tokens := s.tokens } }⟩
  | .book call => do
    let book ← call.exec i.1.toEnv c.desk.book
    pure { c with desk := { c.desk with book } }
  | .desk call => do
    let desk ← call.exec codec i.1.toEnv c.desk
    pure { c with desk }

/-- Placements and cancellations of orders, and commitments. -/
def ContractCall.Escrows : ContractCall → Prop
  | .book (.placeOrderWithExpiry ..) => True
  | .book (.placeBuyOrder ..) => True
  | .book (.cancelOrder ..) => True
  | .book (.cancelOrdersBatch ..) => True
  | .desk (.commitOrder ..) => True
  | _ => False

abbrev EscrowStep (here : Address) := {i : ContractStep here // i.2.Escrows}

def escrowStep (codec : Codec) {here : Address} (i : EscrowStep here) (c : Contract) :
    Except Fault Contract := contractStep codec i.1 c

/-- A withdrawal of these shares pays this amount, if the owner signs and the token of the
vault accepts the payment. -/
def StillPays (here owner : Address) (n owed : ℤ) (c : Contract) : Prop :=
  ∀ env : VaultEnv here, env.auth owner = true →
    (∀ config, c.vault.config = some config →
      env.accepts c.desk.book.tokens config.asset here owner owed = true) →
    ∃ s', withdraw env owner n c.vaultState = .ok (owed, s')

/-- What the call escrows or releases is not in the token, or it rounds to zero. -/
def ContractCall.Avoids (token : Address) (c : Contract) : ContractCall → Prop
  | .book (.placeOrderWithExpiry _ pair _ _ _) => pair.sellAsset ≠ token
  | .book (.placeBuyOrder _ pair priceTick buyAmount) =>
    pair.buyAsset ≠ token ∨ buyAmount * priceTick < priceScale
  | .book (.cancelOrder _ orderId) => FreeOf token c.desk.book orderId
  | .book (.cancelOrdersBatch _ orderIds) => ∀ id ∈ orderIds, FreeOf token c.desk.book id
  | .desk (.commitOrder _ _ collateralAsset _ _) => collateralAsset ≠ token
  | _ => True

/-- An accepted call stays away from the asset of the vault. -/
def AvoidsVaultAsset (codec : Codec) {here : Address} (c : Contract) (i : EscrowStep here) : Prop :=
  (∃ c', escrowStep codec i c = .ok c') →
    ∀ config, c.vault.config = some config → i.1.2.Avoids config.asset c

section Steps

variable {codec : Codec} {here owner : Address} {env : VaultEnv here} {c c' : Contract}
  {n owed : ℤ}

theorem contractStep_wellFormed {i : ContractStep here} (hw : c.desk.book.WellFormed here)
    (h : contractStep codec i c = .ok c') : c'.desk.book.WellFormed here := by
  obtain ⟨env, call⟩ := i
  cases call with
  | vault call =>
    simp only [contractStep, bind_eq_ok, pure_eq_ok] at h
    obtain ⟨s, _, rfl⟩ := h
    exact hw.of_table rfl
  | book call =>
    simp only [contractStep, bind_eq_ok, pure_eq_ok] at h
    obtain ⟨b, h, rfl⟩ := h
    exact exec_wellFormed hw h
  | desk call =>
    simp only [contractStep, bind_eq_ok, pure_eq_ok] at h
    obtain ⟨d, h, rfl⟩ := h
    exact CommitCall.exec_wellFormed hw h

/-- A placement, cancellation or commitment leaves the storage of the vault alone, and the
holding of a token exactly when it avoids the token. -/
theorem escrowStep_held {i : EscrowStep here} (hw : c.desk.book.WellFormed here)
    (h : escrowStep codec i c = .ok c') (token : Address) :
    c'.vault = c.vault ∧ (c'.held here token = c.held here token ↔ i.1.2.Avoids token c) := by
  obtain ⟨⟨env, call⟩, hcall⟩ := i
  cases call with
  | vault call => exact hcall.elim
  | book call =>
    simp only [escrowStep, contractStep, bind_eq_ok, pure_eq_ok] at h
    obtain ⟨b, h, rfl⟩ := h
    refine ⟨rfl, ?_⟩
    cases call with
    | placeOrderWithExpiry maker pair priceTick sellAmount expiry =>
      obtain ⟨o, h⟩ := snd_map_eq_ok.mp h
      obtain ⟨hasset, hescrow, hpos⟩ := placeOrderWithExpiry_escrow h
      refine (placeOrderWithExpiry_place h).held_eq_iff.trans ?_
      rw [hasset, hescrow, or_iff_left hpos.ne']
      rfl
    | placeBuyOrder maker pair priceTick buyAmount =>
      obtain ⟨o, h⟩ := snd_map_eq_ok.mp h
      obtain ⟨hasset, hescrow, hpos⟩ := placeBuyOrder_escrow h
      refine (placeBuyOrder_place h).held_eq_iff.trans ?_
      have hzero : buyAmount * priceTick / priceScale = 0 ↔ buyAmount * priceTick < priceScale := by
        unfold priceScale
        omega
      rw [hasset, hescrow, hzero]
      rfl
    | cancelOrder maker orderId =>
      obtain ⟨r, h⟩ := snd_map_eq_ok.mp h
      obtain ⟨_, _, h⟩ := bind_eq_ok.mp h
      obtain ⟨o, rfl, _, _, hcancel⟩ := cancelOrderInner_cancel hw h
      exact hcancel.held_eq_iff hw
    | cancelOrdersBatch maker orderIds =>
      obtain ⟨r, h⟩ := snd_map_eq_ok.mp h
      obtain ⟨_, _, h⟩ := bind_eq_ok.mp h
      exact (cancelLoop_held hw h).2
    | _ => exact hcall.elim
  | desk call =>
    simp only [escrowStep, contractStep, bind_eq_ok, pure_eq_ok] at h
    obtain ⟨d, h, rfl⟩ := h
    refine ⟨rfl, ?_⟩
    cases call with
    | commitOrder trader commitmentHash collateralAsset collateralAmount expirationSequence =>
      obtain ⟨r, h⟩ := snd_map_eq_ok.mp h
      obtain ⟨hpos, hauth, hbook⟩ := commitOrder_book h
      have hheld : d.book.held here token = c.desk.book.held here token +
          if token = collateralAsset then collateralAmount else 0 := by
        rw [hbook]
        exact Tokens.move_apply_dst _ _ _ (Env.ne_here_of_auth hauth).symm
      refine (by rw [Contract.held, Contract.held, hheld, add_ite_eq_self_iff] :
        _ ↔ ¬ token = collateralAsset ∨ collateralAmount = 0).trans ?_
      rw [or_iff_left hpos.ne', eq_comm]
      rfl
    | _ => exact hcall.elim

/-- A withdrawal that was admitted with the same storage pays exactly as long as the booked
assets are held. -/
theorem stillPays_iff {config : VaultConfig} {t : Tokens}
    (h : WithdrawalAdmitted env owner n owed config { c.vault with tokens := t }) :
    StillPays here owner n owed c ↔ c.held here config.asset = c.vault.totalAssets := by
  constructor
  · intro hpays
    -- Try it with a token that accepts everything.
    obtain ⟨s', hw⟩ := hpays { env with accepts := fun _ _ _ _ _ => true } h.auth fun _ _ => rfl
    obtain ⟨config', hadm, _⟩ := withdraw_eq_ok.mp hw
    obtain rfl := Option.some.inj (h.config_eq.symm.trans hadm.config_eq)
    exact hadm.held
  · intro hheld env' hauth hacc
    exact ⟨_, withdraw_eq_ok.mpr
      ⟨config, h.transport hauth hheld (hacc config h.config_eq), rfl⟩⟩

/-- A call of the run keeps the withdrawal possible exactly when it avoids the asset of the
vault. -/
theorem commit_stillPays_iff {config : VaultConfig} {t : Tokens}
    (hadm : WithdrawalAdmitted env owner n owed config { c.vault with tokens := t })
    (hw : c.desk.book.WellFormed here) (hpays : StillPays here owner n owed c)
    (i : EscrowStep here) :
    StillPays here owner n owed (commit (escrowStep codec) c i) ↔ AvoidsVaultAsset codec c i := by
  refine commit_iff_of_accepted hpays fun c' h => ?_
  obtain ⟨hvault, hheld⟩ := escrowStep_held hw h config.asset
  have hadm' : WithdrawalAdmitted env owner n owed config { c'.vault with tokens := t } := by
    rw [hvault]
    exact hadm
  rw [stillPays_iff hadm', hvault, ← (stillPays_iff hadm).mp hpays, hheld]
  constructor
  · intro havoids _ config' hc'
    obtain rfl := Option.some.inj (hadm.config_eq.symm.trans hc')
    exact havoids
  · exact fun h' => h' ⟨c', h⟩ config hadm.config_eq

end Steps

section Isolation

variable {here owner : Address} {env : VaultEnv here} {n owed : ℤ} {s' : VaultState}

/-- The book is well-formed and the vault has the given storage. -/
def Keeps (here : Address) (v : Vault) (c : Contract) : Prop :=
  c.desk.book.WellFormed here ∧ c.vault = v

/-- If a withdrawal succeeds in a reachable state, then it still succeeds with the same payment
after every call of a sequence of placements, cancellations and commitments exactly when none
of them touches the asset of the vault. -/
theorem withdraw_isolated_iff (codec : Codec) (t : Tokens) (history : List (ContractStep here))
    (h : withdraw env owner n (runAll (contractStep codec) (.fresh t) history).vaultState =
      .ok (owed, s')) (run : List (EscrowStep here)) :
    Throughout (escrowStep codec) (StillPays here owner n owed)
        (runAll (contractStep codec) (.fresh t) history) run ↔
      Along (escrowStep codec) (AvoidsVaultAsset codec)
        (runAll (contractStep codec) (.fresh t) history) run := by
  have hw : (runAll (contractStep codec) (.fresh t) history).desk.book.WellFormed here :=
    runAll_induction (P := fun c => c.desk.book.WellFormed here)
      (fun _ _ _ hw h => contractStep_wellFormed hw h) (Book.WellFormed.empty t) history
  generalize runAll (contractStep codec) (.fresh t) history = c at *
  obtain ⟨config, hadm, _⟩ := withdraw_eq_ok.mp h
  apply throughout_iff_along (I := Keeps here c.vault)
  · rintro c₁ i ⟨hw₁, hv₁⟩
    refine commit_induction ⟨hw₁, hv₁⟩ fun c₂ h₂ => ?_
    exact ⟨contractStep_wellFormed hw₁ h₂, (escrowStep_held hw₁ h₂ config.asset).1.trans hv₁⟩
  · rintro c₁ i ⟨hw₁, hv₁⟩ hpays
    have hadm₁ : WithdrawalAdmitted env owner n owed config
        { c₁.vault with tokens := c.desk.book.tokens } := by
      rw [hv₁]
      exact hadm
    exact commit_stillPays_iff hadm₁ hw₁ hpays i
  · exact ⟨hw, rfl⟩
  · exact (stillPays_iff hadm).mpr hadm.held

/-- A codec for runs that never reveal. -/
def sampleCodec : Codec :=
  ⟨fun a => toBeBytes 40 a.raw, fun bytes => Vector.ofFn fun i => bytes.getD i.1 0⟩

/-- A depositor holds shares of a vault for the asset 1. -/
def openVault : Contract :=
  runAll (contractStep sampleCodec) (.fresh outsideTokens)
    [(vaultEnv, .vault (.initVault ⟨9⟩ ⟨1⟩ ⟨8⟩)), (vaultEnv, .vault (.deposit ⟨2⟩ (units 1000)))]

/-- Another user sells, and bonds, some units of a token. -/
def escrowRun (token : Address) : List (EscrowStep ⟨0⟩) :=
  [⟨(vaultEnv, .book (.placeOrderWithExpiry ⟨3⟩ ⟨token, ⟨6⟩⟩ 10000000 10 0)), trivial⟩,
   ⟨(vaultEnv, .desk (.commitOrder ⟨3⟩ (Vector.replicate 32 0) token 10 100)), trivial⟩]

/-- In another token this does not disturb the vault. -/
theorem escrowRun_isolated :
    (∃ s', withdraw vaultEnv ⟨2⟩ 500 openVault.vaultState = .ok (500, s')) ∧
      Throughout (escrowStep sampleCodec) (StillPays ⟨0⟩ ⟨2⟩ 500 500) openVault
        (escrowRun ⟨5⟩) := by
  have hpaid : Prod.fst <$> withdraw vaultEnv ⟨2⟩ 500 openVault.vaultState = .ok 500 := by
    decide +kernel
  obtain ⟨s', h⟩ := fst_map_eq_ok.mp hpaid
  refine ⟨⟨s', h⟩, (withdraw_isolated_iff sampleCodec outsideTokens _ h (escrowRun ⟨5⟩)).mpr ?_⟩
  have hconfig : openVault.vault.config = some ⟨⟨9⟩, ⟨1⟩, 200, ⟨8⟩⟩ := by decide +kernel
  have hconfig' : (runAll (escrowStep sampleCodec) openVault
      ((escrowRun ⟨5⟩).take 1)).vault.config = some ⟨⟨9⟩, ⟨1⟩, 200, ⟨8⟩⟩ := by
    decide +kernel
  have hne : (⟨5⟩ : Address) ≠ ⟨1⟩ := by decide
  refine ⟨fun _ config hc => ?_, fun _ config hc => ?_, trivial⟩
  · obtain rfl := Option.some.inj (hconfig.symm.trans hc)
    exact hne
  · obtain rfl := Option.some.inj (hconfig'.symm.trans hc)
    exact hne

/-- In the asset of the vault the order and the bond each stop the withdrawal. -/
theorem escrowRun_blocks :
    (∃ s', withdraw vaultEnv ⟨2⟩ 500 openVault.vaultState = .ok (500, s')) ∧
      withdraw vaultEnv ⟨2⟩ 500
        (runAll (escrowStep sampleCodec) openVault ((escrowRun ⟨1⟩).take 1)).vaultState =
          .error .trap ∧
      withdraw vaultEnv ⟨2⟩ 500
        (runAll (escrowStep sampleCodec) openVault ((escrowRun ⟨1⟩).drop 1)).vaultState =
          .error .trap := by
  have hpaid : Prod.fst <$> withdraw vaultEnv ⟨2⟩ 500 openVault.vaultState = .ok 500 := by
    decide +kernel
  have horder : Prod.fst <$> withdraw vaultEnv ⟨2⟩ 500
      (runAll (escrowStep sampleCodec) openVault ((escrowRun ⟨1⟩).take 1)).vaultState =
        .error .trap := by
    decide +kernel
  have hbond : Prod.fst <$> withdraw vaultEnv ⟨2⟩ 500
      (runAll (escrowStep sampleCodec) openVault ((escrowRun ⟨1⟩).drop 1)).vaultState =
        .error .trap := by
    decide +kernel
  exact ⟨fst_map_eq_ok.mp hpaid, map_eq_error.mp horder, map_eq_error.mp hbond⟩

end Isolation

end StellarFlow.Combined
