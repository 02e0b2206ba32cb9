import StellarFlow.Bridge.Mint
import StellarFlow.Bridge.VaultLiveness

/-!
# Mints attested by validators

The validators attest that tokens were locked on another chain, and the wrapped asset that the
caller names is minted. The signatures are over the digest of an unlock, which names neither the
asset nor the operation, so an attestation is good for every registered asset and for the vault.
-/
namespace StellarFlow.Bridge

open Foundation

/-- The storage of the bridge. The rate limits of the native token are kept with the escrow and
those of the wrapped assets with their ledger. -/
structure BridgeStore where
  escrow : BridgeEscrow
  ledger : WrappedLedger

variable (crypto : BridgeCrypto) {here : Address} (env : BridgeEnv here)

/-- The attestation has the fields of an unlock. -/
def validateLockAndMint (assetCode : Symbol) (p : UnlockProof)
    (signatures : List (Bytes32 × Bytes64)) (b : BridgeStore) : Except Fault (ℤ × BridgeStore) := do
  failIf (p.amount.1 ≤ 0) (Fault.error .bridgeInvalidAmount)
  let config ← okOr (b.ledger.configs.lookup assetCode) (Fault.error .bridgeAssetNotRegistered)
  let relayer ← verifyCrossChainPayload crypto p signatures b.escrow.relayer
  let (newSupply, ledger) ←
    mintForBridge env config.controller assetCode p.recipient p.amount b.ledger
  pure (newSupply, { escrow := { b.escrow with relayer }, ledger })

inductive BridgeCall where
  | relayer (call : RelayerCall)
  | wrapped (call : MintCall)
  | escrow (call : EscrowCall)
  | validateLockAndMint (assetCode : Symbol) (p : UnlockProof)
      (signatures : List (Bytes32 × Bytes64))

def BridgeCall.exec (b : BridgeStore) : BridgeCall → Except Fault BridgeStore
  | relayer call => do
    let relayer ← call.exec crypto env b.escrow.relayer
    pure { b with escrow := { b.escrow with relayer } }
  | wrapped call => do
    let ledger ← call.exec env b.ledger
    pure { b with ledger }
  | escrow call => do
    let escrow ← call.exec (assertBalanceInvariant here) crypto env b.escrow
    pure { b with escrow }
  | validateLockAndMint assetCode p signatures =>
    Prod.snd <$> Bridge.validateLockAndMint crypto env assetCode p signatures b

def bridgeStep (i : BridgeEnv here × BridgeCall) (b : BridgeStore) : Except Fault BridgeStore :=
  i.2.exec crypto i.1 b

/-! ## What an attestation is good for -/

/-- The signatures pass the verification of a mint of the asset. -/
def MintVerified (assetCode : Symbol) (p : UnlockProof) (signatures : List (Bytes32 × Bytes64))
    (b : BridgeStore) : Prop :=
  0 < p.amount.1 ∧ (b.ledger.configs.lookup assetCode).isSome = true ∧
    ∃ relayer, verifyCrossChainPayload crypto p signatures b.escrow.relayer = .ok relayer

/-- The signatures pass the verification of a release from the vault. -/
def UnlockVerified (p : UnlockProof) (signatures : List (Bytes32 × Bytes64)) (b : BridgeStore) :
    Prop :=
  0 < p.amount.1 ∧
    ∃ relayer, verifyCrossChainPayload crypto p signatures b.escrow.relayer = .ok relayer

/-- An attestation that mints one asset is good for no other asset and for no release. -/
def AttestationBound (assetCode : Symbol) (p : UnlockProof)
    (signatures : List (Bytes32 × Bytes64)) (b : BridgeStore) : Prop :=
  (∃ r, validateLockAndMint crypto env assetCode p signatures b = .ok r) →
    (∀ other, other ≠ assetCode → ¬ MintVerified crypto other p signatures b) ∧
      ¬ UnlockVerified crypto p signatures b

variable {crypto env} {assetCode other : Symbol} {p : UnlockProof}
  {signatures : List (Bytes32 × Bytes64)} {b b' : BridgeStore} {supply : ℤ}

/-- A mint by attestation is accepted exactly when the signatures pass and the ledger mints. -/
theorem validateLockAndMint_eq_ok :
    validateLockAndMint crypto env assetCode p signatures b = .ok (supply, b') ↔
      0 < p.amount.1 ∧ ∃ config relayer ledger,
        b.ledger.configs.lookup assetCode = some config ∧
        verifyCrossChainPayload crypto p signatures b.escrow.relayer = .ok relayer ∧
        mintForBridge env config.controller assetCode p.recipient p.amount b.ledger =
          .ok (supply, ledger) ∧
        b' = { escrow := { b.escrow with relayer }, ledger } := by
  constructor
  · intro h
    obtain ⟨_, hpos, h⟩ := bind_eq_ok.mp h
    obtain ⟨config, hconfig, h⟩ := bind_eq_ok.mp h
    obtain ⟨relayer, hverify, h⟩ := bind_eq_ok.mp h
    obtain ⟨⟨_, ledger⟩, hmint, hwrite⟩ := bind_eq_ok.mp h
    obtain ⟨rfl, rfl⟩ := Prod.mk.inj (pure_eq_ok.mp hwrite)
    rw [failIf_eq_ok, not_le] at hpos
    exact ⟨hpos, config, relayer, ledger, okOr_eq_ok.mp hconfig, hverify, hmint, rfl⟩
  · rintro ⟨hpos, config, relayer, ledger, hconfig, hverify, hmint, rfl⟩
    rw [validateLockAndMint, failIf_of_not (not_le.mpr hpos), hconfig]
    exact bind_eq_ok.mpr ⟨(), rfl, bind_eq_ok.mpr ⟨config, rfl,
      bind_eq_ok.mpr ⟨relayer, hverify, bind_eq_ok.mpr ⟨(supply, ledger), hmint, rfl⟩⟩⟩⟩

/-- The signatures of an accepted mint pass the verification for every registered asset and for a
release from the vault: whether a mint of another asset is accepted is left to the ledger. -/
theorem attestation_never_bound
    (h : validateLockAndMint crypto env assetCode p signatures b = .ok (supply, b')) :
    ¬ AttestationBound crypto env assetCode p signatures b ∧
      UnlockVerified crypto p signatures b ∧
      ∀ other config, b.ledger.configs.lookup other = some config →
        MintVerified crypto other p signatures b ∧
          ((∃ r, validateLockAndMint crypto env other p signatures b = .ok r) ↔
            ∃ r, mintForBridge env config.controller other p.recipient p.amount b.ledger =
              .ok r) := by
  obtain ⟨hpos, -, relayer, -, -, hverify, -⟩ := validateLockAndMint_eq_ok.mp h
  have hunlock : UnlockVerified crypto p signatures b := ⟨hpos, relayer, hverify⟩
  refine ⟨fun hbound => (hbound ⟨_, h⟩).2 hunlock, hunlock, fun other config hconfig => ?_⟩
  refine ⟨⟨hpos, by rw [hconfig]; rfl, relayer, hverify⟩, ?_, ?_⟩
  · rintro ⟨⟨r, b''⟩, hother⟩
    obtain ⟨-, config', -, ledger, hconfig', -, hmint, -⟩ := validateLockAndMint_eq_ok.mp hother
    obtain rfl := Option.some.inj (hconfig.symm.trans hconfig')
    exact ⟨(r, ledger), hmint⟩
  · rintro ⟨⟨r, ledger⟩, hmint⟩
    exact ⟨_, validateLockAndMint_eq_ok.mpr
      ⟨hpos, config, relayer, ledger, hconfig, hverify, hmint, rfl⟩⟩

section Sample

/-- Two wrapped assets, one validator, and 100 native tokens in the vault. -/
def attestedRun : List (BridgeEnv ⟨0⟩ × BridgeCall) :=
  [(sampleBridgeEnv, .wrapped (.registerWrappedAsset ⟨1⟩ ⟨5⟩ ⟨2⟩ 1000)),
    (sampleBridgeEnv, .wrapped (.registerWrappedAsset ⟨1⟩ ⟨6⟩ ⟨2⟩ 1000)),
    (sampleBridgeEnv, .relayer (.configureThreshold ⟨1⟩ 1)),
    (sampleBridgeEnv, .relayer (.addValidator ⟨1⟩ sampleKey)),
    (sampleBridgeEnv, .escrow (.lockTokens ⟨3⟩ 100 1 ⟨4⟩))]

def attestedBridge : BridgeStore :=
  runAll (bridgeStep sampleCrypto)
    ⟨.configured sampleEscrowConfig ⟨none, ∅, ∅, ∅⟩ .empty sampleTokens, .deployed .empty⟩
    attestedRun

def sampleSignatures : List (Bytes32 × Bytes64) := [(sampleKey, Vector.replicate 64 5)]

theorem exists_of_isOk {α ε : Type} {x : Except ε α} (h : x.isOk = true) : ∃ r, x = .ok r := by
  cases x with
  | ok r => exact ⟨r, rfl⟩
  | error e => cases h

/-- The attestation of a mint of one asset mints another one and empties the vault. -/
theorem sampleAttestation_reused :
    ¬ AttestationBound sampleCrypto sampleBridgeEnv ⟨5⟩ sampleProof sampleSignatures
        attestedBridge ∧
      (validateLockAndMint sampleCrypto sampleBridgeEnv ⟨5⟩ sampleProof sampleSignatures
        attestedBridge).isOk = true ∧
      (validateLockAndMint sampleCrypto sampleBridgeEnv ⟨6⟩ sampleProof sampleSignatures
        attestedBridge).isOk = true ∧
      (unlockTokens (assertBalanceInvariant ⟨0⟩) sampleCrypto sampleBridgeEnv sampleProof
        sampleSignatures attestedBridge.escrow).isOk = true := by
  refine ⟨fun hbound => ?_, by decide +kernel, by decide +kernel, by decide +kernel⟩
  have haccepted := exists_of_isOk (x := validateLockAndMint sampleCrypto sampleBridgeEnv ⟨5⟩
    sampleProof sampleSignatures attestedBridge) (by decide +kernel)
  refine (hbound haccepted).2 ⟨by decide +kernel, exists_of_isOk ?_⟩
  decide +kernel

theorem sampleAttestation_unbound :
    ∃ supply b', validateLockAndMint sampleCrypto sampleBridgeEnv ⟨5⟩ sampleProof
        sampleSignatures attestedBridge = .ok (supply, b') ∧
      UnlockVerified sampleCrypto sampleProof sampleSignatures attestedBridge := by
  obtain ⟨⟨supply, b'⟩, h⟩ := exists_of_isOk (x := validateLockAndMint sampleCrypto
    sampleBridgeEnv ⟨5⟩ sampleProof sampleSignatures attestedBridge) (by decide +kernel)
  exact ⟨supply, b', h, (attestation_never_bound h).2.1⟩

end Sample

end StellarFlow.Bridge
