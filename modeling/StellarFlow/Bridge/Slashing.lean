import StellarFlow.Bridge.Relayer

/-!
# Slashing of validators that sign twice

Validators stake collateral under their keys. Two valid signatures of a registered key over
different payloads of one nonce take its whole collateral, unregister it and ban it for good.
-/
namespace StellarFlow.Bridge

open Foundation

structure AttestationPayload where
  proofHash : Bytes32
  recipient : Address
  amount : i128.Value
  deriving DecidableEq

/-- Two attestations of one validator for the same nonce of a chain. -/
structure DoubleSignProof where
  validator : Bytes32
  sourceChainId : UInt32
  nonce : UInt64
  payload1 : AttestationPayload
  signature1 : Bytes64
  payload2 : AttestationPayload
  signature2 : Bytes64

/-- The message that a payload of the proof stands for. -/
def DoubleSignProof.message (proof : DoubleSignProof) (payload : AttestationPayload) :
    UnlockProof :=
  ⟨payload.proofHash, proof.sourceChainId, proof.nonce, payload.recipient, payload.amount⟩

/-- The relayer, which keeps the banned keys, with the collateral staked and slashed. -/
structure SlashingStore where
  relayer : Relayer
  collateral : Store Bytes32 ℤ
  totalSlashed : ℤ

namespace SlashingStore

def deployed : SlashingStore := ⟨⟨none, ∅, ∅, ∅⟩, ∅, 0⟩

def getValidatorCollateral (validator : Bytes32) (s : SlashingStore) : ℤ :=
  (s.collateral.lookup validator).getD 0

end SlashingStore

variable (crypto : BridgeCrypto)

def stakeValidatorCollateral (validator : Bytes32) (amount : i128.Value) (s : SlashingStore) :
    Except Fault SlashingStore := do
  failIf (amount.1 ≤ 0) (Fault.error .invalidStakeAmount)
  failIf (validator ∈ s.relayer.banned) (Fault.error .unauthorized)
  failIf (validator ∉ s.relayer.validators) (Fault.error .notRegistered)
  let newStake ← okOr (i128.check (s.getValidatorCollateral validator + amount))
    (Fault.error .overflow)
  pure { s with collateral := s.collateral.insert validator newStake }

def processDoubleSignProof (proof : DoubleSignProof) (s : SlashingStore) :
    Except Fault (ℤ × SlashingStore) := do
  failIf (proof.validator ∈ s.relayer.banned) (Fault.error .unauthorized)
  failIf (proof.validator ∉ s.relayer.validators) (Fault.error .notRegistered)
  failIf (proof.payload1 = proof.payload2) (Fault.error .invalidArgument)
  let digest1 := bridgeMessageDigest crypto (proof.message proof.payload1)
  let digest2 := bridgeMessageDigest crypto (proof.message proof.payload2)
  failIf (digest1 = digest2) (Fault.error .invalidArgument)
  failIf (¬ crypto.ed25519Verify proof.validator digest1.toList proof.signature1) Fault.trap
  failIf (¬ crypto.ed25519Verify proof.validator digest2.toList proof.signature2) Fault.trap
  let stakedAmount := s.getValidatorCollateral proof.validator
  let newTotal ← okOr (i128.check (s.totalSlashed + stakedAmount)) (Fault.error .overflow)
  pure (stakedAmount,
    { relayer := { s.relayer with
        validators := s.relayer.validators.erase proof.validator
        banned := insert proof.validator s.relayer.banned }
      collateral := s.collateral.insert proof.validator 0
      totalSlashed := newTotal })

/-! ## One call -/

section Effects

variable {crypto} {s s' : SlashingStore} {proof : DoubleSignProof} {validator : Bytes32}
  {amount : i128.Value} {r : ℤ}

/-- Both signatures of the proof are valid, over different payloads. -/
structure DoubleSignProof.Valid (crypto : BridgeCrypto) (proof : DoubleSignProof) : Prop where
  conflicting : proof.payload1 ≠ proof.payload2
  signature1 : crypto.ed25519Verify proof.validator
    (bridgeMessageDigest crypto (proof.message proof.payload1)).toList proof.signature1 = true
  signature2 : crypto.ed25519Verify proof.validator
    (bridgeMessageDigest crypto (proof.message proof.payload2)).toList proof.signature2 = true

/-- The values that the proof hashes do not collide. -/
def DoubleSignProof.CollisionFree (crypto : BridgeCrypto) (proof : DoubleSignProof) : Prop :=
  Set.InjOn crypto.sha256 {bridgePayload crypto (proof.message proof.payload1),
    bridgePayload crypto (proof.message proof.payload2),
    crypto.xdr proof.payload1.recipient, crypto.xdr proof.payload2.recipient}

/-- Without a collision, different payloads have different digests. -/
theorem DoubleSignProof.digest_ne (hxdr : Function.Injective crypto.xdr)
    (hsha : proof.CollisionFree crypto) (h : proof.payload1 ≠ proof.payload2) :
    bridgeMessageDigest crypto (proof.message proof.payload1) ≠
      bridgeMessageDigest crypto (proof.message proof.payload2) := by
  intro hdigest
  have hmessage := bridgeMessageDigest_inj hxdr hsha hdigest
  rw [message, message, UnlockProof.mk.injEq] at hmessage
  obtain ⟨hproof, -, -, hrecipient, hamount⟩ := hmessage
  refine h ?_
  rw [AttestationPayload.mk.injEq]
  exact ⟨hproof, hrecipient, hamount⟩

/-- The state after the whole collateral of a key was slashed. -/
def SlashingStore.slashed (validator : Bytes32) (s : SlashingStore) : SlashingStore where
  relayer := { s.relayer with
    validators := s.relayer.validators.erase validator
    banned := insert validator s.relayer.banned }
  collateral := s.collateral.insert validator 0
  totalSlashed := s.totalSlashed + s.getValidatorCollateral validator

/-- The collateral staked under all keys. -/
def SlashingStore.totalCollateral (s : SlashingStore) : ℤ :=
  Store.total (fun _ stake => stake) s.collateral

theorem SlashingStore.part_eq (validator : Bytes32) (s : SlashingStore) :
    Store.part (fun _ stake => stake) s.collateral validator =
      s.getValidatorCollateral validator := by
  rw [Store.part, getValidatorCollateral]
  cases s.collateral.lookup validator <;> rfl

theorem SlashingStore.totalCollateral_insert (s : SlashingStore) (validator : Bytes32) (v : ℤ) :
    Store.total (fun _ stake => stake) (s.collateral.insert validator v) +
      s.getValidatorCollateral validator = s.totalCollateral + v := by
  have hinsert := Store.total_insert (fun (_ : Bytes32) (stake : ℤ) => stake) s.collateral
    validator v
  rwa [part_eq] at hinsert

theorem stakeValidatorCollateral_eq_ok
    (h : stakeValidatorCollateral validator amount s = .ok s') :
    s'.relayer = s.relayer ∧ s'.totalSlashed = s.totalSlashed ∧
      s'.totalCollateral = s.totalCollateral + amount := by
  rw [stakeValidatorCollateral] at h
  obtain ⟨_, -, h⟩ := bind_eq_ok.mp h
  obtain ⟨_, -, h⟩ := bind_eq_ok.mp h
  obtain ⟨_, -, h⟩ := bind_eq_ok.mp h
  obtain ⟨stake, hstake, h⟩ := bind_eq_ok.mp h
  obtain ⟨-, rfl⟩ := IntRange.check_eq_some.mp (okOr_eq_ok.mp hstake)
  obtain rfl := pure_eq_ok.mp h
  refine ⟨rfl, rfl, ?_⟩
  have hinsert := s.totalCollateral_insert validator (s.getValidatorCollateral validator + amount)
  rw [SlashingStore.totalCollateral]
  dsimp only
  omega

theorem processDoubleSignProof_eq_ok
    (h : processDoubleSignProof crypto proof s = .ok (r, s')) :
    s' = s.slashed proof.validator := by
  rw [processDoubleSignProof] at h
  obtain ⟨_, -, h⟩ := bind_eq_ok.mp h
  obtain ⟨_, -, h⟩ := bind_eq_ok.mp h
  obtain ⟨_, -, h⟩ := bind_eq_ok.mp h
  obtain ⟨_, -, h⟩ := bind_eq_ok.mp h
  obtain ⟨_, -, h⟩ := bind_eq_ok.mp h
  obtain ⟨_, -, h⟩ := bind_eq_ok.mp h
  obtain ⟨total, htotal, h⟩ := bind_eq_ok.mp h
  obtain ⟨-, rfl⟩ := IntRange.check_eq_some.mp (okOr_eq_ok.mp htotal)
  obtain ⟨-, rfl⟩ := Prod.mk.inj (pure_eq_ok.mp h)
  rfl

theorem SlashingStore.slashed_totals (s : SlashingStore) (validator : Bytes32) :
    (s.slashed validator).totalCollateral + (s.slashed validator).totalSlashed =
      s.totalCollateral + s.totalSlashed := by
  have hinsert := s.totalCollateral_insert validator 0
  rw [totalCollateral, slashed]
  dsimp only
  omega

/-- A valid proof against a registered key is accepted and takes all of its collateral. -/
theorem processDoubleSignProof_of_valid (hxdr : Function.Injective crypto.xdr)
    (hvalid : proof.Valid crypto) (hsha : proof.CollisionFree crypto)
    (hbanned : proof.validator ∉ s.relayer.banned)
    (hregistered : proof.validator ∈ s.relayer.validators)
    (hfits : i128.Fits (s.totalSlashed + s.getValidatorCollateral proof.validator)) :
    processDoubleSignProof crypto proof s =
      .ok (s.getValidatorCollateral proof.validator, s.slashed proof.validator) := by
  have hdigest := DoubleSignProof.digest_ne hxdr hsha hvalid.conflicting
  rw [processDoubleSignProof, failIf_of_not hbanned, failIf_of_not (not_not.mpr hregistered),
    failIf_of_not hvalid.conflicting]
  dsimp only
  rw [failIf_of_not hdigest, failIf_of_not (not_not.mpr hvalid.signature1),
    failIf_of_not (not_not.mpr hvalid.signature2), hfits.check_eq]
  rfl

/-- A key that is not registered any more is not slashed, whatever it signed. -/
theorem processDoubleSignProof_of_notRegistered
    (hbanned : proof.validator ∉ s.relayer.banned)
    (hremoved : proof.validator ∉ s.relayer.validators) :
    processDoubleSignProof crypto proof s = .error (Fault.error .notRegistered) := by
  rw [processDoubleSignProof, failIf_of_not hbanned, failIf, if_pos hremoved]
  rfl

/-! ## Banned keys in the list of signatures -/

/-- Entries of keys that are not registered are passed over. -/
theorem countSignatures_filter {threshold : ℕ} {validators : Finset Bytes32} {digest : Bytes32}
    (keep : Bytes32 → Bool) (hkeep : ∀ pubkey ∈ validators, keep pubkey = true)
    (signatures : List (Bytes32 × Bytes64)) (seen : Finset Bytes32) (count : ℕ) :
    countSignatures crypto threshold validators digest
        (signatures.filter fun entry => keep entry.1) seen count =
      countSignatures crypto threshold validators digest signatures seen count := by
  induction signatures generalizing seen count with
  | nil => rfl
  | cons entry signatures ih =>
    obtain ⟨pubkey, signature⟩ := entry
    rw [List.filter_cons]
    split_ifs with hkept
    · simp only [countSignatures, ih]
    · have hunregistered : pubkey ∉ validators := fun hmem => hkept (hkeep pubkey hmem)
      rw [ih, countSignatures, if_pos hunregistered]

theorem countSignatures_le {threshold count r : ℕ} {validators seen : Finset Bytes32}
    {digest : Bytes32} {signatures : List (Bytes32 × Bytes64)}
    (h : countSignatures crypto threshold validators digest signatures seen count = .ok r) :
    r ≤ count + signatures.length := by
  induction signatures generalizing seen count with
  | nil =>
    obtain rfl := pure_eq_ok.mp h
    exact Nat.le_add_right _ _
  | cons entry signatures ih =>
    obtain ⟨pubkey, signature⟩ := entry
    rw [List.length_cons]
    rw [countSignatures] at h
    split_ifs at h
    · have hrest := ih h
      omega
    · obtain ⟨_, -, h⟩ := bind_eq_ok.mp h
      dsimp only at h
      split_ifs at h
      · obtain rfl := pure_eq_ok.mp h
        omega
      · have hrest := ih h
        omega
    · have hrest := ih h
      omega

/-- An accepted unlock needs no entry of a key that is not registered. -/
theorem verifyCrossChainPayload_filter {r r' : Relayer} {p : UnlockProof}
    {signatures : List (Bytes32 × Bytes64)} (keep : Bytes32 → Bool)
    (hkeep : ∀ pubkey ∈ r.validators, keep pubkey = true)
    (h : verifyCrossChainPayload crypto p signatures r = .ok r') :
    verifyCrossChainPayload crypto p (signatures.filter fun entry => keep entry.1) r = .ok r' := by
  rw [verifyCrossChainPayload] at h ⊢
  obtain ⟨_, hamount, h⟩ := bind_eq_ok.mp h
  obtain ⟨_, hzero, h⟩ := bind_eq_ok.mp h
  obtain ⟨_, -, h⟩ := bind_eq_ok.mp h
  obtain ⟨_, hfresh, h⟩ := bind_eq_ok.mp h
  obtain ⟨count, hcount, h⟩ := bind_eq_ok.mp h
  obtain ⟨_, henough, hwrite⟩ := bind_eq_ok.mp h
  rw [← countSignatures_filter keep hkeep] at hcount
  have hlength := countSignatures_le hcount
  rw [failIf_eq_ok, not_lt] at henough
  refine bind_eq_ok.mpr ⟨_, hamount, bind_eq_ok.mpr ⟨_, hzero, bind_eq_ok.mpr ⟨(), ?_, ?_⟩⟩⟩
  · rw [failIf_eq_ok, not_lt]
    omega
  · refine bind_eq_ok.mpr ⟨_, hfresh, bind_eq_ok.mpr ⟨count, hcount, ?_⟩⟩
    refine bind_eq_ok.mpr ⟨(), ?_, hwrite⟩
    rwa [failIf_eq_ok, not_lt]

end Effects

/-! ## Runs -/

/-- The state with all collateral that was ever staked. -/
structure SlashingHistory where
  store : SlashingStore
  staked : ℤ

inductive SlashingCall where
  | relayer (call : RelayerCall)
  | stakeValidatorCollateral (validator : Bytes32) (amount : i128.Value)
  | processDoubleSignProof (proof : DoubleSignProof)

section Runs

variable {here : Address}

def SlashingCall.exec (env : BridgeEnv here) (s : SlashingStore) :
    SlashingCall → Except Fault SlashingStore
  | relayer call => do
    let relayer ← call.exec crypto env s.relayer
    pure { s with relayer }
  | stakeValidatorCollateral validator amount =>
    Bridge.stakeValidatorCollateral validator amount s
  | processDoubleSignProof proof => Prod.snd <$> Bridge.processDoubleSignProof crypto proof s

/-- The collateral that an accepted call stakes. -/
def SlashingCall.stakes : SlashingCall → ℤ
  | stakeValidatorCollateral _ amount => amount
  | _ => 0

def slashingStep (i : BridgeEnv here × SlashingCall) (h : SlashingHistory) :
    Except Fault SlashingHistory := do
  let store ← i.2.exec crypto i.1 h.store
  pure ⟨store, h.staked + i.2.stakes⟩

/-- No key is both banned and registered. -/
def BannedApart (h : SlashingHistory) : Prop :=
  Disjoint h.store.relayer.banned h.store.relayer.validators

/-- What is staked under the keys and what was slashed add up to what was ever staked. -/
def CollateralAccounted (h : SlashingHistory) : Prop :=
  h.store.totalCollateral + h.store.totalSlashed = h.staked

/-- The signatures of banned keys count for nothing: an accepted unlock is accepted without
them. -/
def BannedUncounted (h : SlashingHistory) (i : BridgeEnv here × SlashingCall) : Prop :=
  ∀ p signatures, i.2 = .relayer (.verifyCrossChainPayload p signatures) →
    ∀ h', slashingStep crypto i h = .ok h' →
      verifyCrossChainPayload crypto p
          (signatures.filter fun entry => entry.1 ∉ h.store.relayer.banned) h.store.relayer =
        .ok h'.store.relayer

/-- A proof of two valid signatures is accepted, takes the whole collateral and bans the key. -/
def Punished (proof : DoubleSignProof) (s : SlashingStore) : Prop :=
  ∃ s', processDoubleSignProof crypto proof s =
      .ok (s.getValidatorCollateral proof.validator, s') ∧
    s'.getValidatorCollateral proof.validator = 0 ∧
    s'.totalSlashed = s.totalSlashed + s.getValidatorCollateral proof.validator ∧
    proof.validator ∈ s'.relayer.banned ∧ proof.validator ∉ s'.relayer.validators

/-- Every key with collateral that is not banned would be punished for signing twice. -/
def AlwaysPunished (h : SlashingHistory) : Prop :=
  ∀ proof : DoubleSignProof, proof.Valid crypto → proof.CollisionFree crypto →
    proof.validator ∉ h.store.relayer.banned →
    0 < h.store.getValidatorCollateral proof.validator → Punished crypto proof h.store

/-- The same for keys that are still registered, as long as the tally of slashed collateral can
hold theirs. The proof against a key that is not registered is refused. -/
def RegisteredPunished (h : SlashingHistory) : Prop :=
  ∀ proof : DoubleSignProof, proof.Valid crypto → proof.CollisionFree crypto →
    proof.validator ∉ h.store.relayer.banned →
    0 < h.store.getValidatorCollateral proof.validator →
    (proof.validator ∈ h.store.relayer.validators →
      i128.Fits (h.store.totalSlashed + h.store.getValidatorCollateral proof.validator) →
        Punished crypto proof h.store) ∧
    (proof.validator ∉ h.store.relayer.validators →
      processDoubleSignProof crypto proof h.store = .error (Fault.error .notRegistered))

variable {crypto} {h h' : SlashingHistory} {env : BridgeEnv here}
  {i : BridgeEnv here × SlashingCall} {r r' : Relayer}

/-- The calls of the relayer ban nobody and register no banned key. -/
theorem RelayerCall.exec_banned {call : RelayerCall} (h0 : call.exec crypto env r = .ok r') :
    r'.banned = r.banned ∧
      ∀ pubkey ∈ r'.validators, pubkey ∈ r.validators ∨ pubkey ∉ r.banned := by
  cases call with
  | configureThreshold admin threshold =>
    obtain ⟨_, -, h0⟩ := bind_eq_ok.mp h0
    obtain ⟨_, -, h0⟩ := bind_eq_ok.mp h0
    obtain rfl := pure_eq_ok.mp h0
    exact ⟨rfl, fun _ hmem => .inl hmem⟩
  | addValidator admin pubkey =>
    obtain ⟨_, -, h0⟩ := bind_eq_ok.mp h0
    obtain ⟨_, hbanned, h0⟩ := bind_eq_ok.mp h0
    obtain ⟨_, -, h0⟩ := bind_eq_ok.mp h0
    obtain rfl := pure_eq_ok.mp h0
    rw [failIf_eq_ok] at hbanned
    refine ⟨rfl, fun key hmem => ?_⟩
    obtain rfl | hold := Finset.mem_insert.mp hmem
    · exact .inr hbanned
    · exact .inl hold
  | removeValidator admin pubkey =>
    obtain ⟨_, -, h0⟩ := bind_eq_ok.mp h0
    obtain ⟨_, -, h0⟩ := bind_eq_ok.mp h0
    obtain rfl := pure_eq_ok.mp h0
    exact ⟨rfl, fun _ hmem => .inl (Finset.mem_of_mem_erase hmem)⟩
  | verifyCrossChainPayload p signatures =>
    obtain ⟨-, -, rfl⟩ := verifyCrossChainPayload_eq_ok h0
    exact ⟨rfl, fun _ hmem => .inl hmem⟩

theorem slashingStep_eq_ok :
    slashingStep crypto i h = .ok h' ↔
      ∃ store, i.2.exec crypto i.1 h.store = .ok store ∧
        h' = ⟨store, h.staked + i.2.stakes⟩ := by
  rw [slashingStep, bind_eq_ok]
  simp only [pure_eq_ok]
  exact exists_congr fun _ => and_congr_right fun _ => eq_comm

/-- What every call keeps. -/
structure SlashingInvariant (h : SlashingHistory) : Prop where
  apart : BannedApart h
  accounted : CollateralAccounted h

theorem SlashingInvariant.step (hi : SlashingInvariant h)
    (h0 : slashingStep crypto i h = .ok h') : SlashingInvariant h' := by
  obtain ⟨store, hexec, rfl⟩ := slashingStep_eq_ok.mp h0
  obtain ⟨env, call⟩ := i
  have hapart := hi.apart
  have haccounted := hi.accounted
  rw [BannedApart] at hapart
  rw [CollateralAccounted] at haccounted
  cases call with
  | relayer call =>
    obtain ⟨relayer, hrelayer, h0⟩ := bind_eq_ok.mp hexec
    obtain rfl := pure_eq_ok.mp h0
    obtain ⟨hbanned, hvalidators⟩ := RelayerCall.exec_banned hrelayer
    constructor
    · refine Finset.disjoint_left.mpr fun pubkey hmem hregistered => ?_
      dsimp only at hmem hregistered
      rw [hbanned] at hmem
      obtain hold | hfree := hvalidators pubkey hregistered
      · exact Finset.disjoint_left.mp hapart hmem hold
      · exact hfree hmem
    · exact haccounted.trans (add_zero _).symm
  | stakeValidatorCollateral validator amount =>
    obtain ⟨hrelayer, hslashed, htotal⟩ := stakeValidatorCollateral_eq_ok hexec
    constructor
    · rw [BannedApart, hrelayer]
      exact hapart
    · rw [CollateralAccounted, hslashed, htotal, SlashingCall.stakes, ← haccounted]
      dsimp only
      omega
  | processDoubleSignProof proof =>
    obtain ⟨r, hprocess⟩ := snd_map_eq_ok.mp hexec
    obtain rfl := processDoubleSignProof_eq_ok hprocess
    constructor
    · refine Finset.disjoint_left.mpr fun pubkey hmem hregistered => ?_
      obtain ⟨hne, hold⟩ := Finset.mem_erase.mp hregistered
      obtain rfl | hbanned := Finset.mem_insert.mp hmem
      · exact hne rfl
      · exact Finset.disjoint_left.mp hapart hbanned hold
    · rw [CollateralAccounted, SlashingStore.slashed_totals, haccounted]
      exact (add_zero _).symm

theorem SlashingInvariant.bannedUncounted (hi : SlashingInvariant h)
    (i : BridgeEnv here × SlashingCall) : BannedUncounted crypto h i := by
  rintro p signatures hcall h' h0
  obtain ⟨store, hexec, rfl⟩ := slashingStep_eq_ok.mp h0
  rw [hcall] at hexec
  obtain ⟨relayer, hverify, h0⟩ := bind_eq_ok.mp hexec
  obtain rfl := pure_eq_ok.mp h0
  refine verifyCrossChainPayload_filter (fun pubkey => decide (pubkey ∉ h.store.relayer.banned))
    (fun pubkey hregistered => ?_) hverify
  exact decide_eq_true (Finset.disjoint_right.mp hi.apart hregistered)

theorem registeredPunished (hxdr : Function.Injective crypto.xdr) (h : SlashingHistory) :
    RegisteredPunished crypto h := by
  intro proof hvalid hsha hbanned _
  refine ⟨fun hregistered hfits => ?_, processDoubleSignProof_of_notRegistered hbanned⟩
  refine ⟨h.store.slashed proof.validator,
    processDoubleSignProof_of_valid hxdr hvalid hsha hbanned hregistered hfits, ?_, rfl,
    Finset.mem_insert_self _ _, Finset.notMem_erase _ _⟩
  rw [SlashingStore.getValidatorCollateral, SlashingStore.slashed]
  dsimp only
  rw [Finmap.lookup_insert, Option.getD_some]

/-- In every run, banned keys are unregistered and their signatures count for nothing, no
collateral is lost, and two valid signatures cost a registered key its whole collateral. -/
theorem slashing_throughout (hxdr : Function.Injective crypto.xdr)
    (run : List (BridgeEnv here × SlashingCall)) :
    Throughout (slashingStep crypto)
        (fun h => BannedApart h ∧ CollateralAccounted h ∧ RegisteredPunished crypto h)
        ⟨SlashingStore.deployed, 0⟩ run ∧
      Along (slashingStep crypto) (BannedUncounted crypto) ⟨SlashingStore.deployed, 0⟩ run := by
  have hstep : ∀ h (i : BridgeEnv here × SlashingCall) h', SlashingInvariant h →
      slashingStep crypto i h = .ok h' → SlashingInvariant h' := fun _ _ _ hi h0 => hi.step h0
  have hstart : SlashingInvariant ⟨SlashingStore.deployed, 0⟩ := ⟨disjoint_bot_left, rfl⟩
  exact ⟨throughout_of_invariant hstep
      (fun h hi => ⟨hi.apart, hi.accounted, registeredPunished hxdr h⟩) hstart run,
    along_of_invariant hstep (fun _ i hi => hi.bannedUncounted i) hstart run⟩

end Runs

section Sample

/-- Every byte of a message enters its sample hash. -/
def mixingCrypto : BridgeCrypto :=
  { sampleCrypto with
    sha256 := fun bytes => Vector.replicate 32 (bytes.foldl (fun acc b => 3 * acc + b + 1) 0) }

theorem mixingCrypto_xdr : Function.Injective mixingCrypto.xdr := sampleCrypto_xdr

/-- One validator attests two payloads for the nonce 100 of chain 1. -/
def sampleDoubleSign : DoubleSignProof where
  validator := sampleKey
  sourceChainId := 1
  nonce := 100
  payload1 := ⟨Vector.replicate 32 1, ⟨4⟩, units 1000⟩
  signature1 := Vector.replicate 64 5
  payload2 := ⟨Vector.replicate 32 2, ⟨6⟩, units 2000⟩
  signature2 := Vector.replicate 64 5

theorem sampleDoubleSign_valid : sampleDoubleSign.Valid mixingCrypto := by
  constructor <;> decide +kernel

theorem sampleDoubleSign_collisionFree : sampleDoubleSign.CollisionFree mixingCrypto := by
  intro x hx y hy hxy
  simp only [Set.mem_insert_iff, Set.mem_singleton_iff] at hx hy
  rcases hx with rfl | rfl | rfl | rfl <;> rcases hy with rfl | rfl | rfl | rfl <;>
    first | rfl | exact absurd hxy (by decide +kernel)

def stakedRun : List (BridgeEnv ⟨0⟩ × SlashingCall) :=
  [(sampleBridgeEnv, .relayer (.configureThreshold ⟨1⟩ 1)),
    (sampleBridgeEnv, .relayer (.addValidator ⟨1⟩ sampleKey)),
    (sampleBridgeEnv, .stakeValidatorCollateral sampleKey (units 5000))]

theorem stakedRun_slashing :
    Throughout (slashingStep mixingCrypto)
        (fun h => BannedApart h ∧ CollateralAccounted h ∧ RegisteredPunished mixingCrypto h)
        ⟨SlashingStore.deployed, 0⟩ stakedRun ∧
      Along (slashingStep mixingCrypto) (BannedUncounted mixingCrypto)
        ⟨SlashingStore.deployed, 0⟩ stakedRun :=
  slashing_throughout mixingCrypto_xdr stakedRun

/-- The validator is removed before the proof of its double signing arrives. -/
def removedRun : List (BridgeEnv ⟨0⟩ × SlashingCall) :=
  stakedRun ++ [(sampleBridgeEnv, .relayer (.removeValidator ⟨1⟩ sampleKey))]

/-- Another validator with the largest collateral was slashed before. -/
def exhaustedRun : List (BridgeEnv ⟨0⟩ × SlashingCall) :=
  stakedRun ++
    [(sampleBridgeEnv, .relayer (.addValidator ⟨1⟩ (Vector.replicate 32 7))),
      (sampleBridgeEnv, .stakeValidatorCollateral (Vector.replicate 32 7) (units (2 ^ 127 - 1))),
      (sampleBridgeEnv, .processDoubleSignProof
        { sampleDoubleSign with
          validator := Vector.replicate 32 7
          signature1 := Vector.replicate 64 7
          signature2 := Vector.replicate 64 7 })]

theorem not_alwaysPunished {h : SlashingHistory}
    (hbanned : sampleDoubleSign.validator ∉ h.store.relayer.banned)
    (hstaked : 0 < h.store.getValidatorCollateral sampleDoubleSign.validator)
    (hrefused : (processDoubleSignProof mixingCrypto sampleDoubleSign h.store).isOk = false) :
    ¬ AlwaysPunished mixingCrypto h := by
  intro hpunished
  obtain ⟨s', hprocess, -⟩ := hpunished sampleDoubleSign sampleDoubleSign_valid
    sampleDoubleSign_collisionFree hbanned hstaked
  rw [hprocess] at hrefused
  cases hrefused

theorem removed_validator_escapes :
    ¬ AlwaysPunished mixingCrypto
        (runAll (slashingStep mixingCrypto) ⟨SlashingStore.deployed, 0⟩ removedRun) ∧
      ¬ AlwaysPunished mixingCrypto
        (runAll (slashingStep mixingCrypto) ⟨SlashingStore.deployed, 0⟩ exhaustedRun) :=
  ⟨not_alwaysPunished (by decide +kernel) (by decide +kernel) (by decide +kernel),
    not_alwaysPunished (by decide +kernel) (by decide +kernel) (by decide +kernel)⟩

end Sample

end StellarFlow.Bridge
