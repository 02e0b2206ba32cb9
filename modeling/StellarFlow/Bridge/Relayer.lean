import StellarFlow.Bridge.RateLimit
import StellarFlow.Bytes
import StellarFlow.Orders.CommitReveal

/-!
# Bridge unlocks signed by validators

An unlock carries signatures of registered validators over a digest of its source chain, its
nonce, its proof, its recipient and its amount. It is accepted once for a nonce of a chain, with
as many different signers as the threshold asks for.
-/
namespace StellarFlow.Bridge

open Foundation
open Orders (toBeBytes toBeBytes_inj toBeBytes_length i128_value_inj)

abbrev Bytes64 := Vector UInt8 64

/-- The encoding of addresses, the hash function and the signature check of the host. -/
structure BridgeCrypto where
  xdr : Address → ByteString
  sha256 : ByteString → Bytes32
  /-- Whether the signature of the key over the message is valid; the host traps if not. -/
  ed25519Verify : Bytes32 → ByteString → Bytes64 → Bool

/-- What an unlock asks for. -/
structure UnlockProof where
  proofHash : Bytes32
  sourceChainId : UInt32
  nonce : UInt64
  recipient : Address
  amount : i128.Value
  deriving DecidableEq

structure Relayer where
  threshold : Option ℕ
  validators : Finset Bytes32
  spentNonces : Finset (UInt32 × UInt64)
  /-- Validators banned by slashing. -/
  banned : Finset Bytes32

/-- The text `stellarflow:bridge:unlock:v1`. -/
def unlockTag : ByteString :=
  [115, 116, 101, 108, 108, 97, 114, 102, 108, 111, 119, 58, 98, 114, 105, 100, 103, 101, 58, 117,
    110, 108, 111, 99, 107, 58, 118, 49]

variable (crypto : BridgeCrypto)

def bridgePayload (p : UnlockProof) : ByteString :=
  unlockTag ++ toBeBytes 4 p.sourceChainId.toNat ++ toBeBytes 8 p.nonce.toNat ++
    p.proofHash.toList ++ (crypto.sha256 (crypto.xdr p.recipient)).toList ++ toBeBytes 16 p.amount

def bridgeMessageDigest (p : UnlockProof) : Bytes32 := crypto.sha256 (bridgePayload crypto p)

/-- The loop over the signatures, with the validators seen and their number. -/
def countSignatures (threshold : ℕ) (validators : Finset Bytes32) (digest : Bytes32) :
    List (Bytes32 × Bytes64) → Finset Bytes32 → ℕ → Except Fault ℕ
  | [], _, validCount => pure validCount
  | (pubkey, signature) :: signatures, seenValidators, validCount =>
    if pubkey ∉ validators then
      countSignatures threshold validators digest signatures seenValidators validCount
    else if pubkey ∈ seenValidators then
      countSignatures threshold validators digest signatures seenValidators validCount
    else do
      failIf (¬ crypto.ed25519Verify pubkey digest.toList signature) Fault.trap
      let seenValidators := insert pubkey seenValidators
      let validCount := validCount + 1
      if threshold ≤ validCount then pure validCount
      else countSignatures threshold validators digest signatures seenValidators validCount

section Calls

variable {here : Address} (env : BridgeEnv here)

def configureThreshold (admin : Address) (threshold : ℕ) (r : Relayer) : Except Fault Relayer := do
  requireProtocolAdmin env admin
  failIf (threshold = 0) (Fault.error .invalidProof)
  pure { r with threshold := some threshold }

def addValidator (admin : Address) (pubkey : Bytes32) (r : Relayer) : Except Fault Relayer := do
  requireProtocolAdmin env admin
  failIf (pubkey ∈ r.banned) (Fault.error .unauthorized)
  failIf (pubkey ∈ r.validators) (Fault.error .alreadyRegistered)
  pure { r with validators := insert pubkey r.validators }

def removeValidator (admin : Address) (pubkey : Bytes32) (r : Relayer) : Except Fault Relayer := do
  requireProtocolAdmin env admin
  failIf (pubkey ∉ r.validators) (Fault.error .notRegistered)
  pure { r with validators := r.validators.erase pubkey }

def verifyCrossChainPayload (p : UnlockProof) (signatures : List (Bytes32 × Bytes64))
    (r : Relayer) : Except Fault Relayer := do
  failIf (p.amount.1 ≤ 0) (Fault.error .bridgeInvalidAmount)
  let threshold := r.threshold.getD 0
  failIf (threshold = 0) (Fault.error .invalidProof)
  failIf (signatures.length < threshold) (Fault.error .invalidProof)
  failIf ((p.sourceChainId, p.nonce) ∈ r.spentNonces) (Fault.error .invalidProof)
  let digest := bridgeMessageDigest crypto p
  let validCount ← countSignatures crypto threshold r.validators digest signatures ∅ 0
  failIf (validCount < threshold) (Fault.error .invalidProof)
  pure { r with spentNonces := insert (p.sourceChainId, p.nonce) r.spentNonces }

end Calls

/-! ## What the digest binds -/

section Digest

variable {crypto}

theorem uint32_inj {x y : UInt32} (h : toBeBytes 4 x.toNat = toBeBytes 4 y.toNat) : x = y := by
  have hmod := toBeBytes_inj h
  have hx := x.toNat_lt
  have hy := y.toNat_lt
  norm_num at hmod
  exact UInt32.toNat_inj.mp (by omega)

theorem uint64_inj {x y : UInt64} (h : toBeBytes 8 x.toNat = toBeBytes 8 y.toNat) : x = y := by
  have hmod := toBeBytes_inj h
  have hx := x.toNat_lt
  have hy := y.toNat_lt
  norm_num at hmod
  exact UInt64.toNat_inj.mp (by omega)

/-- The payload determines the message up to the hash of the recipient. -/
theorem bridgePayload_inj {p q : UnlockProof}
    (h : bridgePayload crypto p = bridgePayload crypto q) :
    p.sourceChainId = q.sourceChainId ∧ p.nonce = q.nonce ∧ p.proofHash = q.proofHash ∧
      crypto.sha256 (crypto.xdr p.recipient) = crypto.sha256 (crypto.xdr q.recipient) ∧
      p.amount = q.amount := by
  rw [bridgePayload, bridgePayload] at h
  obtain ⟨h, hamount⟩ := List.append_inj h (by simp)
  obtain ⟨h, hrecipient⟩ := List.append_inj h (by simp)
  obtain ⟨h, hproof⟩ := List.append_inj h (by simp)
  obtain ⟨h, hnonce⟩ := List.append_inj h (by simp)
  obtain ⟨-, hchain⟩ := List.append_inj h (by simp)
  exact ⟨uint32_inj hchain, uint64_inj hnonce, Vector.toList_inj.mp hproof,
    Vector.toList_inj.mp hrecipient, i128_value_inj hamount⟩

/-- Where the hash function has no collision, the digest determines the message. -/
theorem bridgeMessageDigest_inj (hxdr : Function.Injective crypto.xdr) {p q : UnlockProof}
    (hsha : Set.InjOn crypto.sha256 {bridgePayload crypto p, bridgePayload crypto q,
      crypto.xdr p.recipient, crypto.xdr q.recipient})
    (h : bridgeMessageDigest crypto p = bridgeMessageDigest crypto q) : p = q := by
  have hpayload := hsha (by simp) (by simp) h
  obtain ⟨hchain, hnonce, hproof, hrecipient, hamount⟩ := bridgePayload_inj hpayload
  have hrecipient' := hxdr (hsha (by simp) (by simp) hrecipient)
  cases p
  cases q
  simp_all

end Digest

/-! ## Counting signatures -/

section Counting

variable {crypto} {validators : Finset Bytes32} {digest : Bytes32} {threshold : ℕ}

/-- A registered validator with a valid signature in the list. -/
def Signs (crypto : BridgeCrypto) (validators : Finset Bytes32) (digest : Bytes32)
    (signatures : List (Bytes32 × Bytes64)) (pubkey : Bytes32) : Prop :=
  pubkey ∈ validators ∧ ∃ signature, (pubkey, signature) ∈ signatures ∧
    crypto.ed25519Verify pubkey digest.toList signature = true

theorem Signs.cons {signatures : List (Bytes32 × Bytes64)} {pubkey : Bytes32}
    (h : Signs crypto validators digest signatures pubkey) (entry : Bytes32 × Bytes64) :
    Signs crypto validators digest (entry :: signatures) pubkey := by
  obtain ⟨hregistered, signature, hmem, hverify⟩ := h
  exact ⟨hregistered, signature, List.mem_cons_of_mem _ hmem, hverify⟩

/-- The count is the number of different validators seen, each with a valid signature. -/
theorem countSignatures_eq_ok {signatures : List (Bytes32 × Bytes64)} {seen : Finset Bytes32}
    {count : ℕ}
    (h : countSignatures crypto threshold validators digest signatures seen seen.card =
      .ok count) :
    ∃ signers : Finset Bytes32, count = signers.card ∧
      ∀ pubkey ∈ signers, pubkey ∈ seen ∨ Signs crypto validators digest signatures pubkey := by
  induction signatures generalizing seen with
  | nil =>
    obtain rfl := pure_eq_ok.mp h
    exact ⟨seen, rfl, fun pubkey hmem => .inl hmem⟩
  | cons entry signatures ih =>
    obtain ⟨pubkey, signature⟩ := entry
    have hskip (h : countSignatures crypto threshold validators digest signatures seen seen.card =
        .ok count) : ∃ signers : Finset Bytes32, count = signers.card ∧
        ∀ key ∈ signers, key ∈ seen ∨
          Signs crypto validators digest ((pubkey, signature) :: signatures) key := by
      obtain ⟨signers, hcount, hsigners⟩ := ih h
      exact ⟨signers, hcount, fun key hkey => (hsigners key hkey).imp_right fun hs => hs.cons _⟩
    rw [countSignatures] at h
    split_ifs at h with hregistered hseen
    · exact hskip h
    · obtain ⟨_, hverify, h⟩ := bind_eq_ok.mp h
      rw [failIf_eq_ok, not_not] at hverify
      have hsigns : Signs crypto validators digest ((pubkey, signature) :: signatures) pubkey :=
        ⟨hregistered, signature, List.mem_cons_self, hverify⟩
      rw [← Finset.card_insert_of_notMem hseen] at h
      -- The loop stops at the threshold or goes on with one more validator.
      have hstop : ∀ key ∈ insert pubkey seen, key ∈ seen ∨
          Signs crypto validators digest ((pubkey, signature) :: signatures) key := by
        intro key hkey
        obtain rfl | hold := Finset.mem_insert.mp hkey
        · exact .inr hsigns
        · exact .inl hold
      dsimp only at h
      split_ifs at h with hreached
      · obtain rfl := pure_eq_ok.mp h
        exact ⟨insert pubkey seen, rfl, hstop⟩
      · obtain ⟨signers, hcount, hsigners⟩ := ih h
        refine ⟨signers, hcount, fun key hkey => ?_⟩
        obtain hold | hs := hsigners key hkey
        · exact hstop key hold
        · exact .inr (hs.cons _)
    · exact hskip h

end Counting

/-! ## Runs -/

/-- The state of the relayer with the accepted unlocks. -/
structure RelayerHistory where
  relayer : Relayer
  unlocked : List UnlockProof

inductive RelayerCall where
  | configureThreshold (admin : Address) (threshold : ℕ)
  | addValidator (admin : Address) (pubkey : Bytes32)
  | removeValidator (admin : Address) (pubkey : Bytes32)
  | verifyCrossChainPayload (p : UnlockProof) (signatures : List (Bytes32 × Bytes64))

section Runs

variable {here : Address}

def RelayerCall.exec (env : BridgeEnv here) (r : Relayer) : RelayerCall → Except Fault Relayer
  | configureThreshold admin threshold => Bridge.configureThreshold env admin threshold r
  | addValidator admin pubkey => Bridge.addValidator env admin pubkey r
  | removeValidator admin pubkey => Bridge.removeValidator env admin pubkey r
  | verifyCrossChainPayload p signatures =>
    Bridge.verifyCrossChainPayload crypto p signatures r

/-- The unlock that an accepted call grants. -/
def RelayerCall.unlocks : RelayerCall → List UnlockProof
  | verifyCrossChainPayload p _ => [p]
  | _ => []

def relayerStep (i : BridgeEnv here × RelayerCall) (h : RelayerHistory) :
    Except Fault RelayerHistory := do
  let relayer ← i.2.exec crypto i.1 h.relayer
  pure ⟨relayer, i.2.unlocks ++ h.unlocked⟩

/-- An accepted unlock has as many different registered signers as the threshold asks for, at
least one, and the digest they signed is of no other message. -/
def Authorised (h : RelayerHistory) (i : BridgeEnv here × RelayerCall) : Prop :=
  ∀ p signatures, i.2 = .verifyCrossChainPayload p signatures →
    (∃ h', relayerStep crypto i h = .ok h') →
      ∃ threshold, h.relayer.threshold = some threshold ∧ 1 ≤ threshold ∧
        (∃ signers : Finset Bytes32, threshold ≤ signers.card ∧ ∀ pubkey ∈ signers,
          Signs crypto h.relayer.validators (bridgeMessageDigest crypto p) signatures pubkey) ∧
        ∀ q, Set.InjOn crypto.sha256 {bridgePayload crypto p, bridgePayload crypto q,
            crypto.xdr p.recipient, crypto.xdr q.recipient} →
          bridgeMessageDigest crypto p = bridgeMessageDigest crypto q → p = q

/-- No nonce of a chain is unlocked twice. -/
def UnlockedOnce (h : RelayerHistory) : Prop :=
  (h.unlocked.map fun p => (p.sourceChainId, p.nonce)).Nodup

/-- A failed call spends no nonce. -/
def KeepsNonces (h : RelayerHistory) (i : BridgeEnv here × RelayerCall) : Prop :=
  ∀ e, relayerStep crypto i h = .error e →
    (commit (relayerStep crypto) h i).relayer.spentNonces = h.relayer.spentNonces

variable {crypto} {h h' : RelayerHistory} {env : BridgeEnv here}
  {i : BridgeEnv here × RelayerCall} {r r' : Relayer}

/-- What an accepted unlock has checked, and the nonce that it spends. -/
theorem verifyCrossChainPayload_eq_ok {p : UnlockProof} {signatures : List (Bytes32 × Bytes64)}
    (h0 : Bridge.verifyCrossChainPayload crypto p signatures r = .ok r') :
    (∃ threshold, r.threshold = some threshold ∧ 1 ≤ threshold ∧
      ∃ signers : Finset Bytes32, threshold ≤ signers.card ∧ ∀ pubkey ∈ signers,
        Signs crypto r.validators (bridgeMessageDigest crypto p) signatures pubkey) ∧
      (p.sourceChainId, p.nonce) ∉ r.spentNonces ∧
      r' = { r with spentNonces := insert (p.sourceChainId, p.nonce) r.spentNonces } := by
  rw [Bridge.verifyCrossChainPayload] at h0
  obtain ⟨_, -, h0⟩ := bind_eq_ok.mp h0
  obtain ⟨_, hzero, h0⟩ := bind_eq_ok.mp h0
  obtain ⟨_, -, h0⟩ := bind_eq_ok.mp h0
  obtain ⟨_, hfresh, h0⟩ := bind_eq_ok.mp h0
  obtain ⟨count, hcount, h0⟩ := bind_eq_ok.mp h0
  obtain ⟨_, henough, hwrite⟩ := bind_eq_ok.mp h0
  rw [failIf_eq_ok] at hzero hfresh henough
  rw [← Finset.card_empty (α := Bytes32)] at hcount
  obtain ⟨signers, rfl, hsigners⟩ := countSignatures_eq_ok hcount
  refine ⟨?_, hfresh, (pure_eq_ok.mp hwrite).symm⟩
  cases hthreshold : r.threshold with
  | none => exact absurd (by rw [hthreshold, Option.getD_none]) hzero
  | some threshold =>
    rw [hthreshold, Option.getD_some] at hzero henough
    exact ⟨threshold, rfl, Nat.one_le_iff_ne_zero.mpr hzero, signers, not_lt.mp henough,
      fun pubkey hmem => (hsigners pubkey hmem).resolve_left (Finset.notMem_empty _)⟩

/-- The other calls spend no nonce. -/
theorem RelayerCall.exec_eq_ok {call : RelayerCall} (h0 : call.exec crypto env r = .ok r') :
    (∃ p signatures, call = .verifyCrossChainPayload p signatures ∧
        Bridge.verifyCrossChainPayload crypto p signatures r = .ok r') ∨
      call.unlocks = [] ∧ r'.spentNonces = r.spentNonces := by
  cases call with
  | configureThreshold admin threshold =>
    obtain ⟨_, -, h0⟩ := bind_eq_ok.mp h0
    obtain ⟨_, -, h0⟩ := bind_eq_ok.mp h0
    obtain rfl := pure_eq_ok.mp h0
    exact .inr ⟨rfl, rfl⟩
  | addValidator admin pubkey =>
    obtain ⟨_, -, h0⟩ := bind_eq_ok.mp h0
    obtain ⟨_, -, h0⟩ := bind_eq_ok.mp h0
    obtain ⟨_, -, h0⟩ := bind_eq_ok.mp h0
    obtain rfl := pure_eq_ok.mp h0
    exact .inr ⟨rfl, rfl⟩
  | removeValidator admin pubkey =>
    obtain ⟨_, -, h0⟩ := bind_eq_ok.mp h0
    obtain ⟨_, -, h0⟩ := bind_eq_ok.mp h0
    obtain rfl := pure_eq_ok.mp h0
    exact .inr ⟨rfl, rfl⟩
  | verifyCrossChainPayload p signatures => exact .inl ⟨p, signatures, rfl, h0⟩

theorem relayerStep_eq_ok :
    relayerStep crypto i h = .ok h' ↔
      ∃ relayer, i.2.exec crypto i.1 h.relayer = .ok relayer ∧
        h' = ⟨relayer, i.2.unlocks ++ h.unlocked⟩ := by
  rw [relayerStep, bind_eq_ok]
  simp only [pure_eq_ok]
  exact exists_congr fun _ => and_congr_right fun _ => eq_comm

/-- Accepted unlocks are of different nonces, all of them spent. -/
structure NoncesSpent (h : RelayerHistory) : Prop where
  once : UnlockedOnce h
  spent : ∀ p ∈ h.unlocked, (p.sourceChainId, p.nonce) ∈ h.relayer.spentNonces

theorem NoncesSpent.step (hn : NoncesSpent h) (h0 : relayerStep crypto i h = .ok h') :
    NoncesSpent h' := by
  obtain ⟨relayer, hexec, rfl⟩ := relayerStep_eq_ok.mp h0
  obtain ⟨p, signatures, hcall, hverify⟩ | ⟨hnone, hsame⟩ := RelayerCall.exec_eq_ok hexec
  · obtain ⟨-, hfresh, rfl⟩ := verifyCrossChainPayload_eq_ok hverify
    rw [hcall]
    refine ⟨List.nodup_cons.mpr ⟨fun hmem => ?_, hn.once⟩, fun q hq => ?_⟩
    · obtain ⟨q, hq, heq⟩ := List.mem_map.mp hmem
      change (q.sourceChainId, q.nonce) = (p.sourceChainId, p.nonce) at heq
      rw [← heq] at hfresh
      exact hfresh (hn.spent q hq)
    · obtain rfl | hold := List.mem_cons.mp hq
      · exact Finset.mem_insert_self _ _
      · exact Finset.mem_insert_of_mem (hn.spent q hold)
  · rw [hnone]
    exact ⟨hn.once, fun q hq => hsame ▸ hn.spent q hq⟩

theorem relayerStep_authorised (hxdr : Function.Injective crypto.xdr) (h : RelayerHistory)
    (i : BridgeEnv here × RelayerCall) : Authorised crypto h i := by
  rintro p signatures hcall ⟨h', h0⟩
  obtain ⟨relayer, hexec, -⟩ := relayerStep_eq_ok.mp h0
  rw [hcall] at hexec
  obtain ⟨⟨threshold, hthreshold, hpos, hsigners⟩, -, -⟩ := verifyCrossChainPayload_eq_ok hexec
  exact ⟨threshold, hthreshold, hpos, hsigners,
    fun q hsha heq => bridgeMessageDigest_inj hxdr hsha heq⟩

/-- In every run, from any set of validators, every accepted unlock is authorised by enough
validators registered at that time, no nonce of a chain is unlocked twice, and failed calls spend
no nonce. -/
theorem unlocks_authorised (hxdr : Function.Injective crypto.xdr) (relayer : Relayer)
    (run : List (BridgeEnv here × RelayerCall)) :
    Along (relayerStep crypto) (Authorised crypto) ⟨relayer, []⟩ run ∧
      Throughout (relayerStep crypto) UnlockedOnce ⟨relayer, []⟩ run ∧
      Along (relayerStep crypto) (KeepsNonces crypto) ⟨relayer, []⟩ run := by
  have hstep : ∀ h (i : BridgeEnv here × RelayerCall) h', NoncesSpent h →
      relayerStep crypto i h = .ok h' → NoncesSpent h' := fun _ _ _ hn h0 => hn.step h0
  have hstart : NoncesSpent ⟨relayer, []⟩ :=
    ⟨List.nodup_nil, fun _ hmem => absurd hmem List.not_mem_nil⟩
  refine ⟨along_of_invariant hstep (fun h i _ => relayerStep_authorised hxdr h i) hstart run,
    throughout_of_invariant hstep (fun _ hn => hn.once) hstart run,
    along_of_invariant hstep (fun h i _ e herror => ?_) hstart run⟩
  rw [commit_of_error herror]

end Runs

section Sample

/-- A signature is valid if it starts with the key. -/
def sampleCrypto : BridgeCrypto where
  xdr a := List.replicate a.raw 0
  sha256 := sampleHash
  ed25519Verify pubkey _ signature := signature.toList.take 32 = pubkey.toList

theorem sampleCrypto_xdr : Function.Injective sampleCrypto.xdr := by
  rintro ⟨m⟩ ⟨n⟩ h
  have hlength := congrArg List.length h
  rw [sampleCrypto, List.length_replicate, List.length_replicate] at hlength
  exact congrArg Address.mk hlength

def sampleKey : Bytes32 := Vector.replicate 32 5

def sampleProof : UnlockProof := ⟨Vector.replicate 32 0, 2, 9, ⟨4⟩, units 100⟩

/-- One validator signs an unlock twice over, and the unlock is replayed. -/
def sampleRelayerRun : List (BridgeEnv ⟨0⟩ × RelayerCall) :=
  [(sampleBridgeEnv, .configureThreshold ⟨1⟩ 1), (sampleBridgeEnv, .addValidator ⟨1⟩ sampleKey),
    (sampleBridgeEnv, .verifyCrossChainPayload sampleProof
      [(sampleKey, Vector.replicate 64 5), (sampleKey, Vector.replicate 64 5)]),
    (sampleBridgeEnv, .verifyCrossChainPayload sampleProof [(sampleKey, Vector.replicate 64 5)])]

theorem sampleRelayerRun_authorised :
    Along (relayerStep sampleCrypto) (Authorised sampleCrypto) ⟨⟨none, ∅, ∅, ∅⟩, []⟩
        sampleRelayerRun ∧
      Throughout (relayerStep sampleCrypto) UnlockedOnce ⟨⟨none, ∅, ∅, ∅⟩, []⟩
        sampleRelayerRun ∧
      Along (relayerStep sampleCrypto) (KeepsNonces sampleCrypto) ⟨⟨none, ∅, ∅, ∅⟩, []⟩
        sampleRelayerRun :=
  unlocks_authorised sampleCrypto_xdr ⟨none, ∅, ∅, ∅⟩ sampleRelayerRun

example : (runAll (relayerStep sampleCrypto) ⟨⟨none, ∅, ∅, ∅⟩, []⟩ sampleRelayerRun).unlocked =
    [sampleProof] := by decide +kernel

end Sample

end StellarFlow.Bridge
