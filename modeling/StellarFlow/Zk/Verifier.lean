import StellarFlow.Bytes
import StellarFlow.Foundation.BigEndian
import StellarFlow.Host

/-!
# Verification of proofs

A proof comes with the verification key it is for and its public inputs. The key has to agree with
the registered one, of which there is one for all circuits. The pairing equation itself is
replaced by a hash, which is a parameter here together with the challenge.
-/
namespace StellarFlow.Zk.Verifier

open Foundation

def maxPublicInputs : ℕ := 32
def maxBatchSize : ℕ := 8

inductive ZkError
  | notInitialized
  | notAdmin
  | invalidArgument
  | invalidProof
  | invalidPublicInputs
  | invalidProvingKey
  | overflow
  | adminChangePending
  | noAdminChangePending
  | adminTimelockNotSatisfied
  deriving DecidableEq, Repr

/-- The bound on a public input, most significant byte first. -/
def fieldModulus : Bytes32 :=
  #v[0x30, 0x64, 0x4e, 0x72, 0xe1, 0x31, 0x0a, 0xfa,
    0x25, 0x2a, 0x13, 0x1e, 0x22, 0x3f, 0xcd, 0x3f,
    0xad, 0xcf, 0x4b, 0xc7, 0xa5, 0x8d, 0xbd, 0x7f,
    0x71, 0x67, 0x89, 0x42, 0x86, 0x95, 0x58, 0x30]

def zeroScalar : Bytes32 := Vector.replicate 32 0

structure Groth16Proof where
  a : Bytes32
  b : Vector UInt8 64
  c : Bytes32
  deriving DecidableEq

structure VerificationKey where
  alphaBetaHash : Bytes32
  gammaHash : Bytes32
  deltaHash : Bytes32
  icCount : ℕ
  icHash : Bytes32
  circuitId : Bytes32
  deriving DecidableEq

structure PairingCommitment where
  equationHash : Bytes32
  challenge : Bytes32
  deriving DecidableEq

structure VerificationResult where
  valid : Bool
  gasUsed : ℕ
  verifiedAt : ℕ
  deriving DecidableEq

abbrev KeyStore := Store Symbol VerificationKey

def isZeroBytes (bytes : ByteString) : Bool := bytes.all (· = 0)

/-! ## The registry -/

/-- The identifier of the circuit is not used. -/
def verificationKeyStorageKey (_circuitId : Bytes32) : Symbol := ⟨0⟩

def registerVerificationKey (vkey : VerificationKey) (keys : KeyStore) :
    Except (Abort ZkError) KeyStore := do
  failIf (vkey.icCount = 0) (.error .invalidArgument)
  failIf (isZeroBytes vkey.alphaBetaHash.toList = true) (.error .invalidArgument)
  failIf (isZeroBytes vkey.gammaHash.toList = true) (.error .invalidArgument)
  failIf (isZeroBytes vkey.deltaHash.toList = true) (.error .invalidArgument)
  failIf (isZeroBytes vkey.icHash.toList = true) (.error .invalidArgument)
  failIf (isZeroBytes vkey.circuitId.toList = true) (.error .invalidArgument)
  pure (keys.insert (verificationKeyStorageKey vkey.circuitId) vkey)

def getVerificationKey (circuitId : Bytes32) (keys : KeyStore) : Option VerificationKey :=
  keys.lookup (verificationKeyStorageKey circuitId)

def removeVerificationKey (circuitId : Bytes32) (keys : KeyStore) :
    Except (Abort ZkError) KeyStore := do
  failIf (keys.lookup (verificationKeyStorageKey circuitId) = none) (.error .invalidProof)
  pure (keys.erase (verificationKeyStorageKey circuitId))

/-! ## Public inputs -/

def isScalarGeFieldModulus (scalar : Bytes32) : Bool :=
  atLeast scalar.toList fieldModulus.toList

def validatePublicInputs (publicInputs : List Bytes32) : Except (Abort ZkError) Unit := do
  failIf (publicInputs.length = 0) (.error .invalidPublicInputs)
  publicInputs.zipIdx.forM fun (input, index) => do
    failIf (isScalarGeFieldModulus input = true) (.error .invalidPublicInputs)
    failIf (index = 0 ∧ input = zeroScalar) (.error .invalidPublicInputs)
    failIf (index = 1 ∧ input = zeroScalar) (.error .invalidPublicInputs)

/-! ## Proofs -/

/-- The two hashes of a proof: the challenge, and the stand-in for the pairing equation. -/
structure ProofHash where
  deriveChallenge : Groth16Proof → List Bytes32 → Bytes32
  computeVerificationHash : VerificationKey → Groth16Proof → List Bytes32 → Bytes32 → Bytes32

/-- Everything but the circuit is compared. -/
def VerificationKey.Agrees (stored vkey : VerificationKey) : Prop :=
  stored.alphaBetaHash = vkey.alphaBetaHash ∧ stored.gammaHash = vkey.gammaHash ∧
    stored.deltaHash = vkey.deltaHash ∧ stored.icHash = vkey.icHash ∧
    stored.icCount = vkey.icCount

instance (stored vkey : VerificationKey) : Decidable (stored.Agrees vkey) :=
  inferInstanceAs (Decidable (_ ∧ _))

section Verify

variable {here : Address} (env : Env here) (hash : ProofHash)

/-- The lengths of the parts of a proof are fixed by their types. -/
def verifyProof (proof : Groth16Proof) (vkey : VerificationKey) (publicInputs : List Bytes32)
    (keys : KeyStore) : Except (Abort ZkError) VerificationResult := do
  validatePublicInputs publicInputs
  failIf (publicInputs.length > maxPublicInputs) (.error .invalidArgument)
  failIf (publicInputs.length + 1 ≠ vkey.icCount) (.error .invalidArgument)
  failIf (isZeroBytes proof.a.toList = true) (.error .invalidArgument)
  failIf (isZeroBytes proof.b.toList = true) (.error .invalidArgument)
  failIf (isZeroBytes proof.c.toList = true) (.error .invalidArgument)
  let stored ← okOr (keys.lookup (verificationKeyStorageKey vkey.circuitId)) (.error .invalidProof)
  failIf (¬ stored.Agrees vkey) (.error .invalidProof)
  let challenge := hash.deriveChallenge proof publicInputs
  let expectedHash := hash.computeVerificationHash vkey proof publicInputs challenge
  pure ⟨!isZeroBytes expectedHash.toList, 0, env.timestamp⟩

/-- The public inputs are not validated here. -/
def verifyProofWithCommitment (proof : Groth16Proof) (vkey : VerificationKey)
    (publicInputs : List Bytes32) (pairingCommitment : PairingCommitment) (keys : KeyStore) :
    Except (Abort ZkError) VerificationResult := do
  failIf (publicInputs.length > maxPublicInputs) (.error .invalidArgument)
  failIf (publicInputs.length + 1 ≠ vkey.icCount) (.error .invalidArgument)
  failIf (isZeroBytes proof.a.toList = true ∨ isZeroBytes proof.b.toList = true ∨
    isZeroBytes proof.c.toList = true) (.error .invalidArgument)
  failIf (pairingCommitment.challenge ≠ hash.deriveChallenge proof publicInputs)
    (.error .invalidProof)
  let stored ← okOr (keys.lookup (verificationKeyStorageKey vkey.circuitId)) (.error .invalidProof)
  failIf (¬ stored.Agrees vkey) (.error .invalidProof)
  let expectedHash :=
    hash.computeVerificationHash vkey proof publicInputs pairingCommitment.challenge
  pure ⟨decide (pairingCommitment.equationHash = expectedHash), 0, env.timestamp⟩

def batchVerifyProofs (proofs : List (Groth16Proof × VerificationKey × List Bytes32))
    (keys : KeyStore) : Except (Abort ZkError) (List VerificationResult) := do
  if proofs.length = 0 then
    return []
  failIf (proofs.length > maxBatchSize) (.error .invalidArgument)
  let results ← proofs.mapM fun (proof, vkey, inputs) => do
    validatePublicInputs inputs
    verifyProof env hash proof vkey inputs keys
  pure (results.map fun result => { result with gasUsed := 0 / proofs.length })

end Verify

/-! ## What is accepted -/

/-- The number a scalar stands for. -/
def scalarValue (scalar : Bytes32) : ℕ := bigEndian 256 (scalar.toList.map UInt8.toNat)

/-- The order of the scalar field, which the bound was meant to be. -/
def scalarFieldOrder : ℕ :=
  21888242871839275222246405745257275088548364400416034343698204186575808495617

theorem fieldModulus_lt : scalarValue fieldModulus < scalarFieldOrder := by decide +kernel

theorem isZeroBytes_eq_true {n : ℕ} {bytes : Vector UInt8 n} :
    isZeroBytes bytes.toList = true ↔ bytes = Vector.replicate n 0 := by
  rw [isZeroBytes, List.all_eq_true]
  constructor
  · intro h
    apply Vector.ext
    intro i hi
    simpa using of_decide_eq_true (h bytes[i] (by simp))
  · rintro rfl x hx
    simp_all

theorem not_isZeroBytes {n : ℕ} (bytes : Vector UInt8 n) :
    (!isZeroBytes bytes.toList) = decide (bytes ≠ Vector.replicate n 0) := by
  rw [Bool.eq_iff_iff, Bool.not_eq_true', Bool.eq_false_iff, ne_eq, isZeroBytes_eq_true,
    decide_eq_true_iff]

theorem isScalarGeFieldModulus_eq_true {scalar : Bytes32} :
    isScalarGeFieldModulus scalar = true ↔ scalarValue fieldModulus ≤ scalarValue scalar :=
  atLeast_eq_true (by decide) (fun _ _ => UInt8.lt_iff_toNat_lt) UInt8.toNat_lt (by simp)

/-- Inputs that are there, within the bound, and not zero in the first two places. -/
structure ValidInputs (publicInputs : List Bytes32) : Prop where
  ne_nil : publicInputs ≠ []
  bounded : ∀ input ∈ publicInputs, scalarValue input < scalarValue fieldModulus
  nullifier : publicInputs[0]? ≠ some zeroScalar
  commitment : publicInputs[1]? ≠ some zeroScalar

/-- Valid inputs are elements of the scalar field, though not all of them are valid. -/
theorem ValidInputs.canonical {publicInputs : List Bytes32} (h : ValidInputs publicInputs) :
    ∀ input ∈ publicInputs, scalarValue input < scalarFieldOrder :=
  fun input hmem => (h.bounded input hmem).trans fieldModulus_lt

theorem forM_eq_ok {α ε : Type} {f : α → Except ε Unit} {xs : List α} {u : Unit} :
    xs.forM f = .ok u ↔ ∀ x ∈ xs, f x = .ok () := by
  induction xs with
  | nil => simp [pure, Except.pure]
  | cons x xs ih =>
    show (f x >>= fun _ => xs.forM f) = .ok u ↔ _
    rw [bind_eq_ok, List.forall_mem_cons]
    simp only [ih, exists_and_right]
    exact and_congr_left fun _ => ⟨fun ⟨_, hx⟩ => hx, fun hx => ⟨(), hx⟩⟩

/-- A call whose result is a function of its argument whenever it succeeds, over a list. -/
theorem mapM_eq_ok_iff {α β ε : Type} {f : α → Except ε β} {P : α → Prop} {g : α → β}
    (hf : ∀ a b, f a = .ok b ↔ P a ∧ b = g a) {xs : List α} {ys : List β} :
    xs.mapM f = .ok ys ↔ (∀ x ∈ xs, P x) ∧ ys = xs.map g := by
  induction xs generalizing ys with
  | nil =>
    rw [List.mapM_nil, pure_eq_ok]
    simp [eq_comm]
  | cons x xs ih =>
    simp only [List.mapM_cons, bind_eq_ok, pure_eq_ok, hf, ih, List.forall_mem_cons, List.map_cons]
    constructor
    · rintro ⟨_, ⟨hx, rfl⟩, _, ⟨hxs, rfl⟩, rfl⟩
      exact ⟨⟨hx, hxs⟩, rfl⟩
    · rintro ⟨⟨hx, hxs⟩, rfl⟩
      exact ⟨_, ⟨hx, rfl⟩, _, ⟨hxs, rfl⟩, rfl⟩

theorem validatePublicInputs_eq_ok {publicInputs : List Bytes32} {u : Unit} :
    validatePublicInputs publicInputs = .ok u ↔ ValidInputs publicInputs := by
  simp only [validatePublicInputs, bind_eq_ok, failIf_eq_ok, forM_eq_ok, exists_const,
    isScalarGeFieldModulus_eq_true, not_le, List.length_eq_zero_iff, Prod.forall,
    List.mem_zipIdx_iff_getElem?]
  constructor
  · rintro ⟨hne, hall⟩
    refine ⟨hne, fun input hmem => ?_, fun hfirst => ?_, fun hsecond => ?_⟩
    · obtain ⟨k, hk⟩ := List.getElem?_of_mem hmem
      exact (hall input k hk).1
    · exact (hall zeroScalar 0 hfirst).2.1 ⟨rfl, rfl⟩
    · exact (hall zeroScalar 1 hsecond).2.2 ⟨rfl, rfl⟩
  · intro h
    refine ⟨h.ne_nil, fun input k hk => ⟨h.bounded input (List.mem_of_getElem? hk), ?_, ?_⟩⟩
    · rintro ⟨rfl, rfl⟩
      exact h.nullifier hk
    · rintro ⟨rfl, rfl⟩
      exact h.commitment hk

/-- A proof whose parts are not zero, for a key that agrees with the registered one. -/
structure Presentable (proof : Groth16Proof) (vkey : VerificationKey)
    (publicInputs : List Bytes32) (keys : KeyStore) : Prop where
  length_le : publicInputs.length ≤ maxPublicInputs
  icCount_eq : publicInputs.length + 1 = vkey.icCount
  a_ne : proof.a ≠ Vector.replicate 32 0
  b_ne : proof.b ≠ Vector.replicate 64 0
  c_ne : proof.c ≠ Vector.replicate 32 0
  registered : ∃ stored, keys.lookup ⟨0⟩ = some stored ∧ stored.Agrees vkey

section Accept

variable {here : Address} {env : Env here} {hash : ProofHash} {proof : Groth16Proof}
  {vkey : VerificationKey} {publicInputs : List Bytes32} {keys : KeyStore}
  {result : VerificationResult}

/-- The result for an accepted proof: all that is left is that its hash is not zero. -/
def verdict (env : Env here) (hash : ProofHash)
    (p : Groth16Proof × VerificationKey × List Bytes32) : VerificationResult where
  valid := hash.computeVerificationHash p.2.1 p.1 p.2.2
    (hash.deriveChallenge p.1 p.2.2) ≠ zeroScalar
  gasUsed := 0
  verifiedAt := env.timestamp

theorem verifyProof_eq_ok : verifyProof env hash proof vkey publicInputs keys = .ok result ↔
    ValidInputs publicInputs ∧ Presentable proof vkey publicInputs keys ∧
      result = verdict env hash (proof, vkey, publicInputs) := by
  simp only [verifyProof, bind_eq_ok, validatePublicInputs_eq_ok, failIf_eq_ok, okOr_eq_ok,
    isZeroBytes_eq_true, pure_eq_ok, exists_const, not_lt, not_not, gt_iff_lt, ne_eq]
  constructor
  · rintro ⟨hinputs, hlength, hcount, ha, hb, hc, stored, hstored, hagrees, rfl⟩
    refine ⟨hinputs, ⟨hlength, hcount, ha, hb, hc, stored, hstored, hagrees⟩, ?_⟩
    rw [verdict, not_isZeroBytes]
    rfl
  · rintro ⟨hinputs, ⟨hlength, hcount, ha, hb, hc, stored, hstored, hagrees⟩, rfl⟩
    refine ⟨hinputs, hlength, hcount, ha, hb, hc, stored, hstored, hagrees, ?_⟩
    rw [verdict, not_isZeroBytes]
    rfl

/-- Without validated inputs, and with the hash that was sent along for its result. -/
theorem verifyProofWithCommitment_eq_ok {commitment : PairingCommitment} :
    verifyProofWithCommitment env hash proof vkey publicInputs commitment keys = .ok result ↔
      Presentable proof vkey publicInputs keys ∧
      commitment.challenge = hash.deriveChallenge proof publicInputs ∧
      result = { verdict env hash (proof, vkey, publicInputs) with
        valid := commitment.equationHash =
          hash.computeVerificationHash vkey proof publicInputs commitment.challenge } := by
  simp only [verifyProofWithCommitment, bind_eq_ok, failIf_eq_ok, okOr_eq_ok, isZeroBytes_eq_true,
    pure_eq_ok, exists_const, not_lt, not_not, gt_iff_lt, ne_eq, not_or]
  constructor
  · rintro ⟨hlength, hcount, ⟨ha, hb, hc⟩, hchallenge, stored, hstored, hagrees, rfl⟩
    exact ⟨⟨hlength, hcount, ha, hb, hc, stored, hstored, hagrees⟩, hchallenge, rfl⟩
  · rintro ⟨⟨hlength, hcount, ha, hb, hc, stored, hstored, hagrees⟩, hchallenge, rfl⟩
    exact ⟨hlength, hcount, ⟨ha, hb, hc⟩, hchallenge, stored, hstored, hagrees, rfl⟩

/-- A batch is accepted exactly when it is small and each proof is accepted by itself. What a
proof proves plays no part: all that is left of it is that its hash is not zero. -/
theorem batchVerifyProofs_accepts {proofs : List (Groth16Proof × VerificationKey × List Bytes32)}
    {results : List VerificationResult} :
    batchVerifyProofs env hash proofs keys = .ok results ↔
      proofs.length ≤ maxBatchSize ∧
      (∀ p ∈ proofs, ValidInputs p.2.2 ∧ Presentable p.1 p.2.1 p.2.2 keys) ∧
      results = proofs.map (verdict env hash) := by
  have hmap : ∀ results : List VerificationResult,
      (proofs.mapM fun (proof, vkey, inputs) => do
        validatePublicInputs inputs
        verifyProof env hash proof vkey inputs keys) = .ok results ↔
      (∀ p ∈ proofs, ValidInputs p.2.2 ∧ Presentable p.1 p.2.1 p.2.2 keys) ∧
        results = proofs.map (verdict env hash) := by
    intro results
    apply mapM_eq_ok_iff
    rintro ⟨proof, vkey, inputs⟩ result
    simp only [bind_eq_ok, validatePublicInputs_eq_ok, verifyProof_eq_ok, exists_const]
    tauto
  have hgas : (proofs.map (verdict env hash)).map
      (fun result => { result with gasUsed := 0 / proofs.length }) =
        proofs.map (verdict env hash) := by
    rw [List.map_map]
    apply List.map_congr_left
    intro p _
    simp [verdict]
  rw [batchVerifyProofs]
  split_ifs with hempty
  · obtain rfl := List.length_eq_zero_iff.mp hempty
    simp [pure, Except.pure, eq_comm]
  · simp only [bind_eq_ok, failIf_eq_ok, hmap, pure_eq_ok, exists_const, gt_iff_lt, not_lt]
    constructor
    · rintro ⟨hlength, _, ⟨hall, rfl⟩, rfl⟩
      exact ⟨hlength, hall, hgas⟩
    · rintro ⟨hlength, hall, rfl⟩
      exact ⟨hlength, _, ⟨hall, rfl⟩, hgas⟩

end Accept

end StellarFlow.Zk.Verifier
