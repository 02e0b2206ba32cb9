import StellarFlow.Orders.CommitReveal
import StellarFlow.Zk.PrivateDeposits

/-!
# Public inputs of a withdrawal

The public inputs of a proof are compared with the parameters that are submitted beside it and
with the roots of the tree. They come as a record or as a list of scalars, in which the recipient
is a hash of its encoding and the fee fills the low half of a big-endian word.
-/
namespace StellarFlow.Zk

open Foundation
open Orders (toBeBytes toBeBytes_length i128_value_inj Codec)

inductive InputError
  | invalidZKPublicInputs
  deriving DecidableEq, Repr

structure DepositNotePublicInputs where
  root : Bytes32
  nullifierHash : Bytes32
  recipient : Address
  fee : i128.Value

structure SubmittedDepositParameters where
  expectedRoot : Bytes32
  expectedNullifierHash : Bytes32
  expectedRecipient : Address
  expectedFee : i128.Value

section Model

variable {here : Address} (env : Env here)

def isKnownMerkleRoot (root : Bytes32) (t : DepositStore) : Bool :=
  t.currentRoot = some root || (validateRoot env root t).isOk

/-- The sixteen bytes of the fee behind sixteen zeros. -/
def feeToScalarBytes (fee : i128.Value) : Bytes32 :=
  ⟨(List.replicate 16 0 ++ toBeBytes 16 fee).toArray, by simp⟩

def computeRecipientCommitment (codec : Codec) (recipient : Address) : Bytes32 :=
  codec.sha256 (codec.xdr recipient)

def verifyDepositPublicInputs (publicInputs : DepositNotePublicInputs)
    (submittedParams : SubmittedDepositParameters) (t : DepositStore) :
    Except InputError Unit := do
  failIf (¬ isKnownMerkleRoot env publicInputs.root t) .invalidZKPublicInputs
  failIf (publicInputs.root ≠ submittedParams.expectedRoot) .invalidZKPublicInputs
  failIf (publicInputs.nullifierHash ≠ submittedParams.expectedNullifierHash)
    .invalidZKPublicInputs
  failIf (publicInputs.nullifierHash = Vector.replicate 32 0) .invalidZKPublicInputs
  failIf (publicInputs.recipient ≠ submittedParams.expectedRecipient) .invalidZKPublicInputs
  failIf (publicInputs.fee.1 < 0 ∨ publicInputs.fee ≠ submittedParams.expectedFee)
    .invalidZKPublicInputs

def verifyRawZkPublicInputs (codec : Codec) (rawInputs : List Bytes32)
    (submittedParams : SubmittedDepositParameters) (t : DepositStore) :
    Except InputError Unit := do
  failIf (rawInputs.length < 4) .invalidZKPublicInputs
  let rPub ← okOr rawInputs[0]? .invalidZKPublicInputs
  let nullifier ← okOr rawInputs[1]? .invalidZKPublicInputs
  let recipientComm ← okOr rawInputs[2]? .invalidZKPublicInputs
  let feeScalar ← okOr rawInputs[3]? .invalidZKPublicInputs
  failIf (¬ isKnownMerkleRoot env rPub t ∨ rPub ≠ submittedParams.expectedRoot)
    .invalidZKPublicInputs
  failIf (nullifier ≠ submittedParams.expectedNullifierHash ∨ nullifier = Vector.replicate 32 0)
    .invalidZKPublicInputs
  failIf (recipientComm ≠ computeRecipientCommitment codec submittedParams.expectedRecipient)
    .invalidZKPublicInputs
  failIf (submittedParams.expectedFee.1 < 0) .invalidZKPublicInputs
  failIf (feeScalar ≠ feeToScalarBytes submittedParams.expectedFee) .invalidZKPublicInputs

end Model

/-- The scalars of a record, in the order of the circuit. -/
def DepositNotePublicInputs.scalars (codec : Codec) (p : DepositNotePublicInputs) :
    List Bytes32 :=
  [p.root, p.nullifierHash, computeRecipientCommitment codec p.recipient, feeToScalarBytes p.fee]

/-- The parameters that a record is accepted with. -/
def DepositNotePublicInputs.params (p : DepositNotePublicInputs) : SubmittedDepositParameters :=
  ⟨p.root, p.nullifierHash, p.recipient, p.fee⟩

/-- The root of the tree as it is now, or one of the buffer that is not too old. -/
inductive TreeRoot (sha256 : ByteString → Bytes32) {here : Address} (env : Env here)
    (h : DepositHistory) (root : Bytes32) : Prop
  | current (started : h.commitments ≠ []) (root_eq : root = fullRoot sha256 h.commitments)
  | recorded (record : RootRecord) (valid : validateRoot env root h.store = .ok record)
      (count_le : record.leafCount ≤ h.commitments.length)
      (root_eq : root = fullRoot sha256 (h.commitments.take record.leafCount))

/-- The encodings of two addresses and their hashes are told apart. -/
def TellsApart (codec : Codec) (a b : Address) : Prop :=
  computeRecipientCommitment codec a = computeRecipientCommitment codec b → a = b

section Guard

variable {here : Address} {env : Env here} {codec : Codec} {t : DepositStore}
  {raw : List Bytes32} {p : SubmittedDepositParameters} {pub : DepositNotePublicInputs}

theorem feeToScalarBytes_injective : Function.Injective feeToScalarBytes := by
  intro x y h
  have hlist := congrArg Vector.toList h
  simp only [feeToScalarBytes, Vector.toList_mk] at hlist
  exact i128_value_inj (List.append_cancel_left hlist)

theorem verifyDepositPublicInputs_eq_ok {u : Unit} :
    verifyDepositPublicInputs env pub p t = .ok u ↔
      isKnownMerkleRoot env pub.root t = true ∧ pub.nullifierHash ≠ Vector.replicate 32 0 ∧
        0 ≤ pub.fee.1 ∧ p = pub.params := by
  obtain ⟨root, nullifierHash, recipient, fee⟩ := pub
  obtain ⟨root', nullifierHash', recipient', fee'⟩ := p
  simp only [verifyDepositPublicInputs, bind_eq_ok, failIf_eq_ok, not_not, not_or, not_lt, ne_eq,
    exists_const, DepositNotePublicInputs.params, SubmittedDepositParameters.mk.injEq]
  tauto

/-- The first four scalars are those of the submitted parameters. What follows is not read. -/
theorem verifyRawZkPublicInputs_eq_ok {u : Unit} :
    verifyRawZkPublicInputs env codec raw p t = .ok u ↔
      isKnownMerkleRoot env p.expectedRoot t = true ∧
        p.expectedNullifierHash ≠ Vector.replicate 32 0 ∧ 0 ≤ p.expectedFee.1 ∧
        ∃ rest, raw = [p.expectedRoot, p.expectedNullifierHash,
          computeRecipientCommitment codec p.expectedRecipient, feeToScalarBytes p.expectedFee] ++
          rest := by
  rw [verifyRawZkPublicInputs]
  match raw with
  | [] | [_] | [_, _] | [_, _, _] =>
    refine iff_of_false (by simp [failIf, bind, Except.bind]) ?_
    rintro ⟨_, _, _, rest, hraw⟩
    simp at hraw
  | rPub :: nullifier :: recipientComm :: feeScalar :: rest =>
    have hlength : ¬ (rPub :: nullifier :: recipientComm :: feeScalar :: rest).length < 4 := by
      simp
    simp only [failIf_of_not hlength, ok_bind, List.getElem?_cons_zero, List.getElem?_cons_succ,
      okOr_some, bind_eq_ok, failIf_eq_ok, not_or, not_not, not_lt, ne_eq, exists_const,
      List.cons_append, List.nil_append, List.cons.injEq, exists_and_left, exists_eq', and_true]
    constructor
    · rintro ⟨⟨hroot, rfl⟩, ⟨rfl, hzero⟩, rfl, hfee, rfl⟩
      exact ⟨hroot, hzero, hfee, rfl, rfl, rfl, rfl⟩
    · rintro ⟨hroot, hzero, hfee, rfl, rfl, rfl, rfl⟩
      exact ⟨⟨hroot, rfl⟩, ⟨rfl, hzero⟩, rfl, hfee, rfl⟩

/-- On the scalars of a record the guards agree, unless two recipients are confused. -/
theorem verifyRawZkPublicInputs_scalars (rest : List Bytes32)
    (happart : TellsApart codec pub.recipient p.expectedRecipient) :
    verifyRawZkPublicInputs env codec (pub.scalars codec ++ rest) p t = .ok () ↔
      verifyDepositPublicInputs env pub p t = .ok () := by
  obtain ⟨root, nullifierHash, recipient, fee⟩ := pub
  obtain ⟨root', nullifierHash', recipient', fee'⟩ := p
  rw [verifyRawZkPublicInputs_eq_ok, verifyDepositPublicInputs_eq_ok]
  simp only [DepositNotePublicInputs.scalars, DepositNotePublicInputs.params,
    SubmittedDepositParameters.mk.injEq, List.cons_append, List.nil_append, List.cons.injEq,
    exists_and_left, exists_eq', and_true]
  constructor
  · rintro ⟨hroot, hzero, hfee, rfl, rfl, hrecipient, hscalar⟩
    obtain rfl := feeToScalarBytes_injective hscalar
    exact ⟨hroot, hzero, hfee, rfl, rfl, (happart hrecipient).symm, rfl⟩
  · rintro ⟨hroot, hzero, hfee, rfl, rfl, rfl, rfl⟩
    exact ⟨hroot, hzero, hfee, rfl, rfl, rfl, rfl⟩

end Guard

section Runs

variable {sha256 : ByteString → Bytes32} {here : Address} {env : Env here} {h : DepositHistory}

theorem DepositInvariant.isKnownMerkleRoot_iff (hi : DepositInvariant sha256 h) {root : Bytes32} :
    isKnownMerkleRoot env root h.store = true ↔ TreeRoot sha256 env h root := by
  have hcurrent : h.store.currentRoot = some root ↔
      h.commitments ≠ [] ∧ root = fullRoot sha256 h.commitments := by
    rw [hi.tree.currentRoot_eq]
    by_cases hempty : h.commitments = []
    · simp [hempty]
    · simp [hempty, eq_comm]
  have hvalid : (validateRoot env root h.store).isOk = true ↔
      ∃ record, validateRoot env root h.store = .ok record := by
    cases validateRoot env root h.store <;> simp [Except.isOk, Except.toBool]
  rw [isKnownMerkleRoot, Bool.or_eq_true, decide_eq_true_iff, hcurrent, hvalid]
  constructor
  · rintro (⟨hstarted, hroot⟩ | ⟨record, hrecord⟩)
    · exact .current hstarted hroot
    · obtain ⟨hle, hroot⟩ := hi.roots root record (lookup_of_validateRoot hrecord)
      exact .recorded record hrecord hle hroot
  · rintro (⟨hstarted, hroot⟩ | ⟨record, hrecord, _, _⟩)
    · exact .inl ⟨hstarted, hroot⟩
    · exact .inr ⟨record, hrecord⟩

/-- In every reachable state the scalars of a record are accepted together with submitted
parameters exactly if the record is, unless two recipients are confused. That is the case exactly
for the parameters of the record itself, a nullifier that is not zero, a fee that is not negative
and a root that the tree has or had. -/
theorem publicInputs_accepted_iff (sha256 : ByteString → Bytes32) (codec : Codec)
    (run : List (Env here × PrivateCall)) (env : Env here) (pub : DepositNotePublicInputs)
    (rest : List Bytes32) (p : SubmittedDepositParameters)
    (happart : TellsApart codec pub.recipient p.expectedRecipient) :
    (verifyRawZkPublicInputs env codec (pub.scalars codec ++ rest) p
        (runAll (privateStep sha256) .empty run).history.store = .ok () ↔
      verifyDepositPublicInputs env pub p
        (runAll (privateStep sha256) .empty run).history.store = .ok ()) ∧
    (verifyDepositPublicInputs env pub p
        (runAll (privateStep sha256) .empty run).history.store = .ok () ↔
      p = pub.params ∧ pub.nullifierHash ≠ Vector.replicate 32 0 ∧ 0 ≤ pub.fee.1 ∧
        TreeRoot sha256 env (runAll (privateStep sha256) .empty run).history pub.root) := by
  have hi : PrivateInvariant sha256 (runAll (privateStep sha256) .empty run) :=
    runAll_induction (fun _ _ _ hi hexec => privateInvariant_step hi hexec) .empty run
  refine ⟨verifyRawZkPublicInputs_scalars rest happart, ?_⟩
  rw [verifyDepositPublicInputs_eq_ok, hi.tree.isKnownMerkleRoot_iff]
  tauto

/-- An encoding of addresses with the sample hash. -/
def sampleCodec : Codec := ⟨fun a => toBeBytes 32 a.raw, sampleHash⟩

def samplePublicInputs : DepositNotePublicInputs :=
  ⟨fullRoot sampleHash [sampleNode 0 1], sampleNode 0 7, ⟨5⟩, units 250⟩

def samplePrivateRun : List (Env ⟨0⟩ × PrivateCall) :=
  [(sampleEnv, .tree (.insert (sampleNode 0 1)))]

theorem samplePrivateRun_commitments :
    (runAll (privateStep sampleHash) .empty samplePrivateRun).history.commitments =
      [sampleNode 0 1] := by
  have ho := sample_insert.commitments_eq
  cases hexec : depositStep sampleHash (sampleEnv, .insert (sampleNode 0 1)) .empty with
  | error e =>
    rw [commit_of_error hexec] at ho
    cases ho
  | ok history =>
    rw [commit_of_ok hexec] at ho
    have hstep : privateStep sampleHash (sampleEnv, .tree (.insert (sampleNode 0 1))) .empty =
        .ok { PrivateHistory.empty with history } := by
      rw [privateStep]
      exact congrArg (· >>= _) hexec
    rw [samplePrivateRun, runAll_cons, commit_of_ok hstep]
    exact ho

/-- After one deposit the scalars of a record with its root are accepted. -/
theorem samplePublicInputs_accepted :
    verifyRawZkPublicInputs sampleEnv sampleCodec (samplePublicInputs.scalars sampleCodec ++ [])
      samplePublicInputs.params
      (runAll (privateStep sampleHash) .empty samplePrivateRun).history.store = .ok () := by
  obtain ⟨hraw, hrecord⟩ := publicInputs_accepted_iff sampleHash sampleCodec samplePrivateRun
    sampleEnv samplePublicInputs [] samplePublicInputs.params fun _ => rfl
  refine hraw.mpr (hrecord.mpr ⟨rfl, by decide +kernel, by decide, .current ?_ ?_⟩)
  · rw [samplePrivateRun_commitments]
    exact List.cons_ne_nil _ _
  · rw [samplePrivateRun_commitments, samplePublicInputs]

end Runs

end StellarFlow.Zk
