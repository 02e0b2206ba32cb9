import StellarFlow.Foundation.LastWrite
import StellarFlow.Zk.Verifier

/-!
# Replacing the verification key of a circuit

A new key is queued together with its proving key and can be carried out two days later. The
administrator can also register or remove a key at once.
-/
namespace StellarFlow.Zk.KeyUpdate

open Foundation Verifier

def zkKeyUpdateDelaySeconds : ℕ := 48 * 60 * 60
def g1PointBytes : ℕ := 64
def g2PointBytes : ℕ := 128

structure UploadedProvingKey where
  generatorX : Bytes32
  generatorY : Bytes32
  payload : ByteString
  deriving DecidableEq

structure ProvingKeySchema where
  publicInputCount : ℕ
  variableCount : ℕ
  constraintCount : ℕ
  deriving DecidableEq

structure ZkVerificationKeyUpdate where
  circuitId : Bytes32
  version : ℕ
  vkey : VerificationKey
  provingKey : UploadedProvingKey
  schema : ProvingKeySchema
  proposer : Address
  queuedAt : ℕ
  executeNotBefore : ℕ
  deriving DecidableEq

structure KeyRegistry where
  keys : KeyStore
  pending : Store Bytes32 ZkVerificationKeyUpdate
  version : Store Bytes32 ℕ
  deriving DecidableEq

def KeyRegistry.empty : KeyRegistry := ⟨∅, ∅, ∅⟩

/-! ## Proving keys -/

/-- The items of a sum are checked one after the other, and so is every partial sum. -/
def checkedSum (items : List (Option ℕ)) (total : ℕ) : Except (Abort ZkError) ℕ :=
  items.foldlM (fun total item => do
    let bytes ← okOr item (.error .invalidProvingKey)
    okOr (checkBits 32 (total + bytes)) (.error .invalidProvingKey)) total

def expectedPayloadLen (schema : ProvingKeySchema) : Except (Abort ZkError) ℕ := do
  let publicInputsPlusConstant ← okOr (checkBits 32 (schema.publicInputCount + 1))
    (.error .invalidProvingKey)
  failIf (schema.variableCount < publicInputsPlusConstant ∨ schema.constraintCount = 0)
    (.error .invalidProvingKey)
  let fixedBytes := 3 * g1PointBytes + 2 * g2PointBytes
  let aQuery := checkBits 32 (schema.variableCount * g1PointBytes)
  let bG1Query := checkBits 32 (schema.variableCount * g1PointBytes)
  let bG2Query := checkBits 32 (schema.variableCount * g2PointBytes)
  let hQuery := (checkedSub schema.constraintCount 1).bind fun count =>
    checkBits 32 (count * g1PointBytes)
  let lQuery := (checkedSub schema.variableCount publicInputsPlusConstant).bind fun count =>
    checkBits 32 (count * g1PointBytes)
  checkedSum [aQuery, bG1Query, bG2Query, hQuery, lQuery] fixedBytes

/-- The 32 big-endian bytes of a small number. -/
def smallScalar (x : UInt8) : Bytes32 := (Vector.replicate 32 0).set 31 x

def validateProvingKey (key : UploadedProvingKey) (schema : ProvingKeySchema) :
    Except (Abort ZkError) Unit := do
  failIf (key.generatorX ≠ smallScalar 1 ∨ key.generatorY ≠ smallScalar 2)
    (.error .invalidProvingKey)
  let expected ← expectedPayloadLen schema
  failIf (key.payload.length ≠ expected) (.error .invalidProvingKey)

/-! ## Calls -/

section Calls

variable {here : Address} (env : Env here)

/-- The administrator is read from the data of the contract. -/
def requireAdmin (data : Option Address) (caller : Address) : Except (Abort ZkError) Unit := do
  let admin ← okOr data (.error .notInitialized)
  failIf (admin ≠ caller) (.error .notAdmin)
  hostCall (env.requireAuth caller)

def registerZkVerificationKey (data : Option Address) (caller : Address) (vkey : VerificationKey)
    (s : KeyRegistry) : Except (Abort ZkError) KeyRegistry := do
  requireAdmin env data caller
  let keys ← registerVerificationKey vkey s.keys
  pure { s with keys }

def removeZkVerificationKey (data : Option Address) (caller : Address) (circuitId : Bytes32)
    (s : KeyRegistry) : Except (Abort ZkError) KeyRegistry := do
  requireAdmin env data caller
  let keys ← removeVerificationKey circuitId s.keys
  pure { s with keys }

def getVerificationKeyVersion (circuitId : Bytes32) (s : KeyRegistry) : ℕ :=
  (s.version.lookup circuitId).getD 0

/-- The key is validated by registering it. -/
def queueVerificationKeyUpdate (proposer : Address) (vkey : VerificationKey)
    (provingKey : UploadedProvingKey) (schema : ProvingKeySchema) (s : KeyRegistry) :
    Except (Abort ZkError) (ZkVerificationKeyUpdate × KeyRegistry) := do
  let keys ← registerVerificationKey vkey s.keys
  validateProvingKey provingKey schema
  failIf ((s.pending.lookup vkey.circuitId).isSome = true) (.error .adminChangePending)
  let version ← okOr (checkBits 32 (getVerificationKeyVersion vkey.circuitId s + 1))
    (.error .overflow)
  let executeNotBefore ← okOr (checkBits 64 (env.timestamp + zkKeyUpdateDelaySeconds))
    (.error .overflow)
  let update : ZkVerificationKeyUpdate := ⟨vkey.circuitId, version, vkey, provingKey, schema,
    proposer, env.timestamp, executeNotBefore⟩
  pure (update, { s with keys, pending := s.pending.insert vkey.circuitId update })

def cancelVerificationKeyUpdate (circuitId : Bytes32) (s : KeyRegistry) :
    Except (Abort ZkError) KeyRegistry := do
  failIf (s.pending.lookup circuitId = none) (.error .noAdminChangePending)
  pure { s with pending := s.pending.erase circuitId }

def executeVerificationKeyUpdate (circuitId : Bytes32) (s : KeyRegistry) :
    Except (Abort ZkError) (ℕ × KeyRegistry) := do
  let update ← okOr (s.pending.lookup circuitId) (.error .noAdminChangePending)
  failIf (env.timestamp < update.executeNotBefore) (.error .adminTimelockNotSatisfied)
  let keys ← registerVerificationKey update.vkey s.keys
  validateProvingKey update.provingKey update.schema
  let keys ← registerVerificationKey update.vkey keys
  pure (update.version, { s with
    keys, version := s.version.insert circuitId update.version,
    pending := s.pending.erase circuitId })

end Calls

inductive KeyCall
  | registerZkVerificationKey (data : Option Address) (caller : Address) (vkey : VerificationKey)
  | removeZkVerificationKey (data : Option Address) (caller : Address) (circuitId : Bytes32)
  | queueVerificationKeyUpdate (proposer : Address) (vkey : VerificationKey)
      (provingKey : UploadedProvingKey) (schema : ProvingKeySchema)
  | cancelVerificationKeyUpdate (circuitId : Bytes32)
  | executeVerificationKeyUpdate (circuitId : Bytes32)
  deriving DecidableEq

abbrev KeyStep (here : Address) := Env here × KeyCall

def keyStep {here : Address} (i : KeyStep here) (s : KeyRegistry) :
    Except (Abort ZkError) KeyRegistry :=
  match i.2 with
  | .registerZkVerificationKey data caller vkey =>
    registerZkVerificationKey i.1 data caller vkey s
  | .removeZkVerificationKey data caller circuitId =>
    removeZkVerificationKey i.1 data caller circuitId s
  | .queueVerificationKeyUpdate proposer vkey provingKey schema =>
    Prod.snd <$> queueVerificationKeyUpdate i.1 proposer vkey provingKey schema s
  | .cancelVerificationKeyUpdate circuitId => cancelVerificationKeyUpdate circuitId s
  | .executeVerificationKeyUpdate circuitId =>
    Prod.snd <$> executeVerificationKeyUpdate i.1 circuitId s

/-! ## What is put in place -/

/-- What registering a key asks of it. -/
structure WellFormed (vkey : VerificationKey) : Prop where
  icCount_ne : vkey.icCount ≠ 0
  alphaBeta_ne : vkey.alphaBetaHash ≠ zeroScalar
  gamma_ne : vkey.gammaHash ≠ zeroScalar
  delta_ne : vkey.deltaHash ≠ zeroScalar
  ic_ne : vkey.icHash ≠ zeroScalar
  circuit_ne : vkey.circuitId ≠ zeroScalar

/-- Five points, four query points for each variable, and one each for every further constraint
and every variable that is not public. -/
def payloadBytes (schema : ProvingKeySchema) : ℕ :=
  448 + 256 * schema.variableCount + 64 * (schema.constraintCount - 1) +
    64 * (schema.variableCount - (schema.publicInputCount + 1))

/-- The standard generator, and a payload of the length that the dimensions ask for. -/
structure Fits (key : UploadedProvingKey) (schema : ProvingKeySchema) : Prop where
  generatorX_eq : key.generatorX = smallScalar 1
  generatorY_eq : key.generatorY = smallScalar 2
  inputs_lt : schema.publicInputCount < schema.variableCount
  constraints_pos : 0 < schema.constraintCount
  length_eq : key.payload.length = payloadBytes schema
  length_lt : key.payload.length < 2 ^ 32

section Spec

variable {vkey : VerificationKey} {keys keys' : KeyStore} {key : UploadedProvingKey}
  {schema : ProvingKeySchema}

theorem registerVerificationKey_eq_ok : registerVerificationKey vkey keys = .ok keys' ↔
    WellFormed vkey ∧ keys' = keys.insert ⟨0⟩ vkey := by
  simp only [registerVerificationKey, bind_eq_ok, failIf_eq_ok, isZeroBytes_eq_true, pure_eq_ok,
    exists_const, verificationKeyStorageKey]
  constructor
  · rintro ⟨hcount, hab, hgamma, hdelta, hic, hcircuit, rfl⟩
    exact ⟨⟨hcount, hab, hgamma, hdelta, hic, hcircuit⟩, rfl⟩
  · rintro ⟨⟨hcount, hab, hgamma, hdelta, hic, hcircuit⟩, rfl⟩
    exact ⟨hcount, hab, hgamma, hdelta, hic, hcircuit, rfl⟩

/-- No partial sum is larger than the whole. -/
theorem checkedSum_eq_ok (ns : List ℕ) {start total : ℕ} (hstart : start < 2 ^ 32) :
    checkedSum (ns.map (checkBits 32)) start = .ok total ↔
      start + ns.sum = total ∧ total < 2 ^ 32 := by
  induction ns generalizing start with
  | nil =>
    simp only [checkedSum, List.map_nil, List.foldlM_nil, pure_eq_ok, List.sum_nil, Nat.add_zero]
    exact ⟨fun h => ⟨h, h ▸ hstart⟩, fun h => h.1⟩
  | cons n ns ih =>
    simp only [checkedSum, List.map_cons, List.foldlM_cons, bind_eq_ok, okOr_eq_ok,
      checkBits_eq_some, List.sum_cons]
    constructor
    · rintro ⟨_, ⟨_, ⟨_, rfl⟩, hlt, rfl⟩, hrest⟩
      rw [← Nat.add_assoc]
      exact (ih hlt).mp hrest
    · rintro ⟨rfl, htotal⟩
      refine ⟨start + n, ⟨n, ⟨by omega, rfl⟩, by omega, rfl⟩, (ih (by omega)).mpr ⟨?_, htotal⟩⟩
      rw [Nat.add_assoc]

theorem expectedPayloadLen_eq_ok {n : ℕ} : expectedPayloadLen schema = .ok n ↔
    schema.publicInputCount < schema.variableCount ∧ 0 < schema.constraintCount ∧
      payloadBytes schema = n ∧ n < 2 ^ 32 := by
  have hitems : ∀ v c l : ℕ, checkedSum [checkBits 32 (v * g1PointBytes),
      checkBits 32 (v * g1PointBytes), checkBits 32 (v * g2PointBytes),
      checkBits 32 (c * g1PointBytes), checkBits 32 (l * g1PointBytes)]
      (3 * g1PointBytes + 2 * g2PointBytes) = .ok n ↔
        448 + 256 * v + 64 * c + 64 * l = n ∧ n < 2 ^ 32 := by
    intro v c l
    refine (checkedSum_eq_ok [v * 64, v * 64, v * 128, c * 64, l * 64] (by decide)).trans ?_
    simp only [List.sum_cons, List.sum_nil, g1PointBytes, g2PointBytes]
    omega
  simp only [expectedPayloadLen, bind_eq_ok, failIf_eq_ok, okOr_eq_ok, checkBits_eq_some,
    exists_const, not_or, not_lt, payloadBytes]
  constructor
  · rintro ⟨_, ⟨_, rfl⟩, ⟨hinputs, hconstraints⟩, hsum⟩
    rw [checkedSub_eq_some.mpr ⟨Nat.pos_of_ne_zero hconstraints, rfl⟩,
      checkedSub_eq_some.mpr ⟨hinputs, rfl⟩, Option.bind_some, Option.bind_some, hitems] at hsum
    exact ⟨hinputs, Nat.pos_of_ne_zero hconstraints, hsum⟩
  · rintro ⟨hinputs, hconstraints, hsum⟩
    refine ⟨_, ⟨by omega, rfl⟩, ⟨hinputs, hconstraints.ne'⟩, ?_⟩
    rwa [checkedSub_eq_some.mpr ⟨hconstraints, rfl⟩, checkedSub_eq_some.mpr ⟨hinputs, rfl⟩,
      Option.bind_some, Option.bind_some, hitems]

theorem validateProvingKey_eq_ok {u : Unit} :
    validateProvingKey key schema = .ok u ↔ Fits key schema := by
  simp only [validateProvingKey, bind_eq_ok, failIf_eq_ok, expectedPayloadLen_eq_ok, exists_const,
    not_or, not_not, ne_eq]
  constructor
  · rintro ⟨⟨hx, hy⟩, _, ⟨hinputs, hconstraints, rfl, hlt⟩, hlength⟩
    exact ⟨hx, hy, hinputs, hconstraints, hlength, hlength ▸ hlt⟩
  · rintro ⟨hx, hy, hinputs, hconstraints, hlength, hlt⟩
    exact ⟨⟨hx, hy⟩, _, ⟨hinputs, hconstraints, rfl, hlength ▸ hlt⟩, hlength⟩

end Spec

/-! ## Runs -/

section Steps

variable {here : Address} {i : KeyStep here} {s s' : KeyRegistry} {c : Bytes32}
  {u : ZkVerificationKeyUpdate}

/-- The call that an update was queued by. -/
structure Queues (i : KeyStep here) (u : ZkVerificationKeyUpdate) : Prop where
  call_eq : i.2 = .queueVerificationKeyUpdate u.proposer u.vkey u.provingKey u.schema
  circuit_eq : u.vkey.circuitId = u.circuitId
  wellFormed : WellFormed u.vkey
  fits : Fits u.provingKey u.schema
  notBefore_eq : u.executeNotBefore = i.1.timestamp + zkKeyUpdateDelaySeconds

/-- What an accepted call does. -/
inductive Change (i : KeyStep here) (s : KeyRegistry) : KeyRegistry → Prop
  | register {data : Option Address} {caller : Address} {vkey : VerificationKey}
      (hcall : i.2 = .registerZkVerificationKey data caller vkey) :
      Change i s { s with keys := s.keys.insert ⟨0⟩ vkey }
  | remove {data : Option Address} {caller : Address} {circuitId : Bytes32}
      (hcall : i.2 = .removeZkVerificationKey data caller circuitId) :
      Change i s { s with keys := s.keys.erase ⟨0⟩ }
  | queue {u : ZkVerificationKeyUpdate} (hu : Queues i u)
      (hversion : u.version = getVerificationKeyVersion u.circuitId s + 1) :
      Change i s { s with
        keys := s.keys.insert ⟨0⟩ u.vkey, pending := s.pending.insert u.circuitId u }
  | cancel {circuitId : Bytes32} (hcall : i.2 = .cancelVerificationKeyUpdate circuitId) :
      Change i s { s with pending := s.pending.erase circuitId }
  | execute {circuitId : Bytes32} {u : ZkVerificationKeyUpdate}
      (hcall : i.2 = .executeVerificationKeyUpdate circuitId)
      (hu : s.pending.lookup circuitId = some u) (hdue : u.executeNotBefore ≤ i.1.timestamp) :
      Change i s { s with
        keys := s.keys.insert ⟨0⟩ u.vkey, version := s.version.insert circuitId u.version,
        pending := s.pending.erase circuitId }

theorem executeVerificationKeyUpdate_eq_ok {env : Env here} {version : ℕ} :
    executeVerificationKeyUpdate env c s = .ok (version, s') ↔
      ∃ u, s.pending.lookup c = some u ∧ u.executeNotBefore ≤ env.timestamp ∧
        WellFormed u.vkey ∧ Fits u.provingKey u.schema ∧ version = u.version ∧
        s' = { s with
          keys := s.keys.insert ⟨0⟩ u.vkey, version := s.version.insert c u.version,
          pending := s.pending.erase c } := by
  simp only [executeVerificationKeyUpdate, bind_eq_ok, okOr_eq_ok, failIf_eq_ok, not_lt,
    registerVerificationKey_eq_ok, validateProvingKey_eq_ok, exists_const, pure_eq_ok,
    Prod.mk.injEq]
  constructor
  · rintro ⟨u, hu, hdue, _, ⟨hw, rfl⟩, hfits, _, ⟨_, rfl⟩, rfl, rfl⟩
    exact ⟨u, hu, hdue, hw, hfits, rfl, by rw [Finmap.insert_insert]⟩
  · rintro ⟨u, hu, hdue, hw, hfits, rfl, rfl⟩
    exact ⟨u, hu, hdue, _, ⟨hw, rfl⟩, hfits, _, ⟨hw, rfl⟩, rfl, by rw [Finmap.insert_insert]⟩

theorem keyStep_change (h : keyStep i s = .ok s') : Change i s s' := by
  obtain ⟨env, call⟩ := i
  cases call with
  | registerZkVerificationKey data caller vkey =>
    simp only [keyStep, registerZkVerificationKey, bind_eq_ok, registerVerificationKey_eq_ok,
      pure_eq_ok] at h
    obtain ⟨_, _, _, ⟨_, rfl⟩, rfl⟩ := h
    exact .register rfl
  | removeZkVerificationKey data caller circuitId =>
    simp only [keyStep, removeZkVerificationKey, removeVerificationKey, bind_eq_ok,
      pure_eq_ok] at h
    obtain ⟨_, _, _, ⟨_, _, rfl⟩, rfl⟩ := h
    exact .remove rfl
  | queueVerificationKeyUpdate proposer vkey provingKey schema =>
    obtain ⟨u, h⟩ := snd_map_eq_ok.mp h
    simp only [queueVerificationKeyUpdate, bind_eq_ok, registerVerificationKey_eq_ok,
      validateProvingKey_eq_ok, failIf_eq_ok, okOr_eq_ok, checkBits_eq_some, exists_const,
      pure_eq_ok, Prod.mk.injEq] at h
    obtain ⟨_, ⟨hw, rfl⟩, hfits, _, _, ⟨_, rfl⟩, _, ⟨_, rfl⟩, rfl, rfl⟩ := h
    exact .queue (u := ⟨vkey.circuitId, _, vkey, provingKey, schema, proposer, env.timestamp, _⟩)
      ⟨rfl, rfl, hw, hfits, rfl⟩ rfl
  | cancelVerificationKeyUpdate circuitId =>
    simp only [keyStep, cancelVerificationKeyUpdate, bind_eq_ok, pure_eq_ok] at h
    obtain ⟨_, _, rfl⟩ := h
    exact .cancel rfl
  | executeVerificationKeyUpdate circuitId =>
    obtain ⟨version, h⟩ := snd_map_eq_ok.mp h
    obtain ⟨u, hu, hdue, _, _, _, rfl⟩ := executeVerificationKeyUpdate_eq_ok.mp h
    exact .execute rfl hu hdue

/-- Every update waits under its own circuit, for the version after the last. -/
def KeyRegistry.Sound (s : KeyRegistry) : Prop :=
  ∀ c u, s.pending.lookup c = some u →
    u.vkey.circuitId = c ∧ u.version = getVerificationKeyVersion c s + 1

theorem Change.sound (h : Change i s s') (hs : s.Sound) : s'.Sound := by
  cases h with
  | register => exact hs
  | remove => exact hs
  | @queue u hu hversion =>
    intro c u' hu'
    rcases Store.lookup_insert_eq_some.mp hu' with ⟨rfl, rfl⟩ | ⟨_, hold⟩
    · exact ⟨hu.circuit_eq, hversion⟩
    · exact hs c u' hold
  | @cancel circuitId =>
    intro c u hu
    rw [Store.lookup_erase_ite] at hu
    split_ifs at hu
    exact hs c u hu
  | @execute circuitId w =>
    intro c u hu
    rw [Store.lookup_erase_ite] at hu
    split_ifs at hu with hc
    have hsame : (s.version.insert circuitId w.version).lookup c = s.version.lookup c := by
      rw [Store.lookup_insert_ite, if_neg hc]
    obtain ⟨hcircuit, hversion⟩ := hs c u hu
    refine ⟨hcircuit, ?_⟩
    rw [hversion, getVerificationKeyVersion, getVerificationKeyVersion, hsame]

theorem sound_empty : KeyRegistry.empty.Sound := fun _ _ h => by cases h

theorem sound_commit (hs : s.Sound) : (commit keyStep s i).Sound :=
  commit_induction hs fun _ h => (keyStep_change h).sound hs

theorem sound (run : List (KeyStep here)) : (runAll keyStep .empty run).Sound :=
  runAll_induction (fun _ _ _ hs h => (keyStep_change h).sound hs) sound_empty run

/-- How many updates of a circuit the calls of a run carry out. -/
def executions (c : Bytes32) : KeyRegistry → List (KeyStep here) → ℕ
  | _, [] => 0
  | s, i :: run =>
    (if i.2 = .executeVerificationKeyUpdate c ∧ (keyStep i s).isOk then 1 else 0) +
      executions c (commit keyStep s i) run

/-- Carrying out an update raises the version by one, and nothing else touches it. -/
theorem version_commit (hs : s.Sound) (c : Bytes32) :
    getVerificationKeyVersion c (commit keyStep s i) = getVerificationKeyVersion c s +
      if i.2 = .executeVerificationKeyUpdate c ∧ (keyStep i s).isOk then 1 else 0 := by
  cases hstep : keyStep i s with
  | error e =>
    rw [commit_of_error hstep]
    simp [Except.isOk, Except.toBool]
  | ok s' =>
    rw [commit_of_ok hstep]
    cases keyStep_change hstep with
    | register hcall => simp [hcall, getVerificationKeyVersion]
    | remove hcall => simp [hcall, getVerificationKeyVersion]
    | queue hu => simp [hu.call_eq, getVerificationKeyVersion]
    | cancel hcall => simp [hcall, getVerificationKeyVersion]
    | @execute circuitId u hcall hu =>
      rw [hcall, getVerificationKeyVersion, Store.lookup_insert_ite]
      by_cases hc : c = circuitId
      · subst hc
        simp [Except.isOk, Except.toBool, (hs c u hu).2]
      · have hne : circuitId ≠ c := fun h => hc h.symm
        simp [hc, hne, getVerificationKeyVersion]

theorem version_runAll (hs : s.Sound) (c : Bytes32) (run : List (KeyStep here)) :
    getVerificationKeyVersion c (runAll keyStep s run) =
      getVerificationKeyVersion c s + executions c s run := by
  induction run generalizing s with
  | nil => rfl
  | cons i run ih => rw [runAll_cons, ih (sound_commit hs), version_commit hs, executions,
      Nat.add_assoc]

/-- An update that appears was queued in that call. -/
theorem queues_of_commit (hbefore : s.pending.lookup c ≠ some u)
    (hafter : (commit keyStep s i).pending.lookup c = some u) : Queues i u := by
  cases hstep : keyStep i s with
  | error e =>
    rw [commit_of_error hstep] at hafter
    exact absurd hafter hbefore
  | ok s' =>
    rw [commit_of_ok hstep] at hafter
    cases keyStep_change hstep with
    | register => exact absurd hafter hbefore
    | remove => exact absurd hafter hbefore
    | queue hu =>
      rcases Store.lookup_insert_eq_some.mp hafter with ⟨_, rfl⟩ | ⟨_, hold⟩
      · exact hu
      · exact absurd hold hbefore
    | cancel =>
      rw [Store.lookup_erase_ite] at hafter
      split_ifs at hafter
      exact absurd hafter hbefore
    | execute =>
      rw [Store.lookup_erase_ite] at hafter
      split_ifs at hafter
      exact absurd hafter hbefore

/-- What an accepted call writes into the one slot of the keys. A queued key is written at once,
and calling it off writes nothing. -/
def written (s : KeyRegistry) (i : KeyStep here) : Option (Option VerificationKey) :=
  if (keyStep i s).isOk then
    match i.2 with
    | .registerZkVerificationKey _ _ vkey => some (some vkey)
    | .removeZkVerificationKey _ _ _ => some none
    | .queueVerificationKeyUpdate _ vkey _ _ => some (some vkey)
    | .cancelVerificationKeyUpdate _ => none
    | .executeVerificationKeyUpdate circuitId =>
      some ((s.pending.lookup circuitId).map fun u => u.vkey)
  else none

theorem writesCell_written (c : Bytes32) :
    WritesCell (@keyStep here) (fun _ => True) (fun s => getVerificationKey c s.keys)
      written := by
  refine ⟨fun _ _ _ => trivial, fun s i _ => ?_⟩
  rw [written]
  cases hstep : keyStep i s with
  | error e =>
    rw [commit_of_error hstep]
    rfl
  | ok s' =>
    rw [commit_of_ok hstep, if_pos (show (Except.ok s' : Except (Abort ZkError) _).isOk from rfl)]
    cases keyStep_change hstep with
    | register hcall =>
      rw [hcall]
      exact Finmap.lookup_insert _
    | remove hcall =>
      rw [hcall]
      exact Finmap.lookup_erase _ _
    | queue hu =>
      rw [hu.call_eq]
      exact Finmap.lookup_insert _
    | cancel hcall =>
      rw [hcall]
      rfl
    | execute hcall hu =>
      rw [hcall]
      simp only [hu, Option.map_some, Option.getD_some]
      exact Finmap.lookup_insert _

end Steps

/-- An update is only carried out two days after it was queued, if it waited all the while. Its
version is the number of updates of its circuit so far, and its key is then in force. -/
theorem key_updates_timelocked {here : Address} {run : List (KeyStep here)} {env : Env here}
    {c : Bytes32} {version : ℕ} {s' : KeyRegistry}
    (h : executeVerificationKeyUpdate env c (runAll keyStep .empty run) = .ok (version, s')) :
    version = executions c .empty run + 1 ∧
    ∃ u pre i post, run = pre ++ i :: post ∧ Queues i u ∧ u.circuitId = c ∧
      i.1.timestamp + zkKeyUpdateDelaySeconds ≤ env.timestamp ∧
      (∀ mid rest, post = mid ++ rest →
        (runAll keyStep .empty (pre ++ i :: mid)).pending.lookup c = some u) ∧
      getVerificationKey c s'.keys = some u.vkey ∧ s'.pending.lookup c = none := by
  obtain ⟨u, hu, hdue, _, _, rfl, rfl⟩ := executeVerificationKeyUpdate_eq_ok.mp h
  obtain ⟨hcircuit, hversion⟩ := sound run c u hu
  constructor
  · rw [hversion, version_runAll sound_empty]
    simp [getVerificationKeyVersion, KeyRegistry.empty]
  · obtain ⟨pre, i, post, rfl, hnot, hsince⟩ := exists_last_change
      (Q := fun s : KeyRegistry => s.pending.lookup c = some u) (s := .empty)
      (fun h => by cases h) hu
    have hqueued : Queues i u := by
      refine queues_of_commit hnot ?_
      have hfirst := hsince [] post rfl
      rwa [runAll_append] at hfirst
    refine ⟨u, pre, i, post, rfl, hqueued, hqueued.circuit_eq.symm.trans hcircuit, ?_, hsince,
      Finmap.lookup_insert _, Finmap.lookup_erase _ _⟩
    exact hqueued.notBefore_eq ▸ hdue

section Sample

def sampleKey : VerificationKey :=
  ⟨smallScalar 1, smallScalar 2, smallScalar 3, 1, smallScalar 4, smallScalar 5⟩

def keyCallAt (timestamp : ℕ) (call : KeyCall) : KeyStep ⟨0⟩ :=
  ({ Env.standard ⟨0⟩ 9 none with timestamp }, call)

def updateRun : List (KeyStep ⟨0⟩) :=
  [keyCallAt 7 (.queueVerificationKeyUpdate ⟨4⟩ sampleKey
    ⟨smallScalar 1, smallScalar 2, List.replicate 704 0xa5⟩ ⟨0, 1, 1⟩)]

def updatedRegistry : KeyRegistry :=
  ⟨Finmap.insert ⟨0⟩ sampleKey ∅, ∅, Finmap.insert (smallScalar 5) 1 ∅⟩

/-- The first update of a circuit, two days after it was queued. -/
theorem updateRun_timelocked :
    1 = executions (smallScalar 5) .empty updateRun + 1 ∧
    ∃ u pre i post, updateRun = pre ++ i :: post ∧ Queues i u ∧ u.circuitId = smallScalar 5 ∧
      i.1.timestamp + zkKeyUpdateDelaySeconds ≤ 7 + zkKeyUpdateDelaySeconds ∧
      (∀ mid rest, post = mid ++ rest →
        (runAll keyStep .empty (pre ++ i :: mid)).pending.lookup (smallScalar 5) = some u) ∧
      getVerificationKey (smallScalar 5) updatedRegistry.keys = some u.vkey ∧
      updatedRegistry.pending.lookup (smallScalar 5) = none :=
  key_updates_timelocked (show executeVerificationKeyUpdate
    { Env.standard ⟨0⟩ 9 none with timestamp := 7 + zkKeyUpdateDelaySeconds } (smallScalar 5)
    (runAll keyStep .empty updateRun) = .ok (1, updatedRegistry) by decide +kernel)

end Sample

/-- The key that proofs of any circuit are checked against is the one that was written last, by
whatever call and for whatever circuit. A queued key is in force at once and stays so although it
is called off, until another call writes. -/
theorem key_in_force_iff {here : Address} (run : List (KeyStep here)) (c : Bytes32)
    (vkey : VerificationKey) :
    getVerificationKey c (runAll keyStep .empty run).keys = some vkey ↔
      ∃ pre i post, run = pre ++ i :: post ∧
        written (runAll keyStep .empty pre) i = some (some vkey) ∧
        ∀ mid j rest, post = mid ++ j :: rest →
          written (runAll keyStep .empty (pre ++ i :: mid)) j = none :=
  (writesCell_written c).eq_some_iff trivial rfl

end StellarFlow.Zk.KeyUpdate
