import StellarFlow.Foundation.KeyedWindow
import StellarFlow.Zk.BatchInsert

/-!
# The window of historical roots

The store keeps the last roots twice, in a list and in records under the roots themselves. The
root that leaves a full list takes its record with it. The same root may have been recorded again
since, as inserting an empty leaf does not change the tree: it is then in the list without a
record, and a proof against it is refused.
-/
namespace StellarFlow.Zk

open Foundation KeyedWindow

inductive RootCall where
  | insertDeposit (commitment : Bytes32)
  | batchInsertDeposits (commitments : List Bytes32)
  | setRootValidityWindow (validitySeconds : ℕ)

/-- A call, some seconds after the last accepted one. -/
structure RootStep (here : Address) where
  elapsed : ℕ
  env : Env here
  call : RootCall

/-- The store with the recorded roots and their times, newest first. -/
structure RootHistory where
  store : DepositStore
  now : ℕ
  recordings : List (Bytes32 × ℕ)

def getRootValidityWindow (t : DepositStore) : ℕ :=
  t.rootValidityWindow.getD defaultRootValidityDuration

def setRootValidityWindow (validitySeconds : ℕ) (t : DepositStore) : DepositStore :=
  { t with rootValidityWindow := some validitySeconds }

/-- The two copies of the window. -/
def DepositStore.rootWindow (t : DepositStore) : KeyedWindow Bytes32 RootRecord :=
  ⟨t.rootBufferList, t.rootRecords⟩

section Model

variable (sha256 : ByteString → Bytes32) {here : Address}

/-- The root that a call records, and the store after it. -/
def RootCall.exec (env : Env here) (t : DepositStore) :
    RootCall → Except Fault (Option Bytes32 × DepositStore)
  | insertDeposit commitment => do
    let (result, t) ← Zk.insertDeposit sha256 env commitment t
    pure (some result.2, t)
  | batchInsertDeposits commitments => do
    let (result, t) ← Zk.batchInsertDeposits sha256 env commitments t
    pure (some result.newRoot, t)
  | setRootValidityWindow validitySeconds =>
    pure (none, Zk.setRootValidityWindow validitySeconds t)

def rootStep (i : RootStep here) (h : RootHistory) : Except Fault RootHistory := do
  let now ← okOr (checkBits 64 (h.now + i.elapsed)) Fault.trap
  let (root, store) ← i.call.exec sha256 { i.env with timestamp := now } h.store
  pure ⟨store, now, root.toList.map (·, now) ++ h.recordings⟩

/-- The root of the tree after the insertions of a call. -/
def nextRoot (t : DepositStore) : RootCall → Option Bytes32
  | .insertDeposit commitment =>
    some (pathHash sha256 t t.nextLeafIndex commitment treeDepth)
  | .batchInsertDeposits commitments => some (rootAt sha256 t commitments commitments.length)
  | .setRootValidityWindow _ => none

end Model

/-- A root recorded at a time is too old. -/
def Expired (window now time : ℕ) : Prop := 0 < window ∧ time + window < now

/-- The root is among the last recordings, and the latest of them is not too old. -/
def CurrentAt (h : RootHistory) (root : Bytes32) (now : ℕ) : Prop :=
  ∃ time, latest rootBufferCapacity h.recordings root = some time ∧
    ¬ Expired (getRootValidityWindow h.store) now time

/-- From now on exactly the current roots are valid. -/
def WindowExact (here : Address) (h : RootHistory) : Prop :=
  ∀ env : Env here, h.now ≤ env.timestamp → env.timestamp < 2 ^ 64 → ∀ root,
    (∃ record, validateRoot env root h.store = .ok record) ↔ CurrentAt h root env.timestamp

/-- No root without a record is among the last recordings, unless all of its recordings are too
old. -/
def NoneLost (h : RootHistory) : Prop :=
  ∀ root time, latest rootBufferCapacity h.recordings root = some time →
    h.store.rootRecords.lookup root = none →
    Expired (getRootValidityWindow h.store) h.now time

/-- The root that leaves the window is not the new root, and has not been recorded again since
unless too long ago. A new validity does not bring back a root that has lost its record. -/
def SparesRecorded (sha256 : ByteString → Bytes32) {here : Address} (h : RootHistory)
    (i : RootStep here) : Prop :=
  (∃ h', rootStep sha256 i h = .ok h') →
    (∀ root, nextRoot sha256 h.store i.call = some root →
      ∀ old, oldest rootBufferCapacity h.recordings = some old →
        old ≠ root ∧ ∀ time, latest (rootBufferCapacity - 1) h.recordings old = some time →
          Expired (getRootValidityWindow h.store) (h.now + i.elapsed) time) ∧
    ∀ window, i.call = .setRootValidityWindow window →
      ∀ root time, latest rootBufferCapacity h.recordings root = some time →
        h.store.rootRecords.lookup root = none → Expired window (h.now + i.elapsed) time

/-- The list holds the last recordings, and no record is outdated. -/
structure RootsFollow (sha256 : ByteString → Bytes32) (h : RootHistory) : Prop where
  wellFormed : DepositStore.WellFormed sha256 h.store
  follows : Follows rootBufferCapacity RootRecord.insertedAt h.store.rootWindow h.recordings
  now_lt : h.now < 2 ^ 64

/-- What an accepted call does to the window. -/
inductive RootEffect (sha256 : ByteString → Bytes32) {here : Address} (h : RootHistory)
    (i : RootStep here) : RootHistory → Prop
  | recorded (root : Bytes32) (t' : DepositStore) (leafCount : ℕ)
      (hroot : nextRoot sha256 h.store i.call = some root)
      (hwell : DepositStore.WellFormed sha256 t')
      (hwindow : t'.rootWindow = h.store.rootWindow.push rootBufferCapacity root
        ⟨root, h.now + i.elapsed, i.env.sequence, leafCount⟩)
      (hvalidity : t'.rootValidityWindow = h.store.rootValidityWindow) :
      RootEffect sha256 h i ⟨t', h.now + i.elapsed, (root, h.now + i.elapsed) :: h.recordings⟩
  | validity (window : ℕ) (hcall : i.call = .setRootValidityWindow window) :
      RootEffect sha256 h i
        ⟨setRootValidityWindow window h.store, h.now + i.elapsed, h.recordings⟩

/-! ## Recording a root -/

section Recording

variable {sha256 : ByteString → Bytes32} {here : Address} {env : Env here} {t t' : DepositStore}
  {root : Bytes32} {leafCount : ℕ}

theorem recordHistoricalRoot_rootWindow :
    (recordHistoricalRoot env root leafCount t).rootWindow =
      t.rootWindow.push rootBufferCapacity root
        ⟨root, env.timestamp, env.sequence, leafCount⟩ := by
  unfold recordHistoricalRoot KeyedWindow.push DepositStore.rootWindow
  dsimp only
  split_ifs <;> rfl

@[simp] theorem recordHistoricalRoot_rootValidityWindow :
    (recordHistoricalRoot env root leafCount t).rootValidityWindow = t.rootValidityWindow := by
  rw [recordHistoricalRoot_frame]

theorem insertDeposit_rootWindow (ht : DepositStore.WellFormed sha256 t) {commitment : Bytes32}
    {r : ℕ × Bytes32} (h : insertDeposit sha256 env commitment t = .ok (r, t')) :
    r.2 = pathHash sha256 t t.nextLeafIndex commitment treeDepth ∧
      DepositStore.WellFormed sha256 t' ∧
      t'.rootWindow = t.rootWindow.push rootBufferCapacity r.2
        ⟨r.2, env.timestamp, env.sequence, t.nextLeafIndex + 1⟩ ∧
      t'.rootValidityWindow = t.rootValidityWindow := by
  have hroom : t.nextLeafIndex < 2 ^ treeDepth := by
    rw [insertDeposit] at h
    obtain ⟨_, hroom, -⟩ := bind_eq_ok.mp h
    rw [failIf_eq_ok] at hroom
    exact not_le.mp hroom
  obtain ⟨t₁, hinsert, hi⟩ := insertDeposit_spec ht hroom env commitment
  rw [hinsert] at h
  cases h
  refine ⟨rfl, hi.wellFormed, ?_, ?_⟩
  · rw [hi.recorded, recordHistoricalRoot_rootWindow]
    rfl
  · rw [hi.recorded, recordHistoricalRoot_rootValidityWindow]

theorem batchInsertDeposits_rootWindow (ht : DepositStore.WellFormed sha256 t)
    {commitments : List Bytes32} {r : BatchInsertResult}
    (h : batchInsertDeposits sha256 env commitments t = .ok (r, t')) :
    r.newRoot = rootAt sha256 t commitments commitments.length ∧
      DepositStore.WellFormed sha256 t' ∧
      t'.rootWindow = t.rootWindow.push rootBufferCapacity r.newRoot
        ⟨r.newRoot, env.timestamp, env.sequence, t.nextLeafIndex + commitments.length⟩ ∧
      t'.rootValidityWindow = t.rootValidityWindow := by
  obtain ⟨hpos, hmax, hroom⟩ := batchInsertDeposits_fits h
  obtain ⟨result, t₁, hinsert, hi⟩ := batchInsertDeposits_spec ht env commitments hpos hmax hroom
  rw [hinsert] at h
  cases h
  obtain ⟨t₁, hload, hc₁⟩ := loadFilled_spec ht (le_refl treeDepth)
  obtain ⟨filled, t₂, hloop, hc₂, hfilled⟩ := batchLoop_spec hc₁
    (fun l => if l < treeDepth then some (leftChild sha256 t l) else none)
    (fun l hl => if_pos hl) (le_refl commitments.length)
  have hframe := (flushFilled_spec filled (hc₂.packed ▸ ht.packed_length) treeDepth).frame
  rw [batchInsertDeposits] at hinsert
  obtain ⟨_, -, hinsert⟩ := bind_eq_ok.mp hinsert
  obtain ⟨_, -, hinsert⟩ := bind_eq_ok.mp hinsert
  obtain ⟨_, -, hinsert⟩ := bind_eq_ok.mp hinsert
  obtain ⟨_, -, hinsert⟩ := bind_eq_ok.mp hinsert
  simp only [hload, hloop, ok_bind, pure_eq_ok, Prod.mk.injEq] at hinsert
  obtain ⟨rfl, rfl⟩ := hinsert
  refine ⟨rfl, hi.wellFormed, ?_, ?_⟩
  · rw [recordHistoricalRoot_rootWindow, hframe, hc₂.frame]
    rfl
  · rw [recordHistoricalRoot_rootValidityWindow, hframe, hc₂.frame]

end Recording

/-! ## Accepted calls -/

section Steps

variable {sha256 : ByteString → Bytes32} {here : Address} {h h' : RootHistory}
  {i : RootStep here}

theorem rootStep_effect (hf : RootsFollow sha256 h) (h0 : rootStep sha256 i h = .ok h') :
    h.now + i.elapsed < 2 ^ 64 ∧ RootEffect sha256 h i h' := by
  rw [rootStep] at h0
  obtain ⟨now, hnow, h0⟩ := bind_eq_ok.mp h0
  obtain ⟨hlt, rfl⟩ := checkBits_eq_some.mp (okOr_eq_ok.mp hnow)
  obtain ⟨⟨root, store⟩, hexec, h0⟩ := bind_eq_ok.mp h0
  obtain rfl := pure_eq_ok.mp h0
  refine ⟨hlt, ?_⟩
  cases hcall : i.call with
  | insertDeposit commitment =>
    rw [hcall, RootCall.exec] at hexec
    obtain ⟨⟨r, t'⟩, hinsert, hexec⟩ := bind_eq_ok.mp hexec
    cases pure_eq_ok.mp hexec
    obtain ⟨hroot, hwell, hwindow, hvalidity⟩ := insertDeposit_rootWindow hf.wellFormed hinsert
    exact .recorded r.2 _ _ (by rw [hcall, nextRoot, hroot]) hwell hwindow hvalidity
  | batchInsertDeposits commitments =>
    rw [hcall, RootCall.exec] at hexec
    obtain ⟨⟨r, t'⟩, hinsert, hexec⟩ := bind_eq_ok.mp hexec
    cases pure_eq_ok.mp hexec
    obtain ⟨hroot, hwell, hwindow, hvalidity⟩ :=
      batchInsertDeposits_rootWindow hf.wellFormed hinsert
    exact .recorded r.newRoot _ _ (by rw [hcall, nextRoot, hroot]) hwell hwindow hvalidity
  | setRootValidityWindow window =>
    rw [hcall, RootCall.exec] at hexec
    cases pure_eq_ok.mp hexec
    exact .validity window hcall

theorem RootsFollow.step (hf : RootsFollow sha256 h) (h0 : rootStep sha256 i h = .ok h') :
    RootsFollow sha256 h' := by
  obtain ⟨hlt, heffect⟩ := rootStep_effect hf h0
  cases heffect with
  | recorded root t' leafCount hroot hwell hwindow hvalidity =>
    refine ⟨hwell, ?_, hlt⟩
    rw [hwindow]
    exact hf.follows.push (by decide) root ⟨root, _, _, leafCount⟩
  | validity window hcall =>
    exact ⟨⟨hf.wellFormed.zeros_cached, hf.wellFormed.packed_length, hf.wellFormed.started⟩,
      hf.follows, hlt⟩

theorem validateRoot_iff {env : Env here} {root : Bytes32} {t : DepositStore}
    (hlt : env.timestamp < 2 ^ 64) :
    (∃ record, validateRoot env root t = .ok record) ↔
      ∃ record, t.rootRecords.lookup root = some record ∧
        ¬ Expired (getRootValidityWindow t) env.timestamp record.insertedAt := by
  refine exists_congr fun record => ⟨fun h => ?_, fun ⟨hlookup, hfresh⟩ => ?_⟩
  · rw [validateRoot] at h
    obtain ⟨record', hlookup, h⟩ := bind_eq_ok.mp h
    obtain ⟨_, hfresh, h⟩ := bind_eq_ok.mp h
    obtain rfl := pure_eq_ok.mp h
    rw [failIf_eq_ok] at hfresh
    refine ⟨okOr_eq_ok.mp hlookup, fun hexpired => hfresh ⟨hexpired.1, ?_⟩⟩
    exact (min_le_left _ _).trans_lt hexpired.2
  · have hpass : ¬ (0 < getRootValidityWindow t ∧
        min (record.insertedAt + getRootValidityWindow t) (2 ^ 64 - 1) < env.timestamp) := by
      rintro ⟨hpos, hold⟩
      exact hfresh ⟨hpos, (min_lt_iff.mp hold).resolve_right (by omega)⟩
    rw [validateRoot, hlookup, okOr_some, ok_bind]
    exact congrArg (· >>= fun _ => pure record) (failIf_of_not hpass)

/-- A window with records for all current roots is exact. -/
theorem RootsFollow.windowExact_iff (hf : RootsFollow sha256 h) :
    WindowExact here h ↔ NoneLost h := by
  constructor
  · intro hexact root time hlatest hnone
    by_contra hfresh
    obtain ⟨record, hvalid⟩ := (hexact { Env.standard here 0 none with timestamp := h.now } le_rfl
      hf.now_lt root).mpr ⟨time, hlatest, hfresh⟩
    obtain ⟨record, hlookup, -⟩ := (validateRoot_iff hf.now_lt).mp ⟨record, hvalid⟩
    rw [hnone] at hlookup
    cases hlookup
  · intro hkept env hle hlt root
    rw [validateRoot_iff hlt]
    constructor
    · rintro ⟨record, hlookup, hfresh⟩
      exact ⟨record.insertedAt, hf.follows.entries_latest root record hlookup, hfresh⟩
    · rintro ⟨time, hlatest, hfresh⟩
      cases hlookup : h.store.rootRecords.lookup root with
      | none =>
        obtain ⟨hpos, hold⟩ := hkept root time hlatest hlookup
        exact absurd ⟨hpos, hold.trans_le hle⟩ hfresh
      | some record =>
        have hsame := hf.follows.entries_latest root record hlookup
        rw [hlatest] at hsame
        obtain rfl := Option.some.inj hsame
        exact ⟨record, rfl, hfresh⟩

theorem NoneLost.recorded_iff (hf : RootsFollow sha256 h) (hkept : NoneLost h) {now : ℕ}
    {root : Bytes32} {record : RootRecord} {t' : DepositStore} (hle : h.now ≤ now)
    (hwindow : t'.rootWindow = h.store.rootWindow.push rootBufferCapacity root record)
    (hvalidity : t'.rootValidityWindow = h.store.rootValidityWindow) :
    NoneLost ⟨t', now, (root, now) :: h.recordings⟩ ↔
      ∀ old, oldest rootBufferCapacity h.recordings = some old →
        old ≠ root ∧ ∀ time, latest (rootBufferCapacity - 1) h.recordings old = some time →
          Expired (getRootValidityWindow h.store) now time := by
  have hpos : 0 < rootBufferCapacity := by decide
  have hlookup : ∀ r, t'.rootRecords.lookup r =
      if oldest rootBufferCapacity h.recordings = some r then none
      else if r = root then some record else h.store.rootRecords.lookup r := by
    intro r
    have hpush := hf.follows.lookup_push (k := root) (v := record) hpos r
    rw [← hwindow] at hpush
    exact hpush
  have hsame : getRootValidityWindow t' = getRootValidityWindow h.store := by
    rw [getRootValidityWindow, hvalidity, getRootValidityWindow]
  constructor
  · intro hkept' old hold
    have hnone : t'.rootRecords.lookup old = none := by rw [hlookup, if_pos hold]
    have hexpired := fun time hlatest => hkept' old time hlatest hnone
    dsimp only at hexpired
    rw [hsame] at hexpired
    refine ⟨?_, fun time hbehind => ?_⟩
    · rintro rfl
      exact absurd (hexpired now (by rw [latest_cons hpos, if_pos rfl])).2 (by omega)
    · by_cases hroot : old = root
      · subst hroot
        exact absurd (hexpired now (by rw [latest_cons hpos, if_pos rfl])).2 (by omega)
      · exact hexpired time (by rw [latest_cons hpos, if_neg hroot, hbehind])
  · intro hspares r time hlatest hnone
    dsimp only at hlatest hnone ⊢
    rw [hsame]
    rw [hlookup] at hnone
    split_ifs at hnone with hold hroot
    · obtain ⟨hne, hbehind⟩ := hspares r hold
      rw [latest_cons hpos, if_neg hne] at hlatest
      exact hbehind time hlatest
    · obtain ⟨hwin, hlt⟩ := hkept r time (latest_of_latest_cons hpos hroot hlatest) hnone
      exact ⟨hwin, hlt.trans_le hle⟩

/-- After an accepted call the window is still exact if and only if the call spares the recorded
roots. -/
theorem RootsFollow.exact_iff (hf : RootsFollow sha256 h) (hexact : WindowExact here h)
    (h0 : rootStep sha256 i h = .ok h') : WindowExact here h' ↔ SparesRecorded sha256 h i := by
  have hkept := hf.windowExact_iff.mp hexact
  rw [(hf.step h0).windowExact_iff, SparesRecorded]
  obtain ⟨hlt, heffect⟩ := rootStep_effect hf h0
  cases heffect with
  | recorded root t' leafCount hroot hwell hwindow hvalidity =>
    rw [hkept.recorded_iff hf (Nat.le_add_right _ _) hwindow hvalidity]
    constructor
    · rintro hspares -
      refine ⟨fun root' hroot' => ?_, fun window hcall => ?_⟩
      · rw [hroot] at hroot'
        obtain rfl := Option.some.inj hroot'
        exact hspares
      · rw [hcall] at hroot
        cases hroot
    · exact fun hspares => (hspares ⟨_, h0⟩).1 root hroot
  | validity window hcall =>
    constructor
    · rintro hkept' -
      refine ⟨fun root hroot => ?_, fun window' hcall' => ?_⟩
      · rw [hcall] at hroot
        cases hroot
      · rw [hcall] at hcall'
        cases hcall'
        exact hkept'
    · exact fun hspares => (hspares ⟨_, h0⟩).2 window hcall

end Steps

def RootHistory.empty : RootHistory := ⟨.empty, 0, []⟩

theorem RootsFollow.empty (sha256 : ByteString → Bytes32) : RootsFollow sha256 .empty where
  wellFormed := WellFormed.empty
  follows := follows_nil _
  now_lt := by decide

theorem windowExact_empty (here : Address) (sha256 : ByteString → Bytes32) :
    WindowExact here .empty :=
  (RootsFollow.empty sha256).windowExact_iff.mpr fun root time hlatest _ => by
    rw [latest, RootHistory.empty, List.take_nil] at hlatest
    cases hlatest

/-- The window of roots is exact throughout a run if and only if no call drops a root that has
been recorded again. -/
theorem windowExact_throughout_iff (sha256 : ByteString → Bytes32) {here : Address}
    (run : List (RootStep here)) :
    Throughout (rootStep sha256) (WindowExact here) .empty run ↔
      Along (rootStep sha256) (SparesRecorded sha256) .empty run := by
  refine throughout_iff_along (I := RootsFollow sha256)
    (fun h i hf => commit_induction hf fun h' h0 => hf.step h0) (fun h i hf hexact => ?_)
    (.empty sha256) (windowExact_empty here sha256) run
  exact commit_iff_of_accepted hexact fun h' h0 => hf.exact_iff hexact h0

/-! ## The empty leaf -/

section Repeated

variable {sha256 : ByteString → Bytes32} {h : RootHistory} {k : ℕ}

def emptyLeafStep (sha256 : ByteString → Bytes32) : RootStep ⟨0⟩ :=
  ⟨0, Env.standard ⟨0⟩ 0 none, .insertDeposit (sha256 zeroLeafSeed)⟩

/-- The history after insertions of the empty leaf, which all record the same root. -/
structure OnlyEmpty (sha256 : ByteString → Bytes32) (k : ℕ) (h : RootHistory) : Prop where
  follows : RootsFollow sha256 h
  tree : Represents sha256 h.store (List.replicate k (sha256 zeroLeafSeed))
  now_eq : h.now = 0
  recordings_eq : h.recordings = List.replicate k (emptyNode sha256 treeDepth, 0)

theorem fullRoot_replicate (sha256 : ByteString → Bytes32) (k : ℕ) :
    fullRoot sha256 (List.replicate k (sha256 zeroLeafSeed)) = emptyNode sha256 treeDepth := by
  have hleaves : HashTree.leaves (sha256 zeroLeafSeed) (List.replicate k (sha256 zeroLeafSeed)) =
      fun _ => sha256 zeroLeafSeed := by
    funext j
    rw [HashTree.leaves, List.getD_eq_getElem?_getD, List.getElem?_replicate]
    split_ifs <;> rfl
  rw [fullRoot, fullNode, hleaves, HashTree.node_const, emptyNode]

theorem OnlyEmpty.step (he : OnlyEmpty sha256 k h) (hk : k < 2 ^ treeDepth) :
    ∃ h' record, rootStep sha256 (emptyLeafStep sha256) h = .ok h' ∧
      OnlyEmpty sha256 (k + 1) h' ∧
      h'.store.rootWindow =
        h.store.rootWindow.push rootBufferCapacity (emptyNode sha256 treeDepth) record := by
  have hlength := List.length_replicate (n := k) (a := sha256 zeroLeafSeed)
  have hroom : h.store.nextLeafIndex < 2 ^ treeDepth := by
    rw [he.tree.nextLeafIndex_eq, hlength]
    exact hk
  obtain ⟨t', hinsert, hi⟩ := insertDeposit_spec he.tree.wellFormed hroom
    { Env.standard (⟨0⟩ : Address) 0 none with timestamp := 0 } (sha256 zeroLeafSeed)
  have hroot : pathHash sha256 h.store h.store.nextLeafIndex (sha256 zeroLeafSeed) treeDepth =
      emptyNode sha256 treeDepth := by
    rw [he.tree.pathHash_eq (by rw [hlength]; exact hk), ← List.replicate_succ',
      fullRoot_replicate]
  have hstep : rootStep sha256 (emptyLeafStep sha256) h =
      .ok ⟨t', 0, (emptyNode sha256 treeDepth, 0) :: h.recordings⟩ := by
    have hclock : checkBits 64 (0 + (emptyLeafStep sha256).elapsed) = some 0 := rfl
    rw [rootStep, he.now_eq, hclock, okOr_some, ok_bind]
    have hexec : (emptyLeafStep sha256).call.exec sha256
        { (emptyLeafStep sha256).env with timestamp := 0 } h.store =
        .ok (some (emptyNode sha256 treeDepth), t') := by
      rw [← hroot]
      exact congrArg (· >>= _) hinsert
    exact congrArg (· >>= _) hexec
  obtain ⟨-, -, hwindow, -⟩ := insertDeposit_rootWindow he.tree.wellFormed hinsert
  dsimp only at hwindow
  rw [hroot] at hwindow
  refine ⟨_, _, hstep, ⟨he.follows.step hstep, ?_, rfl, ?_⟩, hwindow⟩
  · rw [List.replicate_succ']
    exact he.tree.inserted (by rw [hlength]; exact hk) hi
  · rw [he.recordings_eq, List.replicate_succ]

theorem onlyEmpty_runAll (sha256 : ByteString → Bytes32) (hk : k ≤ 2 ^ treeDepth) :
    OnlyEmpty sha256 k
      (runAll (rootStep sha256) .empty (List.replicate k (emptyLeafStep sha256))) := by
  induction k with
  | zero => exact ⟨.empty sha256, Represents.empty, rfl, rfl⟩
  | succ k ih =>
    obtain ⟨h', _, hstep, he, -⟩ := (ih (by omega)).step hk
    rw [List.replicate_succ', runAll_append, runAll_cons, commit_of_ok hstep, runAll_nil]
    exact he

/-- After one insertion too many the current root has no record. -/
theorem not_windowExact_replicate (sha256 : ByteString → Bytes32) :
    ¬ Throughout (rootStep sha256) (WindowExact ⟨0⟩) .empty
        (List.replicate (rootBufferCapacity + 1) (emptyLeafStep sha256)) := by
  intro hexact
  have he := onlyEmpty_runAll sha256 (k := rootBufferCapacity) (by decide)
  obtain ⟨h', record, hstep, he', hwindow⟩ := he.step (by decide)
  have hlast := hexact.last
  rw [List.replicate_succ', runAll_append, runAll_cons, commit_of_ok hstep, runAll_nil,
    he'.follows.windowExact_iff] at hlast
  have hnone : h'.store.rootWindow.entries.lookup (emptyNode sha256 treeDepth) = none := by
    rw [hwindow, he.follows.follows.lookup_push (by decide), if_pos]
    rw [oldest, he.recordings_eq]
    rfl
  have hlatest : latest rootBufferCapacity h'.recordings (emptyNode sha256 treeDepth) = some 0 := by
    rw [he'.recordings_eq, List.replicate_succ, latest_cons (by decide), if_pos rfl]
  have hexpired := (hlast _ 0 hlatest hnone).2
  rw [he'.now_eq] at hexpired
  omega

theorem emptyLeaves_inexact :
    ¬ Throughout (rootStep sampleHash) (WindowExact ⟨0⟩) .empty
        (List.replicate 33 (emptyLeafStep sampleHash)) :=
  not_windowExact_replicate sampleHash

end Repeated

end StellarFlow.Zk
