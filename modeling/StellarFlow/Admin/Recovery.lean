import StellarFlow.Admin.Calls

/-!
# The dead-man's switch

The recovery key may take the contract over once the admin has been inactive for 180 days.
Inactivity is read off the last noted activity, which most operations of the admin do not note.
It is right exactly where those that do not are all old enough.
-/
namespace StellarFlow.Admin

open Foundation

structure AdminAction where
  time : ℕ
  recorded : Bool
  deriving DecidableEq, Repr

/-- The store with the time and all operations that the admin signed. -/
structure ActivityHistory where
  store : UpgradeStore
  now : ℕ
  actions : List AdminAction

/-- A contract just deployed. -/
def ActivityHistory.start : ActivityHistory := ⟨⟨.empty, none, none, none⟩, 0, []⟩

/-- A call some seconds after the last accepted one. -/
structure ActivityStep (here : Address) where
  elapsed : ℕ
  env : UpgradeEnv here
  call : AdminCall

-- The hash function of the host.
variable {here : Address} (sha256 : Bytes → Digest)

def activityStep (i : ActivityStep here) (h : ActivityHistory) : Except Fault ActivityHistory := do
  let now := h.now + i.elapsed
  let store ← i.call.exec { i.env with timestamp := now } sha256 h.store
  let action : AdminAction := ⟨now, i.call.records⟩
  pure ⟨store, now, if i.call.byAdmin h.store.admin then action :: h.actions else h.actions⟩

/-- A recovery succeeds only with the configured key, and 180 days after every operation that
the admin signed. -/
def AfterInactivity (h : ActivityHistory) (i : ActivityStep here) : Prop :=
  ∀ recoveryKey, i.call = .recoverAdmin recoveryKey → (∃ h', activityStep sha256 i h = .ok h') →
    h.store.admin.recoveryKey = some recoveryKey ∧
    ∀ action ∈ h.actions,
      action.time + recoveryInactivityThresholdSeconds ≤ h.now + i.elapsed

/-- A successful recovery comes 180 days after the operations that were not noted. -/
def AfterUnrecorded (h : ActivityHistory) (i : ActivityStep here) : Prop :=
  ∀ recoveryKey, i.call = .recoverAdmin recoveryKey → (∃ h', activityStep sha256 i h = .ok h') →
    ∀ action ∈ h.actions, action.recorded = false →
      action.time + recoveryInactivityThresholdSeconds ≤ h.now + i.elapsed

/-- The last noted activity is at least as late as every operation that notes it. -/
structure ActivityNoted (h : ActivityHistory) : Prop where
  past : ∀ time, h.store.admin.lastAdminActivity = some time → time ≤ h.now
  noted : ∀ action ∈ h.actions, action.recorded = true →
    ∃ time, h.store.admin.lastAdminActivity = some time ∧ action.time ≤ time

section Recovery

variable {here : Address} {env : UpgradeEnv here} {sha256 : Bytes → Digest} {u u' : UpgradeStore}
  {h h' : ActivityHistory} {i : ActivityStep here} {s s' : AdminStore}

theorem handoverCall_lastAdminActivity {call : HandoverCall}
    (h : call.exec env.toEnv s = .ok s') :
    s'.lastAdminActivity = if (AdminCall.handover call).records then some env.timestamp
      else s.lastAdminActivity := by
  cases call with
  | proposeOwnershipTransfer currentAdmin nominee =>
    obtain ⟨_, _, rfl⟩ := proposeOwnershipTransfer_eq_ok h
    rfl
  | claimOwnership claimer =>
    obtain ⟨_, _, _, _, _, _, rfl⟩ := claimOwnership_eq_ok h
    rfl
  | proposeAdminChange currentAdmin newAdmin =>
    obtain ⟨_, _, rfl⟩ := proposeAdminChange_eq_ok h
    rfl
  | countersignAdminChange cosigner =>
    obtain ⟨_, _, _, _, _, _, _, rfl⟩ := countersignAdminChange_eq_ok h
    rfl
  | executeAdminChangeByTimelock executor =>
    obtain ⟨_, _, _, _, _, _, _, rfl⟩ := executeAdminChangeByTimelock_eq_ok h
    rfl
  | cancelAdminChange canceller =>
    obtain ⟨_, _, rfl⟩ := cancelAdminChange_eq_ok h
    rfl

/-- Only the calls that record write the last activity. -/
theorem exec_lastAdminActivity {call : AdminCall} (h : call.exec env sha256 u = .ok u') :
    u'.admin.lastAdminActivity =
      if call.records then some env.timestamp else u.admin.lastAdminActivity := by
  cases call with
  | initializeContract admin =>
    obtain ⟨_, hexec, rfl⟩ := UpgradeStore.onAdmin_eq_ok.mp h
    obtain ⟨_, _, rfl⟩ := initializeContract_eq_ok hexec
    rfl
  | setPaused caller paused =>
    obtain ⟨_, hexec, rfl⟩ := UpgradeStore.onAdmin_eq_ok.mp h
    obtain ⟨_, _, rfl⟩ := setPaused_eq_ok hexec
    rfl
  | setValue newValue caller nonce salt signature sigExpiresAt =>
    obtain ⟨_, hexec, rfl⟩ := UpgradeStore.onAdmin_eq_ok.mp h
    obtain ⟨_, _, _, _, _, rfl⟩ := setValue_eq_ok hexec
    rfl
  | setHeartbeatInterval interval admin =>
    obtain ⟨_, hexec, rfl⟩ := UpgradeStore.onAdmin_eq_ok.mp h
    obtain ⟨_, _, rfl⟩ := setHeartbeatInterval_eq_ok hexec
    rfl
  | routine operation admin passes =>
    obtain ⟨_, hexec, rfl⟩ := UpgradeStore.onAdmin_eq_ok.mp h
    obtain ⟨_, _, rfl⟩ := routine_eq_ok hexec
    exact apply_ite AdminStore.lastAdminActivity _ _ _
  | upgrade call =>
    obtain ⟨_, _, hadmin, _⟩ := upgradeCall_eq_ok h
    rw [hadmin]
    rfl
  | emergency call =>
    obtain ⟨_, hexec, rfl⟩ := UpgradeStore.onAdmin_eq_ok.mp h
    obtain ⟨_, _, _, _, _, rfl⟩ := emergencyStep_eq_ok hexec
    rfl
  | purgeEmergencyRevocationProposal =>
    obtain ⟨_, hexec, rfl⟩ := UpgradeStore.onAdmin_eq_ok.mp h
    obtain rfl := purgeEmergencyRevocationProposal_eq_ok hexec
    rfl
  | voteRevocation voter sigExpiresAt =>
    obtain ⟨_, hexec, rfl⟩ := UpgradeStore.onAdmin_eq_ok.mp h
    obtain ⟨_, _, _, _, _, _, _, _, ⟨_, rfl⟩ | ⟨_, rfl⟩⟩ := voteRevocation_eq_ok hexec
    · rfl
    · rfl
  | rotateAdminKeys signers newSigners newThreshold =>
    obtain ⟨_, hexec, rfl⟩ := UpgradeStore.onAdmin_eq_ok.mp h
    obtain ⟨_, _, _, _, _, _, _, _, rfl⟩ := rotateAdminKeys_eq_ok hexec
    rfl
  | handover call =>
    obtain ⟨_, hexec, rfl⟩ := UpgradeStore.onAdmin_eq_ok.mp h
    exact handoverCall_lastAdminActivity hexec
  | setRecoveryKey caller recoveryKey =>
    obtain ⟨_, hexec, rfl⟩ := UpgradeStore.onAdmin_eq_ok.mp h
    obtain ⟨_, _, rfl⟩ := setRecoveryKey_eq_ok hexec
    rfl
  | recoverAdmin recoveryKey =>
    obtain ⟨_, hexec, rfl⟩ := UpgradeStore.onAdmin_eq_ok.mp h
    obtain ⟨_, _, _, _, _, rfl⟩ := recoverAdmin_eq_ok hexec
    rfl

theorem activityStep_eq_ok (h0 : activityStep sha256 i h = .ok h') :
    ∃ store, i.call.exec { i.env with timestamp := h.now + i.elapsed } sha256 h.store = .ok store ∧
      h' = ⟨store, h.now + i.elapsed, if i.call.byAdmin h.store.admin then
        ⟨h.now + i.elapsed, i.call.records⟩ :: h.actions else h.actions⟩ := by
  simp only [activityStep, bind_eq_ok, pure_eq_ok] at h0
  obtain ⟨store, hexec, rfl⟩ := h0
  exact ⟨store, hexec, rfl⟩

theorem ActivityNoted.start : ActivityNoted .start where
  past := by
    intro _ h
    cases h
  noted := by
    intro _ h
    cases h

/-- An accepted call notes the present, or leaves the last activity as it was. -/
theorem ActivityNoted.step (hn : ActivityNoted h) (h0 : activityStep sha256 i h = .ok h') :
    ActivityNoted h' := by
  obtain ⟨store, hexec, rfl⟩ := activityStep_eq_ok h0
  have hlast := exec_lastAdminActivity hexec
  cases hrecords : i.call.records with
  | true =>
    rw [hrecords, if_pos rfl] at hlast
    have htimes : ∀ action ∈ h.actions, action.recorded = true →
        action.time ≤ h.now + i.elapsed := by
      intro action haction hrecorded
      obtain ⟨time, htime, hle⟩ := hn.noted action haction hrecorded
      exact hle.trans ((hn.past time htime).trans (Nat.le_add_right _ _))
    refine ⟨fun time htime => ?_, fun action haction hrecorded => ⟨_, hlast, ?_⟩⟩
    · exact (Option.some.inj (hlast.symm.trans htime)).ge
    · simp only at haction
      split_ifs at haction
      · rcases List.mem_cons.mp haction with rfl | haction
        · exact le_rfl
        · exact htimes action haction hrecorded
      · exact htimes action haction hrecorded
  | false =>
    rw [hrecords, if_neg Bool.false_ne_true] at hlast
    refine ⟨fun time htime => ?_, fun action haction hrecorded => ?_⟩
    · exact (hn.past time (hlast.symm.trans htime)).trans (Nat.le_add_right _ _)
    · have hold : action ∈ h.actions := by
        split_ifs at haction
        · rcases List.mem_cons.mp haction with rfl | haction
          · cases hrecorded
          · exact haction
        · exact haction
      obtain ⟨time, htime, hle⟩ := hn.noted action hold hrecorded
      exact ⟨time, hlast.trans htime, hle⟩

/-- The noted operations are old enough at a recovery, so only the others matter. -/
theorem afterInactivity_iff (hn : ActivityNoted h) (i : ActivityStep here) :
    AfterInactivity sha256 h i ↔ AfterUnrecorded sha256 h i := by
  refine forall_congr' fun recoveryKey => forall₂_congr fun hcall haccepted => ?_
  obtain ⟨h', hstep⟩ := haccepted
  obtain ⟨store, hexec, _⟩ := activityStep_eq_ok hstep
  rw [hcall] at hexec
  obtain ⟨_, hexec, _⟩ := UpgradeStore.onAdmin_eq_ok.mp hexec
  obtain ⟨_, _, hkey, _, havailable, _⟩ := recoverAdmin_eq_ok hexec
  constructor
  · rintro ⟨_, hall⟩ action haction _
    exact hall action haction
  · intro hunrecorded
    refine ⟨hkey, fun action haction => ?_⟩
    cases hrecorded : action.recorded with
    | false => exact hunrecorded action haction hrecorded
    | true =>
      obtain ⟨time, htime, hle⟩ := hn.noted action haction hrecorded
      simp only [IsRecoveryAvailable, getLastAdminActivity, htime, Option.getD_some] at havailable
      have hpos : 0 < recoveryInactivityThresholdSeconds := by decide
      omega

/-- In every run from the deployment, each recovery comes 180 days after all operations that the
admin signed exactly if it does so after those that are not noted. -/
theorem deadMansSwitch_along_iff (sha256 : Bytes → Digest) (run : List (ActivityStep here)) :
    Along (activityStep sha256) (AfterInactivity sha256) .start run ↔
      Along (activityStep sha256) (AfterUnrecorded sha256) .start run :=
  along_congr (I := ActivityNoted)
    (fun _ _ hn => commit_induction hn fun _ hstep => hn.step hstep)
    (fun _ i hn => afterInactivity_iff hn i) ActivityNoted.start run

/-- The contract is initialised in the year 2023 and its admin sets a recovery key. -/
def configureRun : List (ActivityStep ⟨0⟩) :=
  [⟨1700000000, ⟨.standard ⟨0⟩ 1 none, fun _ => true⟩, .initializeContract ⟨9⟩⟩,
    ⟨0, ⟨.standard ⟨0⟩ 1 none, fun _ => true⟩, .setRecoveryKey ⟨9⟩ ⟨1⟩⟩]

/-- The recovery key takes the contract over in the same second. -/
def recoverStep : ActivityStep ⟨0⟩ :=
  ⟨0, ⟨.standard ⟨0⟩ 1 none, fun _ => true⟩, .recoverAdmin ⟨1⟩⟩

theorem recovery_without_inactivity :
    (runAll (activityStep fun _ => zeroDigest) .start
      (configureRun ++ [recoverStep])).store.admin.admin = some ⟨1⟩ ∧
    ¬ Along (activityStep fun _ => zeroDigest) (AfterInactivity fun _ => zeroDigest) .start
      (configureRun ++ [recoverStep]) := by
  have hafter : (runAll (activityStep fun _ => zeroDigest) .start
      (configureRun ++ [recoverStep])).store.admin.admin = some ⟨1⟩ := by
    decide +kernel
  refine ⟨hafter, ?_⟩
  intro halong
  have hlast : AfterInactivity (fun _ => zeroDigest)
      (runAll (activityStep fun _ => zeroDigest) .start configureRun) recoverStep :=
    halong.last
  have hbefore : (runAll (activityStep fun _ => zeroDigest) .start
      configureRun).store.admin.admin = some ⟨9⟩ := by
    decide +kernel
  have hnow : (runAll (activityStep fun _ => zeroDigest) .start configureRun).now = 1700000000 := by
    decide +kernel
  have hactions : (runAll (activityStep fun _ => zeroDigest) .start configureRun).actions =
      [⟨1700000000, false⟩, ⟨1700000000, false⟩] := by
    decide +kernel
  clear halong
  rw [runAll_append] at hafter
  generalize runAll (activityStep fun _ => zeroDigest) .start configureRun = h at *
  cases hstep : activityStep (fun _ => zeroDigest) recoverStep h with
  | error e =>
    rw [runAll_cons, commit_of_error hstep, runAll_nil, hbefore] at hafter
    exact absurd hafter (by decide)
  | ok h' =>
    have hold := (hlast ⟨1⟩ rfl ⟨h', hstep⟩).2 ⟨1700000000, false⟩ (by simp [hactions])
    rw [hnow] at hold
    exact absurd hold (by decide)

end Recovery

end StellarFlow.Admin
