import StellarFlow.Admin.Calls

/-!
# Whether a revocation lasts

A revoked address must not administer the contract again, nor add to a quorum. Of the operations
that promote an address only a few look at the revocations, and pending records are promoted
whatever happened since. The revocations last exactly where no promoted address is revoked.
-/
namespace StellarFlow.Admin

open Foundation

namespace AdminStore

variable (s : AdminStore)

/-- The admin, and next to an admin the registered signers. -/
def Entitled (a : Address) : Prop := ∃ admin, s.admin = some admin ∧ (a = admin ∨ a ∈ s.getSigners)

/-- An address adds nothing to the count and the weight of any list of signers. -/
def CountsForNothing (x : Address) : Prop :=
  ∀ data, s.data = some data → ∀ signers : List Address,
    (fun t => (t.count, t.weight)) <$> s.collect data signers =
      (fun t => (t.count, t.weight)) <$> s.collect data (signers.filter (· ≠ x))

/-- No revoked address is the admin or counts in a quorum. -/
def RevocationsLast : Prop := ∀ x ∈ s.revoked, ¬ s.IsAdmin x ∧ s.CountsForNothing x

end AdminStore

/-- The same store before anybody was revoked. -/
def UpgradeStore.unrevoked (u : UpgradeStore) : UpgradeStore :=
  { u with admin := { u.admin with revoked := ∅ } }

/-! ## Promotions -/

variable {here : Address} (env : Env here)

/-- Whoever a call makes the admin or a registered signer. An initialisation gives their rights to
signers that are there already. -/
def AdminCall.promoted (call : AdminCall) (s : AdminStore) : Finset Address :=
  match call with
  | .initializeContract admin => insert admin s.getSigners
  | .upgrade (.registerSigner signer _) => {signer}
  | .emergency call =>
    match call.order env s with
    | some (target, replacement) => if s.admin = some target then {replacement} else ∅
    | none => ∅
  | .voteRevocation voter _ =>
    match s.revocation with
    | some proposal =>
      if majority s.getSigners.card ≤ (insert voter proposal.votes).card then
        {proposal.replacement}
      else ∅
    | none => ∅
  | .rotateAdminKeys _ newSigners _ => newSigners.toFinset
  | .handover (.claimOwnership claimer) => {claimer}
  | .handover (.countersignAdminChange _) | .handover (.executeAdminChangeByTimelock _) =>
    match s.pendingAdmin with
    | some proposal => {proposal.newAdmin}
    | none => ∅
  | .recoverAdmin recoveryKey => {recoveryKey}
  | _ => ∅

/-- Whoever is revoked once a call is accepted. -/
def AdminCall.barred (call : AdminCall) (s : AdminStore) : Finset Address :=
  match call with
  | .emergency call =>
    match call.order env s with
    | some (target, _) => insert target s.revoked
    | none => s.revoked
  | _ => s.revoked

-- The hash function of the host.
variable (sha256 : Bytes → Digest)

abbrev AdminStep (here : Address) := UpgradeEnv here × AdminCall

def adminStep (i : AdminStep here) (u : UpgradeStore) : Except Fault UpgradeStore :=
  i.2.exec i.1 sha256 u

/-- An accepted call promotes nobody who is revoked. -/
def PromotesUnrevoked (u : UpgradeStore) (i : AdminStep here) : Prop :=
  (∃ u', adminStep sha256 i u = .ok u') →
    ∀ a ∈ i.2.promoted i.1.toEnv u.admin, a ∉ i.2.barred i.1.toEnv u.admin

/-- What a call does to the rights of addresses. -/
structure Effect (promoted barred : Finset Address) (s s' : AdminStore) : Prop where
  revoked_eq : s'.revoked = barred
  entitled_of_promoted : ∀ a ∈ promoted, s'.Entitled a
  of_entitled : ∀ a, s'.Entitled a → a ∈ promoted ∨ s.Entitled a ∧ (a ∈ barred → a ∈ s.revoked)

section Revocation

variable {here : Address} {env : UpgradeEnv here} {sha256 : Bytes → Digest} {s s' : AdminStore}
  {u u' : UpgradeStore} {data : ContractData} {a x new : Address} {promoted barred : Finset Address}

/-! ## Quorums -/

theorem AdminStore.entitled_iff (h : s.data = some data) :
    s.Entitled a ↔ s.IsAuthorized data a := by
  simp [AdminStore.Entitled, AdminStore.IsAuthorized, AdminStore.admin_eq h]

theorem AdminStore.countsForNothing_iff (h : s.data = some data) :
    s.CountsForNothing x ↔ ¬ s.IsAuthorized data x := by
  constructor
  · intro hnothing hx
    -- The list of the address alone counts one, the empty list nothing.
    have hone := hnothing data h [x]
    have hnone : (s.approvals data ∅).weight < 2 ^ 32 := by
      simp [AdminStore.approvals, Tally.empty]
    simp only [AdminStore.collect_eq, List.filter_cons, List.filter_nil, ne_eq, not_true_eq_false,
      decide_false, Bool.false_eq_true, if_false, List.toFinset_cons, List.toFinset_nil,
      insert_empty_eq] at hone
    split_ifs at hone
    · have hcount := congrArg Prod.fst (Except.ok.inj hone)
      simp only [(AdminStore.approvals_singleton hx).1] at hcount
      cases hcount
    · cases hone
  · intro hx data' hdata signers
    obtain rfl := Option.some.inj (h.symm.trans hdata)
    obtain ⟨hcount, hweight⟩ := s.approvals_erase hx signers.toFinset
    have herase : (signers.filter (· ≠ x)).toFinset = signers.toFinset.erase x := by
      ext a
      simp [and_comm]
    rw [AdminStore.collect_eq, AdminStore.collect_eq, herase, hweight]
    split_ifs
    · exact congrArg Except.ok (Prod.ext hcount.symm hweight.symm)
    · rfl

theorem AdminStore.revocationsLast_iff :
    s.RevocationsLast ↔ ∀ x ∈ s.revoked, ¬ s.Entitled x := by
  refine forall₂_congr fun x _ => ?_
  cases hdata : s.data with
  | none =>
    refine iff_of_true ⟨?_, ?_⟩ ?_
    · rintro ⟨_, h, _⟩
      cases hdata.symm.trans h
    · intro _ h
      cases hdata.symm.trans h
    · rintro ⟨_, h, _⟩
      simp [AdminStore.admin, hdata] at h
  | some data =>
    rw [AdminStore.countsForNothing_iff hdata, AdminStore.entitled_iff hdata]
    refine and_iff_right_of_imp fun hx hadmin => hx (.inl ?_)
    exact ((AdminStore.isAdmin_iff hdata x).mp hadmin).symm

/-! ## Effects of calls -/

/-- The admin and the signers stay as they are. -/
theorem Effect.same (hadmin : s'.admin = s.admin) (hsigners : s'.getSigners = s.getSigners)
    (hrevoked : s'.revoked = s.revoked) : Effect ∅ s.revoked s s' where
  revoked_eq := hrevoked
  entitled_of_promoted a ha := absurd ha (Finset.notMem_empty a)
  of_entitled a ha := by
    refine .inr ⟨?_, id⟩
    simpa only [AdminStore.Entitled, hadmin, hsigners] using ha

/-- Another admin next to the same signers. -/
theorem Effect.admin {old : Address} (hold : s.admin = some old) (hadmin : s'.admin = some new)
    (hsigners : s'.getSigners = s.getSigners) (hrevoked : s'.revoked = s.revoked) :
    Effect {new} s.revoked s s' where
  revoked_eq := hrevoked
  entitled_of_promoted a ha := ⟨new, hadmin, .inl (Finset.mem_singleton.mp ha)⟩
  of_entitled a := by
    rintro ⟨admin, hadmin', rfl | ha⟩
    · exact .inl (Finset.mem_singleton.mpr (Option.some.inj (hadmin'.symm.trans hadmin)))
    · exact .inr ⟨⟨old, hold, .inr (hsigners ▸ ha)⟩, id⟩

/-- A store in which revocations last keeps this exactly if nobody promoted is revoked. -/
theorem Effect.revocationsLast_iff (e : Effect promoted barred s s') (hs : s.RevocationsLast) :
    s'.RevocationsLast ↔ ∀ a ∈ promoted, a ∉ barred := by
  rw [AdminStore.revocationsLast_iff] at hs ⊢
  rw [e.revoked_eq]
  constructor
  · intro hlast a ha hbarred
    exact hlast a hbarred (e.entitled_of_promoted a ha)
  · intro hpromoted a hbarred ha
    rcases e.of_entitled a ha with hnew | ⟨hold, hrevoked⟩
    · exact hpromoted a hnew hbarred
    · exact hs a (hrevoked hbarred) hold

theorem registerSigner_effect {signer caller : Address}
    (h : registerSigner env.toEnv signer caller s = .ok s') : Effect {signer} s.revoked s s' := by
  obtain ⟨_, hadmin, _, h⟩ := registerSigner_eq_ok h
  have hadmin := AdminStore.admin_eq_some.mpr hadmin
  have hsigners : s'.getSigners = insert signer s.getSigners := by
    rcases h with ⟨hin, rfl⟩ | rfl
    · exact (Finset.insert_eq_of_mem hin).symm
    · rfl
  have hadmin' : s'.admin = s.admin := by
    rcases h with ⟨_, rfl⟩ | rfl <;> rfl
  refine ⟨by rcases h with ⟨_, rfl⟩ | rfl <;> rfl, ?_, ?_⟩
  · intro a ha
    obtain rfl := Finset.mem_singleton.mp ha
    exact ⟨caller, hadmin'.trans hadmin, .inr (hsigners ▸ Finset.mem_insert_self a _)⟩
  · rintro a ⟨admin, hadmin'', ha⟩
    rw [hadmin'] at hadmin''
    rw [hsigners, Finset.mem_insert] at ha
    rcases ha with ha | ha | ha
    · exact .inr ⟨⟨admin, hadmin'', .inl ha⟩, id⟩
    · exact .inl (Finset.mem_singleton.mpr ha)
    · exact .inr ⟨⟨admin, hadmin'', .inr ha⟩, id⟩

theorem removeSigner_effect {signer caller : Address}
    (h : removeSigner env.toEnv signer caller s = .ok s') : Effect ∅ s.revoked s s' := by
  obtain ⟨_, _, rfl⟩ := removeSigner_eq_ok h
  refine ⟨rfl, fun a ha => absurd ha (Finset.notMem_empty a), ?_⟩
  rintro a ⟨admin, hadmin, ha⟩
  exact .inr ⟨⟨admin, hadmin, ha.imp_right Finset.mem_of_mem_erase⟩, id⟩

/-- The target leaves the committee, and the replacement follows it as the admin. -/
theorem emergencyCall_effect {call : EmergencyCall}
    (h : emergencyStep (env.toEnv, call) s = .ok s') :
    Effect ((AdminCall.emergency call).promoted env.toEnv s)
      ((AdminCall.emergency call).barred env.toEnv s) s s' := by
  obtain ⟨hsigners, data, proposal, hdata, horder, rfl⟩ := emergencyStep_eq_ok h
  have hnone : s.getSigners = ∅ := by rw [AdminStore.getSigners, hsigners, Option.getD_none]
  simp only [AdminCall.promoted, AdminCall.barred, horder, AdminStore.admin_eq hdata,
    Option.some.injEq]
  by_cases htarget : data.admin = proposal.target
  · have hadmin : (executeEmergencyRevocation data proposal s).admin =
        some proposal.replacement := by
      simp [executeEmergencyRevocation, AdminStore.admin, htarget]
    rw [if_pos htarget]
    refine ⟨rfl, fun a ha => ⟨_, hadmin, .inl (Finset.mem_singleton.mp ha)⟩, ?_⟩
    rintro a ⟨admin, hadmin', rfl | ha⟩
    · exact .inl (Finset.mem_singleton.mpr (Option.some.inj (hadmin'.symm.trans hadmin)))
    · exact absurd (hnone ▸ ha) (Finset.notMem_empty a)
  · have hadmin : (executeEmergencyRevocation data proposal s).admin = some data.admin := by
      simp [executeEmergencyRevocation, AdminStore.admin, htarget, hdata]
    rw [if_neg htarget]
    refine ⟨rfl, fun a ha => absurd ha (Finset.notMem_empty a), ?_⟩
    rintro a ⟨admin, hadmin', rfl | ha⟩
    · obtain rfl := Option.some.inj (hadmin'.symm.trans hadmin)
      refine .inr ⟨⟨data.admin, AdminStore.admin_eq hdata, .inl rfl⟩, fun hbarred => ?_⟩
      exact Finset.mem_of_mem_insert_of_ne hbarred htarget
    · exact absurd (hnone ▸ ha) (Finset.notMem_empty a)

theorem upgradeCall_effect {call : UpgradeCall} (h : call.exec env sha256 u = .ok u') :
    Effect ((AdminCall.upgrade call).promoted env.toEnv u.admin) u.admin.revoked u.admin
      u'.admin := by
  obtain ⟨nonces, signers, hadmin, hcommittee⟩ := upgradeCall_eq_ok h
  have hsame : call.committee u.admin = u.admin.getSigners →
      Effect ∅ u.admin.revoked u.admin u'.admin := by
    intro hsigners
    rw [hadmin]
    exact .same rfl (hcommittee.trans hsigners) rfl
  cases call with
  | proposeUpgrade => exact hsame rfl
  | executeUpgrade => exact hsame rfl
  | cancelUpgrade => exact hsame rfl
  | cleanupExpiredProposals => exact hsame rfl
  | registerSigner signer caller =>
    simp only [UpgradeCall.exec, bind_eq_ok, pure_eq_ok] at h
    obtain ⟨_, hregister, rfl⟩ := h
    exact registerSigner_effect hregister
  | removeSigner signer caller =>
    simp only [UpgradeCall.exec, bind_eq_ok, pure_eq_ok] at h
    obtain ⟨_, hremove, rfl⟩ := h
    exact removeSigner_effect hremove

theorem handoverCall_effect {call : HandoverCall} (h : call.exec env.toEnv s = .ok s') :
    Effect ((AdminCall.handover call).promoted env.toEnv s) s.revoked s s' := by
  cases call with
  | proposeOwnershipTransfer currentAdmin nominee =>
    obtain ⟨_, _, rfl⟩ := proposeOwnershipTransfer_eq_ok h
    exact .same rfl rfl rfl
  | claimOwnership claimer =>
    obtain ⟨_, _, hdata, _, _, _, rfl⟩ := claimOwnership_eq_ok h
    exact .admin (AdminStore.admin_eq hdata) rfl rfl rfl
  | proposeAdminChange currentAdmin newAdmin =>
    obtain ⟨_, _, rfl⟩ := proposeAdminChange_eq_ok h
    exact .same rfl rfl rfl
  | countersignAdminChange cosigner =>
    obtain ⟨_, _, hdata, hproposal, _, _, _, rfl⟩ := countersignAdminChange_eq_ok h
    simp only [AdminCall.promoted, hproposal]
    exact .admin (AdminStore.admin_eq hdata) rfl rfl rfl
  | executeAdminChangeByTimelock executor =>
    obtain ⟨_, _, hdata, hproposal, _, _, _, rfl⟩ := executeAdminChangeByTimelock_eq_ok h
    simp only [AdminCall.promoted, hproposal]
    exact .admin (AdminStore.admin_eq hdata) rfl rfl rfl
  | cancelAdminChange canceller =>
    obtain ⟨_, _, rfl⟩ := cancelAdminChange_eq_ok h
    exact .same rfl rfl rfl

theorem voteRevocation_effect {voter : Address} {sigExpiresAt : ℕ}
    (h : voteRevocation env.toEnv voter sigExpiresAt s = .ok s') :
    Effect ((AdminCall.voteRevocation voter sigExpiresAt).promoted env.toEnv s) s.revoked s s' := by
  obtain ⟨data, proposal, hdata, hproposal, _, _, _, _, h⟩ := voteRevocation_eq_ok h
  simp only [AdminCall.promoted, hproposal]
  rcases h with ⟨hle, rfl⟩ | ⟨hlt, rfl⟩
  · rw [if_pos hle]
    exact .admin (AdminStore.admin_eq hdata) rfl rfl rfl
  · rw [if_neg (not_le.mpr hlt)]
    exact .same rfl rfl rfl

theorem rotateAdminKeys_effect {signers newSigners : List Address} {newThreshold : ℕ}
    (h : rotateAdminKeys signers newSigners newThreshold s = .ok s') :
    Effect newSigners.toFinset s.revoked s s' := by
  obtain ⟨data, admin, rest, _, _, _, hdata, rfl, rfl⟩ := rotateAdminKeys_eq_ok h
  refine ⟨rfl, fun a ha => ⟨admin, rfl, .inr ha⟩, ?_⟩
  rintro a ⟨admin', hadmin, rfl | ha⟩
  · obtain rfl := Option.some.inj hadmin
    exact .inl (List.mem_toFinset.mpr List.mem_cons_self)
  · exact .inl ha

/-- One case for each operation. -/
theorem exec_effect {call : AdminCall} (h : call.exec env sha256 u = .ok u') :
    Effect (call.promoted env.toEnv u.admin) (call.barred env.toEnv u.admin) u.admin u'.admin := by
  cases call with
  | initializeContract admin =>
    obtain ⟨_, hexec, rfl⟩ := UpgradeStore.onAdmin_eq_ok.mp h
    obtain ⟨_, _, rfl⟩ := initializeContract_eq_ok hexec
    refine ⟨rfl, fun a ha => ⟨admin, rfl, Finset.mem_insert.mp ha⟩, ?_⟩
    rintro a ⟨admin', hadmin, ha⟩
    obtain rfl := Option.some.inj hadmin
    exact .inl (Finset.mem_insert.mpr ha)
  | setPaused caller paused =>
    obtain ⟨_, hexec, rfl⟩ := UpgradeStore.onAdmin_eq_ok.mp h
    obtain ⟨_, _, rfl⟩ := setPaused_eq_ok hexec
    exact .same rfl rfl rfl
  | setValue newValue caller nonce salt signature sigExpiresAt =>
    obtain ⟨_, hexec, rfl⟩ := UpgradeStore.onAdmin_eq_ok.mp h
    obtain ⟨_, _, hdata, _, _, rfl⟩ := setValue_eq_ok hexec
    exact .same (AdminStore.admin_eq hdata).symm rfl rfl
  | setHeartbeatInterval interval admin =>
    obtain ⟨_, hexec, rfl⟩ := UpgradeStore.onAdmin_eq_ok.mp h
    obtain ⟨_, _, rfl⟩ := setHeartbeatInterval_eq_ok hexec
    exact .same rfl rfl rfl
  | routine operation admin passes =>
    obtain ⟨_, hexec, rfl⟩ := UpgradeStore.onAdmin_eq_ok.mp h
    obtain ⟨_, _, rfl⟩ := routine_eq_ok hexec
    cases hrecords : operation.records with
    | true => exact .same rfl rfl rfl
    | false => exact .same rfl rfl rfl
  | upgrade call => exact upgradeCall_effect h
  | emergency call =>
    obtain ⟨_, hexec, rfl⟩ := UpgradeStore.onAdmin_eq_ok.mp h
    exact emergencyCall_effect hexec
  | purgeEmergencyRevocationProposal =>
    obtain ⟨_, hexec, rfl⟩ := UpgradeStore.onAdmin_eq_ok.mp h
    obtain rfl := purgeEmergencyRevocationProposal_eq_ok hexec
    exact .same rfl rfl rfl
  | voteRevocation voter sigExpiresAt =>
    obtain ⟨_, hexec, rfl⟩ := UpgradeStore.onAdmin_eq_ok.mp h
    exact voteRevocation_effect hexec
  | rotateAdminKeys signers newSigners newThreshold =>
    obtain ⟨_, hexec, rfl⟩ := UpgradeStore.onAdmin_eq_ok.mp h
    exact rotateAdminKeys_effect hexec
  | handover call =>
    obtain ⟨_, hexec, rfl⟩ := UpgradeStore.onAdmin_eq_ok.mp h
    exact handoverCall_effect hexec
  | setRecoveryKey caller recoveryKey =>
    obtain ⟨_, hexec, rfl⟩ := UpgradeStore.onAdmin_eq_ok.mp h
    obtain ⟨_, _, rfl⟩ := setRecoveryKey_eq_ok hexec
    exact .same rfl rfl rfl
  | recoverAdmin recoveryKey =>
    obtain ⟨_, hexec, rfl⟩ := UpgradeStore.onAdmin_eq_ok.mp h
    obtain ⟨_, hdata, _, _, _, rfl⟩ := recoverAdmin_eq_ok hexec
    exact .admin (AdminStore.admin_eq hdata) rfl rfl rfl

theorem UpgradeStore.unrevoked_revocationsLast (u : UpgradeStore) :
    u.unrevoked.admin.RevocationsLast :=
  fun x hx => absurd hx (Finset.notMem_empty x)

/-- In every run of the admin operations from a store in which nobody is revoked, revocations
last throughout exactly if every accepted call promotes nobody who is revoked. -/
theorem revocationsLast_throughout_iff (sha256 : Bytes → Digest) (u : UpgradeStore)
    (run : List (AdminStep here)) :
    Throughout (adminStep sha256) (fun u => u.admin.RevocationsLast) u.unrevoked run ↔
      Along (adminStep sha256) (PromotesUnrevoked sha256) u.unrevoked run := by
  refine throughout_iff_along (I := fun _ => True)
    (P := fun u : UpgradeStore => u.admin.RevocationsLast) (fun _ _ _ => trivial) ?_ trivial
    u.unrevoked_revocationsLast run
  intro u i _ hlast
  refine commit_iff_of_accepted (P := fun u : UpgradeStore => u.admin.RevocationsLast) hlast
    fun u' hstep => ?_
  rw [forall_prop_of_true ⟨u', hstep⟩]
  exact (exec_effect hstep).revocationsLast_iff hlast

/-- A contract whose signers have entries per address. -/
def migrated : UpgradeStore :=
  ⟨{ AdminStore.initialized ⟨9⟩ with signerKeys := {⟨1⟩, ⟨2⟩} }, none, none, none⟩

/-- A signer is nominated, revoked by another signer, and then claims the contract. -/
def revokedClaimRun : List (AdminStep ⟨0⟩) :=
  [(⟨.standard ⟨0⟩ 1 none, fun _ => true⟩, .handover (.proposeOwnershipTransfer ⟨9⟩ ⟨1⟩)),
    (⟨.standard ⟨0⟩ 1 none, fun _ => true⟩, .emergency (.propose ⟨2⟩ ⟨1⟩ ⟨3⟩)),
    (⟨.standard ⟨0⟩ 1 none, fun _ => true⟩, .handover (.claimOwnership ⟨1⟩))]

theorem revoked_claimer_becomes_admin :
    (runAll (adminStep fun _ => zeroDigest) migrated.unrevoked revokedClaimRun).admin.admin =
      some ⟨1⟩ ∧
    (runAll (adminStep fun _ => zeroDigest) migrated.unrevoked revokedClaimRun).admin.revoked =
      {⟨1⟩} ∧
    ¬ Throughout (adminStep fun _ => zeroDigest) (fun u => u.admin.RevocationsLast)
      migrated.unrevoked revokedClaimRun := by
  have hadmin : (runAll (adminStep fun _ => zeroDigest) migrated.unrevoked
      revokedClaimRun).admin.admin = some ⟨1⟩ := by
    decide +kernel
  have hrevoked : (runAll (adminStep fun _ => zeroDigest) migrated.unrevoked
      revokedClaimRun).admin.revoked = {⟨1⟩} := by
    decide +kernel
  refine ⟨hadmin, hrevoked, ?_⟩
  rintro ⟨_, _, _, hlast⟩
  have hlast : (runAll (adminStep fun _ => zeroDigest) migrated.unrevoked
      revokedClaimRun).admin.RevocationsLast := hlast
  generalize (runAll (adminStep fun _ => zeroDigest) migrated.unrevoked
      revokedClaimRun).admin = s at *
  exact (hlast ⟨1⟩ (by simp [hrevoked])).1 (AdminStore.admin_eq_some.mp hadmin)

end Revocation

end StellarFlow.Admin
