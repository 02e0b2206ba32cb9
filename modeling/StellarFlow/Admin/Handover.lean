import StellarFlow.Admin.Store

/-!
# Handing the administration over

The admin may nominate an owner, who then claims the contract, or propose another admin, whom a
cosigner confirms at once or anybody involved installs after a day. The two procedures keep
records of their own and write the same field. A record outlives the admin who made it, and a
claim waits for nobody.
-/
namespace StellarFlow.Admin

open Foundation

def adminChangeTimelockSeconds : ℕ := 86400

variable {here : Address} (env : Env here)

def AdminStore.updateAdminActivity (s : AdminStore) : AdminStore :=
  { s with lastAdminActivity := some env.timestamp }

/-! ## Two-phase ownership transfer -/

def proposeOwnershipTransfer (currentAdmin nominee : Address) (s : AdminStore) :
    Except Fault AdminStore := do
  let _ ← requireAdmin env currentAdmin s
  failIf (s.pendingOwner.isSome) (Fault.error .transferAlreadyPending)
  pure { s with pendingOwner := some ⟨nominee, currentAdmin⟩ }

def claimOwnership (claimer : Address) (s : AdminStore) : Except Fault AdminStore := do
  let pending ← okOr s.pendingOwner (Fault.error .noPendingOwner)
  failIf (pending.nominee ≠ claimer) (Fault.error .notAdmin)
  env.requireAuth claimer
  let data ← s.getData
  pure { s with data := some { data with admin := claimer }, pendingOwner := none }

/-! ## Two-phase change of the admin key -/

def proposeAdminChange (currentAdmin newAdmin : Address) (s : AdminStore) :
    Except Fault AdminStore := do
  checkStagingAccess currentAdmin s
  let data ← s.getData
  failIf (data.admin ≠ currentAdmin) (Fault.error .notAdmin)
  failIf (s.pendingAdmin.isSome) (Fault.error .adminChangePending)
  env.requireAuth currentAdmin
  pure { s with pendingAdmin := some ⟨newAdmin, currentAdmin, env.timestamp⟩ }

/-- A cosigner other than the proposer confirms the change, which takes effect at once. -/
def countersignAdminChange (cosigner : Address) (s : AdminStore) : Except Fault AdminStore := do
  let proposal ← okOr s.pendingAdmin (Fault.error .noAdminChangePending)
  failIf (proposal.proposer = cosigner) (Fault.error .cosignerCannotBeProposer)
  let data ← s.getData
  failIf (cosigner ∉ s.signerKeys ∧ data.admin ≠ cosigner) (Fault.error .unauthorized)
  env.requireAuth cosigner
  pure { s with data := some { data with admin := proposal.newAdmin }, pendingAdmin := none }

def executeAdminChangeByTimelock (executor : Address) (s : AdminStore) :
    Except Fault AdminStore := do
  let proposal ← okOr s.pendingAdmin (Fault.error .noAdminChangePending)
  failIf (env.timestamp - proposal.proposedAt < adminChangeTimelockSeconds)
    (Fault.error .adminTimelockNotSatisfied)
  let data ← s.getData
  failIf (executor ≠ proposal.proposer ∧ executor ≠ data.admin) (Fault.error .unauthorized)
  env.requireAuth executor
  let s := { s with data := some { data with admin := proposal.newAdmin }, pendingAdmin := none }
  pure (s.updateAdminActivity env)

def cancelAdminChange (canceller : Address) (s : AdminStore) : Except Fault AdminStore := do
  let _ ← okOr s.pendingAdmin (Fault.error .noAdminChangePending)
  let _ ← requireAdmin env canceller s
  let s := { s with pendingAdmin := none }
  pure (s.updateAdminActivity env)

inductive HandoverCall
  | proposeOwnershipTransfer (currentAdmin nominee : Address)
  | claimOwnership (claimer : Address)
  | proposeAdminChange (currentAdmin newAdmin : Address)
  | countersignAdminChange (cosigner : Address)
  | executeAdminChangeByTimelock (executor : Address)
  | cancelAdminChange (canceller : Address)

def HandoverCall.exec (call : HandoverCall) (s : AdminStore) : Except Fault AdminStore :=
  match call with
  | .proposeOwnershipTransfer currentAdmin nominee =>
    Admin.proposeOwnershipTransfer env currentAdmin nominee s
  | .claimOwnership claimer => Admin.claimOwnership env claimer s
  | .proposeAdminChange currentAdmin newAdmin =>
    Admin.proposeAdminChange env currentAdmin newAdmin s
  | .countersignAdminChange cosigner => Admin.countersignAdminChange env cosigner s
  | .executeAdminChangeByTimelock executor => Admin.executeAdminChangeByTimelock env executor s
  | .cancelAdminChange canceller => Admin.cancelAdminChange env canceller s

/-- Whoever signs the call. -/
def HandoverCall.actor : HandoverCall → Address
  | .proposeOwnershipTransfer currentAdmin _ => currentAdmin
  | .claimOwnership claimer => claimer
  | .proposeAdminChange currentAdmin _ => currentAdmin
  | .countersignAdminChange cosigner => cosigner
  | .executeAdminChangeByTimelock executor => executor
  | .cancelAdminChange canceller => canceller

/-! ## Histories -/

/-- The store with the time of the pending nomination, which is not recorded in it. -/
structure HandoverHistory where
  store : AdminStore
  nominatedAt : ℕ

abbrev HandoverStep (here : Address) := Env here × HandoverCall

def handoverStep (i : HandoverStep here) (h : HandoverHistory) : Except Fault HandoverHistory := do
  let store ← i.2.exec i.1 h.store
  match i.2 with
  | .proposeOwnershipTransfer .. => pure ⟨store, i.1.timestamp⟩
  | _ => pure ⟨store, h.nominatedAt⟩

/-- Who made the proposal that a call carries out, and when. -/
def HandoverCall.proposal (call : HandoverCall) (h : HandoverHistory) : Option (Address × ℕ) :=
  match call with
  | .claimOwnership _ => h.store.pendingOwner.map fun p => (p.proposedBy, h.nominatedAt)
  | .countersignAdminChange _ | .executeAdminChangeByTimelock _ =>
    h.store.pendingAdmin.map fun p => (p.proposer, p.proposedAt)
  | _ => none

namespace AdminStore

variable (s : AdminStore)

def admin : Option Address := s.data.map ContractData.admin

/-- A signer in either of the two registers. -/
def IsRegistered (a : Address) : Prop := a ∈ s.getSigners ∨ a ∈ s.signerKeys

variable {s}

theorem admin_eq_some {a : Address} : s.admin = some a ↔ s.IsAdmin a := by
  simp [admin, IsAdmin]

theorem admin_eq {data : ContractData} (h : s.data = some data) : s.admin = some data.admin := by
  simp [admin, h]

end AdminStore

/-- A step that changes the admin carries out a proposal. It is signed by a registered signer
other than the proposer, or it comes a day after the proposal of whoever is still the admin. -/
def NotInstant (h : HandoverHistory) (i : HandoverStep here) : Prop :=
  ∀ h', handoverStep i h = .ok h' → h'.store.admin ≠ h.store.admin →
    ∃ proposer proposedAt, i.2.proposal h = some (proposer, proposedAt) ∧
      (i.1.auth i.2.actor = true ∧ h.store.IsRegistered i.2.actor ∧ i.2.actor ≠ proposer ∨
        h.store.IsAdmin proposer ∧ proposedAt + adminChangeTimelockSeconds ≤ i.1.timestamp)

/-- A claim keeps the admin, comes from a registered signer other than the proposer, or waits a
day for a proposer who is still the admin. A cosigner is registered, not merely the next admin.
Whoever executes a change does so for the admin, or is a registered signer. -/
def KeepsToProcedure (h : HandoverHistory) (i : HandoverStep here) : Prop :=
  (∃ h', handoverStep i h = .ok h') →
    match i.2 with
    | .claimOwnership claimer => ∀ pending, h.store.pendingOwner = some pending →
        h.store.IsAdmin claimer ∨
        h.store.IsRegistered claimer ∧ claimer ≠ pending.proposedBy ∨
        h.store.IsAdmin pending.proposedBy ∧
          h.nominatedAt + adminChangeTimelockSeconds ≤ i.1.timestamp
    | .countersignAdminChange cosigner => ∀ proposal, h.store.pendingAdmin = some proposal →
        h.store.IsAdmin proposal.newAdmin ∨ h.store.IsRegistered cosigner
    | .executeAdminChangeByTimelock executor => ∀ proposal, h.store.pendingAdmin = some proposal →
        h.store.IsAdmin proposal.newAdmin ∨ h.store.IsAdmin proposal.proposer ∨
        h.store.IsRegistered executor ∧ executor ≠ proposal.proposer
    | _ => True

section Handover

variable {here : Address} {env : Env here} {s s' : AdminStore} {h h' : HandoverHistory}
  {i : HandoverStep here}
  {currentAdmin nominee newAdmin claimer cosigner executor canceller : Address}

theorem proposeOwnershipTransfer_eq_ok
    (h : proposeOwnershipTransfer env currentAdmin nominee s = .ok s') :
    s.IsAdmin currentAdmin ∧ env.auth currentAdmin = true ∧
      s' = { s with pendingOwner := some ⟨nominee, currentAdmin⟩ } := by
  simp only [proposeOwnershipTransfer, bind_eq_ok, requireAdmin_eq_ok, pure_eq_ok] at h
  obtain ⟨data, ⟨hdata, hadmin, hauth⟩, _, _, rfl⟩ := h
  exact ⟨⟨data, hdata, hadmin⟩, hauth, rfl⟩

theorem claimOwnership_eq_ok (h : claimOwnership env claimer s = .ok s') :
    ∃ data pending, s.data = some data ∧ s.pendingOwner = some pending ∧
      pending.nominee = claimer ∧ env.auth claimer = true ∧ s' = { s with
        data := some { data with admin := claimer }, pendingOwner := none } := by
  simp only [claimOwnership, AdminStore.getData, bind_eq_ok, okOr_eq_ok, failIf_eq_ok,
    Env.requireAuth_eq_ok, pure_eq_ok, not_not] at h
  obtain ⟨pending, hpending, _, hnominee, _, hauth, data, hdata, rfl⟩ := h
  exact ⟨data, pending, hdata, hpending, hnominee, hauth, rfl⟩

theorem proposeAdminChange_eq_ok (h : proposeAdminChange env currentAdmin newAdmin s = .ok s') :
    s.IsAdmin currentAdmin ∧ env.auth currentAdmin = true ∧
      s' = { s with pendingAdmin := some ⟨newAdmin, currentAdmin, env.timestamp⟩ } := by
  simp only [proposeAdminChange, AdminStore.getData, bind_eq_ok, okOr_eq_ok, failIf_eq_ok,
    Env.requireAuth_eq_ok, pure_eq_ok, not_not] at h
  obtain ⟨_, _, data, hdata, _, hadmin, _, _, _, hauth, rfl⟩ := h
  exact ⟨⟨data, hdata, hadmin⟩, hauth, rfl⟩

theorem countersignAdminChange_eq_ok (h : countersignAdminChange env cosigner s = .ok s') :
    ∃ data proposal, s.data = some data ∧ s.pendingAdmin = some proposal ∧
      proposal.proposer ≠ cosigner ∧ (cosigner ∈ s.signerKeys ∨ data.admin = cosigner) ∧
      env.auth cosigner = true ∧ s' = { s with
        data := some { data with admin := proposal.newAdmin }, pendingAdmin := none } := by
  simp only [countersignAdminChange, AdminStore.getData, bind_eq_ok, okOr_eq_ok, failIf_eq_ok,
    Env.requireAuth_eq_ok, pure_eq_ok, not_and_or, not_not] at h
  obtain ⟨proposal, hproposal, _, hne, data, hdata, _, hmember, _, hauth, rfl⟩ := h
  exact ⟨data, proposal, hdata, hproposal, hne, hmember, hauth, rfl⟩

theorem executeAdminChangeByTimelock_eq_ok
    (h : executeAdminChangeByTimelock env executor s = .ok s') :
    ∃ data proposal, s.data = some data ∧ s.pendingAdmin = some proposal ∧
      adminChangeTimelockSeconds ≤ env.timestamp - proposal.proposedAt ∧
      (executor = proposal.proposer ∨ executor = data.admin) ∧ env.auth executor = true ∧
      s' = { s with
        data := some { data with admin := proposal.newAdmin }, pendingAdmin := none,
        lastAdminActivity := some env.timestamp } := by
  simp only [executeAdminChangeByTimelock, AdminStore.getData, bind_eq_ok, okOr_eq_ok, failIf_eq_ok,
    Env.requireAuth_eq_ok, pure_eq_ok, not_and_or, not_not, not_lt] at h
  obtain ⟨proposal, hproposal, _, helapsed, data, hdata, _, hinvolved, _, hauth, rfl⟩ := h
  exact ⟨data, proposal, hdata, hproposal, helapsed, hinvolved, hauth, rfl⟩

theorem cancelAdminChange_eq_ok (h : cancelAdminChange env canceller s = .ok s') :
    s.IsAdmin canceller ∧ env.auth canceller = true ∧ s' = { s with
      pendingAdmin := none, lastAdminActivity := some env.timestamp } := by
  simp only [cancelAdminChange, bind_eq_ok, okOr_eq_ok, requireAdmin_eq_ok, pure_eq_ok] at h
  obtain ⟨_, _, data, ⟨hdata, hadmin, hauth⟩, rfl⟩ := h
  exact ⟨⟨data, hdata, hadmin⟩, hauth, rfl⟩

theorem handoverStep_eq_ok (h0 : handoverStep i h = .ok h') :
    i.2.exec i.1 h.store = .ok h'.store := by
  simp only [handoverStep, bind_eq_ok] at h0
  obtain ⟨store, hexec, h0⟩ := h0
  split at h0
  all_goals
    obtain rfl := pure_eq_ok.mp h0
    exact hexec

/-- Calls that carry nothing out keep the admin. -/
theorem exec_admin_of_proposal {call : HandoverCall} (hcall : call.proposal h = none)
    (hexec : call.exec env h.store = .ok s') : s'.admin = h.store.admin := by
  cases call with
  | proposeOwnershipTransfer currentAdmin nominee =>
    obtain ⟨_, _, rfl⟩ := proposeOwnershipTransfer_eq_ok hexec
    rfl
  | claimOwnership claimer =>
    obtain ⟨_, _, _, hpending, _⟩ := claimOwnership_eq_ok hexec
    simp [HandoverCall.proposal, hpending] at hcall
  | proposeAdminChange currentAdmin newAdmin =>
    obtain ⟨_, _, rfl⟩ := proposeAdminChange_eq_ok hexec
    rfl
  | countersignAdminChange cosigner =>
    obtain ⟨_, _, _, hproposal, _⟩ := countersignAdminChange_eq_ok hexec
    simp [HandoverCall.proposal, hproposal] at hcall
  | executeAdminChangeByTimelock executor =>
    obtain ⟨_, _, _, hproposal, _⟩ := executeAdminChangeByTimelock_eq_ok hexec
    simp [HandoverCall.proposal, hproposal] at hcall
  | cancelAdminChange canceller =>
    obtain ⟨_, _, rfl⟩ := cancelAdminChange_eq_ok hexec
    rfl

/-- What the procedure asks of a step that installs a given address. -/
theorem notInstant_iff_of_proposal {new proposer : Address} {proposedAt : ℕ}
    (hstep : handoverStep i h = .ok h') (hnew : h'.store.admin = some new)
    (hproposal : i.2.proposal h = some (proposer, proposedAt))
    (hauth : i.1.auth i.2.actor = true) :
    NotInstant h i ↔ h.store.IsAdmin new ∨
      h.store.IsRegistered i.2.actor ∧ i.2.actor ≠ proposer ∨
      h.store.IsAdmin proposer ∧ proposedAt + adminChangeTimelockSeconds ≤ i.1.timestamp := by
  have hsame : h'.store.admin = h.store.admin ↔ h.store.IsAdmin new := by
    rw [hnew, eq_comm, AdminStore.admin_eq_some]
  constructor
  · intro hnot
    by_cases hadmin : h.store.IsAdmin new
    · exact .inl hadmin
    · obtain ⟨_, _, hp, hor⟩ := hnot h' hstep (hsame.not.mpr hadmin)
      obtain ⟨rfl, rfl⟩ := Prod.mk.inj (Option.some.inj (hproposal.symm.trans hp))
      exact .inr (hor.imp (fun hsigned => hsigned.2) id)
  · rintro hor h'' hstep' hchanged
    obtain rfl := Except.ok.inj (hstep.symm.trans hstep')
    refine ⟨proposer, proposedAt, hproposal, ?_⟩
    rcases hor with hadmin | hsigned | hwaited
    · exact absurd (hsame.mpr hadmin) hchanged
    · exact .inl ⟨hauth, hsigned⟩
    · exact .inr hwaited

theorem notInstant_iff (h : HandoverHistory) (i : HandoverStep here) :
    NotInstant h i ↔ KeepsToProcedure h i := by
  by_cases haccepted : ∃ h', handoverStep i h = .ok h'
  · rw [KeepsToProcedure, forall_prop_of_true haccepted]
    obtain ⟨h', hstep⟩ := haccepted
    have hexec := handoverStep_eq_ok hstep
    obtain ⟨env, call⟩ := i
    have hkept : call.proposal h = none → NotInstant h (env, call) := by
      intro hnone h'' hstep' hchanged
      exact absurd (exec_admin_of_proposal hnone (handoverStep_eq_ok hstep')) hchanged
    cases call with
    | proposeOwnershipTransfer => exact iff_of_true (hkept rfl) trivial
    | proposeAdminChange => exact iff_of_true (hkept rfl) trivial
    | cancelAdminChange => exact iff_of_true (hkept rfl) trivial
    | claimOwnership claimer =>
      obtain ⟨data, pending, _, hpending, _, hauth, hstore⟩ := claimOwnership_eq_ok hexec
      have hnew : h'.store.admin = some claimer := by
        rw [hstore]
        rfl
      have hproposal : (HandoverCall.claimOwnership claimer).proposal h =
          some (pending.proposedBy, h.nominatedAt) := by
        rw [HandoverCall.proposal, hpending, Option.map_some]
      rw [notInstant_iff_of_proposal hstep hnew hproposal hauth, hpending]
      simp only [Option.some.injEq, forall_eq', HandoverCall.actor]
    | countersignAdminChange cosigner =>
      obtain ⟨data, proposal, hdata, hpending, hne, hmember, hauth, hstore⟩ :=
        countersignAdminChange_eq_ok hexec
      have hnew : h'.store.admin = some proposal.newAdmin := by
        rw [hstore]
        rfl
      have hproposal : (HandoverCall.countersignAdminChange cosigner).proposal h =
          some (proposal.proposer, proposal.proposedAt) := by
        rw [HandoverCall.proposal, hpending, Option.map_some]
      rw [notInstant_iff_of_proposal hstep hnew hproposal hauth, hpending]
      simp only [Option.some.injEq, forall_eq', HandoverCall.actor]
      refine or_congr_right ⟨?_, fun hreg => .inl ⟨hreg, Ne.symm hne⟩⟩
      rintro (⟨hreg, _⟩ | ⟨hadmin, _⟩)
      · exact hreg
      · -- The cosigner is not the proposer, so it is not the admin either.
        rcases hmember with hkey | heq
        · exact .inr hkey
        · exact absurd (((AdminStore.isAdmin_iff hdata _).mp hadmin).symm.trans heq) hne
    | executeAdminChangeByTimelock executor =>
      obtain ⟨data, proposal, _, hpending, helapsed, _, hauth, hstore⟩ :=
        executeAdminChangeByTimelock_eq_ok hexec
      have hnew : h'.store.admin = some proposal.newAdmin := by
        rw [hstore]
        rfl
      have hproposal : (HandoverCall.executeAdminChangeByTimelock executor).proposal h =
          some (proposal.proposer, proposal.proposedAt) := by
        rw [HandoverCall.proposal, hpending, Option.map_some]
      have hwaited : proposal.proposedAt + adminChangeTimelockSeconds ≤ env.timestamp := by
        simp only [adminChangeTimelockSeconds] at helapsed ⊢
        omega
      rw [notInstant_iff_of_proposal hstep hnew hproposal hauth, hpending]
      simp only [Option.some.injEq, forall_eq', HandoverCall.actor, hwaited, and_true]
      rw [or_comm (b := h.store.IsAdmin proposal.proposer)]
  · have hnot : ∀ h', handoverStep i h ≠ .ok h' := fun h' hstep => haccepted ⟨h', hstep⟩
    refine iff_of_true (fun h' hstep => absurd hstep (hnot h')) fun hex => absurd hex haccepted

/-- In every run of the two procedures, from any state, no step changes the admin instantly
exactly if every step keeps to the procedure. -/
theorem notInstant_along_iff (h : HandoverHistory) (run : List (HandoverStep here)) :
    Along handoverStep NotInstant h run ↔ Along handoverStep KeepsToProcedure h run :=
  along_congr (I := fun _ => True) (fun _ _ _ => trivial) (fun h i _ => notInstant_iff h i) trivial
    run

/-- The admin nominates an owner, who claims the contract in the same ledger. -/
def instantRun : List (HandoverStep ⟨0⟩) :=
  [(.standard ⟨0⟩ 1 none, .proposeOwnershipTransfer ⟨9⟩ ⟨1⟩),
    (.standard ⟨0⟩ 1 none, .claimOwnership ⟨1⟩)]

/-- Nobody signed but the admin and the new owner, and no time passed. -/
theorem instantRun_replaces_admin :
    (runAll handoverStep ⟨.initialized ⟨9⟩, 0⟩ instantRun).store.admin = some ⟨1⟩ ∧
    ¬ Along handoverStep NotInstant ⟨.initialized ⟨9⟩, 0⟩ instantRun := by
  let nominated : HandoverHistory :=
    ⟨{ AdminStore.initialized ⟨9⟩ with pendingOwner := some ⟨⟨1⟩, ⟨9⟩⟩ }, 0⟩
  let claimed : HandoverHistory := ⟨.initialized ⟨1⟩, 0⟩
  have hfirst : commit handoverStep ⟨.initialized ⟨9⟩, 0⟩
      (.standard ⟨0⟩ 1 none, .proposeOwnershipTransfer ⟨9⟩ ⟨1⟩) = nominated := rfl
  have hsecond : handoverStep (.standard ⟨0⟩ 1 none, .claimOwnership ⟨1⟩) nominated =
      .ok claimed := rfl
  refine ⟨by rw [instantRun, runAll_cons, hfirst, runAll_cons, commit_of_ok hsecond]; rfl, ?_⟩
  rw [instantRun, Along, hfirst]
  rintro ⟨_, hclaim, _⟩
  obtain ⟨proposer, proposedAt, hproposal, hor⟩ := hclaim claimed hsecond (by decide)
  obtain ⟨rfl, rfl⟩ := Prod.mk.inj (Option.some.inj hproposal)
  rcases hor with ⟨_, hreg | hreg, _⟩ | ⟨_, hwaited⟩
  · exact absurd hreg (by decide)
  · exact absurd hreg (by decide)
  · exact absurd hwaited (by decide)

end Handover

end StellarFlow.Admin
