import StellarFlow.Host

/-!
# Recovery of a lost administrator key

Anybody may ask for a new administrator. The request lies open for seven days, in which every
guardian can call it off; after that anybody may carry it out.
-/
namespace StellarFlow.Admin.KeyRecovery

open Foundation

def recoveryDelaySeconds : ℕ := 7 * 24 * 60 * 60

inductive RecoveryError
  | alreadyInitialized
  | notInitialized
  | notAdmin
  | notGuardian
  | recoveryAlreadyPending
  | noActiveProposal
  | delayNotElapsed
  | emptyGuardianSet
  | alreadyGuardian
  | unknownGuardian
  | unchangedKey
  deriving DecidableEq, Repr

structure RecoveryProposal where
  currentAdmin : Address
  proposedAdmin : Address
  requestedBy : Address
  requestedAt : ℕ
  executableAt : ℕ
  deriving DecidableEq

structure Recovery where
  admin : Option Address
  guardians : Option (List Address)
  proposal : Option RecoveryProposal
  deriving DecidableEq

def Recovery.empty : Recovery := ⟨none, none, none⟩

def Recovery.loadGuardians (s : Recovery) : List Address := s.guardians.getD []

section Calls

variable {here : Address} (env : Env here)

def loadAdmin (s : Recovery) : Except (Abort RecoveryError) Address :=
  okOr s.admin (.error .notInitialized)

def requireAdmin (caller : Address) (s : Recovery) : Except (Abort RecoveryError) Unit := do
  let admin ← loadAdmin s
  failIf (caller ≠ admin) (.error .notAdmin)
  hostCall (env.requireAuth caller)

/-- Deploy-time setup. Nothing is asked of the list but that it is not empty. -/
def setUp (admin : Address) (guardians : List Address) (s : Recovery) :
    Except (Abort RecoveryError) Recovery := do
  failIf (s.admin.isSome = true) (.error .alreadyInitialized)
  failIf (guardians = []) (.error .emptyGuardianSet)
  hostCall (env.requireAuth admin)
  pure { s with admin := some admin, guardians := some guardians }

def requestRecovery (requester proposedAdmin : Address) (s : Recovery) :
    Except (Abort RecoveryError) (ℕ × Recovery) := do
  let admin ← loadAdmin s
  hostCall (env.requireAuth requester)
  failIf (s.proposal.isSome = true) (.error .recoveryAlreadyPending)
  failIf (proposedAdmin = admin) (.error .unchangedKey)
  let executableAt ← okOr (checkBits 64 (env.timestamp + recoveryDelaySeconds))
    (.error .delayNotElapsed)
  pure (executableAt, { s with
    proposal := some ⟨admin, proposedAdmin, requester, env.timestamp, executableAt⟩ })

def cancelRecovery (guardian : Address) (s : Recovery) :
    Except (Abort RecoveryError) Recovery := do
  let _ ← loadAdmin s
  failIf (guardian ∉ s.loadGuardians) (.error .notGuardian)
  hostCall (env.requireAuth guardian)
  let _ ← okOr s.proposal (.error .noActiveProposal)
  pure { s with proposal := none }

/-- Nobody signs here. -/
def finalizeRecovery (s : Recovery) : Except (Abort RecoveryError) (Address × Recovery) := do
  let proposal ← okOr s.proposal (.error .noActiveProposal)
  failIf (env.timestamp < proposal.executableAt) (.error .delayNotElapsed)
  pure (proposal.proposedAdmin, { s with
    admin := some proposal.proposedAdmin, proposal := none })

def addGuardian (caller guardian : Address) (s : Recovery) :
    Except (Abort RecoveryError) Recovery := do
  requireAdmin env caller s
  failIf (guardian ∈ s.loadGuardians) (.error .alreadyGuardian)
  pure { s with guardians := some (s.loadGuardians ++ [guardian]) }

/-- Every entry of the guardian is dropped, but only the length of the list is looked at. -/
def removeGuardian (caller guardian : Address) (s : Recovery) :
    Except (Abort RecoveryError) Recovery := do
  requireAdmin env caller s
  failIf (guardian ∉ s.loadGuardians) (.error .unknownGuardian)
  failIf (s.loadGuardians.length = 1) (.error .emptyGuardianSet)
  pure { s with guardians := some (s.loadGuardians.filter (· ≠ guardian)) }

end Calls

inductive RecoveryCall
  | setUp (admin : Address) (guardians : List Address)
  | requestRecovery (requester proposedAdmin : Address)
  | cancelRecovery (guardian : Address)
  | finalizeRecovery
  | addGuardian (caller guardian : Address)
  | removeGuardian (caller guardian : Address)
  deriving DecidableEq

abbrev RecoveryStep (here : Address) := Env here × RecoveryCall

def recoveryStep {here : Address} (i : RecoveryStep here) (s : Recovery) :
    Except (Abort RecoveryError) Recovery :=
  match i.2 with
  | .setUp admin guardians => setUp i.1 admin guardians s
  | .requestRecovery requester proposedAdmin =>
    Prod.snd <$> requestRecovery i.1 requester proposedAdmin s
  | .cancelRecovery guardian => cancelRecovery i.1 guardian s
  | .finalizeRecovery => Prod.snd <$> finalizeRecovery i.1 s
  | .addGuardian caller guardian => addGuardian i.1 caller guardian s
  | .removeGuardian caller guardian => removeGuardian i.1 caller guardian s

section Steps

variable {here : Address} {env : Env here} {s s' : Recovery} {requester guardian : Address}

/-- The request that a proposal came from. -/
def Requests (i : RecoveryStep here) (p : RecoveryProposal) : Prop :=
  i.2 = .requestRecovery p.requestedBy p.proposedAdmin ∧ i.1.auth p.requestedBy = true ∧
    p.requestedAt = i.1.timestamp ∧ p.executableAt = i.1.timestamp + recoveryDelaySeconds

/-- What an accepted call does to the administrator and the proposal. -/
inductive Change (i : RecoveryStep here) (s : Recovery) : Recovery → Prop
  | setUp {admin : Address} {guardians : List Address} (hnone : s.admin = none)
      (hne : guardians ≠ []) :
      Change i s { s with admin := some admin, guardians := some guardians }
  | request {p : RecoveryProposal} (hnone : s.proposal = none)
      (hadmin : s.admin = some p.currentAdmin) (hp : Requests i p) :
      Change i s { s with proposal := some p }
  | cancel : Change i s { s with proposal := none }
  | finalize {p : RecoveryProposal} (hp : s.proposal = some p)
      (hcall : i.2 = .finalizeRecovery) (hdue : p.executableAt ≤ i.1.timestamp) :
      Change i s { s with admin := some p.proposedAdmin, proposal := none }
  | add {guardian : Address} (hnew : guardian ∉ s.loadGuardians) :
      Change i s { s with guardians := some (s.loadGuardians ++ [guardian]) }
  | remove {guardian : Address} (hmem : guardian ∈ s.loadGuardians)
      (hlength : s.loadGuardians.length ≠ 1) :
      Change i s { s with guardians := some (s.loadGuardians.filter (· ≠ guardian)) }

theorem recoveryStep_change {i : RecoveryStep here} (h : recoveryStep i s = .ok s') :
    Change i s s' := by
  obtain ⟨env, call⟩ := i
  cases call with
  | setUp admin guardians =>
    simp only [recoveryStep, setUp, bind_eq_ok, failIf_eq_ok, pure_eq_ok, Bool.not_eq_true,
      Option.isSome_eq_false_iff, Option.isNone_iff_eq_none] at h
    obtain ⟨_, hnone, _, hne, _, _, rfl⟩ := h
    exact .setUp hnone hne
  | requestRecovery requester proposedAdmin =>
    obtain ⟨r, h⟩ := snd_map_eq_ok.mp h
    simp only [requestRecovery, loadAdmin, bind_eq_ok, okOr_eq_ok, failIf_eq_ok, hostCall_eq_ok,
      Env.requireAuth_eq_ok, checkBits_eq_some, pure_eq_ok, Prod.mk.injEq, Bool.not_eq_true,
      Option.isSome_eq_false_iff, Option.isNone_iff_eq_none] at h
    obtain ⟨admin, hadmin, _, hauth, _, hnone, _, _, _, ⟨_, rfl⟩, rfl, rfl⟩ := h
    exact .request hnone hadmin ⟨rfl, hauth, rfl, rfl⟩
  | cancelRecovery guardian =>
    simp only [recoveryStep, cancelRecovery, bind_eq_ok, pure_eq_ok] at h
    obtain ⟨_, _, _, _, _, _, _, _, rfl⟩ := h
    exact .cancel
  | finalizeRecovery =>
    obtain ⟨r, h⟩ := snd_map_eq_ok.mp h
    simp only [finalizeRecovery, bind_eq_ok, okOr_eq_ok, failIf_eq_ok, pure_eq_ok,
      Prod.mk.injEq, not_lt] at h
    obtain ⟨p, hp, _, hdue, rfl, rfl⟩ := h
    exact .finalize hp rfl hdue
  | addGuardian caller guardian =>
    simp only [recoveryStep, addGuardian, bind_eq_ok, failIf_eq_ok, pure_eq_ok] at h
    obtain ⟨_, _, _, hnew, rfl⟩ := h
    exact .add hnew
  | removeGuardian caller guardian =>
    simp only [recoveryStep, removeGuardian, bind_eq_ok, failIf_eq_ok, pure_eq_ok, not_not] at h
    obtain ⟨_, _, _, hmem, _, hlength, rfl⟩ := h
    exact .remove hmem hlength

/-- A proposal only waits while there is an administrator. -/
def Recovery.Administered (s : Recovery) : Prop := s.proposal ≠ none → s.admin ≠ none

theorem Change.administered {i : RecoveryStep here} (h : Change i s s') (hs : s.Administered) :
    s'.Administered := by
  cases h with
  | setUp => exact fun _ => Option.some_ne_none _
  | request _ hadmin => exact fun _ => by simp [hadmin]
  | cancel => exact fun h => absurd rfl h
  | finalize => exact fun h => absurd rfl h
  | add => exact hs
  | remove => exact hs

theorem administered (run : List (RecoveryStep here)) :
    (runAll recoveryStep .empty run).Administered :=
  runAll_induction (fun _ _ _ hs h => (recoveryStep_change h).administered hs)
    (fun h => absurd rfl h) run

/-- A guardian can call off whatever is proposed. -/
theorem cancelRecovery_ok (hs : s.Administered) {p : RecoveryProposal} (hp : s.proposal = some p)
    (hguardian : guardian ∈ s.loadGuardians) (hauth : env.auth guardian = true) :
    cancelRecovery env guardian s = .ok { s with proposal := none } := by
  obtain ⟨admin, hadmin⟩ := Option.ne_none_iff_exists'.mp (hs (by simp [hp]))
  have hsigned : env.requireAuth guardian = .ok () := Env.requireAuth_eq_ok.mpr hauth
  rw [cancelRecovery, loadAdmin, hadmin, okOr_some, ok_bind, failIf_of_not (not_not.mpr hguardian),
    ok_bind, hostCall_eq_ok.mpr hsigned, ok_bind, hp, okOr_some, ok_bind]
  rfl

/-- A proposal that appears was requested in that call. -/
theorem requests_of_commit {i : RecoveryStep here} {p : RecoveryProposal}
    (hbefore : s.proposal ≠ some p) (hafter : (commit recoveryStep s i).proposal = some p) :
    Requests i p := by
  cases hstep : recoveryStep i s with
  | error e =>
    rw [commit_of_error hstep] at hafter
    exact absurd hafter hbefore
  | ok s' =>
    rw [commit_of_ok hstep] at hafter
    cases recoveryStep_change hstep with
    | setUp => exact absurd hafter hbefore
    | request _ _ hp =>
      obtain rfl := Option.some.inj hafter
      exact hp
    | cancel => cases hafter
    | finalize => cases hafter
    | add => exact absurd hafter hbefore
    | remove => exact absurd hafter hbefore

/-- Only carrying out a proposal that is due replaces an administrator. -/
theorem finalized_of_commit {i : RecoveryStep here} {old new : Address}
    (hold : s.admin = some old) (hnew : (commit recoveryStep s i).admin = some new)
    (hne : new ≠ old) : ∃ p, s.proposal = some p ∧ i.2 = .finalizeRecovery ∧
      p.executableAt ≤ i.1.timestamp ∧ p.proposedAdmin = new := by
  have hdiffer : s.admin ≠ some new := by
    rw [hold]
    exact fun h => hne (Option.some.inj h).symm
  cases hstep : recoveryStep i s with
  | error e =>
    rw [commit_of_error hstep] at hnew
    exact absurd hnew hdiffer
  | ok s' =>
    rw [commit_of_ok hstep] at hnew
    cases recoveryStep_change hstep with
    | setUp hnone => cases hold.symm.trans hnone
    | request => exact absurd hnew hdiffer
    | cancel => exact absurd hnew hdiffer
    | @finalize p hp hcall hdue => exact ⟨p, hp, hcall, hdue, Option.some.inj hnew⟩
    | add => exact absurd hnew hdiffer
    | remove => exact absurd hnew hdiffer

end Steps

/-- An administrator is only replaced by carrying out a request for the new one that is at least
seven days old, and at every point in between each guardian of that time could have called it
off. -/
theorem recovery_disputable {here : Address} {run : List (RecoveryStep here)}
    {i : RecoveryStep here} {old new : Address}
    (hold : (runAll recoveryStep .empty run).admin = some old)
    (hnew : (runAll recoveryStep .empty (run ++ [i])).admin = some new) (hne : new ≠ old) :
    i.2 = .finalizeRecovery ∧
    ∃ pre j post requester, run = pre ++ j :: post ∧ j.2 = .requestRecovery requester new ∧
      j.1.auth requester = true ∧ j.1.timestamp + recoveryDelaySeconds ≤ i.1.timestamp ∧
      ∀ mid rest, post = mid ++ rest → ∀ (env : Env here) guardian,
        guardian ∈ (runAll recoveryStep .empty (pre ++ j :: mid)).loadGuardians →
        env.auth guardian = true →
        ∃ s', cancelRecovery env guardian (runAll recoveryStep .empty (pre ++ j :: mid)) = .ok s' ∧
          s'.proposal = none := by
  rw [runAll_append] at hnew
  obtain ⟨p, hp, hcall, hdue, rfl⟩ := finalized_of_commit hold hnew hne
  obtain ⟨pre, j, post, rfl, hnot, hsince⟩ := exists_last_change
    (Q := fun s : Recovery => s.proposal = some p) (s := .empty) nofun hp
  have hrequested : Requests j p := by
    refine requests_of_commit hnot ?_
    have hfirst := hsince [] post rfl
    rwa [runAll_append] at hfirst
  obtain ⟨hj, hauth, -, hexecutable⟩ := hrequested
  refine ⟨hcall, pre, j, post, p.requestedBy, rfl, hj, hauth, hexecutable ▸ hdue, ?_⟩
  intro mid rest hpost env guardian hguardian hsigned
  exact ⟨_, cancelRecovery_ok (administered _) (hsince mid rest hpost) hguardian hsigned, rfl⟩

section Sample

def recoveryAt (timestamp : ℕ) (call : RecoveryCall) : RecoveryStep ⟨0⟩ :=
  ({ Env.standard ⟨0⟩ 3 none with timestamp }, call)

def recoveryRun : List (RecoveryStep ⟨0⟩) :=
  [recoveryAt 0 (.setUp ⟨1⟩ [⟨2⟩, ⟨3⟩]), recoveryAt 5 (.requestRecovery ⟨4⟩ ⟨9⟩)]

/-- A request that nobody called off is carried out after a week. -/
theorem recoveryRun_disputable :
    ∃ pre j post requester, recoveryRun = pre ++ j :: post ∧
      j.2 = .requestRecovery requester ⟨9⟩ ∧ j.1.auth requester = true ∧
      j.1.timestamp + recoveryDelaySeconds ≤ 5 + recoveryDelaySeconds ∧
      ∀ mid rest, post = mid ++ rest → ∀ (env : Env ⟨0⟩) guardian,
        guardian ∈ (runAll recoveryStep .empty (pre ++ j :: mid)).loadGuardians →
        env.auth guardian = true →
        ∃ s', cancelRecovery env guardian (runAll recoveryStep .empty (pre ++ j :: mid)) = .ok s' ∧
          s'.proposal = none :=
  (recovery_disputable (i := recoveryAt (5 + recoveryDelaySeconds) .finalizeRecovery)
    (show (runAll recoveryStep .empty recoveryRun).admin = some ⟨1⟩ by decide +kernel)
    (by decide +kernel) (by decide)).2

end Sample

/-! ## Who can dispute -/

section Guardians

variable {here : Address} {env : Env here} {s s' : Recovery} {admin g : Address}
  {gs : List Address}

/-- Without repetitions, dropping one of several guardians leaves another. -/
theorem filter_ne_nil (hnodup : gs.Nodup) (hmem : g ∈ gs) (hlength : gs.length ≠ 1) :
    gs.filter (· ≠ g) ≠ [] := by
  intro hnil
  have hall : ∀ x ∈ gs, x = g := by
    intro x hx
    simpa using List.filter_eq_nil_iff.mp hnil x hx
  match gs, hnodup, hmem, hlength, hall with
  | [_], _, _, hlength, _ => exact hlength rfl
  | x :: y :: rest, hnodup, _, _, hall =>
    have hx := hall x List.mem_cons_self
    have hy := hall y (List.mem_cons_of_mem _ List.mem_cons_self)
    exact (List.nodup_cons.mp hnodup).1 (by simp [hx, hy])

/-- An administrator and guardians without repetitions. -/
structure Recovery.Guarded (s : Recovery) : Prop where
  admin_ne : s.admin ≠ none
  nodup : s.loadGuardians.Nodup
  guardians_ne : s.loadGuardians ≠ []

theorem Change.guarded {i : RecoveryStep here} (h : Change i s s') (hs : s.Guarded) :
    s'.Guarded := by
  cases h with
  | setUp hnone => exact absurd hnone hs.admin_ne
  | request => exact ⟨hs.admin_ne, hs.nodup, hs.guardians_ne⟩
  | cancel => exact ⟨hs.admin_ne, hs.nodup, hs.guardians_ne⟩
  | finalize => exact ⟨Option.some_ne_none _, hs.nodup, hs.guardians_ne⟩
  | @add guardian hnew =>
    refine ⟨hs.admin_ne, ?_, by simp [Recovery.loadGuardians]⟩
    refine List.nodup_append.mpr ⟨hs.nodup, List.nodup_singleton _, ?_⟩
    rintro a ha b hb rfl
    exact hnew (List.mem_singleton.mp hb ▸ ha)
  | @remove guardian hmem hlength =>
    exact ⟨hs.admin_ne, hs.nodup.filter _, filter_ne_nil hs.nodup hmem hlength⟩

/-- As long as there is not exactly one entry, the administrator can drop anybody. -/
theorem commit_removeGuardian (hadmin : s.admin = some admin) (hauth : env.auth admin = true)
    (hlength : s.loadGuardians.length ≠ 1) (x : Address) :
    (commit recoveryStep s (env, .removeGuardian admin x)).admin = some admin ∧
      (commit recoveryStep s (env, .removeGuardian admin x)).loadGuardians =
        s.loadGuardians.filter (· ≠ x) := by
  have hrequired : requireAdmin env admin s = .ok () := by
    have hsigned : env.requireAuth admin = .ok () := Env.requireAuth_eq_ok.mpr hauth
    rw [requireAdmin, loadAdmin, hadmin, okOr_some, ok_bind, failIf_of_not (not_not.mpr rfl),
      ok_bind, hostCall_eq_ok.mpr hsigned]
  by_cases hmem : x ∈ s.loadGuardians
  · have hstep : recoveryStep (env, .removeGuardian admin x) s =
        .ok { s with guardians := some (s.loadGuardians.filter (· ≠ x)) } := by
      show removeGuardian env admin x s = _
      rw [removeGuardian, hrequired, ok_bind, failIf_of_not (not_not.mpr hmem), ok_bind,
        failIf_of_not hlength, ok_bind]
      rfl
    rw [commit_of_ok hstep]
    exact ⟨hadmin, rfl⟩
  · have hstep : recoveryStep (env, .removeGuardian admin x) s =
        .error (.error .unknownGuardian) := by
      show removeGuardian env admin x s = _
      rw [removeGuardian, hrequired, ok_bind, failIf, if_pos hmem]
      rfl
    rw [commit_of_error hstep]
    refine ⟨hadmin, (List.filter_eq_self.mpr fun y hy => ?_).symm⟩
    rw [decide_eq_true_eq]
    rintro rfl
    exact hmem hy

/-- With one guardian entered twice, all others can be dropped. -/
theorem runAll_removeGuardian (hauth : env.auth admin = true) (others : List Address)
    (hothers : ∀ x ∈ others, x ≠ g) (hadmin : s.admin = some admin)
    (htwice : 2 ≤ s.loadGuardians.count g) :
    (runAll recoveryStep s (others.map fun x => (env, .removeGuardian admin x))).admin =
        some admin ∧
      (runAll recoveryStep s (others.map fun x => (env, .removeGuardian admin x))).loadGuardians =
        s.loadGuardians.filter (· ∉ others) := by
  induction others generalizing s with
  | nil => exact ⟨hadmin, by simp⟩
  | cons x others ih =>
    obtain ⟨hx, hrest⟩ := List.forall_mem_cons.mp hothers
    have hlength : s.loadGuardians.length ≠ 1 := by
      have := List.count_le_length (a := g) (l := s.loadGuardians)
      omega
    obtain ⟨hadmin', hguardians⟩ := commit_removeGuardian hadmin hauth hlength x
    rw [List.map_cons, runAll_cons]
    obtain ⟨hlast, hleft⟩ := ih hrest hadmin' (by
      rw [hguardians, List.count_filter (by simpa using hx.symm)]
      exact htwice)
    refine ⟨hlast, ?_⟩
    rw [hleft, hguardians, List.filter_filter]
    refine List.filter_congr fun y _ => ?_
    simp [not_or, Bool.and_comm]

end Guardians

/-- After the setup there is a guardian in every state of every run exactly when the list of the
setup has no repetition: a guardian that is entered twice is dropped at once although nobody
else is left. -/
theorem guardians_remain_iff {here : Address} {env : Env here} {admin : Address}
    {gs : List Address} {s : Recovery} (h : setUp env admin gs .empty = .ok s) :
    (∀ run : List (RecoveryStep here),
      Throughout recoveryStep (fun s => s.loadGuardians ≠ []) s run) ↔ gs.Nodup := by
  simp only [setUp, bind_eq_ok, failIf_eq_ok, hostCall_eq_ok, Env.requireAuth_eq_ok,
    pure_eq_ok] at h
  obtain ⟨_, _, _, hne, _, hauth, rfl⟩ := h
  constructor
  · intro hall
    by_contra hrepeated
    obtain ⟨g, hg⟩ := List.exists_duplicate_iff_not_nodup.mpr hrepeated
    have htwice : 2 ≤ gs.count g := List.duplicate_iff_two_le_count.mp hg
    let others := gs.filter (· ≠ g)
    let start : Recovery := { Recovery.empty with admin := some admin, guardians := some gs }
    let run : List (RecoveryStep here) := others.map fun x => (env, .removeGuardian admin x)
    obtain ⟨hadmin, hleft⟩ := runAll_removeGuardian (s := start) hauth others
      (fun x hx => by simpa using (List.mem_filter.mp hx).2) rfl htwice
    have hcount : 2 ≤ (runAll recoveryStep start run).loadGuardians.count g := by
      rw [hleft, List.count_filter (by simp [others])]
      exact htwice
    have hlength : (runAll recoveryStep start run).loadGuardians.length ≠ 1 := by
      have := List.count_le_length (a := g) (l := (runAll recoveryStep start run).loadGuardians)
      omega
    have hlast := (hall (run ++ [(env, .removeGuardian admin g)])).last
    rw [runAll_append, runAll_cons, runAll_nil,
      (commit_removeGuardian hadmin hauth hlength g).2, hleft] at hlast
    refine hlast (List.filter_eq_nil_iff.mpr fun y hy => ?_)
    obtain ⟨hmem, hkept⟩ := List.mem_filter.mp hy
    have hcases : y ∉ gs ∨ y = g := by simpa [others] using hkept
    simpa using hcases.resolve_left (not_not.mpr hmem)
  · intro hnodup run
    exact throughout_of_invariant (I := Recovery.Guarded)
      (fun s i s' hs hstep => (recoveryStep_change hstep).guarded hs)
      (fun s hs => hs.guardians_ne)
      (show Recovery.Guarded { Recovery.empty with admin := some admin, guardians := some gs } from
        ⟨Option.some_ne_none _, hnodup, hne⟩) run

theorem guardians_remain_sample :
    (∀ run : List (RecoveryStep ⟨0⟩), Throughout recoveryStep (fun s => s.loadGuardians ≠ [])
      ⟨some ⟨1⟩, some [⟨2⟩, ⟨3⟩, ⟨2⟩], none⟩ run) ↔
        [(⟨2⟩ : Address), ⟨3⟩, ⟨2⟩].Nodup :=
  guardians_remain_iff (show setUp (Env.standard ⟨0⟩ 0 none) ⟨1⟩ [⟨2⟩, ⟨3⟩, ⟨2⟩] .empty = _ by
    decide +kernel)

end StellarFlow.Admin.KeyRecovery
