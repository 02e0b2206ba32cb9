import StellarFlow.Bytes
import StellarFlow.Foundation.LastWrite
import StellarFlow.Host

/-!
# Delegated roles

The administrator, or whoever holds the role for it, grants a role until a ledger and may take it
back before. Two roles can share a name: they are stored apart but marked active together.
-/
namespace StellarFlow.Admin.Roles

open Foundation

inductive Role
  | pauseAdmin
  | feeAdmin
  | upgradeAdmin
  | treasuryAdmin
  | rolePauser
  | roleFeeSetter
  | roleOracleManager
  | roleAdmin
  deriving DecidableEq, Repr

inductive RoleError
  | notInitialized
  | notAdmin
  | roleExpirationInPast
  | roleNotFound
  | roleExpiredOrMissing
  deriving DecidableEq, Repr

inductive RoleEventName
  | roleGranted
  | roleRevoked
  deriving DecidableEq, Repr

structure RoleGrant where
  role : Role
  roleHash : Bytes32
  grantee : Address
  grantedBy : Address
  grantedAtLedger : ℕ
  expirationLedger : ℕ
  deriving DecidableEq

structure RoleAuditEvent where
  eventName : RoleEventName
  role : Role
  roleHash : Bytes32
  actor : Address
  grantee : Address
  ledger : ℕ
  deriving DecidableEq

structure BridgeValidatorSet where
  sequence : ℕ
  validatorHashes : List Bytes32
  deriving DecidableEq

structure RoleBook where
  grants : Store (Address × Role) RoleGrant
  activeRoleHash : Finset (Address × Bytes32)
  auditLog : List RoleAuditEvent
  validatorSet : Option BridgeValidatorSet
  deriving DecidableEq

def RoleBook.empty : RoleBook := ⟨∅, ∅, [], none⟩

def Role.name : Role → String
  | .pauseAdmin | .rolePauser => "ROLE_PAUSER"
  | .feeAdmin | .roleFeeSetter => "ROLE_FEE_SETTER"
  | .upgradeAdmin => "ROLE_UPGRADE_ADMIN"
  | .treasuryAdmin => "ROLE_TREASURY_ADMIN"
  | .roleOracleManager => "ROLE_ORACLE_MANAGER"
  | .roleAdmin => "ROLE_ADMIN"

def roleHash (sha256 : ByteString → Bytes32) (role : Role) : Bytes32 :=
  sha256 role.name.toUTF8.toList

def getBridgeValidatorSet (s : RoleBook) : BridgeValidatorSet := s.validatorSet.getD ⟨0, []⟩

section Calls

variable (sha256 : ByteString → Bytes32) {here : Address} (env : Env here)

def hasRole (grantee : Address) (role : Role) (s : RoleBook) : Bool :=
  match s.grants.lookup (grantee, role) with
  | some grant =>
    env.sequence < grant.expirationLedger ∧ (grantee, grant.roleHash) ∈ s.activeRoleHash
  | none => false

def requireRole (grantee : Address) (role : Role) (s : RoleBook) : Except (Abort RoleError) Unit :=
  failIf (¬ hasRole env grantee role s) (.error .roleExpiredOrMissing)

/-- The administrator is read from the data of the contract. -/
def requireAdmin (data : Option Address) (caller : Address) (s : RoleBook) :
    Except (Abort RoleError) Unit := do
  let admin ← okOr data (.error .notInitialized)
  failIf (¬ (admin = caller ∨ hasRole env caller .roleAdmin s = true)) (.error .notAdmin)
  hostCall (env.requireAuth caller)

def appendRoleAuditEvent (eventName : RoleEventName) (grant : RoleGrant) (actor : Address)
    (s : RoleBook) : RoleBook :=
  { s with auditLog := s.auditLog ++
      [⟨eventName, grant.role, grant.roleHash, actor, grant.grantee, env.sequence⟩] }

def grantRole (data : Option Address) (admin grantee : Address) (role : Role)
    (expirationLedger : ℕ) (s : RoleBook) : Except (Abort RoleError) (RoleGrant × RoleBook) := do
  requireAdmin env data admin s
  failIf (expirationLedger ≤ env.sequence) (.error .roleExpirationInPast)
  let roleId := roleHash sha256 role
  let grant : RoleGrant := ⟨role, roleId, grantee, admin, env.sequence, expirationLedger⟩
  let s := { s with
    grants := s.grants.insert (grantee, role) grant
    activeRoleHash := insert (grantee, roleId) s.activeRoleHash }
  pure (grant, appendRoleAuditEvent env .roleGranted grant admin s)

def revokeRole (data : Option Address) (admin grantee : Address) (role : Role) (s : RoleBook) :
    Except (Abort RoleError) RoleBook := do
  requireAdmin env data admin s
  let grant ← okOr (s.grants.lookup (grantee, role)) (.error .roleNotFound)
  let s := { s with
    grants := s.grants.erase (grantee, role)
    activeRoleHash := s.activeRoleHash.erase (grantee, grant.roleHash) }
  pure (appendRoleAuditEvent env .roleRevoked grant admin s)

/-- The set is numbered, and the call traps past the last number. -/
def updateBridgeValidators (data : Option Address) (admin : Address)
    (validatorHashes : List Bytes32) (s : RoleBook) : Except (Abort RoleError) (ℕ × RoleBook) := do
  requireAdmin env data admin s
  let sequence ← okOr (checkBits 32 ((getBridgeValidatorSet s).sequence + 1)) .trap
  pure (sequence, { s with validatorSet := some ⟨sequence, validatorHashes⟩ })

end Calls

inductive RoleCall
  | grantRole (data : Option Address) (admin grantee : Address) (role : Role)
      (expirationLedger : ℕ)
  | revokeRole (data : Option Address) (admin grantee : Address) (role : Role)
  | updateBridgeValidators (data : Option Address) (admin : Address)
      (validatorHashes : List Bytes32)
  deriving DecidableEq

abbrev RoleStep (here : Address) := Env here × RoleCall

def roleStep (sha256 : ByteString → Bytes32) {here : Address} (i : RoleStep here) (s : RoleBook) :
    Except (Abort RoleError) RoleBook :=
  match i.2 with
  | .grantRole data admin grantee role expirationLedger =>
    Prod.snd <$> grantRole sha256 i.1 data admin grantee role expirationLedger s
  | .revokeRole data admin grantee role => revokeRole i.1 data admin grantee role s
  | .updateBridgeValidators data admin validatorHashes =>
    Prod.snd <$> updateBridgeValidators i.1 data admin validatorHashes s

/-! ## What a call changes -/

section Steps

variable {sha256 : ByteString → Bytes32} {here : Address} {env : Env here} {i : RoleStep here}
  {s s' : RoleBook} {data : Option Address} {caller grantee : Address} {role : Role}

/-- Who may change roles: the administrator, or whoever holds the role for it. -/
def Authorised (env : Env here) (data : Option Address) (caller : Address) (s : RoleBook) : Prop :=
  (data = some caller ∨ data ≠ none ∧ hasRole env caller .roleAdmin s = true) ∧
    env.auth caller = true

theorem requireAdmin_eq_ok {u : Unit} :
    requireAdmin env data caller s = .ok u ↔ Authorised env data caller s := by
  simp only [requireAdmin, bind_eq_ok, okOr_eq_ok, failIf_eq_ok, hostCall_eq_ok,
    Env.requireAuth_eq_ok, not_not, exists_const, Authorised]
  cases data with
  | none => simp
  | some admin => simp

/-- The grant that a call stores. -/
def grantOf (sha256 : ByteString → Bytes32) (env : Env here) (admin grantee : Address)
    (role : Role) (expirationLedger : ℕ) : RoleGrant :=
  ⟨role, roleHash sha256 role, grantee, admin, env.sequence, expirationLedger⟩

@[simp] theorem grantOf_roleHash (admin : Address) (expirationLedger : ℕ) :
    (grantOf sha256 env admin grantee role expirationLedger).roleHash = roleHash sha256 role := rfl

/-- What an accepted call does. -/
inductive Change (sha256 : ByteString → Bytes32) (i : RoleStep here) (s : RoleBook) :
    RoleBook → Prop
  | grant {data : Option Address} {admin grantee : Address} {role : Role} {expirationLedger : ℕ}
      (hcall : i.2 = .grantRole data admin grantee role expirationLedger)
      (hauth : Authorised i.1 data admin s) (hexpiration : i.1.sequence < expirationLedger) :
      Change sha256 i s { s with
        grants := s.grants.insert (grantee, role)
          (grantOf sha256 i.1 admin grantee role expirationLedger)
        activeRoleHash := insert (grantee, roleHash sha256 role) s.activeRoleHash
        auditLog := s.auditLog ++
          [⟨.roleGranted, role, roleHash sha256 role, admin, grantee, i.1.sequence⟩] }
  | revoke {data : Option Address} {admin grantee : Address} {role : Role} {grant : RoleGrant}
      (hcall : i.2 = .revokeRole data admin grantee role) (hauth : Authorised i.1 data admin s)
      (hgrant : s.grants.lookup (grantee, role) = some grant) :
      Change sha256 i s { s with
        grants := s.grants.erase (grantee, role)
        activeRoleHash := s.activeRoleHash.erase (grantee, grant.roleHash)
        auditLog := s.auditLog ++
          [⟨.roleRevoked, grant.role, grant.roleHash, admin, grant.grantee, i.1.sequence⟩] }
  | validators {data : Option Address} {admin : Address} {validatorHashes : List Bytes32}
      {set : BridgeValidatorSet}
      (hcall : i.2 = .updateBridgeValidators data admin validatorHashes) :
      Change sha256 i s { s with validatorSet := some set }

theorem roleStep_change (h : roleStep sha256 i s = .ok s') : Change sha256 i s s' := by
  obtain ⟨env, call⟩ := i
  cases call with
  | grantRole data admin grantee role expirationLedger =>
    obtain ⟨grant, h⟩ := snd_map_eq_ok.mp h
    simp only [grantRole, bind_eq_ok, requireAdmin_eq_ok, failIf_eq_ok, pure_eq_ok, exists_const,
      Prod.mk.injEq, not_le] at h
    obtain ⟨hauth, hexpiration, _, rfl⟩ := h
    exact .grant rfl hauth hexpiration
  | revokeRole data admin grantee role =>
    simp only [roleStep, revokeRole, bind_eq_ok, requireAdmin_eq_ok, okOr_eq_ok, pure_eq_ok,
      exists_const] at h
    obtain ⟨hauth, grant, hgrant, rfl⟩ := h
    exact .revoke rfl hauth hgrant
  | updateBridgeValidators data admin validatorHashes =>
    obtain ⟨sequence, h⟩ := snd_map_eq_ok.mp h
    simp only [updateBridgeValidators, bind_eq_ok, pure_eq_ok, Prod.mk.injEq] at h
    obtain ⟨_, _, _, _, _, rfl⟩ := h
    exact .validators rfl

/-- A grant is stored under what it says. -/
def RoleBook.Keyed (sha256 : ByteString → Bytes32) (s : RoleBook) : Prop :=
  ∀ grantee role grant, s.grants.lookup (grantee, role) = some grant →
    grant.grantee = grantee ∧ grant.role = role ∧ grant.roleHash = roleHash sha256 role

theorem Change.keyed (h : Change sha256 i s s') (hs : s.Keyed sha256) : s'.Keyed sha256 := by
  cases h with
  | grant =>
    intro g r grant hgrant
    rcases Store.lookup_insert_eq_some.mp hgrant with ⟨heq, rfl⟩ | ⟨_, hold⟩
    · obtain ⟨rfl, rfl⟩ := Prod.mk.inj heq
      exact ⟨rfl, rfl, rfl⟩
    · exact hs g r grant hold
  | revoke =>
    intro g r grant hgrant
    rw [Store.lookup_erase_ite] at hgrant
    split_ifs at hgrant
    exact hs g r grant hgrant
  | validators => exact hs

theorem keyed_commit (s : RoleBook) (i : RoleStep here) (hs : s.Keyed sha256) :
    (commit (roleStep sha256) s i).Keyed sha256 :=
  commit_induction hs fun _ h => (roleStep_change h).keyed hs

/-- The call is accepted and grants the role until the given ledger. -/
def Grants (sha256 : ByteString → Bytes32) (s : RoleBook) (i : RoleStep here) (grantee : Address)
    (role : Role) (expirationLedger : ℕ) : Prop :=
  (roleStep sha256 i s).isOk ∧ ∃ data admin,
    i.2 = .grantRole data admin grantee role expirationLedger

/-- The call is accepted and takes the role back. -/
def Revokes (sha256 : ByteString → Bytes32) (s : RoleBook) (i : RoleStep here) (grantee : Address)
    (role : Role) : Prop :=
  (roleStep sha256 i s).isOk ∧ ∃ data admin, i.2 = .revokeRole data admin grantee role

/-- What an accepted call writes for a grantee and a role. -/
def grantWrite (sha256 : ByteString → Bytes32) (grantee : Address) (role : Role) (s : RoleBook)
    (i : RoleStep here) : Option (Option RoleGrant) :=
  if (roleStep sha256 i s).isOk then
    match i.2 with
    | .grantRole _ admin g r expirationLedger =>
      if (grantee, role) = (g, r) then
        some (some (grantOf sha256 i.1 admin g r expirationLedger)) else none
    | .revokeRole _ _ g r => if (grantee, role) = (g, r) then some none else none
    | .updateBridgeValidators _ _ _ => none
  else none

/-- What an accepted call marks for a grantee and the hash of a name. -/
def markWrite (sha256 : ByteString → Bytes32) (grantee : Address) (hash : Bytes32) (s : RoleBook)
    (i : RoleStep here) : Option (Option Unit) :=
  if (roleStep sha256 i s).isOk then
    match i.2 with
    | .grantRole _ _ g r _ =>
      if (grantee, hash) = (g, roleHash sha256 r) then some (some ()) else none
    | .revokeRole _ _ g r =>
      if (grantee, hash) = (g, roleHash sha256 r) then some none else none
    | .updateBridgeValidators _ _ _ => none
  else none

variable (sha256) in
theorem writesCell_grant (grantee : Address) (role : Role) :
    WritesCell (@roleStep sha256 here) (RoleBook.Keyed sha256)
      (fun s => s.grants.lookup (grantee, role)) (grantWrite sha256 grantee role) := by
  refine ⟨keyed_commit, fun s i _ => ?_⟩
  rw [grantWrite]
  cases hstep : roleStep sha256 i s with
  | error e =>
    rw [commit_of_error hstep]
    rfl
  | ok s' =>
    rw [commit_of_ok hstep, if_pos (show (Except.ok s' : Except (Abort RoleError) _).isOk from rfl)]
    cases roleStep_change hstep with
    | grant hcall =>
      simp only [hcall, Store.lookup_insert_ite]
      split_ifs <;> rfl
    | revoke hcall =>
      simp only [hcall, Store.lookup_erase_ite]
      split_ifs <;> rfl
    | validators hcall => simp only [hcall, Option.getD_none]

variable (sha256) in
theorem writesCell_mark (grantee : Address) (hash : Bytes32) :
    WritesCell (@roleStep sha256 here) (RoleBook.Keyed sha256)
      (fun s => if (grantee, hash) ∈ s.activeRoleHash then some () else none)
      (markWrite sha256 grantee hash) := by
  refine ⟨keyed_commit, fun s i hs => ?_⟩
  rw [markWrite]
  cases hstep : roleStep sha256 i s with
  | error e =>
    rw [commit_of_error hstep]
    rfl
  | ok s' =>
    rw [commit_of_ok hstep, if_pos (show (Except.ok s' : Except (Abort RoleError) _).isOk from rfl)]
    cases roleStep_change hstep with
    | grant hcall =>
      simp only [hcall, Finset.mem_insert]
      split_ifs <;> simp_all
    | revoke hcall _ hgrant =>
      simp only [hcall, Finset.mem_erase, (hs _ _ _ hgrant).2.2]
      split_ifs <;> simp_all
    | validators hcall => simp only [hcall, Option.getD_none]

theorem grantWrite_eq_some {grant : RoleGrant} :
    grantWrite sha256 grantee role s i = some (some grant) ↔
      (roleStep sha256 i s).isOk ∧ ∃ data admin expirationLedger,
        i.2 = .grantRole data admin grantee role expirationLedger ∧
        grant = grantOf sha256 i.1 admin grantee role expirationLedger := by
  rw [grantWrite]
  split_ifs with hok
  · cases hcall : i.2 with
    | grantRole data admin g r expirationLedger => grind
    | revokeRole data admin g r => simp
    | updateBridgeValidators data admin validatorHashes => simp
  · simp [hok]

theorem grantWrite_eq_none : grantWrite sha256 grantee role s i = none ↔
    ¬ Revokes sha256 s i grantee role ∧ ∀ expirationLedger,
      ¬ Grants sha256 s i grantee role expirationLedger := by
  rw [grantWrite]
  split_ifs with hok
  · cases hcall : i.2 with
    | grantRole data admin g r expirationLedger =>
      simp only [Revokes, Grants, hok, hcall]
      grind
    | revokeRole data admin g r => grind [Revokes, Grants]
    | updateBridgeValidators data admin validatorHashes => simp [Revokes, Grants, hcall]
  · simp [Revokes, Grants, hok]

theorem markWrite_eq_some {hash : Bytes32} :
    markWrite sha256 grantee hash s i = some (some ()) ↔
      ∃ r expirationLedger, roleHash sha256 r = hash ∧
        Grants sha256 s i grantee r expirationLedger := by
  rw [markWrite]
  split_ifs with hok
  · cases hcall : i.2 with
    | grantRole data admin g r expirationLedger =>
      simp only [Grants, hok, hcall]
      grind
    | revokeRole data admin g r => simp [Grants, hcall]
    | updateBridgeValidators data admin validatorHashes => simp [Grants, hcall]
  · simp [Grants, hok]

theorem markWrite_ne {hash : Bytes32} : markWrite sha256 grantee hash s i ≠ some none ↔
    ∀ r, roleHash sha256 r = hash → ¬ Revokes sha256 s i grantee r := by
  rw [markWrite]
  split_ifs with hok
  · cases hcall : i.2 with
    | grantRole data admin g r expirationLedger => simp [Revokes, hcall]
    | revokeRole data admin g r => grind [Revokes]
    | updateBridgeValidators data admin validatorHashes => simp [Revokes, hcall]
  · simp [Revokes, hok]

theorem hasRole_eq_true : hasRole env grantee role s = true ↔
    ∃ grant, s.grants.lookup (grantee, role) = some grant ∧
      env.sequence < grant.expirationLedger ∧ (grantee, grant.roleHash) ∈ s.activeRoleHash := by
  rw [hasRole]
  cases s.grants.lookup (grantee, role) with
  | none => simp
  | some grant => simp

end Steps

theorem keyed_empty (sha256 : ByteString → Bytes32) : RoleBook.empty.Keyed sha256 :=
  fun _ _ _ h => by cases h

/-- A role is held exactly while its last grant has not run out and was not taken back, and no
role of the same name was taken back from the grantee since one of them was last granted. -/
theorem hasRole_iff (sha256 : ByteString → Bytes32) {here : Address} (run : List (RoleStep here))
    (env : Env here) (grantee : Address) (role : Role) :
    hasRole env grantee role (runAll (roleStep sha256) .empty run) = true ↔
      (∃ pre i post expirationLedger, run = pre ++ i :: post ∧
        Grants sha256 (runAll (roleStep sha256) .empty pre) i grantee role expirationLedger ∧
        env.sequence < expirationLedger ∧
        ∀ mid j rest, post = mid ++ j :: rest →
          ¬ Revokes sha256 (runAll (roleStep sha256) .empty (pre ++ i :: mid)) j grantee role ∧
          ∀ later, ¬ Grants sha256 (runAll (roleStep sha256) .empty (pre ++ i :: mid)) j grantee
            role later) ∧
      ∃ pre i post r expirationLedger, run = pre ++ i :: post ∧
        roleHash sha256 r = roleHash sha256 role ∧
        Grants sha256 (runAll (roleStep sha256) .empty pre) i grantee r expirationLedger ∧
        ∀ mid j rest, post = mid ++ j :: rest →
          ∀ r', roleHash sha256 r' = roleHash sha256 role →
            ¬ Revokes sha256 (runAll (roleStep sha256) .empty (pre ++ i :: mid)) j grantee r' := by
  have hgrants := @writesCell_grant sha256 here grantee role
  have hmarks := @writesCell_mark sha256 here grantee (roleHash sha256 role)
  have hkeyed := keyed_empty sha256
  rw [hasRole_eq_true]
  constructor
  · rintro ⟨grant, hgrant, hsequence, hmark⟩
    obtain ⟨pre, i, post, hrun, hwrite, hsince⟩ := (hgrants.eq_some_iff hkeyed rfl).mp hgrant
    obtain ⟨hok, data, admin, expirationLedger, hcall, rfl⟩ := grantWrite_eq_some.mp hwrite
    refine ⟨⟨pre, i, post, expirationLedger, hrun, ⟨hok, data, admin, hcall⟩, hsequence,
      fun mid j rest hpost => grantWrite_eq_none.mp (hsince mid j rest hpost)⟩, ?_⟩
    obtain ⟨pre, i, post, _, hrun, hwrite, hsince⟩ :=
      (hmarks.ne_none_iff hkeyed rfl).mp (by simpa using hmark)
    obtain ⟨r, later, hr, hgrants⟩ := markWrite_eq_some.mp hwrite
    exact ⟨pre, i, post, r, later, hrun, hr, hgrants, fun mid j rest hpost =>
      markWrite_ne.mp (hsince mid j rest hpost)⟩
  · rintro ⟨⟨pre, i, post, expirationLedger, hrun, ⟨hok, data, admin, hcall⟩, hsequence, hsince⟩,
      pre', i', post', r, later, hrun', hr, hgranted, hsince'⟩
    have hlookup := (hgrants.eq_some_iff hkeyed rfl).mpr ⟨pre, i, post, hrun,
      grantWrite_eq_some.mpr ⟨hok, data, admin, expirationLedger, hcall, rfl⟩,
      fun mid j rest hpost => grantWrite_eq_none.mpr (hsince mid j rest hpost)⟩
    have hmark := (hmarks.ne_none_iff hkeyed rfl).mpr ⟨pre', i', post', (), hrun',
      markWrite_eq_some.mpr ⟨r, later, hr, hgranted⟩,
      fun mid j rest hpost => markWrite_ne.mpr (hsince' mid j rest hpost)⟩
    exact ⟨_, hlookup, hsequence, by simpa using hmark⟩

/-! ## The audit log -/

/-- The event that a grant is recorded by. -/
def RoleGrant.event (grant : RoleGrant) : RoleAuditEvent :=
  ⟨.roleGranted, grant.role, grant.roleHash, grant.grantedBy, grant.grantee,
    grant.grantedAtLedger⟩

/-- What the events of a log leave in force. -/
structure Replayed where
  grants : Store (Address × Role) RoleAuditEvent
  active : Finset (Address × Bytes32)

def Replayed.record (r : Replayed) (e : RoleAuditEvent) : Replayed :=
  match e.eventName with
  | .roleGranted =>
    ⟨r.grants.insert (e.grantee, e.role) e, insert (e.grantee, e.roleHash) r.active⟩
  | .roleRevoked => ⟨r.grants.erase (e.grantee, e.role), r.active.erase (e.grantee, e.roleHash)⟩

def replay (log : List RoleAuditEvent) : Replayed := log.foldl Replayed.record ⟨∅, ∅⟩

theorem replay_append (log : List RoleAuditEvent) (e : RoleAuditEvent) :
    replay (log ++ [e]) = (replay log).record e := by
  simp [replay]

/-- The log leaves in force what is in force. -/
structure RoleBook.Logged (s : RoleBook) : Prop where
  active_eq : (replay s.auditLog).active = s.activeRoleHash
  grants_eq : ∀ grantee role, (replay s.auditLog).grants.lookup (grantee, role) =
    (s.grants.lookup (grantee, role)).map RoleGrant.event

section Log

variable {sha256 : ByteString → Bytes32} {here : Address} {i : RoleStep here} {s s' : RoleBook}

theorem Change.logged (h : Change sha256 i s s') (hkeyed : s.Keyed sha256) (hs : s.Logged) :
    s'.Logged := by
  cases h with
  | grant =>
    refine ⟨?_, fun g r => ?_⟩
    · rw [replay_append, Replayed.record, hs.active_eq]
    · rw [replay_append, Replayed.record, Store.lookup_insert_ite, Store.lookup_insert_ite]
      split_ifs
      · rfl
      · exact hs.grants_eq g r
  | revoke hcall hauth hgrant =>
    obtain ⟨hgrantee, hrole, hhash⟩ := hkeyed _ _ _ hgrant
    refine ⟨?_, fun g r => ?_⟩
    · rw [replay_append, Replayed.record, hs.active_eq, hgrantee]
    · rw [replay_append, Replayed.record, hgrantee, hrole, Store.lookup_erase_ite,
        Store.lookup_erase_ite]
      split_ifs
      · rfl
      · exact hs.grants_eq g r
  | validators => exact ⟨hs.active_eq, hs.grants_eq⟩

/-- A new event was signed by somebody who might. -/
theorem event_of_commit {e : RoleAuditEvent} (hbefore : e ∉ s.auditLog)
    (hafter : e ∈ (commit (roleStep sha256) s i).auditLog) :
    e.ledger = i.1.sequence ∧ ∃ data, Authorised i.1 data e.actor s := by
  cases hstep : roleStep sha256 i s with
  | error =>
    rw [commit_of_error hstep] at hafter
    exact absurd hafter hbefore
  | ok s' =>
    rw [commit_of_ok hstep] at hafter
    cases roleStep_change hstep with
    | grant hcall hauth =>
      obtain rfl := List.mem_singleton.mp ((List.mem_append.mp hafter).resolve_left hbefore)
      exact ⟨rfl, _, hauth⟩
    | revoke hcall hauth =>
      obtain rfl := List.mem_singleton.mp ((List.mem_append.mp hafter).resolve_left hbefore)
      exact ⟨rfl, _, hauth⟩
    | validators => exact absurd hafter hbefore

end Log

/-- The grants and the marks in force are those that the audit log leaves in force, and every
event of the log was signed by the administrator of that time or by somebody who held the role
for it in the state that the log had then. -/
theorem audit_log_replays (sha256 : ByteString → Bytes32) {here : Address}
    (run : List (RoleStep here)) :
    (runAll (roleStep sha256) .empty run).Logged ∧
    ∀ e ∈ (runAll (roleStep sha256) .empty run).auditLog, ∃ pre i post data,
      run = pre ++ i :: post ∧ e.ledger = i.1.sequence ∧
      Authorised i.1 data e.actor (runAll (roleStep sha256) .empty pre) := by
  constructor
  · refine (runAll_induction (P := fun s : RoleBook => s.Keyed sha256 ∧ s.Logged)
      (fun s i s' hs h => ?_) ⟨keyed_empty sha256, rfl, fun _ _ => rfl⟩ run).2
    have hchange := roleStep_change h
    exact ⟨hchange.keyed hs.1, hchange.logged hs.1 hs.2⟩
  · intro e he
    obtain ⟨pre, i, post, rfl, hnot, hsince⟩ := exists_last_change
      (Q := fun s : RoleBook => e ∈ s.auditLog) (s := .empty) (List.not_mem_nil) he
    have hfirst := hsince [] post rfl
    rw [runAll_append] at hfirst
    obtain ⟨hledger, data, hauth⟩ := event_of_commit hnot hfirst
    exact ⟨pre, i, post, data, rfl, hledger, hauth⟩

end StellarFlow.Admin.Roles
