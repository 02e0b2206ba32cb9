import StellarFlow.Fees.DynamicFee

/-!
# Queued fee changes

The admin queues a change of the fee ceiling or of the band of an asset, one of each kind at a
time, and executes it two days later, unless the admin or a guardian cancelled it before. The
entry point that replaces a band at once is still open, so the parameters change only by the
queue exactly as long as every accepted configuration restates the parameters in force.
-/
namespace StellarFlow.Fees

open Foundation

def adminActionDelaySeconds : ℕ := 172800
/-- The largest fee ceiling, in basis points. -/
def ceilingHardCap : ℕ := 10000

/-! ## State -/

structure FeeCeilingUpdateParams where
  newCeiling : ℕ
  deriving DecidableEq, Repr

structure DynamicFeeConfigParams where
  asset : AssetId
  minFeeBps : ℕ
  maxFeeBps : ℕ
  periodSeconds : ℕ
  deriving DecidableEq, Repr

inductive QueuedActionPayload
  | updateFeeCeiling (params : FeeCeilingUpdateParams)
  | updateDynamicFeeConfig (params : DynamicFeeConfigParams)
  deriving DecidableEq, Repr

structure QueuedAdminAction where
  payload : QueuedActionPayload
  proposer : Address
  queuedAt : ℕ
  executeNotBefore : ℕ
  deriving DecidableEq, Repr

/-- The keys under which actions are queued, one for each kind. -/
inductive QueueKey
  | feeCeiling
  | feeChange
  deriving DecidableEq, Repr

def queueStorageKey : QueuedActionPayload → QueueKey
  | .updateFeeCeiling _ => .feeCeiling
  | .updateDynamicFeeConfig _ => .feeChange

/-- The fees with the ceiling in the contract data and the queue. -/
structure FeeControl where
  book : FeeBook
  maxFeeCeiling : ℕ
  queued : Store QueueKey QueuedAdminAction
  guardian : Option Address

/-- The state after `initialize`. -/
def FeeControl.initialized : FeeControl := ⟨.empty, 10000, ∅, none⟩

/-- The parameters of an asset, those by default while nothing is stored. -/
def FeeControl.feeParameters (c : FeeControl) (asset : AssetId) : DynamicFeeConfigParams :=
  let fee := c.book.dynamicFee asset
  ⟨asset, fee.minFeeBps, fee.maxFeeBps, fee.periodSeconds⟩

/-! ## Entry points -/

def applyQueuedAction (payload : QueuedActionPayload) (c : FeeControl) :
    Except Fault FeeControl :=
  match payload with
  | .updateFeeCeiling params => do
    failIf (ceilingHardCap < params.newCeiling) (Fault.error .feeCeilingExceeded)
    pure { c with maxFeeCeiling := params.newCeiling }
  | .updateDynamicFeeConfig params => do
    failIf (params.minFeeBps < 1 ∨ 100 < params.maxFeeBps ∨ params.maxFeeBps ≤ params.minFeeBps)
      (Fault.error .invalidVarianceConfig)
    failIf (params.periodSeconds < 300) (Fault.error .invalidVarianceConfig)
    let fee := c.book.dynamicFee params.asset
    let fee := ⟨params.minFeeBps, params.maxFeeBps, fee.currentFeeBps, params.periodSeconds⟩
    pure { c with book := { c.book with fees := c.book.fees.insert params.asset fee } }

variable {here : Address} (env : FeeEnv here)

def queueAdminAction (admin : Address) (payload : QueuedActionPayload) (c : FeeControl) :
    Except Fault (QueuedAdminAction × FeeControl) := do
  requireFeeAdmin env admin
  failIf ((c.queued.lookup (queueStorageKey payload)).isSome) (Fault.error .adminChangePending)
  let executeNotBefore ← okOr (checkBits 64 (env.timestamp + adminActionDelaySeconds))
    (Fault.error .overflow)
  let action := ⟨payload, admin, env.timestamp, executeNotBefore⟩
  pure (action, { c with queued := c.queued.insert (queueStorageKey payload) action })

/-- Drop the queued action of a kind, which must exist. -/
def dropQueued (key : QueueKey) (c : FeeControl) : Except Fault FeeControl := do
  failIf ((c.queued.lookup key).isNone) (Fault.error .noAdminChangePending)
  pure { c with queued := c.queued.erase key }

def cancelAction (admin : Address) (payloadType : QueuedActionPayload) (c : FeeControl) :
    Except Fault FeeControl := do
  requireFeeAdmin env admin
  dropQueued (queueStorageKey payloadType) c

def executeAction (admin : Address) (payloadType : QueuedActionPayload) (c : FeeControl) :
    Except Fault FeeControl := do
  requireFeeAdmin env admin
  let action ← okOr (c.queued.lookup (queueStorageKey payloadType))
    (Fault.error .noAdminChangePending)
  failIf (env.timestamp < action.executeNotBefore) (Fault.error .adminTimelockNotSatisfied)
  let c ← applyQueuedAction action.payload c
  pure { c with queued := c.queued.erase (queueStorageKey payloadType) }

def designateEmergencyGuardian (admin guardian : Address) (c : FeeControl) :
    Except Fault FeeControl := do
  requireFeeAdmin env admin
  pure { c with guardian := some guardian }

def emergencyCancelAction (guardian : Address) (payloadType : QueuedActionPayload)
    (c : FeeControl) : Except Fault FeeControl := do
  env.requireAuth guardian
  let designated ← okOr c.guardian (Fault.error .notEmergencyGuardian)
  failIf (designated ≠ guardian) (Fault.error .notEmergencyGuardian)
  dropQueued (queueStorageKey payloadType) c

/-! ## Calls and histories -/

inductive ControlCall
  | fee (call : FeeCall)
  | queueAdminAction (admin : Address) (payload : QueuedActionPayload)
  | cancelAction (admin : Address) (payloadType : QueuedActionPayload)
  | executeAction (admin : Address) (payloadType : QueuedActionPayload)
  | designateEmergencyGuardian (admin guardian : Address)
  | emergencyCancelAction (guardian : Address) (payloadType : QueuedActionPayload)

-- The comparison of two volumes, the current one first, in floating point.
variable (trend : ℕ → ℕ → VolumeTrend)

def ControlCall.exec (call : ControlCall) (c : FeeControl) : Except Fault FeeControl :=
  match call with
  | .fee call => do
    let book ← feeStep trend (env, call) c.book
    pure { c with book }
  | .queueAdminAction admin payload => Prod.snd <$> Fees.queueAdminAction env admin payload c
  | .cancelAction admin payloadType => Fees.cancelAction env admin payloadType c
  | .executeAction admin payloadType => Fees.executeAction env admin payloadType c
  | .designateEmergencyGuardian admin guardian =>
    Fees.designateEmergencyGuardian env admin guardian c
  | .emergencyCancelAction guardian payloadType =>
    Fees.emergencyCancelAction env guardian payloadType c

abbrev ControlStep (here : Address) := FeeEnv here × ControlCall

/-- The state with the accepted calls and their ledger times, the latest first. -/
structure ControlHistory where
  state : FeeControl
  log : List (ℕ × ControlCall)

def ControlHistory.initialized : ControlHistory := ⟨.initialized, []⟩

def controlStep (i : ControlStep here) (h : ControlHistory) : Except Fault ControlHistory := do
  let state ← i.2.exec i.1 trend h.state
  pure ⟨state, (i.1.timestamp, i.2) :: h.log⟩

/-- The call takes the action of a kind out of the queue. -/
def Withdraws (key : QueueKey) : ControlCall → Prop
  | .cancelAction _ payloadType => queueStorageKey payloadType = key
  | .executeAction _ payloadType => queueStorageKey payloadType = key
  | .emergencyCancelAction _ payloadType => queueStorageKey payloadType = key
  | _ => False

/-- The payload was queued at the given time, and nothing of its kind was cancelled or executed
since. -/
def StillQueued (log : List (ℕ × ControlCall)) (payload : QueuedActionPayload) (queuedAt : ℕ) :
    Prop :=
  ∃ newer older proposer, log = newer ++ (queuedAt, .queueAdminAction proposer payload) :: older ∧
    ∀ entry ∈ newer, ¬ Withdraws (queueStorageKey payload) entry.2

/-- The call executes the payload, which has been queued for the whole delay. -/
def ExecutesQueued (h : ControlHistory) (i : ControlStep here) (payload : QueuedActionPayload) :
    Prop :=
  (∃ admin payloadType, i.2 = .executeAction admin payloadType) ∧
    ∃ queuedAt, StillQueued h.log payload queuedAt ∧
      queuedAt + adminActionDelaySeconds ≤ i.1.timestamp

/-- Whatever fee parameters the call changes, it executes exactly the queued change. -/
def ChangesByQueue (h : ControlHistory) (i : ControlStep here) : Prop :=
  ∀ h', controlStep trend i h = .ok h' →
    (h'.state.maxFeeCeiling ≠ h.state.maxFeeCeiling →
      ExecutesQueued h i (.updateFeeCeiling ⟨h'.state.maxFeeCeiling⟩)) ∧
    ∀ asset, h'.state.feeParameters asset ≠ h.state.feeParameters asset →
      ExecutesQueued h i (.updateDynamicFeeConfig (h'.state.feeParameters asset))

/-- An accepted configuration restates the parameters in force. -/
def RestatesParameters (h : ControlHistory) (i : ControlStep here) : Prop :=
  (∃ h', controlStep trend i h = .ok h') →
    match i.2 with
    | .fee (.setDynamicFeeConfig _ asset minFeeBps maxFeeBps periodSeconds) =>
      h.state.feeParameters asset =
        ⟨asset, clampedMin minFeeBps, clampedMax minFeeBps maxFeeBps, periodSeconds⟩
    | _ => True

/-! ## The log and the queue -/

section Queue

variable {trend : ℕ → ℕ → VolumeTrend} {here : Address} {i : ControlStep here}
  {h h' : ControlHistory} {env : FeeEnv here} {c c' : FeeControl} {call : ControlCall}
  {key : QueueKey} {payload : QueuedActionPayload} {action : QueuedAdminAction}
  {log : List (ℕ × ControlCall)} {queuedAt : ℕ}

theorem controlStep_eq_ok : controlStep trend i h = .ok h' ↔
    ∃ state, i.2.exec i.1 trend h.state = .ok state ∧
      h' = ⟨state, (i.1.timestamp, i.2) :: h.log⟩ := by
  simp only [controlStep, bind_eq_ok, pure_eq_ok]
  exact exists_congr fun _ => and_congr_right fun _ => eq_comm

theorem dropQueued_eq_ok (h : dropQueued key c = .ok c') :
    c' = { c with queued := c.queued.erase key } := by
  simp only [dropQueued, bind_eq_ok, pure_eq_ok] at h
  obtain ⟨_, _, rfl⟩ := h
  rfl

theorem StillQueued.cons (hq : StillQueued log payload queuedAt) (now : ℕ)
    (hcall : ¬ Withdraws (queueStorageKey payload) call) :
    StillQueued ((now, call) :: log) payload queuedAt := by
  obtain ⟨newer, older, proposer, rfl, hnewer⟩ := hq
  refine ⟨(now, call) :: newer, older, proposer, rfl, fun entry he => ?_⟩
  rcases List.mem_cons.mp he with rfl | he
  · exact hcall
  · exact hnewer entry he

/-- What the queue holds under a key was queued as logged and is still due. -/
def QueueLogged (h : ControlHistory) : Prop :=
  ∀ key action, h.state.queued.lookup key = some action →
    queueStorageKey action.payload = key ∧
      action.executeNotBefore = action.queuedAt + adminActionDelaySeconds ∧
      StillQueued h.log action.payload action.queuedAt

/-- What an accepted call does to the queue. -/
inductive QueueMove (env : FeeEnv here) (c c' : FeeControl) (call : ControlCall) : Prop
  | queue (proposer : Address) (payload : QueuedActionPayload)
    (is_queue : call = .queueAdminAction proposer payload)
    (queued_eq : c'.queued = c.queued.insert (queueStorageKey payload)
      ⟨payload, proposer, env.timestamp, env.timestamp + adminActionDelaySeconds⟩)
  | withdraw (key : QueueKey) (withdraws : ∀ other, Withdraws other call ↔ key = other)
    (queued_eq : c'.queued = c.queued.erase key)
  | stay (keeps : ∀ key, ¬ Withdraws key call) (queued_eq : c'.queued = c.queued)

theorem exec_queueMove (h : call.exec env trend c = .ok c') : QueueMove env c c' call := by
  cases call with
  | fee call =>
    simp only [ControlCall.exec, bind_eq_ok, pure_eq_ok] at h
    obtain ⟨book, _, rfl⟩ := h
    exact .stay (fun _ h => h) rfl
  | queueAdminAction admin payload =>
    obtain ⟨r, h⟩ := snd_map_eq_ok.mp h
    simp only [queueAdminAction, bind_eq_ok, okOr_eq_ok, checkBits_eq_some, pure_eq_ok,
      Prod.mk.injEq] at h
    obtain ⟨_, _, _, _, _, ⟨_, rfl⟩, _, rfl⟩ := h
    exact .queue admin payload rfl rfl
  | cancelAction admin payloadType =>
    simp only [ControlCall.exec, cancelAction, bind_eq_ok] at h
    obtain ⟨_, _, h⟩ := h
    obtain rfl := dropQueued_eq_ok h
    exact .withdraw (queueStorageKey payloadType) (fun _ => Iff.rfl) rfl
  | executeAction admin payloadType =>
    simp only [ControlCall.exec, executeAction, bind_eq_ok, pure_eq_ok] at h
    obtain ⟨_, _, action, _, _, _, c₁, happly, rfl⟩ := h
    refine .withdraw (queueStorageKey payloadType) (fun _ => Iff.rfl) ?_
    have hqueued : c₁.queued = c.queued := by
      obtain ⟨payload, _, _, _⟩ := action
      cases payload with
      | updateFeeCeiling params =>
        simp only [applyQueuedAction, bind_eq_ok, pure_eq_ok] at happly
        obtain ⟨_, _, rfl⟩ := happly
        rfl
      | updateDynamicFeeConfig params =>
        simp only [applyQueuedAction, bind_eq_ok, pure_eq_ok] at happly
        obtain ⟨_, _, _, _, rfl⟩ := happly
        rfl
    rw [hqueued]
  | designateEmergencyGuardian admin guardian =>
    simp only [ControlCall.exec, designateEmergencyGuardian, bind_eq_ok, pure_eq_ok] at h
    obtain ⟨_, _, rfl⟩ := h
    exact .stay (fun _ h => h) rfl
  | emergencyCancelAction guardian payloadType =>
    simp only [ControlCall.exec, emergencyCancelAction, bind_eq_ok] at h
    obtain ⟨_, _, _, _, _, _, h⟩ := h
    obtain rfl := dropQueued_eq_ok h
    exact .withdraw (queueStorageKey payloadType) (fun _ => Iff.rfl) rfl

theorem controlStep_queueLogged (hq : QueueLogged h) (hstep : controlStep trend i h = .ok h') :
    QueueLogged h' := by
  obtain ⟨state, hexec, rfl⟩ := controlStep_eq_ok.mp hstep
  intro key action hfound
  cases exec_queueMove hexec with
  | queue proposer payload is_queue queued_eq =>
    rw [queued_eq] at hfound
    rcases Store.lookup_insert_eq_some.mp hfound with ⟨rfl, rfl⟩ | ⟨_, hold⟩
    · exact ⟨rfl, rfl, [], h.log, proposer, by simp [is_queue], by simp⟩
    · obtain ⟨hkey, hdelay, hstill⟩ := hq key action hold
      exact ⟨hkey, hdelay, hstill.cons _ (by simp [is_queue, Withdraws])⟩
  | withdraw dropped withdraws queued_eq =>
    rw [queued_eq, Store.lookup_erase_ite] at hfound
    split_ifs at hfound with hne
    obtain ⟨hkey, hdelay, hstill⟩ := hq key action hfound
    refine ⟨hkey, hdelay, hstill.cons _ ?_⟩
    rw [hkey, withdraws key]
    exact fun he => hne he.symm
  | stay keeps queued_eq =>
    rw [queued_eq] at hfound
    obtain ⟨hkey, hdelay, hstill⟩ := hq key action hfound
    exact ⟨hkey, hdelay, hstill.cons _ (keeps _)⟩

/-! ## Changes of the parameters -/

/-- The parameters after the fee state of one asset was replaced. -/
theorem feeParameters_insert {asset : AssetId} {fee : DynamicFeeState} {book : FeeBook}
    (hbook : book.fees = c.book.fees.insert asset fee) (other : AssetId) :
    FeeControl.feeParameters { c with book } other =
      if other = asset then ⟨asset, fee.minFeeBps, fee.maxFeeBps, fee.periodSeconds⟩
      else c.feeParameters other := by
  simp only [FeeControl.feeParameters, FeeBook.dynamicFee, hbook, Store.lookup_insert_ite]
  split_ifs with ho
  · rw [ho]
    rfl
  · rfl

/-- Trades and votes move the current fee only. -/
theorem Rewrites.parameters_eq {asset : AssetId} {fee fee' : DynamicFeeState} {feeCall : FeeCall}
    (hr : Rewrites trend fee feeCall asset fee')
    (hcall : ∀ caller a minFeeBps maxFeeBps periodSeconds,
      feeCall ≠ .setDynamicFeeConfig caller a minFeeBps maxFeeBps periodSeconds) :
    fee'.minFeeBps = fee.minFeeBps ∧ fee'.maxFeeBps = fee.maxFeeBps ∧
      fee'.periodSeconds = fee.periodSeconds := by
  cases hr with
  | configured => exact absurd rfl (hcall _ _ _ _ _)
  | _ => exact ⟨rfl, rfl, rfl⟩

/-- What an accepted call does to the ceiling and to the parameters of the assets. -/
inductive ParameterMove (env : FeeEnv here) (c c' : FeeControl) (call : ControlCall) : Prop
  | stay (ceiling_eq : c'.maxFeeCeiling = c.maxFeeCeiling)
    (parameters_eq : ∀ asset, c'.feeParameters asset = c.feeParameters asset)
    (no_config : ∀ caller asset minFeeBps maxFeeBps periodSeconds,
      call ≠ .fee (.setDynamicFeeConfig caller asset minFeeBps maxFeeBps periodSeconds))
  | configured (caller : Address) (asset : AssetId) (minFeeBps maxFeeBps periodSeconds : ℕ)
    (is_config :
      call = .fee (.setDynamicFeeConfig caller asset minFeeBps maxFeeBps periodSeconds))
    (ceiling_eq : c'.maxFeeCeiling = c.maxFeeCeiling)
    (parameters_eq : ∀ other, c'.feeParameters other =
      if other = asset then
        ⟨asset, clampedMin minFeeBps, clampedMax minFeeBps maxFeeBps, periodSeconds⟩
      else c.feeParameters other)
  | executed (admin : Address) (payloadType : QueuedActionPayload) (action : QueuedAdminAction)
    (is_execute : call = .executeAction admin payloadType)
    (found : c.queued.lookup (queueStorageKey payloadType) = some action)
    (due : action.executeNotBefore ≤ env.timestamp)
    (ceiling_eq : c'.maxFeeCeiling ≠ c.maxFeeCeiling →
      action.payload = .updateFeeCeiling ⟨c'.maxFeeCeiling⟩)
    (parameters_eq : ∀ asset, c'.feeParameters asset ≠ c.feeParameters asset →
      action.payload = .updateDynamicFeeConfig (c'.feeParameters asset))

theorem applyQueuedAction_parameters (happly : applyQueuedAction payload c = .ok c') :
    (c'.maxFeeCeiling ≠ c.maxFeeCeiling → payload = .updateFeeCeiling ⟨c'.maxFeeCeiling⟩) ∧
      ∀ asset, c'.feeParameters asset ≠ c.feeParameters asset →
        payload = .updateDynamicFeeConfig (c'.feeParameters asset) := by
  cases payload with
  | updateFeeCeiling params =>
    simp only [applyQueuedAction, bind_eq_ok, pure_eq_ok] at happly
    obtain ⟨_, _, rfl⟩ := happly
    exact ⟨fun _ => rfl, fun asset hne => absurd rfl hne⟩
  | updateDynamicFeeConfig params =>
    simp only [applyQueuedAction, bind_eq_ok, pure_eq_ok] at happly
    obtain ⟨_, _, _, _, rfl⟩ := happly
    refine ⟨fun hne => absurd rfl hne, fun asset hne => ?_⟩
    rw [feeParameters_insert rfl] at hne ⊢
    split_ifs at hne ⊢ with ha
    · rfl
    · exact absurd rfl hne

theorem exec_fee_parameters {feeCall : FeeCall}
    (h : (ControlCall.fee feeCall).exec env trend c = .ok c') :
    ParameterMove env c c' (.fee feeCall) := by
  simp only [ControlCall.exec, bind_eq_ok, pure_eq_ok] at h
  obtain ⟨book, hstep, rfl⟩ := h
  obtain ⟨asset, fee', hr, hfees⟩ := feeStep_rewrites hstep
  have hins := feeParameters_insert (c := c) hfees
  cases feeCall with
  | setDynamicFeeConfig caller a minFeeBps maxFeeBps periodSeconds =>
    cases hr
    exact .configured caller _ minFeeBps maxFeeBps periodSeconds rfl rfl hins
  | _ =>
    obtain ⟨hmin, hmax, hperiod⟩ := hr.parameters_eq fun _ _ _ _ _ he => by cases he
    refine .stay rfl (fun other => ?_) fun _ _ _ _ _ he => by cases he
    rw [hins]
    split_ifs with ho
    · rw [ho, hmin, hmax, hperiod]
      rfl
    · rfl

theorem exec_parameterMove (h : call.exec env trend c = .ok c') :
    ParameterMove env c c' call := by
  cases call with
  | fee call => exact exec_fee_parameters h
  | queueAdminAction admin payload =>
    obtain ⟨r, h⟩ := snd_map_eq_ok.mp h
    simp only [queueAdminAction, bind_eq_ok, pure_eq_ok, Prod.mk.injEq] at h
    obtain ⟨_, _, _, _, _, _, _, rfl⟩ := h
    exact .stay rfl (fun _ => rfl) fun _ _ _ _ _ he => by cases he
  | cancelAction admin payloadType =>
    simp only [ControlCall.exec, cancelAction, bind_eq_ok] at h
    obtain ⟨_, _, h⟩ := h
    obtain rfl := dropQueued_eq_ok h
    exact .stay rfl (fun _ => rfl) fun _ _ _ _ _ he => by cases he
  | executeAction admin payloadType =>
    simp only [ControlCall.exec, executeAction, bind_eq_ok, okOr_eq_ok, failIf_eq_ok, not_lt,
      pure_eq_ok] at h
    obtain ⟨_, _, action, hfound, _, hdue, c₁, happly, rfl⟩ := h
    obtain ⟨hceiling, hparameters⟩ := applyQueuedAction_parameters happly
    exact .executed admin payloadType action rfl hfound hdue hceiling hparameters
  | designateEmergencyGuardian admin guardian =>
    simp only [ControlCall.exec, designateEmergencyGuardian, bind_eq_ok, pure_eq_ok] at h
    obtain ⟨_, _, rfl⟩ := h
    exact .stay rfl (fun _ => rfl) fun _ _ _ _ _ he => by cases he
  | emergencyCancelAction guardian payloadType =>
    simp only [ControlCall.exec, emergencyCancelAction, bind_eq_ok] at h
    obtain ⟨_, _, _, _, _, _, h⟩ := h
    obtain rfl := dropQueued_eq_ok h
    exact .stay rfl (fun _ => rfl) fun _ _ _ _ _ he => by cases he

/-- An executed action was queued as it is, for the whole delay. -/
theorem QueueLogged.executesQueued {admin : Address} {payloadType : QueuedActionPayload}
    (hq : QueueLogged h) (hcall : i.2 = .executeAction admin payloadType)
    (hfound : h.state.queued.lookup (queueStorageKey payloadType) = some action)
    (hdue : action.executeNotBefore ≤ i.1.timestamp) : ExecutesQueued h i action.payload := by
  obtain ⟨_, hdelay, hstill⟩ := hq _ action hfound
  exact ⟨⟨admin, payloadType, hcall⟩, action.queuedAt, hstill, hdelay ▸ hdue⟩

/-- A call changes the parameters only by the queue exactly when it is no configuration of
other parameters. -/
theorem changesByQueue_iff (hq : QueueLogged h) (i : ControlStep here) :
    ChangesByQueue trend h i ↔ RestatesParameters trend h i := by
  constructor
  · rintro hby ⟨h', hstep⟩
    have hchange := hby h' hstep
    obtain ⟨state, hexec, rfl⟩ := controlStep_eq_ok.mp hstep
    cases exec_parameterMove hexec with
    | stay _ _ no_config =>
      split
      · exact absurd (by assumption) (no_config _ _ _ _ _)
      · trivial
    | configured caller asset minFeeBps maxFeeBps periodSeconds is_config _ parameters_eq =>
      rw [is_config]
      by_contra hne
      have hnew := parameters_eq asset
      rw [if_pos rfl] at hnew
      obtain ⟨⟨admin, payloadType, hcall⟩, _⟩ := hchange.2 asset fun he => hne (he.symm.trans hnew)
      cases is_config.symm.trans hcall
    | executed admin payloadType action is_execute =>
      rw [is_execute]
      trivial
  · intro hrestates h' hstep
    have hcond := hrestates ⟨h', hstep⟩
    obtain ⟨state, hexec, rfl⟩ := controlStep_eq_ok.mp hstep
    cases exec_parameterMove hexec with
    | stay ceiling_eq parameters_eq _ =>
      exact ⟨fun hne => absurd ceiling_eq hne, fun asset hne => absurd (parameters_eq asset) hne⟩
    | configured caller asset minFeeBps maxFeeBps periodSeconds is_config ceiling_eq
        parameters_eq =>
      rw [is_config] at hcond
      refine ⟨fun hne => absurd ceiling_eq hne, fun other hne => absurd ?_ hne⟩
      rw [parameters_eq]
      split_ifs with ho
      · rw [ho]
        exact hcond.symm
      · rfl
    | executed admin payloadType action is_execute found due ceiling_eq parameters_eq =>
      have hexecutes := hq.executesQueued is_execute found due
      exact ⟨fun hne => ceiling_eq hne ▸ hexecutes, fun asset hne => parameters_eq asset hne ▸
        hexecutes⟩

/-- In every run fee parameters change only by queued actions exactly as long as every accepted
configuration restates the parameters in force. -/
theorem changesByQueue_along_iff (trend : ℕ → ℕ → VolumeTrend) (run : List (ControlStep here)) :
    Along (controlStep trend) (ChangesByQueue trend) .initialized run ↔
      Along (controlStep trend) (RestatesParameters trend) .initialized run := by
  have hlogged : QueueLogged .initialized := fun _ _ hfound => by cases hfound
  exact along_congr (I := QueueLogged)
    (fun _ _ hq => commit_induction hq fun _ hstep => controlStep_queueLogged hq hstep)
    (fun _ i hq => changesByQueue_iff hq i) hlogged run

/-- The admin replaces the band of an asset at once. -/
def directConfigRun : List (ControlStep ⟨0⟩) :=
  [(feeAdmin, .fee (.setDynamicFeeConfig ⟨9⟩ 5 1 100 300))]

theorem directConfig_skips_queue :
    (runAll (controlStep fun _ _ => .level) .initialized directConfigRun).state.feeParameters 5 =
      ⟨5, 1, 100, 300⟩ ∧
    ¬ Along (controlStep fun _ _ => .level) (ChangesByQueue fun _ _ => .level) .initialized
      directConfigRun := by
  have hafter : (runAll (controlStep fun _ _ => .level) .initialized
      directConfigRun).state.feeParameters 5 = ⟨5, 1, 100, 300⟩ := by
    decide +kernel
  refine ⟨hafter, ?_⟩
  rintro ⟨hby, _⟩
  cases hstep : controlStep (fun _ _ => .level)
      (feeAdmin, .fee (.setDynamicFeeConfig ⟨9⟩ 5 1 100 300)) .initialized with
  | error e =>
    rw [directConfigRun, runAll_cons, commit_of_error hstep] at hafter
    exact absurd hafter (by decide +kernel)
  | ok h' =>
    rw [directConfigRun, runAll_cons, commit_of_ok hstep, runAll_nil] at hafter
    obtain ⟨⟨_, _, hcall⟩, _⟩ := (hby h' hstep).2 5 (by rw [hafter]; decide +kernel)
    cases hcall

end Queue

end StellarFlow.Fees
