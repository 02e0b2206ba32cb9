import StellarFlow.Bytes
import StellarFlow.Foundation.LastWrite
import StellarFlow.Settlement.RewardSplitter

/-!
# Governance actions of the splitter

An admin proposes an action, advances it through three stages and carries it out. Every stage has
a cooldown, which counts from the proposal and not from the stage before. An action is known by
the time of its proposal, so a second proposal at the same time takes the place of the first.
-/
namespace StellarFlow.RewardSplitter

open Foundation

def stage1Cooldown : ℕ := 3600
def stage2Cooldown : ℕ := 28800
def stage3Cooldown : ℕ := 86400

inductive CooldownActionType
  | updateToken
  | resetParameters
  | emergencyStop
  deriving DecidableEq, Repr

structure CooldownAction where
  actionId : ℕ
  actionType : CooldownActionType
  proposedBy : Address
  currentStage : ℕ
  proposedAt : ℕ
  data : ByteString
  executed : Bool
  cancelled : Bool
  deriving DecidableEq

structure CooldownStage where
  stageNumber : ℕ
  cooldownSeconds : ℕ
  description : String
  deriving DecidableEq, Repr

inductive GatewayError
  | splitter (e : SplitterError)
  | cooldownNotExpired
  | actionNotFound
  | actionAlreadyExecuted
  | actionAlreadyCancelled
  | invalidStage
  deriving DecidableEq, Repr

def GatewayError.ofSplitter : Fail → Abort GatewayError
  | .error e => .error (.splitter e)
  | .divideByZero => .divideByZero
  | .trap => .trap

/-- A call of the splitter. -/
def inSplitter {α : Type} (x : Except Fail α) : Except (Abort GatewayError) α :=
  x.mapError GatewayError.ofSplitter

/-- The splitter with the stages and actions of its gateway. -/
structure Gateway where
  splitter : Splitter
  stages : Store ℕ CooldownStage
  actions : Store ℕ CooldownAction

def Gateway.fresh (tokens : Tokens) : Gateway := ⟨.fresh tokens, ∅, ∅⟩

/-- A call can also read an address from a text. -/
structure GatewayEnv (here : Address) extends Env here where
  fromString : ByteString → Option Address

def initializeDefaultCooldownStages (stages : Store ℕ CooldownStage) : Store ℕ CooldownStage :=
  ((stages.insert 1 ⟨1, stage1Cooldown, "INIT"⟩).insert 2 ⟨2, stage2Cooldown, "REVIEW"⟩).insert 3
    ⟨3, stage3Cooldown, "APPROVE"⟩

def resetParametersInternal (s : Splitter) : Except Fail Splitter := do
  let defaultAdmin ← okOr s.defaultAdmin .trap
  let defaultToken ← okOr s.defaultToken .trap
  pure { s with
    admin := some defaultAdmin, token := some defaultToken, recipients := [], totalShares := 0 }

section Calls

variable {here : Address} (env : GatewayEnv here)

def initializeGateway (admin token : Address) (g : Gateway) :
    Except (Abort GatewayError) Gateway := do
  let splitter ← inSplitter (initializeSplitter admin token g.splitter)
  pure { g with splitter, stages := initializeDefaultCooldownStages g.stages }

/-- A new action, known by the time of its proposal. -/
def proposal (admin : Address) (actionType : CooldownActionType) (data : ByteString) :
    CooldownAction :=
  ⟨env.timestamp, actionType, admin, 1, env.timestamp, data, false, false⟩

def proposeAction (admin : Address) (actionType : CooldownActionType) (data : ByteString)
    (g : Gateway) : Except (Abort GatewayError) (ℕ × Gateway) := do
  inSplitter (requireAdmin env.toEnv admin g.splitter)
  let actionId := env.timestamp
  let action := proposal env admin actionType data
  pure (actionId, { g with actions := g.actions.insert actionId action })

/-- An action that was neither carried out nor called off. -/
def openAction (actionId : ℕ) (g : Gateway) : Except (Abort GatewayError) CooldownAction := do
  let action ← okOr (g.actions.lookup actionId) (.error .actionNotFound)
  failIf (action.executed = true) (.error .actionAlreadyExecuted)
  failIf (action.cancelled = true) (.error .actionAlreadyCancelled)
  pure action

def advanceAction (admin : Address) (actionId : ℕ) (g : Gateway) :
    Except (Abort GatewayError) Gateway := do
  inSplitter (requireAdmin env.toEnv admin g.splitter)
  let action ← openAction actionId g
  failIf (3 < action.currentStage) (.error .invalidStage)
  let stage ← okOr (g.stages.lookup action.currentStage) (.error .invalidStage)
  let stageExpiry ← okOr (checkBits 64 (action.proposedAt + stage.cooldownSeconds)) .trap
  failIf (env.timestamp < stageExpiry) (.error .cooldownNotExpired)
  let currentStage ← okOr (checkBits 32 (action.currentStage + 1)) .trap
  pure { g with actions := g.actions.insert actionId { action with currentStage } }

/-- What an action does to the splitter. An emergency stop does nothing yet. -/
def applyAction (action : CooldownAction) (s : Splitter) : Except (Abort GatewayError) Splitter :=
  match action.actionType with
  | .updateToken => do
    let newToken ← okOr (env.fromString action.data) .trap
    pure { s with token := some newToken }
  | .resetParameters => inSplitter (resetParametersInternal s)
  | .emergencyStop => pure s

def executeAction (admin : Address) (actionId : ℕ) (g : Gateway) :
    Except (Abort GatewayError) Gateway := do
  inSplitter (requireAdmin env.toEnv admin g.splitter)
  let action ← openAction actionId g
  failIf (action.currentStage < 4) (.error .cooldownNotExpired)
  let splitter ← applyAction env action g.splitter
  pure { g with splitter, actions := g.actions.insert actionId { action with executed := true } }

def cancelAction (admin : Address) (actionId : ℕ) (g : Gateway) :
    Except (Abort GatewayError) Gateway := do
  inSplitter (requireAdmin env.toEnv admin g.splitter)
  let action ← openAction actionId g
  pure { g with actions := g.actions.insert actionId { action with cancelled := true } }

def configureCooldownStage (admin : Address) (stageNumber cooldownSeconds : ℕ)
    (description : String) (g : Gateway) : Except (Abort GatewayError) Gateway := do
  inSplitter (requireAdmin env.toEnv admin g.splitter)
  failIf (stageNumber < 1 ∨ 3 < stageNumber) (.error .invalidStage)
  pure { g with
    stages := g.stages.insert stageNumber ⟨stageNumber, cooldownSeconds, description⟩ }

end Calls

inductive GatewayCall
  | splitter (call : SplitterCall)
  | proposeAction (admin : Address) (actionType : CooldownActionType) (data : ByteString)
  | advanceAction (admin : Address) (actionId : ℕ)
  | executeAction (admin : Address) (actionId : ℕ)
  | cancelAction (admin : Address) (actionId : ℕ)
  | configureCooldownStage (admin : Address) (stageNumber cooldownSeconds : ℕ)
      (description : String)

abbrev GatewayStep (here : Address) := GatewayEnv here × GatewayCall

/-- The initialisation also sets the stages up. -/
def gatewayStep {here : Address} (i : GatewayStep here) (g : Gateway) :
    Except (Abort GatewayError) Gateway :=
  match i.2 with
  | .splitter (.initializeSplitter admin token) => initializeGateway admin token g
  | .splitter call => do
    let splitter ← inSplitter (splitterStep (i.1.toEnv, call) g.splitter)
    pure { g with splitter }
  | .proposeAction admin actionType data => Prod.snd <$> proposeAction i.1 admin actionType data g
  | .advanceAction admin actionId => advanceAction i.1 admin actionId g
  | .executeAction admin actionId => executeAction i.1 admin actionId g
  | .cancelAction admin actionId => cancelAction i.1 admin actionId g
  | .configureCooldownStage admin stageNumber cooldownSeconds description =>
    configureCooldownStage i.1 admin stageNumber cooldownSeconds description g

/-! ## How an action comes to a stage -/

section Specs

variable {here : Address} {env : GatewayEnv here} {admin : Address} {actionId : ℕ}
  {g g' : Gateway} {a : CooldownAction}

@[simp] theorem inSplitter_eq_ok {α : Type} {x : Except Fail α} {r : α} :
    inSplitter x = .ok r ↔ x = .ok r := mapError_eq_ok

/-- The present admin signs. -/
def SignsAsAdmin (env : GatewayEnv here) (admin : Address) (g : Gateway) : Prop :=
  env.auth admin = true ∧ g.splitter.admin = some admin

@[simp] theorem requireAdmin_eq_ok {u : Unit} :
    requireAdmin env.toEnv admin g.splitter = .ok u ↔ SignsAsAdmin env admin g := by
  simp only [requireAdmin, bind_eq_ok, hostCall_eq_ok, Env.requireAuth_eq_ok, okOr_eq_ok,
    failIf_eq_ok, exists_const, not_not, exists_eq_right, SignsAsAdmin, ne_eq]

/-- The action is on record and was neither carried out nor called off. -/
def IsOpen (actionId : ℕ) (g : Gateway) (a : CooldownAction) : Prop :=
  g.actions.lookup actionId = some a ∧ a.executed = false ∧ a.cancelled = false

@[simp] theorem openAction_eq_ok : openAction actionId g = .ok a ↔ IsOpen actionId g a := by
  simp only [openAction, bind_eq_ok, okOr_eq_ok, failIf_eq_ok, pure_eq_ok, exists_const,
    Bool.not_eq_true]
  constructor
  · rintro ⟨_, hlookup, hexecuted, hcancelled, rfl⟩
    exact ⟨hlookup, hexecuted, hcancelled⟩
  · rintro ⟨hlookup, hexecuted, hcancelled⟩
    exact ⟨a, hlookup, hexecuted, hcancelled, rfl⟩

/-- The cooldown of a stage is over for an action with the given time of proposal. -/
def CooledDown (env : GatewayEnv here) (proposedAt stageNumber : ℕ) (g : Gateway) : Prop :=
  ∃ stage, g.stages.lookup stageNumber = some stage ∧
    proposedAt + stage.cooldownSeconds < 2 ^ 64 ∧ proposedAt + stage.cooldownSeconds ≤ env.timestamp

theorem proposeAction_eq_ok {actionType : CooldownActionType} {data : ByteString} :
    Prod.snd <$> proposeAction env admin actionType data g = .ok g' ↔ SignsAsAdmin env admin g ∧
      g' = { g with
        actions := g.actions.insert env.timestamp (proposal env admin actionType data) } := by
  simp only [map_eq_ok, proposeAction, bind_eq_ok, inSplitter_eq_ok, requireAdmin_eq_ok, pure_eq_ok,
    exists_const]
  constructor
  · rintro ⟨_, ⟨hadmin, rfl⟩, rfl⟩
    exact ⟨hadmin, rfl⟩
  · rintro ⟨hadmin, rfl⟩
    exact ⟨_, ⟨hadmin, rfl⟩, rfl⟩

theorem advanceAction_eq_ok : advanceAction env admin actionId g = .ok g' ↔
    SignsAsAdmin env admin g ∧ ∃ a, IsOpen actionId g a ∧ a.currentStage ≤ 3 ∧
      CooledDown env a.proposedAt a.currentStage g ∧
      g' = { g with
        actions := g.actions.insert actionId { a with currentStage := a.currentStage + 1 } } := by
  simp only [advanceAction, bind_eq_ok, inSplitter_eq_ok, requireAdmin_eq_ok, openAction_eq_ok,
    failIf_eq_ok, okOr_eq_ok, checkBits_eq_some, pure_eq_ok, exists_const, not_lt, CooledDown]
  refine and_congr_right fun _ => exists_congr fun a => and_congr_right fun _ => ?_
  constructor
  · rintro ⟨hstage, stage, hcfg, _, ⟨hbits, rfl⟩, hcool, _, ⟨_, rfl⟩, rfl⟩
    exact ⟨hstage, ⟨stage, hcfg, hbits, hcool⟩, rfl⟩
  · rintro ⟨hstage, ⟨stage, hcfg, hbits, hcool⟩, rfl⟩
    exact ⟨hstage, stage, hcfg, _, ⟨hbits, rfl⟩, hcool, _, ⟨by omega, rfl⟩, rfl⟩

theorem executeAction_eq_ok : executeAction env admin actionId g = .ok g' ↔
    SignsAsAdmin env admin g ∧ ∃ a, IsOpen actionId g a ∧ 4 ≤ a.currentStage ∧
      ∃ splitter, applyAction env a g.splitter = .ok splitter ∧
        g' = { g with
          splitter, actions := g.actions.insert actionId { a with executed := true } } := by
  simp only [executeAction, bind_eq_ok, inSplitter_eq_ok, requireAdmin_eq_ok, openAction_eq_ok,
    failIf_eq_ok, pure_eq_ok, exists_const, not_lt, @eq_comm _ g']

theorem cancelAction_eq_ok : cancelAction env admin actionId g = .ok g' ↔
    SignsAsAdmin env admin g ∧ ∃ a, IsOpen actionId g a ∧
      g' = { g with actions := g.actions.insert actionId { a with cancelled := true } } := by
  simp only [cancelAction, bind_eq_ok, inSplitter_eq_ok, requireAdmin_eq_ok, openAction_eq_ok,
    pure_eq_ok, exists_const, @eq_comm _ g']

end Specs

/-! ## What a call writes down -/

section Steps

variable {here : Address} {i : GatewayStep here} {g g' : Gateway} {actionId : ℕ}

/-- The action that a call is about. -/
def subject (i : GatewayStep here) : Option ℕ :=
  match i.2 with
  | .proposeAction _ _ _ => some i.1.timestamp
  | .advanceAction _ actionId => some actionId
  | .executeAction _ actionId => some actionId
  | .cancelAction _ actionId => some actionId
  | _ => none

/-- What an accepted call about an action writes down for it. -/
inductive Writes (i : GatewayStep here) (g : Gateway) (actionId : ℕ) : CooldownAction → Prop
  | propose {admin : Address} {actionType : CooldownActionType} {data : ByteString}
      (hcall : i.2 = .proposeAction admin actionType data) :
      Writes i g actionId (proposal i.1 admin actionType data)
  | advance {admin : Address} {a : CooldownAction} (hcall : i.2 = .advanceAction admin actionId)
      (hopen : IsOpen actionId g a) (hcool : CooledDown i.1 a.proposedAt a.currentStage g)
      (hstage : a.currentStage ≤ 3) :
      Writes i g actionId { a with currentStage := a.currentStage + 1 }
  | execute {admin : Address} {a : CooldownAction} (hcall : i.2 = .executeAction admin actionId)
      (hopen : IsOpen actionId g a) : Writes i g actionId { a with executed := true }
  | cancel {admin : Address} {a : CooldownAction} (hcall : i.2 = .cancelAction admin actionId)
      (hopen : IsOpen actionId g a) : Writes i g actionId { a with cancelled := true }

/-- An accepted call leaves the actions alone or writes down one of them. -/
theorem gatewayStep_actions (h : gatewayStep i g = .ok g') :
    (subject i = none ∧ g'.actions = g.actions) ∨ ∃ actionId a, subject i = some actionId ∧
      Writes i g actionId a ∧ g'.actions = g.actions.insert actionId a := by
  obtain ⟨env, call⟩ := i
  cases call with
  | splitter call =>
    cases call
    all_goals
      refine .inl ⟨rfl, ?_⟩
      obtain ⟨_, _, h⟩ := bind_eq_ok.mp h
      obtain rfl := pure_eq_ok.mp h
      rfl
  | proposeAction admin actionType data =>
    obtain ⟨_, rfl⟩ := proposeAction_eq_ok.mp h
    exact .inr ⟨_, _, rfl, .propose rfl, rfl⟩
  | advanceAction admin actionId =>
    obtain ⟨_, a, hopen, hstage, hcool, rfl⟩ := advanceAction_eq_ok.mp h
    exact .inr ⟨_, _, rfl, .advance rfl hopen hcool hstage, rfl⟩
  | executeAction admin actionId =>
    obtain ⟨_, a, hopen, _, _, _, rfl⟩ := executeAction_eq_ok.mp h
    exact .inr ⟨_, _, rfl, .execute rfl hopen, rfl⟩
  | cancelAction admin actionId =>
    obtain ⟨_, a, hopen, rfl⟩ := cancelAction_eq_ok.mp h
    exact .inr ⟨_, _, rfl, .cancel rfl hopen, rfl⟩
  | configureCooldownStage admin stageNumber cooldownSeconds description =>
    refine .inl ⟨rfl, ?_⟩
    simp only [gatewayStep, configureCooldownStage, bind_eq_ok, pure_eq_ok] at h
    obtain ⟨_, _, _, _, rfl⟩ := h
    rfl

/-- A splitter with an admin has the defaults that a reset needs. -/
def Configured (s : Splitter) : Prop :=
  s.admin ≠ none → s.defaultAdmin ≠ none ∧ s.defaultToken ≠ none

theorem resetParametersInternal_isOk {s : Splitter} (hs : Configured s) (hadmin : s.admin ≠ none) :
    ∃ s', resetParametersInternal s = .ok s' := by
  obtain ⟨hdefaultAdmin, hdefaultToken⟩ := hs hadmin
  obtain ⟨defaultAdmin, hdefaultAdmin⟩ := Option.ne_none_iff_exists'.mp hdefaultAdmin
  obtain ⟨defaultToken, hdefaultToken⟩ := Option.ne_none_iff_exists'.mp hdefaultToken
  exact ⟨_, by rw [resetParametersInternal, hdefaultAdmin, hdefaultToken]; rfl⟩

theorem resetParametersInternal_configured {s s' : Splitter}
    (h : resetParametersInternal s = .ok s') : Configured s' := by
  simp only [resetParametersInternal, bind_eq_ok, okOr_eq_ok, pure_eq_ok] at h
  obtain ⟨_, hdefaultAdmin, _, hdefaultToken, rfl⟩ := h
  intro _
  exact ⟨by simp [hdefaultAdmin], by simp [hdefaultToken]⟩

theorem splitterStep_configured {i : SplitterStep here} {s s' : Splitter} (hs : Configured s)
    (h : splitterStep i s = .ok s') : Configured s' := by
  obtain ⟨env, call⟩ := i
  cases call with
  | initializeSplitter admin token =>
    simp only [splitterStep, initializeSplitter, bind_eq_ok, pure_eq_ok] at h
    obtain ⟨_, _, rfl⟩ := h
    exact fun _ => ⟨Option.some_ne_none _, Option.some_ne_none _⟩
  | addRecipient admin recipient share =>
    simp only [splitterStep, addRecipient, bind_eq_ok, pure_eq_ok] at h
    obtain ⟨_, _, _, _, _, _, _, _, rfl⟩ := h
    exact hs
  | removeRecipient admin recipient =>
    simp only [splitterStep, removeRecipient, bind_eq_ok] at h
    obtain ⟨_, _, _, _, h⟩ := h
    split_ifs at h <;> obtain rfl := pure_eq_ok.mp h <;> exact hs
  | updateRecipientShare admin recipient newShare =>
    simp only [splitterStep, updateRecipientShare, bind_eq_ok] at h
    obtain ⟨_, _, _, _, h⟩ := h
    cases hold : oldShare recipient s.recipients with
    | none =>
      rw [hold] at h
      obtain rfl := pure_eq_ok.mp h
      exact hs
    | some old =>
      simp only [hold, bind_eq_ok, pure_eq_ok] at h
      obtain ⟨_, _, _, _, _, _, rfl⟩ := h
      exact hs
  | distribute amount =>
    simp only [splitterStep, distribute, bind_eq_ok, pure_eq_ok] at h
    obtain ⟨_, _, _, _, _, _, _, _, _, _, _, _, rfl⟩ := h
    exact hs
  | transferAdmin currentAdmin newAdmin =>
    simp only [splitterStep, transferAdmin, requireAdmin, bind_eq_ok, okOr_eq_ok, pure_eq_ok] at h
    obtain ⟨_, ⟨_, _, _, hadmin, _⟩, rfl⟩ := h
    exact fun _ => hs (by simp [hadmin])
  | updateToken admin newToken =>
    simp only [splitterStep, updateToken, bind_eq_ok, pure_eq_ok] at h
    obtain ⟨_, _, rfl⟩ := h
    exact hs
  | resetParameters admin =>
    obtain ⟨_, _, h⟩ := bind_eq_ok.mp h
    exact resetParametersInternal_configured h

/-- The admin can always reset, and an action is on record under its own number at one of its
stages. -/
structure Sound (g : Gateway) : Prop where
  configured : Configured g.splitter
  actionId_eq : ∀ actionId a, g.actions.lookup actionId = some a → a.actionId = actionId
  stages : ∀ actionId a, g.actions.lookup actionId = some a →
    1 ≤ a.currentStage ∧ a.currentStage ≤ 4

theorem fresh_sound (tokens : Tokens) : Sound (.fresh tokens) := by
  refine ⟨fun h => absurd rfl h, ?_, ?_⟩
  all_goals
    intro actionId a h
    cases h

theorem applyAction_configured {env : GatewayEnv here} {a : CooldownAction} {s s' : Splitter}
    (hs : Configured s) (h : applyAction env a s = .ok s') : Configured s' := by
  unfold applyAction at h
  cases htype : a.actionType with
  | updateToken =>
    simp only [htype, bind_eq_ok, pure_eq_ok] at h
    obtain ⟨_, _, rfl⟩ := h
    exact hs
  | resetParameters =>
    simp only [htype, inSplitter_eq_ok] at h
    exact resetParametersInternal_configured h
  | emergencyStop =>
    simp only [htype, pure_eq_ok] at h
    obtain rfl := h
    exact hs

theorem gatewayStep_configured (hg : Configured g.splitter) (h : gatewayStep i g = .ok g') :
    Configured g'.splitter := by
  obtain ⟨env, call⟩ := i
  cases call with
  | splitter call =>
    have hstep : ∃ splitter, splitterStep (env.toEnv, call) g.splitter = .ok splitter ∧
        splitter = g'.splitter := by
      cases call
      all_goals
        obtain ⟨splitter, hstep, h⟩ := bind_eq_ok.mp h
        obtain rfl := pure_eq_ok.mp h
        exact ⟨splitter, inSplitter_eq_ok.mp hstep, rfl⟩
    obtain ⟨_, hstep, rfl⟩ := hstep
    exact splitterStep_configured hg hstep
  | proposeAction admin actionType data =>
    obtain ⟨_, rfl⟩ := proposeAction_eq_ok.mp h
    exact hg
  | advanceAction admin actionId =>
    obtain ⟨_, _, _, _, _, rfl⟩ := advanceAction_eq_ok.mp h
    exact hg
  | executeAction admin actionId =>
    obtain ⟨_, _, _, _, _, happly, rfl⟩ := executeAction_eq_ok.mp h
    exact applyAction_configured hg happly
  | cancelAction admin actionId =>
    obtain ⟨_, _, _, rfl⟩ := cancelAction_eq_ok.mp h
    exact hg
  | configureCooldownStage admin stageNumber cooldownSeconds description =>
    simp only [gatewayStep, configureCooldownStage, bind_eq_ok, pure_eq_ok] at h
    obtain ⟨_, _, _, _, rfl⟩ := h
    exact hg

theorem Sound.of_isOpen {a : CooldownAction} (hg : Sound g) (h : IsOpen actionId g a) :
    a.actionId = actionId ∧ 1 ≤ a.currentStage ∧ a.currentStage ≤ 4 :=
  ⟨hg.actionId_eq _ _ h.1, hg.stages _ _ h.1⟩

/-- What is written down is an action under its own number, at one of its stages. -/
theorem Writes.sound {a : CooldownAction} (hg : Sound g) (hsubject : subject i = some actionId)
    (h : Writes i g actionId a) :
    a.actionId = actionId ∧ 1 ≤ a.currentStage ∧ a.currentStage ≤ 4 := by
  cases h with
  | propose hcall =>
    rw [subject, hcall] at hsubject
    exact ⟨Option.some.inj hsubject, le_rfl, Nat.le_add_left 1 3⟩
  | advance hcall hopen hcool hstage =>
    exact ⟨(hg.of_isOpen hopen).1, Nat.le_add_left 1 _, Nat.succ_le_succ hstage⟩
  | execute hcall hopen =>
    have hkept := hg.of_isOpen hopen
    exact hkept
  | cancel hcall hopen =>
    have hkept := hg.of_isOpen hopen
    exact hkept

theorem gatewayStep_sound (hg : Sound g) (h : gatewayStep i g = .ok g') : Sound g' := by
  have hconfigured := gatewayStep_configured hg.configured h
  rcases gatewayStep_actions h with ⟨_, hactions⟩ | ⟨actionId, a, hsubject, hwrites, hactions⟩
  · exact ⟨hconfigured, hactions ▸ hg.actionId_eq, hactions ▸ hg.stages⟩
  · have hkept : ∀ id b, g'.actions.lookup id = some b →
        b.actionId = id ∧ 1 ≤ b.currentStage ∧ b.currentStage ≤ 4 := by
      intro id b hb
      rw [hactions, Store.lookup_insert_ite] at hb
      split_ifs at hb with hid
      · obtain rfl := Option.some.inj hb
        exact hid ▸ hwrites.sound hg hsubject
      · exact ⟨hg.actionId_eq id b hb, hg.stages id b hb⟩
    exact ⟨hconfigured, fun id b hb => (hkept id b hb).1, fun id b hb => (hkept id b hb).2⟩

/-! ## The calls that touch an action -/

/-- The call is accepted and about the given action. -/
def Touches (g : Gateway) (i : GatewayStep here) (actionId : ℕ) : Prop :=
  (gatewayStep i g).isOk = true ∧ subject i = some actionId

theorem writesEntry : WritesEntry gatewayStep Gateway.actions (@subject here) Writes :=
  fun _ _ _ h => gatewayStep_actions h

/-- A call leaves a new action exactly if it proposes it. -/
theorem Touches.proposes_iff {a : CooldownAction} (h : Touches g i actionId) (hg : Sound g)
    (hfresh : a.currentStage = 1) (hexecuted : a.executed = false)
    (hcancelled : a.cancelled = false) :
    (commit gatewayStep g i).actions.lookup actionId = some a ↔
      ∃ admin, i.2 = .proposeAction admin a.actionType a.data ∧
        a = proposal i.1 admin a.actionType a.data := by
  obtain ⟨b, hwrites, hlookup⟩ := writesEntry.lookup_commit h
  rw [hlookup, Option.some.injEq]
  constructor
  · rintro rfl
    cases hwrites with
    | @propose admin _ _ hcall => exact ⟨admin, hcall, rfl⟩
    | advance hcall hopen =>
      have hstage := (hg.of_isOpen hopen).2.1
      simp only at hfresh
      omega
    | execute hcall hopen => cases hexecuted
    | cancel hcall hopen => cases hcancelled
  · rintro ⟨admin, hcall, ha⟩
    cases hwrites with
    | @propose admin' _ _ hcall' =>
      obtain ⟨rfl, rfl, rfl⟩ := GatewayCall.proposeAction.inj (hcall.symm.trans hcall')
      exact ha.symm
    | advance hcall' => cases hcall.symm.trans hcall'
    | execute hcall' => cases hcall.symm.trans hcall'
    | cancel hcall' => cases hcall.symm.trans hcall'

/-- A call leaves an action at a later stage exactly if it advances it from the stage before. -/
theorem Touches.advances_iff {a : CooldownAction} (h : Touches g i actionId)
    (hexecuted : a.executed = false) (hcancelled : a.cancelled = false) (k : ℕ) :
    (commit gatewayStep g i).actions.lookup actionId = some { a with currentStage := k + 1 + 1 } ↔
      (∃ admin, i.2 = .advanceAction admin actionId) ∧ CooledDown i.1 a.proposedAt (k + 1) g ∧
        g.actions.lookup actionId = some { a with currentStage := k + 1 } := by
  obtain ⟨b, hwrites, hlookup⟩ := writesEntry.lookup_commit h
  rw [hlookup, Option.some.injEq]
  constructor
  · intro hb
    cases hwrites with
    | propose hcall => cases congrArg CooldownAction.currentStage hb
    | @advance admin c hcall hopen hcool hstage =>
      have hc : c = { a with currentStage := k + 1 } :=
        congrArg (fun b : CooldownAction => { b with currentStage := b.currentStage - 1 }) hb
      rw [hc] at hopen hcool
      exact ⟨⟨admin, hcall⟩, hcool, hopen.1⟩
    | execute hcall hopen => cases (congrArg CooldownAction.executed hb).trans hexecuted
    | cancel hcall hopen => cases (congrArg CooldownAction.cancelled hb).trans hcancelled
  · rintro ⟨⟨admin, hcall⟩, hcool, hstaged⟩
    cases hwrites with
    | propose hcall' => cases hcall.symm.trans hcall'
    | advance hcall' hopen hcool' hstage =>
      obtain rfl := Option.some.inj (hopen.1.symm.trans hstaged)
      rfl
    | execute hcall' hopen => cases hcall.symm.trans hcall'
    | cancel hcall' hopen => cases hcall.symm.trans hcall'

end Steps

/-! ## How an action becomes ready -/

section Runs

variable {here : Address} (tokens : Tokens)

/-- The last call of the run that touches the action is of the given kind. -/
def LastTouch (actionId : ℕ) (run : List (GatewayStep here))
    (P : List (GatewayStep here) → GatewayStep here → Prop) : Prop :=
  LastCall gatewayStep (.fresh tokens) (fun g i => Touches g i actionId) run P

/-- The action was proposed and then advanced `k` times, each time when the cooldown of its stage
was over, and no other call touched it since. -/
def Staged (a : CooldownAction) : ℕ → List (GatewayStep here) → Prop
  | 0, run => LastTouch tokens a.actionId run fun _ i =>
      ∃ admin, i.2 = .proposeAction admin a.actionType a.data ∧
        a = proposal i.1 admin a.actionType a.data
  | k + 1, run => LastTouch tokens a.actionId run fun pre i =>
      (∃ admin, i.2 = .advanceAction admin a.actionId) ∧
        CooledDown i.1 a.proposedAt (k + 1) (runAll gatewayStep (.fresh tokens) pre) ∧
        Staged a k pre

/-- A staged action is as it was proposed. -/
theorem Staged.proposed {a : CooldownAction} {k : ℕ} {run : List (GatewayStep here)}
    (h : Staged tokens a k run) :
    a.currentStage = 1 ∧ a.executed = false ∧ a.cancelled = false := by
  induction k generalizing run with
  | zero =>
    obtain ⟨_, _, _, _, _, ⟨_, _, ha⟩, _⟩ := h
    rw [ha]
    exact ⟨rfl, rfl, rfl⟩
  | succ k ih =>
    obtain ⟨_, _, _, _, _, ⟨_, _, hprefix⟩, _⟩ := h
    exact ih hprefix

theorem sound_runAll (run : List (GatewayStep here)) :
    Sound (runAll gatewayStep (.fresh tokens) run) :=
  runAll_induction (fun _ _ _ hg h => gatewayStep_sound hg h) (fresh_sound tokens) run

/-- The action stands at a stage exactly when it was staged up to there. -/
theorem lookup_eq_some_iff_staged {a : CooldownAction} (hfresh : a.currentStage = 1)
    (hexecuted : a.executed = false) (hcancelled : a.cancelled = false) (k : ℕ)
    (run : List (GatewayStep here)) :
    (runAll gatewayStep (.fresh tokens) run).actions.lookup a.actionId =
      some { a with currentStage := k + 1 } ↔ Staged tokens a k run := by
  induction k generalizing run with
  | zero =>
    have ha : { a with currentStage := 0 + 1 } = a := by rw [Nat.zero_add, ← hfresh]
    rw [writesEntry.lookup_eq_some_iff rfl, ha, Staged]
    exact LastCall.congr fun pre i htouch =>
      Touches.proposes_iff htouch (sound_runAll tokens pre) hfresh hexecuted hcancelled
  | succ k ih =>
    rw [writesEntry.lookup_eq_some_iff rfl, Staged]
    refine LastCall.congr fun pre i htouch => ?_
    rw [Touches.advances_iff htouch hexecuted hcancelled k]
    exact and_congr_right fun _ => and_congr_right fun _ => ih pre

/-- Whether an action can be carried out, by the state. -/
theorem executeAction_ok_iff {env : GatewayEnv here} {admin : Address} {actionId : ℕ} {g : Gateway}
    (hg : Sound g) : (∃ g', executeAction env admin actionId g = .ok g') ↔
      SignsAsAdmin env admin g ∧ ∃ a, IsOpen actionId g a ∧ a.currentStage = 4 ∧
        (a.actionType = .updateToken → (env.fromString a.data).isSome) := by
  simp only [executeAction_eq_ok]
  constructor
  · rintro ⟨_, hadmin, a, hopen, hstage, splitter, happly, rfl⟩
    refine ⟨hadmin, a, hopen, Nat.le_antisymm (hg.of_isOpen hopen).2.2 hstage, fun htype => ?_⟩
    simp only [applyAction, htype, bind_eq_ok, okOr_eq_ok] at happly
    obtain ⟨_, htoken, _⟩ := happly
    simp [htoken]
  · rintro ⟨hadmin, a, hopen, hstage, htoken⟩
    have happly : ∃ splitter, applyAction env a g.splitter = .ok splitter := by
      unfold applyAction
      cases htype : a.actionType with
      | updateToken =>
        obtain ⟨newToken, hnew⟩ := Option.isSome_iff_exists.mp (htoken htype)
        exact ⟨_, by simp only [hnew]; rfl⟩
      | resetParameters =>
        obtain ⟨s', hs'⟩ := resetParametersInternal_isOk hg.configured (by simp [hadmin.2])
        exact ⟨s', inSplitter_eq_ok.mpr hs'⟩
      | emergencyStop => exact ⟨_, rfl⟩
    obtain ⟨splitter, happly⟩ := happly
    exact ⟨_, hadmin, a, hopen, hstage.ge, splitter, happly, rfl⟩

/-- In every run from the deployment an action can be carried out exactly by the present admin,
after three advances that each waited for the cooldown of their stage, with no other call on the
action since its proposal; a new token must be readable. -/
theorem executeAction_ok_iff_staged (env : GatewayEnv here) (admin : Address) (actionId : ℕ)
    (run : List (GatewayStep here)) :
    (∃ g', executeAction env admin actionId (runAll gatewayStep (.fresh tokens) run) = .ok g') ↔
      SignsAsAdmin env admin (runAll gatewayStep (.fresh tokens) run) ∧
        ∃ a, a.actionId = actionId ∧ Staged tokens a 3 run ∧
          (a.actionType = .updateToken → (env.fromString a.data).isSome) := by
  have hsound := sound_runAll tokens run
  rw [executeAction_ok_iff hsound]
  refine and_congr_right fun _ => ?_
  constructor
  · rintro ⟨a, hopen, hstage, htoken⟩
    obtain rfl := (hsound.of_isOpen hopen).1
    have hlast : 3 + 1 = a.currentStage := hstage.symm
    have ha : a = { a with currentStage := 3 + 1 } := by rw [hlast]
    have hstaged : Staged tokens { a with currentStage := 1 } 3 run :=
      (lookup_eq_some_iff_staged tokens (a := { a with currentStage := 1 }) rfl hopen.2.1 hopen.2.2
        3 run).mp (hopen.1.trans (congrArg some ha))
    exact ⟨{ a with currentStage := 1 }, rfl, hstaged, htoken⟩
  · rintro ⟨a, rfl, hstaged, htoken⟩
    obtain ⟨hfresh, hexecuted, hcancelled⟩ := hstaged.proposed
    have hlookup := (lookup_eq_some_iff_staged tokens hfresh hexecuted hcancelled 3 run).mpr hstaged
    exact ⟨_, ⟨hlookup, hexecuted, hcancelled⟩, rfl, htoken⟩

end Runs

/-- The stages hold nothing back: what an action does, its admin can also do by a direct call in
the same state. -/
theorem executeAction_direct {here : Address} {env : GatewayEnv here} {admin : Address}
    {actionId : ℕ} {g g' : Gateway} (h : executeAction env admin actionId g = .ok g') :
    g'.splitter = g.splitter ∨
      ∃ call, gatewayStep (env, .splitter call) g = .ok { g with splitter := g'.splitter } := by
  obtain ⟨hadmin, a, _, _, splitter, happly, rfl⟩ := executeAction_eq_ok.mp h
  have hsigned : requireAdmin env.toEnv admin g.splitter = .ok () := requireAdmin_eq_ok.mpr hadmin
  unfold applyAction at happly
  cases htype : a.actionType with
  | updateToken =>
    simp only [htype, bind_eq_ok, pure_eq_ok] at happly
    obtain ⟨newToken, _, rfl⟩ := happly
    refine .inr ⟨.updateToken admin newToken, ?_⟩
    simp only [gatewayStep, splitterStep, updateToken, bind_eq_ok, inSplitter_eq_ok, pure_eq_ok]
    exact ⟨_, ⟨(), hsigned, rfl⟩, rfl⟩
  | resetParameters =>
    simp only [htype, inSplitter_eq_ok] at happly
    refine .inr ⟨.resetParameters admin, ?_⟩
    simp only [gatewayStep, splitterStep, bind_eq_ok, inSplitter_eq_ok, pure_eq_ok]
    exact ⟨splitter, bind_eq_ok.mpr ⟨(), hsigned, happly⟩, rfl⟩
  | emergencyStop =>
    simp only [htype, pure_eq_ok] at happly
    exact .inl happly.symm

end StellarFlow.RewardSplitter
