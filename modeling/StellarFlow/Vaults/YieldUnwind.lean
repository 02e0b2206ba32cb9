import StellarFlow.Foundation.LastWrite
import StellarFlow.Host

/-!
# Unwinding positions in external strategies

An admin deposits tokens into registered strategies, one open position each. A position is unwound
after a delay that starts with a request, or at once while an emergency is declared. What the
strategy says that it paid back is booked in the reserves of its base token, and the position is
closed even if that is less than was staked.
-/
namespace StellarFlow.YieldUnwind

open Foundation

inductive UnwindError
  | alreadyInitialized
  | notInitialized
  | notAdmin
  | unknownStrategy
  | strategyAlreadyRegistered
  | zeroDelay
  | zeroAmount
  | noOpenPosition
  | positionAlreadyOpen
  | withdrawalNotRequested
  | delayNotElapsed
  | notEmergency
  | overflow
  deriving DecidableEq, Repr

abbrev Fail := Abort UnwindError

structure Strategy where
  strategy : Address
  baseToken : Address
  withdrawDelaySeconds : ℕ
  deriving DecidableEq, Repr

structure Position where
  strategyId : ℕ
  stakedAmount : ℤ
  openedAt : ℕ
  requestedAt : Option ℕ
  active : Bool
  deriving DecidableEq, Repr

structure UnwindReceipt where
  strategyId : ℕ
  stakedAmount : ℤ
  recoveredAmount : ℤ
  delayBypassed : Bool
  settledAt : ℕ
  deriving DecidableEq, Repr

/-- Instance storage of the contract, and the balances of the tokens. -/
structure Unwinder where
  admin : Option Address
  emergencyActive : Option Bool
  emergencyDeclaredAt : Option ℕ
  strategies : Store ℕ Strategy
  positions : Store ℕ Position
  reserves : Store Address ℤ
  tokens : Tokens

def Unwinder.fresh (tokens : Tokens) : Unwinder := ⟨none, none, none, ∅, ∅, ∅, tokens⟩

/-- A strategy is asked for an amount, to be sent to an address, and says what it released. -/
structure UnwindEnv (here : Address) extends Env here where
  withdraw : Address → Address → ℤ → Tokens → Except Fault (ℤ × Tokens)

section Calls

variable {here : Address} (env : UnwindEnv here)

def requireAdmin (caller : Address) (s : Unwinder) : Except Fail Unit := do
  let admin ← okOr s.admin (.error .notInitialized)
  failIf (caller ≠ admin) (.error .notAdmin)
  hostCall (env.requireAuth caller)

def pullFromStrategy (strategy dst : Address) (amount : ℤ) (tokens : Tokens) :
    Except Fail (ℤ × Tokens) := do
  let (recovered, tokens) ← hostCall (env.withdraw strategy dst amount tokens)
  failIf (recovered < 0) (.error .overflow)
  pure (recovered, tokens)

def settleUnwind (strategyId : ℕ) (strategy : Strategy) (position : Position) (recovered : ℤ)
    (delayBypassed : Bool) (s : Unwinder) : Except Fail (UnwindReceipt × Unwinder) := do
  let current := (s.reserves.lookup strategy.baseToken).getD 0
  let total ← okOr (i128.check (current + recovered)) (.error .overflow)
  pure (⟨strategyId, position.stakedAmount, recovered, delayBypassed, env.timestamp⟩, { s with
    reserves := s.reserves.insert strategy.baseToken total
    positions := s.positions.insert strategyId { position with active := false } })

def initializeUnwinder (admin : Address) (s : Unwinder) : Except Fail Unwinder := do
  failIf (s.admin ≠ none) (.error .alreadyInitialized)
  hostCall (env.requireAuth admin)
  pure { s with admin := some admin, emergencyActive := some false }

def declareEmergency (caller : Address) (s : Unwinder) : Except Fail Unwinder := do
  requireAdmin env caller s
  pure { s with emergencyActive := some true, emergencyDeclaredAt := some env.timestamp }

def resolveEmergency (caller : Address) (s : Unwinder) : Except Fail Unwinder := do
  requireAdmin env caller s
  pure { s with emergencyActive := some false }

def registerStrategy (caller : Address) (strategyId : ℕ) (strategy : Strategy) (s : Unwinder) :
    Except Fail Unwinder := do
  requireAdmin env caller s
  failIf (strategy.withdrawDelaySeconds = 0) (.error .zeroDelay)
  failIf (s.strategies.lookup strategyId ≠ none) (.error .strategyAlreadyRegistered)
  pure { s with strategies := s.strategies.insert strategyId strategy }

def openPosition (caller : Address) (strategyId : ℕ) (amount : i128.Value) (s : Unwinder) :
    Except Fail (Position × Unwinder) := do
  requireAdmin env caller s
  failIf (amount.1 ≤ 0) (.error .zeroAmount)
  let config ← okOr (s.strategies.lookup strategyId) (.error .unknownStrategy)
  failIf ((s.positions.lookup strategyId).any (·.active) = true) (.error .positionAlreadyOpen)
  let tokens ← hostCall (env.transfer config.baseToken caller config.strategy amount.1 s.tokens)
  let position : Position := ⟨strategyId, amount.1, env.timestamp, none, true⟩
  pure (position, { s with positions := s.positions.insert strategyId position, tokens })

/-- The position of a strategy, if it is open. -/
def openedPosition (strategyId : ℕ) (s : Unwinder) : Except Fail Position := do
  let position ← okOr (s.positions.lookup strategyId) (.error .noOpenPosition)
  failIf (position.active = false) (.error .noOpenPosition)
  pure position

def requestUnwind (caller : Address) (strategyId : ℕ) (s : Unwinder) :
    Except Fail (ℕ × Unwinder) := do
  requireAdmin env caller s
  let position ← openedPosition strategyId s
  let now := env.timestamp
  pure (now, { s with
    positions := s.positions.insert strategyId { position with requestedAt := some now } })

def executeUnwind (caller : Address) (strategyId : ℕ) (s : Unwinder) :
    Except Fail (UnwindReceipt × Unwinder) := do
  requireAdmin env caller s
  let config ← okOr (s.strategies.lookup strategyId) (.error .unknownStrategy)
  let position ← openedPosition strategyId s
  let requestedAt ← okOr position.requestedAt (.error .withdrawalNotRequested)
  failIf (env.timestamp - requestedAt < config.withdrawDelaySeconds) (.error .delayNotElapsed)
  let (recovered, tokens) ← pullFromStrategy env config.strategy here position.stakedAmount s.tokens
  settleUnwind env strategyId config position recovered false { s with tokens }

def emergencyUnwind (caller : Address) (strategyId : ℕ) (s : Unwinder) :
    Except Fail (UnwindReceipt × Unwinder) := do
  requireAdmin env caller s
  failIf (s.emergencyActive.getD false = false) (.error .notEmergency)
  let config ← okOr (s.strategies.lookup strategyId) (.error .unknownStrategy)
  let position ← openedPosition strategyId s
  let (recovered, tokens) ← pullFromStrategy env config.strategy here position.stakedAmount s.tokens
  settleUnwind env strategyId config position recovered true { s with tokens }

end Calls

inductive UnwindCall
  | initializeUnwinder (admin : Address)
  | declareEmergency (caller : Address)
  | resolveEmergency (caller : Address)
  | registerStrategy (caller : Address) (strategyId : ℕ) (strategy : Strategy)
  | openPosition (caller : Address) (strategyId : ℕ) (amount : i128.Value)
  | requestUnwind (caller : Address) (strategyId : ℕ)
  | executeUnwind (caller : Address) (strategyId : ℕ)
  | emergencyUnwind (caller : Address) (strategyId : ℕ)

abbrev UnwindStep (here : Address) := UnwindEnv here × UnwindCall

def unwindStep {here : Address} (i : UnwindStep here) (s : Unwinder) : Except Fail Unwinder :=
  match i.2 with
  | .initializeUnwinder admin => initializeUnwinder i.1 admin s
  | .declareEmergency caller => declareEmergency i.1 caller s
  | .resolveEmergency caller => resolveEmergency i.1 caller s
  | .registerStrategy caller strategyId strategy =>
    registerStrategy i.1 caller strategyId strategy s
  | .openPosition caller strategyId amount => do
    let (_, s) ← openPosition i.1 caller strategyId amount s
    pure s
  | .requestUnwind caller strategyId => do
    let (_, s) ← requestUnwind i.1 caller strategyId s
    pure s
  | .executeUnwind caller strategyId => do
    let (_, s) ← executeUnwind i.1 caller strategyId s
    pure s
  | .emergencyUnwind caller strategyId => do
    let (_, s) ← emergencyUnwind i.1 caller strategyId s
    pure s

/-! ## What a call accepts -/

section Specs

variable {here : Address} {env : UnwindEnv here} {caller : Address} {strategyId : ℕ}
  {s s' : Unwinder}

def SignsAsAdmin (env : UnwindEnv here) (caller : Address) (s : Unwinder) : Prop :=
  s.admin = some caller ∧ env.auth caller = true

@[simp] theorem requireAdmin_eq_ok {u : Unit} :
    requireAdmin env caller s = .ok u ↔ SignsAsAdmin env caller s := by
  simp only [requireAdmin, bind_eq_ok, hostCall_eq_ok, Env.requireAuth_eq_ok, okOr_eq_ok,
    failIf_eq_ok, exists_const, not_not, SignsAsAdmin, ne_eq]
  constructor
  · rintro ⟨_, hadmin, rfl, hauth⟩
    exact ⟨hadmin, hauth⟩
  · rintro ⟨hadmin, hauth⟩
    exact ⟨caller, hadmin, rfl, hauth⟩

def IsOpen (strategyId : ℕ) (s : Unwinder) (p : Position) : Prop :=
  s.positions.lookup strategyId = some p ∧ p.active = true

@[simp] theorem openedPosition_eq_ok {p : Position} :
    openedPosition strategyId s = .ok p ↔ IsOpen strategyId s p := by
  simp only [openedPosition, bind_eq_ok, okOr_eq_ok, failIf_eq_ok, pure_eq_ok, exists_const,
    Bool.not_eq_false]
  constructor
  · rintro ⟨_, hlookup, hactive, rfl⟩
    exact ⟨hlookup, hactive⟩
  · rintro ⟨hlookup, hactive⟩
    exact ⟨p, hlookup, hactive, rfl⟩

/-- The strategy pays an amount back that the reserves can take. -/
def Recovers (env : UnwindEnv here) (strategy : Strategy) (staked : ℤ) (s : Unwinder)
    (recovered : ℤ) (tokens : Tokens) : Prop :=
  env.withdraw strategy.strategy here staked s.tokens = .ok (recovered, tokens) ∧
    0 ≤ recovered ∧ i128.Fits ((s.reserves.lookup strategy.baseToken).getD 0 + recovered)

/-- The contract after a position was settled. -/
def Unwinder.settled (s : Unwinder) (strategyId : ℕ) (strategy : Strategy) (p : Position)
    (recovered : ℤ) (tokens : Tokens) : Unwinder :=
  { s with
    reserves := s.reserves.insert strategy.baseToken
      ((s.reserves.lookup strategy.baseToken).getD 0 + recovered)
    positions := s.positions.insert strategyId { p with active := false }
    tokens }

/-- Both ways out pull from the strategy and settle the position. -/
theorem pull_and_settle_eq_ok {strategy : Strategy} {p : Position} {bypassed : Bool}
    {out : UnwindReceipt × Unwinder} :
    (do
      let (recovered, tokens) ← pullFromStrategy env strategy.strategy here p.stakedAmount s.tokens
      settleUnwind env strategyId strategy p recovered bypassed { s with tokens }) = .ok out ↔
      ∃ recovered tokens, Recovers env strategy p.stakedAmount s recovered tokens ∧
        out = (⟨strategyId, p.stakedAmount, recovered, bypassed, env.timestamp⟩,
          s.settled strategyId strategy p recovered tokens) := by
  simp only [pullFromStrategy, settleUnwind, bind_eq_ok, hostCall_eq_ok, failIf_eq_ok, okOr_eq_ok,
    pure_eq_ok, exists_const, not_lt, Prod.exists]
  constructor
  · rintro ⟨recovered, tokens, ⟨_, _, hwithdraw, hnonneg, hpair⟩, total, htotal, rfl⟩
    obtain ⟨rfl, rfl⟩ := Prod.mk.inj hpair
    obtain ⟨hfits, rfl⟩ := IntRange.check_eq_some.mp htotal
    exact ⟨_, _, ⟨hwithdraw, hnonneg, hfits⟩, rfl⟩
  · rintro ⟨recovered, tokens, ⟨hwithdraw, hnonneg, hfits⟩, rfl⟩
    exact ⟨recovered, tokens, ⟨recovered, tokens, hwithdraw, hnonneg, rfl⟩, _,
      IntRange.check_eq_some.mpr ⟨hfits, rfl⟩, rfl⟩

theorem executeUnwind_eq_ok {out : UnwindReceipt × Unwinder} :
    executeUnwind env caller strategyId s = .ok out ↔ SignsAsAdmin env caller s ∧
      ∃ strategy p requestedAt, s.strategies.lookup strategyId = some strategy ∧
        IsOpen strategyId s p ∧ p.requestedAt = some requestedAt ∧
        strategy.withdrawDelaySeconds ≤ env.timestamp - requestedAt ∧
        ∃ recovered tokens, Recovers env strategy p.stakedAmount s recovered tokens ∧
          out = (⟨strategyId, p.stakedAmount, recovered, false, env.timestamp⟩,
            s.settled strategyId strategy p recovered tokens) := by
  constructor
  · intro h
    obtain ⟨_, hadmin, h⟩ := bind_eq_ok.mp h
    obtain ⟨strategy, hstrategy, h⟩ := bind_eq_ok.mp h
    obtain ⟨p, hopen, h⟩ := bind_eq_ok.mp h
    obtain ⟨requestedAt, hrequested, h⟩ := bind_eq_ok.mp h
    obtain ⟨_, hdelay, h⟩ := bind_eq_ok.mp h
    exact ⟨requireAdmin_eq_ok.mp hadmin, strategy, p, requestedAt, okOr_eq_ok.mp hstrategy,
      openedPosition_eq_ok.mp hopen, okOr_eq_ok.mp hrequested,
      Nat.le_of_not_lt (failIf_eq_ok.mp hdelay), pull_and_settle_eq_ok.mp h⟩
  · rintro ⟨hadmin, strategy, p, requestedAt, hstrategy, hopen, hrequested, hdelay, h⟩
    exact bind_eq_ok.mpr ⟨(), requireAdmin_eq_ok.mpr hadmin, bind_eq_ok.mpr
      ⟨strategy, okOr_eq_ok.mpr hstrategy, bind_eq_ok.mpr ⟨p, openedPosition_eq_ok.mpr hopen,
        bind_eq_ok.mpr ⟨requestedAt, okOr_eq_ok.mpr hrequested, bind_eq_ok.mpr
          ⟨(), failIf_eq_ok.mpr (Nat.not_lt_of_le hdelay), pull_and_settle_eq_ok.mpr h⟩⟩⟩⟩⟩

theorem emergencyUnwind_eq_ok {out : UnwindReceipt × Unwinder} :
    emergencyUnwind env caller strategyId s = .ok out ↔ SignsAsAdmin env caller s ∧
      s.emergencyActive = some true ∧ ∃ strategy p,
        s.strategies.lookup strategyId = some strategy ∧ IsOpen strategyId s p ∧
        ∃ recovered tokens, Recovers env strategy p.stakedAmount s recovered tokens ∧
          out = (⟨strategyId, p.stakedAmount, recovered, true, env.timestamp⟩,
            s.settled strategyId strategy p recovered tokens) := by
  have hflag : s.emergencyActive = some true ↔ ¬ s.emergencyActive.getD false = false := by
    cases s.emergencyActive <;> simp
  rw [hflag]
  constructor
  · intro h
    obtain ⟨_, hadmin, h⟩ := bind_eq_ok.mp h
    obtain ⟨_, hemergency, h⟩ := bind_eq_ok.mp h
    obtain ⟨strategy, hstrategy, h⟩ := bind_eq_ok.mp h
    obtain ⟨p, hopen, h⟩ := bind_eq_ok.mp h
    exact ⟨requireAdmin_eq_ok.mp hadmin, failIf_eq_ok.mp hemergency, strategy, p,
      okOr_eq_ok.mp hstrategy, openedPosition_eq_ok.mp hopen, pull_and_settle_eq_ok.mp h⟩
  · rintro ⟨hadmin, hemergency, strategy, p, hstrategy, hopen, h⟩
    exact bind_eq_ok.mpr ⟨(), requireAdmin_eq_ok.mpr hadmin, bind_eq_ok.mpr
      ⟨(), failIf_eq_ok.mpr hemergency, bind_eq_ok.mpr ⟨strategy, okOr_eq_ok.mpr hstrategy,
        bind_eq_ok.mpr ⟨p, openedPosition_eq_ok.mpr hopen, pull_and_settle_eq_ok.mpr h⟩⟩⟩⟩

theorem requestUnwind_eq_ok {out : ℕ × Unwinder} :
    requestUnwind env caller strategyId s = .ok out ↔ SignsAsAdmin env caller s ∧
      ∃ p, IsOpen strategyId s p ∧ out = (env.timestamp, { s with
        positions := s.positions.insert strategyId
          { p with requestedAt := some env.timestamp } }) := by
  simp only [requestUnwind, bind_eq_ok, requireAdmin_eq_ok, openedPosition_eq_ok, pure_eq_ok,
    exists_const, @eq_comm _ _ out]

theorem openPosition_eq_ok {amount : i128.Value} {p : Position}
    (h : openPosition env caller strategyId amount s = .ok (p, s')) :
    (∀ q, ¬ IsOpen strategyId s q) ∧ p = ⟨strategyId, amount.1, env.timestamp, none, true⟩ ∧
      ∃ tokens, s' = { s with positions := s.positions.insert strategyId p, tokens } := by
  simp only [openPosition, bind_eq_ok, failIf_eq_ok, pure_eq_ok, Prod.mk.injEq] at h
  obtain ⟨_, _, _, _, _, _, _, hclosed, tokens, _, rfl, rfl⟩ := h
  refine ⟨fun q hq => ?_, rfl, tokens, rfl⟩
  rw [hq.1, Option.any_some] at hclosed
  exact hclosed hq.2

end Specs

/-! ## What a call writes down -/

section Steps

variable {here : Address} {i : UnwindStep here} {s s' : Unwinder} {strategyId : ℕ}

/-- The strategy whose position a call is about. -/
def subject (i : UnwindStep here) : Option ℕ :=
  match i.2 with
  | .openPosition _ strategyId _ => some strategyId
  | .requestUnwind _ strategyId => some strategyId
  | .executeUnwind _ strategyId => some strategyId
  | .emergencyUnwind _ strategyId => some strategyId
  | _ => none

/-- Whether a call starts or ends the emergency. -/
def flag (i : UnwindStep here) : Option Bool :=
  match i.2 with
  | .initializeUnwinder _ => some false
  | .declareEmergency _ => some true
  | .resolveEmergency _ => some false
  | _ => none

/-- What an accepted call about a position writes down for it: only a request leaves it open with
the clock running. -/
inductive Writes (i : UnwindStep here) (s : Unwinder) (strategyId : ℕ) : Position → Prop
  | opens {caller : Address} {amount : i128.Value} {p : Position}
      (hcall : i.2 = .openPosition caller strategyId amount) (hp : p.requestedAt = none) :
      Writes i s strategyId p
  | requests {caller : Address} {p : Position} (hcall : i.2 = .requestUnwind caller strategyId)
      (hopen : IsOpen strategyId s p) :
      Writes i s strategyId { p with requestedAt := some i.1.timestamp }
  | settles {p : Position} (hcall : ∀ caller, i.2 ≠ .requestUnwind caller strategyId)
      (hp : p.active = false) : Writes i s strategyId p

/-- An accepted call leaves the positions alone or writes down one of them, and sets the flag if it
is one of the three calls that do. -/
theorem unwindStep_writes (h : unwindStep i s = .ok s') :
    s'.emergencyActive = (flag i).or s.emergencyActive ∧
      ((subject i = none ∧ s'.positions = s.positions) ∨ ∃ strategyId p,
        subject i = some strategyId ∧ Writes i s strategyId p ∧
          s'.positions = s.positions.insert strategyId p) := by
  obtain ⟨env, call⟩ := i
  cases call with
  | initializeUnwinder admin =>
    simp only [unwindStep, initializeUnwinder, bind_eq_ok, pure_eq_ok] at h
    obtain ⟨_, _, _, _, rfl⟩ := h
    exact ⟨rfl, .inl ⟨rfl, rfl⟩⟩
  | declareEmergency caller =>
    simp only [unwindStep, declareEmergency, bind_eq_ok, pure_eq_ok] at h
    obtain ⟨_, _, rfl⟩ := h
    exact ⟨rfl, .inl ⟨rfl, rfl⟩⟩
  | resolveEmergency caller =>
    simp only [unwindStep, resolveEmergency, bind_eq_ok, pure_eq_ok] at h
    obtain ⟨_, _, rfl⟩ := h
    exact ⟨rfl, .inl ⟨rfl, rfl⟩⟩
  | registerStrategy caller strategyId strategy =>
    simp only [unwindStep, registerStrategy, bind_eq_ok, pure_eq_ok] at h
    obtain ⟨_, _, _, _, _, _, rfl⟩ := h
    exact ⟨rfl, .inl ⟨rfl, rfl⟩⟩
  | openPosition caller strategyId amount =>
    obtain ⟨_, hopen, h⟩ := bind_eq_ok.mp h
    obtain rfl := pure_eq_ok.mp h
    obtain ⟨_, hp, _, hs⟩ := openPosition_eq_ok hopen
    rw [hs]
    exact ⟨rfl, .inr ⟨strategyId, _, rfl, .opens rfl (by rw [hp]), rfl⟩⟩
  | requestUnwind caller strategyId =>
    obtain ⟨_, hrequest, h⟩ := bind_eq_ok.mp h
    obtain rfl := pure_eq_ok.mp h
    obtain ⟨_, p, hopen, rfl⟩ := requestUnwind_eq_ok.mp hrequest
    exact ⟨rfl, .inr ⟨strategyId, _, rfl, .requests rfl hopen, rfl⟩⟩
  | executeUnwind caller strategyId =>
    obtain ⟨_, hexecute, h⟩ := bind_eq_ok.mp h
    obtain rfl := pure_eq_ok.mp h
    obtain ⟨_, _, _, _, _, _, _, _, _, _, _, rfl⟩ := executeUnwind_eq_ok.mp hexecute
    refine ⟨rfl, .inr ⟨strategyId, _, rfl, .settles (fun _ hcall => ?_) ?_, rfl⟩⟩
    · cases hcall
    · rfl
  | emergencyUnwind caller strategyId =>
    obtain ⟨_, hexecute, h⟩ := bind_eq_ok.mp h
    obtain rfl := pure_eq_ok.mp h
    obtain ⟨_, _, _, _, _, _, _, _, _, rfl⟩ := emergencyUnwind_eq_ok.mp hexecute
    refine ⟨rfl, .inr ⟨strategyId, _, rfl, .settles (fun _ hcall => ?_) ?_, rfl⟩⟩
    · cases hcall
    · rfl

theorem writesEntry : WritesEntry unwindStep Unwinder.positions (@subject here) Writes :=
  fun _ _ _ h => (unwindStep_writes h).2

/-- The call is accepted and about the position of the given strategy. -/
def Touches (s : Unwinder) (i : UnwindStep here) (strategyId : ℕ) : Prop :=
  (unwindStep i s).isOk = true ∧ subject i = some strategyId

/-- Only a request leaves a position open with its clock running. -/
theorem Touches.of_running {q : Position} {requestedAt : ℕ} (h : Touches s i strategyId)
    (hq : (commit unwindStep s i).positions.lookup strategyId = some q) (hactive : q.active = true)
    (hrequested : q.requestedAt = some requestedAt) :
    (∃ caller, i.2 = .requestUnwind caller strategyId) ∧ i.1.timestamp = requestedAt ∧
      ∃ p, IsOpen strategyId s p ∧ p.stakedAmount = q.stakedAmount := by
  obtain ⟨q', hwrites, hlookup⟩ := writesEntry.lookup_commit h
  obtain rfl := Option.some.inj (hlookup.symm.trans hq)
  cases hwrites with
  | opens hcall hp => cases hp.symm.trans hrequested
  | @requests caller p hcall hopen =>
    exact ⟨⟨caller, hcall⟩, Option.some.inj hrequested, p, hopen, rfl⟩
  | settles hcall hp => cases hp.symm.trans hactive

theorem Touches.running {caller : Address} {p : Position} (h : Touches s i strategyId)
    (hcall : i.2 = .requestUnwind caller strategyId) (hopen : IsOpen strategyId s p) :
    (commit unwindStep s i).positions.lookup strategyId =
      some { p with requestedAt := some i.1.timestamp } := by
  obtain ⟨q, hwrites, hlookup⟩ := writesEntry.lookup_commit h
  rw [hlookup]
  cases hwrites with
  | opens hcall' hp => cases hcall.symm.trans hcall'
  | requests hcall' hopen' =>
    obtain rfl := Option.some.inj (hopen.1.symm.trans hopen'.1)
    rfl
  | settles hcall' hp => exact absurd hcall (hcall' caller)

/-- The call is accepted and starts or ends the emergency. -/
def SetsFlag (s : Unwinder) (i : UnwindStep here) : Prop :=
  (unwindStep i s).isOk = true ∧ flag i ≠ none

theorem SetsFlag.emergencyActive (h : SetsFlag s i) :
    (commit unwindStep s i).emergencyActive = some true ↔
      ∃ caller, i.2 = .declareEmergency caller := by
  obtain ⟨hok, hflag⟩ := h
  cases hstep : unwindStep i s with
  | error e =>
    rw [hstep] at hok
    cases hok
  | ok s' =>
    rw [commit_of_ok hstep, (unwindStep_writes hstep).1]
    obtain ⟨env, call⟩ := i
    cases call <;> simp_all [flag]

theorem emergencyActive_commit_of_not_setsFlag (h : ¬ SetsFlag s i) :
    (commit unwindStep s i).emergencyActive = s.emergencyActive := by
  cases hstep : unwindStep i s with
  | error e => rw [commit_of_error hstep]
  | ok s' =>
    have hflag : flag i = none := by
      by_contra hne
      exact h ⟨by rw [hstep]; rfl, hne⟩
    rw [commit_of_ok hstep, (unwindStep_writes hstep).1, hflag, Option.none_or]

end Steps

/-! ## When a position can be unwound -/

section Runs

variable {here : Address} (tokens : Tokens)

/-- The last accepted call of the run about a position is of the given kind. -/
def LastTouch (strategyId : ℕ) (run : List (UnwindStep here))
    (P : List (UnwindStep here) → UnwindStep here → Prop) : Prop :=
  LastCall unwindStep (.fresh tokens) (fun s i => Touches s i strategyId) run P

/-- The last accepted call of the run that started or ended an emergency declared it. -/
def InEmergency (run : List (UnwindStep here)) : Prop :=
  LastCall unwindStep (.fresh tokens) SetsFlag run fun _ i =>
    ∃ caller, i.2 = .declareEmergency caller

/-- A position is on record as the last call that touched it left it. -/
theorem lookup_eq_some_iff_lastTouch {strategyId : ℕ} {p : Position}
    {run : List (UnwindStep here)} :
    (runAll unwindStep (.fresh tokens) run).positions.lookup strategyId = some p ↔
      LastTouch tokens strategyId run fun pre i =>
        (commit unwindStep (runAll unwindStep (.fresh tokens) pre) i).positions.lookup strategyId =
          some p :=
  writesEntry.lookup_eq_some_iff rfl

theorem emergencyActive_iff {run : List (UnwindStep here)} :
    (runAll unwindStep (.fresh tokens) run).emergencyActive = some true ↔
      InEmergency tokens run := by
  rw [cell_eq_some_iff_lastCall (I := fun _ => True) Unwinder.emergencyActive
    (fun _ _ _ => trivial) (fun _ _ _ h => emergencyActive_commit_of_not_setsFlag h) trivial rfl]
  exact LastCall.congr fun _ _ hflag => hflag.emergencyActive

/-- The last accepted call about the position is a request, at least the delay ago, that found it
open with the given stake. -/
def Requested (env : UnwindEnv here) (strategyId : ℕ) (strategy : Strategy) (staked : ℤ)
    (run : List (UnwindStep here)) : Prop :=
  LastTouch tokens strategyId run fun pre i => (∃ caller, i.2 = .requestUnwind caller strategyId) ∧
    strategy.withdrawDelaySeconds ≤ env.timestamp - i.1.timestamp ∧
    ∃ p, IsOpen strategyId (runAll unwindStep (.fresh tokens) pre) p ∧ p.stakedAmount = staked

/-- That is what the contract reads off the position. -/
theorem requested_iff {env : UnwindEnv here} {strategyId : ℕ} {strategy : Strategy} {staked : ℤ}
    {run : List (UnwindStep here)} : Requested tokens env strategyId strategy staked run ↔
      ∃ p requestedAt, IsOpen strategyId (runAll unwindStep (.fresh tokens) run) p ∧
        p.requestedAt = some requestedAt ∧ p.stakedAmount = staked ∧
        strategy.withdrawDelaySeconds ≤ env.timestamp - requestedAt := by
  constructor
  · rintro ⟨pre, i, post, hrun, htouch, ⟨⟨caller, hcall⟩, hdelay, p, hopen, hstaked⟩, hsince⟩
    have hlookup := (lookup_eq_some_iff_lastTouch tokens).mpr
      ⟨pre, i, post, hrun, htouch, htouch.running hcall hopen, hsince⟩
    exact ⟨_, _, ⟨hlookup, hopen.2⟩, rfl, hstaked, hdelay⟩
  · rintro ⟨p, requestedAt, hopen, hrequested, rfl, hdelay⟩
    obtain ⟨pre, i, post, hrun, htouch, hcommit, hsince⟩ :=
      (lookup_eq_some_iff_lastTouch tokens).mp hopen.1
    obtain ⟨hcall, rfl, hfound⟩ := htouch.of_running hcommit hopen.2 hrequested
    exact ⟨pre, i, post, hrun, htouch, ⟨hcall, hdelay, hfound⟩, hsince⟩

/-- The strategy is registered and pays an amount back that the reserves can take. -/
def PaysBack (env : UnwindEnv here) (strategyId : ℕ) (strategy : Strategy) (staked : ℤ)
    (s : Unwinder) : Prop :=
  s.strategies.lookup strategyId = some strategy ∧
    ∃ recovered tokens, Recovers env strategy staked s recovered tokens

/-- In every run a position can be unwound exactly by the admin, once the delay has passed since a
request that nothing on the position followed, if the strategy pays. -/
theorem executeUnwind_ok_iff_requested (env : UnwindEnv here) (caller : Address) (strategyId : ℕ)
    (run : List (UnwindStep here)) :
    (∃ out, executeUnwind env caller strategyId (runAll unwindStep (.fresh tokens) run) =
        .ok out) ↔
      SignsAsAdmin env caller (runAll unwindStep (.fresh tokens) run) ∧ ∃ strategy staked,
        PaysBack env strategyId strategy staked (runAll unwindStep (.fresh tokens) run) ∧
        Requested tokens env strategyId strategy staked run := by
  simp only [executeUnwind_eq_ok, requested_iff]
  constructor
  · rintro ⟨_, hadmin, strategy, p, requestedAt, hstrategy, hopen, hrequested, hdelay, recovered,
      tokens', hrecovers, _⟩
    exact ⟨hadmin, strategy, p.stakedAmount, ⟨hstrategy, recovered, tokens', hrecovers⟩, p,
      requestedAt, hopen, hrequested, rfl, hdelay⟩
  · rintro ⟨hadmin, strategy, _, ⟨hstrategy, recovered, tokens', hrecovers⟩, p, requestedAt, hopen,
      hrequested, rfl, hdelay⟩
    exact ⟨_, hadmin, strategy, p, requestedAt, hstrategy, hopen, hrequested, hdelay, recovered,
      tokens', hrecovers, rfl⟩

/-- While an emergency is declared, and only then, it can be unwound at once, without a request. -/
theorem emergencyUnwind_ok_iff_declared (env : UnwindEnv here) (caller : Address) (strategyId : ℕ)
    (run : List (UnwindStep here)) :
    (∃ out, emergencyUnwind env caller strategyId (runAll unwindStep (.fresh tokens) run) =
        .ok out) ↔
      SignsAsAdmin env caller (runAll unwindStep (.fresh tokens) run) ∧ InEmergency tokens run ∧
        ∃ strategy p, PaysBack env strategyId strategy p.stakedAmount
          (runAll unwindStep (.fresh tokens) run) ∧
          IsOpen strategyId (runAll unwindStep (.fresh tokens) run) p := by
  simp only [emergencyUnwind_eq_ok, emergencyActive_iff]
  constructor
  · rintro ⟨_, hadmin, hemergency, strategy, p, hstrategy, hopen, recovered, tokens', hrecovers, _⟩
    exact ⟨hadmin, hemergency, strategy, p, ⟨hstrategy, recovered, tokens', hrecovers⟩, hopen⟩
  · rintro ⟨hadmin, hemergency, strategy, p, ⟨hstrategy, recovered, tokens', hrecovers⟩, hopen⟩
    exact ⟨_, hadmin, hemergency, strategy, p, hstrategy, hopen, recovered, tokens', hrecovers, rfl⟩

end Runs

end StellarFlow.YieldUnwind
