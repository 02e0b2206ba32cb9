import StellarFlow.Host

/-!
# Split remittances

A sender locks an amount for several anchors, each of which takes its part out by settling its
leg of the order. After the settlement window the sender takes back whatever the anchors have
left. The amounts released and still locked are kept beside the order. Settling marks every
leg of the anchor but pays the last of them only.
-/
namespace StellarFlow.SplitRemittance

open Foundation

/-- Twelve hours, in seconds. -/
def settleWindowSecs : ℕ := 43200
def bpsDenom : ℕ := 10000

inductive SplitError
  | notInitialized
  | alreadyInitialized
  | unauthorized
  | zeroAmount
  | orderNotFound
  | alreadyResolved
  | tooEarlyToRefund
  | arithmeticOverflow
  | invalidProportions
  | noDestinations
  | legNotFound
  | legAlreadySettled
  | nothingToRefund
  deriving DecidableEq, Repr

abbrev Fail := Abort SplitError

inductive LegStatus
  | pending
  | settled
  | refunded
  deriving DecidableEq, Repr

inductive OrderStatus
  | «open»
  | completed
  | refunded
  deriving DecidableEq, Repr

structure DestinationLeg where
  anchor : Address
  proportionBps : ℕ
  amount : ℤ
  status : LegStatus
  deriving DecidableEq

structure SplitOrder where
  id : ℕ
  sender : Address
  totalAmount : ℤ
  createdAt : ℕ
  deadline : ℕ
  status : OrderStatus
  legs : List DestinationLeg
  deriving DecidableEq

structure SplitEscrow where
  admin : Option Address
  token : Option Address
  initialized : Bool
  nextOrderId : ℕ
  orders : Store ℕ SplitOrder
  partialReleased : Store ℕ ℤ
  remainingLocked : Store ℕ ℤ
  tokens : Tokens

def SplitEscrow.fresh (tokens : Tokens) : SplitEscrow := ⟨none, none, false, 0, ∅, ∅, ∅, tokens⟩

namespace SplitEscrow

variable (s : SplitEscrow)

def requireInitialized : Except Fail Unit := failIf (s.initialized = false) (.error .notInitialized)

def getToken : Except Fail Address := okOr s.token (.error .notInitialized)

def getOrder (id : ℕ) : Except Fail SplitOrder := okOr (s.orders.lookup id) (.error .orderNotFound)

def getPartialReleased (id : ℕ) : ℤ := (s.partialReleased.lookup id).getD 0

def getRemainingLocked (id : ℕ) : ℤ := (s.remainingLocked.lookup id).getD 0

end SplitEscrow

/-- An operation on amounts that is refused out of range. -/
def checked (x : ℤ) : Except Fail ℤ := okOr (i128.check x) (.error .arithmeticOverflow)

@[simp] theorem checked_eq_ok {x y : ℤ} : checked x = .ok y ↔ i128.Fits x ∧ x = y := by
  simp [checked]

def checkedMulDiv (amount : ℤ) (bps : ℕ) : Except Fail ℤ := do
  let numer ← checked (amount * bps)
  pure (numer.tdiv bpsDenom)

/-- The amount of a leg and what is handed out up to it. The last leg takes what is left. -/
def allot (total : ℤ) (bps : ℕ) (last : Bool) (allocated : ℤ) : Except Fail (ℤ × ℤ) :=
  if last then do
    let amount ← checked (total - allocated)
    pure (amount, allocated)
  else do
    let amount ← checkedMulDiv total bps
    let allocated ← checked (allocated + amount)
    pure (amount, allocated)

/-- Legs for the destinations, given the proportions and amounts handed out before. -/
def buildLegsFrom (total : ℤ) : List (Address × ℕ) → ℕ → ℤ →
    Except Fail (ℕ × List DestinationLeg)
  | [], sumBps, _ => pure (sumBps, [])
  | (anchor, bps) :: rest, sumBps, allocated => do
    failIf (bps = 0 ∨ bpsDenom < bps) (.error .invalidProportions)
    let sumBps ← okOr (checkBits 32 (sumBps + bps)) (.error .arithmeticOverflow)
    let (amount, allocated) ← allot total bps rest.isEmpty allocated
    failIf (amount ≤ 0) (.error .zeroAmount)
    let (sumBps, legs) ← buildLegsFrom total rest sumBps allocated
    pure (sumBps, ⟨anchor, bps, amount, .pending⟩ :: legs)

def buildLegs (total : ℤ) (destinations : List (Address × ℕ)) :
    Except Fail (List DestinationLeg) := do
  failIf (destinations.isEmpty = true) (.error .noDestinations)
  let (sumBps, legs) ← buildLegsFrom total destinations 0 0
  failIf (sumBps ≠ bpsDenom) (.error .invalidProportions)
  pure legs

/-- Mark the legs of an anchor and find the amount of the last of them. -/
def settleLegs (anchor : Address) : List DestinationLeg → Option ℤ →
    Except Fail (Option ℤ × List DestinationLeg)
  | [], release => pure (release, [])
  | leg :: rest, release =>
    if leg.anchor = anchor then do
      failIf (leg.status ≠ .pending) (.error .legAlreadySettled)
      let (release, legs) ← settleLegs anchor rest (some leg.amount)
      pure (release, { leg with status := .settled } :: legs)
    else do
      let (release, legs) ← settleLegs anchor rest release
      pure (release, leg :: legs)

def refundLeg (leg : DestinationLeg) : DestinationLeg :=
  if leg.status = .pending then { leg with status := .refunded } else leg

section Calls

variable {here : Address} (env : Env here)

def initializeSplit (admin token : Address) (s : SplitEscrow) : Except Fail SplitEscrow := do
  failIf (s.initialized = true) (.error .alreadyInitialized)
  pure { s with admin := some admin, token := some token, nextOrderId := 0, initialized := true }

def createSplitOrder (sender : Address) (totalAmount : i128.Value)
    (destinations : List (Address × ℕ)) (s : SplitEscrow) : Except Fail (ℕ × SplitEscrow) := do
  s.requireInitialized
  hostCall (env.requireAuth sender)
  failIf (totalAmount.1 ≤ 0) (.error .zeroAmount)
  let legs ← buildLegs totalAmount.1 destinations
  let deadline ←
    okOr (checkBits 64 (env.timestamp + settleWindowSecs)) (.error .arithmeticOverflow)
  let token ← s.getToken
  let tokens ← hostCall (env.transfer token sender here totalAmount.1 s.tokens)
  let id := s.nextOrderId
  let nextOrderId ← okOr (checkBits 64 (id + 1)) (.error .arithmeticOverflow)
  let order : SplitOrder :=
    { id, sender, totalAmount := totalAmount.1, createdAt := env.timestamp, deadline
      status := .open, legs }
  pure (id, { s with
    nextOrderId, tokens
    orders := s.orders.insert id order
    partialReleased := s.partialReleased.insert id 0
    remainingLocked := s.remainingLocked.insert id totalAmount.1 })

/-- Settle the legs of an anchor. The amount is that of the event. -/
def settleLeg (anchor : Address) (orderId : ℕ) (s : SplitEscrow) :
    Except Fail (ℤ × SplitEscrow) := do
  s.requireInitialized
  hostCall (env.requireAuth anchor)
  let order ← s.getOrder orderId
  failIf (order.status ≠ .open) (.error .alreadyResolved)
  let (found, legs) ← settleLegs anchor order.legs none
  let releaseAmount ← okOr found (.error .legNotFound)
  let token ← s.getToken
  let tokens ← hostCall (env.transfer token here anchor releaseAmount s.tokens)
  let released ← checked (s.getPartialReleased orderId + releaseAmount)
  let remaining ← checked (s.getRemainingLocked orderId - releaseAmount)
  let status := if legs.all (·.status = .settled) then .completed else order.status
  pure (releaseAmount, { s with
    tokens
    orders := s.orders.insert orderId { order with legs, status }
    partialReleased := s.partialReleased.insert orderId released
    remainingLocked := s.remainingLocked.insert orderId remaining })

/-- Refund what is still locked. The amount is that of the event. -/
def refundUnsettled (sender : Address) (orderId : ℕ) (s : SplitEscrow) :
    Except Fail (ℤ × SplitEscrow) := do
  s.requireInitialized
  hostCall (env.requireAuth sender)
  let order ← s.getOrder orderId
  failIf (order.sender ≠ sender) (.error .unauthorized)
  failIf (order.status ≠ .open) (.error .alreadyResolved)
  failIf (env.timestamp < order.deadline) (.error .tooEarlyToRefund)
  let remaining := s.getRemainingLocked orderId
  failIf (remaining ≤ 0) (.error .nothingToRefund)
  let token ← s.getToken
  let tokens ← hostCall (env.transfer token here sender remaining s.tokens)
  pure (remaining, { s with
    tokens
    orders :=
      s.orders.insert orderId { order with legs := order.legs.map refundLeg, status := .refunded }
    partialReleased := s.partialReleased.insert orderId (s.getPartialReleased orderId)
    remainingLocked := s.remainingLocked.insert orderId 0 })

end Calls

inductive SplitCall
  | initializeSplit (admin token : Address)
  | createSplitOrder (sender : Address) (totalAmount : i128.Value)
      (destinations : List (Address × ℕ))
  | settleLeg (anchor : Address) (orderId : ℕ)
  | refundUnsettled (sender : Address) (orderId : ℕ)

/-- A payment out of the escrow on account of an order. -/
structure Payment where
  orderId : ℕ
  receiver : Address
  amount : ℤ
  deriving DecidableEq

structure SplitHistory where
  escrow : SplitEscrow
  settlements : List Payment
  refunds : List Payment

def SplitHistory.fresh (tokens : Tokens) : SplitHistory := ⟨.fresh tokens, [], []⟩

/-- A call together with the environment it runs in. -/
abbrev SplitStep (here : Address) := Env here × SplitCall

def splitStep {here : Address} (i : SplitStep here) (h : SplitHistory) :
    Except Fail SplitHistory :=
  match i.2 with
  | .initializeSplit admin token => do
    let escrow ← initializeSplit admin token h.escrow
    pure { h with escrow }
  | .createSplitOrder sender totalAmount destinations => do
    let (_, escrow) ← createSplitOrder i.1 sender totalAmount destinations h.escrow
    pure { h with escrow }
  | .settleLeg anchor orderId => do
    let (amount, escrow) ← settleLeg i.1 anchor orderId h.escrow
    pure { h with escrow, settlements := ⟨orderId, anchor, amount⟩ :: h.settlements }
  | .refundUnsettled sender orderId => do
    let (amount, escrow) ← refundUnsettled i.1 sender orderId h.escrow
    pure { h with escrow, refunds := ⟨orderId, sender, amount⟩ :: h.refunds }

/-! ## What an order owes and has paid -/

section Accounts

variable {M : Type} [AddCommMonoid M]

/-- Sum over the legs with a status of a quantity given by their anchor and amount. -/
def legSum (status : LegStatus) (f : Address → ℤ → M) (legs : List DestinationLeg) : M :=
  ((legs.filter (·.status = status)).map fun leg => f leg.anchor leg.amount).sum

/-- Sum over the payments for an order. -/
def paidSum (payments : List Payment) (id : ℕ) (f : Address → ℤ → M) : M :=
  ((payments.filter (·.orderId = id)).map fun p => f p.receiver p.amount).sum

end Accounts

/-- A single payment of an amount. -/
def one (receiver : Address) (amount : ℤ) : Multiset (Address × ℤ) := {(receiver, amount)}

def amountOnly (_ : Address) (amount : ℤ) : ℤ := amount

/-- The books of an order are right: the three amounts add up, the locked one is that of the
pending legs, each settled leg was paid to its anchor once and the refunded ones to the sender
together, and nothing is pending or locked once the order is resolved. -/
structure Exact (h : SplitHistory) (id : ℕ) (order : SplitOrder) : Prop where
  balanced : h.escrow.getPartialReleased id + h.escrow.getRemainingLocked id +
    paidSum h.refunds id amountOnly = order.totalAmount
  remaining_eq : h.escrow.getRemainingLocked id = legSum .pending amountOnly order.legs
  resolved : order.status ≠ .open → h.escrow.getRemainingLocked id = 0 ∧
    ∀ leg ∈ order.legs, leg.status ≠ .pending
  settled_once : paidSum h.settlements id one = legSum .settled one order.legs
  refunded_once : paidSum h.refunds id one = if order.status = .refunded then
    {(order.sender, legSum .refunded amountOnly order.legs)} else 0

def AllExact (h : SplitHistory) : Prop :=
  ∀ id order, h.escrow.orders.lookup id = some order → Exact h id order

/-- A token that accepts every transfer that its source can cover. -/
def Standard {here : Address} (env : Env here) : Prop :=
  ∀ t token src dst amount, 0 ≤ amount → amount ≤ t token src →
    env.accepts t token src dst amount = true

/-- The sender of an open order gets all pending amounts back after the deadline. -/
def Recoverable (here : Address) (h : SplitHistory) : Prop :=
  ∀ id order, h.escrow.orders.lookup id = some order → order.status = .open →
    ∀ env : Env here, env.auth order.sender = true → order.deadline ≤ env.timestamp →
      Standard env → ∃ token escrow, h.escrow.token = some token ∧
        refundUnsettled env order.sender id h.escrow =
          .ok (legSum .pending amountOnly order.legs, escrow) ∧
        escrow.tokens token order.sender =
          h.escrow.tokens token order.sender + legSum .pending amountOnly order.legs

/-- An accepted settlement is by an anchor with a single leg in the order. -/
def SettlesOneLeg {here : Address} (h : SplitHistory) (i : SplitStep here) : Prop :=
  ∀ anchor id, i.2 = .settleLeg anchor id → (∃ h', splitStep i h = .ok h') →
    ∀ order, h.escrow.orders.lookup id = some order →
      (order.legs.filter (·.anchor = anchor)).length = 1

end StellarFlow.SplitRemittance
