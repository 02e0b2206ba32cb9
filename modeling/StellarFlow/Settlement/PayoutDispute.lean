import StellarFlow.Bytes
import StellarFlow.Foundation.Obligations
import StellarFlow.Host

/-!
# Remittances that anchors pay out

A sender leaves an amount with the contract, which an anchor pays out elsewhere. Either the anchor
hands in a proof, or a day after the deadline the sender gets the amount back and the anchor loses
collateral. Events are numbered by a function that the sources call but do not have; it may
refuse, and the calls read nothing that it writes.
-/
namespace StellarFlow.Settlement.PayoutDispute

open Foundation

def disputeWindowSecs : ℕ := 86400

/-- The collateral without which an anchor gets no remittance. -/
def bondMin : ℤ := 20000

def bondSlashPercent : ℤ := 20

inductive RemittanceError
  | notInitialized
  | alreadyInitialized
  | unauthorized
  | zeroAmount
  | remittanceNotFound
  | alreadyResolved
  | tooEarlyToDispute
  | arithmeticOverflow
  | insufficientBond
  | treasuryNotSet
  deriving DecidableEq, Repr

inductive RemittanceStatus
  | pending
  | completed
  | refunded
  deriving DecidableEq, Repr

structure Remittance where
  id : ℕ
  sender : Address
  anchor : Address
  amount : ℤ
  deadline : ℕ
  status : RemittanceStatus
  proof : ByteString
  deriving DecidableEq

structure RemittanceEscrow where
  initialized : Bool
  admin : Option Address
  token : Option Address
  treasury : Option Address
  nextRemittanceId : ℕ
  remittances : Store ℕ Remittance
  collateral : Store Address ℤ
  pendingRemittances : Store Address ℕ
  bondLocked : Store Address Bool
  tokens : Tokens

/-- A call and the numbers that its events get. -/
structure RemittanceEnv (here : Address) extends Env here where
  nextEventSequenceId : ℕ → Except (Abort RemittanceError) ℕ

namespace RemittanceEscrow

def fresh (tokens : Tokens) : RemittanceEscrow := ⟨false, none, none, none, 0, ∅, ∅, ∅, ∅, tokens⟩

variable (b : RemittanceEscrow)

def getCollateralBalance (anchor : Address) : ℤ := (b.collateral.lookup anchor).getD 0

def getPendingRemittances (anchor : Address) : ℕ := (b.pendingRemittances.lookup anchor).getD 0

def isBondLocked (anchor : Address) : Bool := (b.bondLocked.lookup anchor).getD false

/-- One settlement task of the anchor is finished. The bond is released with the last one. -/
def decrementPendingAndUnlock (anchor : Address) : RemittanceEscrow :=
  let pending := b.getPendingRemittances anchor
  let next := if 0 < pending then pending - 1 else 0
  { b with
    pendingRemittances := b.pendingRemittances.insert anchor next
    bondLocked :=
      if next = 0 ∧ b.isBondLocked anchor then b.bondLocked.insert anchor false
      else b.bondLocked }

end RemittanceEscrow

section Calls

variable {here : Address} (env : RemittanceEnv here)

def requireInitialized (b : RemittanceEscrow) : Except (Abort RemittanceError) Unit :=
  failIf (¬ b.initialized) (.error .notInitialized)

/-- Nobody signs here. -/
def setUp (admin token : Address) (b : RemittanceEscrow) :
    Except (Abort RemittanceError) RemittanceEscrow := do
  failIf b.initialized (.error .alreadyInitialized)
  let _ ← env.nextEventSequenceId 0
  pure { b with
    admin := some admin, token := some token, nextRemittanceId := 0, initialized := true }

def setTreasury (admin treasury : Address) (b : RemittanceEscrow) :
    Except (Abort RemittanceError) RemittanceEscrow := do
  requireInitialized b
  hostCall (env.requireAuth admin)
  let configuredAdmin ← okOr b.admin (.error .notInitialized)
  failIf (configuredAdmin ≠ admin) (.error .unauthorized)
  pure { b with treasury := some treasury }

def createRemittance (sender anchor : Address) (amount : i128.Value) (deadlineSecs : UInt64)
    (b : RemittanceEscrow) : Except (Abort RemittanceError) (ℕ × RemittanceEscrow) := do
  requireInitialized b
  hostCall (env.requireAuth sender)
  failIf (amount.1 ≤ 0) (.error .zeroAmount)
  failIf (b.getCollateralBalance anchor < bondMin) (.error .insufficientBond)
  let deadline ← okOr (checkBits 64 (env.timestamp + deadlineSecs.toNat))
    (.error .arithmeticOverflow)
  let token ← okOr b.token (.error .notInitialized)
  let tokens ← hostCall (env.transfer token sender here amount b.tokens)
  let id := b.nextRemittanceId
  let nextRemittanceId ← okOr (checkBits 64 (id + 1)) (.error .arithmeticOverflow)
  let nextPending ← okOr (checkBits 32 (b.getPendingRemittances anchor + 1))
    (.error .arithmeticOverflow)
  pure (id, { b with
    tokens
    nextRemittanceId
    remittances := b.remittances.insert id ⟨id, sender, anchor, amount, deadline, .pending, []⟩
    pendingRemittances := b.pendingRemittances.insert anchor nextPending
    bondLocked := if nextPending = 1 then b.bondLocked.insert anchor true else b.bondLocked })

/-- Nothing is paid here: the amount stays with the contract. -/
def submitPayoutProof (anchor : Address) (remittanceId : ℕ) (proof : ByteString)
    (b : RemittanceEscrow) : Except (Abort RemittanceError) RemittanceEscrow := do
  requireInitialized b
  hostCall (env.requireAuth anchor)
  let remittance ← okOr (b.remittances.lookup remittanceId) (.error .remittanceNotFound)
  failIf (remittance.anchor ≠ anchor) (.error .unauthorized)
  failIf (remittance.status ≠ .pending) (.error .alreadyResolved)
  let b := { b with
    remittances := b.remittances.insert remittance.id
      { remittance with status := .completed, proof } }
  pure (b.decrementPendingAndUnlock remittance.anchor)

/-- A bond is deposited in the same way. -/
def depositCollateral (anchor : Address) (amount : i128.Value) (b : RemittanceEscrow) :
    Except (Abort RemittanceError) RemittanceEscrow := do
  requireInitialized b
  hostCall (env.requireAuth anchor)
  failIf (amount.1 ≤ 0) (.error .zeroAmount)
  let token ← okOr b.token (.error .notInitialized)
  let tokens ← hostCall (env.transfer token anchor here amount b.tokens)
  let total ← okOr (i128.check (b.getCollateralBalance anchor + amount))
    (.error .arithmeticOverflow)
  let _ ← env.nextEventSequenceId 0
  pure { b with tokens, collateral := b.collateral.insert anchor total }

/-- A part of the bond goes to the treasury. The product of the operator traps out of range. -/
def slashBond (anchor treasury : Address) (b : RemittanceEscrow) :
    Except (Abort RemittanceError) RemittanceEscrow := do
  let currentBond := b.getCollateralBalance anchor
  if 0 < currentBond then
    let product ← arith (currentBond * bondSlashPercent)
    let slash := product.tdiv 100
    if 0 < slash then
      let token ← okOr b.token (.error .notInitialized)
      let tokens ← hostCall (env.transfer token here treasury slash b.tokens)
      let remaining ← okOr (i128.check (currentBond - slash)) (.error .arithmeticOverflow)
      pure { b with tokens, collateral := b.collateral.insert anchor remaining }
    else pure b
  else pure b

/-- Collateral up to the amount is taken from the balance of the anchor. It goes nowhere. -/
def lockCollateral (anchor : Address) (amount : ℤ) (b : RemittanceEscrow) :
    Except (Abort RemittanceError) RemittanceEscrow := do
  let available := b.getCollateralBalance anchor
  let locked := if available < amount then available else amount
  if 0 < locked then
    let remaining ← okOr (i128.check (available - locked)) (.error .arithmeticOverflow)
    pure { b with collateral := b.collateral.insert anchor remaining }
  else pure b

def openDispute (sender : Address) (remittanceId : ℕ) (b : RemittanceEscrow) :
    Except (Abort RemittanceError) RemittanceEscrow := do
  requireInitialized b
  hostCall (env.requireAuth sender)
  let remittance ← okOr (b.remittances.lookup remittanceId) (.error .remittanceNotFound)
  failIf (remittance.sender ≠ sender) (.error .unauthorized)
  failIf (remittance.status ≠ .pending) (.error .alreadyResolved)
  let disputeOpenAt ← okOr (checkBits 64 (remittance.deadline + disputeWindowSecs))
    (.error .arithmeticOverflow)
  failIf (env.timestamp < disputeOpenAt) (.error .tooEarlyToDispute)
  let treasury ← okOr b.treasury (.error .treasuryNotSet)
  let b ← slashBond env remittance.anchor treasury b
  let b ← lockCollateral remittance.anchor remittance.amount b
  let token ← okOr b.token (.error .notInitialized)
  let tokens ← hostCall (env.transfer token here sender remittance.amount b.tokens)
  let _ ← env.nextEventSequenceId 0
  let _ ← env.nextEventSequenceId 1
  let b := { b with
    tokens
    remittances := b.remittances.insert remittance.id { remittance with status := .refunded } }
  pure (b.decrementPendingAndUnlock remittance.anchor)

end Calls

inductive RemittanceCall
  | setUp (admin token : Address)
  | setTreasury (admin treasury : Address)
  | createRemittance (sender anchor : Address) (amount : i128.Value) (deadlineSecs : UInt64)
  | submitPayoutProof (anchor : Address) (remittanceId : ℕ) (proof : ByteString)
  | depositCollateral (anchor : Address) (amount : i128.Value)
  | openDispute (sender : Address) (remittanceId : ℕ)

def remittanceStep {here : Address} (i : RemittanceEnv here × RemittanceCall)
    (b : RemittanceEscrow) : Except (Abort RemittanceError) RemittanceEscrow :=
  match i.2 with
  | .setUp admin token => setUp i.1 admin token b
  | .setTreasury admin treasury => setTreasury i.1 admin treasury b
  | .createRemittance sender anchor amount deadlineSecs =>
    Prod.snd <$> createRemittance i.1 sender anchor amount deadlineSecs b
  | .submitPayoutProof anchor remittanceId proof =>
    submitPayoutProof i.1 anchor remittanceId proof b
  | .depositCollateral anchor amount => depositCollateral i.1 anchor amount b
  | .openDispute sender remittanceId => openDispute i.1 sender remittanceId b

/-! ## What the contract owes -/

/-- What the sender of a remittance can get back. -/
def Remittance.refundable (r : Remittance) : ℤ := if r.status = .pending then r.amount else 0

namespace RemittanceEscrow

variable (b : RemittanceEscrow)

/-- The amounts that wait for a payout and the collateral, all in the one token. -/
def owes (token c : Address) : ℤ :=
  owed (fun _ => token) Remittance.refundable b.remittances c +
    owed (fun _ => token) id b.collateral c

/-- What the contract holds beyond that. -/
def surplus (here token c : Address) : ℤ := b.tokens c here - b.owes token c

/-- The open remittances of an anchor. -/
def pendingCount (anchor : Address) : ℕ :=
  Store.total (fun _ r => if r.anchor = anchor ∧ r.status = .pending then 1 else 0) b.remittances

/-- The part of a bond that a dispute sends to the treasury. -/
def slashOf (anchor : Address) : ℤ := b.getCollateralBalance anchor * bondSlashPercent / 100

/-- The collateral that a dispute takes besides. -/
def lockedOf (anchor : Address) (amount : ℤ) : ℤ :=
  min (b.getCollateralBalance anchor - b.slashOf anchor) amount

/-- The state after a bond was slashed. -/
def slashed (here token treasury anchor : Address) : RemittanceEscrow :=
  { b with
    tokens := b.tokens.move token here treasury (b.slashOf anchor)
    collateral :=
      if 0 < b.slashOf anchor then
        b.collateral.insert anchor (b.getCollateralBalance anchor - b.slashOf anchor)
      else b.collateral }

/-- The state after collateral was taken. -/
def seized (anchor : Address) (amount : ℤ) : RemittanceEscrow :=
  { b with
    collateral :=
      if 0 < min (b.getCollateralBalance anchor) amount then
        b.collateral.insert anchor
          (b.getCollateralBalance anchor - min (b.getCollateralBalance anchor) amount)
      else b.collateral }

/-- The state with a remittance resolved. -/
def resolved (r : Remittance) : RemittanceEscrow :=
  { b with remittances := b.remittances.insert r.id r }.decrementPendingAndUnlock r.anchor

/-- The state with the amount of a remittance sent back. -/
def refunded (here token : Address) (r : Remittance) : RemittanceEscrow :=
  { b with tokens := b.tokens.move token here r.sender r.amount }.resolved
    { r with status := .refunded }

/-- The state after a dispute. -/
def disputed (here token treasury : Address) (r : Remittance) : RemittanceEscrow :=
  ((b.slashed here token treasury r.anchor).seized r.anchor r.amount).refunded here token r

end RemittanceEscrow

/-- What an accepted call leaves in the contract for good. -/
def stranded (here : Address) (call : RemittanceCall) (b : RemittanceEscrow) : ℤ :=
  match call with
  | .submitPayoutProof _ remittanceId _ =>
    ((b.remittances.lookup remittanceId).map Remittance.amount).getD 0
  | .openDispute _ remittanceId =>
    ((b.remittances.lookup remittanceId).map fun r => b.lockedOf r.anchor r.amount +
      if b.treasury = some here then b.slashOf r.anchor else 0).getD 0
  | _ => 0

/-! ## The parts of a dispute -/

/-- A remittance in order, stored under its number. -/
structure Remittance.Valid (here : Address) (id : ℕ) (r : Remittance) : Prop where
  id_eq : r.id = id
  amount_pos : 0 < r.amount
  sender_ne : r.sender ≠ here

/-- The remittances are in order, and those of an anchor are counted as long as they are open. -/
structure Booked (here : Address) (b : RemittanceEscrow) : Prop where
  remittance : ∀ id r, b.remittances.lookup id = some r → r.Valid here id
  unused : ∀ id, b.nextRemittanceId ≤ id → b.remittances.lookup id = none
  counted : ∀ anchor, b.getPendingRemittances anchor = b.pendingCount anchor
  locked : ∀ anchor, b.isBondLocked anchor = true ↔ 0 < b.pendingCount anchor

/-- No collateral is negative or out of range. -/
def Bonded (b : RemittanceEscrow) : Prop :=
  ∀ anchor v, b.collateral.lookup anchor = some v → 0 ≤ v ∧ i128.Fits v

/-- The books are in order and the contract holds what it owes. -/
structure Sound (here : Address) (start : Tokens) (b : RemittanceEscrow) : Prop where
  unset : b.initialized = false → b = .fresh start
  token_ne : b.initialized = true → b.token ≠ none
  booked : Booked here b
  bonded : Bonded b
  backed : ∀ token, b.token = some token → ∀ c, start c here ≤ b.surplus here token c

section Parts

variable {here token treasury anchor c : Address} {b b' : RemittanceEscrow} {amount : ℤ}
  {env : RemittanceEnv here} {r : Remittance}

theorem Bonded.balance (h : Bonded b) (anchor : Address) :
    0 ≤ b.getCollateralBalance anchor ∧ i128.Fits (b.getCollateralBalance anchor) := by
  rw [RemittanceEscrow.getCollateralBalance]
  cases hfound : b.collateral.lookup anchor with
  | none => exact ⟨le_rfl, i128.lo_nonpos, i128.hi_nonneg⟩
  | some v => exact h anchor v hfound

theorem Bonded.slashOf_bounds (h : Bonded b) (anchor : Address) :
    0 ≤ b.slashOf anchor ∧ b.slashOf anchor ≤ b.getCollateralBalance anchor := by
  have hbalance := (h.balance anchor).1
  rw [RemittanceEscrow.slashOf, bondSlashPercent]
  omega

theorem Bonded.lockedOf_nonneg (h : Bonded b) (anchor : Address) (hamount : 0 < amount) :
    0 ≤ b.lockedOf anchor amount := by
  have hslash := h.slashOf_bounds anchor
  rw [RemittanceEscrow.lockedOf]
  omega

/-- Writing a balance changes the sum by the difference. -/
theorem owed_insert_balance (s : Store Address ℤ) (v : ℤ) :
    owed (fun _ => token) id (s.insert anchor v) c = owed (fun _ => token) id s c +
      if token = c then v - (s.lookup anchor).getD 0 else 0 := by
  cases hfound : s.lookup anchor with
  | none => rw [owed_insert_of_none v hfound, Option.getD_none, sub_zero, id_eq]
  | some w => rw [owed_insert_of_lookup v hfound rfl, Option.getD_some, id_eq, id_eq]

theorem Bonded.insert (h : Bonded b) {v : ℤ} (hnonneg : 0 ≤ v) (hfits : i128.Fits v) :
    Bonded { b with collateral := b.collateral.insert anchor v } := by
  intro a w hfound
  rcases Store.lookup_insert_eq_some.mp hfound with ⟨_, rfl⟩ | ⟨_, hold⟩
  · exact ⟨hnonneg, hfits⟩
  · exact h a w hold

theorem Bonded.slashed (h : Bonded b) : Bonded (b.slashed here token treasury anchor) := by
  obtain ⟨hnonneg, hle⟩ := h.slashOf_bounds anchor
  intro a w hfound
  rw [RemittanceEscrow.slashed] at hfound
  dsimp only at hfound
  split_ifs at hfound
  · exact h.insert (by omega) ((h.balance anchor).2.of_abs_le (by omega) (by omega)) a w hfound
  · exact h a w hfound

theorem Bonded.seized (h : Bonded b) : Bonded (b.seized anchor amount) := by
  have hbalance := (h.balance anchor).1
  intro a w hfound
  rw [RemittanceEscrow.seized] at hfound
  dsimp only at hfound
  split_ifs at hfound
  · exact h.insert (by omega) ((h.balance anchor).2.of_abs_le (by omega) (by omega)) a w hfound
  · exact h a w hfound

theorem Bonded.getCollateralBalance_slashed (h : Bonded b) :
    (b.slashed here token treasury anchor).getCollateralBalance anchor =
      b.getCollateralBalance anchor - b.slashOf anchor := by
  have hnonneg := (h.slashOf_bounds anchor).1
  rw [RemittanceEscrow.getCollateralBalance, RemittanceEscrow.slashed]
  dsimp only
  split_ifs with hpos
  · rw [Finmap.lookup_insert, Option.getD_some]
  · rw [RemittanceEscrow.getCollateralBalance]
    omega

theorem slashBond_eq_ok (h : Bonded b) (htoken : b.token = some token) :
    slashBond env anchor treasury b = .ok b' ↔
      i128.Fits (b.getCollateralBalance anchor * bondSlashPercent) ∧
      (0 < b.slashOf anchor →
        env.accepts b.tokens token here treasury (b.slashOf anchor) = true) ∧
      b.slashed here token treasury anchor = b' := by
  obtain ⟨hbalance, hfits⟩ := h.balance anchor
  obtain ⟨hnonneg, hle⟩ := h.slashOf_bounds anchor
  have hproduct : 0 ≤ b.getCollateralBalance anchor * bondSlashPercent := by
    rw [bondSlashPercent]
    omega
  have hslash : (b.getCollateralBalance anchor * bondSlashPercent).tdiv 100 = b.slashOf anchor :=
    Int.tdiv_eq_ediv_of_nonneg hproduct
  have hremaining : i128.Fits (b.getCollateralBalance anchor - b.slashOf anchor) :=
    hfits.of_abs_le (by omega) (by omega)
  rw [slashBond, RemittanceEscrow.slashed]
  dsimp only
  by_cases hpos : 0 < b.slashOf anchor
  · rw [if_pos (show 0 < b.getCollateralBalance anchor by omega), if_pos hpos]
    simp only [bind_eq_ok, arith_eq_ok, hpos, forall_const]
    constructor
    · rintro ⟨_, ⟨hwide, rfl⟩, hrest⟩
      rw [hslash, if_pos hpos] at hrest
      simp only [bind_eq_ok, okOr_eq_ok, hostCall_eq_ok, Env.transfer_eq_ok,
        IntRange.check_eq_some, pure_eq_ok, htoken, Option.some.injEq] at hrest
      obtain ⟨_, rfl, _, ⟨haccepts, rfl⟩, _, ⟨_, rfl⟩, rfl⟩ := hrest
      refine ⟨hwide, haccepts, ?_⟩
      simp [htoken]
    · rintro ⟨hwide, haccepts, rfl⟩
      refine ⟨_, ⟨hwide, rfl⟩, ?_⟩
      rw [hslash, if_pos hpos]
      simp only [bind_eq_ok, okOr_eq_ok, hostCall_eq_ok, Env.transfer_eq_ok,
        IntRange.check_eq_some, pure_eq_ok, htoken, Option.some.injEq]
      exact ⟨_, rfl, _, ⟨haccepts, rfl⟩, _, ⟨hremaining, rfl⟩, rfl⟩
  · have hzero : b.slashOf anchor = 0 := by omega
    have hsmall : i128.Fits (b.getCollateralBalance anchor * bondSlashPercent) := by
      rw [RemittanceEscrow.slashOf] at hzero
      rw [i128, IntRange.signed_fits_iff]
      omega
    have hunchanged : (if 0 < b.getCollateralBalance anchor then do
        let product ← arith (b.getCollateralBalance anchor * bondSlashPercent)
        if 0 < product.tdiv 100 then do
          let token ← okOr b.token (.error .notInitialized)
          let tokens ← hostCall (env.transfer token here treasury (product.tdiv 100) b.tokens)
          let remaining ← okOr
            (i128.check (b.getCollateralBalance anchor - product.tdiv 100))
            (.error .arithmeticOverflow)
          pure { b with tokens, collateral := b.collateral.insert anchor remaining }
        else pure b
      else pure b : Except (Abort RemittanceError) RemittanceEscrow) = .ok b := by
      split_ifs
      · rw [arith_eq_ok.mpr ⟨hsmall, rfl⟩, ok_bind, hslash, if_neg hpos]
        rfl
      · rfl
    rw [hunchanged, if_neg hpos, hzero, Tokens.move_zero, Except.ok.injEq]
    exact ⟨fun heq => ⟨hsmall, fun h => absurd h (lt_irrefl 0), heq⟩, fun heq => heq.2.2⟩

theorem lockCollateral_eq_ok (h : Bonded b) :
    lockCollateral anchor amount b = .ok b' ↔ b.seized anchor amount = b' := by
  obtain ⟨hbalance, hfits⟩ := h.balance anchor
  have hmin : (if b.getCollateralBalance anchor < amount then b.getCollateralBalance anchor
      else amount) = min (b.getCollateralBalance anchor) amount := by
    split_ifs <;> omega
  rw [lockCollateral, RemittanceEscrow.seized, hmin]
  by_cases hpos : 0 < min (b.getCollateralBalance anchor) amount
  · have hremaining : i128.Fits
        (b.getCollateralBalance anchor - min (b.getCollateralBalance anchor) amount) :=
      hfits.of_abs_le (by omega) (by omega)
    rw [if_pos hpos, if_pos hpos]
    simp only [bind_eq_ok, okOr_eq_ok, IntRange.check_eq_some, pure_eq_ok]
    constructor
    · rintro ⟨_, ⟨_, rfl⟩, hb⟩
      exact hb
    · exact fun hb => ⟨_, ⟨hremaining, rfl⟩, hb⟩
  · rw [if_neg hpos, if_neg hpos, pure_eq_ok]

/-- A slash takes from the surplus nothing, and a treasury that is the contract itself keeps it. -/
theorem Bonded.surplus_slashed (h : Bonded b) :
    (b.slashed here token treasury anchor).surplus here token c = b.surplus here token c +
      if c = token ∧ treasury = here then b.slashOf anchor else 0 := by
  have hnonneg := (h.slashOf_bounds anchor).1
  have hcollateral : owed (fun _ => token) id
      (b.slashed here token treasury anchor).collateral c =
      owed (fun _ => token) id b.collateral c - if token = c then b.slashOf anchor else 0 := by
    rw [RemittanceEscrow.slashed]
    dsimp only
    split_ifs with hpos htoken htoken
    · rw [owed_insert_balance, if_pos htoken, ← RemittanceEscrow.getCollateralBalance]
      omega
    · rw [owed_insert_balance, if_neg htoken, add_zero, sub_zero]
    · omega
    · omega
  have htokens : (b.slashed here token treasury anchor).tokens c here =
      b.tokens c here + (if c = token ∧ treasury = here then b.slashOf anchor else 0) -
        if c = token then b.slashOf anchor else 0 := by
    simp [RemittanceEscrow.slashed, Tokens.move, eq_comm]
  rw [RemittanceEscrow.surplus, RemittanceEscrow.surplus, RemittanceEscrow.owes, hcollateral,
    RemittanceEscrow.owes, htokens]
  have hsame : owed (fun _ => token) Remittance.refundable
      (b.slashed here token treasury anchor).remittances c =
      owed (fun _ => token) Remittance.refundable b.remittances c := rfl
  rw [hsame]
  by_cases hc : c = token
  · simp only [hc, if_true]
    omega
  · simp only [hc, Ne.symm hc, false_and, if_false]
    omega

theorem Bonded.surplus_seized (h : Bonded b) (hamount : 0 < amount) :
    (b.seized anchor amount).surplus here token c = b.surplus here token c +
      if c = token then min (b.getCollateralBalance anchor) amount else 0 := by
  have hbalance := (h.balance anchor).1
  have hcollateral : owed (fun _ => token) id (b.seized anchor amount).collateral c =
      owed (fun _ => token) id b.collateral c -
        if c = token then min (b.getCollateralBalance anchor) amount else 0 := by
    rw [RemittanceEscrow.seized]
    dsimp only
    split_ifs with hpos htoken htoken
    · rw [owed_insert_balance, if_pos htoken.symm, ← RemittanceEscrow.getCollateralBalance]
      omega
    · rw [owed_insert_balance, if_neg (Ne.symm htoken), add_zero, sub_zero]
    · omega
    · omega
  have hsame : (b.seized anchor amount).tokens = b.tokens ∧
      (b.seized anchor amount).remittances = b.remittances := ⟨rfl, rfl⟩
  rw [RemittanceEscrow.surplus, RemittanceEscrow.surplus, RemittanceEscrow.owes, hcollateral,
    RemittanceEscrow.owes, hsame.1, hsame.2]
  omega

/-! ## Resolving a remittance -/

@[simp] theorem getPendingRemittances_resolved (a : Address) :
    (b.resolved r).getPendingRemittances a =
      if a = r.anchor then b.getPendingRemittances a - 1 else b.getPendingRemittances a := by
  have hnext : (if 0 < b.getPendingRemittances r.anchor then b.getPendingRemittances r.anchor - 1
      else 0) = b.getPendingRemittances r.anchor - 1 := by
    split_ifs <;> omega
  change ((b.pendingRemittances.insert r.anchor (if 0 < b.getPendingRemittances r.anchor then
    b.getPendingRemittances r.anchor - 1 else 0)).lookup a).getD 0 = _
  rw [hnext, Store.lookup_insert_ite]
  split_ifs with ha
  · rw [ha, Option.getD_some]
  · rfl

@[simp] theorem isBondLocked_resolved (a : Address) :
    (b.resolved r).isBondLocked a =
      if a = r.anchor ∧ b.getPendingRemittances a ≤ 1 then false else b.isBondLocked a := by
  have hnext : (if 0 < b.getPendingRemittances r.anchor then b.getPendingRemittances r.anchor - 1
      else 0) = 0 ↔ b.getPendingRemittances r.anchor ≤ 1 := by
    split_ifs <;> omega
  change ((if (if 0 < b.getPendingRemittances r.anchor then b.getPendingRemittances r.anchor - 1
    else 0) = 0 ∧ b.isBondLocked r.anchor = true then b.bondLocked.insert r.anchor false
    else b.bondLocked).lookup a).getD false = _
  simp only [hnext]
  by_cases ha : a = r.anchor
  · subst ha
    by_cases hlast : b.getPendingRemittances r.anchor ≤ 1
    · by_cases hlocked : b.isBondLocked r.anchor = true
      · rw [if_pos ⟨hlast, hlocked⟩, Finmap.lookup_insert, if_pos ⟨rfl, hlast⟩, Option.getD_some]
      · rw [if_neg (fun h => hlocked h.2), if_pos ⟨rfl, hlast⟩]
        exact Bool.not_eq_true _ ▸ hlocked
    · rw [if_neg (fun h => hlast h.1), if_neg (fun h => hlast h.2)]
      rfl
  · rw [if_neg (c := a = r.anchor ∧ _) (fun h => ha h.1)]
    split_ifs
    · rw [Finmap.lookup_insert_of_ne _ ha]
      rfl
    · rfl

/-- Resolving takes one open remittance from its anchor. -/
theorem pendingCount_resolved {old : Remittance} (hfound : b.remittances.lookup r.id = some old)
    (hanchor : old.anchor = r.anchor) (hpending : old.status = .pending)
    (hstatus : r.status ≠ .pending) (a : Address) :
    (b.resolved r).pendingCount a + (if a = r.anchor then 1 else 0) = b.pendingCount a := by
  have hx := Store.total_insert
    (fun (_ : ℕ) (s : Remittance) => if s.anchor = a ∧ s.status = .pending then 1 else 0)
    b.remittances r.id r
  rw [Store.part_of_lookup _ hfound, hanchor, hpending] at hx
  simp only [hstatus, and_false, if_false, and_true, add_zero, eq_comm (a := r.anchor)] at hx
  exact hx

theorem Booked.resolved (h : Booked here b) {old : Remittance}
    (hfound : b.remittances.lookup r.id = some old) (hanchor : old.anchor = r.anchor)
    (hpending : old.status = .pending) (hstatus : r.status ≠ .pending)
    (hamount : r.amount = old.amount) (hsender : r.sender = old.sender) :
    Booked here (b.resolved r) := by
  have hold := h.remittance _ _ hfound
  have hcount := pendingCount_resolved hfound hanchor hpending hstatus
  refine ⟨fun id s hs => ?_, fun id hid => ?_, fun a => ?_, fun a => ?_⟩
  · rcases Store.lookup_insert_eq_some.mp hs with ⟨rfl, rfl⟩ | ⟨_, hs⟩
    · exact ⟨rfl, hamount ▸ hold.amount_pos, hsender ▸ hold.sender_ne⟩
    · exact h.remittance id s hs
  · have hne : id ≠ r.id := by
      rintro rfl
      cases (h.unused _ hid).symm.trans hfound
    change (b.remittances.insert r.id r).lookup id = none
    rw [Finmap.lookup_insert_of_ne _ hne]
    exact h.unused id hid
  · have := hcount a
    rw [getPendingRemittances_resolved, h.counted a]
    split_ifs at this ⊢ <;> omega
  · have hlocked := h.locked a
    have := hcount a
    rw [isBondLocked_resolved, h.counted a]
    by_cases hlast : a = r.anchor ∧ b.pendingCount a ≤ 1
    · rw [if_pos hlast]
      rw [if_pos hlast.1] at this
      exact iff_of_false (by simp) (by omega)
    · rw [if_neg hlast, hlocked]
      split_ifs at this with ha
      · have : ¬ b.pendingCount a ≤ 1 := fun hle => hlast ⟨ha, hle⟩
        omega
      · omega

/-- Resolving without a payment frees the amount. -/
theorem surplus_resolved {old : Remittance} (hfound : b.remittances.lookup r.id = some old)
    (hpending : old.status = .pending) (hstatus : r.status ≠ .pending) :
    (b.resolved r).surplus here token c =
      b.surplus here token c + if c = token then old.amount else 0 := by
  have hremittances : owed (fun _ => token) Remittance.refundable (b.resolved r).remittances c =
      owed (fun _ => token) Remittance.refundable b.remittances c +
        if token = c then r.refundable - old.refundable else 0 :=
    owed_insert_of_lookup r hfound rfl c
  have hsame : (b.resolved r).tokens = b.tokens := rfl
  have hcollateral : (b.resolved r).collateral = b.collateral := rfl
  rw [RemittanceEscrow.surplus, RemittanceEscrow.surplus, RemittanceEscrow.owes, hremittances,
    RemittanceEscrow.owes, hsame, hcollateral, Remittance.refundable, if_neg hstatus,
    Remittance.refundable, if_pos hpending]
  by_cases hc : c = token
  · simp only [hc, if_true]
    omega
  · simp only [hc, Ne.symm hc, if_false]
    omega

theorem surplus_refunded (hfound : b.remittances.lookup r.id = some r)
    (hpending : r.status = .pending) (hsender : r.sender ≠ here) :
    (b.refunded here token r).surplus here token c = b.surplus here token c := by
  rw [RemittanceEscrow.refunded, surplus_resolved
    (b := { b with tokens := b.tokens.move token here r.sender r.amount })
    (r := { r with status := .refunded }) hfound hpending (by simp)]
  have howes : ({ b with tokens := b.tokens.move token here r.sender r.amount } :
      RemittanceEscrow).owes token c = b.owes token c := rfl
  rw [RemittanceEscrow.surplus, RemittanceEscrow.surplus, howes]
  dsimp only
  rw [Tokens.move_apply_src _ _ _ hsender.symm]
  omega

end Parts

/-! ## Calls -/

/-- A dispute that the contract can carry out. -/
structure Disputable {here : Address} (env : RemittanceEnv here) (b : RemittanceEscrow)
    (r : Remittance) : Prop where
  fits : r.deadline + disputeWindowSecs < 2 ^ 64
  due : r.deadline + disputeWindowSecs ≤ env.timestamp
  treasury : b.treasury ≠ none
  bond : i128.Fits (b.getCollateralBalance r.anchor * bondSlashPercent)
  numbered : (∃ n, env.nextEventSequenceId 0 = .ok n) ∧ ∃ n, env.nextEventSequenceId 1 = .ok n

/-- What an accepted call does. -/
inductive Change (here : Address) (b : RemittanceEscrow) : RemittanceCall → RemittanceEscrow → Prop
  | setUp (admin token : Address) (hunset : b.initialized = false) :
      Change here b (.setUp admin token) { b with
        admin := some admin, token := some token, nextRemittanceId := 0, initialized := true }
  | treasury (admin treasury : Address) (hset : b.initialized = true) :
      Change here b (.setTreasury admin treasury) { b with treasury := some treasury }
  | create {sender anchor token : Address} {amount : i128.Value} {deadlineSecs : UInt64}
      {deadline : ℕ} (hset : b.initialized = true) (hsender : sender ≠ here) (hpos : 0 < amount.1)
      (htoken : b.token = some token) :
      Change here b (.createRemittance sender anchor amount deadlineSecs) { b with
        tokens := b.tokens.move token sender here amount
        nextRemittanceId := b.nextRemittanceId + 1
        remittances := b.remittances.insert b.nextRemittanceId
          ⟨b.nextRemittanceId, sender, anchor, amount, deadline, .pending, []⟩
        pendingRemittances := b.pendingRemittances.insert anchor
          (b.getPendingRemittances anchor + 1)
        bondLocked := if b.getPendingRemittances anchor + 1 = 1 then b.bondLocked.insert anchor true
          else b.bondLocked }
  | proof {remittanceId : ℕ} {proof : ByteString} {r : Remittance} (hset : b.initialized = true)
      (hfound : b.remittances.lookup remittanceId = some r) (hpending : r.status = .pending) :
      Change here b (.submitPayoutProof r.anchor remittanceId proof)
        (b.resolved { r with status := .completed, proof })
  | deposit {anchor token : Address} {amount : i128.Value} (hset : b.initialized = true)
      (hanchor : anchor ≠ here) (hpos : 0 < amount.1) (htoken : b.token = some token)
      (hfits : i128.Fits (b.getCollateralBalance anchor + amount)) :
      Change here b (.depositCollateral anchor amount) { b with
        tokens := b.tokens.move token anchor here amount
        collateral := b.collateral.insert anchor (b.getCollateralBalance anchor + amount) }
  | dispute {remittanceId : ℕ} {token treasury : Address} {r : Remittance}
      (hset : b.initialized = true) (hfound : b.remittances.lookup remittanceId = some r)
      (hpending : r.status = .pending) (htoken : b.token = some token)
      (htreasury : b.treasury = some treasury) :
      Change here b (.openDispute r.sender remittanceId) (b.disputed here token treasury r)

section Steps

variable {here token : Address} {env : RemittanceEnv here} {b b' : RemittanceEscrow}
  {start : Tokens} {r : Remittance} {remittanceId : ℕ}

theorem Sound.token_eq (h : Sound here start b) (hset : b.initialized = true) :
    ∃ token, b.token = some token :=
  Option.ne_none_iff_exists'.mp (h.token_ne hset)

/-- A remittance has been created after the setup. -/
theorem Sound.initialized (h : Sound here start b)
    (hfound : b.remittances.lookup remittanceId = some r) : b.initialized = true := by
  by_contra hunset
  rw [h.unset (Bool.not_eq_true _ ▸ hunset)] at hfound
  cases hfound

theorem openDispute_eq_ok (h : Sound here start b)
    (hfound : b.remittances.lookup remittanceId = some r) (hpending : r.status = .pending)
    (htoken : b.token = some token) :
    openDispute env r.sender remittanceId b = .ok b' ↔
      env.auth r.sender = true ∧ Disputable env b r ∧ ∃ treasury, b.treasury = some treasury ∧
        (0 < b.slashOf r.anchor →
          env.accepts b.tokens token here treasury (b.slashOf r.anchor) = true) ∧
        env.accepts (b.tokens.move token here treasury (b.slashOf r.anchor)) token here r.sender
          r.amount = true ∧
        b.disputed here token treasury r = b' := by
  have hset := h.initialized hfound
  have hamount := (h.booked.remittance _ _ hfound).amount_pos
  simp only [openDispute, requireInitialized, bind_eq_ok, failIf_eq_ok, not_not, hostCall_eq_ok,
    Env.requireAuth_eq_ok, okOr_eq_ok, hfound, Option.some.injEq, checkBits_eq_some, not_lt,
    Env.transfer_eq_ok, pure_eq_ok]
  constructor
  · rintro ⟨_, _, _, hauth, _, rfl, _, _, _, _, _, ⟨hfits, rfl⟩, _, hdue, treasury, htreasury, _,
      hslash, _, hlock, _, htoken', _, ⟨haccepts, rfl⟩, n, hn, m, hm, rfl⟩
    obtain ⟨hwide, hpaid, rfl⟩ := (slashBond_eq_ok h.bonded htoken).mp hslash
    obtain rfl := (lockCollateral_eq_ok h.bonded.slashed).mp hlock
    obtain rfl : token = _ := Option.some.inj (htoken.symm.trans htoken')
    exact ⟨hauth, ⟨hfits, hdue, by simp [htreasury], hwide, ⟨n, hn⟩, m, hm⟩, treasury, htreasury,
      hpaid, haccepts, rfl⟩
  · rintro ⟨hauth, hdisputable, treasury, htreasury, hpaid, haccepts, rfl⟩
    obtain ⟨⟨n, hn⟩, m, hm⟩ := hdisputable.numbered
    exact ⟨(), hset, (), hauth, _, rfl, (), rfl, (), hpending, _, ⟨hdisputable.fits, rfl⟩, (),
      hdisputable.due, treasury, htreasury, _,
      (slashBond_eq_ok h.bonded htoken).mpr ⟨hdisputable.bond, hpaid, rfl⟩, _,
      (lockCollateral_eq_ok h.bonded.slashed).mpr rfl, token, htoken, _, ⟨haccepts, rfl⟩,
      n, hn, m, hm, rfl⟩

theorem remittanceStep_change (h : Sound here start b) {i : RemittanceEnv here × RemittanceCall}
    (hstep : remittanceStep i b = .ok b') : Change here b i.2 b' := by
  obtain ⟨env, call⟩ := i
  cases call with
  | setUp admin token =>
    simp only [remittanceStep, setUp, bind_eq_ok, failIf_eq_ok, pure_eq_ok,
      Bool.not_eq_true] at hstep
    obtain ⟨_, hunset, _, _, rfl⟩ := hstep
    exact .setUp admin token hunset
  | setTreasury admin treasury =>
    simp only [remittanceStep, setTreasury, requireInitialized, bind_eq_ok, failIf_eq_ok, not_not,
      pure_eq_ok] at hstep
    obtain ⟨_, hset, _, _, _, _, _, _, rfl⟩ := hstep
    exact .treasury admin treasury hset
  | createRemittance sender anchor amount deadlineSecs =>
    obtain ⟨n, hcall⟩ := snd_map_eq_ok.mp hstep
    simp only [createRemittance, requireInitialized, bind_eq_ok, failIf_eq_ok, not_not,
      hostCall_eq_ok, Env.requireAuth_eq_ok, okOr_eq_ok, checkBits_eq_some, Env.transfer_eq_ok,
      pure_eq_ok, Prod.mk.injEq, not_le] at hcall
    obtain ⟨_, hset, _, hauth, _, hpos, _, _, _, _, token, htoken, _, ⟨_, rfl⟩, _, ⟨_, rfl⟩, _,
      ⟨_, rfl⟩, _, rfl⟩ := hcall
    exact .create hset (Env.ne_here_of_auth hauth) hpos htoken
  | submitPayoutProof anchor remittanceId proof =>
    simp only [remittanceStep, submitPayoutProof, requireInitialized, bind_eq_ok, failIf_eq_ok,
      not_not, hostCall_eq_ok, Env.requireAuth_eq_ok, okOr_eq_ok, pure_eq_ok] at hstep
    obtain ⟨_, hset, _, _, r, hfound, _, rfl, _, hpending, rfl⟩ := hstep
    exact .proof hset hfound hpending
  | depositCollateral anchor amount =>
    simp only [remittanceStep, depositCollateral, requireInitialized, bind_eq_ok, failIf_eq_ok,
      not_not, hostCall_eq_ok, Env.requireAuth_eq_ok, okOr_eq_ok, IntRange.check_eq_some,
      Env.transfer_eq_ok, pure_eq_ok, not_le] at hstep
    obtain ⟨_, hset, _, hauth, _, hpos, token, htoken, _, ⟨_, rfl⟩, _, ⟨hfits, rfl⟩, _, _, rfl⟩ :=
      hstep
    exact .deposit hset (Env.ne_here_of_auth hauth) hpos htoken hfits
  | openDispute sender remittanceId =>
    obtain ⟨r, hfound, rfl, hpending⟩ : ∃ r, b.remittances.lookup remittanceId = some r ∧
        r.sender = sender ∧ r.status = .pending := by
      simp only [remittanceStep, openDispute, bind_eq_ok, failIf_eq_ok, okOr_eq_ok,
        not_not] at hstep
      obtain ⟨_, _, _, _, r, hfound, _, hsender, _, hpending, _⟩ := hstep
      exact ⟨r, hfound, hsender, hpending⟩
    have hset := h.initialized hfound
    obtain ⟨token, htoken⟩ := h.token_eq hset
    obtain ⟨_, _, treasury, htreasury, _, _, rfl⟩ :=
      (openDispute_eq_ok h hfound hpending htoken).mp hstep
    exact .dispute hset hfound hpending htoken htreasury

/-- A new remittance is counted for its anchor. -/
theorem Booked.create (h : Booked here b) {sender : Address} {amount : ℤ} (anchor : Address)
    (deadline : ℕ) (hsender : sender ≠ here) (hpos : 0 < amount) :
    Booked here { b with
      nextRemittanceId := b.nextRemittanceId + 1
      remittances := b.remittances.insert b.nextRemittanceId
        ⟨b.nextRemittanceId, sender, anchor, amount, deadline, .pending, []⟩
      pendingRemittances := b.pendingRemittances.insert anchor (b.getPendingRemittances anchor + 1)
      bondLocked := if b.getPendingRemittances anchor + 1 = 1 then b.bondLocked.insert anchor true
        else b.bondLocked } := by
  set b₁ : RemittanceEscrow := { b with
    nextRemittanceId := b.nextRemittanceId + 1
    remittances := b.remittances.insert b.nextRemittanceId
      ⟨b.nextRemittanceId, sender, anchor, amount, deadline, .pending, []⟩
    pendingRemittances := b.pendingRemittances.insert anchor (b.getPendingRemittances anchor + 1)
    bondLocked := if b.getPendingRemittances anchor + 1 = 1 then b.bondLocked.insert anchor true
      else b.bondLocked } with hb₁
  have hcount : ∀ a, b₁.pendingCount a = (if a = anchor then 1 else 0) + b.pendingCount a := by
    intro a
    rw [RemittanceEscrow.pendingCount, hb₁]
    dsimp only
    rw [Store.total_insert_of_none _ _ (h.unused _ le_rfl)]
    simp only [and_true, eq_comm (a := anchor)]
    rfl
  have hpending : ∀ a, b₁.getPendingRemittances a =
      if a = anchor then b.getPendingRemittances a + 1 else b.getPendingRemittances a := by
    intro a
    change ((b.pendingRemittances.insert anchor _).lookup a).getD 0 = _
    rw [Store.lookup_insert_ite]
    split_ifs with ha
    · rw [ha, Option.getD_some]
    · rfl
  refine ⟨fun id s hs => ?_, fun id hid => ?_, fun a => ?_, fun a => ?_⟩
  · rcases Store.lookup_insert_eq_some.mp hs with ⟨rfl, rfl⟩ | ⟨_, hs⟩
    · exact ⟨rfl, hpos, hsender⟩
    · exact h.remittance id s hs
  · have hlt : b.nextRemittanceId < id := hid
    change (b.remittances.insert b.nextRemittanceId _).lookup id = none
    rw [Finmap.lookup_insert_of_ne _ hlt.ne']
    exact h.unused id hlt.le
  · rw [hpending, hcount, h.counted]
    split_ifs <;> omega
  · rw [hcount]
    by_cases ha : a = anchor
    · subst ha
      refine iff_of_true ?_ (by simp)
      change ((if b.getPendingRemittances a + 1 = 1 then b.bondLocked.insert a true
        else b.bondLocked).lookup a).getD false = true
      split_ifs with hfirst
      · rw [Finmap.lookup_insert, Option.getD_some]
      · refine (h.locked a).mpr ?_
        rw [← h.counted]
        omega
    · rw [if_neg ha, zero_add, ← h.locked a]
      have hsame : b₁.isBondLocked a = b.isBondLocked a := by
        change ((if b.getPendingRemittances anchor + 1 = 1 then b.bondLocked.insert anchor true
          else b.bondLocked).lookup a).getD false = _
        split_ifs
        · rw [Finmap.lookup_insert_of_ne _ ha]
          rfl
        · rfl
      rw [hsame]

theorem Sound.stranded_nonneg (h : Sound here start b) (call : RemittanceCall) :
    0 ≤ stranded here call b := by
  cases call with
  | submitPayoutProof anchor remittanceId proof =>
    rw [stranded]
    cases hfound : b.remittances.lookup remittanceId with
    | none => exact le_rfl
    | some r => exact (h.booked.remittance _ _ hfound).amount_pos.le
  | openDispute sender remittanceId =>
    rw [stranded]
    cases hfound : b.remittances.lookup remittanceId with
    | none => exact le_rfl
    | some r =>
      have hlocked := h.bonded.lockedOf_nonneg r.anchor
        (h.booked.remittance _ _ hfound).amount_pos
      have hslash := (h.bonded.slashOf_bounds r.anchor).1
      rw [Option.map_some, Option.getD_some]
      split_ifs <;> omega
  | _ => exact le_rfl

/-- The surplus grows by what a call strands, and by nothing else. -/
theorem Change.surplus {call : RemittanceCall} (hc : Change here b call b')
    (h : Sound here start b) (htoken : b.token = some token) (c : Address) :
    b'.surplus here token c =
      b.surplus here token c + if c = token then stranded here call b else 0 := by
  cases hc with
  | setUp admin token' hunset =>
    rw [h.unset hunset] at htoken
    cases htoken
  | treasury admin treasury => simp [stranded, RemittanceEscrow.surplus, RemittanceEscrow.owes]
  | @create sender anchor token' amount _ deadline _ hsender _ htoken' =>
    obtain rfl : token = token' := Option.some.inj (htoken.symm.trans htoken')
    rw [RemittanceEscrow.surplus, RemittanceEscrow.surplus, RemittanceEscrow.owes,
      RemittanceEscrow.owes, owed_insert_of_none _ (h.booked.unused _ le_rfl),
      Remittance.refundable]
    dsimp only [stranded]
    rw [Tokens.move_apply_dst _ _ _ hsender.symm]
    simp only [if_true, ite_self, eq_comm (a := c)]
    omega
  | @proof remittanceId proof r _ hfound hpending =>
    have hvalid := h.booked.remittance _ _ hfound
    rw [surplus_resolved (r := { r with status := .completed, proof }) (hvalid.id_eq ▸ hfound)
      hpending (by simp), stranded, hfound]
    rfl
  | @deposit anchor token' amount _ hanchor _ htoken' =>
    obtain rfl : token = token' := Option.some.inj (htoken.symm.trans htoken')
    rw [RemittanceEscrow.surplus, RemittanceEscrow.surplus, RemittanceEscrow.owes,
      RemittanceEscrow.owes, owed_insert_balance, ← RemittanceEscrow.getCollateralBalance]
    dsimp only [stranded]
    rw [Tokens.move_apply_dst _ _ _ hanchor.symm]
    simp only [ite_self, eq_comm (a := c)]
    split_ifs <;> omega
  | @dispute remittanceId token' treasury r _ hfound hpending htoken' htreasury =>
    obtain rfl : token = token' := Option.some.inj (htoken.symm.trans htoken')
    have hvalid := h.booked.remittance _ _ hfound
    have hsame : ((b.slashed here token treasury r.anchor).seized r.anchor
        r.amount).remittances.lookup r.id = some r := hvalid.id_eq ▸ hfound
    rw [RemittanceEscrow.disputed, surplus_refunded hsame hpending hvalid.sender_ne,
      h.bonded.slashed.surplus_seized hvalid.amount_pos, h.bonded.getCollateralBalance_slashed,
      h.bonded.surplus_slashed, stranded, hfound, htreasury, Option.map_some, Option.getD_some,
      RemittanceEscrow.lockedOf]
    by_cases hc : c = token
    · simp only [hc, true_and, if_true, Option.some.injEq]
      omega
    · simp only [hc, false_and, if_false, add_zero]

theorem Change.booked {call : RemittanceCall} (hc : Change here b call b')
    (h : Sound here start b) : Booked here b' := by
  cases hc with
  | setUp admin token hunset =>
    rw [h.unset hunset]
    exact ⟨nofun, fun _ _ => rfl, fun _ => rfl, fun _ => iff_of_false nofun (lt_irrefl 0)⟩
  | treasury =>
    exact ⟨h.booked.remittance, h.booked.unused, h.booked.counted, h.booked.locked⟩
  | @create sender anchor _ amount _ deadline _ hsender hpos =>
    obtain ⟨hremittance, hunused, hcounted, hlocked⟩ :=
      h.booked.create anchor deadline hsender hpos
    exact ⟨hremittance, hunused, hcounted, hlocked⟩
  | @proof remittanceId proof r _ hfound hpending =>
    have hstored : b.remittances.lookup r.id = some r :=
      (h.booked.remittance _ _ hfound).id_eq.symm ▸ hfound
    exact h.booked.resolved (r := { r with status := .completed, proof }) hstored rfl hpending
      (by simp) rfl rfl
  | deposit => exact ⟨h.booked.remittance, h.booked.unused, h.booked.counted, h.booked.locked⟩
  | @dispute remittanceId token treasury r _ hfound hpending =>
    have hbooked : Booked here { (b.slashed here token treasury r.anchor).seized r.anchor
        r.amount with tokens := ((b.slashed here token treasury r.anchor).seized r.anchor
          r.amount).tokens.move token here r.sender r.amount } :=
      ⟨h.booked.remittance, h.booked.unused, h.booked.counted, h.booked.locked⟩
    have hstored : b.remittances.lookup r.id = some r :=
      (h.booked.remittance _ _ hfound).id_eq.symm ▸ hfound
    exact hbooked.resolved (r := { r with status := .refunded }) hstored rfl hpending (by simp)
      rfl rfl

theorem Change.bonded {call : RemittanceCall} (hc : Change here b call b')
    (h : Sound here start b) : Bonded b' := by
  cases hc with
  | setUp => exact h.bonded
  | treasury => exact h.bonded
  | create => exact h.bonded
  | proof => exact h.bonded
  | @deposit anchor _ amount _ _ hpos _ hfits =>
    exact h.bonded.insert (add_nonneg (h.bonded.balance anchor).1 hpos.le) hfits
  | dispute => exact h.bonded.slashed.seized

theorem Change.initialized {call : RemittanceCall} (hc : Change here b call b') :
    b'.initialized = true := by
  cases hc with
  | setUp => rfl
  | treasury _ _ hset => exact hset
  | create hset => exact hset
  | proof hset => exact hset
  | deposit hset => exact hset
  | dispute hset => exact hset

theorem Change.sound {call : RemittanceCall} (hc : Change here b call b')
    (h : Sound here start b) : Sound here start b' := by
  have hset := hc.initialized
  refine ⟨fun hunset => absurd (hset.symm.trans hunset) (by simp), fun _ => ?_, hc.booked h,
    hc.bonded h, fun token htoken c => ?_⟩
  · cases hc with
    | setUp => exact Option.some_ne_none _
    | treasury _ _ hset => exact h.token_ne hset
    | create hset => exact h.token_ne hset
    | proof hset => exact h.token_ne hset
    | deposit hset => exact h.token_ne hset
    | dispute hset => exact h.token_ne hset
  · by_cases hbefore : b.initialized = true
    · obtain ⟨token', htoken'⟩ := h.token_eq hbefore
      have hsame : token' = token := by
        cases hc with
        | setUp _ _ hunset => cases hbefore.symm.trans hunset
        | treasury => exact Option.some.inj (htoken'.symm.trans htoken)
        | create => exact Option.some.inj (htoken'.symm.trans htoken)
        | proof => exact Option.some.inj (htoken'.symm.trans htoken)
        | deposit => exact Option.some.inj (htoken'.symm.trans htoken)
        | dispute => exact Option.some.inj (htoken'.symm.trans htoken)
      subst hsame
      rw [hc.surplus h htoken']
      have hbacked := h.backed _ htoken' c
      have hnonneg := h.stranded_nonneg call
      split_ifs <;> omega
    · rw [Bool.not_eq_true] at hbefore
      cases hc with
      | setUp =>
        rw [h.unset hbefore]
        simp [RemittanceEscrow.surplus, RemittanceEscrow.owes, RemittanceEscrow.fresh]
      | treasury _ _ hset => cases hbefore.symm.trans hset
      | create hset => cases hbefore.symm.trans hset
      | proof hset => cases hbefore.symm.trans hset
      | deposit hset => cases hbefore.symm.trans hset
      | dispute hset => cases hbefore.symm.trans hset

theorem sound_fresh : Sound here start (.fresh start) where
  unset _ := rfl
  token_ne := nofun
  booked := ⟨nofun, fun _ _ => rfl, fun _ => rfl, fun _ => iff_of_false nofun (lt_irrefl 0)⟩
  bonded := nofun
  backed := nofun

/-- A resolved remittance is never touched again. -/
theorem Change.lookup_of_resolved {call : RemittanceCall} (hc : Change here b call b')
    (h : Sound here start b) {id : ℕ} (hfound : b.remittances.lookup id = some r)
    (hresolved : r.status ≠ .pending) : b'.remittances.lookup id = some r := by
  have hother : ∀ {id' : ℕ} {r' : Remittance}, b.remittances.lookup id' = some r' →
      r'.status = .pending → id ≠ r'.id := by
    rintro id' r' hfound' hpending rfl
    rw [(h.booked.remittance _ _ hfound').id_eq] at hfound
    obtain rfl := Option.some.inj (hfound.symm.trans hfound')
    exact hresolved hpending
  cases hc with
  | setUp => exact hfound
  | treasury => exact hfound
  | create =>
    have hne : id ≠ b.nextRemittanceId := by
      rintro rfl
      cases (h.booked.unused _ le_rfl).symm.trans hfound
    exact (Finmap.lookup_insert_of_ne _ hne).trans hfound
  | proof _ hfound' hpending =>
    exact (Finmap.lookup_insert_of_ne _ (hother hfound' hpending)).trans hfound
  | deposit => exact hfound
  | dispute _ hfound' hpending =>
    exact (Finmap.lookup_insert_of_ne _ (hother hfound' hpending)).trans hfound

/-- The open remittances and all collateral are covered. -/
theorem Sound.covers (h : Sound here start b) (h0 : ∀ token, 0 ≤ start token here)
    (hfound : b.remittances.lookup remittanceId = some r) (hpending : r.status = .pending)
    (htoken : b.token = some token) :
    r.amount + b.getCollateralBalance r.anchor ≤ b.tokens token here := by
  have hbacked := h.backed token htoken token
  have hstart := h0 token
  have hamount : r.amount ≤ owed (fun _ => token) Remittance.refundable b.remittances token := by
    have hnonneg : ∀ k v, b.remittances.lookup k = some v → 0 ≤ v.refundable := by
      intro k v hv
      rw [Remittance.refundable]
      split_ifs
      · exact (h.booked.remittance k v hv).amount_pos.le
      · exact le_rfl
    have hle : r.refundable ≤ owed (fun _ => token) Remittance.refundable b.remittances token :=
      amount_le_owed hnonneg hfound
    rwa [Remittance.refundable, if_pos hpending] at hle
  have hcollateral : b.getCollateralBalance r.anchor ≤
      owed (fun _ => token) id b.collateral token := by
    cases hbalance : b.collateral.lookup r.anchor with
    | none =>
      rw [RemittanceEscrow.getCollateralBalance, hbalance]
      exact owed_nonneg (fun k v hv => (h.bonded k v hv).1) token
    | some v =>
      have hle : id v ≤ owed (fun _ => token) id b.collateral token :=
        amount_le_owed (fun k v hv => (h.bonded k v hv).1) hbalance
      rwa [RemittanceEscrow.getCollateralBalance, hbalance]
  rw [RemittanceEscrow.surplus, RemittanceEscrow.owes] at hbacked
  omega

/-- With tokens that pay out, a sender gets its amount back exactly when a dispute is due. -/
theorem Sound.openDispute_iff (h : Sound here start b) (h0 : ∀ token, 0 ≤ start token here)
    (hfound : b.remittances.lookup remittanceId = some r) (hpending : r.status = .pending)
    (hauth : env.auth r.sender = true) (hpays : env.PaysOut) :
    (∃ b', openDispute env r.sender remittanceId b = .ok b') ↔ Disputable env b r := by
  have hvalid := h.booked.remittance _ _ hfound
  obtain ⟨token, htoken⟩ := h.token_eq (h.initialized hfound)
  have hcovers := h.covers h0 hfound hpending htoken
  obtain ⟨hnonneg, hle⟩ := h.bonded.slashOf_bounds r.anchor
  simp only [openDispute_eq_ok h hfound hpending htoken]
  constructor
  · rintro ⟨_, _, hdisputable, _⟩
    exact hdisputable
  · intro hdisputable
    obtain ⟨treasury, htreasury⟩ := Option.ne_none_iff_exists'.mp hdisputable.treasury
    have hamount := hvalid.amount_pos
    refine ⟨_, hauth, hdisputable, treasury, htreasury, fun _ => ?_, ?_, rfl⟩
    · exact hpays _ _ _ _ hnonneg (by omega)
    · refine hpays _ _ _ _ hamount.le ?_
      rw [Tokens.move]
      split_ifs <;> simp_all <;> omega

end Steps

/-- In every run the contract holds what it had at first, the amounts of the open remittances and
all collateral, and a bond is locked exactly as long as its anchor has open remittances. A sender
gets its amount back exactly when a dispute is due, and a resolved remittance never changes. But
what is proved to be paid out stays in the contract for good, like the collateral that a dispute
takes, as no call ever lowers what the contract holds beyond its debts. -/
theorem payouts_accounted {here : Address} {start : Tokens} (h0 : ∀ token, 0 ≤ start token here)
    (run : List (RemittanceEnv here × RemittanceCall)) :
    Throughout remittanceStep (fun b =>
      (∀ token, b.token = some token → ∀ c, start c here + b.owes token c ≤ b.tokens c here) ∧
      ∀ anchor, b.getPendingRemittances anchor = b.pendingCount anchor ∧
        (b.isBondLocked anchor = true ↔ 0 < b.pendingCount anchor)) (.fresh start) run ∧
    Along remittanceStep (fun b i =>
      (∀ id r, b.remittances.lookup id = some r → r.status = .pending →
        ∀ env : RemittanceEnv here, env.auth r.sender = true → env.PaysOut →
        ((∃ b', openDispute env r.sender id b = .ok b') ↔ Disputable env b r)) ∧
      ∀ b', remittanceStep i b = .ok b' →
        (∀ id r, b.remittances.lookup id = some r → r.status ≠ .pending →
          b'.remittances.lookup id = some r) ∧
        0 ≤ stranded here i.2 b ∧ ∀ token, b.token = some token → ∀ c,
          b'.surplus here token c =
            b.surplus here token c + if c = token then stranded here i.2 b else 0)
      (.fresh start) run := by
  have hstep : ∀ b (i : RemittanceEnv here × RemittanceCall) b', Sound here start b →
      remittanceStep i b = .ok b' → Sound here start b' :=
    fun b i b' h hok => (remittanceStep_change h hok).sound h
  constructor
  · refine throughout_of_invariant hstep (fun b h => ⟨fun token htoken c => ?_, fun anchor =>
      ⟨h.booked.counted anchor, h.booked.locked anchor⟩⟩) sound_fresh run
    have hbacked := h.backed token htoken c
    rw [RemittanceEscrow.surplus] at hbacked
    omega
  · refine along_of_invariant hstep (fun b i h => ⟨fun id r hfound hpending env hauth hpays =>
      h.openDispute_iff h0 hfound hpending hauth hpays, fun b' hok => ?_⟩) sound_fresh run
    have hc := remittanceStep_change h hok
    exact ⟨fun id r hfound hresolved => hc.lookup_of_resolved h hfound hresolved,
      h.stranded_nonneg i.2, fun token htoken c => hc.surplus h htoken c⟩

section Sample

/-- Everybody signs, tokens pay out, and events are numbered. -/
def remittanceAt (timestamp : ℕ) (call : RemittanceCall) :
    RemittanceEnv ⟨0⟩ × RemittanceCall :=
  ({ Env.standard ⟨0⟩ 7 none with timestamp, nextEventSequenceId := fun n => .ok n }, call)

/-- A remittance is disputed two days after its deadline. -/
def remittanceRun : List (RemittanceEnv ⟨0⟩ × RemittanceCall) :=
  [remittanceAt 0 (.setUp ⟨1⟩ ⟨10⟩), remittanceAt 1 (.setTreasury ⟨1⟩ ⟨2⟩),
    remittanceAt 2 (.depositCollateral ⟨3⟩ (units 20000)),
    remittanceAt 3 (.createRemittance ⟨4⟩ ⟨3⟩ (units 1000) 60),
    remittanceAt 172863 (.openDispute ⟨4⟩ 0)]

def remittanceTokens : Tokens := fun _ holder => if holder = ⟨0⟩ then 0 else 50000

/-- The anchor keeps fifteen thousand, and its thousand stay in the contract. -/
theorem remittanceRun_accounted :
    ((runAll remittanceStep (.fresh remittanceTokens) remittanceRun).tokens ⟨10⟩ ⟨0⟩ = 16000 ∧
      (runAll remittanceStep (.fresh remittanceTokens) remittanceRun).getCollateralBalance ⟨3⟩ =
        15000) ∧
    Throughout remittanceStep (fun b =>
      (∀ token, b.token = some token → ∀ c,
        remittanceTokens c ⟨0⟩ + b.owes token c ≤ b.tokens c ⟨0⟩) ∧
      ∀ anchor, b.getPendingRemittances anchor = b.pendingCount anchor ∧
        (b.isBondLocked anchor = true ↔ 0 < b.pendingCount anchor))
      (.fresh remittanceTokens) remittanceRun ∧
    Along remittanceStep (fun b i =>
      (∀ id r, b.remittances.lookup id = some r → r.status = .pending →
        ∀ env : RemittanceEnv ⟨0⟩, env.auth r.sender = true → env.PaysOut →
        ((∃ b', openDispute env r.sender id b = .ok b') ↔ Disputable env b r)) ∧
      ∀ b', remittanceStep i b = .ok b' →
        (∀ id r, b.remittances.lookup id = some r → r.status ≠ .pending →
          b'.remittances.lookup id = some r) ∧
        0 ≤ stranded ⟨0⟩ i.2 b ∧ ∀ token, b.token = some token → ∀ c,
          b'.surplus ⟨0⟩ token c =
            b.surplus ⟨0⟩ token c + if c = token then stranded ⟨0⟩ i.2 b else 0)
      (.fresh remittanceTokens) remittanceRun :=
  ⟨by decide +kernel, payouts_accounted (fun _ => le_rfl) remittanceRun⟩

end Sample

end StellarFlow.Settlement.PayoutDispute
