import StellarFlow.Host
import StellarFlow.Foundation.Shares

/-!
# Debts as shares of an index

The debt of a borrower is stored as a share, the debt divided by an index that grows with the
interest, and is read back as the share times the index. Both conversions round down. The
total is summed up anew with every write, and a debt that no longer fits counts as nothing in
it. A borrower owes less than was borrowed unless the debt is a whole number of units of the
share, and the total is right only while every debt and their sum fit.
-/
namespace StellarFlow.Vaults

open Foundation

/-! ## Ledger -/

def debtShareScale : ℕ := 1000000000000000000
def debtBps : ℕ := 10000

theorem debtShareScale_pos : 0 < debtShareScale := by decide

structure DebtIndexState where
  indexDebt : ℕ
  totalDebt : ℤ
  lastAccruedLedger : ℕ
  deriving DecidableEq, Repr

structure DebtUserState where
  share : ℕ
  lastUpdatedLedger : ℕ
  deriving DecidableEq, Repr

/-- The index is absent before `initialize_debt_index`. -/
structure DebtLedger where
  index : Option DebtIndexState
  users : Store Address DebtUserState
  deriving DecidableEq

def shareFromDebt (d : ℤ) (index : ℕ) : Except Fault ℕ := do
  failIf (d < 0) (Fault.error .vaultInsufficientBalance)
  if d = 0 then pure 0
  else
    let scaled ← okOr (checkBits 128 (d.toNat * debtShareScale)) (Fault.error .mathOverflow)
    failIf (index = 0) Fault.trap
    pure (scaled / index)

/-- The quotient is below the bound of the 128-bit type it is cast to. -/
def debtFromShare (share index : ℕ) : Except Fault ℤ :=
  if share = 0 then pure 0
  else do
    let scaled ← okOr (checkBits 128 (share * index)) (Fault.error .mathOverflow)
    pure (scaled / debtShareScale : ℕ)

/-- A debt that does not fit adds nothing, like a borrower without a share. -/
def recomputeTotalDebt (users : Store Address DebtUserState) (index : ℕ) : ℤ :=
  Store.saturatingTotal i128.hi (fun _ entry =>
    if entry.share = 0 then 0
    else (checkBits 128 (entry.share * index)).getD 0 / debtShareScale) users

namespace DebtLedger

def empty : DebtLedger := ⟨none, ∅⟩

variable (l : DebtLedger)

def getIndexState : DebtIndexState := l.index.getD ⟨0, 0, 0⟩

def getUser (user : Address) : DebtUserState := (l.users.lookup user).getD ⟨0, 0⟩

def getUserDebt (user : Address) : Except Fault ℤ :=
  debtFromShare (l.getUser user).share l.getIndexState.indexDebt

def getDebtIndex : ℕ := l.getIndexState.indexDebt

def getTotalDebt : ℤ := l.getIndexState.totalDebt

def assertDebtAccountingBalances : Except Fault Unit :=
  failIf (recomputeTotalDebt l.users l.getIndexState.indexDebt ≠ l.getIndexState.totalDebt)
    (Fault.error .vaultDebtImbalance)

end DebtLedger

/-- Store the shares and the index, with the total that follows from them. -/
def writeDebts (state : DebtIndexState) (users : Store Address DebtUserState) : DebtLedger :=
  ⟨some { state with totalDebt := recomputeTotalDebt users state.indexDebt }, users⟩

/-! ## Calls -/

def initializeDebtIndex (sequence : ℕ) (l : DebtLedger) : DebtLedger :=
  { l with index := some (l.index.getD ⟨debtShareScale, 0, sequence⟩) }

def recordBorrow (sequence : ℕ) (user : Address) (amount : ℤ) (l : DebtLedger) :
    Except Fault DebtLedger := do
  failIf (amount ≤ 0) (Fault.error .vaultZeroAmount)
  let state := l.getIndexState
  let debtBefore ← debtFromShare (l.getUser user).share state.indexDebt
  let debtAfter ← okOr (i128.check (debtBefore + amount)) (Fault.error .mathOverflow)
  let share ← shareFromDebt debtAfter state.indexDebt
  pure (writeDebts state (l.users.insert user ⟨share, sequence⟩))

def recordRepayment (sequence : ℕ) (user : Address) (amount : ℤ) (l : DebtLedger) :
    Except Fault DebtLedger := do
  failIf (amount ≤ 0) (Fault.error .vaultZeroAmount)
  let state := l.getIndexState
  let debtBefore ← debtFromShare (l.getUser user).share state.indexDebt
  failIf (debtBefore < amount) (Fault.error .vaultInsufficientBalance)
  let debtAfter ← okOr (i128.check (debtBefore - amount)) (Fault.error .mathOverflow)
  let share ← shareFromDebt debtAfter state.indexDebt
  pure (writeDebts state (l.users.insert user ⟨share, sequence⟩))

/-- The interest of some ledgers as a fraction in fixed point. -/
def accrualFactor (rateBps elapsed ledgersPerYear : ℕ) : Except Fault ℕ := do
  let rate ← okOr (checkBits 128 (rateBps * elapsed)) (Fault.error .mathOverflow)
  let scaled ← okOr (checkBits 128 (rate * debtShareScale)) (Fault.error .mathOverflow)
  pure (scaled / debtBps / ledgersPerYear)

def growIndex (index factor : ℕ) : Except Fault ℕ :=
  if 0 < factor then do
    let product ← okOr (checkBits 128 (index * factor)) (Fault.error .mathOverflow)
    okOr (checkBits 128 (index + product / debtShareScale)) (Fault.error .mathOverflow)
  else pure index

def accrueInterestIndex (sequence rateBps ledgersPerYear : ℕ) (l : DebtLedger) :
    Except Fault DebtLedger := do
  failIf (ledgersPerYear = 0) (Fault.error .invalidArgument)
  let state := l.getIndexState
  if sequence ≤ state.lastAccruedLedger then pure l
  else
    let factor ← accrualFactor rateBps (sequence - state.lastAccruedLedger) ledgersPerYear
    let indexDebt ← growIndex state.indexDebt factor
    pure (writeDebts { state with indexDebt, lastAccruedLedger := sequence } l.users)

inductive DebtCall
  | initializeDebtIndex
  | recordBorrow (user : Address) (amount : ℤ)
  | recordRepayment (user : Address) (amount : ℤ)
  | accrueInterestIndex (rateBps ledgersPerYear : ℕ)

/-- A call at a ledger sequence. -/
abbrev DebtStep := ℕ × DebtCall

def debtStep (i : DebtStep) (l : DebtLedger) : Except Fault DebtLedger :=
  match i.2 with
  | .initializeDebtIndex => pure (initializeDebtIndex i.1 l)
  | .recordBorrow user amount => recordBorrow i.1 user amount l
  | .recordRepayment user amount => recordRepayment i.1 user amount l
  | .accrueInterestIndex rateBps ledgersPerYear =>
    accrueInterestIndex i.1 rateBps ledgersPerYear l

/-! ## What the calls store -/

/-- The interest of some ledgers in fixed point, and the index grown by it. -/
def interestFactor (rateBps elapsed ledgersPerYear : ℕ) : ℕ :=
  rateBps * elapsed * debtShareScale / debtBps / ledgersPerYear

def grownIndex (index factor : ℕ) : ℕ := index + index * factor / debtShareScale

section Results

variable {sequence rateBps elapsed ledgersPerYear index factor shares : ℕ} {user : Address}
  {amount d : ℤ} {l l' : DebtLedger}

theorem shareFromDebt_eq_ok (h : shareFromDebt d index = .ok shares) :
    ∃ n : ℕ, d = n ∧ n * debtShareScale < 2 ^ 128 ∧ shares = share n debtShareScale index ∧
      (0 < n → 0 < index) := by
  simp only [shareFromDebt, bind_eq_ok, failIf_eq_ok, not_lt] at h
  obtain ⟨_, hnonneg, h⟩ := h
  refine ⟨d.toNat, (Int.toNat_of_nonneg hnonneg).symm, ?_⟩
  split_ifs at h with hzero
  · obtain rfl := pure_eq_ok.mp h
    simp [hzero, share]
  · simp only [bind_eq_ok, okOr_eq_ok, checkBits_eq_some, failIf_eq_ok, pure_eq_ok] at h
    obtain ⟨_, ⟨hlt, rfl⟩, _, hindex, rfl⟩ := h
    exact ⟨hlt, rfl, fun _ => Nat.pos_of_ne_zero hindex⟩

theorem debtFromShare_eq_ok :
    debtFromShare shares index = .ok d ↔
      shares * index < 2 ^ 128 ∧ d = (share shares index debtShareScale : ℕ) := by
  unfold debtFromShare
  split_ifs with hzero
  · rw [pure_eq_ok, hzero]
    simp [share, eq_comm]
  · simp only [bind_eq_ok, okOr_eq_ok, checkBits_eq_some, pure_eq_ok]
    constructor
    · rintro ⟨_, ⟨hlt, rfl⟩, rfl⟩
      exact ⟨hlt, rfl⟩
    · rintro ⟨hlt, rfl⟩
      exact ⟨_, ⟨hlt, rfl⟩, rfl⟩

theorem growIndex_eq_ok {index' : ℕ} (h : growIndex index factor = .ok index') :
    index' = grownIndex index factor := by
  unfold growIndex at h
  split_ifs at h with hpos
  · simp only [bind_eq_ok, okOr_eq_ok, checkBits_eq_some] at h
    obtain ⟨_, ⟨_, rfl⟩, _, rfl⟩ := h
    rfl
  · obtain rfl := pure_eq_ok.mp h
    rw [grownIndex, Nat.eq_zero_of_not_pos hpos, mul_zero, Nat.zero_div, add_zero]

theorem accrualFactor_eq_ok (h : accrualFactor rateBps elapsed ledgersPerYear = .ok factor) :
    factor = interestFactor rateBps elapsed ledgersPerYear := by
  simp only [accrualFactor, bind_eq_ok, okOr_eq_ok, checkBits_eq_some, pure_eq_ok] at h
  obtain ⟨_, ⟨_, rfl⟩, _, ⟨_, rfl⟩, rfl⟩ := h
  rfl

end Results

/-! ## Accounts -/

/-- Every debt can be read, and the recorded total is the sum of the debts. -/
structure Accounted (l : DebtLedger) : Prop where
  readable : ∀ user, ∃ debt, l.getUserDebt user = .ok debt
  total_eq : l.getTotalDebt =
    Store.total (fun user _ => (l.getUserDebt user).toOption.getD 0) l.users

/-- After an accepted borrow the borrower owes the debt before and the amount. -/
def BorrowsInFull (l : DebtLedger) (i : DebtStep) : Prop :=
  ∀ user amount l', i.2 = .recordBorrow user amount → debtStep i l = .ok l' →
    ∃ before after, l.getUserDebt user = .ok before ∧ l'.getUserDebt user = .ok after ∧
      before + amount ≤ after

/-- Every debt and the sum of all debts fit at the given index. -/
def Payable (users : Store Address DebtUserState) (index : ℕ) : Prop :=
  (∀ user entry, users.lookup user = some entry → entry.share * index < 2 ^ 128) ∧
    Store.total (fun _ entry => (share entry.share index debtShareScale : ℤ)) users ≤ i128.hi

/-- An accepted borrow makes the debt a whole number of units of the share and leaves the total
in range, and after an accepted accrual all debts fit. -/
def RecordsInFull (l : DebtLedger) (i : DebtStep) : Prop :=
  (∃ l', debtStep i l = .ok l') →
    match i.2 with
    | .recordBorrow user amount =>
      l.getDebtIndex ∣ (share (l.getUser user).share l.getDebtIndex debtShareScale +
        amount.toNat) * debtShareScale ∧ l.getTotalDebt + amount ≤ i128.hi
    | .accrueInterestIndex rateBps ledgersPerYear =>
      l.getIndexState.lastAccruedLedger < i.1 →
        Payable l.users (grownIndex l.getDebtIndex
          (interestFactor rateBps (i.1 - l.getIndexState.lastAccruedLedger) ledgersPerYear))
    | _ => True

/-- The total is as it was last computed, and there are no borrowers without an index. -/
structure Recorded (l : DebtLedger) : Prop where
  total_eq : l.getTotalDebt = recomputeTotalDebt l.users l.getDebtIndex
  users_eq : l.index = none → l.users = ∅

section Accounts

variable {users : Store Address DebtUserState} {index sequence : ℕ} {user : Address}
  {amount : ℤ} {entry : DebtUserState} {l l' : DebtLedger} {i : DebtStep}

theorem recomputeTotalDebt_eq
    (hfits : ∀ user entry, users.lookup user = some entry → entry.share * index < 2 ^ 128) :
    recomputeTotalDebt users index = min i128.hi
      (Store.total (fun _ entry => (share entry.share index debtShareScale : ℤ)) users) := by
  rw [recomputeTotalDebt, Store.saturatingTotal_eq (by decide)]
  congr 1
  refine Store.total_congr fun user entry hentry => ?_
  split_ifs with hzero
  · simp [share, hzero]
  · rw [checkBits_eq_some.mpr ⟨hfits user entry hentry, rfl⟩]
    rfl

theorem getUserDebt_eq_ok {d : ℤ} :
    l.getUserDebt user = .ok d ↔ (l.getUser user).share * l.getDebtIndex < 2 ^ 128 ∧
      d = (share (l.getUser user).share l.getDebtIndex debtShareScale : ℕ) :=
  debtFromShare_eq_ok

theorem getUser_of_lookup (h : l.users.lookup user = some entry) : l.getUser user = entry := by
  rw [DebtLedger.getUser, h, Option.getD_some]

theorem accounted_iff (hr : Recorded l) : Accounted l ↔ Payable l.users l.getDebtIndex := by
  have hsum : (∀ user, ∃ debt, l.getUserDebt user = .ok debt) →
      Store.total (fun user _ => (l.getUserDebt user).toOption.getD 0) l.users =
        Store.total (fun _ entry => (share entry.share l.getDebtIndex debtShareScale : ℤ))
          l.users := by
    intro hreadable
    refine Store.total_congr fun user entry hentry => ?_
    obtain ⟨debt, hdebt⟩ := hreadable user
    rw [hdebt, (getUserDebt_eq_ok.mp hdebt).2, getUser_of_lookup hentry]
    rfl
  constructor
  · intro ha
    have hfits : ∀ user entry, l.users.lookup user = some entry →
        entry.share * l.getDebtIndex < 2 ^ 128 := by
      intro user entry hentry
      obtain ⟨debt, hdebt⟩ := ha.readable user
      rw [← getUser_of_lookup hentry]
      exact (getUserDebt_eq_ok.mp hdebt).1
    have htotal := ha.total_eq
    rw [hr.total_eq, recomputeTotalDebt_eq hfits, hsum ha.readable] at htotal
    exact ⟨hfits, min_eq_right_iff.mp htotal⟩
  · rintro ⟨hfits, hle⟩
    have hreadable : ∀ user, ∃ debt, l.getUserDebt user = .ok debt := by
      intro user
      refine ⟨_, getUserDebt_eq_ok.mpr ⟨?_, rfl⟩⟩
      cases hentry : l.users.lookup user with
      | none => simp [DebtLedger.getUser, hentry]
      | some entry =>
        rw [getUser_of_lookup hentry]
        exact hfits user entry hentry
    refine ⟨hreadable, ?_⟩
    rw [hr.total_eq, recomputeTotalDebt_eq hfits, hsum hreadable, min_eq_right hle]

theorem recorded_writeDebts (state : DebtIndexState) (users : Store Address DebtUserState) :
    Recorded (writeDebts state users) :=
  ⟨rfl, fun hnone => by cases hnone⟩

/-- The total while every debt is in it. -/
theorem Accounted.total (hr : Recorded l) (ha : Accounted l) : l.getTotalDebt =
    Store.total (fun _ entry => (share entry.share l.getDebtIndex debtShareScale : ℤ)) l.users := by
  obtain ⟨hfits, hle⟩ := (accounted_iff hr).mp ha
  rw [hr.total_eq, recomputeTotalDebt_eq hfits, min_eq_right hle]

/-- A new share of one borrower moves the total by the difference of the debts. -/
theorem accounted_insert_iff (hr : Recorded l) (ha : Accounted l)
    (hfits : entry.share * l.getDebtIndex < 2 ^ 128) :
    Accounted (writeDebts l.getIndexState (l.users.insert user entry)) ↔
      l.getTotalDebt + share entry.share l.getDebtIndex debtShareScale ≤
        i128.hi + share (l.getUser user).share l.getDebtIndex debtShareScale := by
  have hpart : Store.part (fun _ entry => (share entry.share l.getDebtIndex debtShareScale : ℤ))
      l.users user = share (l.getUser user).share l.getDebtIndex debtShareScale := by
    cases hentry : l.users.lookup user with
    | none =>
      rw [Store.part_of_none _ hentry]
      simp [DebtLedger.getUser, hentry, share]
    | some old => rw [Store.part_of_lookup _ hentry, getUser_of_lookup hentry]
  have htotal := Store.total_insert
    (fun _ entry => (share entry.share l.getDebtIndex debtShareScale : ℤ)) l.users user entry
  rw [hpart, ← ha.total hr] at htotal
  rw [accounted_iff (recorded_writeDebts _ _)]
  constructor
  · rintro ⟨_, hle⟩
    exact htotal ▸ add_le_add_left hle _
  · intro hle
    refine ⟨fun v entry' hv => ?_, ?_⟩
    · rcases Store.lookup_insert_eq_some.mp hv with ⟨_, rfl⟩ | ⟨_, hold⟩
      · exact hfits
      · exact ((accounted_iff hr).mp ha).1 v entry' hold
    · rw [← htotal] at hle
      exact le_of_add_le_add_right hle

/-! ## Steps -/

/-- The debt before and the amount become a share, rounded down. -/
theorem recordBorrow_eq_ok (h : recordBorrow sequence user amount l = .ok l') :
    0 < amount ∧ ∃ n : ℕ,
      n = share (l.getUser user).share l.getDebtIndex debtShareScale + amount.toNat ∧
      n * debtShareScale < 2 ^ 128 ∧
      l' = writeDebts l.getIndexState
        (l.users.insert user ⟨share n debtShareScale l.getDebtIndex, sequence⟩) := by
  simp only [recordBorrow, bind_eq_ok, failIf_eq_ok, okOr_eq_ok, IntRange.check_eq_some,
    debtFromShare_eq_ok, pure_eq_ok] at h
  obtain ⟨_, hpos, _, ⟨_, rfl⟩, _, ⟨_, rfl⟩, shares, hshares, rfl⟩ := h
  obtain ⟨n, hn, hlt, rfl, _⟩ := shareFromDebt_eq_ok hshares
  refine ⟨not_le.mp hpos, n, ?_, hlt, rfl⟩
  change (share (l.getUser user).share l.getDebtIndex debtShareScale : ℤ) + amount = n at hn
  omega

/-- What remains of the debt becomes a share, rounded down. -/
theorem recordRepayment_eq_ok (h : recordRepayment sequence user amount l = .ok l') :
    ∃ n : ℕ, n ≤ share (l.getUser user).share l.getDebtIndex debtShareScale ∧
      n * debtShareScale < 2 ^ 128 ∧
      l' = writeDebts l.getIndexState
        (l.users.insert user ⟨share n debtShareScale l.getDebtIndex, sequence⟩) := by
  simp only [recordRepayment, bind_eq_ok, failIf_eq_ok, okOr_eq_ok, IntRange.check_eq_some,
    debtFromShare_eq_ok, pure_eq_ok] at h
  obtain ⟨_, hpos, _, ⟨_, rfl⟩, _, _, _, ⟨_, rfl⟩, shares, hshares, rfl⟩ := h
  obtain ⟨n, hn, hlt, rfl, _⟩ := shareFromDebt_eq_ok hshares
  refine ⟨n, ?_, hlt, rfl⟩
  change (share (l.getUser user).share l.getDebtIndex debtShareScale : ℤ) - amount = n at hn
  omega

/-- An accepted accrual does nothing or writes the grown index. -/
theorem accrueInterestIndex_eq_ok {rateBps ledgersPerYear : ℕ}
    (h : accrueInterestIndex sequence rateBps ledgersPerYear l = .ok l') :
    (sequence ≤ l.getIndexState.lastAccruedLedger ∧ l' = l) ∨
    (l.getIndexState.lastAccruedLedger < sequence ∧
      l' = writeDebts { l.getIndexState with
        indexDebt := grownIndex l.getDebtIndex
          (interestFactor rateBps (sequence - l.getIndexState.lastAccruedLedger) ledgersPerYear)
        lastAccruedLedger := sequence } l.users) := by
  simp only [accrueInterestIndex, bind_eq_ok] at h
  obtain ⟨_, _, h⟩ := h
  split_ifs at h with hold
  · exact .inl ⟨hold, (pure_eq_ok.mp h).symm⟩
  · simp only [bind_eq_ok, pure_eq_ok] at h
    obtain ⟨factor, hfactor, indexDebt, hindex, rfl⟩ := h
    rw [growIndex_eq_ok hindex, accrualFactor_eq_ok hfactor]
    exact .inr ⟨not_le.mp hold, rfl⟩

theorem debtStep_recorded (hr : Recorded l) (hstep : debtStep i l = .ok l') : Recorded l' := by
  obtain ⟨sequence, call⟩ := i
  cases call with
  | initializeDebtIndex =>
    obtain rfl := pure_eq_ok.mp hstep
    cases hindex : l.index with
    | none =>
      refine ⟨?_, fun hnone => by cases hnone⟩
      rw [initializeDebtIndex, hindex, hr.users_eq hindex]
      rfl
    | some state =>
      have hsame : initializeDebtIndex sequence l = l := by
        rw [initializeDebtIndex, hindex, Option.getD_some, ← hindex]
      rw [hsame]
      exact hr
  | recordBorrow user amount =>
    obtain ⟨_, n, _, _, rfl⟩ := recordBorrow_eq_ok hstep
    exact recorded_writeDebts _ _
  | recordRepayment user amount =>
    obtain ⟨n, _, _, rfl⟩ := recordRepayment_eq_ok hstep
    exact recorded_writeDebts _ _
  | accrueInterestIndex rateBps ledgersPerYear =>
    rcases accrueInterestIndex_eq_ok hstep with ⟨_, rfl⟩ | ⟨_, rfl⟩
    · exact hr
    · exact recorded_writeDebts _ _

theorem share_mul_lt {n index : ℕ} (h : n * debtShareScale < 2 ^ 128) :
    share n debtShareScale index * index < 2 ^ 128 :=
  (share_mul_le n debtShareScale index).trans_lt h

/-- After an accepted borrow the accounts are right and the borrower owes everything exactly
when the new debt is a whole number of units and the total stays in range. -/
theorem recordBorrow_iff (hr : Recorded l) (ha : Accounted l)
    (h : recordBorrow sequence user amount l = .ok l') :
    Accounted l' ∧ BorrowsInFull l (sequence, .recordBorrow user amount) ↔
      l.getDebtIndex ∣ (share (l.getUser user).share l.getDebtIndex debtShareScale +
        amount.toNat) * debtShareScale ∧ l.getTotalDebt + amount ≤ i128.hi := by
  obtain ⟨hpos, n, hn, hlt, hl'⟩ := recordBorrow_eq_ok h
  have hbefore : l.getUserDebt user =
      .ok (share (l.getUser user).share l.getDebtIndex debtShareScale : ℕ) := by
    obtain ⟨debt, hdebt⟩ := ha.readable user
    exact getUserDebt_eq_ok.mpr ⟨(getUserDebt_eq_ok.mp hdebt).1, rfl⟩
  have hafter : l'.getUserDebt user =
      .ok (share (share n debtShareScale l.getDebtIndex) l.getDebtIndex debtShareScale : ℕ) := by
    have huser : l'.getUser user = ⟨share n debtShareScale l.getDebtIndex, sequence⟩ := by
      rw [hl', DebtLedger.getUser, writeDebts, Finmap.lookup_insert, Option.getD_some]
    have hindex : l'.getDebtIndex = l.getDebtIndex := by rw [hl']; rfl
    rw [getUserDebt_eq_ok, huser, hindex]
    exact ⟨share_mul_lt hlt, rfl⟩
  -- The borrower owes everything exactly when nothing is lost in the share.
  have hfull : BorrowsInFull l (sequence, .recordBorrow user amount) ↔
      l.getDebtIndex ∣ n * debtShareScale := by
    rw [← le_share_share_iff debtShareScale_pos]
    constructor
    · intro hb
      obtain ⟨before, after, hok, hok', hle⟩ := hb user amount l' rfl h
      obtain rfl := Except.ok.inj (hbefore.symm.trans hok)
      obtain rfl := Except.ok.inj (hafter.symm.trans hok')
      omega
    · rintro hle v amount' l'' hcall hstep
      obtain ⟨rfl, rfl⟩ := DebtCall.recordBorrow.inj hcall
      obtain rfl := Except.ok.inj (h.symm.trans hstep)
      exact ⟨_, _, hbefore, hafter, by omega⟩
  rw [hfull, hn, and_comm]
  refine and_congr_right fun hdvd => ?_
  have hexact : share (share n debtShareScale l.getDebtIndex) l.getDebtIndex debtShareScale = n :=
    le_antisymm (share_share_le _ _ _) ((le_share_share_iff debtShareScale_pos).mpr (hn ▸ hdvd))
  rw [hl', accounted_insert_iff hr ha (share_mul_lt hlt), hexact]
  omega

theorem recordRepayment_accounted (hr : Recorded l) (ha : Accounted l)
    (h : recordRepayment sequence user amount l = .ok l') : Accounted l' := by
  obtain ⟨n, hn, hlt, rfl⟩ := recordRepayment_eq_ok h
  rw [accounted_insert_iff hr ha (share_mul_lt hlt)]
  have hle := share_share_le n debtShareScale l.getDebtIndex
  have htotal : l.getTotalDebt ≤ i128.hi := by
    rw [ha.total hr]
    exact ((accounted_iff hr).mp ha).2
  dsimp only
  omega

theorem initializeDebtIndex_accounted (hr : Recorded l) (ha : Accounted l) :
    Accounted (initializeDebtIndex sequence l) := by
  cases hindex : l.index with
  | none =>
    have hr' : Recorded (initializeDebtIndex sequence l) :=
      debtStep_recorded (i := (sequence, .initializeDebtIndex)) hr rfl
    have husers : (initializeDebtIndex sequence l).users = ∅ := hr.users_eq hindex
    rw [accounted_iff hr', husers]
    refine ⟨fun _ _ hentry => by simp at hentry, ?_⟩
    rw [Store.total_empty]
    decide
  | some state =>
    have hsame : initializeDebtIndex sequence l = l := by
      rw [initializeDebtIndex, hindex, Option.getD_some, ← hindex]
    rwa [hsame]

theorem debtStep_iff (hr : Recorded l) (ha : Accounted l) (hstep : debtStep i l = .ok l') :
    Accounted l' ∧ BorrowsInFull l i ↔ RecordsInFull l i := by
  have hok : ∃ l', debtStep i l = .ok l' := ⟨l', hstep⟩
  unfold RecordsInFull
  rw [imp_iff_right hok]
  obtain ⟨sequence, call⟩ := i
  cases call with
  | recordBorrow user amount => exact recordBorrow_iff hr ha hstep
  | recordRepayment user amount =>
    exact iff_of_true ⟨recordRepayment_accounted hr ha hstep, fun _ _ _ hcall => by cases hcall⟩
      trivial
  | initializeDebtIndex =>
    obtain rfl := pure_eq_ok.mp hstep
    exact iff_of_true ⟨initializeDebtIndex_accounted hr ha, fun _ _ _ hcall => by cases hcall⟩
      trivial
  | accrueInterestIndex rateBps ledgersPerYear =>
    have hborrows : BorrowsInFull l (sequence, .accrueInterestIndex rateBps ledgersPerYear) :=
      fun _ _ _ hcall => by cases hcall
    rw [and_iff_left hborrows]
    rcases accrueInterestIndex_eq_ok hstep with ⟨hold, rfl⟩ | ⟨hnew, rfl⟩
    · exact iff_of_true ha fun hlt => absurd hlt (not_lt.mpr hold)
    · rw [accounted_iff (recorded_writeDebts _ _)]
      exact (imp_iff_right hnew).symm

/-- Along a run the accounts are right in every state and every borrow is owed in full, exactly
when every borrow is a whole number of units in range and every accrual leaves room. -/
theorem debts_accounted_iff (run : List DebtStep) :
    Throughout debtStep Accounted .empty run ∧ Along debtStep BorrowsInFull .empty run ↔
      Along debtStep RecordsInFull .empty run := by
  refine throughout_and_along_iff (I := Recorded)
    (fun l i hr => commit_induction hr fun _ hstep => debtStep_recorded hr hstep)
    (fun l i hr ha => ?_) ⟨rfl, fun _ => rfl⟩ ?_ run
  · cases hstep : debtStep i l with
    | error e =>
      rw [commit_of_error hstep]
      refine iff_of_true ⟨ha, fun _ _ l' _ hok => ?_⟩ ?_
      · exact absurd (hstep.symm.trans hok) (by simp)
      · rintro ⟨l', hok⟩
        exact absurd (hstep.symm.trans hok) (by simp)
    | ok l' =>
      rw [commit_of_ok hstep]
      exact debtStep_iff hr ha hstep
  · rw [accounted_iff ⟨rfl, fun _ => rfl⟩]
    exact ⟨fun _ _ hentry => by simp [DebtLedger.empty] at hentry, by decide⟩

/-- The stored total always passes its own check, also when it is wrong. -/
theorem assertDebtAccountingBalances_of_run (run : List DebtStep) :
    (runAll debtStep .empty run).assertDebtAccountingBalances = .ok () := by
  have hr : Recorded (runAll debtStep .empty run) :=
    runAll_induction (fun _ _ _ hr hstep => debtStep_recorded hr hstep) ⟨rfl, fun _ => rfl⟩ run
  exact failIf_of_not (not_not.mpr hr.total_eq.symm)

end Accounts

/-- Interest accrues before the first unit is borrowed. -/
def accruedBorrowRun : List DebtStep :=
  [(1, .initializeDebtIndex), (2, .accrueInterestIndex 1 10000), (2, .recordBorrow ⟨1⟩ 1)]

/-- The largest debt that can be read at the first index accrues interest. -/
def accruedLargeRun : List DebtStep :=
  [(1, .initializeDebtIndex), (1, .recordBorrow ⟨1⟩ 340282366920938463463),
   (2, .accrueInterestIndex 1 10000)]

/-- The borrower of a unit owes nothing, and a debt that no longer fits is left out of the
total. -/
theorem accrued_borrow_lost :
    (runAll debtStep .empty accruedBorrowRun).getUserDebt ⟨1⟩ = .ok 0 ∧
    (runAll debtStep .empty accruedLargeRun).getUserDebt ⟨1⟩ =
      .error (Fault.error .mathOverflow) ∧
    (runAll debtStep .empty accruedLargeRun).getTotalDebt = 0 ∧
    ¬ Along debtStep BorrowsInFull .empty accruedBorrowRun ∧
    ¬ Throughout debtStep Accounted .empty accruedLargeRun := by
  have hdebt : (runAll debtStep .empty accruedBorrowRun).getUserDebt ⟨1⟩ = .ok 0 := by
    decide +kernel
  have hlarge : (runAll debtStep .empty accruedLargeRun).getUserDebt ⟨1⟩ =
      .error (Fault.error .mathOverflow) := by
    decide +kernel
  have hbare : (runAll debtStep .empty (accruedBorrowRun.take 2)).getUserDebt ⟨1⟩ = .ok 0 := by
    decide +kernel
  have hborrow : debtStep (2, .recordBorrow ⟨1⟩ 1)
      (runAll debtStep .empty (accruedBorrowRun.take 2)) =
      .ok (runAll debtStep .empty accruedBorrowRun) := by
    decide +kernel
  refine ⟨hdebt, hlarge, by decide +kernel, ?_, ?_⟩
  · rintro ⟨_, _, hfull, _⟩
    obtain ⟨before, after, hbefore, hafter, hle⟩ := hfull ⟨1⟩ 1 _ rfl hborrow
    obtain rfl := Except.ok.inj (hdebt.symm.trans hafter)
    obtain rfl := Except.ok.inj (hbare.symm.trans hbefore)
    omega
  · rintro ⟨_, _, _, haccounted⟩
    obtain ⟨debt, hok⟩ := haccounted.readable ⟨1⟩
    exact absurd (hlarge.symm.trans hok) (by simp)

end StellarFlow.Vaults
