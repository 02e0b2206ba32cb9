import StellarFlow.Foundation.Obligations
import StellarFlow.Host

/-!
# Linear vesting

An administrator locks an amount for a beneficiary. Nothing can be claimed before the cliff;
from there on the amount vests linearly until the end of the vesting time, and a claim pays
what has vested and was not claimed before.
-/
namespace StellarFlow.Settlement

open Foundation

inductive VestingError
  | alreadyInitialized
  | notInitialized
  | notAdmin
  | vestingNotFound
  | cliffNotReached
  | nothingToClaim
  | invalidAmount
  | invalidDuration
  | vestingAlreadyExists
  deriving DecidableEq, Repr

structure VestingSchedule where
  beneficiary : Address
  totalAmount : ℤ
  claimedAmount : ℤ
  startLedger : ℕ
  cliffDuration : ℕ
  vestingDuration : ℕ
  deriving DecidableEq

structure Vesting where
  admin : Option Address
  token : Option Address
  schedules : Store Symbol VestingSchedule
  tokens : Tokens

def Vesting.fresh (tokens : Tokens) : Vesting := ⟨none, none, ∅, tokens⟩

section Calls

variable {here : Address} (env : Env here)

def initializeVesting (admin token : Address) (b : Vesting) :
    Except (Abort VestingError) Vesting := do
  failIf b.admin.isSome (.error .alreadyInitialized)
  hostCall (env.requireAuth admin)
  pure { b with admin := some admin, token := some token }

def createVesting (admin : Address) (identifier : Symbol) (beneficiary : Address)
    (totalAmount : i128.Value) (cliffDuration vestingDuration : UInt32) (b : Vesting) :
    Except (Abort VestingError) Vesting := do
  let storedAdmin ← okOr b.admin (.error .notInitialized)
  failIf (admin ≠ storedAdmin) (.error .notAdmin)
  hostCall (env.requireAuth admin)
  failIf (totalAmount.1 ≤ 0) (.error .invalidAmount)
  failIf (vestingDuration ≤ cliffDuration) (.error .invalidDuration)
  failIf (b.schedules.lookup identifier).isSome (.error .vestingAlreadyExists)
  let schedule : VestingSchedule :=
    { beneficiary, totalAmount, claimedAmount := 0, startLedger := env.sequence,
      cliffDuration := cliffDuration.toNat, vestingDuration := vestingDuration.toNat }
  let token ← okOr b.token (.error .notInitialized)
  let tokens ← hostCall (env.transfer token admin here totalAmount b.tokens)
  pure { b with tokens, schedules := b.schedules.insert identifier schedule }

/-- The part of the amount that has vested. The product of the operator traps out of range. -/
def vestedAmount (schedule : VestingSchedule) (elapsed : ℕ) : Except (Abort VestingError) ℤ :=
  if schedule.vestingDuration ≤ elapsed then pure schedule.totalAmount
  else do
    let vestingRange := schedule.vestingDuration - schedule.cliffDuration
    let postCliffElapsed := elapsed - schedule.cliffDuration
    let product ← arith (schedule.totalAmount * postCliffElapsed)
    divide product vestingRange

def getClaimable (identifier : Symbol) (b : Vesting) : Except (Abort VestingError) ℤ :=
  match b.schedules.lookup identifier with
  | none => pure 0
  | some schedule => do
    let elapsed := env.sequence - schedule.startLedger
    if elapsed < schedule.cliffDuration then pure 0
    else
      let vested ← vestedAmount schedule elapsed
      let claimable ← arith (vested - schedule.claimedAmount)
      if claimable ≤ 0 then pure 0 else pure claimable

/-- A claim by the account that invokes the call. -/
def claimVested (invoker : Address) (identifier : Symbol) (b : Vesting) :
    Except (Abort VestingError) (ℤ × Vesting) := do
  hostCall (env.requireAuth invoker)
  let schedule ← okOr (b.schedules.lookup identifier) (.error .vestingNotFound)
  failIf (invoker ≠ schedule.beneficiary) (.error .notAdmin)
  let elapsed := env.sequence - schedule.startLedger
  failIf (elapsed < schedule.cliffDuration) (.error .cliffNotReached)
  let claimable ← getClaimable env identifier b
  failIf (claimable ≤ 0) (.error .nothingToClaim)
  let claimedAmount ← arith (schedule.claimedAmount + claimable)
  let token ← okOr b.token (.error .notInitialized)
  let tokens ← hostCall (env.transfer token here schedule.beneficiary claimable b.tokens)
  pure (claimable, { b with
    tokens
    schedules := b.schedules.insert identifier { schedule with claimedAmount } })

end Calls

inductive VestingCall
  | initializeVesting (admin token : Address)
  | createVesting (admin : Address) (identifier : Symbol) (beneficiary : Address)
      (totalAmount : i128.Value) (cliffDuration vestingDuration : UInt32)
  | claimVested (invoker : Address) (identifier : Symbol)

def vestingStep {here : Address} (i : Env here × VestingCall) (b : Vesting) :
    Except (Abort VestingError) Vesting :=
  match i.2 with
  | .initializeVesting admin token => initializeVesting i.1 admin token b
  | .createVesting admin identifier beneficiary totalAmount cliffDuration vestingDuration =>
    createVesting i.1 admin identifier beneficiary totalAmount cliffDuration vestingDuration b
  | .claimVested invoker identifier => Prod.snd <$> claimVested i.1 invoker identifier b

/-! ## What has vested -/

namespace VestingSchedule

/-- The amount that has vested in a ledger. -/
def vestedAt (s : VestingSchedule) (sequence : ℕ) : ℤ :=
  let elapsed := sequence - s.startLedger
  if elapsed < s.cliffDuration then 0
  else if s.vestingDuration ≤ elapsed then s.totalAmount
  else s.totalAmount * (elapsed - s.cliffDuration : ℕ) /
    (s.vestingDuration - s.cliffDuration : ℕ)

/-- Amounts and times of a schedule are in order. -/
structure Valid (s : VestingSchedule) : Prop where
  total_pos : 0 < s.totalAmount
  total_fits : i128.Fits s.totalAmount
  claimed_nonneg : 0 ≤ s.claimedAmount
  claimed_le : s.claimedAmount ≤ s.totalAmount
  cliff_lt : s.cliffDuration < s.vestingDuration

variable {s : VestingSchedule}

theorem Valid.vestedAt_nonneg (h : s.Valid) (sequence : ℕ) : 0 ≤ s.vestedAt sequence := by
  have hpos := h.total_pos
  unfold vestedAt
  dsimp only
  split_ifs
  · exact le_rfl
  · exact hpos.le
  · positivity

theorem Valid.vestedAt_le (h : s.Valid) (sequence : ℕ) : s.vestedAt sequence ≤ s.totalAmount := by
  have hpos := h.total_pos
  unfold vestedAt
  dsimp only
  split_ifs with hcliff hend
  · exact hpos.le
  · exact le_rfl
  · have hrange : (0 : ℤ) < (s.vestingDuration - s.cliffDuration : ℕ) := by
      have := h.cliff_lt
      omega
    refine Int.ediv_le_of_le_mul hrange (mul_le_mul_of_nonneg_left ?_ hpos.le)
    omega

/-- What has vested does not get less. -/
theorem Valid.vestedAt_mono (h : s.Valid) : Monotone s.vestedAt := by
  intro a b hab
  have hle := h.vestedAt_le a
  have hnonneg := h.vestedAt_nonneg b
  unfold vestedAt at hle hnonneg ⊢
  dsimp only at hle hnonneg ⊢
  have helapsed : a - s.startLedger ≤ b - s.startLedger := Nat.sub_le_sub_right hab _
  by_cases hcliff : a - s.startLedger < s.cliffDuration
  · rw [if_pos hcliff]
    exact hnonneg
  by_cases hend : s.vestingDuration ≤ b - s.startLedger
  · rwa [if_neg (by omega : ¬ b - s.startLedger < s.cliffDuration), if_pos hend]
  · rw [if_neg hcliff, if_neg (by omega), if_neg (by omega), if_neg hend]
    refine Int.ediv_le_ediv (by have := h.cliff_lt; omega) ?_
    exact mul_le_mul_of_nonneg_left (by omega) h.total_pos.le

end VestingSchedule

/-! ## Claims -/

/-- A claim that is due: by the beneficiary, for more than was claimed before. -/
structure Due {here : Address} (env : Env here) (invoker : Address) (identifier : Symbol)
    (b : Vesting) (s : VestingSchedule) (token : Address) : Prop where
  found : b.schedules.lookup identifier = some s
  invoker_eq : invoker = s.beneficiary
  auth : env.auth invoker = true
  fits : s.vestingDuration ≤ env.sequence - s.startLedger ∨
    i128.Fits (s.totalAmount * (env.sequence - s.startLedger - s.cliffDuration : ℕ))
  more : s.claimedAmount < s.vestedAt env.sequence
  token_eq : b.token = some token
  accepts : env.accepts b.tokens token here s.beneficiary
    (s.vestedAt env.sequence - s.claimedAmount) = true

/-- The state after a claim of all that has vested. -/
def Vesting.paid (here : Address) (sequence : ℕ) (identifier : Symbol) (s : VestingSchedule)
    (token : Address) (b : Vesting) : Vesting :=
  { b with
    tokens := b.tokens.move token here s.beneficiary (s.vestedAt sequence - s.claimedAmount)
    schedules := b.schedules.insert identifier { s with claimedAmount := s.vestedAt sequence } }

section Claims

variable {here : Address} {env : Env here} {b b' : Vesting} {s : VestingSchedule}
  {identifier : Symbol} {invoker : Address}

theorem VestingSchedule.Valid.vestedAmount_eq_ok (hs : s.Valid) {sequence : ℕ}
    (hcliff : ¬ sequence - s.startLedger < s.cliffDuration) {v : ℤ} :
    vestedAmount s (sequence - s.startLedger) = .ok v ↔
      (s.vestingDuration ≤ sequence - s.startLedger ∨
        i128.Fits (s.totalAmount * (sequence - s.startLedger - s.cliffDuration : ℕ))) ∧
      s.vestedAt sequence = v := by
  rw [vestedAmount, VestingSchedule.vestedAt]
  dsimp only
  rw [if_neg hcliff]
  by_cases hend : s.vestingDuration ≤ sequence - s.startLedger
  · simp [hend]
  · have hpos := hs.total_pos
    have hrange : (0 : ℤ) < (s.vestingDuration - s.cliffDuration : ℕ) := by
      have := hs.cliff_lt
      omega
    have hproduct : 0 ≤ s.totalAmount * (sequence - s.startLedger - s.cliffDuration : ℕ) := by
      positivity
    rw [if_neg hend, if_neg hend, or_iff_right hend]
    simp only [bind_eq_ok, arith_eq_ok]
    rw [← Int.tdiv_eq_ediv_of_nonneg hproduct]
    constructor
    · rintro ⟨_, ⟨hfits, rfl⟩, hdivide⟩
      obtain ⟨_, rfl⟩ := divide_eq_ok hproduct hdivide
      exact ⟨hfits, Int.tdiv_eq_ediv_of_nonneg hproduct⟩
    · rintro ⟨hfits, rfl⟩
      refine ⟨_, ⟨hfits, rfl⟩, ?_⟩
      rw [divide, failIf_of_not hrange.ne', ok_bind, arith_eq_ok]
      exact ⟨hfits.tdiv hrange, rfl⟩

theorem VestingSchedule.Valid.past_cliff (hs : s.Valid) {sequence : ℕ}
    (hmore : s.claimedAmount < s.vestedAt sequence) :
    ¬ sequence - s.startLedger < s.cliffDuration := by
  intro hcliff
  have hnonneg := hs.claimed_nonneg
  simp only [VestingSchedule.vestedAt, if_pos hcliff] at hmore
  omega

/-- From the cliff on a view returns what a claim would pay. -/
theorem getClaimable_eq_ok (hs : s.Valid) (hfound : b.schedules.lookup identifier = some s)
    (hcliff : ¬ env.sequence - s.startLedger < s.cliffDuration) {r : ℤ} :
    getClaimable env identifier b = .ok r ↔
      (s.vestingDuration ≤ env.sequence - s.startLedger ∨
        i128.Fits (s.totalAmount * (env.sequence - s.startLedger - s.cliffDuration : ℕ))) ∧
      r = max 0 (s.vestedAt env.sequence - s.claimedAmount) := by
  have hdifference : i128.Fits (s.vestedAt env.sequence - s.claimedAmount) := by
    have hnonneg := hs.vestedAt_nonneg env.sequence
    have hle := hs.vestedAt_le env.sequence
    have hclaimed := hs.claimed_nonneg
    have htotal := hs.claimed_le
    have hfits := hs.total_fits
    rw [i128, IntRange.signed_fits_iff] at hfits ⊢
    omega
  have hclamp : (if s.vestedAt env.sequence - s.claimedAmount ≤ 0 then
      (pure 0 : Except (Abort VestingError) ℤ)
      else pure (s.vestedAt env.sequence - s.claimedAmount)) =
      .ok (max 0 (s.vestedAt env.sequence - s.claimedAmount)) := by
    split_ifs with hle
    · rw [max_eq_left hle]
      rfl
    · rw [max_eq_right (by omega)]
      rfl
  simp only [getClaimable, hfound, if_neg hcliff, bind_eq_ok, hs.vestedAmount_eq_ok hcliff,
    arith_eq_ok]
  constructor
  · rintro ⟨_, ⟨hfits, rfl⟩, _, ⟨_, rfl⟩, hr⟩
    rw [hclamp] at hr
    exact ⟨hfits, (Except.ok.inj hr).symm⟩
  · rintro ⟨hfits, rfl⟩
    exact ⟨_, ⟨hfits, rfl⟩, _, ⟨hdifference, rfl⟩, hclamp⟩

/-- A claim succeeds exactly when it is due, and it pays all that has vested and was not
claimed before. -/
theorem claimVested_eq_ok (hvalid : ∀ k s, b.schedules.lookup k = some s → s.Valid) {r : ℤ} :
    claimVested env invoker identifier b = .ok (r, b') ↔
      ∃ s token, Due env invoker identifier b s token ∧
        r = s.vestedAt env.sequence - s.claimedAmount ∧
        b' = b.paid here env.sequence identifier s token := by
  simp only [claimVested, bind_eq_ok, hostCall_eq_ok, Env.requireAuth_eq_ok, okOr_eq_ok,
    failIf_eq_ok, arith_eq_ok, Env.transfer_eq_ok, pure_eq_ok, Prod.mk.injEq, not_not]
  constructor
  · rintro ⟨_, hauth, s, hfound, _, rfl, _, hcliff, claimable, hclaimable, _, hpos, claimed,
      ⟨_, rfl⟩, token, htoken, _, ⟨haccepts, rfl⟩, rfl, rfl⟩
    have hs := hvalid _ _ hfound
    obtain ⟨hfits, rfl⟩ := (getClaimable_eq_ok hs hfound hcliff).mp hclaimable
    have hmore : s.claimedAmount < s.vestedAt env.sequence := by omega
    have hmax : max 0 (s.vestedAt env.sequence - s.claimedAmount) =
        s.vestedAt env.sequence - s.claimedAmount := max_eq_right (by omega)
    rw [hmax] at haccepts ⊢
    refine ⟨s, token, ⟨hfound, rfl, hauth, hfits, hmore, htoken, haccepts⟩, rfl, ?_⟩
    rw [Vesting.paid, add_sub_cancel]
  · rintro ⟨s, token, due, rfl, rfl⟩
    have hs := hvalid _ _ due.found
    have hcliff := hs.past_cliff due.more
    have hmax : max 0 (s.vestedAt env.sequence - s.claimedAmount) =
        s.vestedAt env.sequence - s.claimedAmount := max_eq_right (by have := due.more; omega)
    have hsum : s.claimedAmount + (s.vestedAt env.sequence - s.claimedAmount) =
        s.vestedAt env.sequence := add_sub_cancel _ _
    refine ⟨(), due.auth, s, due.found, (), due.invoker_eq, (), hcliff, _,
      (getClaimable_eq_ok hs due.found hcliff).mpr ⟨due.fits, rfl⟩, (), ?_, _, ⟨?_, rfl⟩, token,
      due.token_eq, _, ⟨?_, rfl⟩, hmax, ?_⟩
    · have := due.more
      omega
    · rw [hmax, hsum]
      exact hs.total_fits.of_abs_le (hs.vestedAt_nonneg _) (hs.vestedAt_le _)
    · rw [hmax]
      exact due.accepts
    · rw [hmax, hsum]
      rfl

end Claims

/-! ## Runs -/

/-- The part of a schedule that was not claimed yet. -/
def VestingSchedule.remaining (s : VestingSchedule) : ℤ := s.totalAmount - s.claimedAmount

/-- What the schedules are owed, all in the one token of the contract. -/
def Vesting.debt (b : Vesting) (token tok : Address) : ℤ :=
  owed (fun _ => token) VestingSchedule.remaining b.schedules tok

/-- Schedules are in order, and the contract holds what it had at first and what is owed. -/
structure Funded (here : Address) (start : Tokens) (b : Vesting) : Prop where
  valid : ∀ k s, b.schedules.lookup k = some s → s.Valid
  set_iff : b.admin.isSome = b.token.isSome
  unset : b.token = none → b.schedules = ∅ ∧ b.tokens = start
  backed : ∀ token, b.token = some token → ∀ tok,
    b.tokens tok here = start tok here + b.debt token tok

section Runs

variable {here : Address} {start : Tokens} {b b' : Vesting}

theorem Funded.fresh (start : Tokens) : Funded here start (.fresh start) where
  valid := nofun
  set_iff := rfl
  unset _ := ⟨rfl, rfl⟩
  backed := nofun

theorem Funded.initializeVesting (h : Funded here start b) {env : Env here} {admin token : Address}
    (hcall : initializeVesting env admin token b = .ok b') : Funded here start b' := by
  simp only [Settlement.initializeVesting, bind_eq_ok, failIf_eq_ok, hostCall_eq_ok,
    Env.requireAuth_eq_ok, pure_eq_ok] at hcall
  obtain ⟨_, hadmin, _, _, rfl⟩ := hcall
  have hnone : b.token = none := by
    rw [← Option.not_isSome_iff_eq_none, ← h.set_iff]
    exact hadmin
  obtain ⟨hempty, hsame⟩ := h.unset hnone
  refine ⟨h.valid, rfl, fun hset => ?_, fun token' _ tok => ?_⟩
  · simp at hset
  · rw [Vesting.debt, hempty, hsame, owed_empty, add_zero]

theorem Funded.createVesting (h : Funded here start b) {env : Env here}
    {admin beneficiary : Address} {identifier : Symbol} {totalAmount : i128.Value}
    {cliffDuration vestingDuration : UInt32}
    (hcall : createVesting env admin identifier beneficiary totalAmount cliffDuration
      vestingDuration b = .ok b') : Funded here start b' := by
  simp only [Settlement.createVesting, bind_eq_ok, failIf_eq_ok, hostCall_eq_ok, okOr_eq_ok,
    Env.requireAuth_eq_ok, Env.transfer_eq_ok, pure_eq_ok, not_le] at hcall
  obtain ⟨_, _, _, _, _, hauth, _, hpos, _, hcliff, _, hnew, token, htoken, _, ⟨_, rfl⟩, rfl⟩ :=
    hcall
  have hne := Env.ne_here_of_auth hauth
  refine ⟨fun k s hfound => ?_, h.set_iff, fun hnone => ?_, fun token' htoken' tok => ?_⟩
  · rcases Store.lookup_insert_eq_some.mp hfound with ⟨_, rfl⟩ | ⟨_, hold⟩
    · exact ⟨hpos, totalAmount.2, le_rfl, hpos.le, UInt32.not_le.mp hcliff⟩
    · exact h.valid k s hold
  · exact absurd (htoken.symm.trans hnone) (by simp)
  · obtain rfl : token = token' := Option.some.inj (htoken.symm.trans htoken')
    have hdebt := h.backed token htoken tok
    rw [Vesting.debt] at hdebt ⊢
    dsimp only
    rw [owed_insert_of_none _ (by simpa using hnew), Tokens.move_apply_dst _ _ _ hne.symm, hdebt]
    simp only [VestingSchedule.remaining, sub_zero, eq_comm (a := tok), add_assoc]

theorem Funded.claimVested (h : Funded here start b) {env : Env here} {invoker : Address}
    {identifier : Symbol} {r : ℤ}
    (hcall : claimVested env invoker identifier b = .ok (r, b')) : Funded here start b' := by
  obtain ⟨s, token, due, rfl, rfl⟩ := (claimVested_eq_ok h.valid).mp hcall
  have hs := h.valid _ _ due.found
  have hne := Env.ne_here_of_auth due.auth
  refine ⟨fun k s' hfound => ?_, h.set_iff, fun hnone => ?_, fun token' htoken' tok => ?_⟩
  · rcases Store.lookup_insert_eq_some.mp hfound with ⟨_, rfl⟩ | ⟨_, hold⟩
    · exact ⟨hs.total_pos, hs.total_fits, hs.vestedAt_nonneg _, hs.vestedAt_le _, hs.cliff_lt⟩
    · exact h.valid k s' hold
  · exact absurd (due.token_eq.symm.trans hnone) (by simp)
  · obtain rfl : token = token' := Option.some.inj (due.token_eq.symm.trans htoken')
    have hdebt := h.backed token due.token_eq tok
    rw [Vesting.debt] at hdebt ⊢
    simp only [Vesting.paid]
    rw [owed_insert_of_lookup { s with claimedAmount := s.vestedAt env.sequence } due.found rfl,
      Tokens.move_apply_src _ _ _ (due.invoker_eq ▸ hne.symm), hdebt]
    simp only [VestingSchedule.remaining, eq_comm (a := tok)]
    split_ifs <;> omega

theorem Funded.vestingStep (h : Funded here start b) {i : Env here × VestingCall}
    (hstep : vestingStep i b = .ok b') : Funded here start b' := by
  obtain ⟨env, call⟩ := i
  cases call with
  | initializeVesting admin token => exact h.initializeVesting hstep
  | createVesting admin identifier beneficiary totalAmount cliffDuration vestingDuration =>
    exact h.createVesting hstep
  | claimVested invoker identifier =>
    obtain ⟨r, hcall⟩ := snd_map_eq_ok.mp hstep
    exact h.claimVested hcall

end Runs

/-- In every run the contract holds, besides what it had at first, exactly what the schedules
did not claim yet, and no schedule claims more than its amount. A claim succeeds exactly when
it is due; it leaves what has vested as claimed, whatever was claimed before. -/
theorem vesting_solvent {here : Address} (start : Tokens) (run : List (Env here × VestingCall)) :
    Throughout vestingStep (fun b =>
      (∀ k s, b.schedules.lookup k = some s →
        0 ≤ s.claimedAmount ∧ s.claimedAmount ≤ s.totalAmount) ∧
      ∀ token, b.token = some token → ∀ tok,
        b.tokens tok here = start tok here + b.debt token tok) (.fresh start) run ∧
    Along vestingStep (fun b i => ∀ invoker identifier r b',
      claimVested i.1 invoker identifier b = .ok (r, b') ↔
        ∃ s token, Due i.1 invoker identifier b s token ∧
          r = s.vestedAt i.1.sequence - s.claimedAmount ∧
          b' = b.paid here i.1.sequence identifier s token) (.fresh start) run := by
  have hstep : ∀ b (i : Env here × VestingCall) b', Funded here start b →
      vestingStep i b = .ok b' → Funded here start b' := fun b i b' h => h.vestingStep
  constructor
  · refine throughout_of_invariant hstep (fun b h => ⟨fun k s hfound => ?_, h.backed⟩)
      (Funded.fresh start) run
    exact ⟨(h.valid k s hfound).claimed_nonneg, (h.valid k s hfound).claimed_le⟩
  · exact along_of_invariant hstep (fun b i h _ _ _ _ => claimVested_eq_ok h.valid)
      (Funded.fresh start) run

end StellarFlow.Settlement
