import StellarFlow.Host

/-!
# Hash time-locked contracts

A depositor locks an amount behind a hash until a deadline. Before the deadline the
beneficiary takes it by presenting a pre-image of the hash, or, as the anchor of a fiat
corridor, by attesting that it has paid out. From the deadline on the depositor takes it
back.
-/
namespace StellarFlow.Settlement

open Foundation

def maxActiveHtlcs : ℕ := 64
/-- The nearest and the farthest deadline, in ledgers from now. -/
def minDeadlineOffset : ℕ := 10
def maxDeadlineOffset : ℕ := 6307200

abbrev PreImage := List UInt8
abbrev HashLock := Vector UInt8 32

inductive HtlcState
  | active
  | claimed
  | refunded
  | pending
  | locked
  | dispatched
  | settled
  deriving DecidableEq, Repr

structure Htlc where
  id : ℕ
  depositor : Address
  beneficiary : Address
  hashLock : HashLock
  deadlineSequence : ℕ
  asset : AssetId
  amount : ℕ
  state : HtlcState
  deriving DecidableEq

structure ClaimResult where
  htlcId : ℕ
  amount : ℕ
  beneficiary : Address

structure RefundResult where
  htlcId : ℕ
  amount : ℕ
  depositor : Address

structure HtlcBook where
  nonce : ℕ
  htlcs : Store ℕ Htlc
  counters : Store Address ℕ

namespace HtlcBook

def empty : HtlcBook := ⟨0, ∅, ∅⟩

def getHtlc (id : ℕ) (b : HtlcBook) : Except Fault Htlc :=
  okOr (b.htlcs.lookup id) (Fault.error .htlcNotFound)

def activeHtlcCount (depositor : Address) (b : HtlcBook) : ℕ := (b.counters.lookup depositor).getD 0

/-- Write the record back in its new state and release the place of its depositor, who counts
as having one without an entry. -/
def close (id : ℕ) (htlc : Htlc) (state : HtlcState) (b : HtlcBook) : HtlcBook :=
  let count := (b.counters.lookup htlc.depositor).getD 1
  { b with
    htlcs := b.htlcs.insert id { htlc with state }
    counters := if 0 < count then b.counters.insert htlc.depositor (count - 1) else b.counters }

end HtlcBook

section Calls

variable {here : Address} (env : Env here)

def createHtlc (depositor beneficiary : Address) (hashLock : HashLock) (deadlineSequence : ℕ)
    (asset : AssetId) (amount : ℕ) (b : HtlcBook) : Except Fault (Htlc × HtlcBook) := do
  env.requireAuth depositor
  failIf (amount = 0) (Fault.error .zeroSwapAmount)
  let earliest ← okOr (checkBits 32 (env.sequence + minDeadlineOffset)) Fault.trap
  failIf (deadlineSequence ≤ earliest) (Fault.error .deadlineTooSoon)
  let latest ← okOr (checkBits 32 (env.sequence + maxDeadlineOffset)) Fault.trap
  failIf (latest < deadlineSequence) (Fault.error .deadlineTooFar)
  let id ← okOr (checkBits 64 (b.nonce + 1)) (Fault.error .overflow)
  let htlc : Htlc :=
    { id, depositor, beneficiary, hashLock, deadlineSequence, asset, amount, state := .active }
  let count := b.activeHtlcCount depositor
  failIf (maxActiveHtlcs ≤ count) (Fault.error .tooManyActiveHtlcs)
  pure (htlc, {
    nonce := id
    htlcs := b.htlcs.insert id htlc
    counters := b.counters.insert depositor (count + 1) })

def claim (sha256 : PreImage → HashLock) (htlcId : ℕ) (preImage : PreImage) (caller : Address)
    (b : HtlcBook) : Except Fault (ClaimResult × HtlcBook) := do
  env.requireAuth caller
  let htlc ← b.getHtlc htlcId
  failIf (htlc.beneficiary ≠ caller) (Fault.error .unauthorized)
  failIf (htlc.state ≠ .active) (Fault.error .htlcNotActive)
  failIf (htlc.deadlineSequence ≤ env.sequence) (Fault.error .deadlineReached)
  failIf (sha256 preImage ≠ htlc.hashLock) (Fault.error .invalidPreImage)
  pure (⟨htlcId, htlc.amount, htlc.beneficiary⟩, b.close htlcId htlc .claimed)

/-- The beneficiary attests the payout instead of presenting a pre-image. -/
def anchorSettle (htlcId : ℕ) (caller : Address) (b : HtlcBook) :
    Except Fault (ClaimResult × HtlcBook) := do
  env.requireAuth caller
  let htlc ← b.getHtlc htlcId
  failIf (htlc.beneficiary ≠ caller) (Fault.error .unauthorized)
  failIf (htlc.state ≠ .active ∧ htlc.state ≠ .locked) (Fault.error .htlcNotActive)
  failIf (htlc.deadlineSequence ≤ env.sequence) (Fault.error .deadlineReached)
  pure (⟨htlcId, htlc.amount, htlc.beneficiary⟩, b.close htlcId htlc .settled)

def refund (htlcId : ℕ) (caller : Address) (b : HtlcBook) :
    Except Fault (RefundResult × HtlcBook) := do
  env.requireAuth caller
  let htlc ← b.getHtlc htlcId
  failIf (htlc.depositor ≠ caller) (Fault.error .unauthorized)
  failIf (htlc.state ≠ .active) (Fault.error .htlcNotActive)
  failIf (env.sequence < htlc.deadlineSequence) (Fault.error .deadlineNotReached)
  pure (⟨htlcId, htlc.amount, htlc.depositor⟩, b.close htlcId htlc .refunded)

end Calls

inductive HtlcCall
  | createHtlc (depositor beneficiary : Address) (hashLock : HashLock) (deadlineSequence : ℕ)
      (asset : AssetId) (amount : ℕ)
  | claim (htlcId : ℕ) (preImage : PreImage) (caller : Address)
  | anchorSettle (htlcId : ℕ) (caller : Address)
  | refund (htlcId : ℕ) (caller : Address)

/-- A call together with the environment it runs in. -/
abbrev HtlcStep (here : Address) := Env here × HtlcCall

def htlcStep (sha256 : PreImage → HashLock) {here : Address} (i : HtlcStep here) (b : HtlcBook) :
    Except Fault HtlcBook :=
  match i.2 with
  | .createHtlc depositor beneficiary hashLock deadlineSequence asset amount =>
    Prod.snd <$> createHtlc i.1 depositor beneficiary hashLock deadlineSequence asset amount b
  | .claim htlcId preImage caller => Prod.snd <$> claim i.1 sha256 htlcId preImage caller b
  | .anchorSettle htlcId caller => Prod.snd <$> anchorSettle i.1 htlcId caller b
  | .refund htlcId caller => Prod.snd <$> refund i.1 htlcId caller b

/-! ## How a contract ends -/

/-- The ways out of the active state: by the beneficiary before the deadline, with a pre-image
or as the anchor, and by the depositor from the deadline on. -/
inductive Exits (sha256 : PreImage → HashLock) {here : Address} (htlc : Htlc) (id : ℕ) :
    HtlcStep here → HtlcState → Prop
  | claim {env : Env here} {preImage : PreImage} (auth : env.auth htlc.beneficiary = true)
    (before : env.sequence < htlc.deadlineSequence) (unlocks : sha256 preImage = htlc.hashLock) :
    Exits sha256 htlc id (env, .claim id preImage htlc.beneficiary) .claimed
  | anchorSettle {env : Env here} (auth : env.auth htlc.beneficiary = true)
    (before : env.sequence < htlc.deadlineSequence) :
    Exits sha256 htlc id (env, .anchorSettle id htlc.beneficiary) .settled
  | refund {env : Env here} (auth : env.auth htlc.depositor = true)
    (expired : htlc.deadlineSequence ≤ env.sequence) :
    Exits sha256 htlc id (env, .refund id htlc.depositor) .refunded

/-- A call creates an active record under a new identifier, or it takes one record out of the
active state by one of the exits. -/
inductive Turns (sha256 : PreImage → HashLock) {here : Address} (i : HtlcStep here)
    (b b' : HtlcBook) : Prop
  | create (htlc : Htlc) (active : htlc.state = .active) (nonce_eq : b'.nonce = b.nonce + 1)
    (stored : b'.htlcs = b.htlcs.insert (b.nonce + 1) htlc)
  | exit (id : ℕ) (htlc : Htlc) (state : HtlcState) (found : b.htlcs.lookup id = some htlc)
    (active : htlc.state = .active) (exits : Exits sha256 htlc id i state)
    (nonce_eq : b'.nonce = b.nonce) (stored : b'.htlcs = b.htlcs.insert id { htlc with state })

/-- Identifiers beyond the counter are unused, and no record waits for an anchor. -/
structure HtlcBook.Sound (b : HtlcBook) : Prop where
  fresh : ∀ id, b.nonce < id → b.htlcs.lookup id = none
  not_locked : ∀ id htlc, b.htlcs.lookup id = some htlc → htlc.state ≠ .locked

section Exits

variable {sha256 : PreImage → HashLock} {here : Address} {i : HtlcStep here} {b b' : HtlcBook}

theorem createHtlc_turns {env : Env here} {depositor beneficiary : Address} {hashLock : HashLock}
    {deadlineSequence amount : ℕ} {asset : AssetId} {r : Htlc}
    (h : createHtlc env depositor beneficiary hashLock deadlineSequence asset amount b =
      .ok (r, b')) :
    Turns sha256 (env, .createHtlc depositor beneficiary hashLock deadlineSequence asset amount)
      b b' := by
  simp only [createHtlc, bind_eq_ok, okOr_eq_ok, checkBits_eq_some, pure_eq_ok, Prod.mk.injEq] at h
  obtain ⟨_, _, _, _, _, _, _, _, _, _, _, _, _, ⟨_, rfl⟩, _, _, rfl, rfl⟩ := h
  exact .create _ rfl rfl rfl

theorem claim_turns {env : Env here} {htlcId : ℕ} {preImage : PreImage} {caller : Address}
    {r : ClaimResult} (h : claim env sha256 htlcId preImage caller b = .ok (r, b')) :
    Turns sha256 (env, .claim htlcId preImage caller) b b' := by
  simp only [claim, HtlcBook.getHtlc, bind_eq_ok, okOr_eq_ok, failIf_eq_ok, Env.requireAuth_eq_ok,
    pure_eq_ok, Prod.mk.injEq, not_not, not_le] at h
  obtain ⟨_, hauth, htlc, hfound, _, rfl, _, hactive, _, hbefore, _, hunlocks, _, rfl⟩ := h
  exact .exit htlcId htlc .claimed hfound hactive (.claim hauth hbefore hunlocks) rfl rfl

/-- No record is ever locked, so that an anchor settles active ones only. -/
theorem anchorSettle_turns {env : Env here} {htlcId : ℕ} {caller : Address} {r : ClaimResult}
    (hb : b.Sound) (h : anchorSettle env htlcId caller b = .ok (r, b')) :
    Turns sha256 (env, .anchorSettle htlcId caller) b b' := by
  simp only [anchorSettle, HtlcBook.getHtlc, bind_eq_ok, okOr_eq_ok, failIf_eq_ok,
    Env.requireAuth_eq_ok, pure_eq_ok, Prod.mk.injEq, not_not, not_le, not_and] at h
  obtain ⟨_, hauth, htlc, hfound, _, rfl, _, hstate, _, hbefore, _, rfl⟩ := h
  have hactive : htlc.state = .active := by
    by_contra hne
    exact hb.not_locked htlcId htlc hfound (hstate hne)
  exact .exit htlcId htlc .settled hfound hactive (.anchorSettle hauth hbefore) rfl rfl

theorem refund_turns {env : Env here} {htlcId : ℕ} {caller : Address} {r : RefundResult}
    (h : refund env htlcId caller b = .ok (r, b')) :
    Turns sha256 (env, .refund htlcId caller) b b' := by
  simp only [refund, HtlcBook.getHtlc, bind_eq_ok, okOr_eq_ok, failIf_eq_ok, Env.requireAuth_eq_ok,
    pure_eq_ok, Prod.mk.injEq, not_not, not_lt] at h
  obtain ⟨_, hauth, htlc, hfound, _, rfl, _, hactive, _, hexpired, _, rfl⟩ := h
  exact .exit htlcId htlc .refunded hfound hactive (.refund hauth hexpired) rfl rfl

theorem htlcStep_turns (hb : b.Sound) (h : htlcStep sha256 i b = .ok b') : Turns sha256 i b b' := by
  obtain ⟨env, call⟩ := i
  cases call with
  | createHtlc depositor beneficiary hashLock deadlineSequence asset amount =>
    obtain ⟨r, h⟩ := snd_map_eq_ok.mp h
    exact createHtlc_turns h
  | claim htlcId preImage caller =>
    obtain ⟨r, h⟩ := snd_map_eq_ok.mp h
    exact claim_turns h
  | anchorSettle htlcId caller =>
    obtain ⟨r, h⟩ := snd_map_eq_ok.mp h
    exact anchorSettle_turns hb h
  | refund htlcId caller =>
    obtain ⟨r, h⟩ := snd_map_eq_ok.mp h
    exact refund_turns h

theorem HtlcBook.Sound.empty : HtlcBook.empty.Sound where
  fresh _ _ := rfl
  not_locked _ _ hfound := by simp [HtlcBook.empty] at hfound

theorem Turns.sound (ht : Turns sha256 i b b') (hb : b.Sound) : b'.Sound := by
  cases ht with
  | create htlc active nonce_eq stored =>
    refine ⟨fun id hid => ?_, fun id other hfound => ?_⟩
    · rw [stored, Store.lookup_insert_ite, if_neg (by omega)]
      exact hb.fresh id (by omega)
    · rw [stored] at hfound
      rcases Store.lookup_insert_eq_some.mp hfound with ⟨_, rfl⟩ | ⟨_, hfound⟩
      · simp [active]
      · exact hb.not_locked id other hfound
  | exit id htlc state found active exits nonce_eq stored =>
    refine ⟨fun other hother => ?_, fun other record hfound => ?_⟩
    · have hne : other ≠ id := by
        rintro rfl
        have hnone := hb.fresh other (by omega)
        simp [found] at hnone
      rw [stored, Store.lookup_insert_ite, if_neg hne]
      exact hb.fresh other (by omega)
    · rw [stored] at hfound
      rcases Store.lookup_insert_eq_some.mp hfound with ⟨_, rfl⟩ | ⟨_, hfound⟩
      · cases exits <;> simp
      · exact hb.not_locked other record hfound

theorem htlcStep_sound (hb : b.Sound) (h : htlcStep sha256 i b = .ok b') : b'.Sound :=
  (htlcStep_turns hb h).sound hb

end Exits

/-! ## Runs -/

/-- A record stays as it is, or it was active and takes one of the exits. -/
def LeavesByExit (sha256 : PreImage → HashLock) {here : Address} (b : HtlcBook)
    (i : HtlcStep here) : Prop :=
  ∀ id htlc, b.htlcs.lookup id = some htlc →
    (commit (htlcStep sha256) b i).htlcs.lookup id = some htlc ∨
    htlc.state = .active ∧ ∃ state, Exits sha256 htlc id i state ∧
      (commit (htlcStep sha256) b i).htlcs.lookup id = some { htlc with state }

/-- An accepted refund finds an active record of its caller at or after the deadline. -/
def RefundsExpired (sha256 : PreImage → HashLock) {here : Address} (b : HtlcBook)
    (i : HtlcStep here) : Prop :=
  ∀ id caller, i.2 = .refund id caller → (∃ b', htlcStep sha256 i b = .ok b') →
    ∃ htlc, b.htlcs.lookup id = some htlc ∧ htlc.state = .active ∧ htlc.depositor = caller ∧
      i.1.auth caller = true ∧ htlc.deadlineSequence ≤ i.1.sequence

/-- A record that is not active any more is the same at the end of the rest of the run. -/
def Final (sha256 : PreImage → HashLock) {here : Address} (b : HtlcBook)
    (rest : List (HtlcStep here)) : Prop :=
  ∀ id htlc, b.htlcs.lookup id = some htlc → htlc.state ≠ .active →
    (runAll (htlcStep sha256) b rest).htlcs.lookup id = some htlc

/-- Only a call before the deadline that presents a pre-image releases to the beneficiary. -/
def ReleasesByPreImage (sha256 : PreImage → HashLock) {here : Address} (b : HtlcBook)
    (i : HtlcStep here) : Prop :=
  ∀ id htlc released, b.htlcs.lookup id = some htlc → htlc.state = .active →
    (commit (htlcStep sha256) b i).htlcs.lookup id = some released →
    released.state = .claimed ∨ released.state = .settled →
    i.1.sequence < htlc.deadlineSequence ∧
      ∃ preImage caller, i.2 = .claim id preImage caller ∧ sha256 preImage = htlc.hashLock

section Runs

variable {sha256 : PreImage → HashLock} {here : Address} {i : HtlcStep here} {b b' : HtlcBook}

theorem Turns.lookup (ht : Turns sha256 i b b') (hb : b.Sound) {id : ℕ} {htlc : Htlc}
    (hfound : b.htlcs.lookup id = some htlc) :
    b'.htlcs.lookup id = some htlc ∨
      htlc.state = .active ∧ ∃ state, Exits sha256 htlc id i state ∧
        b'.htlcs.lookup id = some { htlc with state } := by
  cases ht with
  | create new active nonce_eq stored =>
    have hne : id ≠ b.nonce + 1 := by
      rintro rfl
      have hnone := hb.fresh (b.nonce + 1) (by omega)
      simp [hfound] at hnone
    left
    rw [stored, Store.lookup_insert_ite, if_neg hne]
    exact hfound
  | exit id' htlc' state found active exits nonce_eq stored =>
    by_cases hid : id = id'
    · subst hid
      obtain rfl := Option.some.inj (hfound.symm.trans found)
      exact .inr ⟨active, state, exits, by simp [stored]⟩
    · left
      rw [stored, Store.lookup_insert_ite, if_neg hid]
      exact hfound

theorem HtlcBook.Sound.leavesByExit (hb : b.Sound) (i : HtlcStep here) :
    LeavesByExit sha256 b i := by
  intro id htlc hfound
  cases h : htlcStep sha256 i b with
  | error e =>
    rw [commit_of_error h]
    exact .inl hfound
  | ok b' =>
    rw [commit_of_ok h]
    exact (htlcStep_turns hb h).lookup hb hfound

theorem refund_expired (b : HtlcBook) (i : HtlcStep here) : RefundsExpired sha256 b i := by
  rintro id caller hcall ⟨b', h⟩
  obtain ⟨env, call⟩ := i
  subst hcall
  obtain ⟨r, h⟩ := snd_map_eq_ok.mp h
  simp only [refund, HtlcBook.getHtlc, bind_eq_ok, okOr_eq_ok, failIf_eq_ok, Env.requireAuth_eq_ok,
    not_not, not_lt] at h
  obtain ⟨_, hauth, htlc, hfound, _, hdep, _, hactive, _, hexpired, _⟩ := h
  exact ⟨htlc, hfound, hactive, hdep, hauth, hexpired⟩

/-- What is not active is final. -/
theorem HtlcBook.Sound.final (hb : b.Sound) (rest : List (HtlcStep here)) :
    Final sha256 b rest := by
  intro id htlc hfound hstate
  have hrun : (runAll (htlcStep sha256) b rest).Sound ∧
      (runAll (htlcStep sha256) b rest).htlcs.lookup id = some htlc := by
    refine runAll_induction (P := fun b : HtlcBook => b.Sound ∧ b.htlcs.lookup id = some htlc) ?_
      ⟨hb, hfound⟩ rest
    rintro b₁ i b₂ ⟨hb₁, hfound₁⟩ h
    refine ⟨htlcStep_sound hb₁ h, ?_⟩
    rcases (htlcStep_turns hb₁ h).lookup hb₁ hfound₁ with hsame | ⟨hactive, _⟩
    · exact hsame
    · exact absurd hactive hstate
  exact hrun.2

/-- In every run each contract leaves the active state at most once, by an exit of its own
party on its side of the deadline, and is final afterwards. -/
theorem htlc_exits (sha256 : PreImage → HashLock) (run : List (HtlcStep here)) :
    Along (htlcStep sha256) (fun b i => LeavesByExit sha256 b i ∧ RefundsExpired sha256 b i)
        .empty run ∧
      ∀ pre rest, run = pre ++ rest → Final sha256 (runAll (htlcStep sha256) .empty pre) rest := by
  refine ⟨along_of_invariant (I := HtlcBook.Sound) (fun _ _ _ hb h => htlcStep_sound hb h)
    (fun b i hb => ⟨hb.leavesByExit i, refund_expired b i⟩) .empty run, fun pre rest _ => ?_⟩
  exact (runAll_induction (fun _ _ _ hb h => htlcStep_sound hb h) .empty pre).final rest

/-- A hash function for a run that presents no pre-image. -/
def zeroHash : PreImage → HashLock := fun _ => Vector.replicate 32 0

/-- A lock that no pre-image opens. -/
def closedLock : HashLock := Vector.replicate 32 7

/-- The depositor locks an amount behind it, and the anchor settles. -/
def anchorSettledRun : List (HtlcStep ⟨0⟩) :=
  [(.standard ⟨0⟩ 100 none, .createHtlc ⟨1⟩ ⟨2⟩ closedLock 200 1 10000000),
   (.standard ⟨0⟩ 150 none, .anchorSettle 1 ⟨2⟩)]

theorem anchorSettled_without_preImage :
    (∀ preImage, zeroHash preImage ≠ closedLock) ∧
    (runAll (htlcStep zeroHash) .empty anchorSettledRun).htlcs.lookup 1 =
      some ⟨1, ⟨1⟩, ⟨2⟩, closedLock, 200, 1, 10000000, .settled⟩ ∧
    ¬ Along (htlcStep zeroHash) (ReleasesByPreImage zeroHash) .empty anchorSettledRun := by
  have hcreated : (runAll (htlcStep zeroHash) .empty (anchorSettledRun.take 1)).htlcs.lookup 1 =
      some ⟨1, ⟨1⟩, ⟨2⟩, closedLock, 200, 1, 10000000, .active⟩ := by
    decide +kernel
  have hsettled : (runAll (htlcStep zeroHash) .empty anchorSettledRun).htlcs.lookup 1 =
      some ⟨1, ⟨1⟩, ⟨2⟩, closedLock, 200, 1, 10000000, .settled⟩ := by
    decide +kernel
  have hne : (Vector.replicate 32 0 : HashLock) ≠ closedLock := by decide +kernel
  refine ⟨fun _ => hne, hsettled, ?_⟩
  rintro ⟨_, hrelease, _⟩
  obtain ⟨_, _, _, hclaim, _⟩ := hrelease 1 _ _ hcreated rfl hsettled (.inr rfl)
  cases hclaim

end Runs

end StellarFlow.Settlement
