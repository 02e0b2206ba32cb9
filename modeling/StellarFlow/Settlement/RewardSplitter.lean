import StellarFlow.Foundation.Shares
import StellarFlow.Host

/-!
# Splitting a reward among recipients

An admin keeps a list of recipients with shares in basis points, next to the sum of the
shares. Anybody may split an amount of the contract's tokens by that list. An address may
stand in the list more than once: adding appends, removing takes every entry of the address
out, and updating gives every entry the new share but replaces only the first old share in
the sum.
-/
namespace StellarFlow.RewardSplitter

open Foundation

/-- Basis points of the whole. -/
def maxShares : ℕ := 10000

inductive SplitterError
  | alreadyInitialized
  | unauthorized
  | invalidShare
  | totalSharesExceeded
  | noRecipients
  | insufficientBalance
  | zeroAmount
  | tokenNotSet
  deriving DecidableEq, Repr

abbrev Fail := Abort SplitterError

structure Recipient where
  address : Address
  share : ℕ
  deriving DecidableEq, Repr

/-- Instance storage of the contract, where an absent list is empty and an absent sum zero,
and the balances of the tokens. -/
structure Splitter where
  admin : Option Address
  token : Option Address
  defaultAdmin : Option Address
  defaultToken : Option Address
  initialized : Bool
  recipients : List Recipient
  totalShares : ℕ
  tokens : Tokens

def Splitter.fresh (tokens : Tokens) : Splitter :=
  ⟨none, none, none, none, false, [], 0, tokens⟩

section Calls

variable {here : Address} (env : Env here)

def initializeSplitter (admin token : Address) (s : Splitter) : Except Fail Splitter := do
  failIf (s.initialized = true) (.error .alreadyInitialized)
  pure { s with
    defaultAdmin := some admin, defaultToken := some token, admin := some admin
    token := some token, recipients := [], totalShares := 0, initialized := true }

def requireAdmin (admin : Address) (s : Splitter) : Except Fail Unit := do
  hostCall (env.requireAuth admin)
  let storedAdmin ← okOr s.admin .trap
  failIf (storedAdmin ≠ admin) (.error .unauthorized)

def addRecipient (admin recipient : Address) (share : ℕ) (s : Splitter) :
    Except Fail Splitter := do
  requireAdmin env admin s
  failIf (share = 0 ∨ maxShares < share) (.error .invalidShare)
  let totalShares ← okOr (checkBits 32 (s.totalShares + share)) .trap
  failIf (maxShares < totalShares) (.error .totalSharesExceeded)
  pure { s with recipients := s.recipients ++ [⟨recipient, share⟩], totalShares }

/-- Take the share of every entry of the recipient off the sum. -/
def deduct (recipient : Address) : List Recipient → ℕ → Option ℕ
  | [], totalShares => some totalShares
  | r :: rest, totalShares =>
    if r.address = recipient then (checkedSub totalShares r.share).bind (deduct recipient rest)
    else deduct recipient rest totalShares

def removeRecipient (admin recipient : Address) (s : Splitter) : Except Fail Splitter := do
  requireAdmin env admin s
  let totalShares ← okOr (deduct recipient s.recipients s.totalShares) .trap
  if s.recipients.any (·.address = recipient) then
    pure { s with
      recipients := s.recipients.filter (·.address ≠ recipient)
      totalShares }
  else pure s

/-- The share that an update takes off the sum: that of the first entry. -/
def oldShare (recipient : Address) (recipients : List Recipient) : Option ℕ :=
  (recipients.find? (·.address = recipient)).map (·.share)

def replaceShare (recipient : Address) (newShare : ℕ) (r : Recipient) : Recipient :=
  if r.address = recipient then ⟨recipient, newShare⟩ else r

def updateRecipientShare (admin recipient : Address) (newShare : ℕ) (s : Splitter) :
    Except Fail Splitter := do
  requireAdmin env admin s
  failIf (newShare = 0 ∨ maxShares < newShare) (.error .invalidShare)
  match oldShare recipient s.recipients with
  | none => pure s
  | some old =>
    let reduced ← okOr (checkedSub s.totalShares old) .trap
    let newTotal ← okOr (checkBits 32 (reduced + newShare)) .trap
    failIf (maxShares < newTotal) (.error .totalSharesExceeded)
    pure { s with
      recipients := s.recipients.map (replaceShare recipient newShare)
      totalShares := newTotal }

/-- Pay every entry in turn, leaving out payments of nothing. -/
def payRecipients (token : Address) (amount : ℤ) (totalShares : ℕ) :
    List Recipient → Tokens → Except Fail Tokens
  | [], t => pure t
  | r :: rest, t => do
    let product ← arith (amount * r.share)
    let shareAmount ← divide product totalShares
    let paid : Except Fail Tokens :=
      if 0 < shareAmount then hostCall (env.transfer token here r.address shareAmount t)
      else pure t
    payRecipients token amount totalShares rest (← paid)

def distribute (amount : i128.Value) (s : Splitter) : Except Fail Splitter := do
  failIf (amount.1 ≤ 0) (.error .zeroAmount)
  let token ← okOr s.token (.error .tokenNotSet)
  failIf (s.recipients = []) (.error .noRecipients)
  failIf (s.totalShares = 0) (.error .noRecipients)
  failIf (s.tokens token here < amount.1) (.error .insufficientBalance)
  let tokens ← payRecipients env token amount.1 s.totalShares s.recipients s.tokens
  pure { s with tokens }

def transferAdmin (currentAdmin newAdmin : Address) (s : Splitter) : Except Fail Splitter := do
  requireAdmin env currentAdmin s
  pure { s with admin := some newAdmin }

def updateToken (admin newToken : Address) (s : Splitter) : Except Fail Splitter := do
  requireAdmin env admin s
  pure { s with token := some newToken }

def resetParameters (admin : Address) (s : Splitter) : Except Fail Splitter := do
  requireAdmin env admin s
  let defaultAdmin ← okOr s.defaultAdmin .trap
  let defaultToken ← okOr s.defaultToken .trap
  pure { s with
    admin := some defaultAdmin, token := some defaultToken, recipients := [], totalShares := 0 }

end Calls

inductive SplitterCall
  | initializeSplitter (admin token : Address)
  | addRecipient (admin recipient : Address) (share : ℕ)
  | removeRecipient (admin recipient : Address)
  | updateRecipientShare (admin recipient : Address) (newShare : ℕ)
  | distribute (amount : i128.Value)
  | transferAdmin (currentAdmin newAdmin : Address)
  | updateToken (admin newToken : Address)
  | resetParameters (admin : Address)

/-- A call together with the environment it runs in. -/
abbrev SplitterStep (here : Address) := Env here × SplitterCall

def splitterStep {here : Address} (i : SplitterStep here) (s : Splitter) : Except Fail Splitter :=
  match i.2 with
  | .initializeSplitter admin token => initializeSplitter admin token s
  | .addRecipient admin recipient share => addRecipient i.1 admin recipient share s
  | .removeRecipient admin recipient => removeRecipient i.1 admin recipient s
  | .updateRecipientShare admin recipient newShare =>
    updateRecipientShare i.1 admin recipient newShare s
  | .distribute amount => distribute i.1 amount s
  | .transferAdmin currentAdmin newAdmin => transferAdmin i.1 currentAdmin newAdmin s
  | .updateToken admin newToken => updateToken i.1 admin newToken s
  | .resetParameters admin => resetParameters i.1 admin s

/-! ## What the sum of the shares should be -/

/-- Sum of the shares in a list of recipients. -/
def shareSum (recipients : List Recipient) : ℕ := (recipients.map (·.share)).sum

/-- Shares of the entries of one address, in order. -/
def sharesOf (recipient : Address) (recipients : List Recipient) : List ℕ :=
  (recipients.filter (·.address = recipient)).map (·.share)

/-- What a distribution owes to an entry. -/
def payout (amount : ℤ) (totalShares : ℕ) (r : Recipient) : ℤ := amount * r.share / totalShares

def Accounted (s : Splitter) : Prop :=
  s.totalShares = shareSum s.recipients ∧ s.totalShares ≤ maxShares

/-- Neither removing nor updating a recipient takes more off the sum than there is. -/
def NoUnderflow (s : Splitter) : Prop :=
  ∀ recipient, (deduct recipient s.recipients s.totalShares).isSome ∧
    ∀ old, oldShare recipient s.recipients = some old → old ≤ s.totalShares

/-- The transfers pay every entry its part, no more than the amount together and less than
one unit for each entry short of it. -/
structure Splits (here : Address) (amount : ℤ) (s s' : Splitter) : Prop where
  paid : ∃ token, s.token = some token ∧
    s'.tokens = s.recipients.foldl
      (fun t r => t.move token here r.address (payout amount s.totalShares r)) s.tokens
  le_amount : (s.recipients.map (payout amount s.totalShares)).sum ≤ amount
  lt_amount : amount < (s.recipients.map (payout amount s.totalShares)).sum + s.recipients.length

/-- A successful distribution splits its amount. -/
def DistributesExactly {here : Address} (s : Splitter) (i : SplitterStep here) : Prop :=
  ∀ amount, i.2 = .distribute amount → ∀ s', splitterStep i s = .ok s' →
    Splits here amount.1 s s'

/-- An accepted update replaces the entries of the recipient after the first by as much as
they had. -/
def UpdatesOnce {here : Address} (s : Splitter) (i : SplitterStep here) : Prop :=
  ∀ admin recipient newShare, i.2 = .updateRecipientShare admin recipient newShare →
    (∃ s', splitterStep i s = .ok s') →
      (sharesOf recipient s.recipients).tail.sum =
        (sharesOf recipient s.recipients).tail.length * newShare

/-! ## Sums over the list of recipients -/

section Sums

variable (recipient : Address) (recipients : List Recipient)

@[simp] theorem shareSum_nil : shareSum [] = 0 := rfl

@[simp] theorem shareSum_cons (r : Recipient) :
    shareSum (r :: recipients) = r.share + shareSum recipients := rfl

theorem shareSum_append_singleton (r : Recipient) :
    shareSum (recipients ++ [r]) = shareSum recipients + r.share := by
  simp [shareSum]

@[simp] theorem sharesOf_nil : sharesOf recipient [] = [] := rfl

theorem sharesOf_cons (r : Recipient) :
    sharesOf recipient (r :: recipients) =
      if r.address = recipient then r.share :: sharesOf recipient recipients
      else sharesOf recipient recipients := by
  by_cases h : r.address = recipient <;> simp [sharesOf, h]

/-- Taking the shares off one by one takes their sum off. -/
theorem deduct_eq (total : ℕ) :
    deduct recipient recipients total = checkedSub total (sharesOf recipient recipients).sum := by
  induction recipients generalizing total with
  | nil => simp [deduct, checkedSub]
  | cons r rest ih =>
    rw [deduct, sharesOf_cons]
    split_ifs with h
    · unfold checkedSub
      by_cases hle : r.share ≤ total
      · rw [if_pos hle, Option.bind_some, ih, checkedSub, List.sum_cons]
        split_ifs <;> first | rfl | omega | (congr 1; omega)
      · rw [if_neg hle, if_neg (by rw [List.sum_cons]; omega), Option.bind_none]
    · exact ih total

theorem oldShare_eq :
    oldShare recipient recipients = (sharesOf recipient recipients).head? := by
  induction recipients with
  | nil => rfl
  | cons r rest ih =>
    rw [sharesOf_cons, oldShare, List.find?_cons]
    by_cases h : r.address = recipient
    · simp [h]
    · simpa [h, oldShare] using ih

theorem shareSum_filter :
    shareSum (recipients.filter (·.address ≠ recipient)) + (sharesOf recipient recipients).sum =
      shareSum recipients := by
  induction recipients with
  | nil => rfl
  | cons r rest ih =>
    rw [sharesOf_cons]
    by_cases h : r.address = recipient <;> simp [h] at ih ⊢ <;> omega

theorem shareSum_replace (newShare : ℕ) :
    shareSum (recipients.map (replaceShare recipient newShare)) +
        (sharesOf recipient recipients).sum =
      shareSum recipients + (sharesOf recipient recipients).length * newShare := by
  induction recipients with
  | nil => simp
  | cons r rest ih =>
    rw [sharesOf_cons, List.map_cons, shareSum_cons, shareSum_cons, replaceShare]
    split_ifs with h
    · simp only [List.sum_cons, List.length_cons, Nat.succ_mul]
      omega
    · omega

theorem sum_sharesOf_le : (sharesOf recipient recipients).sum ≤ shareSum recipients := by
  have h := shareSum_filter recipient recipients
  omega

end Sums

section Steps

variable {here : Address} {env : Env here} {s s' : Splitter} {admin recipient : Address}

theorem Accounted.noUnderflow (h : Accounted s) : NoUnderflow s := by
  intro recipient
  have hle := sum_sharesOf_le recipient s.recipients
  refine ⟨?_, fun old hold => ?_⟩
  · rw [deduct_eq, checkedSub, if_pos (h.1 ▸ hle)]
    rfl
  · rw [oldShare_eq] at hold
    have hmem := List.single_le_sum (l := sharesOf recipient s.recipients)
      (fun _ _ => Nat.zero_le _) old (List.mem_of_mem_head? hold)
    rw [h.1]
    exact hmem.trans hle

theorem addRecipient_accounted {share : ℕ} (hs : Accounted s)
    (h : addRecipient env admin recipient share s = .ok s') : Accounted s' := by
  simp only [addRecipient, bind_eq_ok, failIf_eq_ok, okOr_eq_ok, checkBits_eq_some, pure_eq_ok,
    not_lt] at h
  obtain ⟨_, _, _, _, total, ⟨_, rfl⟩, _, hle, rfl⟩ := h
  refine ⟨?_, hle⟩
  rw [shareSum_append_singleton, ← hs.1]

theorem removeRecipient_accounted (hs : Accounted s)
    (h : removeRecipient env admin recipient s = .ok s') : Accounted s' := by
  simp only [removeRecipient, bind_eq_ok, okOr_eq_ok] at h
  obtain ⟨_, _, total, hded, h⟩ := h
  rw [deduct_eq, checkedSub_eq_some] at hded
  split_ifs at h with hany
  · obtain rfl := pure_eq_ok.mp h
    have hsum := shareSum_filter recipient s.recipients
    have hacc := hs.1
    have hle := hs.2
    constructor <;> dsimp only <;> omega
  · exact pure_eq_ok.mp h ▸ hs

/-- An update keeps the sum right exactly when the entries after the first keep theirs. -/
theorem updateRecipientShare_accounted {newShare : ℕ} (hs : Accounted s)
    (h : updateRecipientShare env admin recipient newShare s = .ok s') :
    Accounted s' ↔ (sharesOf recipient s.recipients).tail.sum =
      (sharesOf recipient s.recipients).tail.length * newShare := by
  obtain ⟨_, _, h⟩ := bind_eq_ok.mp h
  obtain ⟨_, _, h⟩ := bind_eq_ok.mp h
  have hreplace := shareSum_replace recipient s.recipients newShare
  have hle := sum_sharesOf_le recipient s.recipients
  rw [oldShare_eq] at h
  generalize sharesOf recipient s.recipients = shares at *
  cases shares with
  | nil =>
    obtain rfl := pure_eq_ok.mp h
    exact iff_of_true hs (by simp)
  | cons old later =>
    simp only [List.head?_cons, bind_eq_ok, okOr_eq_ok, checkedSub_eq_some, checkBits_eq_some,
      failIf_eq_ok, pure_eq_ok, not_lt] at h
    obtain ⟨_, ⟨_, rfl⟩, _, ⟨_, rfl⟩, _, hmax, rfl⟩ := h
    simp only [Accounted, List.sum_cons, List.length_cons, List.tail_cons, Nat.succ_mul,
      hs.1] at *
    omega

theorem payRecipients_eq_ok {token : Address} {amount : ℤ} {total : ℕ} (ha : 0 ≤ amount)
    {recipients : List Recipient} {t t' : Tokens}
    (h : payRecipients env token amount total recipients t = .ok t') :
    t' = recipients.foldl (fun t r => t.move token here r.address (payout amount total r)) t := by
  induction recipients generalizing t with
  | nil => exact (pure_eq_ok.mp h).symm
  | cons r rest ih =>
    simp only [payRecipients, bind_eq_ok, arith_eq_ok] at h
    obtain ⟨product, ⟨_, rfl⟩, part, hdiv, t₁, hpay, h⟩ := h
    have hnonneg : 0 ≤ amount * r.share := mul_nonneg ha (Nat.cast_nonneg _)
    obtain ⟨_, hpart⟩ := divide_eq_ok hnonneg hdiv
    have hmove : t₁ = t.move token here r.address (payout amount total r) := by
      rw [payout, ← hpart]
      split_ifs at hpay with hpos
      · exact (Env.transfer_eq_ok.mp (hostCall_eq_ok.mp hpay)).2
      · have hzero : part = 0 := le_antisymm (not_lt.mp hpos)
          (divide_nonneg hnonneg (Nat.cast_nonneg _) hdiv)
        rw [hzero, Tokens.move_zero]
        exact (pure_eq_ok.mp hpay).symm
    rw [List.foldl_cons, ← hmove]
    exact ih h

theorem distribute_splits {amount : i128.Value} (hs : Accounted s)
    (h : distribute env amount s = .ok s') : Splits here amount.1 s s' := by
  simp only [distribute, bind_eq_ok, failIf_eq_ok, okOr_eq_ok, pure_eq_ok, not_le] at h
  obtain ⟨_, hpos, token, htoken, _, _, _, htotal, _, _, tokens, hpay, rfl⟩ := h
  have hsum : (s.recipients.map fun r => (r.share : ℤ)).sum = s.totalShares := by
    rw [hs.1, shareSum, Nat.cast_list_sum, List.map_map]
    rfl
  have hbounds := split_bounds amount.1 (by omega : (0 : ℤ) < s.totalShares) hsum
  rw [List.map_map, List.length_map] at hbounds
  exact ⟨⟨token, htoken, payRecipients_eq_ok hpos.le hpay⟩, hbounds.1, hbounds.2⟩

theorem distribute_accounted {amount : i128.Value} (hs : Accounted s)
    (h : distribute env amount s = .ok s') : Accounted s' := by
  simp only [distribute, bind_eq_ok, pure_eq_ok] at h
  obtain ⟨_, _, _, _, _, _, _, _, _, _, _, _, rfl⟩ := h
  exact hs

end Steps

/-! ## Runs -/

section Runs

variable {here : Address} {s : Splitter}

/-- Only an update of a recipient with several entries can break the sum. -/
theorem commit_accounted (hs : Accounted s) (i : SplitterStep here) :
    Accounted (commit splitterStep s i) ↔ UpdatesOnce s i := by
  obtain ⟨env, call⟩ := i
  have keeps (hk : ∀ s', splitterStep (env, call) s = .ok s' → Accounted s')
      (hn : ∀ admin recipient newShare, call ≠ .updateRecipientShare admin recipient newShare) :
      Accounted (commit splitterStep s (env, call)) ↔ UpdatesOnce s (env, call) :=
    iff_of_true (commit_induction hs hk) fun admin recipient newShare he =>
      absurd he (hn admin recipient newShare)
  cases call with
  | initializeSplitter admin token =>
    refine keeps (fun s' h => ?_) (by simp)
    obtain ⟨_, _, h⟩ := bind_eq_ok.mp h
    obtain rfl := pure_eq_ok.mp h
    exact ⟨rfl, Nat.zero_le _⟩
  | addRecipient admin recipient share =>
    exact keeps (fun s' h => addRecipient_accounted hs h) (by simp)
  | removeRecipient admin recipient =>
    exact keeps (fun s' h => removeRecipient_accounted hs h) (by simp)
  | updateRecipientShare admin recipient newShare =>
    refine (commit_iff_of_accepted hs fun s' h => (updateRecipientShare_accounted hs h).trans
      ⟨fun hc _ => hc, fun hc => hc ⟨s', h⟩⟩).trans ?_
    constructor
    · intro h _ _ _ he hok
      cases he
      exact h hok
    · exact fun h hok => h admin recipient newShare rfl hok
  | distribute amount =>
    exact keeps (fun s' h => distribute_accounted hs h) (by simp)
  | transferAdmin currentAdmin newAdmin =>
    refine keeps (fun s' h => ?_) (by simp)
    obtain ⟨_, _, h⟩ := bind_eq_ok.mp h
    obtain rfl := pure_eq_ok.mp h
    exact hs
  | updateToken admin newToken =>
    refine keeps (fun s' h => ?_) (by simp)
    obtain ⟨_, _, h⟩ := bind_eq_ok.mp h
    obtain rfl := pure_eq_ok.mp h
    exact hs
  | resetParameters admin =>
    refine keeps (fun s' h => ?_) (by simp)
    simp only [splitterStep, resetParameters, bind_eq_ok, pure_eq_ok] at h
    obtain ⟨_, _, _, _, _, _, rfl⟩ := h
    exact ⟨rfl, Nat.zero_le _⟩

theorem Accounted.distributesExactly (hs : Accounted s) (i : SplitterStep here) :
    DistributesExactly s i := by
  obtain ⟨env, call⟩ := i
  rintro amount rfl s' h
  exact distribute_splits hs h

/-- The sum is right in every state, nothing ever underflows it and every distribution pays
exactly the parts, in exactly the runs whose updates change the later entries of an address
by nothing in total. -/
theorem splitter_accounted_iff (tokens : Tokens) (run : List (SplitterStep here)) :
    Throughout splitterStep (fun s => Accounted s ∧ NoUnderflow s) (.fresh tokens) run ∧
        Along splitterStep DistributesExactly (.fresh tokens) run ↔
      Along splitterStep UpdatesOnce (.fresh tokens) run := by
  have hfresh : Accounted (.fresh tokens) := ⟨rfl, Nat.zero_le _⟩
  refine throughout_and_along_iff (I := fun _ => True) (fun _ _ _ => trivial) ?_ trivial
    ⟨hfresh, hfresh.noUnderflow⟩ run
  intro s i _ hs
  constructor
  · exact fun h => (commit_accounted hs.1 i).mp h.1.1
  · intro h
    have hnext := (commit_accounted hs.1 i).mpr h
    exact ⟨⟨hnext, hnext.noUnderflow⟩, hs.1.distributesExactly i⟩

end Runs

def splitterCall (call : SplitterCall) : SplitterStep ⟨0⟩ := ⟨.standard _ 0 none, call⟩

/-- A recipient is added twice with a share of 100 and then updated to 1000. -/
def repeatedRecipientRun : List (SplitterStep ⟨0⟩) :=
  [splitterCall (.initializeSplitter ⟨1⟩ ⟨9⟩), splitterCall (.addRecipient ⟨1⟩ ⟨5⟩ 100),
    splitterCall (.addRecipient ⟨1⟩ ⟨5⟩ 100),
    splitterCall (.updateRecipientShare ⟨1⟩ ⟨5⟩ 1000)]

/-- The sum is 1100 where the entries hold 2000, and a distribution of 1100 pays out 2000. -/
theorem repeatedRecipientRun_overpays :
    let s := runAll splitterStep (.fresh fun _ _ => 5000) repeatedRecipientRun
    let after := commit splitterStep s (splitterCall (.distribute (units 1100)))
    s.totalShares = 1100 ∧ shareSum s.recipients = 2000 ∧ after.tokens ⟨9⟩ ⟨5⟩ = 7000 ∧
      ¬ Throughout splitterStep Accounted (.fresh fun _ _ => 5000) repeatedRecipientRun := by
  intro s after
  have h : s.totalShares = 1100 ∧ shareSum s.recipients = 2000 ∧ after.tokens ⟨9⟩ ⟨5⟩ = 7000 := by
    decide +kernel
  refine ⟨h.1, h.2.1, h.2.2, fun ht => ?_⟩
  have hsum : s.totalShares = shareSum s.recipients := ht.last.1
  omega

end StellarFlow.RewardSplitter
