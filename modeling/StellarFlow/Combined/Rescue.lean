import StellarFlow.Combined.Isolation
import StellarFlow.Orders.Solvency

/-!
# Rescues of tokens next to the other modules

The admin queues the transfer of tokens out of the contract, and anybody executes it two days
later. The tokens that other modules owe to their users are kept out by a list that the admin
writes by hand, while vault, orders and bonds owe whatever tokens their users brought; and the
recipient is whoever the admin named.
-/
namespace StellarFlow.Combined

open Foundation Orders Vaults

/-- Seconds between queueing and execution. -/
def rescueTimelockDelay : ℕ := 48 * 60 * 60

inductive RescueProposalStatus where
  | pending
  | executed
  | cancelled
  deriving DecidableEq, Repr

structure RescueProposal where
  proposalId : ℕ
  token : Address
  amount : ℤ
  recipient : Address
  proposer : Address
  stagedAt : ℕ
  executeAt : ℕ
  status : RescueProposalStatus
  deriving DecidableEq

/-- The proposals, their counter and the list of protected assets. -/
structure RescueStore where
  counter : ℕ
  proposals : Store ℕ RescueProposal
  protectedAssets : Finset Address

def RescueStore.empty : RescueStore := ⟨0, ∅, ∅⟩

/-- The environment with the admin in the contract data, absent before `initialize`. -/
structure RescueEnv (here : Address) extends VaultEnv here where
  admin : Option Address

section Calls

variable {here : Address} (env : RescueEnv here)

def requireAdmin (caller : Address) : Except Fault Unit := do
  let admin ← okOr env.admin (Fault.error .notInitialized)
  failIf (admin ≠ caller) (Fault.error .notAdmin)
  env.requireAuth caller

def registerProtectedAsset (caller asset : Address) (r : RescueStore) :
    Except Fault RescueStore := do
  requireAdmin env caller
  pure { r with protectedAssets := insert asset r.protectedAssets }

def queueTokenRescue (proposer token : Address) (amount : ℤ) (recipient : Address)
    (r : RescueStore) : Except Fault (ℕ × RescueStore) := do
  requireAdmin env proposer
  failIf (amount ≤ 0) (Fault.error .amountTooLow)
  failIf (token ∈ r.protectedAssets) (Fault.error .protectedAssetNotRescueable)
  let proposalId ← okOr (checkBits 64 (r.counter + 1)) (Fault.error .overflow)
  let stagedAt := env.timestamp
  let executeAt ← okOr (checkBits 64 (stagedAt + rescueTimelockDelay)) (Fault.error .overflow)
  let proposal : RescueProposal :=
    ⟨proposalId, token, amount, recipient, proposer, stagedAt, executeAt, .pending⟩
  pure (proposalId, { r with
    counter := proposalId
    proposals := r.proposals.insert proposalId proposal })

/-- Anybody may execute. The recipient is the one in the proposal. -/
def executeTokenRescue (executor : Address) (proposalId : ℕ) (t : Tokens) (r : RescueStore) :
    Except Fault (Tokens × RescueStore) := do
  env.requireAuth executor
  let proposal ← okOr (r.proposals.lookup proposalId) (Fault.error .rescueProposalNotFound)
  failIf (proposal.status ≠ .pending) (Fault.error .rescueProposalNotPending)
  failIf (env.timestamp < proposal.executeAt) (Fault.error .rescueTimelockNotExpired)
  failIf (proposal.token ∈ r.protectedAssets) (Fault.error .protectedAssetNotRescueable)
  let t ← env.transfer proposal.token here proposal.recipient proposal.amount t
  pure (t, { r with
    proposals := r.proposals.insert proposalId { proposal with status := .executed } })

def cancelTokenRescue (canceller : Address) (proposalId : ℕ) (r : RescueStore) :
    Except Fault RescueStore := do
  requireAdmin env canceller
  let proposal ← okOr (r.proposals.lookup proposalId) (Fault.error .rescueProposalNotFound)
  failIf (proposal.status ≠ .pending) (Fault.error .rescueProposalNotPending)
  pure { r with proposals := r.proposals.insert proposalId { proposal with status := .cancelled } }

end Calls

/-! ## Runs -/

/-- What the contract owes of a token: the booked assets of the vault, the escrow and the
balances of the order book, and the bonds of the active commitments. -/
def Contract.obligations (token : Address) (c : Contract) : ℤ :=
  (match c.vault.config with
    | some config => if config.asset = token then c.vault.totalAssets else 0
    | none => 0) +
  liabilities token c.desk.book +
  Store.total (fun _ commitment => if commitment.state = .active ∧
    commitment.collateralAsset = token then commitment.collateralAmount else 0) c.desk.commitments

/-- The contract holds what it owes of every token. -/
def Contract.Solvent (here : Address) (c : Contract) : Prop :=
  ∀ token, c.obligations token ≤ c.held here token

def Contract.withTokens (t : Tokens) (c : Contract) : Contract :=
  { c with desk := { c.desk with book := { c.desk.book with tokens := t } } }

inductive RescueCall where
  | registerProtectedAsset (caller asset : Address)
  | queueTokenRescue (proposer token : Address) (amount : ℤ) (recipient : Address)
  | executeTokenRescue (executor : Address) (proposalId : ℕ)
  | cancelTokenRescue (canceller : Address) (proposalId : ℕ)
  | contract (call : ContractCall)

/-- The storage of all modules with the time, the times at which proposals were queued and the
proposals that were executed. -/
structure RescueHistory where
  contract : Contract
  rescue : RescueStore
  now : ℕ
  queued : List (ℕ × ℕ)
  executed : List ℕ

def RescueHistory.start (tokens : Tokens) (now : ℕ) : RescueHistory :=
  ⟨.fresh tokens, .empty, now, [], []⟩

/-- A call some seconds after the last accepted one. -/
structure RescueStep (here : Address) where
  elapsed : ℕ
  env : RescueEnv here
  call : RescueCall

section Runs

variable (codec : Codec) {here : Address}

def rescueStep (i : RescueStep here) (h : RescueHistory) : Except Fault RescueHistory :=
  let now := h.now + i.elapsed
  let env : RescueEnv here := { i.env with timestamp := now }
  match i.call with
  | .registerProtectedAsset caller asset => do
    let rescue ← registerProtectedAsset env caller asset h.rescue
    pure { h with rescue := rescue, now := now }
  | .queueTokenRescue proposer token amount recipient => do
    let (proposalId, rescue) ← queueTokenRescue env proposer token amount recipient h.rescue
    pure { h with rescue := rescue, now := now, queued := (proposalId, now) :: h.queued }
  | .executeTokenRescue executor proposalId => do
    let (t, rescue) ←
      executeTokenRescue env executor proposalId h.contract.desk.book.tokens h.rescue
    pure { h with
      contract := h.contract.withTokens t
      rescue := rescue
      now := now
      executed := proposalId :: h.executed }
  | .cancelTokenRescue canceller proposalId => do
    let rescue ← cancelTokenRescue env canceller proposalId h.rescue
    pure { h with rescue := rescue, now := now }
  | .contract call => do
    let c ← contractStep codec (env.toVaultEnv, call) h.contract
    pure { h with contract := c, now := now }

/-- An executed rescue was queued at least two days before and was not executed before. -/
def RescueTimely (h : RescueHistory) (i : RescueStep here) : Prop :=
  ∀ executor proposalId, i.call = .executeTokenRescue executor proposalId →
    ∀ h', rescueStep codec i h = .ok h' →
      (∃ queuedAt, (proposalId, queuedAt) ∈ h.queued) ∧
      (∀ queuedAt, (proposalId, queuedAt) ∈ h.queued →
        queuedAt + rescueTimelockDelay ≤ h'.now) ∧
      proposalId ∉ h.executed

/-- Besides, it pays the treasury and leaves the contract solvent. -/
def RescueSafe (h : RescueHistory) (i : RescueStep here) : Prop :=
  RescueTimely codec h i ∧
  ∀ executor proposalId, i.call = .executeTokenRescue executor proposalId →
    ∀ h', rescueStep codec i h = .ok h' →
      (∃ p, h.rescue.proposals.lookup proposalId = some p ∧
        h'.contract = h.contract.withTokens
          (h.contract.desk.book.tokens.move p.token here p.recipient p.amount) ∧
        i.env.treasury = some p.recipient) ∧
      h'.contract.Solvent here

/-- The proposal names the treasury, the contract is solvent, and what leaves is beyond its
obligations. -/
def RescueSpares (h : RescueHistory) (i : RescueStep here) : Prop :=
  ∀ executor proposalId, i.call = .executeTokenRescue executor proposalId →
    (∃ h', rescueStep codec i h = .ok h') →
      ∀ p, h.rescue.proposals.lookup proposalId = some p →
        i.env.treasury = some p.recipient ∧ h.contract.Solvent here ∧
          (p.recipient ≠ here →
            p.amount ≤ h.contract.held here p.token - h.contract.obligations p.token)

/-- The proposals are those that were queued, with their times, and the executed ones stay so. -/
structure RescuesKept (h : RescueHistory) : Prop where
  counted : ∀ id p, h.rescue.proposals.lookup id = some p → id ≤ h.rescue.counter
  timed : ∀ id p, h.rescue.proposals.lookup id = some p →
    (id, p.stagedAt) ∈ h.queued ∧ p.executeAt = p.stagedAt + rescueTimelockDelay
  stored : ∀ entry ∈ h.queued, ∃ p, h.rescue.proposals.lookup entry.1 = some p ∧
    p.stagedAt = entry.2
  positive : ∀ id p, h.rescue.proposals.lookup id = some p → 0 < p.amount
  done : ∀ id ∈ h.executed, ∃ p, h.rescue.proposals.lookup id = some p ∧ p.status = .executed

variable {codec} {h h' : RescueHistory} {i : RescueStep here} {env : RescueEnv here}
  {r r' : RescueStore} {t t' : Tokens}

theorem executeTokenRescue_eq_ok {executor : Address} {proposalId : ℕ}
    (h0 : executeTokenRescue env executor proposalId t r = .ok (t', r')) :
    ∃ p, r.proposals.lookup proposalId = some p ∧ p.status = .pending ∧
      p.executeAt ≤ env.timestamp ∧ p.token ∉ r.protectedAssets ∧
      t' = t.move p.token here p.recipient p.amount ∧
      r' = { r with
        proposals := r.proposals.insert proposalId { p with status := .executed } } := by
  rw [executeTokenRescue] at h0
  obtain ⟨_, -, h0⟩ := bind_eq_ok.mp h0
  obtain ⟨p, hp, h0⟩ := bind_eq_ok.mp h0
  obtain ⟨_, hpending, h0⟩ := bind_eq_ok.mp h0
  obtain ⟨_, htime, h0⟩ := bind_eq_ok.mp h0
  obtain ⟨_, hprotected, h0⟩ := bind_eq_ok.mp h0
  obtain ⟨t₁, htransfer, hwrite⟩ := bind_eq_ok.mp h0
  obtain ⟨rfl, rfl⟩ := Prod.mk.inj (pure_eq_ok.mp hwrite)
  rw [failIf_eq_ok] at hpending htime hprotected
  exact ⟨p, okOr_eq_ok.mp hp, not_not.mp hpending, not_lt.mp htime, hprotected,
    (Env.transfer_eq_ok.mp htransfer).2, rfl⟩

theorem queueTokenRescue_eq_ok {proposer token recipient : Address} {amount : ℤ} {proposalId : ℕ}
    (h0 : queueTokenRescue env proposer token amount recipient r = .ok (proposalId, r')) :
    proposalId = r.counter + 1 ∧ 0 < amount ∧
      r' = { r with
        counter := proposalId
        proposals := r.proposals.insert proposalId ⟨proposalId, token, amount, recipient, proposer,
          env.timestamp, env.timestamp + rescueTimelockDelay, .pending⟩ } := by
  rw [queueTokenRescue] at h0
  obtain ⟨_, -, h0⟩ := bind_eq_ok.mp h0
  obtain ⟨_, hpos, h0⟩ := bind_eq_ok.mp h0
  obtain ⟨_, -, h0⟩ := bind_eq_ok.mp h0
  obtain ⟨id, hid, h0⟩ := bind_eq_ok.mp h0
  obtain ⟨executeAt, hexecute, hwrite⟩ := bind_eq_ok.mp h0
  obtain ⟨rfl, rfl⟩ := Prod.mk.inj (pure_eq_ok.mp hwrite)
  obtain ⟨-, rfl⟩ := checkBits_eq_some.mp (okOr_eq_ok.mp hid)
  obtain ⟨-, rfl⟩ := checkBits_eq_some.mp (okOr_eq_ok.mp hexecute)
  exact ⟨rfl, not_le.mp (failIf_eq_ok.mp hpos), rfl⟩

theorem cancelTokenRescue_eq_ok {canceller : Address} {proposalId : ℕ}
    (h0 : cancelTokenRescue env canceller proposalId r = .ok r') :
    ∃ p, r.proposals.lookup proposalId = some p ∧ p.status = .pending ∧
      r' = { r with
        proposals := r.proposals.insert proposalId { p with status := .cancelled } } := by
  rw [cancelTokenRescue] at h0
  obtain ⟨_, -, h0⟩ := bind_eq_ok.mp h0
  obtain ⟨p, hp, h0⟩ := bind_eq_ok.mp h0
  obtain ⟨_, hpending, hwrite⟩ := bind_eq_ok.mp h0
  obtain rfl := pure_eq_ok.mp hwrite
  exact ⟨p, okOr_eq_ok.mp hp, not_not.mp (failIf_eq_ok.mp hpending), rfl⟩

theorem RescuesKept.start (tokens : Tokens) (now : ℕ) : RescuesKept (.start tokens now) where
  counted _ _ h := by cases h
  timed _ _ h := by cases h
  stored _ h := absurd h List.not_mem_nil
  positive _ _ h := by cases h
  done _ h := absurd h List.not_mem_nil

/-- One more proposal, under a new id. -/
theorem RescuesKept.queue (hk : RescuesKept h) (c : Contract) {now : ℕ} {p : RescueProposal}
    (hstaged : p.stagedAt = now) (hexecute : p.executeAt = now + rescueTimelockDelay)
    (hpos : 0 < p.amount) :
    RescuesKept ⟨c, { h.rescue with
      counter := h.rescue.counter + 1
      proposals := h.rescue.proposals.insert (h.rescue.counter + 1) p }, now,
      (h.rescue.counter + 1, now) :: h.queued, h.executed⟩ := by
  have hne : ∀ id q, h.rescue.proposals.lookup id = some q → id ≠ h.rescue.counter + 1 :=
    fun id q hq => (Nat.lt_succ_of_le (hk.counted id q hq)).ne
  have hold : ∀ id q, h.rescue.proposals.lookup id = some q →
      (h.rescue.proposals.insert (h.rescue.counter + 1) p).lookup id = some q := fun id q hq => by
    rw [Finmap.lookup_insert_of_ne _ (hne id q hq), hq]
  refine ⟨fun id q hq => ?_, fun id q hq => ?_, fun entry hentry => ?_, fun id q hq => ?_,
    fun id hid => ?_⟩
  · obtain ⟨rfl, -⟩ | ⟨-, hq⟩ := Store.lookup_insert_eq_some.mp hq
    · exact le_rfl
    · exact (hk.counted id q hq).trans (Nat.le_succ _)
  · obtain ⟨rfl, rfl⟩ | ⟨-, hq⟩ := Store.lookup_insert_eq_some.mp hq
    · rw [hstaged]
      exact ⟨List.mem_cons_self, hexecute⟩
    · exact ⟨List.mem_cons_of_mem _ (hk.timed id q hq).1, (hk.timed id q hq).2⟩
  · obtain rfl | hmem := List.mem_cons.mp hentry
    · exact ⟨p, Finmap.lookup_insert _, hstaged⟩
    · obtain ⟨q, hq, htime⟩ := hk.stored entry hmem
      exact ⟨q, hold _ q hq, htime⟩
  · obtain ⟨-, rfl⟩ | ⟨-, hq⟩ := Store.lookup_insert_eq_some.mp hq
    · exact hpos
    · exact hk.positive id q hq
  · obtain ⟨q, hq, hstatus⟩ := hk.done id hid
    exact ⟨q, hold id q hq, hstatus⟩

/-- A pending proposal is closed, by execution or by cancellation. -/
theorem RescuesKept.close (hk : RescuesKept h) (c : Contract) (now : ℕ) {id : ℕ}
    {p : RescueProposal} {status : RescueProposalStatus} {executed : List ℕ}
    (hp : h.rescue.proposals.lookup id = some p) (hpending : p.status = .pending)
    (hexecuted : executed = h.executed ∨ status = .executed ∧ executed = id :: h.executed) :
    RescuesKept ⟨c, { h.rescue with
      proposals := h.rescue.proposals.insert id { p with status := status } }, now, h.queued,
      executed⟩ := by
  have hstays : ∀ id' ∈ h.executed, ∃ q,
      (h.rescue.proposals.insert id { p with status := status }).lookup id' = some q ∧
        q.status = .executed := by
    intro id' hid
    obtain ⟨q, hq, hstatus⟩ := hk.done id' hid
    have hne : id' ≠ id := by
      rintro rfl
      obtain rfl := Option.some.inj (hp.symm.trans hq)
      cases hpending.symm.trans hstatus
    exact ⟨q, by rw [Finmap.lookup_insert_of_ne _ hne, hq], hstatus⟩
  refine ⟨fun id' q hq => ?_, fun id' q hq => ?_, fun entry hentry => ?_, fun id' q hq => ?_,
    fun id' hid => ?_⟩
  · obtain ⟨rfl, -⟩ | ⟨-, hq⟩ := Store.lookup_insert_eq_some.mp hq
    · exact hk.counted id' p hp
    · exact hk.counted id' q hq
  · obtain ⟨rfl, rfl⟩ | ⟨-, hq⟩ := Store.lookup_insert_eq_some.mp hq
    · exact hk.timed id' p hp
    · exact hk.timed id' q hq
  · obtain ⟨q, hq, htime⟩ := hk.stored entry hentry
    by_cases hid : entry.1 = id
    · rw [hid] at hq ⊢
      obtain rfl := Option.some.inj (hp.symm.trans hq)
      exact ⟨_, Finmap.lookup_insert _, htime⟩
    · exact ⟨q, by rw [Finmap.lookup_insert_of_ne _ hid, hq], htime⟩
  · obtain ⟨-, rfl⟩ | ⟨-, hq⟩ := Store.lookup_insert_eq_some.mp hq
    · exact hk.positive id p hp
    · exact hk.positive id' q hq
  · obtain rfl | ⟨rfl, rfl⟩ := hexecuted
    · exact hstays id' hid
    · obtain rfl | hmem := List.mem_cons.mp hid
      · exact ⟨_, Finmap.lookup_insert _, rfl⟩
      · exact hstays id' hmem

theorem RescuesKept.step (hk : RescuesKept h) (h0 : rescueStep codec i h = .ok h') :
    RescuesKept h' := by
  obtain ⟨elapsed, env, call⟩ := i
  cases call with
  | registerProtectedAsset caller asset =>
    obtain ⟨rescue, hregister, hwrite⟩ := bind_eq_ok.mp h0
    obtain ⟨_, -, hstored⟩ := bind_eq_ok.mp hregister
    obtain rfl := pure_eq_ok.mp hwrite
    obtain rfl := pure_eq_ok.mp hstored
    exact ⟨hk.counted, hk.timed, hk.stored, hk.positive, hk.done⟩
  | queueTokenRescue proposer token amount recipient =>
    obtain ⟨⟨proposalId, rescue⟩, hqueue, hwrite⟩ := bind_eq_ok.mp h0
    obtain rfl := pure_eq_ok.mp hwrite
    obtain ⟨rfl, hpos, rfl⟩ := queueTokenRescue_eq_ok hqueue
    exact hk.queue h.contract rfl rfl hpos
  | executeTokenRescue executor proposalId =>
    obtain ⟨⟨t, rescue⟩, hexecute, hwrite⟩ := bind_eq_ok.mp h0
    obtain rfl := pure_eq_ok.mp hwrite
    obtain ⟨p, hp, hpending, -, -, -, rfl⟩ := executeTokenRescue_eq_ok hexecute
    exact hk.close _ _ hp hpending (.inr ⟨rfl, rfl⟩)
  | cancelTokenRescue canceller proposalId =>
    obtain ⟨rescue, hcancel, hwrite⟩ := bind_eq_ok.mp h0
    obtain rfl := pure_eq_ok.mp hwrite
    obtain ⟨p, hp, hpending, rfl⟩ := cancelTokenRescue_eq_ok hcancel
    exact hk.close _ _ hp hpending (.inl rfl)
  | contract call =>
    obtain ⟨c, -, hwrite⟩ := bind_eq_ok.mp h0
    obtain rfl := pure_eq_ok.mp hwrite
    exact ⟨hk.counted, hk.timed, hk.stored, hk.positive, hk.done⟩

theorem RescuesKept.commit (hk : RescuesKept h) (i : RescueStep here) :
    RescuesKept (commit (rescueStep codec) h i) :=
  commit_induction hk fun _ h0 => hk.step h0

theorem held_withTokens (c : Contract) (token recipient : Address) (amount : ℤ) (T : Address) :
    (c.withTokens (c.desk.book.tokens.move token here recipient amount)).held here T =
      c.held here T - if T = token ∧ recipient ≠ here then amount else 0 := by
  change c.desk.book.tokens.move token here recipient amount T here = _
  by_cases hself : recipient = here
  · rw [hself, Tokens.move, add_sub_cancel_right, if_neg fun h => h.2 rfl, sub_zero]
    rfl
  · rw [Tokens.move_apply_src _ _ _ (Ne.symm hself)]
    simp only [hself, ne_eq, not_false_eq_true, and_true]
    rfl

/-- A rescue leaves the contract solvent exactly when it takes no more than what is beyond the
obligations of a solvent contract. -/
theorem solvent_withTokens_iff {c : Contract} {token recipient : Address} {amount : ℤ}
    (hpos : 0 < amount) :
    (c.withTokens (c.desk.book.tokens.move token here recipient amount)).Solvent here ↔
      c.Solvent here ∧ (recipient ≠ here →
        amount ≤ c.held here token - c.obligations token) := by
  have hafter (T : Address) :
      (c.withTokens (c.desk.book.tokens.move token here recipient amount)).obligations T ≤
        (c.withTokens (c.desk.book.tokens.move token here recipient amount)).held here T ↔
      c.obligations T ≤
        c.held here T - if T = token ∧ recipient ≠ here then amount else 0 := by
    rw [held_withTokens]
    rfl
  constructor
  · intro hsolvent
    refine ⟨fun T => ?_, fun hne => ?_⟩
    · have hT := (hafter T).mp (hsolvent T)
      split_ifs at hT <;> omega
    · have htoken := (hafter token).mp (hsolvent token)
      rw [if_pos ⟨rfl, hne⟩] at htoken
      omega
  · rintro ⟨hsolvent, hbeyond⟩ T
    have hT := hsolvent T
    rw [hafter]
    split_ifs with hleaves
    · obtain ⟨rfl, hne⟩ := hleaves
      have hamount := hbeyond hne
      omega
    · omega

theorem RescuesKept.timely (hk : RescuesKept h) : RescueTimely codec h i := by
  obtain ⟨elapsed, env, call⟩ := i
  rintro executor proposalId rfl h' h0
  obtain ⟨⟨t, rescue⟩, hexecute, hwrite⟩ := bind_eq_ok.mp h0
  obtain rfl := pure_eq_ok.mp hwrite
  obtain ⟨p, hp, hpending, htime, -, -, -⟩ := executeTokenRescue_eq_ok hexecute
  obtain ⟨hqueued, hexecuteAt⟩ := hk.timed proposalId p hp
  refine ⟨⟨p.stagedAt, hqueued⟩, fun queuedAt hmem => ?_, fun hdone => ?_⟩
  · obtain ⟨q, hq, hstaged⟩ := hk.stored _ hmem
    obtain rfl := Option.some.inj (hp.symm.trans hq)
    have hqueuedAt : p.stagedAt = queuedAt := hstaged
    rw [← hqueuedAt, ← hexecuteAt]
    exact htime
  · obtain ⟨q, hq, hstatus⟩ := hk.done proposalId hdone
    obtain rfl := Option.some.inj (hp.symm.trans hq)
    cases hpending.symm.trans hstatus

/-- The timelock and the single execution hold anyway; the rest is the condition. -/
theorem RescuesKept.safe_iff (hk : RescuesKept h) :
    RescueSafe codec h i ↔ RescueSpares codec h i := by
  obtain ⟨elapsed, env, call⟩ := i
  constructor
  · rintro ⟨-, hsafe⟩ executor proposalId rfl ⟨h', h0⟩ p hp
    obtain ⟨⟨p', hp', hcontract, htreasury⟩, hsolvent⟩ := hsafe executor proposalId rfl h' h0
    obtain rfl := Option.some.inj (hp.symm.trans hp')
    rw [hcontract] at hsolvent
    exact ⟨htreasury, (solvent_withTokens_iff (hk.positive _ _ hp)).mp hsolvent⟩
  · intro hspares
    refine ⟨hk.timely, ?_⟩
    rintro executor proposalId rfl h' h0
    have hstep := h0
    obtain ⟨⟨t, rescue⟩, hexecute, hwrite⟩ := bind_eq_ok.mp h0
    obtain rfl := pure_eq_ok.mp hwrite
    obtain ⟨p, hp, -, -, -, rfl, rfl⟩ := executeTokenRescue_eq_ok hexecute
    obtain ⟨htreasury, hsolvent⟩ := hspares executor proposalId rfl ⟨_, hstep⟩ p hp
    exact ⟨⟨p, hp, rfl, htreasury⟩, (solvent_withTokens_iff (hk.positive _ _ hp)).mpr hsolvent⟩

/-- A complete list of protected assets would do: a solvent contract that protects every token it
owes something of is spared by every rescue to the treasury of what it holds. -/
theorem rescueSpares_of_protected (hsolvent : h.contract.Solvent here)
    (hlist : ∀ token, 0 < h.contract.obligations token → token ∈ h.rescue.protectedAssets)
    (hheld : ∀ id p, h.rescue.proposals.lookup id = some p →
      i.env.treasury = some p.recipient ∧ p.amount ≤ h.contract.held here p.token) :
    RescueSpares codec h i := by
  rintro executor proposalId hcall ⟨h', h0⟩ p hp
  obtain ⟨htreasury, hamount⟩ := hheld proposalId p hp
  refine ⟨htreasury, hsolvent, fun _ => ?_⟩
  obtain ⟨elapsed, env, call⟩ := i
  obtain rfl : call = .executeTokenRescue executor proposalId := hcall
  obtain ⟨⟨t, rescue⟩, hexecute, -⟩ := bind_eq_ok.mp h0
  obtain ⟨q, hq, -, -, hunprotected, -, -⟩ := executeTokenRescue_eq_ok hexecute
  obtain rfl := Option.some.inj (hp.symm.trans hq)
  have hnothing : ¬ 0 < h.contract.obligations p.token := fun howed =>
    hunprotected (hlist p.token howed)
  omega

end Runs

section Sample

def sampleRescueEnv : RescueEnv ⟨0⟩ := { vaultEnv with admin := some ⟨9⟩, treasury := some ⟨8⟩ }

/-- A deposit into the vault, and a rescue of its asset two days later. -/
def sampleVaultRescue : List (RescueStep ⟨0⟩) :=
  [⟨0, sampleRescueEnv, .contract (.vault (.initVault ⟨9⟩ ⟨1⟩ ⟨8⟩))⟩,
    ⟨0, sampleRescueEnv, .contract (.vault (.deposit ⟨2⟩ (units 1000)))⟩,
    ⟨0, sampleRescueEnv, .queueTokenRescue ⟨9⟩ ⟨1⟩ 1000 ⟨8⟩⟩,
    ⟨172800, sampleRescueEnv, .executeTokenRescue ⟨5⟩ 1⟩]

end Sample

end StellarFlow.Combined
