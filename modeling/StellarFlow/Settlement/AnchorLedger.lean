import StellarFlow.Settlement.AnchorCollateral

/-!
# Ledger of an anchor

What the contract keeps for one anchor on one corridor is read as one account: collateral,
unsettled volume, pause flag, queue and the last identifier issued. Every accepted call
changes at most one account and evaluates its pause flag. The volume is then the sum of the
queue, and the collateral covers it although no call compares the two.
-/
namespace StellarFlow.Settlement

open Foundation

/-! ## Accounts -/

structure AnchorAccount where
  locked : ℕ
  volume : ℕ
  paused : Bool
  queue : List FiatPayoutEntry
  lastId : ℕ

namespace AnchorAccount

/-- The collateral reaches the minimum ratio of the unsettled volume. -/
def Covers (minRatioBps : ℕ) (v : AnchorAccount) : Prop :=
  minRatioBps * v.volume ≤ v.locked * anchorBps

instance (minRatioBps : ℕ) (v : AnchorAccount) : Decidable (v.Covers minRatioBps) :=
  inferInstanceAs (Decidable (_ ≤ _))

def evaluated (minRatioBps : ℕ) (v : AnchorAccount) : AnchorAccount :=
  { v with paused := decide (¬ v.Covers minRatioBps) }

def deposited (amount : ℕ) (v : AnchorAccount) : AnchorAccount :=
  { v with locked := v.locked + amount }

def withdrawn (amount : ℕ) (v : AnchorAccount) : AnchorAccount :=
  { v with locked := v.locked - amount }

def assigned (amount openedAt : ℕ) (v : AnchorAccount) : AnchorAccount :=
  { v with
    volume := v.volume + amount
    queue := v.queue ++ [⟨v.lastId + 1, amount, openedAt⟩]
    lastId := v.lastId + 1 }

def settled (payoutId amount : ℕ) (v : AnchorAccount) : AnchorAccount :=
  { v with
    volume := v.volume - amount
    locked := v.locked - amount
    queue := v.queue.eraseP fun entry => entry.id = payoutId }

end AnchorAccount

/-- The account that a call works on. -/
def AnchorCall.key : AnchorCall → Option AnchorKey
  | .setMinCollateralRatioBps .. => none
  | .depositCollateral _ anchor corridor _ => some (anchor, corridor)
  | .withdrawCollateral _ anchor corridor _ => some (anchor, corridor)
  | .assignFiatPayout _ anchor corridor _ => some (anchor, corridor)
  | .settleFiatPayout _ anchor corridor _ _ => some (anchor, corridor)
  | .syncAnchorRatio anchor corridor => some (anchor, corridor)

/-- What an accepted call does to its account before the evaluation. -/
inductive Booked (timestamp minRatioBps : ℕ) (v : AnchorAccount) :
    AnchorCall → AnchorAccount → Prop
  | deposit {caller anchor corridor amount} :
    Booked timestamp minRatioBps v (.depositCollateral caller anchor corridor amount)
      (v.deposited amount)
  | withdraw {caller anchor corridor amount} (running : v.paused = false)
    (covered : (v.withdrawn amount).Covers minRatioBps) :
    Booked timestamp minRatioBps v (.withdrawCollateral caller anchor corridor amount)
      (v.withdrawn amount)
  | assign {caller anchor corridor amount} (pos : 0 < amount) (running : v.paused = false)
    (covered : (v.assigned amount timestamp).Covers minRatioBps) :
    Booked timestamp minRatioBps v (.assignFiatPayout caller anchor corridor amount)
      (v.assigned amount timestamp)
  | settle {caller anchor corridor payoutId amount} {queued : FiatPayoutEntry}
    (found : v.queue.find? (fun entry => entry.id = payoutId) = some queued)
    (exact_amount : queued.amount = amount) (volume_le : amount ≤ v.volume)
    (locked_le : amount ≤ v.locked) :
    Booked timestamp minRatioBps v (.settleFiatPayout caller anchor corridor payoutId amount)
      (v.settled payoutId amount)
  | sync {anchor corridor} :
    Booked timestamp minRatioBps v (.syncAnchorRatio anchor corridor) v

namespace AnchorBook

def account (b : AnchorBook) (key : AnchorKey) : AnchorAccount where
  locked := (b.getAnchorState key.1 key.2).collateralLocked
  volume := (b.getAnchorState key.1 key.2).volumeUnsettled
  paused := (b.getAnchorState key.1 key.2).assignmentsPaused
  queue := b.readPayoutQueue key.1 key.2
  lastId := b.nextPayoutId key.1 key.2

/-- Every record is stored under its own anchor and corridor. -/
def Keyed (b : AnchorBook) : Prop :=
  ∀ key state, b.states.lookup key = some state → (state.anchor, state.corridor) = key

/-- Every corridor asks for at least full backing. -/
def FullBacking (b : AnchorBook) : Prop := ∀ corridor, anchorBps ≤ b.corridorMinRatioBps corridor

/-- One account was booked and evaluated, nothing else changed. -/
structure Touched (b b' : AnchorBook) (key : AnchorKey) (v : AnchorAccount) : Prop where
  keyed : b'.Keyed
  account_eq : b'.account key = v.evaluated (b.corridorMinRatioBps key.2)
  others : ∀ k, k ≠ key → b'.account k = b.account k
  ratios : b'.minRatios = b.minRatios

end AnchorBook

section Evaluation

variable {here : Address} {env : AnchorEnv here} {b b' : AnchorBook} {key : AnchorKey}
  {state : AnchorCollateralState} {locked volume minRatioBps : ℕ}

theorem isCollateralSufficient_iff (locked volume minRatioBps : ℕ) :
    isCollateralSufficient locked volume minRatioBps = true ↔
      minRatioBps * volume ≤ locked * anchorBps := by
  unfold isCollateralSufficient
  split_ifs with hz
  · simp [hz]
  · exact ratioGe_iff (Nat.pos_of_ne_zero hz) (by decide)

theorem syncRatioStatus_keeps (timestamp minRatioBps : ℕ) (state : AnchorCollateralState) :
    (syncRatioStatus timestamp minRatioBps state).anchor = state.anchor ∧
      (syncRatioStatus timestamp minRatioBps state).corridor = state.corridor ∧
      (syncRatioStatus timestamp minRatioBps state).collateralLocked = state.collateralLocked ∧
      (syncRatioStatus timestamp minRatioBps state).volumeUnsettled = state.volumeUnsettled := by
  simp only [syncRatioStatus]
  split_ifs <;> exact ⟨rfl, rfl, rfl, rfl⟩

/-- The flag is a function of the balances and the minimum. -/
theorem syncRatioStatus_paused (timestamp minRatioBps : ℕ) (state : AnchorCollateralState) :
    (syncRatioStatus timestamp minRatioBps state).assignmentsPaused =
      decide (¬ minRatioBps * state.volumeUnsettled ≤ state.collateralLocked * anchorBps) := by
  have hiff := isCollateralSufficient_iff state.collateralLocked state.volumeUnsettled minRatioBps
  simp only [syncRatioStatus]
  by_cases hs : isCollateralSufficient state.collateralLocked state.volumeUnsettled minRatioBps
  · rw [decide_eq_false (not_not.mpr (hiff.mp hs)), if_pos hs]
    split_ifs with hp
    · rfl
    · simpa using hp
  · have hn : ¬ minRatioBps * state.volumeUnsettled ≤ state.collateralLocked * anchorBps :=
      fun hle => hs (hiff.mpr hle)
    rw [decide_eq_true hn, if_neg hs]
    split_ifs with hp
    · exact hp
    · rfl

theorem AnchorBook.Keyed.getAnchorState (hk : b.Keyed) (anchor : Address) (corridor : AssetId) :
    (b.getAnchorState anchor corridor).anchor = anchor ∧
      (b.getAnchorState anchor corridor).corridor = corridor := by
  unfold AnchorBook.getAnchorState
  cases h : b.states.lookup (anchor, corridor) with
  | none => exact ⟨rfl, rfl⟩
  | some state => exact Prod.mk.inj (hk _ _ h)

/-- Storing an evaluated record touches its own account only. -/
theorem evaluateAndStore_touched {anchor : Address} {corridor : AssetId}
    {queue : List FiatPayoutEntry} {lastId : ℕ} (hk : b.Keyed) (hanchor : state.anchor = anchor)
    (hcorridor : state.corridor = corridor) (hstates : b'.states = b.states)
    (hratios : b'.minRatios = b.minRatios)
    (hqueues : ∀ k : AnchorKey, b'.readPayoutQueue k.1 k.2 =
      if k = (anchor, corridor) then queue else b.readPayoutQueue k.1 k.2)
    (hids : ∀ k : AnchorKey, b'.nextPayoutId k.1 k.2 =
      if k = (anchor, corridor) then lastId else b.nextPayoutId k.1 k.2) :
    b.Touched (evaluateAndStore env state b').2 (anchor, corridor)
      ⟨state.collateralLocked, state.volumeUnsettled, state.assignmentsPaused, queue, lastId⟩ := by
  have hmin : b'.corridorMinRatioBps corridor = b.corridorMinRatioBps corridor := by
    rw [AnchorBook.corridorMinRatioBps, hratios, AnchorBook.corridorMinRatioBps]
  subst hanchor hcorridor
  obtain ⟨ha, hc, hlocked, hvolume⟩ :=
    syncRatioStatus_keeps env.timestamp (b.corridorMinRatioBps state.corridor) state
  have hread : ∀ k : AnchorKey, (evaluateAndStore env state b').2.getAnchorState k.1 k.2 =
      if k = (state.anchor, state.corridor) then
        syncRatioStatus env.timestamp (b.corridorMinRatioBps state.corridor) state
      else b.getAnchorState k.1 k.2 := by
    intro k
    simp only [evaluateAndStore, AnchorBook.storeAnchorState, AnchorBook.getAnchorState, hmin,
      ha, hc, Store.lookup_insert_ite, hstates]
    split_ifs <;> rfl
  refine ⟨?_, ?_, ?_, hratios⟩
  · intro k st hst
    simp only [evaluateAndStore, AnchorBook.storeAnchorState, hmin, ha, hc, hstates] at hst
    rcases Store.lookup_insert_eq_some.mp hst with ⟨rfl, rfl⟩ | ⟨_, hst⟩
    · exact Prod.ext ha hc
    · exact hk k st hst
  · have hq := hqueues (state.anchor, state.corridor)
    have hid := hids (state.anchor, state.corridor)
    have hown := hread (state.anchor, state.corridor)
    rw [if_pos rfl] at hq hid hown
    simp only [AnchorBook.account, hown, hlocked, hvolume, syncRatioStatus_paused,
      AnchorAccount.evaluated, AnchorAccount.Covers, AnchorAccount.mk.injEq, true_and]
    exact ⟨rfl, hq, hid⟩
  · intro k hne
    have hq := hqueues k
    have hid := hids k
    rw [if_neg hne] at hq hid
    simp only [AnchorBook.account, hread, if_neg hne, AnchorAccount.mk.injEq, true_and]
    exact ⟨hq, hid⟩

end Evaluation

section Steps

variable {here : Address} {env : AnchorEnv here} {b b' : AnchorBook} {caller anchor : Address}
  {corridor : AssetId} {amount : ℕ}

/-- A call that keeps the queue and the identifiers of the account. -/
theorem evaluateAndStore_account {state : AnchorCollateralState} (hk : b.Keyed)
    (hanchor : state.anchor = anchor) (hcorridor : state.corridor = corridor) :
    b.Touched (evaluateAndStore env state b).2 (anchor, corridor)
      ⟨state.collateralLocked, state.volumeUnsettled, state.assignmentsPaused,
        b.readPayoutQueue anchor corridor, b.nextPayoutId anchor corridor⟩ := by
  apply evaluateAndStore_touched hk hanchor hcorridor rfl rfl
  · intro k
    split_ifs with h
    · rw [h]
    · rfl
  · intro k
    split_ifs with h
    · rw [h]
    · rfl

theorem depositCollateral_touched {r : AnchorCollateralState} (hk : b.Keyed)
    (h : depositCollateral env caller anchor corridor amount b = .ok (r, b')) :
    b.Touched b' (anchor, corridor) ((b.account (anchor, corridor)).deposited amount) := by
  simp only [depositCollateral, bind_eq_ok, failIf_eq_ok, okOr_eq_ok, checkBits_eq_some,
    pure_eq_ok] at h
  obtain ⟨_, _, _, _, _, ⟨_, rfl⟩, h⟩ := h
  obtain ⟨ha, hc⟩ := hk.getAnchorState anchor corridor
  rw [← (Prod.mk.inj h).2]
  exact evaluateAndStore_account hk ha hc

theorem withdrawCollateral_touched {r : AnchorCollateralState} (hk : b.Keyed)
    (h : withdrawCollateral env caller anchor corridor amount b = .ok (r, b')) :
    (b.account (anchor, corridor)).paused = false ∧
      ((b.account (anchor, corridor)).withdrawn amount).Covers (b.corridorMinRatioBps corridor) ∧
      b.Touched b' (anchor, corridor) ((b.account (anchor, corridor)).withdrawn amount) := by
  simp only [withdrawCollateral, bind_eq_ok, failIf_eq_ok, pure_eq_ok, Bool.not_eq_true,
    Bool.not_eq_false, isCollateralSufficient_iff] at h
  obtain ⟨_, _, _, _, _, hrun, _, _, _, hcov, h⟩ := h
  obtain ⟨ha, hc⟩ := hk.getAnchorState anchor corridor
  refine ⟨hrun, hcov, ?_⟩
  rw [← (Prod.mk.inj h).2]
  exact evaluateAndStore_account hk ha hc

theorem assignFiatPayout_touched {entry : FiatPayoutEntry} (hk : b.Keyed)
    (h : assignFiatPayout env caller anchor corridor amount b = .ok (entry, b')) :
    0 < amount ∧ (b.account (anchor, corridor)).paused = false ∧
      ((b.account (anchor, corridor)).assigned amount env.timestamp).Covers
        (b.corridorMinRatioBps corridor) ∧
      entry.id = (b.account (anchor, corridor)).lastId + 1 ∧
      b.Touched b' (anchor, corridor)
        ((b.account (anchor, corridor)).assigned amount env.timestamp) := by
  simp only [assignFiatPayout, bind_eq_ok, failIf_eq_ok, okOr_eq_ok, checkBits_eq_some,
    pure_eq_ok, Bool.not_eq_true, Bool.not_eq_false, isCollateralSufficient_iff] at h
  obtain ⟨_, _, _, hpos, _, hrun, _, ⟨_, rfl⟩, _, hcov, _, ⟨_, rfl⟩, h⟩ := h
  obtain ⟨ha, hc⟩ := hk.getAnchorState anchor corridor
  obtain ⟨rfl, rfl⟩ := Prod.mk.inj h
  refine ⟨Nat.pos_of_ne_zero hpos, hrun, hcov, rfl, ?_⟩
  refine evaluateAndStore_touched hk (by exact ha) (by exact hc) (by rfl) (by rfl) ?_ ?_
  · intro k
    simp only [AnchorBook.readPayoutQueue, Store.lookup_insert_ite]
    split_ifs <;> rfl
  · intro k
    simp only [AnchorBook.nextPayoutId, Store.lookup_insert_ite]
    split_ifs <;> rfl

theorem settleFiatPayout_touched {payoutId : ℕ} {r : AnchorCollateralState} (hk : b.Keyed)
    (h : settleFiatPayout env caller anchor corridor payoutId amount b = .ok (r, b')) :
    ∃ queued, (b.account (anchor, corridor)).queue.find? (fun entry => entry.id = payoutId) =
        some queued ∧ queued.amount = amount ∧
      amount ≤ (b.account (anchor, corridor)).volume ∧
      amount ≤ (b.account (anchor, corridor)).locked ∧
      b.Touched b' (anchor, corridor) ((b.account (anchor, corridor)).settled payoutId amount) := by
  simp only [settleFiatPayout, bind_eq_ok, failIf_eq_ok, okOr_eq_ok, pure_eq_ok, not_not,
    not_lt] at h
  obtain ⟨_, _, _, _, queued, hfind, _, hexact, _, hvol, _, hlock, h⟩ := h
  obtain ⟨ha, hc⟩ := hk.getAnchorState anchor corridor
  refine ⟨queued, hfind, hexact, hvol, hlock, ?_⟩
  rw [← (Prod.mk.inj h).2]
  refine evaluateAndStore_touched hk (by exact ha) (by exact hc) (by rfl) (by rfl) ?_ ?_
  · intro k
    simp only [AnchorBook.readPayoutQueue, Store.lookup_insert_ite]
    split_ifs <;> rfl
  · intro k
    split_ifs with h
    · rw [h]
      rfl
    · rfl

/-- An accepted call sets the minimum of a corridor, or it books one account. -/
theorem anchorStep_cases {i : AnchorStep here} (hk : b.Keyed) (h : anchorStep i b = .ok b') :
    (∃ admin corridor minRatioBps, i.2 = .setMinCollateralRatioBps admin corridor minRatioBps ∧
      anchorBps ≤ minRatioBps ∧
      b' = { b with minRatios := b.minRatios.insert corridor minRatioBps }) ∨
    ∃ key v, i.2.key = some key ∧
      Booked i.1.timestamp (b.corridorMinRatioBps key.2) (b.account key) i.2 v ∧
      b.Touched b' key v := by
  obtain ⟨env, call⟩ := i
  cases call with
  | setMinCollateralRatioBps admin corridor minRatioBps =>
    obtain ⟨r, h⟩ := snd_map_eq_ok.mp h
    simp only [setMinCollateralRatioBps, bind_eq_ok, failIf_eq_ok, okOr_eq_ok, pure_eq_ok,
      Prod.mk.injEq, not_not] at h
    obtain ⟨_, _, _, _, _, _, _, hrange, _, rfl⟩ := h
    exact .inl ⟨admin, corridor, minRatioBps, rfl, hrange.1, rfl⟩
  | depositCollateral caller anchor corridor amount =>
    obtain ⟨r, h⟩ := snd_map_eq_ok.mp h
    exact .inr ⟨_, _, rfl, .deposit, depositCollateral_touched hk h⟩
  | withdrawCollateral caller anchor corridor amount =>
    obtain ⟨r, h⟩ := snd_map_eq_ok.mp h
    obtain ⟨hrun, hcov, ht⟩ := withdrawCollateral_touched hk h
    exact .inr ⟨_, _, rfl, .withdraw hrun hcov, ht⟩
  | assignFiatPayout caller anchor corridor amount =>
    obtain ⟨r, h⟩ := snd_map_eq_ok.mp h
    obtain ⟨hpos, hrun, hcov, _, ht⟩ := assignFiatPayout_touched hk h
    exact .inr ⟨_, _, rfl, .assign hpos hrun hcov, ht⟩
  | settleFiatPayout caller anchor corridor payoutId amount =>
    obtain ⟨r, h⟩ := snd_map_eq_ok.mp h
    obtain ⟨queued, hfind, hexact, hvol, hlock, ht⟩ := settleFiatPayout_touched hk h
    exact .inr ⟨_, _, rfl, .settle hfind hexact hvol hlock, ht⟩
  | syncAnchorRatio anchor corridor =>
    obtain ⟨r, h⟩ := snd_map_eq_ok.mp h
    obtain ⟨_, rfl⟩ := Prod.mk.inj (pure_eq_ok.mp h)
    obtain ⟨ha, hc⟩ := hk.getAnchorState anchor corridor
    exact .inr ⟨_, _, rfl, .sync, evaluateAndStore_account hk ha hc⟩

theorem anchorStep_keyed_full {i : AnchorStep here} (hk : b.Keyed) (hf : b.FullBacking)
    (h : anchorStep i b = .ok b') : b'.Keyed ∧ b'.FullBacking := by
  rcases anchorStep_cases hk h with ⟨_, corridor, m, _, hm, rfl⟩ | ⟨key, v, _, _, ht⟩
  · refine ⟨hk, fun c => ?_⟩
    simp only [AnchorBook.corridorMinRatioBps, Store.lookup_insert_ite]
    split_ifs
    · exact hm
    · exact hf c
  · refine ⟨ht.keyed, fun c => ?_⟩
    rw [AnchorBook.corridorMinRatioBps, ht.ratios]
    exact hf c

theorem AnchorBook.empty_keyed : AnchorBook.empty.Keyed := by
  intro key state hst
  simp [AnchorBook.empty] at hst

theorem AnchorBook.empty_full : AnchorBook.empty.FullBacking := by
  intro corridor
  simp only [AnchorBook.empty, AnchorBook.corridorMinRatioBps, Finmap.lookup_empty]
  decide

end Steps

/-! ## Runs -/

/-- The book together with all payout identifiers issued so far, in order. -/
structure AnchorHistory where
  book : AnchorBook
  issued : AnchorKey → List ℕ

def AnchorHistory.empty : AnchorHistory := ⟨AnchorBook.empty, fun _ => []⟩

/-- The identifier of the entry that a successful assignment returns. -/
def issuedIds {here : Address} (i : AnchorStep here) (b : AnchorBook) (key : AnchorKey) : List ℕ :=
  match i.2 with
  | .assignFiatPayout caller anchor corridor amount =>
    match assignFiatPayout i.1 caller anchor corridor amount b with
    | .ok (entry, _) => if key = (anchor, corridor) then [entry.id] else []
    | .error _ => []
  | _ => []

def historyStep {here : Address} (i : AnchorStep here) (h : AnchorHistory) :
    Except Fault AnchorHistory := do
  let book ← anchorStep i h.book
  pure ⟨book, fun key => h.issued key ++ issuedIds i h.book key⟩

/-- The volume is the sum of the queue, and the collateral covers it. -/
structure AnchorAccount.Sound (v : AnchorAccount) : Prop where
  volume_eq : v.volume = (v.queue.map FiatPayoutEntry.amount).sum
  amounts_pos : ∀ entry ∈ v.queue, 0 < entry.amount
  backed : v.volume ≤ v.locked

/-- The identifiers were issued in increasing order, and the queue keeps some of them. -/
structure AnchorAccount.Numbered (v : AnchorAccount) (issued : List ℕ) : Prop where
  increasing : issued.Pairwise (· < ·)
  issued_le : ∀ id ∈ issued, id ≤ v.lastId
  queued : (v.queue.map FiatPayoutEntry.id).Sublist issued

/-- Every queued payout can be settled at its amount by whoever signs for it. -/
def Settleable (here : Address) (b : AnchorBook) (key : AnchorKey) : Prop :=
  ∀ (env : AnchorEnv here) (caller : Address), env.auth caller = true →
    ∀ entry ∈ b.readPayoutQueue key.1 key.2,
      ∃ r, settleFiatPayout env caller key.1 key.2 entry.id entry.amount b = .ok r

/-- The ledger of one anchor on one corridor. -/
structure LedgerHolds (here : Address) (h : AnchorHistory) (key : AnchorKey) : Prop where
  volume_eq : (h.book.getAnchorState key.1 key.2).volumeUnsettled =
    ((h.book.readPayoutQueue key.1 key.2).map FiatPayoutEntry.amount).sum
  queue_increasing :
    ((h.book.readPayoutQueue key.1 key.2).map FiatPayoutEntry.id).Pairwise (· < ·)
  queue_issued :
    ((h.book.readPayoutQueue key.1 key.2).map FiatPayoutEntry.id).Sublist (h.issued key)
  never_reused : (h.issued key).Pairwise (· < ·)
  backed : (h.book.getAnchorState key.1 key.2).volumeUnsettled ≤
    (h.book.getAnchorState key.1 key.2).collateralLocked
  settleable : Settleable here h.book key

/-- After a successful call on an anchor its assignments are paused if and only if the
collateral is below the minimum ratio in force. -/
def FlagFollows {here : Address} (h : AnchorHistory) (i : AnchorStep here) : Prop :=
  ∀ h', historyStep i h = .ok h' → ∀ key, i.2.key = some key →
    ((h'.book.getAnchorState key.1 key.2).assignmentsPaused = true ↔
      0 < (h'.book.getAnchorState key.1 key.2).volumeUnsettled ∧
      (h'.book.getAnchorState key.1 key.2).collateralLocked * anchorBps <
        h'.book.corridorMinRatioBps key.2 *
          (h'.book.getAnchorState key.1 key.2).volumeUnsettled)

section Runs

variable {here : Address} {i : AnchorStep here} {h h' : AnchorHistory} {b b' : AnchorBook}
  {v v' : AnchorAccount} {key : AnchorKey} {issued : List ℕ} {timestamp minRatioBps : ℕ}
  {call : AnchorCall}

/-- Removing the entry that a search finds removes its amount from the sum. -/
theorem sum_eraseP_of_find {p : FiatPayoutEntry → Bool} {queue : List FiatPayoutEntry}
    {queued : FiatPayoutEntry} (hfind : queue.find? p = some queued) :
    (queue.map FiatPayoutEntry.amount).sum =
      queued.amount + ((queue.eraseP p).map FiatPayoutEntry.amount).sum := by
  induction queue with
  | nil => simp at hfind
  | cons entry rest ih =>
    by_cases hp : p entry = true
    · rw [List.find?_cons_of_pos hp] at hfind
      rw [List.eraseP_cons_of_pos hp, ← Option.some.inj hfind, List.map_cons, List.sum_cons]
    · rw [List.find?_cons_of_neg hp] at hfind
      rw [List.eraseP_cons_of_neg hp, List.map_cons, List.sum_cons, ih hfind, List.map_cons,
        List.sum_cons]
      omega

/-- Reaching a minimum of at least full backing means to cover the volume. -/
theorem AnchorAccount.Covers.volume_le (h : v.Covers minRatioBps) (hm : anchorBps ≤ minRatioBps) :
    v.volume ≤ v.locked := by
  have hle : anchorBps * v.volume ≤ v.locked * anchorBps := (Nat.mul_le_mul_right _ hm).trans h
  rw [mul_comm] at hle
  exact Nat.le_of_mul_le_mul_right hle (by decide)

theorem Booked.sound (hb : Booked timestamp minRatioBps v call v') (hm : anchorBps ≤ minRatioBps)
    (hv : v.Sound) : v'.Sound := by
  cases hb with
  | deposit => exact ⟨hv.volume_eq, hv.amounts_pos, hv.backed.trans (Nat.le_add_right _ _)⟩
  | withdraw _ covered => exact ⟨hv.volume_eq, hv.amounts_pos, covered.volume_le hm⟩
  | assign pos _ covered =>
    refine ⟨?_, ?_, covered.volume_le hm⟩
    · simp [AnchorAccount.assigned, hv.volume_eq]
    · intro entry hmem
      rcases List.mem_append.mp hmem with hmem | hmem
      · exact hv.amounts_pos entry hmem
      · rw [List.mem_singleton.mp hmem]
        exact pos
  | settle found exact_amount volume_le locked_le =>
    refine ⟨?_, fun entry hmem => hv.amounts_pos entry (List.mem_of_mem_eraseP hmem), ?_⟩
    · have hsum := sum_eraseP_of_find found
      rw [← hv.volume_eq] at hsum
      simp only [AnchorAccount.settled]
      omega
    · exact Nat.sub_le_sub_right hv.backed _
  | sync => exact hv

/-- An account that keeps its counter and at most drops entries keeps its numbering. -/
theorem AnchorAccount.Numbered.of_sublist (hn : v.Numbered issued) (hq : v'.queue.Sublist v.queue)
    (hid : v'.lastId = v.lastId) : v'.Numbered issued :=
  ⟨hn.increasing, hid ▸ hn.issued_le, (hq.map _).trans hn.queued⟩

theorem AnchorAccount.Numbered.assigned (hn : v.Numbered issued) (amount openedAt : ℕ) :
    (v.assigned amount openedAt).Numbered (issued ++ [v.lastId + 1]) := by
  refine ⟨?_, ?_, ?_⟩
  · rw [List.pairwise_append]
    refine ⟨hn.increasing, List.pairwise_singleton _ _, fun id hid next hnext => ?_⟩
    rw [List.mem_singleton.mp hnext]
    exact Nat.lt_succ_of_le (hn.issued_le id hid)
  · intro id hid
    rcases List.mem_append.mp hid with hid | hid
    · exact (hn.issued_le id hid).trans (Nat.le_succ _)
    · exact (List.mem_singleton.mp hid).le
  · simp only [AnchorAccount.assigned, List.map_append, List.map_cons, List.map_nil]
    exact hn.queued.append (List.Sublist.refl _)

theorem issuedIds_of_ne {caller anchor : Address} {corridor : AssetId} {amount : ℕ}
    {env : AnchorEnv here} (hne : key ≠ (anchor, corridor)) :
    issuedIds (env, .assignFiatPayout caller anchor corridor amount) b key = [] := by
  simp only [issuedIds]
  split
  · exact if_neg hne
  · rfl

/-- The ids that an accepted call issues for its account keep the numbering. -/
theorem anchorStep_numbered (hk : b.Keyed) (hstep : anchorStep i b = .ok b')
    (hkey : i.2.key = some key)
    (hb : Booked i.1.timestamp (b.corridorMinRatioBps key.2) (b.account key) i.2 v')
    (hn : (b.account key).Numbered issued) : v'.Numbered (issued ++ issuedIds i b key) := by
  obtain ⟨env, call⟩ := i
  cases hb with
  | deposit =>
    rw [issuedIds, List.append_nil]
    exact hn.of_sublist (List.Sublist.refl _) rfl
  | withdraw _ _ =>
    rw [issuedIds, List.append_nil]
    exact hn.of_sublist (List.Sublist.refl _) rfl
  | @assign caller anchor corridor amount _ _ _ =>
    obtain rfl := Option.some.inj hkey
    obtain ⟨entry, h⟩ := snd_map_eq_ok.mp hstep
    obtain ⟨_, _, _, hid, _⟩ := assignFiatPayout_touched hk h
    have hissued : issuedIds (env, .assignFiatPayout caller anchor corridor amount) b
        (anchor, corridor) = [(b.account (anchor, corridor)).lastId + 1] := by
      simp only [issuedIds, h, if_true, hid]
    rw [hissued]
    exact hn.assigned amount env.timestamp
  | settle _ _ _ _ =>
    rw [issuedIds, List.append_nil]
    exact hn.of_sublist List.eraseP_sublist rfl
  | sync =>
    rw [issuedIds, List.append_nil]
    exact hn

theorem issuedIds_of_key_ne (hne : i.2.key ≠ some key) : issuedIds i b key = [] := by
  obtain ⟨env, call⟩ := i
  cases call with
  | assignFiatPayout caller anchor corridor amount =>
    exact issuedIds_of_ne fun heq => hne (congrArg some heq.symm)
  | _ => rfl

/-- The invariant of the whole book. -/
structure AnchorHistory.Sound (h : AnchorHistory) : Prop where
  keyed : h.book.Keyed
  full : h.book.FullBacking
  accounts : ∀ key, (h.book.account key).Sound
  numbered : ∀ key, (h.book.account key).Numbered (h.issued key)

theorem AnchorHistory.Sound.empty : AnchorHistory.empty.Sound where
  keyed := AnchorBook.empty_keyed
  full := AnchorBook.empty_full
  accounts _ := ⟨rfl, List.forall_mem_nil _, le_rfl⟩
  numbered _ := ⟨List.Pairwise.nil, List.forall_mem_nil _, List.Sublist.refl _⟩

theorem historyStep_sound (hs : h.Sound) (hstep : historyStep i h = .ok h') : h'.Sound := by
  simp only [historyStep, bind_eq_ok, pure_eq_ok] at hstep
  obtain ⟨b', hstep, rfl⟩ := hstep
  obtain ⟨hkeyed, hfull⟩ := anchorStep_keyed_full hs.keyed hs.full hstep
  rcases anchorStep_cases hs.keyed hstep with
    ⟨admin, corridor, m, hcall, hm, rfl⟩ | ⟨key, v, hkey, hb, ht⟩
  · refine ⟨hkeyed, hfull, hs.accounts, fun k => ?_⟩
    have hnone : i.2.key ≠ some k := by simp [hcall, AnchorCall.key]
    simp only [issuedIds_of_key_ne hnone, List.append_nil]
    exact hs.numbered k
  · refine ⟨hkeyed, hfull, fun k => ?_, fun k => ?_⟩
    · by_cases hk : k = key
      · have hv := hb.sound (hs.full key.2) (hs.accounts key)
        rw [hk, ht.account_eq]
        exact ⟨hv.volume_eq, hv.amounts_pos, hv.backed⟩
      · rw [ht.others k hk]
        exact hs.accounts k
    · by_cases hk : k = key
      · have hv := anchorStep_numbered hs.keyed hstep hkey hb (hs.numbered key)
        rw [hk, ht.account_eq]
        exact ⟨hv.increasing, hv.issued_le, hv.queued⟩
      · have hne : i.2.key ≠ some k := fun heq => hk (Option.some.inj (heq.symm.trans hkey))
        simp only [issuedIds_of_key_ne hne, List.append_nil, ht.others k hk]
        exact hs.numbered k

/-- In a strictly increasing list an identifier belongs to one entry only. -/
theorem find_of_increasing {queue : List FiatPayoutEntry} {entry : FiatPayoutEntry}
    (hinc : (queue.map FiatPayoutEntry.id).Pairwise (· < ·)) (hmem : entry ∈ queue) :
    queue.find? (fun e => e.id = entry.id) = some entry := by
  induction queue with
  | nil => cases hmem
  | cons first rest ih =>
    rw [List.map_cons, List.pairwise_cons] at hinc
    rcases List.mem_cons.mp hmem with rfl | hmem
    · simp
    · have hlt : first.id < entry.id := hinc.1 _ (List.mem_map_of_mem hmem)
      rw [List.find?_cons_of_neg (by simp [hlt.ne])]
      exact ih hinc.2 hmem

theorem AnchorHistory.Sound.settleable (hs : h.Sound) (key : AnchorKey) :
    Settleable here h.book key := by
  intro env caller hauth entry hmem
  have hv := hs.accounts key
  have hfind := find_of_increasing ((hs.numbered key).increasing.sublist (hs.numbered key).queued)
    hmem
  have hsum := sum_eraseP_of_find hfind
  have hvol : entry.amount ≤ (h.book.getAnchorState key.1 key.2).volumeUnsettled := by
    have heq : (h.book.getAnchorState key.1 key.2).volumeUnsettled =
        ((h.book.account key).queue.map FiatPayoutEntry.amount).sum := hv.volume_eq
    omega
  have hlock : entry.amount ≤ (h.book.getAnchorState key.1 key.2).collateralLocked :=
    hvol.trans hv.backed
  simp only [settleFiatPayout, bind_eq_ok, failIf_eq_ok, okOr_eq_ok, pure_eq_ok, not_not, not_lt,
    Env.requireAuth_eq_ok, exists_const]
  exact ⟨_, hauth, (hv.amounts_pos entry hmem).ne', entry, hfind, rfl, hvol, hlock, rfl⟩

theorem AnchorHistory.Sound.ledgerHolds (hs : h.Sound) (key : AnchorKey) :
    LedgerHolds here h key where
  volume_eq := (hs.accounts key).volume_eq
  queue_increasing := (hs.numbered key).increasing.sublist (hs.numbered key).queued
  queue_issued := (hs.numbered key).queued
  never_reused := (hs.numbered key).increasing
  backed := (hs.accounts key).backed
  settleable := hs.settleable key

theorem AnchorHistory.Sound.flagFollows (hs : h.Sound) (i : AnchorStep here) :
    FlagFollows h i := by
  intro h' hstep key hkey
  simp only [historyStep, bind_eq_ok, pure_eq_ok] at hstep
  obtain ⟨b', hstep, rfl⟩ := hstep
  rcases anchorStep_cases hs.keyed hstep with
    ⟨admin, corridor, m, hcall, _, _⟩ | ⟨key', v, hkey', _, ht⟩
  · simp [hcall, AnchorCall.key] at hkey
  · obtain rfl := Option.some.inj (hkey.symm.trans hkey')
    have hpaused : (b'.account key).paused = true ↔ ¬ (b'.account key).Covers
        (b'.corridorMinRatioBps key.2) := by
      rw [AnchorBook.corridorMinRatioBps, ht.ratios, ht.account_eq]
      exact decide_eq_true_iff
    refine hpaused.trans ⟨fun hlt => ?_, fun hlt => not_le.mpr hlt.2⟩
    refine ⟨Nat.pos_of_ne_zero fun hz => hlt ?_, not_le.mp hlt⟩
    have hz' : (b'.account key).volume = 0 := hz
    rw [AnchorAccount.Covers, hz', Nat.mul_zero]
    exact Nat.zero_le _

/-- In every run the ledger of every anchor holds in every state, and every successful call
leaves the flag of its anchor in accord with the minimum in force. -/
theorem anchor_ledger_throughout (run : List (AnchorStep here)) :
    Throughout historyStep (fun h => ∀ key, LedgerHolds here h key) .empty run ∧
      Along historyStep FlagFollows .empty run :=
  ⟨throughout_of_invariant (I := AnchorHistory.Sound) (fun _ _ _ hs h => historyStep_sound hs h)
      (fun _ hs => hs.ledgerHolds) .empty run,
    along_of_invariant (I := AnchorHistory.Sound) (fun _ _ _ hs h => historyStep_sound hs h)
      (fun _ i hs => hs.flagFollows i) .empty run⟩

end Runs

end StellarFlow.Settlement
