import StellarFlow.Foundation.Obligations
import StellarFlow.Vaults.YieldUnwind

/-!
# The books of the unwinding contract

What was staked with a strategy is in its open position or was settled, and the reserves are what
the strategies said that they paid back. A position that is settled for less than its stake leaves
no claim behind.
-/
namespace StellarFlow.YieldUnwind

open Foundation

/-- The contract with the positions that were opened, and the receipts of those that were settled
with their strategies. -/
structure UnwindHistory where
  unwinder : Unwinder
  opened : List Position
  settled : List (Strategy × UnwindReceipt)

def UnwindHistory.fresh (tokens : Tokens) : UnwindHistory := ⟨.fresh tokens, [], []⟩

/-- Keep the receipt of a position that was settled. -/
def UnwindHistory.settle (h : UnwindHistory) (receipt : UnwindReceipt) (unwinder : Unwinder) :
    UnwindHistory :=
  let strategy := h.unwinder.strategies.lookup receipt.strategyId
  { h with unwinder, settled := h.settled ++ (strategy.map (·, receipt)).toList }

def historyStep {here : Address} (i : UnwindStep here) (h : UnwindHistory) :
    Except Fail UnwindHistory :=
  match i.2 with
  | .openPosition caller strategyId amount => do
    let (position, unwinder) ← openPosition i.1 caller strategyId amount h.unwinder
    pure { h with unwinder, opened := h.opened ++ [position] }
  | .executeUnwind caller strategyId => do
    let (receipt, unwinder) ← executeUnwind i.1 caller strategyId h.unwinder
    pure (h.settle receipt unwinder)
  | .emergencyUnwind caller strategyId => do
    let (receipt, unwinder) ← emergencyUnwind i.1 caller strategyId h.unwinder
    pure (h.settle receipt unwinder)
  | _ => do
    let unwinder ← unwindStep i h.unwinder
    pure { h with unwinder }

/-- What was staked with a strategy, in all its positions. -/
def stakedWith (strategyId : ℕ) (opened : List Position) : ℤ :=
  ((opened.filter (·.strategyId = strategyId)).map (·.stakedAmount)).sum

/-- What of it was settled. -/
def settledWith (strategyId : ℕ) (settled : List (Strategy × UnwindReceipt)) : ℤ :=
  ((settled.filter (·.2.strategyId = strategyId)).map (·.2.stakedAmount)).sum

/-- What the strategies of a token said that they paid back. -/
def recoveredOf (token : Address) (settled : List (Strategy × UnwindReceipt)) : ℤ :=
  ((settled.filter (·.1.baseToken = token)).map (·.2.recoveredAmount)).sum

def Position.openStake (p : Position) : ℤ := if p.active = true then p.stakedAmount else 0

def Unwinder.openStake (s : Unwinder) (strategyId : ℕ) : ℤ :=
  ((s.positions.lookup strategyId).map Position.openStake).getD 0

structure Accounted (h : UnwindHistory) : Prop where
  staked_eq : ∀ strategyId, stakedWith strategyId h.opened =
    settledWith strategyId h.settled + h.unwinder.openStake strategyId
  reserves_eq : ∀ token, (h.unwinder.reserves.lookup token).getD 0 = recoveredOf token h.settled
  recovered_nonneg : ∀ r ∈ h.settled, 0 ≤ r.2.recoveredAmount

section Books

variable {here : Address} {h h' : UnwindHistory} {s s' : Unwinder} {strategyId : ℕ} {p : Position}

theorem fresh_accounted (tokens : Tokens) : Accounted (.fresh tokens) := by
  refine ⟨fun _ => rfl, fun _ => rfl, fun r hr => ?_⟩
  cases hr

theorem openStake_of_insert (hpositions : s'.positions = s.positions.insert strategyId p) (k : ℕ) :
    s'.openStake k = if k = strategyId then p.openStake else s.openStake k := by
  rw [Unwinder.openStake, hpositions, Store.lookup_insert_ite]
  split_ifs <;> rfl

theorem IsOpen.openStake (hopen : IsOpen strategyId s p) :
    s.openStake strategyId = p.stakedAmount := by
  rw [Unwinder.openStake, hopen.1, Option.map_some, Option.getD_some, Position.openStake,
    if_pos hopen.2]

/-- A call that moves no stake and books nothing. -/
theorem Accounted.keeps (ha : Accounted h) (hreserves : s.reserves = h.unwinder.reserves)
    (hstake : ∀ k, s.openStake k = h.unwinder.openStake k) : Accounted { h with unwinder := s } :=
  ⟨fun k => by rw [hstake, ha.staked_eq], fun token => by rw [hreserves, ha.reserves_eq],
    ha.recovered_nonneg⟩

/-- A new position adds its stake to a strategy that has none open. -/
theorem Accounted.opens (ha : Accounted h) (hreserves : s.reserves = h.unwinder.reserves)
    (hpositions : s.positions = h.unwinder.positions.insert p.strategyId p)
    (hactive : p.active = true) (hnone : h.unwinder.openStake p.strategyId = 0) :
    Accounted { h with unwinder := s, opened := h.opened ++ [p] } := by
  refine ⟨fun k => ?_, fun token => by rw [hreserves, ha.reserves_eq], ha.recovered_nonneg⟩
  have hstaked := ha.staked_eq k
  rw [openStake_of_insert hpositions, Position.openStake, if_pos hactive, stakedWith,
    sum_filter_append_singleton, ← stakedWith]
  by_cases hk : k = p.strategyId
  · subst hk
    simp only [decide_true, if_true]
    omega
  · simp only [hk, Ne.symm hk, decide_false, if_false, Bool.false_eq_true]
    omega

/-- Settling closes a position for its whole stake and books what was recovered. -/
theorem Accounted.settles (ha : Accounted h) {env : UnwindEnv here} {strategy : Strategy}
    {recovered : ℤ} {tokens : Tokens} {bypassed : Bool}
    (hstrategy : h.unwinder.strategies.lookup strategyId = some strategy)
    (hopen : IsOpen strategyId h.unwinder p)
    (hrecovers : Recovers env strategy p.stakedAmount h.unwinder recovered tokens) :
    Accounted (h.settle ⟨strategyId, p.stakedAmount, recovered, bypassed, env.timestamp⟩
      (h.unwinder.settled strategyId strategy p recovered tokens)) := by
  have hstake := hopen.openStake
  simp only [UnwindHistory.settle, hstrategy, Option.map_some, Option.toList_some]
  refine ⟨fun k => ?_, fun token => ?_, fun r hr => ?_⟩
  · have hstaked := ha.staked_eq k
    rw [openStake_of_insert (s := h.unwinder) (p := { p with active := false }) rfl,
      Position.openStake, if_neg Bool.false_ne_true, settledWith, sum_filter_append_singleton,
      ← settledWith]
    by_cases hk : k = strategyId
    · subst hk
      simp only [decide_true, if_true]
      omega
    · simp only [hk, Ne.symm hk, decide_false, if_false, Bool.false_eq_true]
      omega
  · have hreserves := ha.reserves_eq token
    rw [recoveredOf, sum_filter_append_singleton, ← recoveredOf]
    simp only [Unwinder.settled, Store.lookup_insert_ite]
    by_cases htoken : token = strategy.baseToken
    · subst htoken
      simp only [decide_true, if_true, Option.getD_some]
      omega
    · simp only [htoken, Ne.symm htoken, decide_false, if_false, Bool.false_eq_true]
      omega
  · rcases List.mem_append.mp hr with hr | hr
    · exact ha.recovered_nonneg r hr
    · obtain rfl := List.mem_singleton.mp hr
      exact hrecovers.2.1

theorem openStake_of_not_isOpen (hclosed : ∀ q, ¬ IsOpen strategyId s q) :
    s.openStake strategyId = 0 := by
  unfold Unwinder.openStake
  cases hlookup : s.positions.lookup strategyId with
  | none => rfl
  | some q => exact if_neg fun hactive => hclosed q ⟨hlookup, hactive⟩

theorem historyStep_accounted {i : UnwindStep here} (ha : Accounted h)
    (hstep : historyStep i h = .ok h') : Accounted h' := by
  obtain ⟨env, call⟩ := i
  cases call with
  | openPosition caller strategyId amount =>
    obtain ⟨⟨p, s⟩, hopen, hstep⟩ := bind_eq_ok.mp hstep
    obtain rfl := pure_eq_ok.mp hstep
    obtain ⟨hclosed, rfl, _, rfl⟩ := openPosition_eq_ok hopen
    exact ha.opens rfl rfl rfl (openStake_of_not_isOpen hclosed)
  | executeUnwind caller strategyId =>
    obtain ⟨_, hexecute, hstep⟩ := bind_eq_ok.mp hstep
    obtain rfl := pure_eq_ok.mp hstep
    obtain ⟨_, strategy, p, _, hstrategy, hopen, _, _, recovered, tokens, hrecovers, rfl⟩ :=
      executeUnwind_eq_ok.mp hexecute
    exact ha.settles hstrategy hopen hrecovers
  | emergencyUnwind caller strategyId =>
    obtain ⟨_, hexecute, hstep⟩ := bind_eq_ok.mp hstep
    obtain rfl := pure_eq_ok.mp hstep
    obtain ⟨_, _, strategy, p, hstrategy, hopen, recovered, tokens, hrecovers, rfl⟩ :=
      emergencyUnwind_eq_ok.mp hexecute
    exact ha.settles hstrategy hopen hrecovers
  | requestUnwind caller strategyId =>
    simp only [historyStep, unwindStep, bind_eq_ok, pure_eq_ok] at hstep
    obtain ⟨_, ⟨_, hrequest, rfl⟩, rfl⟩ := hstep
    obtain ⟨_, p, hopen, rfl⟩ := requestUnwind_eq_ok.mp hrequest
    refine ha.keeps rfl fun k => ?_
    rw [openStake_of_insert (s := h.unwinder) rfl]
    split_ifs with hk
    · rw [hk, hopen.openStake, Position.openStake, if_pos hopen.2]
    · rfl
  | initializeUnwinder admin =>
    simp only [historyStep, unwindStep, initializeUnwinder, bind_eq_ok, pure_eq_ok] at hstep
    obtain ⟨_, ⟨_, _, _, _, rfl⟩, rfl⟩ := hstep
    exact ha.keeps rfl fun _ => rfl
  | declareEmergency caller =>
    simp only [historyStep, unwindStep, declareEmergency, bind_eq_ok, pure_eq_ok] at hstep
    obtain ⟨_, ⟨_, _, rfl⟩, rfl⟩ := hstep
    exact ha.keeps rfl fun _ => rfl
  | resolveEmergency caller =>
    simp only [historyStep, unwindStep, resolveEmergency, bind_eq_ok, pure_eq_ok] at hstep
    obtain ⟨_, ⟨_, _, rfl⟩, rfl⟩ := hstep
    exact ha.keeps rfl fun _ => rfl
  | registerStrategy caller strategyId strategy =>
    simp only [historyStep, unwindStep, registerStrategy, bind_eq_ok, pure_eq_ok] at hstep
    obtain ⟨_, ⟨_, _, _, _, _, _, rfl⟩, rfl⟩ := hstep
    exact ha.keeps rfl fun _ => rfl

/-- The history does not interfere with the contract. -/
theorem historyStep_unwinder (i : UnwindStep here) (h : UnwindHistory) :
    (historyStep i h).map (·.unwinder) = unwindStep i h.unwinder := by
  obtain ⟨env, call⟩ := i
  cases call with
  | openPosition caller strategyId amount =>
    simp only [historyStep, unwindStep]
    cases openPosition env caller strategyId amount h.unwinder <;> rfl
  | executeUnwind caller strategyId =>
    simp only [historyStep, unwindStep]
    cases executeUnwind env caller strategyId h.unwinder <;> rfl
  | emergencyUnwind caller strategyId =>
    simp only [historyStep, unwindStep]
    cases emergencyUnwind env caller strategyId h.unwinder <;> rfl
  | _ =>
    simp only [historyStep]
    cases unwindStep _ h.unwinder <;> rfl

theorem runAll_historyStep_unwinder (run : List (UnwindStep here)) (h : UnwindHistory) :
    (runAll historyStep h run).unwinder = runAll unwindStep h.unwinder run := by
  induction run generalizing h with
  | nil => rfl
  | cons i run ih =>
    have hcommit : (commit historyStep h i).unwinder = commit unwindStep h.unwinder i := by
      have hmap := historyStep_unwinder i h
      cases hstep : historyStep i h with
      | error e =>
        rw [hstep] at hmap
        rw [commit_of_error hstep, commit_of_error hmap.symm]
      | ok h' =>
        rw [hstep] at hmap
        rw [commit_of_ok hstep, commit_of_ok hmap.symm]
    rw [runAll_cons, runAll_cons, ih, hcommit]

end Books

/-- In every run what was staked with a strategy is in its open position or was settled, and the
reserves of a token are what its strategies said that they paid back. -/
theorem unwinds_accounted {here : Address} (tokens : Tokens) (run : List (UnwindStep here)) :
    (runAll historyStep (.fresh tokens) run).unwinder = runAll unwindStep (.fresh tokens) run ∧
      Accounted (runAll historyStep (.fresh tokens) run) :=
  ⟨runAll_historyStep_unwinder run (.fresh tokens),
    runAll_induction (fun _ _ _ ha hstep => historyStep_accounted ha hstep)
      (fresh_accounted tokens) run⟩

end StellarFlow.YieldUnwind
