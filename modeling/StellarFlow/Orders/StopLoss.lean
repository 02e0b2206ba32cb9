import StellarFlow.Host

/-!
# Stop-loss triggers

An owner escrows an amount of one asset that is sold for another once the oracle's price crosses
a threshold. Anybody may submit the execution. The proceeds come out of the contract's balance
of the bought asset, which holds the liquidity of the pool and the escrow of other triggers
alike.
-/
namespace StellarFlow.StopLoss

open Foundation

/-- Scale of all prices. -/
def priceScale : ℤ := 10000000

inductive TriggerError
  | alreadyInitialized
  | notInitialized
  | notAdmin
  | triggerNotFound
  | triggerNotActive
  | notTriggerOwner
  | invalidAmount
  | invalidTriggerPrice
  | invalidSlippageBounds
  | oraclePriceUnavailable
  | triggerPriceNotVerified
  | triggerConditionNotMet
  | slippageExceeded
  | insufficientLiquidity
  | mathOverflow
  deriving DecidableEq, Repr

abbrev Fail := Abort TriggerError

inductive TriggerCondition
  | priceBelow
  | priceAbove
  deriving DecidableEq, Repr

structure StopLossTrigger where
  id : ℕ
  owner : Address
  sellAsset : Address
  buyAsset : Address
  oracleSymbol : Symbol
  sellAmount : ℤ
  stopPrice : ℤ
  condition : TriggerCondition
  minFillPrice : ℤ
  maxFillPrice : ℤ
  minAmountOut : ℤ
  createdAt : ℕ
  active : Bool
  deriving DecidableEq

structure ExecutionResult where
  triggerId : ℕ
  executedAt : ℕ
  twapPrice : ℤ
  fillPrice : ℤ
  proceeds : ℤ

structure Config where
  admin : Address
  oracle : Address

structure TriggerStore where
  config : Option Config
  nextTriggerId : ℕ
  triggers : Store ℕ StopLossTrigger
  tokens : Tokens

/-- A call also sees what the oracle contracts answer. -/
structure TriggerEnv (here : Address) extends Env here where
  getTwap : Address → Symbol → Option ℤ

def TriggerStore.fresh (tokens : Tokens) : TriggerStore := ⟨none, 0, ∅, tokens⟩

def TriggerStore.loadConfig (s : TriggerStore) : Except Fail Config :=
  okOr s.config (.error .notInitialized)

def validateTriggerParams (sellAmount stopPrice minFillPrice maxFillPrice minAmountOut : ℤ) :
    Except Fail Unit := do
  failIf (sellAmount ≤ 0) (.error .invalidAmount)
  failIf (stopPrice ≤ 0) (.error .invalidTriggerPrice)
  failIf (minFillPrice ≤ 0 ∨ maxFillPrice < minFillPrice ∨ minAmountOut < 0)
    (.error .invalidSlippageBounds)

/-- Whether a price fires the trigger. -/
def StopLossTrigger.Breached (g : StopLossTrigger) (twap : ℤ) : Prop :=
  match g.condition with
  | .priceBelow => twap ≤ g.stopPrice
  | .priceAbove => g.stopPrice ≤ twap

instance (g : StopLossTrigger) (twap : ℤ) : Decidable (g.Breached twap) := by
  unfold StopLossTrigger.Breached
  cases g.condition <;> exact inferInstance

section Calls

variable {here : Address} (env : TriggerEnv here)

def initializeHandler (admin oracle : Address) (s : TriggerStore) : Except Fail TriggerStore := do
  hostCall (env.requireAuth admin)
  failIf (s.config.isSome = true) (.error .alreadyInitialized)
  pure { s with config := some ⟨admin, oracle⟩ }

def setOracle (admin oracle : Address) (s : TriggerStore) : Except Fail TriggerStore := do
  hostCall (env.requireAuth admin)
  let config ← s.loadConfig
  failIf (config.admin ≠ admin) (.error .notAdmin)
  pure { s with config := some { config with oracle } }

def registerTrigger (owner sellAsset buyAsset : Address) (oracleSymbol : Symbol)
    (sellAmount stopPrice : i128.Value) (condition : TriggerCondition)
    (minFillPrice maxFillPrice minAmountOut : i128.Value) (s : TriggerStore) :
    Except Fail (StopLossTrigger × TriggerStore) := do
  hostCall (env.requireAuth owner)
  validateTriggerParams sellAmount.1 stopPrice.1 minFillPrice.1 maxFillPrice.1 minAmountOut.1
  let tokens ← hostCall (env.transfer sellAsset owner here sellAmount.1 s.tokens)
  let id := s.nextTriggerId
  let nextTriggerId ← okOr (checkBits 64 (id + 1)) .trap
  let trigger : StopLossTrigger :=
    { id, owner, sellAsset, buyAsset, oracleSymbol, sellAmount := sellAmount.1
      stopPrice := stopPrice.1, condition, minFillPrice := minFillPrice.1
      maxFillPrice := maxFillPrice.1, minAmountOut := minAmountOut.1
      createdAt := env.timestamp, active := true }
  pure (trigger, { s with nextTriggerId, tokens, triggers := s.triggers.insert id trigger })

def readVerifiedTwap (oracle : Address) (oracleSymbol : Symbol) : Except Fail ℤ :=
  okOr (env.getTwap oracle oracleSymbol) (.error .oraclePriceUnavailable)

def executeTrigger (keeper : Address) (triggerId : ℕ) (claimedTwap : ℤ) (s : TriggerStore) :
    Except Fail (ExecutionResult × TriggerStore) := do
  hostCall (env.requireAuth keeper)
  let config ← s.loadConfig
  let trigger ← okOr (s.triggers.lookup triggerId) (.error .triggerNotFound)
  failIf (trigger.active = false) (.error .triggerNotActive)
  let twap ← readVerifiedTwap env config.oracle trigger.oracleSymbol
  failIf (claimedTwap ≠ twap) (.error .triggerPriceNotVerified)
  failIf (¬ trigger.Breached twap) (.error .triggerConditionNotMet)
  failIf (twap < trigger.minFillPrice ∨ trigger.maxFillPrice < twap) (.error .slippageExceeded)
  let product ← okOr (i128.check (trigger.sellAmount * twap)) (.error .mathOverflow)
  let proceeds ← okOr (i128.checkedDiv product priceScale) (.error .mathOverflow)
  failIf (proceeds < trigger.minAmountOut) (.error .slippageExceeded)
  failIf (s.tokens trigger.buyAsset here < proceeds) (.error .insufficientLiquidity)
  let tokens ← hostCall (env.transfer trigger.buyAsset here trigger.owner proceeds s.tokens)
  let result : ExecutionResult :=
    { triggerId, executedAt := env.timestamp, twapPrice := twap, fillPrice := twap, proceeds }
  pure (result,
    { s with tokens, triggers := s.triggers.insert triggerId { trigger with active := false } })

def cancelTrigger (owner : Address) (triggerId : ℕ) (s : TriggerStore) :
    Except Fail (ℤ × TriggerStore) := do
  hostCall (env.requireAuth owner)
  let trigger ← okOr (s.triggers.lookup triggerId) (.error .triggerNotFound)
  failIf (trigger.owner ≠ owner) (.error .notTriggerOwner)
  failIf (trigger.active = false) (.error .triggerNotActive)
  let refund := trigger.sellAmount
  let triggers := s.triggers.insert triggerId { trigger with active := false }
  if 0 < refund then
    let tokens ← hostCall (env.transfer trigger.sellAsset here owner refund s.tokens)
    pure (refund, { s with tokens, triggers })
  else pure (refund, { s with triggers })

def fundPool (funder asset : Address) (amount : i128.Value) (s : TriggerStore) :
    Except Fail (ℤ × TriggerStore) := do
  hostCall (env.requireAuth funder)
  failIf (amount.1 ≤ 0) (.error .invalidAmount)
  let tokens ← hostCall (env.transfer asset funder here amount.1 s.tokens)
  pure (amount.1, { s with tokens })

end Calls

inductive TriggerCall
  | initializeHandler (admin oracle : Address)
  | setOracle (admin oracle : Address)
  | registerTrigger (owner sellAsset buyAsset : Address) (oracleSymbol : Symbol)
      (sellAmount stopPrice : i128.Value) (condition : TriggerCondition)
      (minFillPrice maxFillPrice minAmountOut : i128.Value)
  | executeTrigger (keeper : Address) (triggerId : ℕ) (claimedTwap : ℤ)
  | cancelTrigger (owner : Address) (triggerId : ℕ)
  | fundPool (funder asset : Address) (amount : i128.Value)

/-- How the escrow of a trigger is used up. -/
inductive Release
  | execution (fillPrice proceeds : ℤ)
  | refund (amount : ℤ)

/-- The store and the releases made so far, with the identifiers of their triggers. -/
structure TriggerHistory where
  store : TriggerStore
  releases : List (ℕ × Release)

def TriggerHistory.fresh (tokens : Tokens) : TriggerHistory := ⟨.fresh tokens, []⟩

/-- A call together with the environment it runs in. -/
abbrev TriggerStep (here : Address) := TriggerEnv here × TriggerCall

def triggerStep {here : Address} (i : TriggerStep here) (h : TriggerHistory) :
    Except Fail TriggerHistory :=
  match i.2 with
  | .initializeHandler admin oracle => do
    let store ← initializeHandler i.1 admin oracle h.store
    pure { h with store }
  | .setOracle admin oracle => do
    let store ← setOracle i.1 admin oracle h.store
    pure { h with store }
  | .registerTrigger owner sellAsset buyAsset oracleSymbol sellAmount stopPrice condition
      minFillPrice maxFillPrice minAmountOut => do
    let (_, store) ← registerTrigger i.1 owner sellAsset buyAsset oracleSymbol sellAmount stopPrice
      condition minFillPrice maxFillPrice minAmountOut h.store
    pure { h with store }
  | .executeTrigger keeper triggerId claimedTwap => do
    let (result, store) ← executeTrigger i.1 keeper triggerId claimedTwap h.store
    pure ⟨store, (triggerId, .execution result.fillPrice result.proceeds) :: h.releases⟩
  | .cancelTrigger owner triggerId => do
    let (amount, store) ← cancelTrigger i.1 owner triggerId h.store
    pure ⟨store, (triggerId, .refund amount) :: h.releases⟩
  | .fundPool funder asset amount => do
    let (_, store) ← fundPool i.1 funder asset amount h.store
    pure { h with store }

/-! ## Solvency -/

/-- What a trigger has in escrow of a token. -/
def escrowOf (token : Address) (g : StopLossTrigger) : ℤ :=
  if g.active = true ∧ g.sellAsset = token then g.sellAmount else 0

/-- Escrow of all active triggers in a token. -/
def escrowed (token : Address) (s : TriggerStore) : ℤ :=
  Store.total (fun _ g => escrowOf token g) s.triggers

def Solvent (here : Address) (h : TriggerHistory) : Prop :=
  ∀ token, escrowed token h.store ≤ h.store.tokens token here

/-- A release is a fill within the bounds of the trigger, at the floor of its value, or the
whole escrow. -/
def Release.Proper (g : StopLossTrigger) : Release → Prop
  | execution fillPrice proceeds => g.minFillPrice ≤ fillPrice ∧ fillPrice ≤ g.maxFillPrice ∧
    g.minAmountOut ≤ proceeds ∧ proceeds = g.sellAmount * fillPrice / priceScale
  | refund amount => amount = g.sellAmount

/-- The inactive triggers are those with a release, and no trigger has two. -/
structure ReleasedOnce (h : TriggerHistory) : Prop where
  once : (h.releases.map Prod.fst).Nodup
  proper : ∀ id r, (id, r) ∈ h.releases → ∃ g, h.store.triggers.lookup id = some g ∧
    g.active = false ∧ r.Proper g
  released : ∀ id g, h.store.triggers.lookup id = some g → g.active = false →
    id ∈ h.releases.map Prod.fst

/-- A token that accepts every transfer that its source can cover. -/
def Standard {here : Address} (env : TriggerEnv here) : Prop :=
  ∀ t token src dst amount, 0 ≤ amount → amount ≤ t token src →
    env.accepts t token src dst amount = true

/-- The owner of an active trigger can cancel it and gets the whole escrow back. -/
def Cancellable (here : Address) (h : TriggerHistory) : Prop :=
  ∀ id g, h.store.triggers.lookup id = some g → g.active = true →
    ∀ env : TriggerEnv here, env.auth g.owner = true → Standard env →
      ∃ store, cancelTrigger env g.owner id h.store = .ok (g.sellAmount, store) ∧
        store.tokens g.sellAsset g.owner = h.store.tokens g.sellAsset g.owner + g.sellAmount

/-- The value of an accepted execution leaves the escrow of the other active triggers in the
contract. -/
def SparesEscrow {here : Address} (h : TriggerHistory) (i : TriggerStep here) : Prop :=
  ∀ keeper id claimedTwap, i.2 = .executeTrigger keeper id claimedTwap →
    (∃ h', triggerStep i h = .ok h') → ∀ g, h.store.triggers.lookup id = some g →
      g.sellAmount * claimedTwap / priceScale +
          (escrowed g.buyAsset h.store - escrowOf g.buyAsset g) ≤
        h.store.tokens g.buyAsset here

/-! ## What an accepted call does -/

section Specs

variable {here : Address} {env : TriggerEnv here} {s s' : TriggerStore}

theorem registerTrigger_eq_ok {owner sellAsset buyAsset : Address} {oracleSymbol : Symbol}
    {sellAmount stopPrice : i128.Value} {condition : TriggerCondition}
    {minFillPrice maxFillPrice minAmountOut : i128.Value} {g : StopLossTrigger}
    (h : registerTrigger env owner sellAsset buyAsset oracleSymbol sellAmount stopPrice condition
      minFillPrice maxFillPrice minAmountOut s = .ok (g, s')) :
    env.auth g.owner = true ∧ 0 < g.sellAmount ∧ 0 < g.minFillPrice ∧ g.active = true ∧
      s' = { s with
        nextTriggerId := s.nextTriggerId + 1
        tokens := s.tokens.move g.sellAsset g.owner here g.sellAmount
        triggers := s.triggers.insert s.nextTriggerId g } := by
  simp only [registerTrigger, validateTriggerParams, bind_eq_ok, failIf_eq_ok, okOr_eq_ok,
    checkBits_eq_some, hostCall_eq_ok, Env.requireAuth_eq_ok, Env.transfer_eq_ok, pure_eq_ok,
    Prod.mk.injEq, not_or, not_le, not_lt] at h
  obtain ⟨_, hauth, _, ⟨_, hpos, _, _, hmin, _⟩, _, ⟨_, rfl⟩, _, ⟨_, rfl⟩, rfl, rfl⟩ := h
  exact ⟨hauth, hpos, hmin, rfl, rfl⟩

theorem executeTrigger_eq_ok {keeper : Address} {id : ℕ} {claimedTwap : ℤ} {r : ExecutionResult}
    (h : executeTrigger env keeper id claimedTwap s = .ok (r, s')) :
    ∃ g, s.triggers.lookup id = some g ∧ g.active = true ∧ r.fillPrice = claimedTwap ∧
      g.minFillPrice ≤ claimedTwap ∧ claimedTwap ≤ g.maxFillPrice ∧ g.minAmountOut ≤ r.proceeds ∧
      r.proceeds = (g.sellAmount * claimedTwap).tdiv priceScale ∧
      s' = { s with
        tokens := s.tokens.move g.buyAsset here g.owner r.proceeds
        triggers := s.triggers.insert id { g with active := false } } := by
  simp only [executeTrigger, readVerifiedTwap, IntRange.checkedDiv, bind_eq_ok, failIf_eq_ok,
    okOr_eq_ok, hostCall_eq_ok, Env.requireAuth_eq_ok, Env.transfer_eq_ok, pure_eq_ok,
    IntRange.check_eq_some, Prod.mk.injEq, not_not, not_or, not_lt, Bool.not_eq_false] at h
  obtain ⟨_, _, _, _, g, hg, _, hactive, _, _, _, rfl, _, _, _, ⟨hmin, hmax⟩, _, ⟨_, rfl⟩,
    proceeds, hdiv, _, hout, _, _, _, ⟨_, rfl⟩, rfl, rfl⟩ := h
  rw [if_neg (by decide), IntRange.check_eq_some] at hdiv
  exact ⟨g, hg, hactive, rfl, hmin, hmax, hout, hdiv.2.symm, rfl⟩

/-- With a positive escrow the refund is always transferred. -/
theorem cancelTrigger_eq_ok {owner : Address} {id : ℕ} {amount : ℤ}
    (h : cancelTrigger env owner id s = .ok (amount, s')) :
    ∃ g, s.triggers.lookup id = some g ∧ g.active = true ∧ amount = g.sellAmount ∧
      (0 < g.sellAmount → s' = { s with
        tokens := s.tokens.move g.sellAsset here g.owner amount
        triggers := s.triggers.insert id { g with active := false } }) := by
  simp only [cancelTrigger, bind_eq_ok, failIf_eq_ok, okOr_eq_ok, hostCall_eq_ok,
    Env.requireAuth_eq_ok, not_not, Bool.not_eq_false] at h
  obtain ⟨_, _, g, hg, _, rfl, _, hactive, h⟩ := h
  split_ifs at h with hpos
  · simp only [bind_eq_ok, hostCall_eq_ok, Env.transfer_eq_ok, pure_eq_ok, Prod.mk.injEq] at h
    obtain ⟨_, ⟨_, rfl⟩, rfl, rfl⟩ := h
    exact ⟨g, hg, hactive, rfl, fun _ => rfl⟩
  · obtain ⟨rfl, _⟩ := Prod.mk.inj (pure_eq_ok.mp h)
    exact ⟨g, hg, hactive, rfl, fun hp => absurd hp hpos⟩

theorem fundPool_eq_ok {funder asset : Address} {amount : i128.Value} {r : ℤ}
    (h : fundPool env funder asset amount s = .ok (r, s')) :
    env.auth funder = true ∧ 0 < amount.1 ∧
      s' = { s with tokens := s.tokens.move asset funder here amount.1 } := by
  simp only [fundPool, bind_eq_ok, failIf_eq_ok, hostCall_eq_ok, Env.requireAuth_eq_ok,
    Env.transfer_eq_ok, pure_eq_ok, Prod.mk.injEq, not_le] at h
  obtain ⟨_, hauth, _, hpos, _, ⟨_, rfl⟩, _, rfl⟩ := h
  exact ⟨hauth, hpos, rfl⟩

end Specs

/-! ## What every run keeps -/

/-- Identifiers from the next one on are unused, and every trigger has an owner other than the
contract, an escrow and a price corridor above zero. -/
structure Sound (here : Address) (h : TriggerHistory) : Prop where
  unused : ∀ id, h.store.nextTriggerId ≤ id → h.store.triggers.lookup id = none
  valid : ∀ id g, h.store.triggers.lookup id = some g →
    g.owner ≠ here ∧ 0 < g.sellAmount ∧ 0 < g.minFillPrice
  released : ReleasedOnce h

theorem Sound.fresh (here : Address) (tokens : Tokens) : Sound here (.fresh tokens) where
  unused _ _ := rfl
  valid := by simp [TriggerHistory.fresh, TriggerStore.fresh]
  released := ⟨List.nodup_nil, by simp [TriggerHistory.fresh],
    by simp [TriggerHistory.fresh, TriggerStore.fresh]⟩

section Steps

variable {here : Address} {h h' : TriggerHistory} {s s' : TriggerStore} {id : ℕ}
  {g : StopLossTrigger} {r : Release}

/-- Closing a trigger frees its escrow. -/
theorem escrowed_close (hg : s.triggers.lookup id = some g)
    (hs' : s'.triggers = s.triggers.insert id { g with active := false }) (token : Address) :
    escrowed token s' = escrowed token s - escrowOf token g := by
  have hx := Store.total_insert (fun _ g => escrowOf token g) s.triggers id
    { g with active := false }
  have hclosed : escrowOf token { g with active := false } = 0 := by simp [escrowOf]
  rw [Store.part_of_lookup _ hg, hclosed, ← hs'] at hx
  unfold escrowed
  omega

theorem escrowOf_nonneg (hpos : 0 < g.sellAmount) (token : Address) : 0 ≤ escrowOf token g := by
  unfold escrowOf
  split_ifs
  · exact hpos.le
  · exact le_rfl

/-- A trigger that is closed for the first time is released once. -/
theorem Sound.close (hs : Sound here h) (hg : h.store.triggers.lookup id = some g)
    (hactive : g.active = true) (hr : r.Proper g) (hnext : s.nextTriggerId = h.store.nextTriggerId)
    (htriggers : s.triggers = h.store.triggers.insert id { g with active := false }) :
    Sound here ⟨s, (id, r) :: h.releases⟩ := by
  have hnew : id ∉ h.releases.map Prod.fst := by
    intro hmem
    obtain ⟨⟨k, r'⟩, hrelease, hk⟩ := List.mem_map.mp hmem
    obtain rfl : k = id := hk
    obtain ⟨g', hg', hinactive, _⟩ := hs.released.proper k r' hrelease
    obtain rfl : g = g' := Option.some.inj (hg.symm.trans hg')
    rw [hactive] at hinactive
    cases hinactive
  constructor
  · intro k hk
    have hne : k ≠ id := by
      rintro rfl
      have hnone := hs.unused k (hnext ▸ hk)
      rw [hg] at hnone
      cases hnone
    dsimp only
    rw [htriggers, Finmap.lookup_insert_of_ne _ hne]
    exact hs.unused k (hnext ▸ hk)
  · intro k g' hk
    dsimp only at hk
    rw [htriggers] at hk
    rcases Store.lookup_insert_eq_some.mp hk with ⟨_, rfl⟩ | ⟨_, hk⟩
    · exact hs.valid id g hg
    · exact hs.valid k g' hk
  · constructor
    · exact List.nodup_cons.mpr ⟨hnew, hs.released.once⟩
    · intro k r' hmem
      dsimp only
      rw [htriggers]
      rcases List.mem_cons.mp hmem with heq | hmem
      · obtain ⟨rfl, rfl⟩ := Prod.mk.inj heq
        exact ⟨_, Finmap.lookup_insert _, rfl, hr⟩
      · obtain ⟨g', hg', hrest⟩ := hs.released.proper k r' hmem
        have hne : k ≠ id := fun hk => hnew (hk ▸ List.mem_map_of_mem hmem)
        exact ⟨g', by rwa [Finmap.lookup_insert_of_ne _ hne], hrest⟩
    · intro k g' hk hinactive
      dsimp only at hk
      rw [htriggers] at hk
      rcases Store.lookup_insert_eq_some.mp hk with ⟨rfl, _⟩ | ⟨_, hk⟩
      · exact List.mem_cons_self
      · exact List.mem_cons_of_mem _ (hs.released.released k g' hk hinactive)

/-- A new trigger leaves the others as they are. -/
theorem Sound.register (hs : Sound here h) (howner : g.owner ≠ here) (hpos : 0 < g.sellAmount)
    (hmin : 0 < g.minFillPrice) (hactive : g.active = true)
    (hnext : s.nextTriggerId = h.store.nextTriggerId + 1)
    (htriggers : s.triggers = h.store.triggers.insert h.store.nextTriggerId g) :
    Sound here { h with store := s } := by
  have hfree := hs.unused _ le_rfl
  constructor
  · intro k hk
    dsimp only at hk ⊢
    rw [htriggers, Finmap.lookup_insert_of_ne _ (by omega)]
    exact hs.unused k (by omega)
  · intro k g' hk
    dsimp only at hk
    rw [htriggers] at hk
    rcases Store.lookup_insert_eq_some.mp hk with ⟨_, rfl⟩ | ⟨_, hk⟩
    · exact ⟨howner, hpos, hmin⟩
    · exact hs.valid k g' hk
  · refine ⟨hs.released.once, ?_, ?_⟩
    · intro k r hmem
      obtain ⟨g', hg', hrest⟩ := hs.released.proper k r hmem
      have hne : k ≠ h.store.nextTriggerId := by
        rintro rfl
        rw [hfree] at hg'
        cases hg'
      refine ⟨g', ?_, hrest⟩
      dsimp only
      rwa [htriggers, Finmap.lookup_insert_of_ne _ hne]
    · intro k g' hk hinactive
      dsimp only at hk
      rw [htriggers] at hk
      rcases Store.lookup_insert_eq_some.mp hk with ⟨_, rfl⟩ | ⟨_, hk⟩
      · rw [hactive] at hinactive
        cases hinactive
      · exact hs.released.released k g' hk hinactive

/-- Nothing but the configuration or the balances changed. -/
theorem Sound.congr (hs : Sound here h) (hnext : s.nextTriggerId = h.store.nextTriggerId)
    (htriggers : s.triggers = h.store.triggers) : Sound here { h with store := s } := by
  obtain ⟨hunused, hvalid, hreleased⟩ := hs
  rw [← hnext, ← htriggers] at hunused
  rw [← htriggers] at hvalid
  refine ⟨hunused, hvalid, hreleased.once, ?_, ?_⟩
  · have hproper := hreleased.proper
    rw [← htriggers] at hproper
    exact hproper
  · have hclosed := hreleased.released
    rw [← htriggers] at hclosed
    exact hclosed

theorem Solvent.congr (hv : Solvent here h) (htriggers : s.triggers = h.store.triggers)
    (htokens : ∀ token, h.store.tokens token here ≤ s.tokens token here) :
    Solvent here { h with store := s } := by
  intro token
  have heq : escrowed token s = escrowed token h.store := by rw [escrowed, htriggers, escrowed]
  exact heq.trans_le ((hv token).trans (htokens token))

/-- The proceeds of a fill, as a floor. -/
theorem proceeds_eq {claimedTwap : ℤ} (hpos : 0 < g.sellAmount) (hmin : 0 < g.minFillPrice)
    (hle : g.minFillPrice ≤ claimedTwap) :
    (g.sellAmount * claimedTwap).tdiv priceScale = g.sellAmount * claimedTwap / priceScale :=
  Int.tdiv_eq_ediv_of_nonneg (mul_nonneg hpos.le (hmin.le.trans hle))

/-- A fill keeps the contract solvent exactly when it leaves the other triggers their escrow. -/
theorem executeTrigger_solvent {env : TriggerEnv here} {keeper : Address} {claimedTwap : ℤ}
    {result : ExecutionResult} (hs : Sound here h) (hv : Solvent here h)
    (hok : executeTrigger env keeper id claimedTwap h.store = .ok (result, s))
    (releases : List (ℕ × Release)) :
    Solvent here ⟨s, releases⟩ ↔ ∀ g, h.store.triggers.lookup id = some g →
      g.sellAmount * claimedTwap / priceScale +
          (escrowed g.buyAsset h.store - escrowOf g.buyAsset g) ≤
        h.store.tokens g.buyAsset here := by
  obtain ⟨g, hg, _, _, hmin, _, _, hproceeds, rfl⟩ := executeTrigger_eq_ok hok
  obtain ⟨howner, hpos, hfill⟩ := hs.valid id g hg
  rw [proceeds_eq hpos hfill hmin] at hproceeds
  constructor
  · intro hafter g' hg'
    obtain rfl : g = g' := Option.some.inj (hg.symm.trans hg')
    have hle := hafter g.buyAsset
    dsimp only at hle
    rw [escrowed_close hg rfl, Tokens.move_apply_src _ _ _ howner.symm, if_pos rfl] at hle
    omega
  · intro hspares token
    have hle := hspares g hg
    have hbefore := hv token
    have hescrow := escrowOf_nonneg hpos token
    dsimp only
    rw [escrowed_close hg rfl, Tokens.move_apply_src _ _ _ howner.symm]
    split_ifs with htoken
    · subst htoken
      omega
    · omega

theorem cancelTrigger_solvent {env : TriggerEnv here} {owner : Address} {amount : ℤ}
    (hs : Sound here h) (hv : Solvent here h)
    (hok : cancelTrigger env owner id h.store = .ok (amount, s))
    (releases : List (ℕ × Release)) : Solvent here ⟨s, releases⟩ := by
  obtain ⟨g, hg, hactive, rfl, hstate⟩ := cancelTrigger_eq_ok hok
  obtain ⟨howner, hpos, _⟩ := hs.valid id g hg
  obtain rfl := hstate hpos
  intro token
  have hbefore := hv token
  dsimp only
  rw [escrowed_close hg rfl, Tokens.move_apply_src _ _ _ howner.symm, escrowOf]
  by_cases htoken : token = g.sellAsset
  · rw [if_pos ⟨hactive, htoken.symm⟩, if_pos htoken]
    omega
  · rw [if_neg fun hc => htoken hc.2.symm, if_neg htoken]
    omega

theorem Sound.cancellable (hs : Sound here h) (hv : Solvent here h) : Cancellable here h := by
  intro id g hg hactive env hauth hstandard
  obtain ⟨howner, hpos, _⟩ := hs.valid id g hg
  have hmine : g.sellAmount ≤ escrowed g.sellAsset h.store := by
    have hpart := Store.part_le_total (f := fun _ (g' : StopLossTrigger) =>
      escrowOf g.sellAsset g') (fun k g' hk => escrowOf_nonneg (hs.valid k g' hk).2.1 _) id
    rwa [Store.part_of_lookup _ hg, escrowOf, if_pos ⟨hactive, rfl⟩] at hpart
  have haccepts := hstandard h.store.tokens g.sellAsset here g.owner g.sellAmount hpos.le
    (hmine.trans (hv g.sellAsset))
  have hok : cancelTrigger env g.owner id h.store = .ok (g.sellAmount, { h.store with
      tokens := h.store.tokens.move g.sellAsset here g.owner g.sellAmount
      triggers := h.store.triggers.insert id { g with active := false } }) := by
    simp only [cancelTrigger, bind_eq_ok, failIf_eq_ok, okOr_eq_ok, hostCall_eq_ok,
      Env.requireAuth_eq_ok, not_not]
    refine ⟨(), hauth, g, hg, (), rfl, (), by simp [hactive], ?_⟩
    rw [if_pos hpos]
    simp only [bind_eq_ok, hostCall_eq_ok, Env.transfer_eq_ok]
    exact ⟨_, ⟨haccepts, rfl⟩, rfl⟩
  refine ⟨_, hok, ?_⟩
  dsimp only
  rw [Tokens.move_apply_dst _ _ _ howner, if_pos rfl]

end Steps

/-! ## Runs -/

section Runs

variable {here : Address} {h h' : TriggerHistory} {i : TriggerStep here}

theorem initializeHandler_eq_ok {env : TriggerEnv here} {admin oracle : Address}
    {s s' : TriggerStore} (hok : initializeHandler env admin oracle s = .ok s') :
    ∃ config, s' = { s with config := some config } := by
  simp only [initializeHandler, bind_eq_ok, pure_eq_ok] at hok
  obtain ⟨_, _, _, _, rfl⟩ := hok
  exact ⟨_, rfl⟩

theorem setOracle_eq_ok {env : TriggerEnv here} {admin oracle : Address} {s s' : TriggerStore}
    (hok : setOracle env admin oracle s = .ok s') :
    ∃ config, s' = { s with config := some config } := by
  simp only [setOracle, bind_eq_ok, pure_eq_ok] at hok
  obtain ⟨_, _, _, _, _, _, rfl⟩ := hok
  exact ⟨_, rfl⟩

theorem triggerStep_sound (hs : Sound here h) (hok : triggerStep i h = .ok h') :
    Sound here h' := by
  obtain ⟨env, call⟩ := i
  cases call with
  | initializeHandler admin oracle =>
    obtain ⟨store, hcall, hok⟩ := bind_eq_ok.mp hok
    obtain rfl := pure_eq_ok.mp hok
    obtain ⟨_, rfl⟩ := initializeHandler_eq_ok hcall
    exact hs.congr rfl rfl
  | setOracle admin oracle =>
    obtain ⟨store, hcall, hok⟩ := bind_eq_ok.mp hok
    obtain rfl := pure_eq_ok.mp hok
    obtain ⟨_, rfl⟩ := setOracle_eq_ok hcall
    exact hs.congr rfl rfl
  | registerTrigger owner sellAsset buyAsset oracleSymbol sellAmount stopPrice condition
      minFillPrice maxFillPrice minAmountOut =>
    obtain ⟨⟨g, store⟩, hcall, hok⟩ := bind_eq_ok.mp hok
    obtain rfl := pure_eq_ok.mp hok
    obtain ⟨hauth, hpos, hmin, hactive, rfl⟩ := registerTrigger_eq_ok hcall
    exact hs.register (Env.ne_here_of_auth hauth) hpos hmin hactive rfl rfl
  | executeTrigger keeper id claimedTwap =>
    obtain ⟨⟨result, store⟩, hcall, hok⟩ := bind_eq_ok.mp hok
    obtain rfl := pure_eq_ok.mp hok
    obtain ⟨g, hg, hactive, hfill, hmin, hmax, hout, hproceeds, rfl⟩ := executeTrigger_eq_ok hcall
    obtain ⟨_, hpos, hprice⟩ := hs.valid id g hg
    refine hs.close hg hactive ?_ rfl rfl
    rw [hfill]
    exact ⟨hmin, hmax, hout, hproceeds.trans (proceeds_eq hpos hprice hmin)⟩
  | cancelTrigger owner id =>
    obtain ⟨⟨amount, store⟩, hcall, hok⟩ := bind_eq_ok.mp hok
    obtain rfl := pure_eq_ok.mp hok
    obtain ⟨g, hg, hactive, hamount, hstate⟩ := cancelTrigger_eq_ok hcall
    obtain rfl := hstate (hs.valid id g hg).2.1
    exact hs.close hg hactive hamount rfl rfl
  | fundPool funder asset amount =>
    obtain ⟨⟨_, store⟩, hcall, hok⟩ := bind_eq_ok.mp hok
    obtain rfl := pure_eq_ok.mp hok
    obtain ⟨_, _, rfl⟩ := fundPool_eq_ok hcall
    exact hs.congr rfl rfl

/-- Only a fill can take the escrow of others. -/
theorem triggerStep_solvent (hs : Sound here h) (hv : Solvent here h)
    (hok : triggerStep i h = .ok h') : Solvent here h' ↔ SparesEscrow h i := by
  have haccepted : ∃ h', triggerStep i h = .ok h' := ⟨h', hok⟩
  obtain ⟨env, call⟩ := i
  have other (hn : ∀ keeper id claimedTwap, call ≠ .executeTrigger keeper id claimedTwap) :
      SparesEscrow h (env, call) :=
    fun keeper id claimedTwap he => absurd he (hn keeper id claimedTwap)
  cases call with
  | initializeHandler admin oracle =>
    obtain ⟨store, hcall, hok⟩ := bind_eq_ok.mp hok
    obtain rfl := pure_eq_ok.mp hok
    obtain ⟨_, rfl⟩ := initializeHandler_eq_ok hcall
    exact iff_of_true (hv.congr rfl fun _ => le_rfl) (other (by simp))
  | setOracle admin oracle =>
    obtain ⟨store, hcall, hok⟩ := bind_eq_ok.mp hok
    obtain rfl := pure_eq_ok.mp hok
    obtain ⟨_, rfl⟩ := setOracle_eq_ok hcall
    exact iff_of_true (hv.congr rfl fun _ => le_rfl) (other (by simp))
  | registerTrigger owner sellAsset buyAsset oracleSymbol sellAmount stopPrice condition
      minFillPrice maxFillPrice minAmountOut =>
    obtain ⟨⟨g, store⟩, hcall, hok⟩ := bind_eq_ok.mp hok
    obtain rfl := pure_eq_ok.mp hok
    obtain ⟨hauth, hpos, _, hactive, rfl⟩ := registerTrigger_eq_ok hcall
    refine iff_of_true (fun token => ?_) (other (by simp))
    have hbefore := hv token
    have hescrow : escrowOf token g = if token = g.sellAsset then g.sellAmount else 0 := by
      simp only [escrowOf, hactive, true_and, eq_comm]
    dsimp only
    rw [Tokens.move_apply_dst _ _ _ (Env.ne_here_of_auth hauth).symm, escrowed,
      Store.total_insert_of_none _ _ (hs.unused _ le_rfl), hescrow]
    unfold escrowed at hbefore
    omega
  | executeTrigger keeper id claimedTwap =>
    obtain ⟨⟨result, store⟩, hcall, hok⟩ := bind_eq_ok.mp hok
    obtain rfl := pure_eq_ok.mp hok
    rw [executeTrigger_solvent hs hv hcall]
    constructor
    · intro hspares _ _ _ he _
      cases he
      exact hspares
    · exact fun hspares => hspares keeper id claimedTwap rfl haccepted
  | cancelTrigger owner id =>
    obtain ⟨⟨amount, store⟩, hcall, hok⟩ := bind_eq_ok.mp hok
    obtain rfl := pure_eq_ok.mp hok
    exact iff_of_true (cancelTrigger_solvent hs hv hcall _) (other (by simp))
  | fundPool funder asset amount =>
    obtain ⟨⟨_, store⟩, hcall, hok⟩ := bind_eq_ok.mp hok
    obtain rfl := pure_eq_ok.mp hok
    obtain ⟨hauth, hpos, rfl⟩ := fundPool_eq_ok hcall
    refine iff_of_true (hv.congr rfl fun token => ?_) (other (by simp))
    dsimp only
    rw [Tokens.move_apply_dst _ _ _ (Env.ne_here_of_auth hauth).symm]
    split_ifs <;> omega

/-- In every run each escrow is released at most once, by a proper fill or in full. The contract
is solvent in every state, and every active trigger can be cancelled there, in exactly the runs
whose fills leave the other triggers their escrow. -/
theorem stopLoss_solvent_iff {tokens : Tokens} (hstart : ∀ token, 0 ≤ tokens token here)
    (run : List (TriggerStep here)) :
    Throughout triggerStep ReleasedOnce (.fresh tokens) run ∧
      (Throughout triggerStep (fun h => Solvent here h ∧ Cancellable here h) (.fresh tokens) run ↔
        Along triggerStep SparesEscrow (.fresh tokens) run) := by
  have hfresh := Sound.fresh here tokens
  have hsound : ∀ h (i : TriggerStep here), Sound here h → Sound here (commit triggerStep h i) :=
    fun h i hs => commit_induction hs fun _ hok => triggerStep_sound hs hok
  refine ⟨throughout_of_invariant (fun _ _ _ hs hok => triggerStep_sound hs hok)
    (fun _ hs => hs.released) hfresh run, ?_⟩
  refine throughout_and_iff_along (fun h i hs _ => hsound h i hs) (fun h i hs hv => ?_)
    (fun h hs hv => hs.cancellable hv) hfresh hstart run
  refine (commit_iff_of_accepted hv fun h' hok => (triggerStep_solvent hs hv hok).trans
    ⟨fun hc _ => hc, fun hc => hc ⟨h', hok⟩⟩).trans ?_
  exact ⟨fun hc keeper id twap he hok => hc hok keeper id twap he hok, fun hc _ => hc⟩

end Runs

/-- The oracle answers with the price one. -/
def triggerCall (call : TriggerCall) : TriggerStep ⟨0⟩ :=
  (⟨.standard _ 0 none, fun _ _ => some 10000000⟩, call)

/-- Two triggers in opposite directions over the same two assets, of which the second fires. -/
def oppositeTriggersRun : List (TriggerStep ⟨0⟩) :=
  [triggerCall (.initializeHandler ⟨1⟩ ⟨8⟩),
    triggerCall (.registerTrigger ⟨2⟩ ⟨10⟩ ⟨11⟩ ⟨7⟩ (units 100) (units 10000000) .priceBelow
      (units 1) (units 20000000) (units 0)),
    triggerCall (.registerTrigger ⟨3⟩ ⟨11⟩ ⟨10⟩ ⟨7⟩ (units 100) (units 10000000) .priceBelow
      (units 1) (units 20000000) (units 0)),
    triggerCall (.executeTrigger ⟨4⟩ 1 10000000)]

/-- The fill of the second trigger pays out the escrow of the first, which cannot be cancelled. -/
theorem oppositeTriggersRun_insolvent :
    let start : Tokens := fun _ holder => if holder = ⟨0⟩ then 0 else 1000
    let h := runAll triggerStep (.fresh start) oppositeTriggersRun
    h.store.tokens ⟨10⟩ ⟨0⟩ = 0 ∧ escrowed ⟨10⟩ h.store = 100 ∧
      (commit triggerStep h (triggerCall (.cancelTrigger ⟨2⟩ 0))).releases.length = 1 ∧
      ¬ Throughout triggerStep (Solvent ⟨0⟩) (.fresh start) oppositeTriggersRun := by
  intro start h
  have hstate : h.store.tokens ⟨10⟩ ⟨0⟩ = 0 ∧ escrowed ⟨10⟩ h.store = 100 ∧
      (commit triggerStep h (triggerCall (.cancelTrigger ⟨2⟩ 0))).releases.length = 1 := by
    decide +kernel
  refine ⟨hstate.1, hstate.2.1, hstate.2.2, fun ht => ?_⟩
  have hle := ht.last ⟨10⟩
  change escrowed ⟨10⟩ h.store ≤ h.store.tokens ⟨10⟩ ⟨0⟩ at hle
  rw [hstate.1, hstate.2.1] at hle
  exact absurd hle (by norm_num)

/-- A pool that holds enough for a fill beside the escrow. -/
def fundedRun : List (TriggerStep ⟨0⟩) :=
  [triggerCall (.initializeHandler ⟨1⟩ ⟨8⟩),
    triggerCall (.fundPool ⟨5⟩ ⟨11⟩ (units 100)),
    triggerCall (.registerTrigger ⟨2⟩ ⟨10⟩ ⟨11⟩ ⟨7⟩ (units 100) (units 10000000) .priceBelow
      (units 1) (units 20000000) (units 0)),
    triggerCall (.executeTrigger ⟨4⟩ 0 10000000)]

theorem fundedRun_solvent :
    let start : Tokens := fun _ holder => if holder = ⟨0⟩ then 0 else 1000
    Throughout triggerStep (fun h => Solvent ⟨0⟩ h ∧ Cancellable ⟨0⟩ h) (.fresh start)
      fundedRun := by
  intro start
  refine (stopLoss_solvent_iff (fun _ => le_rfl) fundedRun).2.mpr
    ⟨fun _ _ _ he => (by cases he), fun _ _ _ he => (by cases he), fun _ _ _ he => (by cases he),
      ?_, trivial⟩
  rintro _ _ _ he _ g hg
  cases he
  have hcover : Option.map (fun g : StopLossTrigger =>
      decide (g.sellAmount * 10000000 / priceScale +
        (escrowed g.buyAsset (runAll triggerStep (.fresh start) (fundedRun.take 3)).store -
          escrowOf g.buyAsset g) ≤
        (runAll triggerStep (.fresh start) (fundedRun.take 3)).store.tokens g.buyAsset ⟨0⟩))
      ((runAll triggerStep (.fresh start) (fundedRun.take 3)).store.triggers.lookup 0) =
      some true := by
    decide +kernel
  obtain ⟨g', hg', hle⟩ := Option.map_eq_some_iff.mp hcover
  obtain rfl : g' = g := Option.some.inj (hg'.symm.trans hg)
  exact of_decide_eq_true hle

end StellarFlow.StopLoss
