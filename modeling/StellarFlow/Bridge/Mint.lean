import StellarFlow.Bridge.RateLimit

/-!
# The ledger of wrapped assets

Each wrapped asset has a controller, a supply and a cap. The supply is stored beside the balances
and never recounted: a mint or a burn moves one balance and the supply by the same amount.
-/
namespace StellarFlow.Bridge

open Foundation

structure BridgeAssetConfig where
  assetCode : Symbol
  controller : Address
  maxSupply : ℤ
  totalSupply : ℤ
  deriving DecidableEq

/-- The storage of the wrapped assets, with the rate limits and the flag against re-entry. -/
structure WrappedLedger where
  configs : Store Symbol BridgeAssetConfig
  balances : Store (Symbol × Address) ℤ
  limits : RateLimits
  reentrancyLock : Bool

namespace WrappedLedger

/-- Before the first asset is registered. -/
def deployed (limits : RateLimits) : WrappedLedger := ⟨∅, ∅, limits, false⟩

def loadConfig (assetCode : Symbol) (l : WrappedLedger) : Except Fault BridgeAssetConfig :=
  okOr (l.configs.lookup assetCode) (Fault.error .bridgeAssetNotRegistered)

def saveConfig (config : BridgeAssetConfig) (l : WrappedLedger) : WrappedLedger :=
  { l with configs := l.configs.insert config.assetCode config }

def balanceOf (assetCode : Symbol) (holder : Address) (l : WrappedLedger) : ℤ :=
  (l.balances.lookup (assetCode, holder)).getD 0

def lock (l : WrappedLedger) : Except Fault WrappedLedger := do
  failIf (l.reentrancyLock = true) (Fault.error .reentrancyDetected)
  pure { l with reentrancyLock := true }

def unlock (l : WrappedLedger) : WrappedLedger := { l with reentrancyLock := false }

/-- Only the bounds of the supply are checked: the balances cannot be enumerated. -/
def assertBalanceInvariant (assetCode : Symbol) (l : WrappedLedger) : Except Fault Unit := do
  let config ← l.loadConfig assetCode
  failIf (config.totalSupply < 0) Fault.trap
  failIf (config.maxSupply < config.totalSupply) Fault.trap

end WrappedLedger

section Calls

variable {here : Address} (env : BridgeEnv here)

def registerWrappedAsset (admin : Address) (assetCode : Symbol) (controller : Address)
    (maxSupply : ℤ) (l : WrappedLedger) : Except Fault (BridgeAssetConfig × WrappedLedger) := do
  requireProtocolAdmin env admin
  failIf (maxSupply ≤ 0) (Fault.error .bridgeInvalidMaxSupply)
  failIf ((l.configs.lookup assetCode).isSome = true) (Fault.error .bridgeAssetAlreadyRegistered)
  let config : BridgeAssetConfig := ⟨assetCode, controller, maxSupply, 0⟩
  pure (config, l.saveConfig config)

def setBridgeController (admin : Address) (assetCode : Symbol) (newController : Address)
    (l : WrappedLedger) : Except Fault (BridgeAssetConfig × WrappedLedger) := do
  requireProtocolAdmin env admin
  let config ← l.loadConfig assetCode
  let config := { config with controller := newController }
  pure (config, l.saveConfig config)

def setWrappedMintRateLimit (admin : Address) (assetCode : Symbol) (maxRollingAmount : ℤ)
    (l : WrappedLedger) : Except Fault (MintRateLimit × WrappedLedger) := do
  let (limit, limits) ← setLimit env admin (.wrapped assetCode) maxRollingAmount l.limits
  pure (limit, { l with limits := limits })

def mintImpl (controller : Address) (assetCode : Symbol) (recipient : Address) (amount : ℤ)
    (requireControllerAuth acquireReentrancyGuard : Bool) (l : WrappedLedger) :
    Except Fault (ℤ × WrappedLedger) := do
  let l ← (if acquireReentrancyGuard then l.lock else pure l)
  failIf (amount ≤ 0) (Fault.error .bridgeInvalidAmount)
  let config ← l.loadConfig assetCode
  failIf (config.controller ≠ controller) (Fault.error .bridgeNotController)
  (if requireControllerAuth then env.requireAuth controller else pure ())
  l.assertBalanceInvariant assetCode
  let newTotalSupply ←
    okOr (i128.check (config.totalSupply + amount)) (Fault.error .mathOverflow)
  failIf (config.maxSupply < newTotalSupply) (Fault.error .bridgeSupplyCapExceeded)
  let limits ← enforceAndRecord env (.wrapped assetCode) amount config.maxSupply l.limits
  let newBalance ←
    okOr (i128.check (l.balanceOf assetCode recipient + amount)) (Fault.error .mathOverflow)
  let l := { l with
    limits := limits
    balances := l.balances.insert (assetCode, recipient) newBalance }
  let l := l.saveConfig { config with totalSupply := newTotalSupply }
  l.assertBalanceInvariant assetCode
  pure (newTotalSupply, if acquireReentrancyGuard then l.unlock else l)

def mint (controller : Address) (assetCode : Symbol) (recipient : Address) (amount : ℤ)
    (l : WrappedLedger) : Except Fault (ℤ × WrappedLedger) :=
  mintImpl env controller assetCode recipient amount true false l

/-- The validators of an attestation stand in for the signature of the controller. -/
def mintForBridge (controller : Address) (assetCode : Symbol) (recipient : Address) (amount : ℤ)
    (l : WrappedLedger) : Except Fault (ℤ × WrappedLedger) :=
  mintImpl env controller assetCode recipient amount false true l

def burn (controller : Address) (assetCode : Symbol) (holder : Address) (amount : ℤ)
    (l : WrappedLedger) : Except Fault (ℤ × WrappedLedger) := do
  failIf (amount ≤ 0) (Fault.error .bridgeInvalidAmount)
  let config ← l.loadConfig assetCode
  failIf (config.controller ≠ controller) (Fault.error .bridgeNotController)
  env.requireAuth controller
  l.assertBalanceInvariant assetCode
  let balance := l.balanceOf assetCode holder
  failIf (balance < amount) (Fault.error .bridgeInsufficientBalance)
  let newBalance := balance - amount
  let l := { l with
    balances :=
      if newBalance = 0 then l.balances.erase (assetCode, holder)
      else l.balances.insert (assetCode, holder) newBalance }
  let newTotalSupply ← okOr (i128.check (config.totalSupply - amount)) (Fault.error .mathOverflow)
  let l := l.saveConfig { config with totalSupply := newTotalSupply }
  l.assertBalanceInvariant assetCode
  pure (newTotalSupply, l)

/-- The entry points of the controller hold the guard around the call. -/
def guarded (call : WrappedLedger → Except Fault (ℤ × WrappedLedger)) (l : WrappedLedger) :
    Except Fault (ℤ × WrappedLedger) := do
  let l ← l.lock
  let (newTotalSupply, l) ← call l
  pure (newTotalSupply, l.unlock)

def mintWrapped (controller : Address) (assetCode : Symbol) (recipient : Address) (amount : ℤ) :
    WrappedLedger → Except Fault (ℤ × WrappedLedger) :=
  guarded (mint env controller assetCode recipient amount)

def burnWrapped (controller : Address) (assetCode : Symbol) (holder : Address) (amount : ℤ) :
    WrappedLedger → Except Fault (ℤ × WrappedLedger) :=
  guarded (burn env controller assetCode holder amount)

end Calls

/-! ## What the calls do -/

namespace WrappedLedger

/-- What all holders of an asset have together. -/
def heldOf (assetCode : Symbol) (l : WrappedLedger) : ℤ :=
  Store.total (fun key balance => if key.1 = assetCode then balance else 0) l.balances

/-- The stored supply, nothing for an asset that is not registered. -/
def supplyOf (assetCode : Symbol) (l : WrappedLedger) : ℤ :=
  ((l.configs.lookup assetCode).map BridgeAssetConfig.totalSupply).getD 0

/-- A configuration is stored under its own code. -/
def Keyed (l : WrappedLedger) : Prop :=
  ∀ assetCode config, l.configs.lookup assetCode = some config → config.assetCode = assetCode

variable {l l' : WrappedLedger} {assetCode : Symbol}

theorem loadConfig_eq_ok {config : BridgeAssetConfig} :
    l.loadConfig assetCode = .ok config ↔ l.configs.lookup assetCode = some config :=
  okOr_eq_ok

theorem lock_eq_ok (h : l.lock = .ok l') : l' = { l with reentrancyLock := true } := by
  obtain ⟨_, -, hwrite⟩ := bind_eq_ok.mp h
  exact (pure_eq_ok.mp hwrite).symm

/-- The assertion after a write reads back what was written. -/
theorem bounds_of_saved {config : BridgeAssetConfig} {u : Unit}
    (h : (l.saveConfig config).assertBalanceInvariant assetCode = .ok u)
    (hcode : config.assetCode = assetCode) :
    0 ≤ config.totalSupply ∧ config.totalSupply ≤ config.maxSupply := by
  obtain ⟨saved, hload, h⟩ := bind_eq_ok.mp h
  rw [loadConfig_eq_ok, saveConfig, hcode, Finmap.lookup_insert] at hload
  obtain rfl := Option.some.inj hload
  obtain ⟨_, hlower, hupper⟩ := bind_eq_ok.mp h
  rw [failIf_eq_ok, not_lt] at hlower hupper
  exact ⟨hlower, hupper⟩

end WrappedLedger

/-- One balance and the supply of its asset move by the same amount, and the supply stays within
its bounds. -/
structure Issued (assetCode : Symbol) (holder : Address) (delta : ℤ) (l l' : WrappedLedger) :
    Prop where
  configs : ∃ config, l.configs.lookup assetCode = some config ∧
    0 ≤ config.totalSupply + delta ∧ config.totalSupply + delta ≤ config.maxSupply ∧
    l'.configs = l.configs.insert assetCode
      { config with totalSupply := config.totalSupply + delta }
  balance : l'.balanceOf assetCode holder = l.balanceOf assetCode holder + delta
  covered : 0 ≤ l.balanceOf assetCode holder → 0 ≤ l.balanceOf assetCode holder + delta
  others : ∀ key, key ≠ (assetCode, holder) → l'.balances.lookup key = l.balances.lookup key
  windows : ∀ asset, asset ≠ .wrapped assetCode → l'.limits.window asset = l.limits.window asset

section Effects

variable {here : Address} {env : BridgeEnv here} {l l' : WrappedLedger} {assetCode : Symbol}
  {controller holder : Address} {amount : ℤ} {r : ℤ}

theorem mintImpl_eq_ok {requireControllerAuth acquireReentrancyGuard : Bool} (hk : l.Keyed)
    (h : mintImpl env controller assetCode holder amount requireControllerAuth
      acquireReentrancyGuard l = .ok (r, l')) :
    Issued assetCode holder amount l l' := by
  rw [mintImpl] at h
  obtain ⟨held, hguard, h⟩ := bind_eq_ok.mp h
  obtain ⟨_, hpos, h⟩ := bind_eq_ok.mp h
  obtain ⟨config, hload, h⟩ := bind_eq_ok.mp h
  obtain ⟨_, -, h⟩ := bind_eq_ok.mp h
  obtain ⟨_, -, h⟩ := bind_eq_ok.mp h
  obtain ⟨_, -, h⟩ := bind_eq_ok.mp h
  obtain ⟨supply, hsupply, h⟩ := bind_eq_ok.mp h
  obtain ⟨_, -, h⟩ := bind_eq_ok.mp h
  obtain ⟨limits, hlimits, h⟩ := bind_eq_ok.mp h
  obtain ⟨balance, hbalance, h⟩ := bind_eq_ok.mp h
  obtain ⟨_, hassert, hwrite⟩ := bind_eq_ok.mp h
  obtain ⟨-, rfl⟩ := IntRange.check_eq_some.mp (okOr_eq_ok.mp hsupply)
  obtain ⟨-, rfl⟩ := IntRange.check_eq_some.mp (okOr_eq_ok.mp hbalance)
  obtain ⟨flag, rfl⟩ : ∃ flag, held = { l with reentrancyLock := flag } := by
    cases acquireReentrancyGuard with
    | false => exact ⟨l.reentrancyLock, (pure_eq_ok.mp hguard).symm⟩
    | true => exact ⟨true, WrappedLedger.lock_eq_ok hguard⟩
  rw [failIf_eq_ok, not_le] at hpos
  rw [WrappedLedger.loadConfig_eq_ok] at hload
  have hcode : config.assetCode = assetCode := hk assetCode config hload
  obtain ⟨hlower, hupper⟩ := WrappedLedger.bounds_of_saved hassert hcode
  obtain ⟨-, hwritten⟩ := Prod.mk.inj (pure_eq_ok.mp hwrite)
  have hconfigs : l'.configs = l.configs.insert assetCode
      { config with totalSupply := config.totalSupply + amount } := by
    rw [← hwritten, ← hcode]
    split_ifs <;> rfl
  have hbalances : l'.balances =
      l.balances.insert (assetCode, holder) (l.balanceOf assetCode holder + amount) := by
    rw [← hwritten]
    split_ifs <;> rfl
  have hrecorded : l'.limits = limits := by
    rw [← hwritten]
    split_ifs <;> rfl
  refine ⟨⟨config, hload, hlower, hupper, hconfigs⟩, ?_, fun hold => by omega,
    fun key hkey => ?_, fun asset hasset => ?_⟩
  · rw [WrappedLedger.balanceOf, hbalances, Finmap.lookup_insert, Option.getD_some]
  · rw [hbalances, Finmap.lookup_insert_of_ne _ hkey]
  · rw [hrecorded, window_of_enforceAndRecord hlimits hasset]

theorem burn_eq_ok (hk : l.Keyed)
    (h : burn env controller assetCode holder amount l = .ok (r, l')) :
    Issued assetCode holder (-amount) l l' := by
  rw [burn] at h
  obtain ⟨_, -, h⟩ := bind_eq_ok.mp h
  obtain ⟨config, hload, h⟩ := bind_eq_ok.mp h
  obtain ⟨_, -, h⟩ := bind_eq_ok.mp h
  obtain ⟨_, -, h⟩ := bind_eq_ok.mp h
  obtain ⟨_, -, h⟩ := bind_eq_ok.mp h
  obtain ⟨_, henough, h⟩ := bind_eq_ok.mp h
  obtain ⟨supply, hsupply, h⟩ := bind_eq_ok.mp h
  obtain ⟨_, hassert, hwrite⟩ := bind_eq_ok.mp h
  obtain ⟨-, rfl⟩ := IntRange.check_eq_some.mp (okOr_eq_ok.mp hsupply)
  obtain ⟨-, rfl⟩ := Prod.mk.inj (pure_eq_ok.mp hwrite)
  rw [failIf_eq_ok, not_lt] at henough
  rw [WrappedLedger.loadConfig_eq_ok] at hload
  have hcode : config.assetCode = assetCode := hk assetCode config hload
  obtain ⟨hlower, hupper⟩ := WrappedLedger.bounds_of_saved hassert hcode
  refine ⟨⟨config, hload, hlower, hupper, ?_⟩, ?_, fun _ => by omega, fun key hkey => ?_,
    fun _ _ => rfl⟩
  · exact congrArg (fun code => l.configs.insert code
      { config with totalSupply := config.totalSupply - amount }) hcode
  · exact (Store.getD_write_or_erase l.balances (assetCode, holder) _).trans
      (sub_eq_add_neg _ _)
  · exact (Store.lookup_write_or_erase l.balances (assetCode, holder) key _).trans (if_neg hkey)

end Effects

/-! ## Runs -/

inductive MintCall where
  | registerWrappedAsset (admin : Address) (assetCode : Symbol) (controller : Address)
      (maxSupply : ℤ)
  | setBridgeController (admin : Address) (assetCode : Symbol) (newController : Address)
  | setWrappedMintRateLimit (admin : Address) (assetCode : Symbol) (maxRollingAmount : ℤ)
  | mintWrapped (controller : Address) (assetCode : Symbol) (recipient : Address) (amount : ℤ)
  | mintForBridge (controller : Address) (assetCode : Symbol) (recipient : Address) (amount : ℤ)
  | burnWrapped (controller : Address) (assetCode : Symbol) (holder : Address) (amount : ℤ)

section Runs

variable {here : Address}

def MintCall.exec (env : BridgeEnv here) (l : WrappedLedger) :
    MintCall → Except Fault WrappedLedger
  | registerWrappedAsset admin assetCode controller maxSupply =>
    Prod.snd <$> Bridge.registerWrappedAsset env admin assetCode controller maxSupply l
  | setBridgeController admin assetCode newController =>
    Prod.snd <$> Bridge.setBridgeController env admin assetCode newController l
  | setWrappedMintRateLimit admin assetCode maxRollingAmount =>
    Prod.snd <$> Bridge.setWrappedMintRateLimit env admin assetCode maxRollingAmount l
  | mintWrapped controller assetCode recipient amount =>
    Prod.snd <$> Bridge.mintWrapped env controller assetCode recipient amount l
  | mintForBridge controller assetCode recipient amount =>
    Prod.snd <$> Bridge.mintForBridge env controller assetCode recipient amount l
  | burnWrapped controller assetCode holder amount =>
    Prod.snd <$> Bridge.burnWrapped env controller assetCode holder amount l

/-- The asset that a call mints or burns. -/
def MintCall.issues : MintCall → Option Symbol
  | mintWrapped _ assetCode _ _ | mintForBridge _ assetCode _ _ | burnWrapped _ assetCode _ _ =>
    some assetCode
  | _ => none

def mintStep (i : BridgeEnv here × MintCall) (l : WrappedLedger) : Except Fault WrappedLedger :=
  i.2.exec i.1 l

/-- The balances of a registered asset add up to its supply, which is within its bounds. -/
def Balanced (l : WrappedLedger) : Prop :=
  (∀ assetCode config, l.configs.lookup assetCode = some config →
    l.heldOf assetCode = config.totalSupply ∧ 0 ≤ config.totalSupply ∧
      config.totalSupply ≤ config.maxSupply) ∧
  ∀ assetCode holder, 0 ≤ l.balanceOf assetCode holder

/-- A mint or a burn of one asset changes nothing of another. -/
def KeepsOthers (l : WrappedLedger) (i : BridgeEnv here × MintCall) : Prop :=
  ∀ assetCode, i.2.issues = some assetCode → ∀ other, other ≠ assetCode →
    (commit mintStep l i).configs.lookup other = l.configs.lookup other ∧
      (∀ holder, (commit mintStep l i).balanceOf other holder = l.balanceOf other holder) ∧
      (commit mintStep l i).limits.window (.wrapped other) = l.limits.window (.wrapped other)

/-- A failed call changes nothing. -/
def KeepsLedger (l : WrappedLedger) (i : BridgeEnv here × MintCall) : Prop :=
  ∀ e, mintStep i l = .error e → commit mintStep l i = l

/-- What every call keeps, also of the assets that are not registered. -/
structure Backed (l : WrappedLedger) : Prop where
  keyed : l.Keyed
  bounded : ∀ assetCode config, l.configs.lookup assetCode = some config →
    0 ≤ config.totalSupply ∧ config.totalSupply ≤ config.maxSupply
  supply : ∀ assetCode, l.heldOf assetCode = l.supplyOf assetCode
  covered : ∀ assetCode holder, 0 ≤ l.balanceOf assetCode holder

variable {l l' : WrappedLedger} {assetCode other : Symbol} {holder : Address} {delta : ℤ}
  {i : BridgeEnv here × MintCall}

theorem Backed.balanced (hb : Backed l) : Balanced l := by
  refine ⟨fun assetCode config hconfig => ⟨?_, hb.bounded assetCode config hconfig⟩, hb.covered⟩
  rw [hb.supply, WrappedLedger.supplyOf, hconfig]
  rfl

/-- What one holder contributes to what is held of an asset. -/
theorem part_balances (key : Symbol × Address) (l : WrappedLedger) (assetCode : Symbol) :
    Store.part (fun (key : Symbol × Address) balance => if key.1 = assetCode then balance else 0)
        l.balances key =
      if key.1 = assetCode then l.balanceOf key.1 key.2 else 0 := by
  rw [Store.part, WrappedLedger.balanceOf]
  cases l.balances.lookup key with
  | none => simp
  | some balance => rfl

namespace Issued

theorem heldOf_eq (hi : Issued assetCode holder delta l l') (other : Symbol) :
    l'.heldOf other = l.heldOf other + if other = assetCode then delta else 0 := by
  have hexchange := Store.total_exchange
    (fun (key : Symbol × Address) balance => if key.1 = other then balance else 0)
    l.balances l'.balances (assetCode, holder) hi.others
  rw [part_balances, part_balances, hi.balance] at hexchange
  unfold WrappedLedger.heldOf
  by_cases h : other = assetCode
  · rw [if_pos h.symm, if_pos h.symm] at hexchange
    rw [if_pos h]
    dsimp only at hexchange
    omega
  · rw [if_neg (Ne.symm h), if_neg (Ne.symm h)] at hexchange
    rw [if_neg h]
    omega

theorem lookup_configs_of_ne (hi : Issued assetCode holder delta l l') (h : other ≠ assetCode) :
    l'.configs.lookup other = l.configs.lookup other := by
  obtain ⟨config, -, -, -, hconfigs⟩ := hi.configs
  rw [hconfigs, Finmap.lookup_insert_of_ne _ h]

theorem supplyOf_eq (hi : Issued assetCode holder delta l l') (other : Symbol) :
    l'.supplyOf other = l.supplyOf other + if other = assetCode then delta else 0 := by
  unfold WrappedLedger.supplyOf
  by_cases h : other = assetCode
  · obtain ⟨config, hconfig, -, -, hconfigs⟩ := hi.configs
    rw [if_pos h, h, hconfigs, Finmap.lookup_insert, hconfig]
    rfl
  · rw [hi.lookup_configs_of_ne h, if_neg h, add_zero]

theorem balanceOf_of_ne (hi : Issued assetCode holder delta l l') {other : Symbol}
    {other' : Address} (h : (other, other') ≠ (assetCode, holder)) :
    l'.balanceOf other other' = l.balanceOf other other' := by
  rw [WrappedLedger.balanceOf, hi.others _ h, WrappedLedger.balanceOf]

theorem backed (hi : Issued assetCode holder delta l l') (hb : Backed l) : Backed l' := by
  obtain ⟨config, hconfig, hlower, hupper, hconfigs⟩ := hi.configs
  refine ⟨fun code c hc => ?_, fun code c hc => ?_, fun code => ?_, fun code h => ?_⟩
  · rw [hconfigs, Store.lookup_insert_eq_some] at hc
    obtain ⟨rfl, rfl⟩ | ⟨-, hold⟩ := hc
    · exact (hb.keyed code config hconfig : config.assetCode = code)
    · exact hb.keyed code c hold
  · rw [hconfigs, Store.lookup_insert_eq_some] at hc
    obtain ⟨-, rfl⟩ | ⟨-, hold⟩ := hc
    · exact ⟨hlower, hupper⟩
    · exact hb.bounded code c hold
  · rw [hi.heldOf_eq, hi.supplyOf_eq, hb.supply]
  · by_cases hkey : (code, h) = (assetCode, holder)
    · obtain ⟨rfl, rfl⟩ := Prod.mk.inj hkey
      rw [hi.balance]
      exact hi.covered (hb.covered code h)
    · rw [hi.balanceOf_of_ne hkey]
      exact hb.covered code h

end Issued

/-- What the admin can do: write a configuration with the supply that there is. -/
structure Administered (l l' : WrappedLedger) : Prop where
  balances : l'.balances = l.balances
  configs : l'.configs = l.configs ∨ ∃ config : BridgeAssetConfig,
    l'.configs = l.configs.insert config.assetCode config ∧
      config.totalSupply = l.supplyOf config.assetCode ∧
      0 ≤ config.totalSupply ∧ config.totalSupply ≤ config.maxSupply

theorem Administered.backed (ha : Administered l l') (hb : Backed l) : Backed l' := by
  have hheld (code : Symbol) : l'.heldOf code = l.heldOf code := by
    rw [WrappedLedger.heldOf, ha.balances, WrappedLedger.heldOf]
  have hcovered (code : Symbol) (h : Address) : 0 ≤ l'.balanceOf code h := by
    rw [WrappedLedger.balanceOf, ha.balances]
    exact hb.covered code h
  obtain hsame | ⟨config, hconfigs, hsupply, hbounds⟩ := ha.configs
  · refine ⟨fun code c hc => ?_, fun code c hc => ?_, fun code => ?_, hcovered⟩
    · exact hb.keyed code c (hsame ▸ hc)
    · exact hb.bounded code c (hsame ▸ hc)
    · rw [hheld, hb.supply, WrappedLedger.supplyOf, WrappedLedger.supplyOf, hsame]
  · refine ⟨fun code c hc => ?_, fun code c hc => ?_, fun code => ?_, hcovered⟩
    · rw [hconfigs, Store.lookup_insert_eq_some] at hc
      obtain ⟨rfl, rfl⟩ | ⟨-, hold⟩ := hc
      · rfl
      · exact hb.keyed code c hold
    · rw [hconfigs, Store.lookup_insert_eq_some] at hc
      obtain ⟨-, rfl⟩ | ⟨-, hold⟩ := hc
      · exact hbounds
      · exact hb.bounded code c hold
    · rw [hheld, hb.supply]
      by_cases h : code = config.assetCode
      · rw [h, ← hsupply, WrappedLedger.supplyOf, hconfigs, Finmap.lookup_insert]
        rfl
      · rw [WrappedLedger.supplyOf, WrappedLedger.supplyOf, hconfigs,
          Finmap.lookup_insert_of_ne _ h]

section Effects

variable {env : BridgeEnv here} {call : MintCall}

theorem registerWrappedAsset_eq_ok {admin controller : Address} {maxSupply : ℤ}
    {config : BridgeAssetConfig}
    (h : registerWrappedAsset env admin assetCode controller maxSupply l = .ok (config, l')) :
    Administered l l' := by
  rw [registerWrappedAsset] at h
  obtain ⟨_, -, h⟩ := bind_eq_ok.mp h
  obtain ⟨_, hpos, h⟩ := bind_eq_ok.mp h
  obtain ⟨_, hnew, hwrite⟩ := bind_eq_ok.mp h
  rw [failIf_eq_ok, not_le] at hpos
  rw [failIf_eq_ok, Bool.not_eq_true, Option.isSome_eq_false_iff, Option.isNone_iff_eq_none] at hnew
  obtain ⟨-, rfl⟩ := Prod.mk.inj (pure_eq_ok.mp hwrite)
  refine ⟨rfl, .inr ⟨⟨assetCode, controller, maxSupply, 0⟩, rfl, ?_, le_rfl, hpos.le⟩⟩
  rw [WrappedLedger.supplyOf, hnew]
  rfl

theorem setBridgeController_eq_ok {admin newController : Address} {config : BridgeAssetConfig}
    (hb : Backed l)
    (h : setBridgeController env admin assetCode newController l = .ok (config, l')) :
    Administered l l' := by
  rw [setBridgeController] at h
  obtain ⟨_, -, h⟩ := bind_eq_ok.mp h
  obtain ⟨old, hload, hwrite⟩ := bind_eq_ok.mp h
  rw [WrappedLedger.loadConfig_eq_ok] at hload
  have hcode : old.assetCode = assetCode := hb.keyed assetCode old hload
  obtain ⟨-, rfl⟩ := Prod.mk.inj (pure_eq_ok.mp hwrite)
  refine ⟨rfl, .inr ⟨{ old with controller := newController }, rfl, ?_,
    hb.bounded assetCode old hload⟩⟩
  rw [WrappedLedger.supplyOf, hcode, hload]
  rfl

theorem guarded_eq_ok {call : WrappedLedger → Except Fault (ℤ × WrappedLedger)} {r : ℤ}
    (h : guarded call l = .ok (r, l')) :
    ∃ held, call { l with reentrancyLock := true } = .ok (r, held) ∧ l' = held.unlock := by
  rw [guarded] at h
  obtain ⟨locked, hlock, h⟩ := bind_eq_ok.mp h
  obtain ⟨⟨_, held⟩, hcall, hwrite⟩ := bind_eq_ok.mp h
  obtain ⟨rfl, rfl⟩ := Prod.mk.inj (pure_eq_ok.mp hwrite)
  obtain rfl := WrappedLedger.lock_eq_ok hlock
  exact ⟨held, hcall, rfl⟩

/-- Taking and releasing the flag is nothing else. -/
theorem Issued.of_guarded
    (hi : Issued assetCode holder delta { l with reentrancyLock := true } l') :
    Issued assetCode holder delta l l'.unlock :=
  ⟨hi.configs, hi.balance, hi.covered, hi.others, hi.windows⟩

theorem MintCall.exec_eq_ok (hb : Backed l) (h : call.exec env l = .ok l') :
    (∃ assetCode holder delta, call.issues = some assetCode ∧
        Issued assetCode holder delta l l') ∨
      call.issues = none ∧ Administered l l' := by
  cases call with
  | registerWrappedAsset admin assetCode controller maxSupply =>
    obtain ⟨config, hcall⟩ := snd_map_eq_ok.mp h
    exact .inr ⟨rfl, registerWrappedAsset_eq_ok hcall⟩
  | setBridgeController admin assetCode newController =>
    obtain ⟨config, hcall⟩ := snd_map_eq_ok.mp h
    exact .inr ⟨rfl, setBridgeController_eq_ok hb hcall⟩
  | setWrappedMintRateLimit admin assetCode maxRollingAmount =>
    obtain ⟨limit, hcall⟩ := snd_map_eq_ok.mp h
    obtain ⟨_, -, hwrite⟩ := bind_eq_ok.mp hcall
    obtain ⟨-, rfl⟩ := Prod.mk.inj (pure_eq_ok.mp hwrite)
    exact .inr ⟨rfl, rfl, .inl rfl⟩
  | mintWrapped controller assetCode recipient amount =>
    obtain ⟨r, hcall⟩ := snd_map_eq_ok.mp h
    obtain ⟨held, hmint, rfl⟩ := guarded_eq_ok hcall
    have hi : Issued assetCode recipient amount { l with reentrancyLock := true } held :=
      mintImpl_eq_ok hb.keyed hmint
    exact .inl ⟨assetCode, recipient, amount, rfl, hi.of_guarded⟩
  | mintForBridge controller assetCode recipient amount =>
    obtain ⟨r, hcall⟩ := snd_map_eq_ok.mp h
    exact .inl ⟨assetCode, recipient, amount, rfl, mintImpl_eq_ok hb.keyed hcall⟩
  | burnWrapped controller assetCode holder amount =>
    obtain ⟨r, hcall⟩ := snd_map_eq_ok.mp h
    obtain ⟨held, hburn, rfl⟩ := guarded_eq_ok hcall
    have hi : Issued assetCode holder (-amount) { l with reentrancyLock := true } held :=
      burn_eq_ok hb.keyed hburn
    exact .inl ⟨assetCode, holder, -amount, rfl, hi.of_guarded⟩

end Effects

theorem Backed.step (hb : Backed l) (h : mintStep i l = .ok l') : Backed l' := by
  obtain ⟨assetCode, holder, delta, -, hi⟩ | ⟨-, ha⟩ := MintCall.exec_eq_ok hb h
  · exact hi.backed hb
  · exact ha.backed hb

theorem Backed.keepsOthers (hb : Backed l) : KeepsOthers l i := by
  intro assetCode hissues other hne
  cases h : mintStep i l with
  | error e =>
    rw [commit_of_error h]
    exact ⟨rfl, fun _ => rfl, rfl⟩
  | ok l' =>
    rw [commit_of_ok h]
    obtain ⟨code, holder, delta, hcode, hi⟩ | ⟨hnone, -⟩ := MintCall.exec_eq_ok hb h
    · obtain rfl : code = assetCode := Option.some.inj (hcode.symm.trans hissues)
      refine ⟨hi.lookup_configs_of_ne hne, fun h => hi.balanceOf_of_ne ?_, hi.windows _ ?_⟩
      · exact fun heq => hne (Prod.mk.inj heq).1
      · exact fun heq => hne (RateLimitAsset.wrapped.inj heq)
    · rw [hnone] at hissues
      cases hissues

theorem Backed.deployed (limits : RateLimits) : Backed (.deployed limits) where
  keyed _ _ h := by cases h
  bounded _ _ h := by cases h
  supply _ := rfl
  covered _ _ := le_rfl

/-- In every run from the deployment the balances of each asset add up to its supply, within its
bounds, a mint or a burn changes nothing of another asset, and a failed call changes nothing. -/
theorem wrappedLedger_throughout (limits : RateLimits) (run : List (BridgeEnv here × MintCall)) :
    Throughout mintStep Balanced (.deployed limits) run ∧
      Along mintStep KeepsOthers (.deployed limits) run ∧
      Along mintStep KeepsLedger (.deployed limits) run := by
  have hstep (l : WrappedLedger) (i : BridgeEnv here × MintCall) (l' : WrappedLedger)
      (hb : Backed l) (h : mintStep i l = .ok l') : Backed l' := hb.step h
  exact ⟨throughout_of_invariant hstep (fun _ hb => hb.balanced) (.deployed limits) run,
    along_of_invariant hstep (fun _ _ hb => hb.keepsOthers) (.deployed limits) run,
    along_of_invariant hstep (fun _ _ _ _ herror => commit_of_error herror) (.deployed limits)
      run⟩

/-- The second mint goes over the cap. -/
example : (runAll mintStep (.deployed .empty)
    [(sampleBridgeEnv, .registerWrappedAsset ⟨1⟩ ⟨5⟩ ⟨2⟩ 1000),
      (sampleBridgeEnv, .mintWrapped ⟨2⟩ ⟨5⟩ ⟨3⟩ 600),
      (sampleBridgeEnv, .mintForBridge ⟨2⟩ ⟨5⟩ ⟨4⟩ 600),
      (sampleBridgeEnv, .burnWrapped ⟨2⟩ ⟨5⟩ ⟨3⟩ 200)]).configs.lookup ⟨5⟩ =
    some ⟨⟨5⟩, ⟨2⟩, 1000, 400⟩ := by decide

end Runs

end StellarFlow.Bridge
