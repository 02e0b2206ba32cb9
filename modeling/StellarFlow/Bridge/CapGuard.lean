import StellarFlow.Bridge.Attestation

/-!
# The collateral cap of wrapped assets

The guard keeps the verified collateral of each wrapped asset and a mirror of its supply, and says
whether a mint fits under the share of the collateral that may be represented. The ledger of the
wrapped assets mints without asking it.
-/
namespace StellarFlow.Bridge

open Foundation

def bpsDenominator : ℤ := 10000

structure BridgeCapConfig where
  assetCode : Symbol
  /-- Who reports collateral and supply. -/
  verifier : Address
  capacityBps : ℤ
  deriving DecidableEq

structure CapGuard where
  configs : Store Symbol BridgeCapConfig
  wrappedSupply : Store Symbol ℤ
  lockedCollateral : Store Symbol ℤ

namespace CapGuard

def deployed : CapGuard := ⟨∅, ∅, ∅⟩

def requireCapConfig (assetCode : Symbol) (g : CapGuard) : Except Fault BridgeCapConfig :=
  okOr (g.configs.lookup assetCode) (Fault.error .bridgeEscrowNotConfigured)

def wrappedSupplyOf (assetCode : Symbol) (g : CapGuard) : ℤ :=
  (g.wrappedSupply.lookup assetCode).getD 0

def lockedCollateralOf (assetCode : Symbol) (g : CapGuard) : ℤ :=
  (g.lockedCollateral.lookup assetCode).getD 0

end CapGuard

/-- The share of the collateral that may be represented, rounded down without forming the whole
product. -/
def allowedSupply (lockedCollateral capacityBps : ℤ) : Except Fault ℤ := do
  failIf (lockedCollateral < 0) (Fault.error .bridgeCapInvalidCollateral)
  failIf (¬ (0 ≤ capacityBps ∧ capacityBps ≤ bpsDenominator))
    (Fault.error .bridgeCapInvalidConfig)
  if lockedCollateral = 0 ∨ capacityBps = 0 then pure 0
  else
    let whole := lockedCollateral / bpsDenominator
    let remainder := lockedCollateral % bpsDenominator
    pure (whole * capacityBps + remainder * capacityBps / bpsDenominator)

/-- An overflow counts as a breach. -/
def mintExceedsCap (wrappedSupply lockedCollateral capacityBps deltaSupply : ℤ) : Bool :=
  if wrappedSupply < 0 ∨ lockedCollateral < 0 ∨ deltaSupply < 0 then true
  else
    match allowedSupply lockedCollateral capacityBps with
    | .error _ => true
    | .ok ceiling =>
      match i128.check (wrappedSupply + deltaSupply) with
      | some newSupply => decide (ceiling < newSupply)
      | none => true

/-- The check that the mint paths are meant to make before they issue. -/
def requireMintAllowed (assetCode : Symbol) (deltaSupply : ℤ) (g : CapGuard) :
    Except Fault Unit := do
  let config ← g.requireCapConfig assetCode
  failIf (deltaSupply ≤ 0) (Fault.error .bridgeCapInvalidAmount)
  failIf (mintExceedsCap (g.wrappedSupplyOf assetCode) (g.lockedCollateralOf assetCode)
    config.capacityBps deltaSupply = true) (Fault.error .bridgeCapExceeded)

/-- The write to the mirror that the mint paths are meant to make once they have issued. -/
def recordWrappedMint (verifier : Address) (assetCode : Symbol) (deltaSupply : ℤ)
    (g : CapGuard) : Except Fault (ℤ × CapGuard) := do
  let config ← g.requireCapConfig assetCode
  failIf (config.verifier ≠ verifier) (Fault.error .bridgeNotController)
  failIf (deltaSupply ≤ 0) (Fault.error .bridgeCapInvalidAmount)
  let supply ← okOr (i128.check (g.wrappedSupplyOf assetCode + deltaSupply))
    (Fault.error .mathOverflow)
  pure (supply, { g with wrappedSupply := g.wrappedSupply.insert assetCode supply })

section Calls

variable {here : Address} (env : BridgeEnv here)

def depositLockedCollateral (verifier : Address) (assetCode : Symbol) (amount : ℤ)
    (g : CapGuard) : Except Fault (ℤ × CapGuard) := do
  let config ← g.requireCapConfig assetCode
  failIf (config.verifier ≠ verifier) (Fault.error .bridgeNotController)
  env.requireAuth verifier
  failIf (amount ≤ 0) (Fault.error .bridgeCapInvalidAmount)
  let locked ← okOr (i128.check (g.lockedCollateralOf assetCode + amount))
    (Fault.error .mathOverflow)
  pure (locked, { g with lockedCollateral := g.lockedCollateral.insert assetCode locked })

def releaseLockedCollateral (admin : Address) (assetCode : Symbol) (amount : ℤ)
    (g : CapGuard) : Except Fault (ℤ × CapGuard) := do
  let _ ← g.requireCapConfig assetCode
  requireProtocolAdmin env admin
  failIf (amount ≤ 0) (Fault.error .bridgeCapInvalidAmount)
  let locked := g.lockedCollateralOf assetCode
  failIf (locked < amount) (Fault.error .bridgeCapInsufficientCollateral)
  let remaining := locked - amount
  failIf (remaining < g.wrappedSupplyOf assetCode) (Fault.error .bridgeCapUndercollateralized)
  pure (remaining, { g with lockedCollateral := g.lockedCollateral.insert assetCode remaining })

def configureCapGuard (admin : Address) (assetCode : Symbol) (verifier : Address)
    (capacityBps : ℤ) (g : CapGuard) : Except Fault (BridgeCapConfig × CapGuard) := do
  requireProtocolAdmin env admin
  failIf (¬ (0 ≤ capacityBps ∧ capacityBps ≤ bpsDenominator))
    (Fault.error .bridgeCapInvalidConfig)
  let config : BridgeCapConfig := ⟨assetCode, verifier, capacityBps⟩
  pure (config, { g with configs := g.configs.insert assetCode config })

end Calls

/-! ## The ceiling -/

section Ceiling

variable {locked capacityBps ceiling deltaSupply supply : ℤ} {g g' : CapGuard}
  {assetCode : Symbol} {verifier : Address}

/-- The whole part and the scaled remainder make up the floor of the share. -/
theorem split_share (locked capacityBps : ℤ) :
    locked / bpsDenominator * capacityBps +
        locked % bpsDenominator * capacityBps / bpsDenominator =
      locked * capacityBps / bpsDenominator := by
  have hsplit : locked * capacityBps = locked % bpsDenominator * capacityBps +
      locked / bpsDenominator * capacityBps * bpsDenominator := by
    calc locked * capacityBps
        = (bpsDenominator * (locked / bpsDenominator) + locked % bpsDenominator) *
            capacityBps := by rw [Int.mul_ediv_add_emod]
      _ = _ := by ring
  rw [hsplit, Int.add_mul_ediv_right _ _ (by decide), add_comm]

theorem share_le (h0 : 0 ≤ locked) (hupper : capacityBps ≤ bpsDenominator) :
    locked * capacityBps / bpsDenominator ≤ locked :=
  Int.ediv_le_of_le_mul (by decide) (mul_le_mul_of_nonneg_left hupper h0)

/-- The ceiling is the rounded share, and no more than the collateral. -/
theorem allowedSupply_eq_ok (h : allowedSupply locked capacityBps = .ok ceiling) :
    ceiling = locked * capacityBps / bpsDenominator ∧ ceiling ≤ locked := by
  obtain ⟨_, hlocked, h⟩ := bind_eq_ok.mp h
  obtain ⟨_, hcapacity, h⟩ := bind_eq_ok.mp h
  rw [failIf_eq_ok, not_lt] at hlocked
  rw [failIf_eq_ok, not_not] at hcapacity
  obtain ⟨hlower, hupper⟩ := hcapacity
  have hfloor : ceiling = locked * capacityBps / bpsDenominator := by
    split_ifs at h with hzero
    · obtain rfl := pure_eq_ok.mp h
      obtain rfl | rfl := hzero <;> simp
    · exact (pure_eq_ok.mp h).symm.trans (split_share locked capacityBps)
  exact ⟨hfloor, hfloor.trans_le (share_le hlocked hupper)⟩

/-- With an exact mirror, the check before a mint keeps the supply under the ceiling. -/
theorem requireMintAllowed_eq_ok {u : Unit}
    (h : requireMintAllowed assetCode deltaSupply g = .ok u) :
    ∃ config ceiling, g.configs.lookup assetCode = some config ∧
      allowedSupply (g.lockedCollateralOf assetCode) config.capacityBps = .ok ceiling ∧
      g.wrappedSupplyOf assetCode + deltaSupply ≤ ceiling := by
  obtain ⟨config, hconfig, h⟩ := bind_eq_ok.mp h
  obtain ⟨_, -, h⟩ := bind_eq_ok.mp h
  rw [failIf_eq_ok, Bool.not_eq_true, mintExceedsCap] at h
  split_ifs at h
  split at h
  · cases h
  · rename_i ceiling hceiling
    split at h
    · rename_i newSupply hcheck
      obtain ⟨-, rfl⟩ := IntRange.check_eq_some.mp hcheck
      rw [decide_eq_false_iff_not, not_lt] at h
      exact ⟨config, ceiling, okOr_eq_ok.mp hconfig, hceiling, h⟩
    · cases h

/-- The write after a mint keeps the mirror exact. -/
theorem recordWrappedMint_eq_ok
    (h : recordWrappedMint verifier assetCode deltaSupply g = .ok (supply, g')) :
    g'.wrappedSupplyOf assetCode = g.wrappedSupplyOf assetCode + deltaSupply := by
  obtain ⟨config, -, h⟩ := bind_eq_ok.mp h
  obtain ⟨_, -, h⟩ := bind_eq_ok.mp h
  obtain ⟨_, -, h⟩ := bind_eq_ok.mp h
  obtain ⟨_, hcheck, h⟩ := bind_eq_ok.mp h
  obtain ⟨-, rfl⟩ := IntRange.check_eq_some.mp (okOr_eq_ok.mp hcheck)
  obtain ⟨-, rfl⟩ := Prod.mk.inj (pure_eq_ok.mp h)
  rw [CapGuard.wrappedSupplyOf, Finmap.lookup_insert, Option.getD_some]

end Ceiling

/-! ## What the calls of the bridge do to the supplies -/

/-- The asset that a call mints. -/
def BridgeCall.mints : BridgeCall → Option Symbol
  | wrapped (.mintWrapped _ assetCode _ _) | wrapped (.mintForBridge _ assetCode _ _)
  | validateLockAndMint assetCode _ _ => some assetCode
  | _ => none

/-- What an accepted call does to the ledger of the wrapped assets. -/
inductive SupplyEffect (mints : Option Symbol) (l l' : WrappedLedger) : Prop
  | minted (assetCode : Symbol) (holder : Address) (amount : ℤ) (hmints : mints = some assetCode)
      (hpos : 0 < amount) (hissued : Issued assetCode holder amount l l')
  | burned (assetCode : Symbol) (holder : Address) (amount : ℤ) (hmints : mints = none)
      (hpos : 0 < amount) (hissued : Issued assetCode holder (-amount) l l')
  | kept (hmints : mints = none)
      (hsupply : ∀ assetCode, l'.supplyOf assetCode = l.supplyOf assetCode) (hbacked : Backed l')

section Effects

variable {crypto : BridgeCrypto} {here : Address} {env : BridgeEnv here} {l l' : WrappedLedger}
  {b b' : BridgeStore} {assetCode : Symbol} {controller holder : Address} {amount r : ℤ}

theorem mintImpl_pos {requireControllerAuth acquireReentrancyGuard : Bool}
    (h : mintImpl env controller assetCode holder amount requireControllerAuth
      acquireReentrancyGuard l = .ok (r, l')) : 0 < amount := by
  obtain ⟨_, -, h⟩ := bind_eq_ok.mp h
  obtain ⟨_, hpos, -⟩ := bind_eq_ok.mp h
  rwa [failIf_eq_ok, not_le] at hpos

theorem burn_pos (h : burn env controller assetCode holder amount l = .ok (r, l')) :
    0 < amount := by
  obtain ⟨_, hpos, -⟩ := bind_eq_ok.mp h
  rwa [failIf_eq_ok, not_le] at hpos

theorem Administered.supplyOf_eq (ha : Administered l l') (assetCode : Symbol) :
    l'.supplyOf assetCode = l.supplyOf assetCode := by
  obtain hsame | ⟨config, hconfigs, hsupply, -⟩ := ha.configs
  · rw [WrappedLedger.supplyOf, hsame, WrappedLedger.supplyOf]
  · by_cases h : assetCode = config.assetCode
    · rw [h, ← hsupply, WrappedLedger.supplyOf, hconfigs, Finmap.lookup_insert]
      rfl
    · rw [WrappedLedger.supplyOf, hconfigs, Finmap.lookup_insert_of_ne _ h,
        WrappedLedger.supplyOf]

theorem Administered.effect (ha : Administered l l') (hb : Backed l) : SupplyEffect none l l' :=
  .kept rfl ha.supplyOf_eq (ha.backed hb)

theorem MintCall.exec_effect {call : MintCall} (hb : Backed l) (h : call.exec env l = .ok l') :
    SupplyEffect (BridgeCall.wrapped call).mints l l' := by
  cases call with
  | registerWrappedAsset admin assetCode controller maxSupply =>
    obtain ⟨config, hcall⟩ := snd_map_eq_ok.mp h
    exact (registerWrappedAsset_eq_ok hcall).effect hb
  | setBridgeController admin assetCode newController =>
    obtain ⟨config, hcall⟩ := snd_map_eq_ok.mp h
    exact (setBridgeController_eq_ok hb hcall).effect hb
  | setWrappedMintRateLimit admin assetCode maxRollingAmount =>
    obtain ⟨limit, hcall⟩ := snd_map_eq_ok.mp h
    obtain ⟨_, -, hwrite⟩ := bind_eq_ok.mp hcall
    obtain ⟨-, rfl⟩ := Prod.mk.inj (pure_eq_ok.mp hwrite)
    exact .kept rfl (fun _ => rfl) ⟨hb.keyed, hb.bounded, hb.supply, hb.covered⟩
  | mintWrapped controller assetCode recipient amount =>
    obtain ⟨r, hcall⟩ := snd_map_eq_ok.mp h
    obtain ⟨held, hmint, rfl⟩ := guarded_eq_ok hcall
    have hissued : Issued assetCode recipient amount { l with reentrancyLock := true } held :=
      mintImpl_eq_ok hb.keyed hmint
    exact .minted assetCode recipient amount rfl (mintImpl_pos hmint) hissued.of_guarded
  | mintForBridge controller assetCode recipient amount =>
    obtain ⟨r, hcall⟩ := snd_map_eq_ok.mp h
    exact .minted assetCode recipient amount rfl (mintImpl_pos hcall)
      (mintImpl_eq_ok hb.keyed hcall)
  | burnWrapped controller assetCode holder amount =>
    obtain ⟨r, hcall⟩ := snd_map_eq_ok.mp h
    obtain ⟨held, hburn, rfl⟩ := guarded_eq_ok hcall
    have hissued : Issued assetCode holder (-amount) { l with reentrancyLock := true } held :=
      burn_eq_ok hb.keyed hburn
    exact .burned assetCode holder amount rfl (burn_pos hburn) hissued.of_guarded

theorem BridgeCall.exec_effect {call : BridgeCall} (hb : Backed b.ledger)
    (h : call.exec crypto env b = .ok b') : SupplyEffect call.mints b.ledger b'.ledger := by
  cases call with
  | relayer call =>
    obtain ⟨relayer, -, hwrite⟩ := bind_eq_ok.mp h
    obtain rfl := pure_eq_ok.mp hwrite
    exact .kept rfl (fun _ => rfl) hb
  | wrapped call =>
    obtain ⟨ledger, hcall, hwrite⟩ := bind_eq_ok.mp h
    obtain rfl := pure_eq_ok.mp hwrite
    exact MintCall.exec_effect hb hcall
  | escrow call =>
    obtain ⟨escrow, -, hwrite⟩ := bind_eq_ok.mp h
    obtain rfl := pure_eq_ok.mp hwrite
    exact .kept rfl (fun _ => rfl) hb
  | validateLockAndMint assetCode p signatures =>
    obtain ⟨supply, hcall⟩ := snd_map_eq_ok.mp h
    obtain ⟨-, config, relayer, ledger, -, -, hmint, rfl⟩ := validateLockAndMint_eq_ok.mp hcall
    exact .minted assetCode p.recipient p.amount rfl (mintImpl_pos hmint)
      (mintImpl_eq_ok hb.keyed hmint)

end Effects

/-! ## Runs -/

structure GuardedBridge where
  bridge : BridgeStore
  guard : CapGuard

inductive GuardCall where
  | configureCapGuard (admin : Address) (assetCode : Symbol) (verifier : Address)
      (capacityBps : ℤ)
  | depositLockedCollateral (verifier : Address) (assetCode : Symbol) (amount : ℤ)
  | releaseLockedCollateral (admin : Address) (assetCode : Symbol) (amount : ℤ)
  | bridge (call : BridgeCall)

section Runs

variable (crypto : BridgeCrypto) {here : Address}

def GuardCall.exec (env : BridgeEnv here) (s : GuardedBridge) :
    GuardCall → Except Fault GuardedBridge
  | configureCapGuard admin assetCode verifier capacityBps => do
    let (_, guard) ← Bridge.configureCapGuard env admin assetCode verifier capacityBps s.guard
    pure { s with guard }
  | depositLockedCollateral verifier assetCode amount => do
    let (_, guard) ← Bridge.depositLockedCollateral env verifier assetCode amount s.guard
    pure { s with guard }
  | releaseLockedCollateral admin assetCode amount => do
    let (_, guard) ← Bridge.releaseLockedCollateral env admin assetCode amount s.guard
    pure { s with guard }
  | bridge call => do
    let bridge ← call.exec crypto env s.bridge
    pure { s with bridge }

def GuardCall.mints : GuardCall → Option Symbol
  | bridge call => call.mints
  | _ => none

def GuardCall.configures : GuardCall → Option Symbol
  | configureCapGuard _ assetCode _ _ => some assetCode
  | _ => none

def guardStep (i : BridgeEnv here × GuardCall) (s : GuardedBridge) : Except Fault GuardedBridge :=
  i.2.exec crypto i.1 s

/-- The mirror of every guarded asset is its supply. -/
def MirrorCurrent (s : GuardedBridge) : Prop :=
  ∀ assetCode config, s.guard.configs.lookup assetCode = some config →
    s.guard.wrappedSupplyOf assetCode = s.bridge.ledger.supplyOf assetCode

/-- An accepted mint of a guarded asset leaves its supply under the ceiling. -/
def MintsWithinCap (s : GuardedBridge) (i : BridgeEnv here × GuardCall) : Prop :=
  ∀ s' assetCode config, guardStep crypto i s = .ok s' → i.2.mints = some assetCode →
    s.guard.configs.lookup assetCode = some config →
    ∃ ceiling, allowedSupply (s'.guard.lockedCollateralOf assetCode) config.capacityBps =
        .ok ceiling ∧
      s'.bridge.ledger.supplyOf assetCode ≤ ceiling

/-- No guarded asset is minted, and no asset with a supply gets a guard. -/
def SparesGuarded (s : GuardedBridge) (i : BridgeEnv here × GuardCall) : Prop :=
  (∃ s', guardStep crypto i s = .ok s') →
    (∀ assetCode, i.2.mints = some assetCode → s.guard.configs.lookup assetCode = none) ∧
    ∀ assetCode, i.2.configures = some assetCode → s.bridge.ledger.supplyOf assetCode = 0

/-- What every call keeps: nothing writes the mirror. -/
structure Unmirrored (s : GuardedBridge) : Prop where
  backed : Backed s.bridge.ledger
  mirror : s.guard.wrappedSupply = ∅

variable {crypto} {s s' : GuardedBridge} {i : BridgeEnv here × GuardCall} {assetCode : Symbol}

theorem Unmirrored.wrappedSupplyOf_eq (hu : Unmirrored s) (assetCode : Symbol) :
    s.guard.wrappedSupplyOf assetCode = 0 := by
  rw [CapGuard.wrappedSupplyOf, hu.mirror]
  rfl

/-- An accepted call configures one asset, moves collateral, or is a call of the bridge. -/
inductive GuardEffect (i : BridgeEnv here × GuardCall) (s s' : GuardedBridge) : Prop
  | configured (assetCode : Symbol) (config : BridgeCapConfig)
      (hmints : i.2.mints = none) (hconfigures : i.2.configures = some assetCode)
      (hsame : s'.bridge = s.bridge) (hmirror : s'.guard.wrappedSupply = s.guard.wrappedSupply)
      (hconfigs : s'.guard.configs = s.guard.configs.insert assetCode config)
  | collateral (hmints : i.2.mints = none) (hconfigures : i.2.configures = none)
      (hsame : s'.bridge = s.bridge) (hmirror : s'.guard.wrappedSupply = s.guard.wrappedSupply)
      (hconfigs : s'.guard.configs = s.guard.configs)
  | bridged (hconfigures : i.2.configures = none) (hguard : s'.guard = s.guard)
      (heffect : SupplyEffect i.2.mints s.bridge.ledger s'.bridge.ledger)

theorem guardStep_effect (hb : Backed s.bridge.ledger) (h : guardStep crypto i s = .ok s') :
    GuardEffect i s s' := by
  obtain ⟨env, call⟩ := i
  cases call with
  | configureCapGuard admin assetCode verifier capacityBps =>
    obtain ⟨⟨config, guard⟩, hcall, hwrite⟩ := bind_eq_ok.mp h
    obtain ⟨_, -, hcall⟩ := bind_eq_ok.mp hcall
    obtain ⟨_, -, hcall⟩ := bind_eq_ok.mp hcall
    obtain ⟨rfl, rfl⟩ := Prod.mk.inj (pure_eq_ok.mp hcall)
    obtain rfl := pure_eq_ok.mp hwrite
    exact .configured assetCode _ rfl rfl rfl rfl rfl
  | depositLockedCollateral verifier assetCode amount =>
    obtain ⟨⟨locked, guard⟩, hcall, hwrite⟩ := bind_eq_ok.mp h
    obtain ⟨config, -, hcall⟩ := bind_eq_ok.mp hcall
    obtain ⟨_, -, hcall⟩ := bind_eq_ok.mp hcall
    obtain ⟨_, -, hcall⟩ := bind_eq_ok.mp hcall
    obtain ⟨_, -, hcall⟩ := bind_eq_ok.mp hcall
    obtain ⟨_, -, hcall⟩ := bind_eq_ok.mp hcall
    obtain ⟨rfl, rfl⟩ := Prod.mk.inj (pure_eq_ok.mp hcall)
    obtain rfl := pure_eq_ok.mp hwrite
    exact .collateral rfl rfl rfl rfl rfl
  | releaseLockedCollateral admin assetCode amount =>
    obtain ⟨⟨remaining, guard⟩, hcall, hwrite⟩ := bind_eq_ok.mp h
    obtain ⟨config, -, hcall⟩ := bind_eq_ok.mp hcall
    obtain ⟨_, -, hcall⟩ := bind_eq_ok.mp hcall
    obtain ⟨_, -, hcall⟩ := bind_eq_ok.mp hcall
    obtain ⟨_, -, hcall⟩ := bind_eq_ok.mp hcall
    obtain ⟨_, -, hcall⟩ := bind_eq_ok.mp hcall
    obtain ⟨rfl, rfl⟩ := Prod.mk.inj (pure_eq_ok.mp hcall)
    obtain rfl := pure_eq_ok.mp hwrite
    exact .collateral rfl rfl rfl rfl rfl
  | bridge call =>
    obtain ⟨bridge, hcall, hwrite⟩ := bind_eq_ok.mp h
    obtain rfl := pure_eq_ok.mp hwrite
    exact .bridged rfl rfl (BridgeCall.exec_effect hb hcall)

theorem SupplyEffect.backed {mints : Option Symbol} {l l' : WrappedLedger}
    (he : SupplyEffect mints l l') (hb : Backed l) : Backed l' := by
  cases he with
  | minted assetCode holder amount hmints hpos hissued => exact hissued.backed hb
  | burned assetCode holder amount hmints hpos hissued => exact hissued.backed hb
  | kept hmints hsupply hbacked => exact hbacked

theorem Unmirrored.step (hu : Unmirrored s) (h : guardStep crypto i s = .ok s') :
    Unmirrored s' := by
  cases guardStep_effect hu.backed h with
  | configured assetCode config hmints hconfigures hsame hmirror hconfigs =>
    exact ⟨hsame ▸ hu.backed, hmirror.trans hu.mirror⟩
  | collateral hmints hconfigures hsame hmirror hconfigs =>
    exact ⟨hsame ▸ hu.backed, hmirror.trans hu.mirror⟩
  | bridged hconfigures hguard heffect => exact ⟨heffect.backed hu.backed, hguard ▸ hu.mirror⟩

/-- A guarded asset whose mirror is exact has no supply. -/
theorem Unmirrored.supplyOf_eq_zero (hu : Unmirrored s) (hm : MirrorCurrent s)
    {config : BridgeCapConfig} (hconfig : s.guard.configs.lookup assetCode = some config) :
    s.bridge.ledger.supplyOf assetCode = 0 := by
  rw [← hm assetCode config hconfig, hu.wrappedSupplyOf_eq]

/-- A burn leaves a supply that is not negative, so there was something to burn. -/
theorem supplyOf_pos_of_burned {l l' : WrappedLedger} {holder : Address} {amount : ℤ}
    (hpos : 0 < amount) (hissued : Issued assetCode holder (-amount) l l') :
    0 < l.supplyOf assetCode := by
  obtain ⟨config, hconfig, hlower, -, -⟩ := hissued.configs
  rw [WrappedLedger.supplyOf, hconfig]
  change 0 < config.totalSupply
  omega

/-- An asset without a supply gets one if and only if it is minted. -/
theorem SupplyEffect.supplyOf_eq_zero_iff {mints : Option Symbol} {l l' : WrappedLedger}
    (he : SupplyEffect mints l l') (hzero : l.supplyOf assetCode = 0) :
    l'.supplyOf assetCode = 0 ↔ mints ≠ some assetCode := by
  cases he with
  | minted minted holder amount hmints hpos hissued =>
    rw [hissued.supplyOf_eq, hzero, zero_add, hmints, Ne, Option.some.injEq]
    split_ifs with heq
    · exact iff_of_false hpos.ne' (not_not.mpr heq.symm)
    · exact iff_of_true rfl (Ne.symm heq)
  | burned burned holder amount hmints hpos hissued =>
    have hne : assetCode ≠ burned := by
      rintro rfl
      exact (supplyOf_pos_of_burned hpos hissued).ne' hzero
    rw [hissued.supplyOf_eq, if_neg hne, hzero, hmints]
    exact iff_of_true (add_zero 0) (Option.some_ne_none _).symm
  | kept hmints hsupply hbacked =>
    rw [hsupply, hzero, hmints]
    exact iff_of_true rfl (Option.some_ne_none _).symm

/-- An accepted call keeps the mirrors exact if and only if it mints no guarded asset and gives
no guard to an asset with a supply. -/
theorem Unmirrored.current_iff (hu : Unmirrored s) (hm : MirrorCurrent s)
    (h : guardStep crypto i s = .ok s') :
    MirrorCurrent s' ↔
      (∀ assetCode, i.2.mints = some assetCode → s.guard.configs.lookup assetCode = none) ∧
      ∀ assetCode, i.2.configures = some assetCode →
        s.bridge.ledger.supplyOf assetCode = 0 := by
  have hu' := hu.step h
  have hcurrent : MirrorCurrent s' ↔ ∀ assetCode config,
      s'.guard.configs.lookup assetCode = some config →
        s'.bridge.ledger.supplyOf assetCode = 0 := by
    refine forall₃_congr fun code config hconfig => ?_
    rw [hu'.wrappedSupplyOf_eq, eq_comm]
  rw [hcurrent]
  cases guardStep_effect hu.backed h with
  | configured assetCode config hmints hconfigures hsame hmirror hconfigs =>
    rw [hsame, hconfigs]
    constructor
    · intro hzero
      refine ⟨fun code hcode => ?_, fun code hcode => ?_⟩
      · rw [hmints] at hcode
        cases hcode
      · obtain rfl := Option.some.inj (hconfigures.symm.trans hcode)
        exact hzero assetCode config (Finmap.lookup_insert _)
    · rintro ⟨-, hzero⟩ code config' hcode
      rw [Store.lookup_insert_eq_some] at hcode
      obtain ⟨rfl, -⟩ | ⟨-, hold⟩ := hcode
      · exact hzero code hconfigures
      · exact hu.supplyOf_eq_zero hm hold
  | collateral hmints hconfigures hsame hmirror hconfigs =>
    rw [hsame, hconfigs, hmints, hconfigures]
    refine iff_of_true (fun code config hcode => hu.supplyOf_eq_zero hm hcode) ⟨?_, ?_⟩ <;>
      rintro code ⟨⟩
  | bridged hconfigures hguard heffect =>
    rw [hguard, hconfigures]
    have hzero {code : Symbol} {config : BridgeCapConfig}
        (hlookup : s.guard.configs.lookup code = some config) :=
      heffect.supplyOf_eq_zero_iff (hu.supplyOf_eq_zero hm hlookup)
    constructor
    · refine fun hkept => ⟨fun code hcode => ?_, by rintro code ⟨⟩⟩
      by_contra hguarded
      obtain ⟨config, hlookup⟩ := Option.ne_none_iff_exists'.mp hguarded
      exact (hzero hlookup).mp (hkept code config hlookup) hcode
    · rintro ⟨hunguarded, -⟩ code config hlookup
      refine (hzero hlookup).mpr fun hcode => ?_
      rw [hunguarded code hcode] at hlookup
      cases hlookup

theorem Unmirrored.spares_iff (hu : Unmirrored s) (hm : MirrorCurrent s)
    (i : BridgeEnv here × GuardCall) :
    MirrorCurrent (commit (guardStep crypto) s i) ∧ MintsWithinCap crypto s i ↔
      SparesGuarded crypto s i := by
  cases h : guardStep crypto i s with
  | error e =>
    rw [commit_of_error h]
    refine iff_of_true ⟨hm, fun s' code config h0 => ?_⟩ ?_
    · rw [h] at h0
      cases h0
    · rintro ⟨s', h0⟩
      rw [h] at h0
      cases h0
  | ok s' =>
    rw [commit_of_ok h, hu.current_iff hm h]
    constructor
    · rintro ⟨hspares, -⟩ -
      exact hspares
    · intro hspares
      have hspared := hspares ⟨s', h⟩
      refine ⟨hspared, fun s'' code config _ hmints hlookup => ?_⟩
      rw [hspared.1 code hmints] at hlookup
      cases hlookup

/-- In a run from the deployment every mint of a guarded asset stays under its cap, with mirrors
that are exact after every call, if and only if no guarded asset is ever minted and no asset with
a supply gets a guard. -/
theorem capGuard_throughout_iff (escrow : BridgeEscrow) (limits : RateLimits)
    (run : List (BridgeEnv here × GuardCall)) :
    Throughout (guardStep crypto) MirrorCurrent ⟨⟨escrow, .deployed limits⟩, .deployed⟩ run ∧
        Along (guardStep crypto) (MintsWithinCap crypto)
          ⟨⟨escrow, .deployed limits⟩, .deployed⟩ run ↔
      Along (guardStep crypto) (SparesGuarded crypto)
        ⟨⟨escrow, .deployed limits⟩, .deployed⟩ run := by
  refine throughout_and_along_iff
    (fun s i (hu : Unmirrored s) => commit_induction hu fun s' h => hu.step h)
    (fun s i hu hm => hu.spares_iff hm i) ⟨.deployed limits, rfl⟩ ?_ run
  intro code config hlookup
  cases hlookup

end Runs

section Sample

/-- A guarded asset without collateral is minted. -/
def sampleMintedRun : List (BridgeEnv ⟨0⟩ × GuardCall) :=
  [(sampleBridgeEnv, .bridge (.wrapped (.registerWrappedAsset ⟨1⟩ ⟨5⟩ ⟨2⟩ 1000))),
    (sampleBridgeEnv, .configureCapGuard ⟨1⟩ ⟨5⟩ ⟨2⟩ 10000),
    (sampleBridgeEnv, .bridge (.wrapped (.mintWrapped ⟨2⟩ ⟨5⟩ ⟨3⟩ 100)))]

def sampleGuardedBridge : GuardedBridge :=
  ⟨⟨.configured sampleEscrowConfig ⟨none, ∅, ∅, ∅⟩ .empty sampleTokens, .deployed .empty⟩,
    .deployed⟩

theorem sampleMint_unguarded :
    ¬ Throughout (guardStep sampleCrypto) MirrorCurrent sampleGuardedBridge sampleMintedRun ∧
      ¬ Along (guardStep sampleCrypto) (MintsWithinCap sampleCrypto) sampleGuardedBridge
        sampleMintedRun := by
  constructor
  · rintro ⟨-, -, -, hmirror⟩
    have hsupply := hmirror ⟨5⟩ ⟨⟨5⟩, ⟨2⟩, 10000⟩ (by decide)
    revert hsupply
    decide
  · rintro ⟨-, -, hmint, -⟩
    obtain ⟨ceiling, hceiling, hle⟩ := hmint _ ⟨5⟩ ⟨⟨5⟩, ⟨2⟩, 10000⟩ rfl rfl (by decide)
    obtain ⟨rfl, -⟩ := allowedSupply_eq_ok hceiling
    revert hle
    decide

end Sample

end StellarFlow.Bridge
