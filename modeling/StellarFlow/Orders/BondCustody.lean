import StellarFlow.Orders.CommitReveal

/-!
# Custody of the bonds

While a commitment is active its bond lies in the contract. A reveal pays it back to the
trader, a forfeit pays it to the treasury, and each closes the commitment. Next to the desk a
history keeps the ledger and what was paid out for every commitment, so that "exactly once"
can be read off.
-/
namespace StellarFlow.Orders

open Foundation

/-! ## Histories -/

def isRevealable (sequence : ℕ) (c : Commitment) : Bool :=
  c.state = .active ∧ c.committedAtSequence < sequence ∧ sequence ≤ c.expirationSequence

def isForfeitable (sequence : ℕ) (c : Commitment) : Bool :=
  c.state = .active ∧ c.expirationSequence < sequence

/-- A bond that left the contract. -/
structure Payout where
  recipient : Address
  ledger : ℕ
  amount : ℤ
  deriving DecidableEq

structure BondHistory where
  desk : Desk
  ledger : ℕ
  payouts : ℕ → List Payout

def BondHistory.fresh (tokens : Tokens) (ledger : ℕ) : BondHistory :=
  ⟨.empty tokens, ledger, fun _ => []⟩

/-- A call some ledgers after the last accepted one, with the treasury of that time. -/
structure BondStep (here : Address) where
  elapsed : ℕ
  treasury : Address
  env : Env here
  call : CommitCall

/-- The environment of the call in the ledger that is reached. -/
def BondStep.envAt {here : Address} (i : BondStep here) (h : BondHistory) : Env here :=
  { i.env with sequence := h.ledger + i.elapsed, treasury := some i.treasury }

/-- The bonds that a call pays out for a commitment. -/
def CommitCall.pays (call : CommitCall) (treasury : Address) (ledger : ℕ) (d : Desk) (id : ℕ) :
    List Payout :=
  match call with
  | .revealOrder commitmentId trader _ _ _ _ _ =>
    if id = commitmentId then
      ((d.commitments.lookup id).map fun c => ⟨trader, ledger, c.collateralAmount⟩).toList
    else []
  | .forfeitOrder commitmentId =>
    if id = commitmentId then
      ((d.commitments.lookup id).map fun c => ⟨treasury, ledger, c.collateralAmount⟩).toList
    else []
  | .commitOrder .. => []

def bondStep (codec : Codec) {here : Address} (i : BondStep here) (h : BondHistory) :
    Except Fault BondHistory := do
  let desk ← i.call.exec codec (i.envAt h) h.desk
  pure {
    desk
    ledger := h.ledger + i.elapsed
    payouts := fun id =>
      h.payouts id ++ i.call.pays i.treasury (h.ledger + i.elapsed) h.desk id }

/-! ## Moves of a bond -/

/-- What an accepted call does: it locks a new bond, gives one back within the window of its
commitment, or seizes one after the window. -/
inductive BondMove {here : Address} (env : Env here) (treasury : Address) (d d' : Desk) :
    CommitCall → Prop
  | lock {trader : Address} {hash : Digest} {asset : Address} {amount : ℤ} {expiration : ℕ}
    (pos : 0 < amount) (room : d.activeCommitmentCount trader < maxActiveCommitments)
    (tokens_eq : d'.book.tokens = d.book.tokens.move asset trader here amount)
    (nonce_eq : d'.nonce = d.nonce + 1)
    (stored : d'.commitments = d.commitments.insert (d.nonce + 1)
      ⟨d.nonce + 1, trader, hash, asset, amount, expiration, env.sequence, .active⟩)
    (counted : d'.counters = d.counters.insert trader (d.activeCommitmentCount trader + 1)) :
    BondMove env treasury d d' (.commitOrder trader hash asset amount expiration)
  | giveBack {id : ℕ} {c : Commitment} {secret : Bytes} {pair : AssetPair} {priceTick amount : ℤ}
    {isBuy : Bool} {o : LimitOrder} {book : Book} (found : d.commitments.lookup id = some c)
    (active : c.state = .active) (later : env.sequence ≠ c.committedAtSequence)
    (timely : env.sequence ≤ c.expirationSequence)
    (placed : placeRevealed env c.trader pair priceTick amount isBuy d.book = .ok (o, book))
    (tokens_eq : d'.book.tokens =
      book.tokens.move c.collateralAsset here c.trader c.collateralAmount)
    (nonce_eq : d'.nonce = d.nonce)
    (stored : d'.commitments = d.commitments.insert id { c with state := .revealed })
    (counted : ∀ trader, d'.activeCommitmentCount trader =
      d.activeCommitmentCount trader - if trader = c.trader then 1 else 0) :
    BondMove env treasury d d' (.revealOrder id c.trader secret pair priceTick amount isBuy)
  | seize {id : ℕ} {c : Commitment} (found : d.commitments.lookup id = some c)
    (active : c.state = .active) (expired : c.expirationSequence < env.sequence)
    (tokens_eq : d'.book.tokens =
      d.book.tokens.move c.collateralAsset here treasury c.collateralAmount)
    (nonce_eq : d'.nonce = d.nonce)
    (stored : d'.commitments = d.commitments.insert id { c with state := .forfeited })
    (counted : ∀ trader, d'.activeCommitmentCount trader =
      d.activeCommitmentCount trader - if trader = c.trader then 1 else 0) :
    BondMove env treasury d d' (.forfeitOrder id)

/-- Records are stored under their identifiers, and every bond is positive. -/
structure Desk.Filed (d : Desk) : Prop where
  keyed : ∀ id c, d.commitments.lookup id = some c → c.id = id
  fresh : ∀ id, d.nonce < id → d.commitments.lookup id = none
  bond_pos : ∀ id c, d.commitments.lookup id = some c → 0 < c.collateralAmount

section Moves

variable {codec : Codec} {here : Address} {env : Env here} {d d' : Desk} {treasury : Address}

theorem activeCommitmentCount_decrement (d : Desk) (trader other : Address) :
    (d.decrementCounter trader).activeCommitmentCount other =
      d.activeCommitmentCount other - if other = trader then 1 else 0 := by
  unfold Desk.decrementCounter
  split_ifs with hpos heq heq
  · subst heq
    simp [Desk.activeCommitmentCount]
  · simp [Desk.activeCommitmentCount, heq]
  · subst heq
    omega
  · rfl

@[simp] theorem decrementCounter_commitments (d : Desk) (trader : Address) :
    (d.decrementCounter trader).commitments = d.commitments := by
  unfold Desk.decrementCounter
  split_ifs <;> rfl

@[simp] theorem decrementCounter_nonce (d : Desk) (trader : Address) :
    (d.decrementCounter trader).nonce = d.nonce := by
  unfold Desk.decrementCounter
  split_ifs <;> rfl

theorem commitOrder_move {trader collateralAsset : Address} {hash : Digest} {amount : ℤ}
    {expiration : ℕ} {r : Commitment}
    (h : commitOrder env trader hash collateralAsset amount expiration d = .ok (r, d')) :
    BondMove env treasury d d' (.commitOrder trader hash collateralAsset amount expiration) := by
  simp only [commitOrder, Desk.nextCommitmentId, Desk.incrementCounter, bind_eq_ok, failIf_eq_ok,
    okOr_eq_ok, Env.requireAuth_eq_ok, checkBits_eq_some, Desk.transfer_eq_ok, pure_eq_ok,
    Prod.mk.injEq, not_le] at h
  obtain ⟨_, hpos, _, _, _, _, _, _, _, _, _, _, d₁, ⟨_, rfl⟩, _, ⟨_, ⟨_, rfl⟩, rfl⟩, _,
    ⟨_, hroom, rfl⟩, _, rfl⟩ := h
  exact .lock hpos hroom rfl rfl rfl rfl

theorem returnBond_eq_ok {c : Commitment} {trader : Address} (hpos : 0 < c.collateralAmount)
    (h : returnBond env c trader d = .ok d') :
    d' = { d with book := { d.book with
      tokens := d.book.tokens.move c.collateralAsset here trader c.collateralAmount } } := by
  rw [returnBond, if_pos hpos] at h
  exact (Desk.transfer_eq_ok.mp h).2

theorem revealOrder_move {commitmentId : ℕ} {trader : Address} {secret : Bytes} {pair : AssetPair}
    {priceTick amount : ℤ} {isBuy : Bool} {r : RevealResult} (hd : d.Filed)
    (h : revealOrder env codec commitmentId trader secret pair priceTick amount isBuy d =
      .ok (r, d')) :
    BondMove env treasury d d'
      (.revealOrder commitmentId trader secret pair priceTick amount isBuy) := by
  simp only [revealOrder, Desk.loadCommitment, bind_eq_ok, okOr_eq_ok, failIf_eq_ok, pure_eq_ok,
    Prod.exists, Prod.mk.injEq, not_not, not_lt] at h
  obtain ⟨c, hfound, _, rfl, _, hactive, _, htimely, _, hlater, _, _, _, _, _, _, o, book, hplaced,
    d₁, hbond, _, rfl⟩ := h
  obtain rfl := returnBond_eq_ok (hd.bond_pos _ _ hfound) hbond
  refine .giveBack hfound hactive hlater htimely hplaced ?_ ?_ ?_ ?_
  · rw [Desk.decrementCounter_book]
    rfl
  · rw [decrementCounter_nonce]
    rfl
  · rw [decrementCounter_commitments, ← hd.keyed _ _ hfound]
    rfl
  · intro other
    rw [activeCommitmentCount_decrement]
    rfl

theorem forfeitOrder_move {commitmentId r : ℕ} (hd : d.Filed) (ht : env.treasury = some treasury)
    (h : forfeitOrder env commitmentId d = .ok (r, d')) :
    BondMove env treasury d d' (.forfeitOrder commitmentId) := by
  simp only [forfeitOrder, Desk.loadCommitment, bind_eq_ok, okOr_eq_ok, failIf_eq_ok, pure_eq_ok,
    Prod.mk.injEq, not_not, not_le] at h
  obtain ⟨c, hfound, _, hactive, _, hexpired, d₁, hbond, _, rfl⟩ := h
  simp only [seizeBond, ht] at hbond
  obtain ⟨_, rfl⟩ := Desk.transfer_eq_ok.mp hbond
  refine .seize hfound hactive hexpired ?_ ?_ ?_ ?_
  · rw [Desk.decrementCounter_book]
    rfl
  · rw [decrementCounter_nonce]
    rfl
  · rw [decrementCounter_commitments, ← hd.keyed _ _ hfound]
    rfl
  · intro other
    rw [activeCommitmentCount_decrement]
    rfl

/-- Every accepted call is one move. -/
theorem exec_move {call : CommitCall} (hd : d.Filed) (ht : env.treasury = some treasury)
    (h : call.exec codec env d = .ok d') : BondMove env treasury d d' call := by
  cases call with
  | commitOrder trader commitmentHash collateralAsset collateralAmount expirationSequence =>
    obtain ⟨r, h⟩ := snd_map_eq_ok.mp h
    exact commitOrder_move h
  | revealOrder commitmentId trader secret pair priceTick amount isBuy =>
    obtain ⟨r, h⟩ := snd_map_eq_ok.mp h
    exact revealOrder_move hd h
  | forfeitOrder commitmentId =>
    obtain ⟨r, h⟩ := snd_map_eq_ok.mp h
    exact forfeitOrder_move hd ht h

end Moves

/-! ## Runs -/

/-- Counts one for an active commitment of the trader. -/
def activeFor (trader : Address) (_ : ℕ) (c : Commitment) : ℕ :=
  if c.trader = trader ∧ c.state = .active then 1 else 0

/-- Number of active commitments of a trader. -/
def Desk.activeOf (d : Desk) (trader : Address) : ℕ := Store.total (activeFor trader) d.commitments

/-- The bond of an active commitment was not paid out, and that of a closed one was paid out
once, to the party and on the side of the deadline that its state tells. -/
def PaidOut (c : Commitment) (payouts : List Payout) : Prop :=
  match c.state with
  | .active => payouts = []
  | .revealed => ∃ ledger, payouts = [⟨c.trader, ledger, c.collateralAmount⟩] ∧
    c.committedAtSequence < ledger ∧ ledger ≤ c.expirationSequence
  | .forfeited => ∃ treasury ledger, payouts = [⟨treasury, ledger, c.collateralAmount⟩] ∧
    c.expirationSequence < ledger

structure CustodyHolds (h : BondHistory) : Prop where
  paid_once : ∀ id c, h.desk.commitments.lookup id = some c → PaidOut c (h.payouts id)
  windows : ∀ id c, h.desk.commitments.lookup id = some c → c.state = .active →
    ∀ sequence, c.committedAtSequence < sequence →
      isRevealable sequence c = !isForfeitable sequence c
  counted : ∀ trader, h.desk.activeCommitmentCount trader = h.desk.activeOf trader
  bounded : ∀ trader, h.desk.activeCommitmentCount trader ≤ maxActiveCommitments

/-- An accepted call is a move of one bond. A record stays as it is, unless the call closes an
active one and pays its bond out. -/
def MovesOneBond (codec : Codec) {here : Address} (h : BondHistory) (i : BondStep here) : Prop :=
  ∀ h', bondStep codec i h = .ok h' →
    BondMove (i.envAt h) i.treasury h.desk h'.desk i.call ∧
    ∀ id c, h.desk.commitments.lookup id = some c →
      h'.desk.commitments.lookup id = some c ∧ h'.payouts id = h.payouts id ∨
      c.state = .active ∧ ∃ state payout, state ≠ .active ∧
        h'.desk.commitments.lookup id = some { c with state } ∧
        h'.payouts id = h.payouts id ++ [payout]

structure BondHistory.Sound (h : BondHistory) : Prop where
  filed : h.desk.Filed
  past : ∀ id c, h.desk.commitments.lookup id = some c → c.committedAtSequence ≤ h.ledger
  unpaid : ∀ id, h.desk.commitments.lookup id = none → h.payouts id = []
  paid : ∀ id c, h.desk.commitments.lookup id = some c → PaidOut c (h.payouts id)
  counted : ∀ trader, h.desk.activeCommitmentCount trader = h.desk.activeOf trader
  bounded : ∀ trader, h.desk.activeCommitmentCount trader ≤ maxActiveCommitments

section Runs

variable {codec : Codec} {here : Address} {i : BondStep here} {env : Env here} {d d' : Desk}
  {h h' : BondHistory} {treasury : Address} {call : CommitCall} {c : Commitment}

theorem BondHistory.Sound.fresh (tokens : Tokens) (ledger : ℕ) :
    (BondHistory.fresh tokens ledger).Sound where
  filed := ⟨fun _ _ hc => by simp [BondHistory.fresh, Desk.empty] at hc, fun _ _ => rfl,
    fun _ _ hc => by simp [BondHistory.fresh, Desk.empty] at hc⟩
  past _ _ hc := by simp [BondHistory.fresh, Desk.empty] at hc
  unpaid _ _ := rfl
  paid _ _ hc := by simp [BondHistory.fresh, Desk.empty] at hc
  counted _ := rfl
  bounded _ := Nat.zero_le _

/-- A new identifier is unused. -/
theorem Desk.Filed.next_unused (hd : d.Filed) : d.commitments.lookup (d.nonce + 1) = none :=
  hd.fresh _ (Nat.lt_succ_self _)

/-- Closing a commitment keeps the files in order. -/
theorem Desk.Filed.close {id : ℕ} {state : CommitmentState} (hd : d.Filed)
    (found : d.commitments.lookup id = some c) (nonce_eq : d'.nonce = d.nonce)
    (stored : d'.commitments = d.commitments.insert id { c with state }) : d'.Filed := by
  refine ⟨fun other c' hc => ?_, fun other hother => ?_, fun other c' hc => ?_⟩
  · rw [stored] at hc
    rcases Store.lookup_insert_eq_some.mp hc with ⟨rfl, rfl⟩ | ⟨_, hc⟩
    · exact hd.keyed _ c found
    · exact hd.keyed other c' hc
  · have hnone := hd.fresh other (by omega)
    have hne : other ≠ id := by
      rintro rfl
      cases hnone.symm.trans found
    rw [stored, Store.lookup_insert_ite, if_neg hne]
    exact hnone
  · rw [stored] at hc
    rcases Store.lookup_insert_eq_some.mp hc with ⟨rfl, rfl⟩ | ⟨_, hc⟩
    · exact hd.bond_pos _ c found
    · exact hd.bond_pos other c' hc

theorem BondMove.filed (hm : BondMove env treasury d d' call) (hd : d.Filed) : d'.Filed := by
  cases hm with
  | lock pos room tokens_eq nonce_eq stored counted =>
    refine ⟨fun id c hc => ?_, fun id hid => ?_, fun id c hc => ?_⟩
    · rw [stored] at hc
      rcases Store.lookup_insert_eq_some.mp hc with ⟨rfl, rfl⟩ | ⟨_, hc⟩
      · rfl
      · exact hd.keyed id c hc
    · rw [stored, Store.lookup_insert_ite, if_neg (by omega)]
      exact hd.fresh id (by omega)
    · rw [stored] at hc
      rcases Store.lookup_insert_eq_some.mp hc with ⟨_, rfl⟩ | ⟨_, hc⟩
      · exact pos
      · exact hd.bond_pos id c hc
  | giveBack found active later timely placed tokens_eq nonce_eq stored counted =>
    exact hd.close found nonce_eq stored
  | seize found active expired tokens_eq nonce_eq stored counted =>
    exact hd.close found nonce_eq stored

theorem Desk.Filed.activeOf_lock {asset trader : Address} {hash : Digest} {amount : ℤ}
    {expiration sequence : ℕ} (hd : d.Filed)
    (stored : d'.commitments = d.commitments.insert (d.nonce + 1)
      ⟨d.nonce + 1, trader, hash, asset, amount, expiration, sequence, .active⟩) (t : Address) :
    d'.activeOf t = d.activeOf t + if t = trader then 1 else 0 := by
  rw [Desk.activeOf, stored, Store.total_insert_of_none _ _ hd.next_unused, Desk.activeOf, add_comm]
  simp [activeFor, eq_comm]

theorem activeOf_close {id : ℕ} {state : CommitmentState} (hstate : state ≠ .active)
    (found : d.commitments.lookup id = some c) (active : c.state = .active)
    (stored : d'.commitments = d.commitments.insert id { c with state }) (t : Address) :
    d'.activeOf t + (if t = c.trader then 1 else 0) = d.activeOf t := by
  have hx : d'.activeOf t + activeFor t id c = d.activeOf t + activeFor t id { c with state } := by
    have hinsert := Store.total_insert (activeFor t) d.commitments id { c with state }
    rwa [Store.part_of_lookup _ found, ← stored] at hinsert
  simpa [activeFor, active, hstate, eq_comm] using hx

/-- Every move keeps the counters at the number of active commitments and within the limit. -/
theorem BondMove.counters (hm : BondMove env treasury d d' call) (hd : d.Filed)
    (hcount : ∀ t, d.activeCommitmentCount t = d.activeOf t)
    (hle : ∀ t, d.activeCommitmentCount t ≤ maxActiveCommitments) (t : Address) :
    d'.activeCommitmentCount t = d'.activeOf t ∧
      d'.activeCommitmentCount t ≤ maxActiveCommitments := by
  have ht := hcount t
  have hmax := hle t
  cases hm with
  | @lock trader _ _ _ _ pos room tokens_eq nonce_eq stored counted =>
    have hof := hd.activeOf_lock stored t
    have hcount' : d'.activeCommitmentCount t =
        d.activeCommitmentCount t + if t = trader then 1 else 0 := by
      rw [Desk.activeCommitmentCount, counted, Store.lookup_insert_ite]
      split_ifs with heq
      · rw [heq]
        rfl
      · rfl
    split_ifs at hof hcount' with heq
    · subst heq
      omega
    · omega
  | giveBack found active later timely placed tokens_eq nonce_eq stored counted =>
    have hof := activeOf_close (by simp) found active stored t
    have hcount' := counted t
    omega
  | seize found active expired tokens_eq nonce_eq stored counted =>
    have hof := activeOf_close (by simp) found active stored t
    have hcount' := counted t
    omega

/-- What a call pays out belongs to the commitment that it names. -/
theorem BondMove.lookup (hm : BondMove env treasury d d' call) (hd : d.Filed) (id : ℕ) :
    (d'.commitments.lookup id = d.commitments.lookup id ∧
      call.pays treasury env.sequence d id = []) ∨
    (d.commitments.lookup id = none ∧ call.pays treasury env.sequence d id = [] ∧
      ∃ c, d'.commitments.lookup id = some c ∧ c.state = .active ∧
        c.committedAtSequence = env.sequence) ∨
    ∃ c state payout, d.commitments.lookup id = some c ∧ c.state = .active ∧ state ≠ .active ∧
      d'.commitments.lookup id = some { c with state } ∧
      call.pays treasury env.sequence d id = [payout] ∧
      (c.committedAtSequence ≤ env.sequence → PaidOut { c with state } [payout]) := by
  cases hm with
  | lock pos room tokens_eq nonce_eq stored counted =>
    by_cases hid : id = d.nonce + 1
    · subst hid
      exact .inr (.inl ⟨hd.next_unused, rfl, _, by rw [stored, Finmap.lookup_insert], rfl, rfl⟩)
    · exact .inl ⟨by rw [stored, Store.lookup_insert_ite, if_neg hid], rfl⟩
  | @giveBack id' c _ _ _ _ _ _ _ found active later timely placed tokens_eq nonce_eq stored
      counted =>
    by_cases hid : id = id'
    · subst hid
      refine .inr (.inr ⟨c, .revealed, ⟨c.trader, env.sequence, c.collateralAmount⟩, found, active,
        by simp, by rw [stored, Finmap.lookup_insert], ?_, fun hpast => ?_⟩)
      · simp [CommitCall.pays, found]
      · exact ⟨env.sequence, rfl, lt_of_le_of_ne hpast (Ne.symm later), timely⟩
    · exact .inl ⟨by rw [stored, Store.lookup_insert_ite, if_neg hid],
        by simp [CommitCall.pays, hid]⟩
  | @seize id' c found active expired tokens_eq nonce_eq stored counted =>
    by_cases hid : id = id'
    · subst hid
      refine .inr (.inr ⟨c, .forfeited, ⟨treasury, env.sequence, c.collateralAmount⟩, found, active,
        by simp, by rw [stored, Finmap.lookup_insert], ?_, fun _ => ?_⟩)
      · simp [CommitCall.pays, found]
      · exact ⟨treasury, env.sequence, rfl, expired⟩
    · exact .inl ⟨by rw [stored, Store.lookup_insert_ite, if_neg hid],
        by simp [CommitCall.pays, hid]⟩

/-- An accepted call, with the desk it leads to. -/
theorem bondStep_eq_ok (hs : h.desk.Filed) (hstep : bondStep codec i h = .ok h') :
    BondMove (i.envAt h) i.treasury h.desk h'.desk i.call ∧
      h'.ledger = (i.envAt h).sequence ∧
      ∀ id, h'.payouts id = h.payouts id ++
        i.call.pays i.treasury (i.envAt h).sequence h.desk id := by
  simp only [bondStep, bind_eq_ok, pure_eq_ok] at hstep
  obtain ⟨desk, hexec, rfl⟩ := hstep
  exact ⟨exec_move hs rfl hexec, rfl, fun _ => rfl⟩

theorem bondStep_sound (hs : h.Sound) (hstep : bondStep codec i h = .ok h') : h'.Sound := by
  obtain ⟨hm, hledger, hpay⟩ := bondStep_eq_ok hs.filed hstep
  have hle : h.ledger ≤ (i.envAt h).sequence := Nat.le_add_right _ _
  refine ⟨hm.filed hs.filed, fun id c hc => ?_, fun id hnone => ?_, fun id c hc => ?_,
    fun t => (hm.counters hs.filed hs.counted hs.bounded t).1,
    fun t => (hm.counters hs.filed hs.counted hs.bounded t).2⟩
  · rcases hm.lookup hs.filed id with
      ⟨hsame, _⟩ | ⟨_, _, c', hc', _, hat⟩ | ⟨c', state, _, hfound, _, _, hc', _, _⟩
    · exact (hs.past id c (hsame ▸ hc)).trans (hledger ▸ hle)
    · obtain rfl := Option.some.inj (hc'.symm.trans hc)
      omega
    · obtain rfl := Option.some.inj (hc'.symm.trans hc)
      exact (hs.past id c' hfound).trans (hledger ▸ hle)
  · rcases hm.lookup hs.filed id with
      ⟨hsame, hnil⟩ | ⟨_, _, c', hc', _⟩ | ⟨c', state, _, _, _, _, hc', _⟩
    · rw [hpay, hnil, List.append_nil]
      exact hs.unpaid id (hsame ▸ hnone)
    · cases hc'.symm.trans hnone
    · cases hc'.symm.trans hnone
  · rw [hpay]
    rcases hm.lookup hs.filed id with
      ⟨hsame, hnil⟩ | ⟨hfree, hnil, c', hc', hactive, _⟩ |
        ⟨c', state, payout, hfound, hactive, _, hc', hone, hpaid⟩
    · rw [hnil, List.append_nil]
      exact hs.paid id c (hsame ▸ hc)
    · obtain rfl := Option.some.inj (hc'.symm.trans hc)
      rw [hnil, hs.unpaid id hfree, PaidOut, hactive]
      rfl
    · obtain rfl := Option.some.inj (hc'.symm.trans hc)
      have hbefore := hs.paid id c' hfound
      rw [PaidOut, hactive] at hbefore
      rw [hone, hbefore]
      exact hpaid ((hs.past id c' hfound).trans hle)

theorem window_exclusive (hactive : c.state = .active) {sequence : ℕ}
    (hpast : c.committedAtSequence < sequence) :
    isRevealable sequence c = !isForfeitable sequence c := by
  by_cases hle : sequence ≤ c.expirationSequence
  · simp [isRevealable, isForfeitable, hactive, hpast, hle, not_lt.mpr hle]
  · simp [isRevealable, isForfeitable, hactive, hle, not_le.mp hle]

theorem BondHistory.Sound.custodyHolds (hs : h.Sound) : CustodyHolds h where
  paid_once := hs.paid
  windows _ _ _ hactive _ hpast := window_exclusive hactive hpast
  counted := hs.counted
  bounded := hs.bounded

theorem BondHistory.Sound.movesOneBond (hs : h.Sound) (i : BondStep here) :
    MovesOneBond codec h i := by
  intro h' hstep
  obtain ⟨hm, _, hpay⟩ := bondStep_eq_ok hs.filed hstep
  refine ⟨hm, fun id c hc => ?_⟩
  rcases hm.lookup hs.filed id with
    ⟨hsame, hnil⟩ | ⟨hfree, _⟩ | ⟨c', state, payout, hfound, hactive, hclosed, hc', hone, _⟩
  · exact .inl ⟨hsame.trans hc, by rw [hpay, hnil, List.append_nil]⟩
  · cases hfree.symm.trans hc
  · obtain rfl := Option.some.inj (hfound.symm.trans hc)
    exact .inr ⟨hactive, state, payout, hclosed, hc', by rw [hpay, hone]⟩

/-- In every run with a treasury each bond is in the contract while its commitment is active
and is paid out once when it closes, and the counters tell the active commitments. -/
theorem bond_custody (codec : Codec) (tokens : Tokens) (ledger : ℕ) (run : List (BondStep here)) :
    Throughout (bondStep codec) CustodyHolds (.fresh tokens ledger) run ∧
      Along (bondStep codec) (MovesOneBond codec) (.fresh tokens ledger) run :=
  ⟨throughout_of_invariant (I := BondHistory.Sound) (fun _ _ _ hs h => bondStep_sound hs h)
      (fun _ hs => hs.custodyHolds) (.fresh tokens ledger) run,
    along_of_invariant (I := BondHistory.Sound) (fun _ _ _ hs h => bondStep_sound hs h)
      (fun _ i hs => hs.movesOneBond i) (.fresh tokens ledger) run⟩

end Runs

end StellarFlow.Orders
