import StellarFlow.Orders.Runs

/-!
# Commit-reveal orders

A trader first locks a bond behind a hash of the trade it intends, and in a later ledger
reveals the trade, which is then placed in the order book and releases the bond. After the
deadline anybody may forfeit the bond to the treasury. Bonds are held by the same contract
as the escrow of the book.
-/
namespace StellarFlow.Orders

open Foundation

def maxActiveCommitments : ℕ := 64
/-- The shortest and the longest window for a reveal, in ledgers. -/
def minExpirationOffset : ℕ := 10
def maxExpirationOffset : ℕ := 3110400

abbrev Bytes := List UInt8
abbrev Digest := Vector UInt8 32

/-- The encoding of addresses and the hash function of the host. -/
structure Codec where
  xdr : Address → Bytes
  sha256 : Bytes → Digest

inductive CommitmentState
  | active
  | revealed
  | forfeited
  deriving DecidableEq, Repr

structure Commitment where
  id : ℕ
  trader : Address
  commitmentHash : Digest
  collateralAsset : Address
  collateralAmount : ℤ
  expirationSequence : ℕ
  committedAtSequence : ℕ
  state : CommitmentState
  deriving DecidableEq

structure RevealResult where
  commitmentId : ℕ
  orderId : ℕ
  trader : Address
  bondReturned : ℤ
  deriving DecidableEq, Repr

/-- The order book with the commitments next to it. -/
structure Desk where
  book : Book
  nonce : ℕ
  commitments : Store ℕ Commitment
  counters : Store Address ℕ

def Desk.empty (tokens : Tokens) : Desk := ⟨Book.empty tokens, 0, ∅, ∅⟩

namespace Desk

def loadCommitment (id : ℕ) (d : Desk) : Except Fault Commitment :=
  okOr (d.commitments.lookup id) (Fault.error .commitmentNotFound)

def saveCommitment (c : Commitment) (d : Desk) : Desk :=
  { d with commitments := d.commitments.insert c.id c }

def activeCommitmentCount (trader : Address) (d : Desk) : ℕ := (d.counters.lookup trader).getD 0

def nextCommitmentId (d : Desk) : Except Fault (ℕ × Desk) := do
  let id ← okOr (checkBits 64 (d.nonce + 1)) (Fault.error .overflow)
  pure (id, { d with nonce := id })

def incrementCounter (trader : Address) (d : Desk) : Except Fault Desk := do
  failIf (maxActiveCommitments ≤ d.activeCommitmentCount trader)
    (Fault.error .tooManyActiveCommitments)
  pure { d with counters := d.counters.insert trader (d.activeCommitmentCount trader + 1) }

def decrementCounter (trader : Address) (d : Desk) : Desk :=
  if 0 < d.activeCommitmentCount trader then
    { d with counters := d.counters.insert trader (d.activeCommitmentCount trader - 1) }
  else d

/-- A transfer of tokens, which are kept in the book. -/
def transfer {here : Address} (env : Env here) (token src dst : Address) (amount : ℤ)
    (d : Desk) : Except Fault Desk := do
  let book ← d.book.transfer env token src dst amount
  pure { d with book }

end Desk

/-- The given number of bytes of a two's complement value, most significant first. -/
def toBeBytes (n : ℕ) (x : ℤ) : Bytes :=
  (List.range n).map fun i => UInt8.ofNat (x / 256 ^ (n - 1 - i) % 256).toNat

@[simp] theorem toBeBytes_length (n : ℕ) (x : ℤ) : (toBeBytes n x).length = n := by
  simp [toBeBytes]

theorem toBeBytes_succ (n : ℕ) (x : ℤ) :
    toBeBytes (n + 1) x = toBeBytes n (x / 256) ++ [UInt8.ofNat (x % 256).toNat] := by
  rw [toBeBytes, List.range_succ, List.map_append, List.map_singleton, toBeBytes]
  congr 1
  · refine List.map_congr_left fun i hi => ?_
    have hlt := List.mem_range.mp hi
    rw [show n + 1 - 1 - i = n - 1 - i + 1 by omega, pow_succ',
      Int.ediv_ediv_of_nonneg (by norm_num)]
  · simp

theorem byte_inj {x y : ℤ}
    (h : UInt8.ofNat (x % 256).toNat = UInt8.ofNat (y % 256).toNat) : x % 256 = y % 256 := by
  have hnat := congrArg UInt8.toNat h
  rw [UInt8.toNat_ofNat', UInt8.toNat_ofNat'] at hnat
  omega

/-- The bytes determine the value modulo the range of their number. -/
theorem toBeBytes_inj {n : ℕ} {x y : ℤ} (h : toBeBytes n x = toBeBytes n y) :
    x % 256 ^ n = y % 256 ^ n := by
  induction n generalizing x y with
  | zero => simp
  | succ n ih =>
    rw [toBeBytes_succ, toBeBytes_succ] at h
    obtain ⟨hhigh, hlow⟩ := List.append_inj h (by simp)
    have hbyte := byte_inj (List.cons.inj hlow).1
    have hquotient : 256 * (x / 256) ≡ 256 * (y / 256) [ZMOD 256 * 256 ^ n] :=
      Int.ModEq.mul_left' (ih hhigh)
    have hsum := hquotient.add_right (x % 256)
    rw [pow_succ']
    rwa [Int.mul_ediv_add_emod, hbyte, Int.mul_ediv_add_emod] at hsum

theorem i128_value_inj {x y : i128.Value} (h : toBeBytes 16 x = toBeBytes 16 y) : x = y := by
  have hmod := toBeBytes_inj h
  obtain ⟨x, hx⟩ := x
  obtain ⟨y, hy⟩ := y
  have hbounds : i128.lo = -2 ^ 127 ∧ i128.hi = 2 ^ 127 - 1 := ⟨rfl, rfl⟩
  have h1 := hx.1
  have h2 := hx.2
  have h3 := hy.1
  have h4 := hy.2
  rw [hbounds.1] at h1 h3
  rw [hbounds.2] at h2 h4
  have : x = y := by
    norm_num at hmod h1 h2 h3 h4
    omega
  exact Subtype.ext this

/-- The bytes that are hashed: the fields follow each other without separators. -/
def commitmentBytes (codec : Codec) (secret : Bytes) (pair : AssetPair) (priceTick amount : ℤ)
    (isBuy : Bool) : Bytes :=
  secret ++ codec.xdr pair.sellAsset ++ codec.xdr pair.buyAsset ++ toBeBytes 16 priceTick ++
    toBeBytes 16 amount ++ toBeBytes 1 (if isBuy then 1 else 0)

def computeCommitment (codec : Codec) (secret : Bytes) (pair : AssetPair) (priceTick amount : ℤ)
    (isBuy : Bool) : Digest :=
  codec.sha256 (commitmentBytes codec secret pair priceTick amount isBuy)

section Calls

variable {here : Address} (env : Env here)

def commitOrder (trader : Address) (commitmentHash : Digest) (collateralAsset : Address)
    (collateralAmount : ℤ) (expirationSequence : ℕ) (d : Desk) :
    Except Fault (Commitment × Desk) := do
  failIf (collateralAmount ≤ 0) (Fault.error .orderZeroAmount)
  env.requireAuth trader
  let earliest ← okOr (checkBits 32 (env.sequence + minExpirationOffset)) Fault.trap
  failIf (expirationSequence ≤ earliest) (Fault.error .commitmentWindowTooShort)
  let latest ← okOr (checkBits 32 (env.sequence + maxExpirationOffset)) Fault.trap
  failIf (latest < expirationSequence) (Fault.error .commitmentWindowTooLong)
  let d ← d.transfer env collateralAsset trader here collateralAmount
  let (id, d) ← d.nextCommitmentId
  let d ← d.incrementCounter trader
  let commitment : Commitment := {
    id, trader, commitmentHash, collateralAsset, collateralAmount, expirationSequence
    committedAtSequence := env.sequence, state := .active }
  pure (commitment, d.saveCommitment commitment)

/-- The trade of a reveal goes through the entry points of the book. -/
def placeRevealed (trader : Address) (pair : AssetPair) (priceTick amount : ℤ) (isBuy : Bool)
    (b : Book) : Except Fault (LimitOrder × Book) :=
  if isBuy then placeBuyOrder env trader pair priceTick amount b
  else placeOrder env trader pair priceTick amount b

/-- Give the bond back to the trader. -/
def returnBond (c : Commitment) (trader : Address) (d : Desk) : Except Fault Desk :=
  if 0 < c.collateralAmount then
    d.transfer env c.collateralAsset here trader c.collateralAmount
  else pure d

/-- The authorisation of the trader is that of the placement. -/
def revealOrder (codec : Codec) (commitmentId : ℕ) (trader : Address) (secret : Bytes)
    (pair : AssetPair) (priceTick amount : ℤ) (isBuy : Bool) (d : Desk) :
    Except Fault (RevealResult × Desk) := do
  let commitment ← d.loadCommitment commitmentId
  failIf (commitment.trader ≠ trader) (Fault.error .unauthorized)
  failIf (commitment.state ≠ .active) (Fault.error .commitmentNotActive)
  failIf (commitment.expirationSequence < env.sequence) (Fault.error .commitmentExpired)
  failIf (env.sequence = commitment.committedAtSequence) (Fault.error .commitmentNotRevealWindow)
  failIf (amount ≤ 0) (Fault.error .orderZeroAmount)
  failIf (priceTick ≤ 0) (Fault.error .orderInvalidPrice)
  failIf (computeCommitment codec secret pair priceTick amount isBuy ≠ commitment.commitmentHash)
    (Fault.error .commitmentHashMismatch)
  let (order, book) ← placeRevealed env trader pair priceTick amount isBuy d.book
  let d ← returnBond env commitment trader { d with book }
  let d := (d.saveCommitment { commitment with state := .revealed }).decrementCounter trader
  pure (⟨commitmentId, order.id, trader, commitment.collateralAmount⟩, d)

/-- A forfeited bond goes to the treasury, or stays without one. -/
def seizeBond (c : Commitment) (d : Desk) : Except Fault Desk :=
  match env.treasury with
  | some treasury => d.transfer env c.collateralAsset here treasury c.collateralAmount
  | none => pure d

/-- The amount returned is cut to 64 bits. -/
def forfeitOrder (commitmentId : ℕ) (d : Desk) : Except Fault (ℕ × Desk) := do
  let commitment ← d.loadCommitment commitmentId
  failIf (commitment.state ≠ .active) (Fault.error .commitmentNotActive)
  failIf (env.sequence ≤ commitment.expirationSequence) (Fault.error .commitmentNotExpired)
  let d ← seizeBond env commitment d
  let d := (d.saveCommitment { commitment with state := .forfeited }).decrementCounter
    commitment.trader
  pure ((commitment.collateralAmount % 2 ^ 64).toNat, d)

end Calls

inductive CommitCall
  | commitOrder (trader : Address) (commitmentHash : Digest) (collateralAsset : Address)
      (collateralAmount : ℤ) (expirationSequence : ℕ)
  | revealOrder (commitmentId : ℕ) (trader : Address) (secret : Bytes) (pair : AssetPair)
      (priceTick amount : ℤ) (isBuy : Bool)
  | forfeitOrder (commitmentId : ℕ)

def CommitCall.exec (codec : Codec) {here : Address} (env : Env here) (d : Desk) :
    CommitCall → Except Fault Desk
  | .commitOrder trader commitmentHash collateralAsset collateralAmount expirationSequence =>
    Prod.snd <$> Orders.commitOrder env trader commitmentHash collateralAsset collateralAmount
      expirationSequence d
  | .revealOrder commitmentId trader secret pair priceTick amount isBuy =>
    Prod.snd <$> Orders.revealOrder env codec commitmentId trader secret pair priceTick amount
      isBuy d
  | .forfeitOrder commitmentId => Prod.snd <$> Orders.forfeitOrder env commitmentId d

section Accepted

variable {here : Address} {env : Env here} {codec : Codec} {d d' : Desk}

theorem Desk.transfer_eq_ok {token src dst : Address} {amount : ℤ} :
    d.transfer env token src dst amount = .ok d' ↔
      env.accepts d.book.tokens token src dst amount = true ∧
        d' = { d with book := { d.book with
          tokens := d.book.tokens.move token src dst amount } } := by
  simp only [Desk.transfer, bind_eq_ok, Book.transfer_eq_ok, pure_eq_ok]
  constructor
  · rintro ⟨_, ⟨ha, rfl⟩, rfl⟩
    exact ⟨ha, rfl⟩
  · rintro ⟨ha, rfl⟩
    exact ⟨_, ⟨ha, rfl⟩, rfl⟩

@[simp] theorem Desk.decrementCounter_book (trader : Address) :
    (d.decrementCounter trader).book = d.book := by
  unfold Desk.decrementCounter
  split_ifs <;> rfl

/-- A commitment moves its bond into the contract. -/
theorem commitOrder_book {trader collateralAsset : Address} {hash : Digest} {amount : ℤ}
    {expiration : ℕ} {r : Commitment}
    (h : commitOrder env trader hash collateralAsset amount expiration d = .ok (r, d')) :
    0 < amount ∧ env.auth trader = true ∧ d'.book =
      { d.book with tokens := d.book.tokens.move collateralAsset trader here amount } := by
  simp only [commitOrder, Desk.nextCommitmentId, Desk.incrementCounter, bind_eq_ok, failIf_eq_ok,
    okOr_eq_ok, Env.requireAuth_eq_ok, checkBits_eq_some, Desk.transfer_eq_ok, pure_eq_ok,
    Prod.mk.injEq, not_le] at h
  obtain ⟨_, hpos, _, hauth, _, _, _, _, _, _, _, _, d₁, ⟨_, rfl⟩, _, ⟨_, _, rfl⟩, _, ⟨_, _, rfl⟩,
    _, rfl⟩ := h
  exact ⟨hpos, hauth, rfl⟩

theorem placeRevealed_place {trader : Address} {pair : AssetPair} {priceTick amount : ℤ}
    {isBuy : Bool} {o : LimitOrder} {b b' : Book}
    (h : placeRevealed env trader pair priceTick amount isBuy b = .ok (o, b')) :
    Place here b b' o := by
  unfold placeRevealed at h
  split_ifs at h
  · exact placeBuyOrder_place h
  · exact placeOrderWithExpiry_place h

theorem revealOrder_table {commitmentId : ℕ} {trader : Address} {secret : Bytes}
    {pair : AssetPair} {priceTick amount : ℤ} {isBuy : Bool} {r : RevealResult}
    (h : revealOrder env codec commitmentId trader secret pair priceTick amount isBuy d =
      .ok (r, d')) :
    ∃ o b, Place here d.book b o ∧ d'.book.table = b.table := by
  simp only [revealOrder, bind_eq_ok, failIf_eq_ok, pure_eq_ok, Prod.exists, Prod.mk.injEq] at h
  obtain ⟨commitment, _, _, _, _, _, _, _, _, _, _, _, _, _, _, _, o, b, hplace, d₁, hbond, _,
    rfl⟩ := h
  refine ⟨o, b, placeRevealed_place hplace, ?_⟩
  unfold returnBond at hbond
  split_ifs at hbond
  · obtain ⟨_, rfl⟩ := Desk.transfer_eq_ok.mp hbond
    simp [Desk.saveCommitment]
  · rw [pure_eq_ok] at hbond
    subst hbond
    simp [Desk.saveCommitment]

/-- Seizing a bond moves tokens and nothing else. -/
theorem seizeBond_eq_ok {c : Commitment} (h : seizeBond env c d = .ok d') :
    ∃ tokens, d' = { d with book := { d.book with tokens } } := by
  unfold seizeBond at h
  split at h
  · obtain ⟨_, rfl⟩ := Desk.transfer_eq_ok.mp h
    exact ⟨_, rfl⟩
  · exact ⟨d.book.tokens, (pure_eq_ok.mp h).symm⟩

theorem forfeitOrder_table {commitmentId r : ℕ}
    (h : forfeitOrder env commitmentId d = .ok (r, d')) : d'.book.table = d.book.table := by
  simp only [forfeitOrder, bind_eq_ok, failIf_eq_ok, pure_eq_ok, Prod.mk.injEq] at h
  obtain ⟨commitment, _, _, _, _, _, d₁, hbond, _, rfl⟩ := h
  obtain ⟨tokens, rfl⟩ := seizeBond_eq_ok hbond
  simp [Desk.saveCommitment]

/-- Every commit-reveal call keeps the book well-formed. -/
theorem CommitCall.exec_wellFormed {call : CommitCall} (hw : d.book.WellFormed here)
    (h : call.exec codec env d = .ok d') : d'.book.WellFormed here := by
  cases call with
  | commitOrder trader commitmentHash collateralAsset collateralAmount expirationSequence =>
    obtain ⟨r, h⟩ := snd_map_eq_ok.mp h
    obtain ⟨_, _, hbook⟩ := commitOrder_book h
    exact hw.of_table (by rw [hbook])
  | revealOrder commitmentId trader secret pair priceTick amount isBuy =>
    obtain ⟨r, h⟩ := snd_map_eq_ok.mp h
    obtain ⟨o, b, hplace, htable⟩ := revealOrder_table h
    exact (hplace.wellFormed hw).of_table htable
  | forfeitOrder commitmentId =>
    obtain ⟨r, h⟩ := snd_map_eq_ok.mp h
    exact hw.of_table (forfeitOrder_table h)

end Accepted

end StellarFlow.Orders
