import StellarFlow.Foundation.SuffixCode
import StellarFlow.Orders.BondCustody

/-!
# What a commitment binds

The secret stands before the terms of the trade without its length, and an address has one of
two lengths. The terms can still be read off from the end: the last fields have fixed lengths,
and no encoded address ends with another one. So the bytes that are hashed determine the
opening, and a stored commitment can be revealed with one set of terms only.
-/
namespace StellarFlow.Orders

open Foundation

/-! ## Encoded addresses -/

/-- Type of the value, of the address and of the key. -/
def accountHeader : Bytes := [0, 0, 0, 0x12, 0, 0, 0, 0, 0, 0, 0, 0]

/-- Type of the value and of the address. -/
def contractHeader : Bytes := [0, 0, 0, 0x12, 0, 0, 0, 1]

def accountCode : Set Bytes := {x | ∃ key : Digest, x = accountHeader ++ key.toList}

def contractCode : Set Bytes := {x | ∃ key : Digest, x = contractHeader ++ key.toList}

/-- The addresses in use are encoded as accounts or contracts, each in its own way. -/
structure Codec.EncodesAddresses (codec : Codec) (inUse : Set Address) : Prop where
  form : ∀ a ∈ inUse, codec.xdr a ∈ accountCode ∪ contractCode
  inj : Set.InjOn codec.xdr inUse

theorem length_of_mem_accountCode {x : Bytes} (hx : x ∈ accountCode) : x.length = 44 := by
  obtain ⟨key, rfl⟩ := hx
  simp [accountHeader]

theorem length_of_mem_contractCode {x : Bytes} (hx : x ∈ contractCode) : x.length = 40 := by
  obtain ⟨key, rfl⟩ := hx
  simp [contractHeader]

/-- The last 40 bytes of an account do not begin like a contract. -/
theorem not_contract_suffix_account {x y : Bytes} (hx : x ∈ contractCode) (hy : y ∈ accountCode) :
    ¬ x <:+ y := by
  rintro ⟨t, ht⟩
  have ht4 : t.length = 4 := by
    have hlen := congrArg List.length ht
    rw [List.length_append, length_of_mem_contractCode hx, length_of_mem_accountCode hy] at hlen
    omega
  obtain ⟨key, rfl⟩ := hx
  obtain ⟨key', rfl⟩ := hy
  have hat := congrArg (fun l => l[7]?) ht
  simp [ht4, contractHeader, accountHeader] at hat

theorem suffixFree_addresses : SuffixFree (accountCode ∪ contractCode) := by
  refine (suffixFree_of_length fun _ => length_of_mem_accountCode).union
    (suffixFree_of_length fun _ => length_of_mem_contractCode) fun x hx y hy => ⟨?_, ?_⟩
  · intro hsuffix
    have hlen := hsuffix.length_le
    rw [length_of_mem_accountCode hx, length_of_mem_contractCode hy] at hlen
    omega
  · exact not_contract_suffix_account hy hx

/-! ## Openings -/

/-- A secret of any length and the terms of a trade between addresses in use. -/
structure Opening (inUse : Set Address) where
  secret : Bytes
  sellAsset : inUse
  buyAsset : inUse
  priceTick : i128.Value
  amount : i128.Value
  isBuy : Bool

variable {inUse : Set Address} {codec : Codec}

def Opening.pair (o : Opening inUse) : AssetPair := ⟨o.sellAsset, o.buyAsset⟩

/-- The bytes that the commitment to the opening is the hash of. -/
def Opening.bytes (codec : Codec) (o : Opening inUse) : Bytes :=
  commitmentBytes codec o.secret o.pair o.priceTick o.amount o.isBuy

def Opening.reveal (codec : Codec) {here : Address} (env : Env here) (id : ℕ) (trader : Address)
    (o : Opening inUse) (d : Desk) : Except Fault (RevealResult × Desk) :=
  revealOrder env codec id trader o.secret o.pair o.priceTick o.amount o.isBuy d

theorem side_inj {b b' : Bool}
    (h : toBeBytes 1 (if b then 1 else 0) = toBeBytes 1 (if b' then 1 else 0)) : b = b' := by
  have hmod := toBeBytes_inj h
  cases b <;> cases b' <;> simp_all

/-- The hashed bytes determine the opening. -/
theorem Opening.bytes_injective (hx : codec.EncodesAddresses inUse) {o o' : Opening inUse}
    (h : o.bytes codec = o'.bytes codec) : o = o' := by
  simp only [Opening.bytes, commitmentBytes] at h
  obtain ⟨h, hside⟩ := List.append_inj' h (by simp)
  obtain ⟨h, hamount⟩ := List.append_inj' h (by simp)
  obtain ⟨h, hprice⟩ := List.append_inj' h (by simp)
  obtain ⟨h, hbuy⟩ := suffixFree_addresses.append_inj (hx.form _ o.buyAsset.2)
    (hx.form _ o'.buyAsset.2) h
  obtain ⟨hsecret, hsell⟩ := suffixFree_addresses.append_inj (hx.form _ o.sellAsset.2)
    (hx.form _ o'.sellAsset.2) h
  obtain ⟨secret, sell, buy, price, amount, side⟩ := o
  obtain ⟨secret', sell', buy', price', amount', side'⟩ := o'
  obtain rfl : secret = secret' := hsecret
  obtain rfl : sell = sell' := Subtype.ext (hx.inj sell.2 sell'.2 hsell)
  obtain rfl : buy = buy' := Subtype.ext (hx.inj buy.2 buy'.2 hbuy)
  obtain rfl : price = price' := i128_value_inj hprice
  obtain rfl : amount = amount' := i128_value_inj hamount
  obtain rfl : side = side' := side_inj hside
  rfl

/-! ## Reveals -/

/-- A call on the desk together with the environment it runs in. -/
abbrev DeskStep (here : Address) := Env here × CommitCall

def deskStep (codec : Codec) {here : Address} (i : DeskStep here) (d : Desk) : Except Fault Desk :=
  i.2.exec codec i.1 d

section Reveals

variable {here : Address} {env : Env here} {d d' : Desk} {call : CommitCall} {id : ℕ}
  {c : Commitment}

/-- An accepted reveal reproduces the stored hash. -/
theorem Opening.reveal_hash {trader : Address} {o : Opening inUse} {r : RevealResult}
    (hfound : d.commitments.lookup id = some c)
    (h : o.reveal codec env id trader d = .ok (r, d')) :
    codec.sha256 (o.bytes codec) = c.commitmentHash := by
  simp only [Opening.reveal, revealOrder, Desk.loadCommitment, bind_eq_ok, failIf_eq_ok,
    okOr_eq_ok, not_not] at h
  obtain ⟨c', hfound', _, _, _, _, _, _, _, _, _, _, _, _, _, hhash, _⟩ := h
  obtain rfl := Option.some.inj (hfound.symm.trans hfound')
  exact hhash

/-- A forfeit changes the state of the stored commitment, whether or not there is a treasury. -/
theorem forfeitOrder_stored (hd : d.Filed) {r : ℕ}
    (h : forfeitOrder env id d = .ok (r, d')) :
    ∃ c, d.commitments.lookup id = some c ∧ d'.nonce = d.nonce ∧
      d'.commitments = d.commitments.insert id { c with state := .forfeited } := by
  simp only [forfeitOrder, Desk.loadCommitment, bind_eq_ok, okOr_eq_ok, failIf_eq_ok,
    pure_eq_ok, Prod.mk.injEq] at h
  obtain ⟨c, hfound, _, _, _, _, d₁, hbond, _, rfl⟩ := h
  obtain ⟨tokens, rfl⟩ := seizeBond_eq_ok hbond
  refine ⟨c, hfound, ?_, ?_⟩
  · rw [decrementCounter_nonce]
    rfl
  · rw [decrementCounter_commitments, Desk.saveCommitment, ← hd.keyed _ _ hfound]

/-- An accepted call locks a new commitment or changes the state of a stored one. -/
theorem exec_commitments (hd : d.Filed) (h : call.exec codec env d = .ok d') :
    d'.Filed ∧
      ((∃ c, d'.commitments = d.commitments.insert (d.nonce + 1) c) ∨
        ∃ id c state, d.commitments.lookup id = some c ∧
          d'.commitments = d.commitments.insert id { c with state }) := by
  cases call with
  | commitOrder trader commitmentHash collateralAsset collateralAmount expirationSequence =>
    obtain ⟨r, h⟩ := snd_map_eq_ok.mp h
    have hmove : BondMove env here d d' _ := commitOrder_move h
    refine ⟨hmove.filed hd, .inl ?_⟩
    cases hmove with
    | lock pos room tokens_eq nonce_eq stored counted => exact ⟨_, stored⟩
  | revealOrder commitmentId trader secret pair priceTick amount isBuy =>
    obtain ⟨r, h⟩ := snd_map_eq_ok.mp h
    have hmove : BondMove env here d d' _ := revealOrder_move hd h
    refine ⟨hmove.filed hd, .inr ?_⟩
    cases hmove with
    | giveBack found active later timely placed tokens_eq nonce_eq stored counted =>
      exact ⟨_, _, _, found, stored⟩
  | forfeitOrder commitmentId =>
    obtain ⟨r, h⟩ := snd_map_eq_ok.mp h
    obtain ⟨c, hfound, hnonce, hstored⟩ := forfeitOrder_stored hd h
    exact ⟨hd.close hfound hnonce hstored, .inr ⟨_, _, _, hfound, hstored⟩⟩

/-- The hash of a stored commitment stays what it was. -/
theorem exec_hash (hd : d.Filed) (hfound : d.commitments.lookup id = some c)
    (h : call.exec codec env d = .ok d') :
    ∃ c', d'.commitments.lookup id = some c' ∧ c'.commitmentHash = c.commitmentHash := by
  obtain ⟨_, ⟨c₀, hstored⟩ | ⟨id₀, c₀, state, hfound₀, hstored⟩⟩ := exec_commitments hd h
  · have hne : id ≠ d.nonce + 1 := by
      rintro rfl
      cases hd.next_unused.symm.trans hfound
    exact ⟨c, by rw [hstored, Store.lookup_insert_ite, if_neg hne, hfound], rfl⟩
  · by_cases hid : id = id₀
    · subst hid
      obtain rfl := Option.some.inj (hfound.symm.trans hfound₀)
      exact ⟨{ c with state }, by rw [hstored, Finmap.lookup_insert], rfl⟩
    · exact ⟨c, by rw [hstored, Store.lookup_insert_ite, if_neg hid, hfound], rfl⟩

theorem runAll_filed (tokens : Tokens) (run : List (DeskStep here)) :
    (runAll (deskStep codec) (.empty tokens) run).Filed :=
  runAll_induction (fun _ _ _ hd h => (exec_commitments hd h).1)
    ⟨fun _ _ hc => by simp [Desk.empty] at hc, fun _ _ => rfl,
      fun _ _ hc => by simp [Desk.empty] at hc⟩ run

theorem runAll_hash (hd : d.Filed) (hfound : d.commitments.lookup id = some c)
    (run : List (DeskStep here)) :
    ∃ c', (runAll (deskStep codec) d run).commitments.lookup id = some c' ∧
      c'.commitmentHash = c.commitmentHash := by
  have hinv : ∀ (d : Desk) (i : DeskStep here) (d' : Desk),
      (d.Filed ∧ ∃ c', d.commitments.lookup id = some c' ∧
        c'.commitmentHash = c.commitmentHash) →
      deskStep codec i d = .ok d' →
      (d'.Filed ∧ ∃ c', d'.commitments.lookup id = some c' ∧
        c'.commitmentHash = c.commitmentHash) := by
    rintro d i d' ⟨hd, c', hfound', hhash⟩ hstep
    obtain ⟨c'', hfound'', hhash'⟩ := exec_hash hd hfound' hstep
    exact ⟨(exec_commitments hd hstep).1, c'', hfound'', hhash'.trans hhash⟩
  exact (runAll_induction hinv ⟨hd, c, hfound, rfl⟩ run).2

end Reveals

/-- The bytes determine the opening. So, where the hash function has no collision between two
openings, a commitment that a run has stored is not revealed with one of them in one
continuation of the run and with the other one in another. -/
theorem commitment_binding (hx : codec.EncodesAddresses inUse) (o o' : Opening inUse) :
    (o.bytes codec = o'.bytes codec → o = o') ∧
    ∀ {here : Address} (tokens : Tokens) (run next next' : List (DeskStep here)) (id : ℕ)
      (c : Commitment),
      (runAll (deskStep codec) (.empty tokens) run).commitments.lookup id = some c →
      Set.InjOn codec.sha256 {o.bytes codec, o'.bytes codec} →
      ∀ (env env' : Env here) (trader trader' : Address) (r r' : RevealResult) (d d' : Desk),
        o.reveal codec env id trader
          (runAll (deskStep codec) (.empty tokens) (run ++ next)) = .ok (r, d) →
        o'.reveal codec env' id trader'
          (runAll (deskStep codec) (.empty tokens) (run ++ next')) = .ok (r', d') →
        o = o' := by
  refine ⟨Opening.bytes_injective hx, ?_⟩
  intro here tokens run next next' id c hfound hsha env env' trader trader' r r' d d' hr hr'
  have hfiled : (runAll (deskStep codec) (.empty tokens) run).Filed := runAll_filed tokens run
  rw [runAll_append] at hr hr'
  obtain ⟨c₁, hfound₁, hhash₁⟩ := runAll_hash hfiled hfound next
  obtain ⟨c₂, hfound₂, hhash₂⟩ := runAll_hash hfiled hfound next'
  have heq : codec.sha256 (o.bytes codec) = codec.sha256 (o'.bytes codec) := by
    rw [Opening.reveal_hash hfound₁ hr, Opening.reveal_hash hfound₂ hr', hhash₁, hhash₂]
  exact Opening.bytes_injective hx (hsha (by simp) (by simp) heq)

/-! ## A sample -/

/-- Small numbers are accounts. -/
def sampleXdr (a : Address) : Bytes :=
  (if a.raw < 100 then accountHeader else contractHeader) ++ toBeBytes 32 a.raw

/-- The digest of a string is its end. -/
def sampleCodec : Codec where
  xdr := sampleXdr
  sha256 bytes := Vector.ofFn fun i => bytes.getD (bytes.length - 32 + i) 0

def sampleInUse : Set Address := {a | a.raw < 256 ^ 32}

theorem sampleXdr_mem (a : Address) : sampleXdr a ∈ accountCode ∪ contractCode := by
  have hkey : (⟨(toBeBytes 32 a.raw).toArray, by simp⟩ : Digest).toList = toBeBytes 32 a.raw := by
    simp
  rw [sampleXdr]
  split_ifs
  · exact .inl ⟨_, by rw [hkey]⟩
  · exact .inr ⟨_, by rw [hkey]⟩

theorem sampleCodec_encodes : sampleCodec.EncodesAddresses sampleInUse where
  form a _ := sampleXdr_mem a
  inj a ha b hb h := by
    obtain ⟨_, hkey⟩ := List.append_inj' (show sampleXdr a = sampleXdr b from h) (by simp)
    have hmod := toBeBytes_inj hkey
    norm_cast at hmod
    rw [Nat.mod_eq_of_lt ha, Nat.mod_eq_of_lt hb] at hmod
    exact congrArg Address.mk hmod

/-- Sell an amount of 50 of asset 5 for asset 105 at the given price. -/
def sampleOpening (priceTick : ℕ) : Opening sampleInUse where
  secret := [7, 7, 7]
  sellAsset := ⟨⟨5⟩, by norm_num [sampleInUse]⟩
  buyAsset := ⟨⟨105⟩, by norm_num [sampleInUse]⟩
  priceTick := units priceTick
  amount := units 50
  isBuy := false

/-- Trader 1 commits to the price 100. -/
def sampleRun : List (DeskStep ⟨0⟩) :=
  [(Env.standard ⟨0⟩ 1 none, .commitOrder ⟨1⟩
    (sampleCodec.sha256 ((sampleOpening 100).bytes sampleCodec)) ⟨5⟩ 10 100)]

/-- The desk after that and some other calls. -/
def sampleDesk (next : List (DeskStep ⟨0⟩)) : Desk :=
  runAll (deskStep sampleCodec) (.empty fun _ _ => 1000) (sampleRun ++ next)

theorem sampleReveal_isSome :
    ((sampleOpening 100).reveal sampleCodec (Env.standard ⟨0⟩ 2 none) 1 ⟨1⟩
      (sampleDesk [])).toOption.isSome = true := by
  decide +kernel

theorem sampleDesk_stored :
    ∃ c, (runAll (deskStep sampleCodec) (.empty fun _ _ => 1000) sampleRun).commitments.lookup 1 =
      some c :=
  Option.isSome_iff_exists.mp (by decide +kernel)

/-- The price 100 can be revealed, and no continuation of the run reveals the price 200. -/
theorem commitment_binding_sample :
    (∃ r d, (sampleOpening 100).reveal sampleCodec (Env.standard ⟨0⟩ 2 none) 1 ⟨1⟩
      (sampleDesk []) = .ok (r, d)) ∧
    (sampleOpening 100).bytes sampleCodec ≠ (sampleOpening 200).bytes sampleCodec ∧
    ∀ next (env : Env ⟨0⟩) trader r d,
      (sampleOpening 200).reveal sampleCodec env 1 trader (sampleDesk next) ≠ .ok (r, d) := by
  have hne : sampleOpening 100 ≠ sampleOpening 200 := fun h =>
    absurd (congrArg (fun o => o.priceTick.1) h) (by decide)
  have hbinding := commitment_binding sampleCodec_encodes (sampleOpening 100) (sampleOpening 200)
  have hsha : Set.InjOn sampleCodec.sha256
      {(sampleOpening 100).bytes sampleCodec, (sampleOpening 200).bytes sampleCodec} :=
    Set.injOn_pair.mpr fun h => absurd h (by decide +kernel)
  have hreveal := sampleReveal_isSome
  obtain ⟨c, hfound⟩ := sampleDesk_stored
  cases hok : (sampleOpening 100).reveal sampleCodec (Env.standard ⟨0⟩ 2 none) 1 ⟨1⟩
      (sampleDesk []) with
  | error e =>
    rw [hok] at hreveal
    cases hreveal
  | ok y =>
    obtain ⟨r, d⟩ := y
    refine ⟨⟨r, d, rfl⟩, fun h => hne (hbinding.1 h), fun next env trader r' d' hr' => ?_⟩
    exact hne (hbinding.2 _ sampleRun [] next 1 c hfound hsha _ env ⟨1⟩ trader r r' d d' hok hr')

end StellarFlow.Orders
