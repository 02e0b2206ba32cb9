import StellarFlow.Escrow.SplitOrder

/-!
# The books of split remittances

An accepted call writes one order. Creating and refunding an order keep its books right, and so
does settling the only leg of an anchor.
-/
namespace StellarFlow.SplitRemittance

open Foundation

/-! ## Sums over legs and payments -/

section Sums

variable {M : Type} [AddCommMonoid M] (status : LegStatus) (f : Address → ℤ → M)
  (anchor : Address)

@[simp] theorem legSum_nil : legSum status f [] = 0 := rfl

theorem legSum_cons (leg : DestinationLeg) (legs : List DestinationLeg) :
    legSum status f (leg :: legs) =
      (if leg.status = status then f leg.anchor leg.amount else 0) + legSum status f legs := by
  by_cases h : leg.status = status <;> simp [legSum, h]

theorem legSum_eq_zero {legs : List DestinationLeg} (h : ∀ leg ∈ legs, leg.status ≠ status) :
    legSum status f legs = 0 := by
  rw [legSum, List.filter_eq_nil_iff.mpr (by simpa using h)]
  rfl

theorem legSum_pending_pos {legs : List DestinationLeg} (hpos : ∀ leg ∈ legs, 0 < leg.amount)
    (h : ∃ leg ∈ legs, leg.status = .pending) : 0 < legSum .pending amountOnly legs := by
  obtain ⟨leg, hmem, hpending⟩ := h
  refine List.sum_pos _ ?_ ?_
  · intro x hx
    obtain ⟨leg, hleg, rfl⟩ := List.mem_map.mp hx
    exact hpos leg (List.mem_filter.mp hleg).1
  · simpa using ⟨leg, hmem, hpending⟩

/-- The legs of an anchor. -/
def legsOf (anchor : Address) (legs : List DestinationLeg) : List DestinationLeg :=
  legs.filter (·.anchor = anchor)

theorem legsOf_cons (leg : DestinationLeg) (legs : List DestinationLeg) :
    legsOf anchor (leg :: legs) =
      if leg.anchor = anchor then leg :: legsOf anchor legs else legsOf anchor legs := by
  by_cases h : leg.anchor = anchor <;> simp [legsOf, h]

def markSettled (anchor : Address) (leg : DestinationLeg) : DestinationLeg :=
  if leg.anchor = anchor then { leg with status := .settled } else leg

/-- The loop marks all legs of the anchor and keeps the amount of the last one. -/
theorem settleLegs_eq_ok {legs legs' : List DestinationLeg} {release release' : Option ℤ}
    (h : settleLegs anchor legs release = .ok (release', legs')) :
    (∀ leg ∈ legs, leg.anchor = anchor → leg.status = .pending) ∧
      release' = ((legsOf anchor legs).getLast?.map (·.amount)).or release ∧
      legs' = legs.map (markSettled anchor) := by
  induction legs generalizing release legs' with
  | nil =>
    obtain ⟨rfl, rfl⟩ := Prod.mk.inj (pure_eq_ok.mp h)
    simp [legsOf]
  | cons leg rest ih =>
    rw [settleLegs] at h
    rw [legsOf_cons, List.map_cons, markSettled]
    split_ifs at h ⊢ with ha
    · obtain ⟨_, hpending, h⟩ := bind_eq_ok.mp h
      obtain ⟨⟨r, legs₁⟩, hrest, h⟩ := bind_eq_ok.mp h
      obtain ⟨rfl, rfl⟩ := Prod.mk.inj (pure_eq_ok.mp h)
      obtain ⟨hall, rfl, rfl⟩ := ih hrest
      refine ⟨?_, ?_, rfl⟩
      · rw [failIf_eq_ok, not_not] at hpending
        simpa [hpending] using hall
      · cases hl : legsOf anchor rest with
        | nil => simp
        | cons first later => simp [List.getLast?_cons]
    · obtain ⟨⟨r, legs₁⟩, hrest, h⟩ := bind_eq_ok.mp h
      obtain ⟨rfl, rfl⟩ := Prod.mk.inj (pure_eq_ok.mp h)
      obtain ⟨hall, rfl, rfl⟩ := ih hrest
      exact ⟨by simpa [ha] using hall, rfl, rfl⟩

/-- Settling moves the legs of the anchor from the pending to the settled ones. -/
theorem legSum_markSettled {legs : List DestinationLeg}
    (hp : ∀ leg ∈ legs, leg.anchor = anchor → leg.status = .pending) :
    legSum .settled f (legs.map (markSettled anchor)) = legSum .settled f legs +
        ((legsOf anchor legs).map fun leg => f leg.anchor leg.amount).sum ∧
      legSum .pending f (legs.map (markSettled anchor)) +
        ((legsOf anchor legs).map fun leg => f leg.anchor leg.amount).sum =
          legSum .pending f legs := by
  induction legs with
  | nil => simp [legsOf]
  | cons leg rest ih =>
    obtain ⟨hsettled, hpending⟩ := ih fun leg hmem => hp leg (List.mem_cons_of_mem _ hmem)
    rw [List.map_cons, legSum_cons, legSum_cons, legSum_cons, legSum_cons, legsOf_cons,
      markSettled, hsettled, ← hpending]
    by_cases ha : leg.anchor = anchor
    · have hleg := hp leg List.mem_cons_self ha
      simp only [if_pos ha, hleg, List.map_cons, List.sum_cons, if_true, reduceCtorEq, if_false,
        zero_add]
      constructor <;> abel
    · simp only [if_neg ha]
      constructor <;> abel

theorem legSum_refundLeg (legs : List DestinationLeg) :
    legSum .pending f (legs.map refundLeg) = 0 ∧
      legSum .settled f (legs.map refundLeg) = legSum .settled f legs ∧
      legSum .refunded f (legs.map refundLeg) =
        legSum .refunded f legs + legSum .pending f legs := by
  induction legs with
  | nil => simp
  | cons leg rest ih =>
    obtain ⟨hpending, hsettled, hrefunded⟩ := ih
    obtain ⟨anchor, bps, amount, status⟩ := leg
    simp only [List.map_cons, legSum_cons, hpending, hsettled, hrefunded, refundLeg]
    cases status <;> simp [add_comm, add_left_comm, add_assoc]

theorem paidSum_cons (p : Payment) (payments : List Payment) (id : ℕ) :
    paidSum (p :: payments) id f =
      (if p.orderId = id then f p.receiver p.amount else 0) + paidSum payments id f := by
  by_cases h : p.orderId = id <;> simp [paidSum, h]

theorem paidSum_eq_zero {payments : List Payment} {id : ℕ} (h : ∀ p ∈ payments, p.orderId < id) :
    paidSum payments id f = 0 := by
  rw [paidSum, List.filter_eq_nil_iff.mpr (by simpa using fun p hp => (h p hp).ne)]
  rfl

/-- Positive amounts add up to the last one only if there is no other. -/
theorem sum_eq_last_iff {xs : List ℤ} (hpos : ∀ x ∈ xs, 0 < x) {last : ℤ}
    (hlast : xs.getLast? = some last) : xs.sum = last ↔ xs.length = 1 := by
  obtain ⟨init, rfl⟩ := List.getLast?_eq_some_iff.mp hlast
  rw [List.sum_append, List.sum_singleton, List.length_append, List.length_singleton]
  cases init with
  | nil => simp
  | cons x rest =>
    have hsum : 0 < (x :: rest).sum := List.sum_pos _
      (fun y hy => hpos y (List.mem_append_left _ hy)) (by simp)
    simp only [List.length_cons]
    omega

end Sums

/-! ## The legs of a new order -/

theorem allot_eq_ok {total allocated amount allocated' : ℤ} {bps : ℕ} {last : Bool}
    (h : allot total bps last allocated = .ok (amount, allocated')) :
    if last then amount = total - allocated else allocated' = allocated + amount := by
  cases last with
  | true =>
    simp only [allot, if_true, bind_eq_ok, checked_eq_ok, pure_eq_ok, Prod.mk.injEq] at h
    obtain ⟨_, ⟨_, rfl⟩, rfl, _⟩ := h
    rfl
  | false =>
    simp only [allot, Bool.false_eq_true, if_false, bind_eq_ok, checked_eq_ok, pure_eq_ok,
      Prod.mk.injEq] at h
    obtain ⟨_, _, _, ⟨_, rfl⟩, rfl, rfl⟩ := h
    rfl

theorem buildLegsFrom_eq_ok {total : ℤ} {destinations : List (Address × ℕ)} {sumBps sumBps' : ℕ}
    {allocated : ℤ} {legs : List DestinationLeg}
    (h : buildLegsFrom total destinations sumBps allocated = .ok (sumBps', legs)) :
    (∀ leg ∈ legs, 0 < leg.amount ∧ leg.status = .pending) ∧
      (destinations ≠ [] → legs ≠ [] ∧ legSum .pending amountOnly legs = total - allocated) := by
  induction destinations generalizing sumBps allocated sumBps' legs with
  | nil =>
    obtain ⟨_, rfl⟩ := Prod.mk.inj (pure_eq_ok.mp h)
    simp
  | cons destination rest ih =>
    simp only [buildLegsFrom, bind_eq_ok, failIf_eq_ok, pure_eq_ok, Prod.mk.injEq, not_le] at h
    obtain ⟨_, _, _, _, ⟨amount, allocated'⟩, hallot, _, hpos, ⟨_, legs₁⟩, hrest, _, rfl⟩ := h
    obtain ⟨hall, hsum⟩ := ih hrest
    have hamount := allot_eq_ok hallot
    refine ⟨?_, fun _ => ⟨by simp, ?_⟩⟩
    · intro leg hmem
      rcases List.mem_cons.mp hmem with rfl | hmem
      · exact ⟨hpos, rfl⟩
      · exact hall leg hmem
    · rw [legSum_cons, if_pos rfl]
      cases rest with
      | nil =>
        obtain ⟨_, rfl⟩ := Prod.mk.inj (pure_eq_ok.mp hrest)
        simpa [amountOnly] using hamount
      | cons next rest =>
        have hnext := (hsum (by simp)).2
        simp only [List.isEmpty_cons, Bool.false_eq_true, if_false] at hamount
        rw [hnext, hamount, amountOnly]
        ring

/-- The amounts of the legs are positive and add up to the total. -/
theorem buildLegs_eq_ok {total : ℤ} {destinations : List (Address × ℕ)}
    {legs : List DestinationLeg} (h : buildLegs total destinations = .ok legs) :
    (∀ leg ∈ legs, 0 < leg.amount ∧ leg.status = .pending) ∧ legs ≠ [] ∧
      legSum .pending amountOnly legs = total := by
  simp only [buildLegs, bind_eq_ok, failIf_eq_ok, pure_eq_ok, List.isEmpty_iff] at h
  obtain ⟨_, hne, ⟨_, legs₁⟩, hbuild, _, _, rfl⟩ := h
  obtain ⟨hall, hsum⟩ := buildLegsFrom_eq_ok hbuild
  obtain ⟨hlegs, heq⟩ := hsum hne
  exact ⟨hall, hlegs, by rw [heq, sub_zero]⟩

/-! ## What an accepted call does -/

section Specs

variable {here : Address} {env : Env here} {s s' : SplitEscrow}

theorem createSplitOrder_eq_ok {sender : Address} {total : i128.Value}
    {destinations : List (Address × ℕ)} {id : ℕ}
    (h : createSplitOrder env sender total destinations s = .ok (id, s')) :
    ∃ token legs deadline, s.initialized = true ∧ env.auth sender = true ∧ 0 < total.1 ∧
      buildLegs total.1 destinations = .ok legs ∧ s.token = some token ∧ id = s.nextOrderId ∧
      s' = { s with
        nextOrderId := id + 1
        tokens := s.tokens.move token sender here total.1
        orders := s.orders.insert id
          ⟨id, sender, total.1, env.timestamp, deadline, .open, legs⟩
        partialReleased := s.partialReleased.insert id 0
        remainingLocked := s.remainingLocked.insert id total.1 } := by
  simp only [createSplitOrder, SplitEscrow.requireInitialized, SplitEscrow.getToken, bind_eq_ok,
    failIf_eq_ok, okOr_eq_ok, checkBits_eq_some, hostCall_eq_ok, Env.requireAuth_eq_ok,
    Env.transfer_eq_ok, pure_eq_ok, Prod.mk.injEq, not_le, Bool.not_eq_false] at h
  obtain ⟨_, hinit, _, hauth, _, hpos, legs, hlegs, deadline, _, token, htoken, _, ⟨_, rfl⟩, _,
    ⟨_, rfl⟩, rfl, rfl⟩ := h
  exact ⟨token, legs, deadline, hinit, hauth, hpos, hlegs, htoken, rfl, rfl⟩

theorem settleLeg_eq_ok {anchor : Address} {id : ℕ} {amount : ℤ}
    (h : settleLeg env anchor id s = .ok (amount, s')) :
    ∃ order token, s.initialized = true ∧ env.auth anchor = true ∧
      s.orders.lookup id = some order ∧ order.status = .open ∧
      (∀ leg ∈ order.legs, leg.anchor = anchor → leg.status = .pending) ∧
      (legsOf anchor order.legs).getLast?.map (·.amount) = some amount ∧ s.token = some token ∧
      s' = { s with
        tokens := s.tokens.move token here anchor amount
        orders := s.orders.insert id { order with
          legs := order.legs.map (markSettled anchor)
          status := if (order.legs.map (markSettled anchor)).all (·.status = .settled) then
            .completed else order.status }
        partialReleased := s.partialReleased.insert id (s.getPartialReleased id + amount)
        remainingLocked := s.remainingLocked.insert id (s.getRemainingLocked id - amount) } := by
  simp only [settleLeg, SplitEscrow.requireInitialized, SplitEscrow.getToken,
    SplitEscrow.getOrder, bind_eq_ok, failIf_eq_ok, okOr_eq_ok, hostCall_eq_ok,
    Env.requireAuth_eq_ok, Env.transfer_eq_ok, checked_eq_ok, pure_eq_ok, Prod.mk.injEq, not_not,
    Bool.not_eq_false] at h
  obtain ⟨_, hinit, _, hauth, order, horder, _, hopen, ⟨found, legs⟩, hsettle, _, hfound, token,
    htoken, _, ⟨_, rfl⟩, _, ⟨_, rfl⟩, _, ⟨_, rfl⟩, rfl, rfl⟩ := h
  obtain ⟨hpending, hlast, rfl⟩ := settleLegs_eq_ok anchor hsettle
  rw [Option.or_none] at hlast
  exact ⟨order, token, hinit, hauth, horder, hopen, hpending, hlast ▸ hfound, htoken, rfl⟩

theorem refundUnsettled_eq_ok {sender : Address} {id : ℕ} {amount : ℤ}
    (h : refundUnsettled env sender id s = .ok (amount, s')) :
    ∃ order token, s.initialized = true ∧ env.auth sender = true ∧
      s.orders.lookup id = some order ∧ order.sender = sender ∧ order.status = .open ∧
      amount = s.getRemainingLocked id ∧ s.token = some token ∧
      s' = { s with
        tokens := s.tokens.move token here sender amount
        orders := s.orders.insert id
          { order with legs := order.legs.map refundLeg, status := .refunded }
        partialReleased := s.partialReleased.insert id (s.getPartialReleased id)
        remainingLocked := s.remainingLocked.insert id 0 } := by
  simp only [refundUnsettled, SplitEscrow.requireInitialized, SplitEscrow.getToken,
    SplitEscrow.getOrder, bind_eq_ok, failIf_eq_ok, okOr_eq_ok, hostCall_eq_ok,
    Env.requireAuth_eq_ok, Env.transfer_eq_ok, pure_eq_ok, Prod.mk.injEq, not_not,
    Bool.not_eq_false] at h
  obtain ⟨_, hinit, _, hauth, order, horder, _, hsender, _, hopen, _, _, _, _, token, htoken, _,
    ⟨_, rfl⟩, rfl, rfl⟩ := h
  exact ⟨order, token, hinit, hauth, horder, hsender, hopen, rfl, htoken, rfl⟩

end Specs

/-! ## What every run keeps -/

/-- The amounts kept for an order and paid on its account. -/
def accountOf (h : SplitHistory) (id : ℕ) :
    ℤ × ℤ × Multiset (Address × ℤ) × Multiset (Address × ℤ) × ℤ :=
  (h.escrow.getPartialReleased id, h.escrow.getRemainingLocked id, paidSum h.settlements id one,
    paidSum h.refunds id one, paidSum h.refunds id amountOnly)

/-- A call writes one order and leaves the accounts of the others. -/
structure Writes (h h' : SplitHistory) (id : ℕ) (order : SplitOrder) : Prop where
  orders_eq : h'.escrow.orders = h.escrow.orders.insert id order
  account_eq : ∀ k, k ≠ id → accountOf h' k = accountOf h k

theorem Exact.congr {h h' : SplitHistory} {id : ℕ} {order : SplitOrder}
    (he : Exact h id order) (ha : accountOf h' id = accountOf h id) : Exact h' id order := by
  simp only [accountOf, Prod.mk.injEq] at ha
  obtain ⟨hreleased, hremaining, hsettled, hrefunds, hamount⟩ := ha
  exact ⟨by rw [hreleased, hremaining, hamount, he.balanced], hremaining ▸ he.remaining_eq,
    hremaining ▸ he.resolved, hsettled ▸ he.settled_once, hrefunds ▸ he.refunded_once⟩

/-- Only the books of the order that is written can become wrong. -/
theorem allExact_iff_of_writes {h h' : SplitHistory} (id : ℕ) {order : SplitOrder}
    (hw : Writes h h' id order) (ha : AllExact h) : AllExact h' ↔ Exact h' id order := by
  constructor
  · intro hall
    exact hall id order (by rw [hw.orders_eq, Finmap.lookup_insert])
  · intro he k o hlookup
    rw [hw.orders_eq] at hlookup
    rcases Store.lookup_insert_eq_some.mp hlookup with ⟨rfl, rfl⟩ | ⟨hne, hlookup⟩
    · exact he
    · exact (ha k o hlookup).congr (hw.account_eq k hne)

/-- Identifiers from the next one on are unused, legs carry positive amounts, an open order has
a pending leg and no refunded one, and the escrow holds what is locked besides what it held
at the start. -/
structure Sound (here : Address) (start : Tokens) (h : SplitHistory) : Prop where
  unset : h.escrow.initialized = false → h = .fresh start
  unused : ∀ id, h.escrow.nextOrderId ≤ id → h.escrow.orders.lookup id = none ∧
    h.escrow.remainingLocked.lookup id = none
  paid_lt : ∀ p ∈ h.settlements ++ h.refunds, p.orderId < h.escrow.nextOrderId
  locked_nonneg : ∀ id amount, h.escrow.remainingLocked.lookup id = some amount → 0 ≤ amount
  legs_pos : ∀ id order, h.escrow.orders.lookup id = some order → ∀ leg ∈ order.legs,
    0 < leg.amount
  open_legs : ∀ id order, h.escrow.orders.lookup id = some order → order.status = .open →
    (∃ leg ∈ order.legs, leg.status = .pending) ∧ ∀ leg ∈ order.legs, leg.status ≠ .refunded
  held : h.escrow.initialized = true → ∃ token, h.escrow.token = some token ∧
    h.escrow.tokens token here =
      start token here + Store.total (fun _ amount => amount) h.escrow.remainingLocked

theorem Sound.fresh (here : Address) (start : Tokens) : Sound here start (.fresh start) where
  unset _ := rfl
  unused _ _ := ⟨rfl, rfl⟩
  paid_lt := by simp [SplitHistory.fresh]
  locked_nonneg := by simp [SplitHistory.fresh, SplitEscrow.fresh]
  legs_pos := by simp [SplitHistory.fresh, SplitEscrow.fresh]
  open_legs := by simp [SplitHistory.fresh, SplitEscrow.fresh]
  held := by simp [SplitHistory.fresh, SplitEscrow.fresh]

section Lookups

variable (s : SplitEscrow) (id k : ℕ)

theorem getD_insert (m : Store ℕ ℤ) (v : ℤ) :
    ((m.insert id v).lookup k).getD 0 = if k = id then v else (m.lookup k).getD 0 := by
  rw [Store.lookup_insert_ite]
  split_ifs <;> rfl

theorem part_remainingLocked :
    Store.part (fun _ amount => amount) s.remainingLocked id = s.getRemainingLocked id := by
  unfold Store.part SplitEscrow.getRemainingLocked
  cases s.remainingLocked.lookup id <;> rfl

end Lookups

section Steps

variable {here : Address} {start : Tokens} {h : SplitHistory} {escrow : SplitEscrow}

theorem createSplitOrder_writes {env : Env here} {sender : Address} {total : i128.Value}
    {destinations : List (Address × ℕ)} {id : ℕ} (hs : Sound here start h)
    (hok : createSplitOrder env sender total destinations h.escrow = .ok (id, escrow)) :
    Sound here start { h with escrow } ∧
      ∃ order, Writes h { h with escrow } id order ∧ Exact { h with escrow } id order := by
  obtain ⟨token, legs, deadline, hinit, hauth, hpos, hlegs, htoken, hid, rfl⟩ :=
    createSplitOrder_eq_ok hok
  obtain ⟨hall, hne, hsum⟩ := buildLegs_eq_ok hlegs
  obtain ⟨_, hlocked⟩ := hs.unused id hid.ge
  have hpaid : ∀ p ∈ h.settlements ++ h.refunds, p.orderId < id := hid ▸ hs.paid_lt
  have hsettlements : ∀ p ∈ h.settlements, p.orderId < id :=
    fun p hp => hpaid p (List.mem_append_left _ hp)
  have hrefunds : ∀ p ∈ h.refunds, p.orderId < id :=
    fun p hp => hpaid p (List.mem_append_right _ hp)
  constructor
  · constructor
    · intro hset
      change h.escrow.initialized = false at hset
      rw [hinit] at hset
      cases hset
    · intro k hk
      have hne : k ≠ id := by dsimp only at hk; omega
      dsimp only
      rw [Finmap.lookup_insert_of_ne _ hne, Finmap.lookup_insert_of_ne _ hne]
      exact hs.unused k (by dsimp only at hk; omega)
    · exact fun p hp => Nat.lt_succ_of_lt (hpaid p hp)
    · intro k amount hk
      rcases Store.lookup_insert_eq_some.mp hk with ⟨_, rfl⟩ | ⟨_, hk⟩
      · exact hpos.le
      · exact hs.locked_nonneg k amount hk
    · intro k order hk
      rcases Store.lookup_insert_eq_some.mp hk with ⟨_, rfl⟩ | ⟨_, hk⟩
      · exact fun leg hleg => (hall leg hleg).1
      · exact hs.legs_pos k order hk
    · intro k order hk hopen
      rcases Store.lookup_insert_eq_some.mp hk with ⟨_, rfl⟩ | ⟨_, hk⟩
      · obtain ⟨leg, hleg⟩ := List.exists_mem_of_ne_nil legs hne
        exact ⟨⟨leg, hleg, (hall leg hleg).2⟩, fun leg hleg => by rw [(hall leg hleg).2]; simp⟩
      · exact hs.open_legs k order hk hopen
    · intro _
      obtain ⟨token', htoken', hheld⟩ := hs.held hinit
      obtain rfl : token = token' := Option.some.inj (htoken.symm.trans htoken')
      refine ⟨token, htoken, ?_⟩
      dsimp only
      rw [Tokens.move_apply_dst _ _ _ (Env.ne_here_of_auth hauth).symm, if_pos rfl, hheld,
        Store.total_insert_of_none _ _ hlocked]
      ring
  · refine ⟨_, ⟨rfl, fun k hk => ?_⟩, ?_⟩
    · simp only [accountOf, SplitEscrow.getPartialReleased, SplitEscrow.getRemainingLocked,
        getD_insert, if_neg hk]
    · refine ⟨?_, ?_, by simp, ?_, ?_⟩
      · simp only [SplitEscrow.getPartialReleased, SplitEscrow.getRemainingLocked, getD_insert,
          if_true, paidSum_eq_zero _ hrefunds]
        ring
      · simp only [SplitEscrow.getRemainingLocked, getD_insert, if_true, hsum]
      · rw [paidSum_eq_zero _ hsettlements,
          legSum_eq_zero _ _ fun leg hleg => by rw [(hall leg hleg).2]; simp]
      · rw [paidSum_eq_zero _ hrefunds]
        rfl

/-- What the legs of the settling anchor have to do with the amount released. -/
theorem released_le {anchor : Address} {id : ℕ} {order : SplitOrder} {amount : ℤ}
    (hpos : ∀ leg ∈ order.legs, 0 < leg.amount)
    (hpending : ∀ leg ∈ order.legs, leg.anchor = anchor → leg.status = .pending)
    (hlast : (legsOf anchor order.legs).getLast?.map (·.amount) = some amount)
    (he : Exact h id order) :
    amount ≤ h.escrow.getRemainingLocked id ∧
      (h.escrow.getRemainingLocked id - amount =
          legSum .pending amountOnly (order.legs.map (markSettled anchor)) ↔
        (legsOf anchor order.legs).length = 1) := by
  have hmine : ∀ x ∈ (legsOf anchor order.legs).map (·.amount), 0 < x := by
    intro x hx
    obtain ⟨leg, hleg, rfl⟩ := List.mem_map.mp hx
    exact hpos leg (List.mem_filter.mp hleg).1
  rw [← List.getLast?_map] at hlast
  have hsplit := (legSum_markSettled amountOnly anchor hpending).2
  have hsum : ((legsOf anchor order.legs).map fun leg => amountOnly leg.anchor leg.amount).sum =
      ((legsOf anchor order.legs).map (·.amount)).sum := rfl
  have hiff := sum_eq_last_iff hmine hlast
  have hle : amount ≤ ((legsOf anchor order.legs).map (·.amount)).sum :=
    List.single_le_sum (fun x hx => (hmine x hx).le) amount (List.mem_of_getLast? hlast)
  have hrest : 0 ≤ legSum .pending amountOnly (order.legs.map (markSettled anchor)) := by
    refine List.sum_nonneg fun x hx => ?_
    obtain ⟨leg', hleg', rfl⟩ := List.mem_map.mp hx
    obtain ⟨leg, hleg, rfl⟩ := List.mem_map.mp (List.mem_filter.mp hleg').1
    have hamount : (markSettled anchor leg).amount = leg.amount := by
      unfold markSettled
      split_ifs <;> rfl
    exact hamount ▸ (hpos leg hleg).le
  rw [List.length_map] at hiff
  rw [he.remaining_eq, ← hsplit, hsum, ← hiff]
  constructor
  · omega
  · constructor <;> intro <;> omega

/-- Paying some of what is locked for an order and rewriting the order. -/
theorem Sound.pay {id : ℕ} {order order' : SplitOrder} {token dst : Address} {amount : ℤ}
    {partialReleased : Store ℕ ℤ} {settlements refunds : List Payment}
    (hs : Sound here start h) (hinit : h.escrow.initialized = true)
    (htoken : h.escrow.token = some token) (horder : h.escrow.orders.lookup id = some order)
    (hdst : dst ≠ here) (hle : amount ≤ h.escrow.getRemainingLocked id)
    (hpaid : ∀ p ∈ settlements ++ refunds, p ∈ h.settlements ++ h.refunds ∨ p.orderId = id)
    (hpos : ∀ leg ∈ order'.legs, 0 < leg.amount)
    (hopen : order'.status = .open → (∃ leg ∈ order'.legs, leg.status = .pending) ∧
      ∀ leg ∈ order'.legs, leg.status ≠ .refunded) :
    Sound here start ⟨{ h.escrow with
      tokens := h.escrow.tokens.move token here dst amount
      orders := h.escrow.orders.insert id order'
      partialReleased
      remainingLocked := h.escrow.remainingLocked.insert id
        (h.escrow.getRemainingLocked id - amount) }, settlements, refunds⟩ := by
  have hid : id < h.escrow.nextOrderId := by
    by_contra hge
    rw [(hs.unused id (not_lt.mp hge)).1] at horder
    cases horder
  constructor
  · intro hset
    change h.escrow.initialized = false at hset
    rw [hinit] at hset
    cases hset
  · intro k hk
    have hne : k ≠ id := by dsimp only at hk; omega
    dsimp only
    rw [Finmap.lookup_insert_of_ne _ hne, Finmap.lookup_insert_of_ne _ hne]
    exact hs.unused k hk
  · intro p hp
    rcases hpaid p hp with hp | rfl
    · exact hs.paid_lt p hp
    · exact hid
  · intro k locked hk
    rcases Store.lookup_insert_eq_some.mp hk with ⟨_, rfl⟩ | ⟨_, hk⟩
    · omega
    · exact hs.locked_nonneg k locked hk
  · intro k o hk
    rcases Store.lookup_insert_eq_some.mp hk with ⟨_, rfl⟩ | ⟨_, hk⟩
    · exact hpos
    · exact hs.legs_pos k o hk
  · intro k o hk
    rcases Store.lookup_insert_eq_some.mp hk with ⟨_, rfl⟩ | ⟨_, hk⟩
    · exact hopen
    · exact hs.open_legs k o hk
  · intro _
    obtain ⟨token', htoken', hheld⟩ := hs.held hinit
    obtain rfl : token = token' := Option.some.inj (htoken.symm.trans htoken')
    have htotal := Store.total_insert (fun _ (locked : ℤ) => locked) h.escrow.remainingLocked id
      (h.escrow.getRemainingLocked id - amount)
    rw [part_remainingLocked] at htotal
    refine ⟨token, htoken, ?_⟩
    dsimp only
    rw [Tokens.move_apply_src _ _ _ hdst.symm, if_pos rfl, hheld]
    omega

theorem markSettled_amount (anchor : Address) (leg : DestinationLeg) :
    (markSettled anchor leg).amount = leg.amount := by
  unfold markSettled
  split_ifs <;> rfl

/-- An order with a leg that is not settled yet stays open. -/
theorem markSettled_open {anchor : Address} {legs : List DestinationLeg}
    (hnone : ∀ leg ∈ legs, leg.status ≠ .refunded)
    (hleft : ¬ (legs.map (markSettled anchor)).all (·.status = .settled)) :
    (∃ leg ∈ legs.map (markSettled anchor), leg.status = .pending) ∧
      ∀ leg ∈ legs.map (markSettled anchor), leg.status ≠ .refunded := by
  have hkeep : ∀ leg ∈ legs.map (markSettled anchor), leg.status ≠ .refunded := by
    intro leg' hleg'
    obtain ⟨leg, hleg, rfl⟩ := List.mem_map.mp hleg'
    unfold markSettled
    split_ifs
    · simp
    · exact hnone leg hleg
  refine ⟨?_, hkeep⟩
  simp only [List.all_eq_true, not_forall] at hleft
  obtain ⟨leg, hleg, hstatus⟩ := hleft
  refine ⟨leg, hleg, ?_⟩
  have hrefunded := hkeep leg hleg
  cases hst : leg.status with
  | pending => rfl
  | settled => simp [hst] at hstatus
  | refunded => exact absurd hst hrefunded

theorem settleLeg_sound {env : Env here} {anchor : Address} {id : ℕ} {amount : ℤ}
    (hs : Sound here start h) (ha : AllExact h)
    (hok : settleLeg env anchor id h.escrow = .ok (amount, escrow)) :
    Sound here start
      { h with escrow, settlements := ⟨id, anchor, amount⟩ :: h.settlements } := by
  obtain ⟨order, token, hinit, hauth, horder, hopen, hpending, hlast, htoken, rfl⟩ :=
    settleLeg_eq_ok hok
  have hpos := hs.legs_pos id order horder
  refine hs.pay hinit htoken horder (Env.ne_here_of_auth hauth)
    (released_le hpos hpending hlast (ha id order horder)).1 ?_ ?_ ?_
  · intro p hp
    rcases List.mem_cons.mp hp with rfl | hp
    · exact .inr rfl
    · exact .inl hp
  · intro leg' hleg'
    obtain ⟨leg, hleg, rfl⟩ := List.mem_map.mp hleg'
    exact markSettled_amount anchor leg ▸ hpos leg hleg
  · intro hopen'
    refine markSettled_open (hs.open_legs id order horder hopen).2 fun hall => ?_
    dsimp only at hopen'
    rw [if_pos hall] at hopen'
    cases hopen'

/-- Settling keeps the books right exactly when the anchor has a single leg. -/
theorem settleLeg_allExact {env : Env here} {anchor : Address} {id : ℕ} {amount : ℤ}
    (hs : Sound here start h) (ha : AllExact h)
    (hok : settleLeg env anchor id h.escrow = .ok (amount, escrow)) :
    AllExact { h with escrow, settlements := ⟨id, anchor, amount⟩ :: h.settlements } ↔
      ∀ order, h.escrow.orders.lookup id = some order →
        (legsOf anchor order.legs).length = 1 := by
  obtain ⟨order, token, _, _, horder, hopen, hpending, hlast, _, rfl⟩ := settleLeg_eq_ok hok
  have he := ha id order horder
  obtain ⟨_, hiff⟩ := released_le (hs.legs_pos id order horder) hpending hlast he
  rw [allExact_iff_of_writes id ⟨rfl, fun k hk => by
    simp only [accountOf, SplitEscrow.getPartialReleased, SplitEscrow.getRemainingLocked,
      getD_insert, if_neg hk, paidSum_cons, if_neg hk.symm, zero_add]⟩ ha]
  constructor
  · intro hexact o ho
    obtain rfl : order = o := Option.some.inj (horder.symm.trans ho)
    have hrem := hexact.remaining_eq
    simp only [SplitEscrow.getRemainingLocked, getD_insert, if_true] at hrem
    exact hiff.mp hrem
  · intro hone
    have hrem := hiff.mpr (hone order horder)
    obtain ⟨leg, hmine⟩ := List.length_eq_one_iff.mp (hone order horder)
    obtain ⟨hsettled, _⟩ := legSum_markSettled one anchor hpending
    have hanchor : leg.anchor = anchor := by
      have hmem : leg ∈ legsOf anchor order.legs := by rw [hmine]; exact List.mem_cons_self
      simpa using (List.mem_filter.mp hmem).2
    rw [hmine] at hlast hsettled
    obtain rfl : leg.amount = amount := by simpa using hlast
    have hbal := he.balanced
    refine ⟨?_, ?_, ?_, ?_, ?_⟩
    · simp only [SplitEscrow.getPartialReleased, SplitEscrow.getRemainingLocked, getD_insert,
        if_true] at hbal ⊢
      omega
    · simp only [SplitEscrow.getRemainingLocked, getD_insert, if_true]
      exact hrem
    · intro hdone
      have hall : (order.legs.map (markSettled anchor)).all (·.status = .settled) := by
        by_contra hnot
        exact hdone (by dsimp only; rw [if_neg hnot, hopen])
      have hnone : ∀ leg' ∈ order.legs.map (markSettled anchor), leg'.status ≠ .pending := by
        intro leg' hleg'
        have hst := List.all_eq_true.mp hall leg' hleg'
        rw [of_decide_eq_true hst]
        simp
      refine ⟨?_, hnone⟩
      simp only [SplitEscrow.getRemainingLocked, getD_insert, if_true]
      exact hrem.trans (legSum_eq_zero _ _ hnone)
    · rw [paidSum_cons, if_pos rfl, he.settled_once, hsettled]
      simp [hanchor, add_comm]
    · have hrefunds := he.refunded_once
      rw [if_neg (by rw [hopen]; simp)] at hrefunds
      have hstatus : (if (order.legs.map (markSettled anchor)).all (·.status = .settled) then
          OrderStatus.completed else order.status) ≠ .refunded := by
        rw [hopen]
        split_ifs <;> simp
      exact hrefunds.trans (if_neg hstatus).symm

theorem refundLeg_amount (leg : DestinationLeg) : (refundLeg leg).amount = leg.amount := by
  unfold refundLeg
  split_ifs <;> rfl

theorem refundLeg_status (leg : DestinationLeg) : (refundLeg leg).status ≠ .pending := by
  unfold refundLeg
  split_ifs with hp
  · simp
  · exact hp

theorem refundUnsettled_sound {env : Env here} {sender : Address} {id : ℕ} {amount : ℤ}
    (hs : Sound here start h)
    (hok : refundUnsettled env sender id h.escrow = .ok (amount, escrow)) :
    Sound here start { h with escrow, refunds := ⟨id, sender, amount⟩ :: h.refunds } := by
  obtain ⟨order, token, hinit, hauth, horder, _, _, rfl, htoken, rfl⟩ := refundUnsettled_eq_ok hok
  have hzero : h.escrow.getRemainingLocked id - h.escrow.getRemainingLocked id = 0 := sub_self _
  rw [← hzero]
  refine hs.pay hinit htoken horder (Env.ne_here_of_auth hauth) le_rfl ?_ ?_ (by simp)
  · intro p hp
    rcases List.mem_append.mp hp with hp | hp
    · exact .inl (List.mem_append_left _ hp)
    · rcases List.mem_cons.mp hp with rfl | hp
      · exact .inr rfl
      · exact .inl (List.mem_append_right _ hp)
  · intro leg' hleg'
    obtain ⟨leg, hleg, rfl⟩ := List.mem_map.mp hleg'
    exact refundLeg_amount leg ▸ hs.legs_pos id order horder leg hleg

theorem refundUnsettled_allExact {env : Env here} {sender : Address} {id : ℕ} {amount : ℤ}
    (hs : Sound here start h) (ha : AllExact h)
    (hok : refundUnsettled env sender id h.escrow = .ok (amount, escrow)) :
    AllExact { h with escrow, refunds := ⟨id, sender, amount⟩ :: h.refunds } := by
  obtain ⟨order, _, _, _, horder, rfl, hopen, rfl, _, rfl⟩ := refundUnsettled_eq_ok hok
  have he := ha id order horder
  obtain ⟨hpending, hsettled, _⟩ := legSum_refundLeg one order.legs
  obtain ⟨hnone, _, hrefunded⟩ := legSum_refundLeg amountOnly order.legs
  rw [allExact_iff_of_writes id ⟨rfl, fun k hk => by
    simp only [accountOf, SplitEscrow.getPartialReleased, SplitEscrow.getRemainingLocked,
      getD_insert, if_neg hk, paidSum_cons, if_neg hk.symm, zero_add]⟩ ha]
  have hbal := he.balanced
  refine ⟨?_, ?_, ?_, ?_, ?_⟩
  · simp only [SplitEscrow.getPartialReleased, SplitEscrow.getRemainingLocked, getD_insert,
      if_true, paidSum_cons, amountOnly] at hbal ⊢
    omega
  · simp only [SplitEscrow.getRemainingLocked, getD_insert, if_true, hnone]
  · intro _
    refine ⟨by simp only [SplitEscrow.getRemainingLocked, getD_insert, if_true], ?_⟩
    intro leg' hleg'
    obtain ⟨leg, _, rfl⟩ := List.mem_map.mp hleg'
    exact refundLeg_status leg
  · rw [hsettled]
    exact he.settled_once
  · have hrefunds := he.refunded_once
    rw [if_neg (by rw [hopen]; simp)] at hrefunds
    rw [paidSum_cons, if_pos rfl, if_pos rfl, hrefunds, hrefunded, he.remaining_eq,
      legSum_eq_zero .refunded _ (hs.open_legs id order horder hopen).2, zero_add, add_zero]
    rfl

/-- With the books right, the refund after the deadline goes through for all pending amounts. -/
theorem Sound.recoverable (hstart : ∀ token, 0 ≤ start token here) (hs : Sound here start h)
    (ha : AllExact h) : Recoverable here h := by
  intro id order horder hopen env hauth hdeadline hstandard
  have hinit : h.escrow.initialized = true := by
    by_contra hnot
    rw [hs.unset (by simpa using hnot)] at horder
    cases horder
  obtain ⟨token, htoken, hheld⟩ := hs.held hinit
  have hrem := (ha id order horder).remaining_eq
  have hpos := legSum_pending_pos (hs.legs_pos id order horder)
    (hs.open_legs id order horder hopen).1
  have hpart := Store.part_le_total (f := fun _ (locked : ℤ) => locked) hs.locked_nonneg id
  rw [part_remainingLocked, hrem] at hpart
  have hcover : legSum .pending amountOnly order.legs ≤ h.escrow.tokens token here := by
    have := hstart token
    omega
  have haccepts := hstandard h.escrow.tokens token here order.sender _ hpos.le hcover
  have hok : refundUnsettled env order.sender id h.escrow =
      .ok (legSum .pending amountOnly order.legs, { h.escrow with
        tokens := h.escrow.tokens.move token here order.sender
          (legSum .pending amountOnly order.legs)
        orders := h.escrow.orders.insert id
          { order with legs := order.legs.map refundLeg, status := .refunded }
        partialReleased := h.escrow.partialReleased.insert id (h.escrow.getPartialReleased id)
        remainingLocked := h.escrow.remainingLocked.insert id 0 }) := by
    simp only [refundUnsettled, SplitEscrow.requireInitialized, SplitEscrow.getToken,
      SplitEscrow.getOrder, bind_eq_ok, failIf_eq_ok, okOr_eq_ok, hostCall_eq_ok,
      Env.requireAuth_eq_ok, Env.transfer_eq_ok, pure_eq_ok, Prod.mk.injEq, not_not, hrem]
    exact ⟨(), by simp [hinit], (), hauth, order, horder, (), rfl, (), hopen, (),
      not_lt.mpr hdeadline, (), not_le.mpr hpos, token, htoken, _, ⟨haccepts, rfl⟩, trivial, rfl⟩
  refine ⟨token, _, htoken, hok, ?_⟩
  dsimp only
  rw [Tokens.move_apply_dst _ _ _ (Env.ne_here_of_auth hauth), if_pos rfl]

end Steps

/-! ## Runs -/

section Runs

variable {here : Address} {start : Tokens} {h h' : SplitHistory} {i : SplitStep here}

theorem initializeSplit_fresh {admin token : Address} {escrow : SplitEscrow}
    (hs : Sound here start h) (hok : initializeSplit admin token h.escrow = .ok escrow) :
    Sound here start { h with escrow } ∧ AllExact { h with escrow } := by
  obtain ⟨_, hinit, hok⟩ := bind_eq_ok.mp hok
  obtain rfl := pure_eq_ok.mp hok
  rw [failIf_eq_ok, Bool.not_eq_true] at hinit
  obtain rfl := hs.unset hinit
  refine ⟨⟨by simp, fun _ _ => ⟨rfl, rfl⟩, by simp [SplitHistory.fresh], ?_, ?_, ?_,
    fun _ => ⟨token, rfl, (add_zero _).symm⟩⟩, ?_⟩
  · rintro _ _ hk
    cases hk
  · rintro _ _ hk
    cases hk
  · rintro _ _ hk
    cases hk
  · rintro _ _ hk
    cases hk

theorem splitStep_sound (hs : Sound here start h) (ha : AllExact h)
    (hok : splitStep i h = .ok h') : Sound here start h' := by
  obtain ⟨env, call⟩ := i
  cases call with
  | initializeSplit admin token =>
    obtain ⟨escrow, hcall, hok⟩ := bind_eq_ok.mp hok
    obtain rfl := pure_eq_ok.mp hok
    exact (initializeSplit_fresh hs hcall).1
  | createSplitOrder sender total destinations =>
    obtain ⟨⟨_, escrow⟩, hcall, hok⟩ := bind_eq_ok.mp hok
    obtain rfl := pure_eq_ok.mp hok
    exact (createSplitOrder_writes hs hcall).1
  | settleLeg anchor id =>
    obtain ⟨⟨_, escrow⟩, hcall, hok⟩ := bind_eq_ok.mp hok
    obtain rfl := pure_eq_ok.mp hok
    exact settleLeg_sound hs ha hcall
  | refundUnsettled sender id =>
    obtain ⟨⟨_, escrow⟩, hcall, hok⟩ := bind_eq_ok.mp hok
    obtain rfl := pure_eq_ok.mp hok
    exact refundUnsettled_sound hs hcall

theorem splitStep_allExact (hs : Sound here start h) (ha : AllExact h)
    (hok : splitStep i h = .ok h') : AllExact h' ↔ SettlesOneLeg h i := by
  have haccepted : ∃ h', splitStep i h = .ok h' := ⟨h', hok⟩
  obtain ⟨env, call⟩ := i
  cases call with
  | initializeSplit admin token =>
    obtain ⟨escrow, hcall, hok⟩ := bind_eq_ok.mp hok
    obtain rfl := pure_eq_ok.mp hok
    refine iff_of_true (initializeSplit_fresh hs hcall).2 ?_
    intro anchor id he
    cases he
  | createSplitOrder sender total destinations =>
    obtain ⟨⟨id, escrow⟩, hcall, hok⟩ := bind_eq_ok.mp hok
    obtain rfl := pure_eq_ok.mp hok
    obtain ⟨_, order, hwrites, hexact⟩ := createSplitOrder_writes hs hcall
    refine iff_of_true ((allExact_iff_of_writes _ hwrites ha).mpr hexact) ?_
    intro anchor id he
    cases he
  | settleLeg anchor id =>
    obtain ⟨⟨_, escrow⟩, hcall, hok⟩ := bind_eq_ok.mp hok
    obtain rfl := pure_eq_ok.mp hok
    rw [settleLeg_allExact hs ha hcall]
    constructor
    · intro hone _ _ he _
      cases he
      exact hone
    · exact fun hone => hone anchor id rfl haccepted
  | refundUnsettled sender id =>
    obtain ⟨⟨_, escrow⟩, hcall, hok⟩ := bind_eq_ok.mp hok
    obtain rfl := pure_eq_ok.mp hok
    refine iff_of_true (refundUnsettled_allExact hs ha hcall) ?_
    intro anchor id he
    cases he

/-- The books are right in every state of exactly the runs whose settlements are by anchors
with a single leg, and then every open order can be refunded after its deadline. -/
theorem splitOrders_exact_iff (hstart : ∀ token, 0 ≤ start token here)
    (run : List (SplitStep here)) :
    Throughout splitStep (fun h => AllExact h ∧ Recoverable here h) (.fresh start) run ↔
      Along splitStep SettlesOneLeg (.fresh start) run := by
  have hexact : AllExact (.fresh start) := by
    rintro _ _ hk
    cases hk
  refine throughout_and_iff_along (I := Sound here start) (fun h i hs ha => ?_)
    (fun h i hs ha => ?_) (fun h hs ha => hs.recoverable hstart ha) (.fresh here start) hexact run
  · exact commit_induction hs fun _ hok => splitStep_sound hs ha hok
  · refine (commit_iff_of_accepted ha fun h' hok => (splitStep_allExact hs ha hok).trans
      ⟨fun hc _ => hc, fun hc => hc ⟨h', hok⟩⟩).trans ?_
    exact ⟨fun hc anchor id he hok => hc hok anchor id he hok, fun hc _ => hc⟩

end Runs

def splitCall (call : SplitCall) : SplitStep ⟨0⟩ := ⟨.standard _ 0 none, call⟩

/-- An order over 100 has two legs for one anchor and one for another. -/
def repeatedAnchorRun : List (SplitStep ⟨0⟩) :=
  [splitCall (.initializeSplit ⟨1⟩ ⟨9⟩),
    splitCall (.createSplitOrder ⟨2⟩ (units 100) [(⟨3⟩, 5000), (⟨3⟩, 3000), (⟨4⟩, 2000)]),
    splitCall (.settleLeg ⟨3⟩ 0), splitCall (.settleLeg ⟨4⟩ 0)]

/-- All legs count as settled and the order as completed, but half of the amount stays in the
escrow. -/
theorem repeatedAnchorRun_stuck :
    let h := runAll splitStep (.fresh fun _ _ => 1000) repeatedAnchorRun
    (h.escrow.orders.lookup 0).map (·.status) = some .completed ∧
      h.escrow.getRemainingLocked 0 = 50 ∧ h.escrow.tokens ⟨9⟩ ⟨3⟩ = 1030 ∧
      ¬ Throughout splitStep AllExact (.fresh fun _ _ => 1000) repeatedAnchorRun := by
  intro h
  have hstate : (h.escrow.orders.lookup 0).map (·.status) = some .completed ∧
      h.escrow.getRemainingLocked 0 = 50 ∧ h.escrow.tokens ⟨9⟩ ⟨3⟩ = 1030 := by
    decide +kernel
  refine ⟨hstate.1, hstate.2.1, hstate.2.2, fun ht => ?_⟩
  obtain ⟨order, horder, hstatus⟩ := Option.map_eq_some_iff.mp hstate.1
  have hzero := ((ht.last 0 order horder).resolved (by rw [hstatus]; simp)).1
  exact absurd (hzero.symm.trans hstate.2.1) (by norm_num)

/-- An order with one leg for each anchor, of which one settles. -/
def distinctAnchorsRun : List (SplitStep ⟨0⟩) :=
  [splitCall (.initializeSplit ⟨1⟩ ⟨9⟩),
    splitCall (.createSplitOrder ⟨2⟩ (units 100) [(⟨3⟩, 7000), (⟨4⟩, 3000)]),
    splitCall (.settleLeg ⟨3⟩ 0)]

theorem distinctAnchorsRun_exact :
    Throughout splitStep (fun h => AllExact h ∧ Recoverable ⟨0⟩ h) (.fresh fun _ _ => 1000)
      distinctAnchorsRun := by
  refine (splitOrders_exact_iff (fun _ => by norm_num) distinctAnchorsRun).mpr
    ⟨fun _ _ he => (by cases he), fun _ _ he => (by cases he), ?_, trivial⟩
  rintro _ _ he _ order horder
  cases he
  have hone : (Option.map (fun o : SplitOrder => (o.legs.filter (·.anchor = ⟨3⟩)).length)
      ((runAll splitStep (.fresh fun _ _ => 1000)
        (distinctAnchorsRun.take 2)).escrow.orders.lookup 0)) = some 1 := by
    decide +kernel
  obtain ⟨o, ho, hlength⟩ := Option.map_eq_some_iff.mp hone
  obtain rfl : o = order := Option.some.inj (ho.symm.trans horder)
  exact hlength

end StellarFlow.SplitRemittance
