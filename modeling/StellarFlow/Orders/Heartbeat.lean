import StellarFlow.Foundation.Obligations
import StellarFlow.Host

/-!
# Orders with a heartbeat

A maker locks an amount of a token with each order, and gets it back by cancelling the order.
Every call of a maker records the time. Once a maker was silent for more than a day, anybody
may cancel all of its orders for it.
-/
namespace StellarFlow.Orders.Heartbeat

open Foundation

def heartbeatTimeout : ℕ := 24 * 60 * 60

inductive BookError
  | invalidAmount
  | orderNotFound
  | notOrderMaker
  | noHeartbeat
  | heartbeatStillFresh
  deriving DecidableEq, Repr

structure Order where
  id : ℕ
  maker : Address
  token : Address
  amount : ℤ
  deriving DecidableEq

structure OrderBook where
  nextOrderId : Option ℕ
  orders : Store ℕ Order
  makerOrders : Store Address (List ℕ)
  makerHeartbeat : Store Address ℕ
  tokens : Tokens

namespace OrderBook

def fresh (tokens : Tokens) : OrderBook := ⟨none, ∅, ∅, ∅, tokens⟩

/-- The numbers of the orders of a maker. -/
def ordersOf (b : OrderBook) (maker : Address) : List ℕ := (b.makerOrders.lookup maker).getD []

def recordHeartbeat (b : OrderBook) (maker : Address) (timestamp : ℕ) : OrderBook :=
  { b with makerHeartbeat := b.makerHeartbeat.insert maker timestamp }

def removeOrderId (b : OrderBook) (maker : Address) (orderId : ℕ) : OrderBook :=
  { b with makerOrders := b.makerOrders.insert maker ((b.ordersOf maker).filter (· ≠ orderId)) }

/-- What the book owes in one token. -/
def owes (b : OrderBook) (token : Address) : ℤ := owed Order.token Order.amount b.orders token

end OrderBook

section Calls

variable {here : Address} (env : Env here)

def placeOrder (maker token : Address) (amount : i128.Value) (b : OrderBook) :
    Except (Abort BookError) (ℕ × OrderBook) := do
  failIf (amount.1 ≤ 0) (.error .invalidAmount)
  hostCall (env.requireAuth maker)
  let tokens ← hostCall (env.transfer token maker here amount b.tokens)
  let orderId := b.nextOrderId.getD 0
  let nextOrderId ← okOr (checkBits 64 (orderId + 1)) .trap
  let b := { b with
    tokens
    nextOrderId := some nextOrderId
    orders := b.orders.insert orderId ⟨orderId, maker, token, amount.1⟩
    makerOrders := b.makerOrders.insert maker (b.ordersOf maker ++ [orderId]) }
  pure (orderId, b.recordHeartbeat maker env.timestamp)

def heartbeat (maker : Address) (b : OrderBook) : Except (Abort BookError) OrderBook := do
  hostCall (env.requireAuth maker)
  pure (b.recordHeartbeat maker env.timestamp)

def refundOrder (maker : Address) (b : OrderBook) (orderId : ℕ) :
    Except (Abort BookError) OrderBook := do
  let order ← okOr (b.orders.lookup orderId) (.error .orderNotFound)
  failIf (order.maker ≠ maker) (.error .notOrderMaker)
  let tokens ← hostCall (env.transfer order.token here maker order.amount b.tokens)
  pure { b with tokens, orders := b.orders.erase orderId }

def cancelOrder (maker : Address) (orderId : ℕ) (b : OrderBook) :
    Except (Abort BookError) OrderBook := do
  hostCall (env.requireAuth maker)
  let b ← refundOrder env maker b orderId
  pure ((b.removeOrderId maker orderId).recordHeartbeat maker env.timestamp)

/-- Nobody signs here. -/
def cancelStaleOrders (maker : Address) (b : OrderBook) :
    Except (Abort BookError) (ℕ × OrderBook) := do
  let heartbeat ← okOr (b.makerHeartbeat.lookup maker) (.error .noHeartbeat)
  failIf (env.timestamp - heartbeat ≤ heartbeatTimeout) (.error .heartbeatStillFresh)
  let orders := b.ordersOf maker
  let b ← orders.foldlM (refundOrder env maker) b
  pure (orders.length, { b with makerOrders := b.makerOrders.erase maker })

end Calls

inductive BookCall
  | placeOrder (maker token : Address) (amount : i128.Value)
  | heartbeat (maker : Address)
  | cancelOrder (maker : Address) (orderId : ℕ)
  | cancelStaleOrders (maker : Address)

def bookStep {here : Address} (i : Env here × BookCall) (b : OrderBook) :
    Except (Abort BookError) OrderBook :=
  match i.2 with
  | .placeOrder maker token amount => Prod.snd <$> placeOrder i.1 maker token amount b
  | .heartbeat maker => heartbeat i.1 maker b
  | .cancelOrder maker orderId => cancelOrder i.1 maker orderId b
  | .cancelStaleOrders maker => Prod.snd <$> cancelStaleOrders i.1 maker b

/-! ## Refunds -/

/-- Orders of a maker that are refunded: they leave the book, and what it owes for them goes
from the contract to the maker. -/
structure Refunded (here maker : Address) (ids : List ℕ) (b b' : OrderBook) : Prop where
  lookup : ∀ id, b'.orders.lookup id = if id ∈ ids then none else b.orders.lookup id
  makers : ∀ id ∈ ids, ∃ order, b.orders.lookup id = some order ∧ order.maker = maker
  rest : ∃ orders tokens, b' = { b with orders, tokens }
  held : ∀ c, b'.tokens c here + b.owes c = b.tokens c here + b'.owes c
  paid : ∀ c, b'.tokens c maker + b'.owes c = b.tokens c maker + b.owes c
  others : ∀ c a, a ≠ here → a ≠ maker → b'.tokens c a = b.tokens c a

/-- The book after the refund of one order. -/
def OrderBook.refunded (here : Address) (id : ℕ) (order : Order) (b : OrderBook) : OrderBook :=
  { b with
    tokens := b.tokens.move order.token here order.maker order.amount
    orders := b.orders.erase id }

section Refunds

variable {here : Address} {env : Env here} {b b' : OrderBook} {maker : Address} {id : ℕ}
  {order : Order} {ids : List ℕ}

theorem refundOrder_eq_ok : refundOrder env maker b id = .ok b' ↔
    ∃ order, b.orders.lookup id = some order ∧ order.maker = maker ∧
      env.accepts b.tokens order.token here maker order.amount = true ∧
      b' = b.refunded here id order := by
  simp only [refundOrder, bind_eq_ok, okOr_eq_ok, failIf_eq_ok, hostCall_eq_ok,
    Env.transfer_eq_ok, pure_eq_ok, not_not]
  constructor
  · rintro ⟨order, hfound, _, rfl, _, ⟨haccepts, rfl⟩, rfl⟩
    exact ⟨order, hfound, rfl, haccepts, rfl⟩
  · rintro ⟨order, hfound, rfl, haccepts, rfl⟩
    exact ⟨order, hfound, (), rfl, _, ⟨haccepts, rfl⟩, rfl⟩

@[simp] theorem refunded_tokens : (b.refunded here id order).tokens =
    b.tokens.move order.token here order.maker order.amount := rfl

theorem lookup_refunded {k : ℕ} (hk : k ≠ id) :
    (b.refunded here id order).orders.lookup k = b.orders.lookup k := by
  rw [OrderBook.refunded, Store.lookup_erase_ite, if_neg hk]

theorem lookup_of_refunded {k : ℕ} {other : Order}
    (h : (b.refunded here id order).orders.lookup k = some other) :
    b.orders.lookup k = some other := by
  rw [OrderBook.refunded, Store.lookup_erase_ite] at h
  split_ifs at h
  exact h

theorem owes_refunded (hfound : b.orders.lookup id = some order) (c : Address) :
    (b.refunded here id order).owes c =
      b.owes c - if c = order.token then order.amount else 0 := by
  rw [OrderBook.owes, OrderBook.refunded, owed_erase hfound]
  simp only [eq_comm (a := c), OrderBook.owes]

theorem refunded_held (hne : here ≠ order.maker) (hfound : b.orders.lookup id = some order)
    (c : Address) : (b.refunded here id order).tokens c here + b.owes c =
      b.tokens c here + (b.refunded here id order).owes c := by
  rw [owes_refunded hfound, refunded_tokens, Tokens.move_apply_src _ _ _ hne]
  ring

theorem refunded_paid (hne : here ≠ order.maker) (hfound : b.orders.lookup id = some order)
    (c : Address) : (b.refunded here id order).tokens c order.maker +
      (b.refunded here id order).owes c = b.tokens c order.maker + b.owes c := by
  rw [owes_refunded hfound, refunded_tokens, Tokens.move_apply_dst _ _ _ hne.symm]
  ring

theorem Refunded.nil (b : OrderBook) : Refunded here maker [] b b :=
  ⟨fun _ => by simp, by simp, ⟨_, _, rfl⟩, fun _ => rfl, fun _ => rfl, fun _ _ _ _ => rfl⟩

theorem Refunded.cons {b₁ : OrderBook} (hne : here ≠ maker) (hid : id ∉ ids)
    (hfirst : refundOrder env maker b id = .ok b₁) (h : Refunded here maker ids b₁ b') :
    Refunded here maker (id :: ids) b b' := by
  obtain ⟨order, hfound, rfl, -, rfl⟩ := refundOrder_eq_ok.mp hfirst
  refine ⟨fun k => ?_, fun k hk => ?_, ?_, fun c => ?_, fun c => ?_, fun c a ha hm => ?_⟩
  · rw [h.lookup]
    by_cases hk : k = id
    · rw [if_pos (List.mem_cons.mpr (.inl hk)), OrderBook.refunded, Store.lookup_erase_ite,
        if_pos hk, ite_self]
    · rw [lookup_refunded hk]
      simp only [List.mem_cons, hk, false_or]
  · rcases List.mem_cons.mp hk with rfl | htail
    · exact ⟨order, hfound, rfl⟩
    · obtain ⟨other, hother, heq⟩ := h.makers k htail
      exact ⟨other, lookup_of_refunded hother, heq⟩
  · obtain ⟨orders, tokens, rfl⟩ := h.rest
    exact ⟨orders, tokens, rfl⟩
  · have hheld := h.held c
    have hrefunded := refunded_held hne hfound c
    omega
  · have hpaid := h.paid c
    have hrefunded := refunded_paid hne hfound c
    omega
  · rw [h.others c a ha hm, refunded_tokens, Tokens.move_apply_of_ne _ _ _ ha hm]

theorem refundOrders_eq_ok (hne : here ≠ maker) (hnodup : ids.Nodup)
    (h : ids.foldlM (refundOrder env maker) b = .ok b') : Refunded here maker ids b b' := by
  induction ids generalizing b with
  | nil =>
    obtain rfl := pure_eq_ok.mp h
    exact .nil b
  | cons id ids ih =>
    obtain ⟨hid, htail⟩ := List.nodup_cons.mp hnodup
    rw [List.foldlM_cons] at h
    obtain ⟨b₁, hfirst, hrest⟩ := bind_eq_ok.mp h
    exact .cons hne hid hfirst (ih htail hrest)

/-- A contract that holds what it owes can refund all orders of a maker. -/
theorem refundOrders_ok (hpays : env.PaysOut) (hne : here ≠ maker) (hnodup : ids.Nodup)
    (hpos : ∀ id order, b.orders.lookup id = some order → 0 < order.amount)
    (hheld : ∀ c, b.owes c ≤ b.tokens c here)
    (hmakers : ∀ id ∈ ids, ∃ order, b.orders.lookup id = some order ∧ order.maker = maker) :
    ∃ b', ids.foldlM (refundOrder env maker) b = .ok b' := by
  induction ids generalizing b with
  | nil => exact ⟨b, rfl⟩
  | cons id ids ih =>
    obtain ⟨hid, htail⟩ := List.nodup_cons.mp hnodup
    obtain ⟨⟨order, hfound, hmaker⟩, hrest⟩ := List.forall_mem_cons.mp hmakers
    have hle : order.amount ≤ b.owes order.token :=
      amount_le_owed (fun k v hv => (hpos k v hv).le) hfound
    have haccepts := hpays b.tokens order.token maker order.amount (hpos id order hfound).le
      (hle.trans (hheld _))
    have hfirst := refundOrder_eq_ok.mpr ⟨order, hfound, hmaker, haccepts, rfl⟩
    rw [List.foldlM_cons, hfirst, ok_bind]
    refine ih htail (fun k v hv => hpos k v (lookup_of_refunded hv)) (fun c => ?_) fun k hk => ?_
    · have hold := hheld c
      have hrefunded := refunded_held (hmaker ▸ hne) hfound c
      omega
    · obtain ⟨other, hother, heq⟩ := hrest k hk
      exact ⟨other, (lookup_refunded (by rintro rfl; exact hid hk)).trans hother, heq⟩

end Refunds

/-! ## Custody -/

/-- The lists of the makers are the stored orders, and the contract holds what it owes besides
what it had at first. -/
structure Held (here : Address) (start : Tokens) (b : OrderBook) : Prop where
  id_lt : ∀ id order, b.orders.lookup id = some order → id < b.nextOrderId.getD 0
  amount_pos : ∀ id order, b.orders.lookup id = some order → 0 < order.amount
  maker_ne : ∀ id order, b.orders.lookup id = some order → here ≠ order.maker
  nodup : ∀ maker, (b.ordersOf maker).Nodup
  mem_iff : ∀ maker id, id ∈ b.ordersOf maker ↔
    ∃ order, b.orders.lookup id = some order ∧ order.maker = maker
  held : ∀ c, b.tokens c here = start c here + b.owes c

/-- Orders of one maker that are cancelled, by itself or for it. -/
structure Cancelled (here maker : Address) (ids : List ℕ) (b b' : OrderBook) : Prop where
  lookup : ∀ id, b'.orders.lookup id = if id ∈ ids then none else b.orders.lookup id
  makers : ∀ id ∈ ids, ∃ order, b.orders.lookup id = some order ∧ order.maker = maker
  next_eq : b'.nextOrderId = b.nextOrderId
  ordersOf_eq : ∀ m, b'.ordersOf m =
    if m = maker then (b.ordersOf maker).filter (· ∉ ids) else b.ordersOf m
  held : ∀ c, b'.tokens c here + b.owes c = b.tokens c here + b'.owes c
  paid : ∀ c, b'.tokens c maker + b'.owes c = b.tokens c maker + b.owes c

/-- The book after a new order. -/
def OrderBook.placed (here maker token : Address) (amount : ℤ) (timestamp : ℕ) (b : OrderBook) :
    OrderBook :=
  { b with
    tokens := b.tokens.move token maker here amount
    nextOrderId := some (b.nextOrderId.getD 0 + 1)
    orders := b.orders.insert (b.nextOrderId.getD 0)
      ⟨b.nextOrderId.getD 0, maker, token, amount⟩
    makerOrders := b.makerOrders.insert maker (b.ordersOf maker ++ [b.nextOrderId.getD 0])
    makerHeartbeat := b.makerHeartbeat.insert maker timestamp }

section Custody

variable {here : Address} {env : Env here} {start : Tokens} {b b' : OrderBook}
  {maker token : Address} {id n : ℕ} {ids : List ℕ} {amount : i128.Value}

theorem held_fresh (start : Tokens) : Held here start (.fresh start) where
  id_lt := nofun
  amount_pos := nofun
  maker_ne := nofun
  nodup _ := List.nodup_nil
  mem_iff _ _ := by simp [OrderBook.fresh, OrderBook.ordersOf]
  held c := by simp [OrderBook.fresh, OrderBook.owes]

theorem Cancelled.kept (h : Cancelled here maker ids b b') {order : Order}
    (hfound : b'.orders.lookup id = some order) : id ∉ ids ∧ b.orders.lookup id = some order := by
  rw [h.lookup] at hfound
  split_ifs at hfound with hid
  exact ⟨hid, hfound⟩

theorem Held.cancelled (hb : Held here start b) (h : Cancelled here maker ids b b') :
    Held here start b' := by
  refine ⟨fun k order hk => h.next_eq ▸ hb.id_lt k order (h.kept hk).2,
    fun k order hk => hb.amount_pos k order (h.kept hk).2,
    fun k order hk => hb.maker_ne k order (h.kept hk).2, fun m => ?_, fun m k => ?_, fun c => ?_⟩
  · rw [h.ordersOf_eq]
    split_ifs
    · exact (hb.nodup maker).filter _
    · exact hb.nodup m
  · rw [h.ordersOf_eq, h.lookup]
    by_cases hk : k ∈ ids
    · -- A number that is cancelled belongs to the maker and to nobody else.
      obtain ⟨order, hfound, hmaker⟩ := h.makers k hk
      rw [if_pos hk]
      split_ifs with hm
      · simp [hk]
      · simp only [false_and, exists_false, iff_false, hb.mem_iff, not_exists,
          not_and]
        intro other hother heq
        obtain rfl := Option.some.inj (hfound.symm.trans hother)
        exact hm (heq.symm.trans hmaker)
    · rw [if_neg hk]
      split_ifs with hm
      · subst hm
        simp [hk, hb.mem_iff]
      · exact hb.mem_iff m k
  · have hheld := h.held c
    have hold := hb.held c
    omega

theorem cancelOrder_eq_ok (h : cancelOrder env maker id b = .ok b') :
    env.auth maker = true ∧ Cancelled here maker [id] b b' := by
  simp only [cancelOrder, bind_eq_ok, hostCall_eq_ok, Env.requireAuth_eq_ok, pure_eq_ok] at h
  obtain ⟨_, hauth, b₁, hrefund, rfl⟩ := h
  have hne := (Env.ne_here_of_auth hauth).symm
  have hdone : Refunded here maker [id] b b₁ :=
    .cons hne List.not_mem_nil hrefund (.nil b₁)
  obtain ⟨orders, tokens, rfl⟩ := hdone.rest
  refine ⟨hauth, hdone.lookup, hdone.makers, rfl, fun m => ?_, hdone.held, hdone.paid⟩
  simp only [OrderBook.ordersOf, OrderBook.recordHeartbeat, OrderBook.removeOrderId,
    Store.lookup_insert_ite, List.mem_singleton]
  split_ifs with hm
  · rfl
  · rfl

/-- The contract is no maker. -/
theorem Held.ordersOf_here (hb : Held here start b) (h : here = maker) :
    b.ordersOf maker = [] := by
  refine List.eq_nil_iff_forall_not_mem.mpr fun k hk => ?_
  obtain ⟨order, hfound, hmaker⟩ := (hb.mem_iff maker k).mp hk
  exact hb.maker_ne k order hfound (h.trans hmaker.symm)

theorem filter_notMem_self (l : List ℕ) : l.filter (· ∉ l) = [] := by simp

theorem cancelStaleOrders_eq_ok (hb : Held here start b)
    (h : cancelStaleOrders env maker b = .ok (n, b')) :
    (∃ beat, b.makerHeartbeat.lookup maker = some beat ∧
      heartbeatTimeout < env.timestamp - beat) ∧
    n = (b.ordersOf maker).length ∧ Cancelled here maker (b.ordersOf maker) b b' := by
  simp only [cancelStaleOrders, bind_eq_ok, okOr_eq_ok, failIf_eq_ok, pure_eq_ok,
    Prod.mk.injEq, not_le] at h
  obtain ⟨beat, hbeat, _, hstale, b₁, hrefunds, rfl, rfl⟩ := h
  have hdone : Refunded here maker (b.ordersOf maker) b b₁ := by
    by_cases hne : here = maker
    · have hnone := hb.ordersOf_here hne
      rw [hnone] at hrefunds ⊢
      obtain rfl := pure_eq_ok.mp hrefunds
      exact .nil b
    · exact refundOrders_eq_ok hne (hb.nodup maker) hrefunds
  obtain ⟨orders, tokens, rfl⟩ := hdone.rest
  refine ⟨⟨beat, hbeat, hstale⟩, rfl, hdone.lookup, hdone.makers, rfl, fun m => ?_, hdone.held,
    hdone.paid⟩
  simp only [OrderBook.ordersOf, Store.lookup_erase_ite]
  split_ifs with hm
  · exact (filter_notMem_self (b.ordersOf maker)).symm
  · rfl

theorem placeOrder_eq_ok (h : placeOrder env maker token amount b = .ok (id, b')) :
    env.auth maker = true ∧ 0 < amount.1 ∧
      b' = b.placed here maker token amount.1 env.timestamp := by
  simp only [placeOrder, bind_eq_ok, failIf_eq_ok, hostCall_eq_ok, okOr_eq_ok,
    Env.requireAuth_eq_ok, Env.transfer_eq_ok, checkBits_eq_some, pure_eq_ok, Prod.mk.injEq,
    not_le] at h
  obtain ⟨_, hpos, _, hauth, _, ⟨_, rfl⟩, _, ⟨_, rfl⟩, rfl, rfl⟩ := h
  exact ⟨hauth, hpos, rfl⟩

theorem ordersOf_placed (x : ℤ) (timestamp : ℕ) (m : Address) :
    (b.placed here maker token x timestamp).ordersOf m =
      if m = maker then b.ordersOf maker ++ [b.nextOrderId.getD 0] else b.ordersOf m := by
  simp only [OrderBook.placed, OrderBook.ordersOf, Store.lookup_insert_ite]
  split_ifs <;> rfl

theorem lookup_placed (x : ℤ) (timestamp k : ℕ) :
    (b.placed here maker token x timestamp).orders.lookup k =
      if k = b.nextOrderId.getD 0 then some ⟨b.nextOrderId.getD 0, maker, token, x⟩
      else b.orders.lookup k :=
  Store.lookup_insert_ite ..

theorem Held.placed (hb : Held here start b) (hne : maker ≠ here) {x : ℤ} (hpos : 0 < x)
    (timestamp : ℕ) : Held here start (b.placed here maker token x timestamp) := by
  have hnew : b.orders.lookup (b.nextOrderId.getD 0) = none := by
    by_contra hsome
    obtain ⟨order, hfound⟩ := Option.ne_none_iff_exists'.mp hsome
    exact (hb.id_lt _ order hfound).ne rfl
  have hunlisted : ∀ m, b.nextOrderId.getD 0 ∉ b.ordersOf m := by
    intro m hmem
    obtain ⟨order, hfound, _⟩ := (hb.mem_iff m _).mp hmem
    cases hnew.symm.trans hfound
  have hcases : ∀ k order, (b.placed here maker token x timestamp).orders.lookup k = some order →
      (k = b.nextOrderId.getD 0 ∧ order = ⟨b.nextOrderId.getD 0, maker, token, x⟩) ∨
        b.orders.lookup k = some order := by
    intro k order hfound
    rcases Store.lookup_insert_eq_some.mp hfound with hk | ⟨_, hold⟩
    · exact .inl hk
    · exact .inr hold
  refine ⟨fun k order hfound => ?_, fun k order hfound => ?_, fun k order hfound => ?_,
    fun m => ?_, fun m k => ?_, fun c => ?_⟩
  · show k < b.nextOrderId.getD 0 + 1
    rcases hcases k order hfound with ⟨rfl, _⟩ | hold
    · exact Nat.lt_succ_self _
    · exact (hb.id_lt k order hold).trans (Nat.lt_succ_self _)
  · rcases hcases k order hfound with ⟨_, rfl⟩ | hold
    · exact hpos
    · exact hb.amount_pos k order hold
  · rcases hcases k order hfound with ⟨_, rfl⟩ | hold
    · exact hne.symm
    · exact hb.maker_ne k order hold
  · rw [ordersOf_placed]
    split_ifs
    · refine List.nodup_append.mpr ⟨hb.nodup maker, List.nodup_singleton _, ?_⟩
      rintro a ha c hc rfl
      exact hunlisted maker (List.mem_singleton.mp hc ▸ ha)
    · exact hb.nodup m
  · rw [ordersOf_placed, lookup_placed]
    by_cases hk : k = b.nextOrderId.getD 0
    · rw [if_pos hk]
      split_ifs with hm
      · simp [hk, hm]
      · simp [hk, hunlisted m, eq_comm (a := maker), hm]
    · rw [if_neg hk]
      split_ifs with hm
      · simp [hk, hm, hb.mem_iff]
      · exact hb.mem_iff m k
  · have hold := hb.held c
    have howes : (b.placed here maker token x timestamp).owes c =
        b.owes c + if token = c then x else 0 := owed_insert_of_none _ hnew c
    rw [howes]
    show b.tokens.move token maker here x c here = _
    rw [Tokens.move_apply_dst _ _ _ hne.symm, hold]
    simp only [eq_comm (a := c), add_assoc]

end Custody

/-! ## Runs -/

/-- A cancellation of orders of a maker: its own, or anybody's after a day of silence. -/
def Cancels {here : Address} (b : OrderBook) (i : Env here × BookCall) (maker : Address) : Prop :=
  (∃ id, i.2 = .cancelOrder maker id ∧ i.1.auth maker = true) ∨
    i.2 = .cancelStaleOrders maker ∧ ∃ beat, b.makerHeartbeat.lookup maker = some beat ∧
      heartbeatTimeout < i.1.timestamp - beat

/-- An order that leaves the book in a call was cancelled, and what the book no longer owes went
to the maker. -/
def ReturnsOrders {here : Address} (b : OrderBook) (i : Env here × BookCall) : Prop :=
  ∀ id order, b.orders.lookup id = some order →
    (commit bookStep b i).orders.lookup id ≠ some order →
      Cancels b i order.maker ∧ ∀ c, (commit bookStep b i).tokens c order.maker +
        (commit bookStep b i).owes c = b.tokens c order.maker + b.owes c

/-- With tokens that pay out what is covered, every maker can get each order back, and the
orders of a maker that was silent for a day can be cancelled together. -/
def Withdrawable (here : Address) (b : OrderBook) : Prop :=
  ∀ env : Env here, env.PaysOut → ∀ maker,
    (env.auth maker = true → ∀ id order, b.orders.lookup id = some order → order.maker = maker →
      ∃ b', cancelOrder env maker id b = .ok b') ∧
    ∀ beat, b.makerHeartbeat.lookup maker = some beat → heartbeatTimeout < env.timestamp - beat →
      ∃ b', cancelStaleOrders env maker b = .ok ((b.ordersOf maker).length, b')

section Runs

variable {here : Address} {start : Tokens} {b b' : OrderBook}

theorem bookStep_held {i : Env here × BookCall} (hb : Held here start b)
    (h : bookStep i b = .ok b') : Held here start b' := by
  obtain ⟨env, call⟩ := i
  cases call with
  | placeOrder maker token amount =>
    obtain ⟨id, h⟩ := snd_map_eq_ok.mp h
    obtain ⟨hauth, hpos, rfl⟩ := placeOrder_eq_ok h
    exact hb.placed (Env.ne_here_of_auth hauth) hpos env.timestamp
  | heartbeat maker =>
    simp only [bookStep, heartbeat, bind_eq_ok, pure_eq_ok] at h
    obtain ⟨_, _, rfl⟩ := h
    exact ⟨hb.id_lt, hb.amount_pos, hb.maker_ne, hb.nodup, hb.mem_iff, hb.held⟩
  | cancelOrder maker id => exact hb.cancelled (cancelOrder_eq_ok h).2
  | cancelStaleOrders maker =>
    obtain ⟨n, h⟩ := snd_map_eq_ok.mp h
    exact hb.cancelled (cancelStaleOrders_eq_ok hb h).2.2

theorem Cancelled.returns {maker : Address} {ids : List ℕ}
    (h : Cancelled here maker ids b b') {id : ℕ} {order : Order}
    (hfound : b.orders.lookup id = some order) (hgone : b'.orders.lookup id ≠ some order) :
    order.maker = maker := by
  rw [h.lookup] at hgone
  split_ifs at hgone with hid
  · obtain ⟨other, hother, hmaker⟩ := h.makers id hid
    obtain rfl := Option.some.inj (hfound.symm.trans hother)
    exact hmaker
  · exact absurd hfound hgone

theorem Held.returnsOrders (hb : Held here start b) (i : Env here × BookCall) :
    ReturnsOrders b i := by
  intro id order hfound hgone
  cases hstep : bookStep i b with
  | error e =>
    rw [commit_of_error hstep] at hgone
    exact absurd hfound hgone
  | ok b' =>
    rw [commit_of_ok hstep] at hgone ⊢
    obtain ⟨env, call⟩ := i
    cases call with
    | placeOrder maker token amount =>
      obtain ⟨n, h⟩ := snd_map_eq_ok.mp hstep
      obtain ⟨-, -, rfl⟩ := placeOrder_eq_ok h
      rw [lookup_placed, if_neg (hb.id_lt id order hfound).ne] at hgone
      exact absurd hfound hgone
    | heartbeat maker =>
      simp only [bookStep, heartbeat, bind_eq_ok, pure_eq_ok] at hstep
      obtain ⟨_, _, rfl⟩ := hstep
      exact absurd hfound hgone
    | cancelOrder maker k =>
      obtain ⟨hauth, hdone⟩ := cancelOrder_eq_ok hstep
      obtain rfl := hdone.returns hfound hgone
      exact ⟨.inl ⟨k, rfl, hauth⟩, hdone.paid⟩
    | cancelStaleOrders maker =>
      obtain ⟨n, h⟩ := snd_map_eq_ok.mp hstep
      obtain ⟨hstale, -, hdone⟩ := cancelStaleOrders_eq_ok hb h
      obtain rfl := hdone.returns hfound hgone
      exact ⟨.inr ⟨rfl, hstale⟩, hdone.paid⟩

theorem Held.withdrawable (hb : Held here start b) (h0 : ∀ token, 0 ≤ start token here) :
    Withdrawable here b := by
  intro env hpays maker
  have hcovered : ∀ c, b.owes c ≤ b.tokens c here := by
    intro c
    have hheld := hb.held c
    have hstart := h0 c
    omega
  constructor
  · intro hauth id order hfound hmaker
    have hle : order.amount ≤ b.owes order.token :=
      amount_le_owed (fun k v hv => (hb.amount_pos k v hv).le) hfound
    have haccepts := hpays b.tokens order.token maker order.amount
      (hb.amount_pos id order hfound).le (hle.trans (hcovered _))
    have hrefund := refundOrder_eq_ok.mpr ⟨order, hfound, hmaker, haccepts, rfl⟩
    have hsigned : env.requireAuth maker = .ok () := Env.requireAuth_eq_ok.mpr hauth
    rw [cancelOrder, hostCall_eq_ok.mpr hsigned, ok_bind, hrefund, ok_bind]
    exact ⟨_, rfl⟩
  · intro beat hbeat hstale
    obtain ⟨b', hrefunds⟩ : ∃ b', (b.ordersOf maker).foldlM (refundOrder env maker) b = .ok b' := by
      by_cases hne : here = maker
      · have hnone : b.ordersOf maker = [] := hb.ordersOf_here hne
        rw [hnone]
        exact ⟨b, rfl⟩
      · exact refundOrders_ok hpays hne (hb.nodup maker) hb.amount_pos hcovered
          fun id hid => (hb.mem_iff maker id).mp hid
    refine ⟨{ b' with makerOrders := b'.makerOrders.erase maker }, ?_⟩
    rw [cancelStaleOrders, hbeat, okOr_some, ok_bind, failIf_of_not hstale.not_ge, ok_bind]
    dsimp only
    rw [hrefunds]
    rfl

end Runs

/-- In every run the contract holds what the orders in the book lock, besides what it had at
first, and every maker can get its orders back. An order only leaves the book when its maker
cancels it, or anybody does after the maker was silent for more than a day, and then what was
locked goes to the maker. -/
theorem heartbeatBook_custody {here : Address} {start : Tokens}
    (h0 : ∀ token, 0 ≤ start token here) (run : List (Env here × BookCall)) :
    Throughout bookStep (fun b => (∀ c, b.tokens c here = start c here + b.owes c) ∧
      (∀ maker id, id ∈ b.ordersOf maker ↔
        ∃ order, b.orders.lookup id = some order ∧ order.maker = maker) ∧
      Withdrawable here b) (.fresh start) run ∧
    Along bookStep ReturnsOrders (.fresh start) run := by
  have hstep : ∀ b (i : Env here × BookCall) b', Held here start b → bookStep i b = .ok b' →
      Held here start b' := fun b i b' hb h => bookStep_held hb h
  constructor
  · exact throughout_of_invariant hstep
      (fun b hb => ⟨hb.held, hb.mem_iff, hb.withdrawable h0⟩) (held_fresh start) run
  · exact along_of_invariant hstep (fun b i hb => hb.returnsOrders i) (held_fresh start) run

/-- One maker with two orders falls silent for two days. -/
def silentRun : List (Env ⟨0⟩ × BookCall) :=
  let env := Env.standard ⟨0⟩ 4 none
  [(env, .placeOrder ⟨1⟩ ⟨10⟩ (units 5)), (env, .placeOrder ⟨1⟩ ⟨11⟩ (units 7)),
    ({ env with timestamp := 2 * heartbeatTimeout }, .cancelStaleOrders ⟨1⟩)]

def silentTokens : Tokens := fun _ holder => if holder = ⟨0⟩ then 0 else 100

theorem silentRun_custody :
    (runAll bookStep (.fresh silentTokens) silentRun).ordersOf ⟨1⟩ = [] ∧
    Throughout bookStep (fun b => (∀ c, b.tokens c ⟨0⟩ = silentTokens c ⟨0⟩ + b.owes c) ∧
      (∀ maker id, id ∈ b.ordersOf maker ↔
        ∃ order, b.orders.lookup id = some order ∧ order.maker = maker) ∧
      Withdrawable ⟨0⟩ b) (.fresh silentTokens) silentRun ∧
    Along bookStep ReturnsOrders (.fresh silentTokens) silentRun :=
  ⟨by decide +kernel, heartbeatBook_custody (fun _ => le_rfl) silentRun⟩

end StellarFlow.Orders.Heartbeat
