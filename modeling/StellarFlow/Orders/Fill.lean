import StellarFlow.Orders.Limit

/-!
# Escrow of a single order and what a fill does to it

A sell order escrows its remaining volume, a buy order the quote of it, rounded down.
`LimitOrder.Sound` collects what holds of every stored order. The escrow of a volume is
superadditive and loses at most one unit when the volume is split, which is all that
rounding can do to an order that is filled in many parts.
-/
namespace StellarFlow.Orders

open Foundation

namespace LimitOrder

/-- The escrow that backs a volume of an order. -/
def escrowFor (o : LimitOrder) (base : ℤ) : ℤ :=
  if o.side = .buy then base * o.priceTick / priceScale else base

/-- What an order holds in the contract. -/
def escrow (o : LimitOrder) : ℤ := o.escrowFor o.remainingAmount

/-- What holds of every stored order of the contract at `here`. -/
structure Sound (here : Address) (o : LimitOrder) : Prop where
  maker_ne : o.maker ≠ here
  sellAsset_eq : o.sellAsset = o.pair.sellAsset
  buyAsset_eq : o.buyAsset = o.pair.buyAsset
  priceTick_pos : 0 < o.priceTick
  filled_nonneg : 0 ≤ o.filledAmount
  remaining_pos : o.active = true → 0 < o.remainingAmount
  remaining_eq : o.active = true → o.remainingAmount = o.originalAmount - o.filledAmount
  remaining_zero : o.active = false → o.remainingAmount = 0
  quote_fits : o.side = .buy → i128.Fits (o.originalAmount * o.priceTick)

variable {here : Address} {o : LimitOrder}

theorem escrowFor_nonneg (hp : 0 < o.priceTick) {q : ℤ} (hq : 0 ≤ q) : 0 ≤ o.escrowFor q := by
  unfold escrowFor
  split_ifs
  · exact Int.ediv_nonneg (mul_nonneg hq hp.le) (by decide)
  · exact hq

@[simp] theorem escrowFor_zero : o.escrowFor 0 = 0 := by simp [escrowFor]

/-- Splitting a volume never needs more escrow. -/
theorem escrowFor_add_le (q r : ℤ) : o.escrowFor q + o.escrowFor r ≤ o.escrowFor (q + r) := by
  unfold escrowFor
  split_ifs
  · rw [add_mul]
    exact Int.ediv_add_ediv_le_add_ediv (by decide)
  · exact le_rfl

/-- Splitting a volume loses less than two units of escrow. -/
theorem escrowFor_add_ge (q r : ℤ) :
    o.escrowFor (q + r) ≤ o.escrowFor q + o.escrowFor r + 1 := by
  unfold escrowFor priceScale
  split_ifs
  · rw [add_mul]
    omega
  · omega

end LimitOrder

section Amounts

variable {base tick amount : ℤ}

theorem quoteAmount_eq_ok (hb : 0 ≤ base) (ht : 0 ≤ tick) :
    quoteAmount base tick = .ok amount ↔
      i128.Fits (base * tick) ∧ amount = base * tick / priceScale := by
  simp only [quoteAmount, bind_eq_ok, okOr_eq_ok, IntRange.check_eq_some]
  constructor
  · rintro ⟨_, ⟨hf, rfl⟩, hd⟩
    rw [IntRange.checkedDiv_of_nonneg hf (mul_nonneg hb ht) (by decide)] at hd
    exact ⟨hf, (Option.some.inj hd).symm⟩
  · rintro ⟨hf, rfl⟩
    exact ⟨_, ⟨hf, rfl⟩, IntRange.checkedDiv_of_nonneg hf (mul_nonneg hb ht) (by decide)⟩

theorem protocolFee_eq_ok (ha : 0 ≤ amount) {fee : ℤ} (h : protocolFee amount = .ok fee) :
    fee = amount * protocolFeeBps / bpsScale := by
  simp only [protocolFee, bind_eq_ok, okOr_eq_ok, IntRange.check_eq_some] at h
  obtain ⟨_, ⟨hf, rfl⟩, hd⟩ := h
  rw [IntRange.checkedDiv_of_nonneg hf (mul_nonneg ha (by decide)) (by decide)] at hd
  exact (Option.some.inj hd).symm

/-- The quote of a whole floor satisfies the ratio assertion whenever the products fit. -/
theorem assertFillRatioInvariant_of_quote (hb : 0 ≤ base) (ht : 0 ≤ tick)
    (h : quoteAmount base tick = .ok amount) :
    assertFillRatioInvariant tick base amount = .ok () := by
  obtain ⟨hf, rfl⟩ := (quoteAmount_eq_ok hb ht).mp h
  have h0 : 0 ≤ base * tick := mul_nonneg hb ht
  have hle : base * tick / priceScale * priceScale ≤ base * tick := by
    unfold priceScale; omega
  have hge : 0 ≤ base * tick / priceScale * priceScale := by unfold priceScale; omega
  have hres : base * tick - base * tick / priceScale * priceScale < priceScale := by
    unfold priceScale; omega
  have hq := hf.of_abs_le hge hle
  have hd := hf.of_abs_le (sub_nonneg.mpr hle) (by omega)
  simp [assertFillRatioInvariant, hf.check_eq, hq.check_eq, hd.check_eq,
    failIf_of_not (not_lt.mpr hle), hres]

/-- The amounts of a match: the buyer's locked quote splits into the seller's net amount, the
quote fee and the price improvement, and the volume into the buyer's net amount and fee. -/
theorem settlement_eq_ok {seller buyer : LimitOrder} {q : ℤ} {a : Settlement} (hq : 0 ≤ q)
    (hs : 0 ≤ seller.priceTick) (hb : 0 ≤ buyer.priceTick)
    (h : settlement seller buyer q = .ok a) :
    a.quotePaid = q * seller.priceTick / priceScale ∧
    a.sellerNet + a.quoteFee + a.priceImprovement = q * buyer.priceTick / priceScale ∧
    a.buyerNet + a.baseFee = q ∧ 0 ≤ a.quoteFee ∧ 0 ≤ a.baseFee := by
  simp only [settlement, bind_eq_ok, okOr_eq_ok, IntRange.check_eq_some, pure_eq_ok] at h
  obtain ⟨paid, hpaid, locked, hlocked, _, ⟨_, rfl⟩, _, _, quoteFee, hqf, baseFee, hbf, _,
    ⟨_, rfl⟩, _, ⟨_, rfl⟩, rfl⟩ := h
  obtain ⟨_, rfl⟩ := (quoteAmount_eq_ok hq hs).mp hpaid
  obtain ⟨_, rfl⟩ := (quoteAmount_eq_ok hq hb).mp hlocked
  have hnn : 0 ≤ q * seller.priceTick / priceScale :=
    Int.ediv_nonneg (mul_nonneg hq hs) (by decide)
  have hfee := protocolFee_eq_ok hnn hqf
  have hfee' := protocolFee_eq_ok hq hbf
  refine ⟨rfl, by simp only; omega, by simp only; omega, ?_, ?_⟩
  · simp only [hfee]
    exact Int.ediv_nonneg (mul_nonneg hnn (by decide)) (by decide)
  · simp only [hfee']
    exact Int.ediv_nonneg (mul_nonneg hq (by decide)) (by decide)

end Amounts

section Update

variable {here : Address} {o o' : LimitOrder} {q : ℤ} {out : FillUpdateOutcome}

/-- What a fill of a sound order does: it stays open with the rest, or it closes, and a
remainder that was left at closing is refunded from the escrow as dust. -/
structure FillSpec (o : LimitOrder) (q : ℤ) (out : FillUpdateOutcome) (o' : LimitOrder) :
    Prop where
  eq : o' = { o with
    remainingAmount := o'.remainingAmount, amount := o'.amount
    filledAmount := o.filledAmount + q, active := o'.active }
  active_eq : o'.active = !out.closed
  closed_of_purged : out.purged = true → out.closed = true
  remaining_eq : o.remainingAmount = q + out.dustRemainingBase + o'.remainingAmount
  dust_nonneg : 0 ≤ out.dustRemainingBase
  dust_pos_iff : 0 < out.dustRemainingBase ↔ out.purged = true
  refund_eq : out.dustRefund = o.escrowFor out.dustRemainingBase
  remaining_nonneg : 0 ≤ o'.remainingAmount
  remaining_pos_iff : 0 < o'.remainingAmount ↔ o'.active = true

/-- The escrow that backs a part of a sound order can always be computed. -/
theorem LimitOrder.Sound.refundAmount_eq (ho : o.Sound here) (ha : o.active = true) {r : ℤ}
    (hr : 0 ≤ r) (hle : r ≤ o.remainingAmount) : refundAmount o r = .ok (o.escrowFor r) := by
  unfold refundAmount LimitOrder.escrowFor
  split_ifs with hs
  · rw [quoteAmount_eq_ok hr ho.priceTick_pos.le]
    have hrem := ho.remaining_eq ha
    have hfill := ho.filled_nonneg
    refine ⟨(ho.quote_fits hs).of_abs_le (mul_nonneg hr ho.priceTick_pos.le) ?_, rfl⟩
    exact mul_le_mul_of_nonneg_right (by omega) ho.priceTick_pos.le
  · rfl

theorem fillUpdate_spec (ho : o.Sound here) (ha : o.active = true) (hq : 0 < q)
    (hle : q ≤ o.remainingAmount) (h : fillUpdate o q = .ok (out, o')) :
    FillSpec o q out o' := by
  simp only [fillUpdate, bind_eq_ok, okOr_eq_ok, IntRange.check_eq_some] at h
  obtain ⟨_, ⟨_, rfl⟩, _, ⟨_, rfl⟩, _, _, h⟩ := h
  by_cases hzero : o.remainingAmount - q = 0
  · rw [if_pos hzero, pure_eq_ok] at h
    obtain ⟨rfl, rfl⟩ := Prod.mk.inj h
    constructor <;> simp <;> omega
  · rw [if_neg hzero, bind_eq_ok] at h
    obtain ⟨dust, _, h⟩ := h
    cases dust with
    | true =>
      rw [if_pos rfl, bind_eq_ok] at h
      obtain ⟨refund, hr, h⟩ := h
      have hr' := ho.refundAmount_eq ha (sub_nonneg.mpr hle) (sub_le_self _ hq.le)
      obtain rfl : refund = o.escrowFor (o.remainingAmount - q) :=
        Except.ok.inj (hr.symm.trans hr')
      rw [pure_eq_ok] at h
      obtain ⟨rfl, rfl⟩ := Prod.mk.inj h
      constructor <;> simp <;> omega
    | false =>
      rw [if_neg (by decide), pure_eq_ok] at h
      obtain ⟨rfl, rfl⟩ := Prod.mk.inj h
      constructor <;> simp [ha] <;> omega

namespace FillSpec

theorem key_eq (h : FillSpec o q out o') : o'.key = o.key := by rw [h.eq]; rfl

theorem side_eq (h : FillSpec o q out o') : o'.side = o.side := by rw [h.eq]

theorem inactive_of_purged (h : FillSpec o q out o') (hp : out.purged = true) :
    o'.active = false := by
  rw [h.active_eq, h.closed_of_purged hp]
  rfl

theorem dust_eq_zero (h : FillSpec o q out o') (hp : ¬ out.purged = true) :
    out.dustRemainingBase = 0 := by
  have hpos := mt h.dust_pos_iff.mp hp
  have hnn := h.dust_nonneg
  omega

theorem refund_eq_zero (h : FillSpec o q out o') (hp : ¬ out.purged = true) :
    out.dustRefund = 0 := by
  rw [h.refund_eq, h.dust_eq_zero hp, LimitOrder.escrowFor_zero]

theorem not_purged (h : FillSpec o q out o') (ha : o'.active = true) : ¬ out.purged = true :=
  fun hp => by simp [h.inactive_of_purged hp] at ha

theorem remaining_eq_zero (h : FillSpec o q out o') (ha : o'.active = false) :
    o'.remainingAmount = 0 := by
  have hpos := h.remaining_pos_iff
  have hnn := h.remaining_nonneg
  simp only [ha, Bool.false_eq_true, iff_false] at hpos
  omega

/-- A fill keeps an order sound. -/
theorem sound (h : FillSpec o q out o') (ho : o.Sound here) (ha : o.active = true)
    (hq : 0 < q) : o'.Sound here := by
  have hpos := h.remaining_pos_iff
  have hrem := h.remaining_eq
  have hold := ho.remaining_eq ha
  have hfill := ho.filled_nonneg
  have hdust := fun ha' => h.dust_eq_zero (h.not_purged ha')
  have hzero := h.remaining_eq_zero
  rw [h.eq]
  constructor
  · exact ho.maker_ne
  · exact ho.sellAsset_eq
  · exact ho.buyAsset_eq
  · exact ho.priceTick_pos
  · simp only; omega
  · exact hpos.mpr
  · intro ha'
    have hd := hdust ha'
    simp only
    omega
  · exact hzero
  · exact ho.quote_fits

/-- What is paid out for the fill, the dust refund and the escrow that stays never exceed
the escrow of the order before the fill. -/
theorem escrow_le (h : FillSpec o q out o') :
    o.escrowFor q + out.dustRefund + o'.escrow ≤ o.escrow := by
  have h1 := LimitOrder.escrowFor_add_le (o := o) (q + out.dustRemainingBase) o'.remainingAmount
  have h2 := LimitOrder.escrowFor_add_le (o := o) q out.dustRemainingBase
  have h3 : o'.escrow = o.escrowFor o'.remainingAmount := by rw [h.eq]; rfl
  rw [← h.remaining_eq] at h1
  rw [h3, h.refund_eq]
  unfold LimitOrder.escrow
  omega

end FillSpec

end Update

end StellarFlow.Orders
