import StellarFlow.Orders.Runs

/-!
# Placements, cancellations and the holding of one token

A placement leaves what the contract holds of a token alone exactly when the new order
escrows nothing of it, and a cancellation exactly when it releases nothing of it.
-/
namespace StellarFlow.Orders

open Foundation

/-- Cancelling the order releases nothing of the token. -/
def FreeOf (token : Address) (b : Book) (orderId : ℕ) : Prop :=
  ∀ o, b.loadOrder orderId = .ok o → o.escrowAsset ≠ token ∨ o.escrow = 0

variable {here token : Address} {env : Env here} {b b' : Book} {o : LimitOrder}

theorem add_ite_eq_self_iff {x y : ℤ} {p : Prop} [Decidable p] :
    (x + if p then y else 0) = x ↔ ¬ p ∨ y = 0 := by
  split_ifs with h <;> simp [h]

theorem sub_ite_eq_self_iff {x y : ℤ} {p : Prop} [Decidable p] :
    (x - if p then y else 0) = x ↔ ¬ p ∨ y = 0 := by
  split_ifs with h <;> simp [h]

theorem Place.held_eq_iff (h : Place here b b' o) :
    b'.held here token = b.held here token ↔ o.escrowAsset ≠ token ∨ o.escrow = 0 := by
  rw [h.held_eq, add_ite_eq_self_iff, eq_comm]

theorem Cancel.freeOf_iff (h : Cancel here b b' o) (hw : b.WellFormed here) :
    FreeOf token b o.id ↔ o.escrowAsset ≠ token ∨ o.escrow = 0 := by
  constructor
  · exact fun hfree => hfree o (hw.loadOrder_eq_ok.mpr ⟨h.is_open.stored, rfl⟩)
  · intro ho o' hload
    have hstored : b.loadOrder o.id = .ok o := hw.loadOrder_eq_ok.mpr ⟨h.is_open.stored, rfl⟩
    obtain rfl := Except.ok.inj (hstored.symm.trans hload)
    exact ho

theorem Cancel.held_eq_iff (h : Cancel here b b' o) (hw : b.WellFormed here) :
    b'.held here token = b.held here token ↔ FreeOf token b o.id := by
  rw [h.held_eq, sub_ite_eq_self_iff, h.freeOf_iff hw, eq_comm]

theorem Cancel.escrow_nonneg (h : Cancel here b b' o) (hw : b.WellFormed here) : 0 ≤ o.escrow :=
  LimitOrder.escrowFor_nonneg (h.is_open.sound hw).priceTick_pos (h.remaining_pos hw).le

/-- Once the cancelled order itself releases nothing of the token, the others are free of it
before exactly when they are after. -/
theorem Cancel.freeOf_after (h : Cancel here b b' o) (hw : b.WellFormed here)
    (hfree : FreeOf token b o.id) (id : ℕ) : FreeOf token b' id ↔ FreeOf token b id := by
  by_cases hid : id = o.id
  · subst hid
    refine iff_of_true (fun o' hload => .inr ?_) hfree
    have hw' := h.wellFormed hw
    have hlookup : b'.table.orders.lookup o.key = some o.cancelled := by
      rw [h.table_eq, OrderTable.storeFill_lookup]
      exact if_pos rfl
    have hstored : b'.loadOrder o.id = .ok o.cancelled :=
      hw'.loadOrder_eq_ok.mpr ⟨hlookup, rfl⟩
    obtain rfl := Except.ok.inj (hstored.symm.trans hload)
    exact LimitOrder.escrowFor_zero
  · have hload : b'.loadOrder id = b.loadOrder id := by
      unfold Book.loadOrder
      rw [h.table_eq]
      exact OrderTable.storeFill_loadOrder_of_ne _ _ hid
    unfold FreeOf
    rw [hload]

/-- A batch releases only, and nothing of the token exactly when none of its orders does. -/
theorem cancelLoop_held {maker : Address} {orderIds : List ℕ} (hw : b.WellFormed here)
    {r r' : BatchCancelResult} (h : cancelLoop env maker orderIds r b = .ok (r', b')) :
    b'.held here token ≤ b.held here token ∧
      (b'.held here token = b.held here token ↔ ∀ id ∈ orderIds, FreeOf token b id) := by
  induction orderIds generalizing r b with
  | nil =>
    simp only [cancelLoop, pure_eq_ok, Prod.mk.injEq] at h
    obtain ⟨_, rfl⟩ := h
    exact ⟨le_rfl, iff_of_true rfl (by simp)⟩
  | cons orderId orderIds ih =>
    simp only [cancelLoop, bind_eq_ok, Prod.exists] at h
    obtain ⟨recovered, b₁, h₁, _, _, _, _, h⟩ := h
    obtain ⟨o, rfl, _, _, hc⟩ := cancelOrderInner_cancel hw h₁
    obtain ⟨hle, hiff⟩ := ih (hc.wellFormed hw) h
    have hfirst : b₁.held here token ≤ b.held here token := by
      rw [hc.held_eq]
      have := hc.escrow_nonneg hw
      split_ifs <;> omega
    refine ⟨hle.trans hfirst, ?_⟩
    rw [List.forall_mem_cons]
    constructor
    · intro heq
      have hheld : b₁.held here token = b.held here token := by omega
      have hfree := (hc.held_eq_iff hw).mp hheld
      refine ⟨hfree, fun id hid => ?_⟩
      exact (hc.freeOf_after hw hfree id).mp (hiff.mp (by omega) id hid)
    · rintro ⟨hfree, hrest⟩
      have hheld := (hc.held_eq_iff hw).mpr hfree
      rw [← hheld]
      exact hiff.mpr fun id hid => (hc.freeOf_after hw hfree id).mpr (hrest id hid)

end StellarFlow.Orders
