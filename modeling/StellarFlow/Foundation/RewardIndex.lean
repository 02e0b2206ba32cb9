import Mathlib.Tactic

/-!
# Rewards by a growing index

Rewards are distributed by raising one index, the reward per share in fixed point. An account
remembers as its debt the value of its shares when it was last settled; the difference to
their present value is unsettled. `worth` is the same account without rounding, in fixed point.
Raising the index and settling are exact on it, and only a change of the shares can give
something away: the fraction lost in rounding the debt.
-/
namespace StellarFlow.Foundation

@[ext] structure Account where
  shares : ℤ
  debt : ℤ
  credited : ℤ

namespace Account

variable (p index : ℤ) (a : Account)

def unsettled : ℤ := a.shares * index / p - a.debt

def settled : Account :=
  { a with credited := a.credited + a.unsettled p index, debt := a.shares * index / p }

/-- The account after its shares changed, with the debt of the new shares. -/
def rebased (shares : ℤ) : Account := { a with shares, debt := shares * index / p }

/-- The account after a reward was paid out of what was credited. -/
def pay (reward : ℤ) : Account := { a with credited := a.credited - reward }

/-- Everything credited and the exact unsettled part, in fixed point. -/
def worth : ℤ := p * a.credited + a.shares * index - p * a.debt

/-- Nothing unsettled is negative. -/
def Backed : Prop := a.debt ≤ a.shares * index / p

variable {p index a}

theorem unsettled_nonneg_iff : 0 ≤ a.unsettled p index ↔ a.Backed p index := sub_nonneg

theorem mul_earned_le_worth (hp : 0 < p) :
    p * (a.credited + a.unsettled p index) ≤ a.worth p index := by
  have hfloor : p * (a.shares * index / p) ≤ a.shares * index := Int.mul_ediv_self_le hp.ne'
  unfold worth unsettled
  linarith

theorem worth_add (r : ℤ) : a.worth p (index + r) = a.worth p index + a.shares * r := by
  unfold worth
  ring

/-- Changing the shares of a settled account trades one rounding for another. -/
theorem worth_rebased_settled (shares : ℤ) :
    ((a.settled p index).rebased p index shares).worth p index =
      a.worth p index + (shares * index % p - a.shares * index % p) := by
  have hold := Int.mul_ediv_add_emod (a.shares * index) p
  have hnew := Int.mul_ediv_add_emod (shares * index) p
  simp only [worth, rebased, settled, unsettled]
  linarith

theorem backed_rebased (shares reward : ℤ) :
    ((a.rebased p index shares).pay reward).Backed p index := le_refl _

theorem Backed.add (h : a.Backed p index) (hp : 0 < p) (hs : 0 ≤ a.shares) {r : ℤ} (hr : 0 ≤ r) :
    a.Backed p (index + r) := by
  apply h.trans
  apply Int.ediv_le_ediv hp
  exact mul_le_mul_of_nonneg_left (le_add_of_nonneg_right hr) hs

end Account

end StellarFlow.Foundation
