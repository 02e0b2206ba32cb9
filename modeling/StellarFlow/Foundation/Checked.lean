import Mathlib.Tactic

/-!
# Checked machine arithmetic

Machine integers are plain integers together with the bounds of their type.
Every checked operation computes the exact result first and then tests it
against the bounds, so a successful result is always the mathematical one.
Unsigned quantities that never go through a signed type are natural numbers
with a width.
-/
namespace StellarFlow.Foundation

/-- Inclusive bounds of a machine integer type. -/
structure IntRange where
  lo : ℤ
  hi : ℤ
  lo_nonpos : lo ≤ 0
  hi_nonneg : 0 ≤ hi

namespace IntRange

/-- Two's complement range with `n + 1` bits. -/
def signed (n : ℕ) : IntRange :=
  ⟨-((2 ^ n : ℕ) : ℤ), ((2 ^ n : ℕ) : ℤ) - 1, by simp, by
    have h : 0 < 2 ^ n := Nat.two_pow_pos n
    omega⟩

def Fits (w : IntRange) (x : ℤ) : Prop := w.lo ≤ x ∧ x ≤ w.hi

instance (w : IntRange) (x : ℤ) : Decidable (w.Fits x) :=
  inferInstanceAs (Decidable (_ ∧ _))

/-- A value of the machine type, such as the argument of a call. -/
abbrev Value (w : IntRange) := {x : ℤ // w.Fits x}

/-- The value itself when it is representable. -/
def check (w : IntRange) (x : ℤ) : Option ℤ := if w.Fits x then some x else none

/-- Division truncates toward zero and refuses a zero divisor. -/
def checkedDiv (w : IntRange) (x y : ℤ) : Option ℤ :=
  if y = 0 then none else w.check (x.tdiv y)

@[simp] theorem check_eq_some {w : IntRange} {x y : ℤ} :
    w.check x = some y ↔ w.Fits x ∧ x = y := by
  unfold check
  split_ifs with h <;> simp [h]

theorem signed_fits_iff {n : ℕ} {x : ℤ} : (signed n).Fits x ↔ -2 ^ n ≤ x ∧ x < 2 ^ n := by
  simp only [Fits, signed, Nat.cast_pow, Nat.cast_ofNat, Int.le_sub_one_iff]

theorem Fits.check_eq {w : IntRange} {x : ℤ} (h : w.Fits x) : w.check x = some x := by
  simp [h]

theorem Fits.of_abs_le {w : IntRange} {x y : ℤ} (h : w.Fits x) (h0 : 0 ≤ y) (hy : y ≤ x) :
    w.Fits y :=
  ⟨w.lo_nonpos.trans h0, hy.trans h.2⟩

/-- A truncated quotient stays in range. -/
theorem Fits.tdiv {w : IntRange} {x y : ℤ} (h : w.Fits x) (hy : 0 < y) : w.Fits (x.tdiv y) := by
  have hlo := w.lo_nonpos
  have hhi := w.hi_nonneg
  obtain ⟨hle, hge⟩ := h
  obtain hx | hx := le_total 0 x
  · have hself := Int.tdiv_le_self y hx
    have hnonneg := Int.tdiv_nonneg hx hy.le
    constructor <;> omega
  · have hself := Int.tdiv_le_self y (by omega : 0 ≤ -x)
    have hnonneg := Int.tdiv_nonneg (by omega : 0 ≤ -x) hy.le
    rw [Int.neg_tdiv] at hself hnonneg
    constructor <;> omega

theorem checkedDiv_of_nonneg {w : IntRange} {x y : ℤ} (hx : w.Fits x) (h0 : 0 ≤ x)
    (hy : 0 < y) : w.checkedDiv x y = some (x / y) := by
  have hq : w.Fits (x / y) := hx.of_abs_le (Int.ediv_nonneg h0 hy.le) (Int.ediv_le_self y h0)
  rw [checkedDiv, if_neg hy.ne', Int.tdiv_eq_ediv_of_nonneg h0, hq.check_eq]

end IntRange

/-- An unsigned value of the given width. -/
def checkBits (n x : ℕ) : Option ℕ := if x < 2 ^ n then some x else none

@[simp] theorem checkBits_eq_some {n x y : ℕ} :
    checkBits n x = some y ↔ x < 2 ^ n ∧ x = y := by
  unfold checkBits
  split_ifs with h <;> simp [h]

theorem mul_lt_double {x y : ℕ} (hx : x < 2 ^ 64) (hy : y < 2 ^ 64) : x * y < 2 ^ 128 := by
  rw [show (2 : ℕ) ^ 128 = 2 ^ 64 * 2 ^ 64 from pow_add 2 64 64]
  exact Nat.mul_lt_mul'' hx hy

/-- Unsigned subtraction, refused below zero. -/
def checkedSub (x y : ℕ) : Option ℕ := if y ≤ x then some (x - y) else none

@[simp] theorem checkedSub_eq_some {x y z : ℕ} :
    checkedSub x y = some z ↔ y ≤ x ∧ x - y = z := by
  unfold checkedSub
  split_ifs with h <;> simp [h]

/-- A sum whose steps all saturate saturates once. -/
theorem foldl_eq_min {α : Type*} {hi : ℕ} {g : ℕ → α → ℕ} {f : α → ℕ}
    (hg : ∀ t a, t ≤ hi → g t a = min hi (t + f a)) (l : List α) {t : ℕ} (ht : t ≤ hi) :
    l.foldl g t = min hi (t + (l.map f).sum) := by
  induction l generalizing t with
  | nil => simp [ht]
  | cons a l ih =>
    rw [List.foldl_cons, hg t a ht, ih (Nat.min_le_left _ _), List.map_cons, List.sum_cons]
    omega

section Results

universe u v

variable {α β : Type u} {ε : Type v}

/-- Turn an absent value into an error. -/
def okOr (o : Option α) (e : ε) : Except ε α :=
  match o with
  | some a => .ok a
  | none => .error e

/-- Return early with an error when the condition holds. -/
def failIf (c : Prop) [Decidable c] (e : ε) : Except ε Unit := if c then .error e else .ok ()

@[simp] theorem okOr_eq_ok {o : Option α} {e : ε} {a : α} :
    okOr o e = .ok a ↔ o = some a := by
  cases o <;> simp [okOr]

@[simp] theorem okOr_some (a : α) (e : ε) : okOr (some a) e = .ok a := rfl

@[simp] theorem failIf_eq_ok {c : Prop} [Decidable c] {e : ε} {u : Unit} :
    failIf c e = .ok u ↔ ¬ c := by
  unfold failIf
  split_ifs with h <;> simp [h]

theorem okOr_checkBits {n x : ℕ} (h : x < 2 ^ n) (e : ε) : okOr (checkBits n x) e = .ok x :=
  okOr_eq_ok.mpr (checkBits_eq_some.mpr ⟨h, rfl⟩)

theorem okOr_checkedSub {x y : ℕ} (h : y ≤ x) (e : ε) :
    okOr (checkedSub x y) e = .ok (x - y) :=
  okOr_eq_ok.mpr (checkedSub_eq_some.mpr ⟨h, rfl⟩)

theorem failIf_of_not {c : Prop} [Decidable c] {e : ε} (h : ¬ c) : failIf c e = .ok () := by
  simp [h]

@[simp] theorem mapError_eq_ok {ε' : Type v} {f : ε → ε'} {x : Except ε α} {a : α} :
    x.mapError f = .ok a ↔ x = .ok a := by
  cases x <;> simp [Except.mapError]

@[simp] theorem mapError_eq_error {ε' : Type v} {f : ε → ε'} {x : Except ε α} {e : ε'} :
    x.mapError f = .error e ↔ ∃ e', x = .error e' ∧ f e' = e := by
  cases x <;> simp [Except.mapError]

/-- A sequence succeeds exactly when its first part does and the rest does from there. -/
theorem bind_eq_ok {first : Except ε α} {next : α → Except ε β} {r : β} :
    (first >>= next) = .ok r ↔ ∃ a, first = .ok a ∧ next a = .ok r := by
  cases first <;> simp [bind, Except.bind]

/-- A sequence fails where its first part fails or where the rest does. -/
theorem bind_eq_error {first : Except ε α} {next : α → Except ε β} {e : ε} :
    (first >>= next) = .error e ↔
      first = .error e ∨ ∃ a, first = .ok a ∧ next a = .error e := by
  cases first <;> simp [bind, Except.bind]

/-- An error that no part raises is not raised. -/
theorem bind_ne_error {first : Except ε α} {next : α → Except ε β} {e : ε}
    (hfirst : first ≠ .error e) (hnext : ∀ a, next a ≠ .error e) :
    (first >>= next) ≠ .error e := by
  intro h
  obtain herror | ⟨a, _, herror⟩ := bind_eq_error.mp h
  · exact hfirst herror
  · exact hnext a herror

@[simp] theorem failIf_eq_error {c : Prop} [Decidable c] {e e' : ε} :
    (failIf c e : Except ε Unit) = .error e' ↔ c ∧ e = e' := by
  unfold failIf
  split_ifs with h <;> simp [h]

@[simp] theorem okOr_eq_error {o : Option α} {e e' : ε} :
    okOr o e = .error e' ↔ o = none ∧ e = e' := by
  cases o <;> simp [okOr]

@[simp] theorem pure_ne_error {a : α} {e : ε} : (pure a : Except ε α) ≠ .error e := by
  simp [pure, Except.pure]

/-- Two sequences with the same first part agree if they do after its success. -/
theorem bind_congr_ok {first : Except ε α} {next next' : α → Except ε β}
    (h : ∀ a, first = .ok a → next a = next' a) : (first >>= next) = first >>= next' := by
  cases first with
  | error e => rfl
  | ok a => exact h a rfl

@[simp] theorem pure_eq_ok {a b : α} : (pure a : Except ε α) = .ok b ↔ a = b := by
  simp [pure, Except.pure]

@[simp] theorem ok_bind (a : α) (f : α → Except ε β) : (Except.ok a >>= f) = f a := rfl

theorem map_eq_ok {f : α → β} {x : Except ε α} {b : β} :
    (f <$> x) = .ok b ↔ ∃ a, x = .ok a ∧ f a = b := by
  cases x <;> simp [Functor.map, Except.map]

theorem map_eq_error {f : α → β} {x : Except ε α} {e : ε} :
    (f <$> x) = .error e ↔ x = .error e := by
  cases x <;> simp [Functor.map, Except.map]

/-- The state after a call that also returns a value. -/
theorem snd_map_eq_ok {σ : Type u} {x : Except ε (α × σ)} {s : σ} :
    (Prod.snd <$> x) = .ok s ↔ ∃ a, x = .ok (a, s) := by
  cases x with
  | error e => simp [Functor.map, Except.map]
  | ok y =>
    obtain ⟨a, s₁⟩ := y
    simp [Functor.map, Except.map]

/-- The value that a call returns with its new state. -/
theorem fst_map_eq_ok {σ : Type u} {x : Except ε (α × σ)} {a : α} :
    (Prod.fst <$> x) = .ok a ↔ ∃ s, x = .ok (a, s) := by
  cases x with
  | error e => simp [Functor.map, Except.map]
  | ok y =>
    obtain ⟨a₁, s⟩ := y
    simp [Functor.map, Except.map]

end Results

end StellarFlow.Foundation
