import Mathlib.Data.Nat.Digits.Lemmas
import Mathlib.Tactic

/-!
# Numbers of variable length

A number is written as its digits in some base, least significant first, where a mark on a
digit says that another one follows. The symbols of a stream are digits below the base and
marked digits from the base on, so that a stream falls into its groups in one way only.
-/
namespace StellarFlow.Foundation.Varint

variable {B : ℕ}

/-- The digits of one number: at least one, and each below the base. -/
structure IsGroup (B : ℕ) (ds : List ℕ) : Prop where
  ne_nil : ds ≠ []
  lt : ∀ d ∈ ds, d < B

/-- The symbols of a group. Every digit but the last is marked. -/
def mark (B : ℕ) : List ℕ → List ℕ
  | [] => []
  | [d] => [d]
  | d :: e :: ds => (d + B) :: mark B (e :: ds)

/-- The shortest group of a number. -/
def digits (B n : ℕ) : List ℕ := if n = 0 then [0] else Nat.digits B n

@[simp] theorem mark_singleton (d : ℕ) : mark B [d] = [d] := rfl

theorem mark_cons (d : ℕ) {ds : List ℕ} (h : ds ≠ []) :
    mark B (d :: ds) = (d + B) :: mark B ds := by
  cases ds with
  | nil => exact absurd rfl h
  | cons e ds => rfl

@[simp] theorem length_mark (ds : List ℕ) : (mark B ds).length = ds.length := by
  induction ds with
  | nil => rfl
  | cons d ds ih =>
    cases ds with
    | nil => rfl
    | cons e ds =>
      rw [mark_cons d (List.cons_ne_nil e ds), List.length_cons, ih]
      rfl

theorem mark_lt {ds : List ℕ} (h : ∀ d ∈ ds, d < B) : ∀ x ∈ mark B ds, x < 2 * B := by
  induction ds with
  | nil => simp [mark]
  | cons d ds ih =>
    have hd : d < B := h d List.mem_cons_self
    cases ds with
    | nil =>
      intro x hx
      obtain rfl := List.mem_singleton.mp hx
      omega
    | cons e ds =>
      rw [mark_cons d (List.cons_ne_nil e ds)]
      intro x hx
      obtain rfl | hx := List.mem_cons.mp hx
      · omega
      · exact ih (fun d' hd' => h d' (List.mem_cons_of_mem d hd')) x hx

theorem IsGroup.tail {d : ℕ} {ds : List ℕ} (h : IsGroup B (d :: ds)) (hne : ds ≠ []) :
    IsGroup B ds :=
  ⟨hne, fun e he => h.lt e (List.mem_cons_of_mem d he)⟩

theorem IsGroup.cons {d : ℕ} {ds : List ℕ} (hd : d < B) (h : IsGroup B ds) : IsGroup B (d :: ds) :=
  ⟨List.cons_ne_nil d ds, List.forall_mem_cons.mpr ⟨hd, h.lt⟩⟩

theorem isGroup_singleton {d : ℕ} : IsGroup B [d] ↔ d < B :=
  ⟨fun h => h.lt d List.mem_cons_self, fun h => ⟨List.cons_ne_nil d [], by simpa using h⟩⟩

theorem IsGroup.length_pos {ds : List ℕ} (h : IsGroup B ds) : 0 < ds.length :=
  List.length_pos_of_ne_nil h.ne_nil

/-! ## Groups in a stream -/

/-- A stream that starts with an unmarked digit starts with the group of that digit. -/
theorem mark_append_eq_cons_of_lt {x : ℕ} {l ds rest : List ℕ} (hx : x < B) :
    IsGroup B ds ∧ x :: l = mark B ds ++ rest ↔ ds = [x] ∧ l = rest := by
  constructor
  · rintro ⟨hds, heq⟩
    cases ds with
    | nil => exact absurd rfl hds.ne_nil
    | cons d ds =>
      cases ds with
      | nil =>
        rw [mark_singleton, List.singleton_append, List.cons.injEq] at heq
        exact ⟨by rw [heq.1], heq.2⟩
      | cons e ds =>
        rw [mark_cons d (List.cons_ne_nil e ds), List.cons_append, List.cons.injEq] at heq
        omega
  · rintro ⟨rfl, rfl⟩
    exact ⟨isGroup_singleton.mpr hx, rfl⟩

/-- A stream that starts with a marked digit goes on with the rest of its group. -/
theorem mark_append_eq_cons_of_le {x : ℕ} {l ds rest : List ℕ} (hle : B ≤ x) (hlt : x < 2 * B) :
    IsGroup B ds ∧ x :: l = mark B ds ++ rest ↔
      ∃ es, ds = (x - B) :: es ∧ IsGroup B es ∧ l = mark B es ++ rest := by
  constructor
  · rintro ⟨hds, heq⟩
    cases ds with
    | nil => exact absurd rfl hds.ne_nil
    | cons d ds =>
      cases ds with
      | nil =>
        have hd : d < B := hds.lt d List.mem_cons_self
        rw [mark_singleton, List.singleton_append, List.cons.injEq] at heq
        omega
      | cons e ds =>
        rw [mark_cons d (List.cons_ne_nil e ds), List.cons_append, List.cons.injEq] at heq
        refine ⟨e :: ds, ?_, hds.tail (List.cons_ne_nil e ds), heq.2⟩
        rw [heq.1, Nat.add_sub_cancel]
  · rintro ⟨es, rfl, hes, rfl⟩
    refine ⟨hes.cons (by omega), ?_⟩
    rw [mark_cons _ hes.ne_nil, List.cons_append, Nat.sub_add_cancel hle]

/-- The first digit of a group is at most its number. -/
theorem IsGroup.mod_le_ofDigits {x : ℕ} {l ds rest : List ℕ} (hds : IsGroup B ds)
    (hx : x < 2 * B) (heq : x :: l = mark B ds ++ rest) : x % B ≤ Nat.ofDigits B ds := by
  obtain hlast | hmore := Nat.lt_or_ge x B
  · obtain ⟨rfl, _⟩ := (mark_append_eq_cons_of_lt hlast).mp ⟨hds, heq⟩
    rw [Nat.ofDigits_singleton]
    exact Nat.mod_le x B
  · obtain ⟨es, rfl, _, _⟩ := (mark_append_eq_cons_of_le hmore hx).mp ⟨hds, heq⟩
    rw [Nat.ofDigits_cons, Nat.mod_eq_sub_mod hmore, Nat.mod_eq_of_lt (by omega)]
    exact Nat.le_add_right _ _

/-- A stream of groups. -/
def join (B : ℕ) (gs : List (List ℕ)) : List ℕ := (gs.map (mark B)).flatten

@[simp] theorem join_cons (g : List ℕ) (gs : List (List ℕ)) :
    join B (g :: gs) = mark B g ++ join B gs := rfl

theorem join_ne_nil {g : List ℕ} {gs : List (List ℕ)} (hg : IsGroup B g) :
    join B (g :: gs) ≠ [] := by
  intro h
  have hlength := congrArg List.length h
  rw [join_cons, List.length_append, length_mark, List.length_nil] at hlength
  have hpos := hg.length_pos
  omega

/-! ## The shortest group -/

theorem digits_isGroup (hB : 1 < B) (n : ℕ) : IsGroup B (digits B n) := by
  rw [digits]
  split_ifs with hn
  · exact isGroup_singleton.mpr (by omega)
  · exact ⟨Nat.digits_ne_nil_iff_ne_zero.mpr hn, fun d hd => Nat.digits_lt_base hB hd⟩

@[simp] theorem ofDigits_digits (B n : ℕ) : Nat.ofDigits B (digits B n) = n := by
  rw [digits]
  split_ifs with hn
  · rw [hn, Nat.ofDigits_singleton]
  · exact Nat.ofDigits_digits B n

theorem digits_of_lt {n : ℕ} (h : n < B) : digits B n = [n] := by
  rw [digits]
  split_ifs with hn
  · rw [hn]
  · exact Nat.digits_of_lt B n hn h

theorem digits_of_le (hB : 1 < B) {n : ℕ} (h : B ≤ n) :
    digits B n = n % B :: digits B (n / B) := by
  have hq : n / B ≠ 0 := (Nat.div_pos h (by omega)).ne'
  rw [digits, if_neg (by omega), digits, if_neg hq, Nat.digits_def' hB (by omega)]

/-- So many digits are enough for the numbers below the power. -/
theorem length_digits_le_iff (hB : 1 < B) {n k : ℕ} (hk : 0 < k) :
    (digits B n).length ≤ k ↔ n < B ^ k := by
  rw [digits]
  split_ifs with hn
  · subst hn
    exact iff_of_true hk (Nat.pow_pos (by omega))
  · exact Nat.digits_length_le_iff hB n

/-- No group of the same number is shorter. -/
theorem length_digits_le (hB : 1 < B) {ds : List ℕ} (h : IsGroup B ds) :
    (digits B (Nat.ofDigits B ds)).length ≤ ds.length :=
  (length_digits_le_iff hB h.length_pos).mpr (Nat.ofDigits_lt_base_pow_length hB h.lt)

/-- A group that is no longer than the shortest one of its number is that one. -/
theorem digits_ofDigits (hB : 1 < B) {ds : List ℕ} (h : IsGroup B ds)
    (hle : ds.length ≤ (digits B (Nat.ofDigits B ds)).length) :
    digits B (Nat.ofDigits B ds) = ds :=
  Nat.ofDigits_inj_of_len_eq hB (le_antisymm (length_digits_le hB h) hle)
    (digits_isGroup hB _).lt h.lt (ofDigits_digits B _)

/-- The shortest groups of the numbers of a stream make the shortest stream. -/
theorem length_join_digits_le (hB : 1 < B) {gs : List (List ℕ)} (hgs : ∀ g ∈ gs, IsGroup B g) :
    (join B ((gs.map (Nat.ofDigits B)).map (digits B))).length ≤ (join B gs).length := by
  induction gs with
  | nil => exact le_rfl
  | cons g gs ih =>
    obtain ⟨hg, hgs⟩ := List.forall_mem_cons.mp hgs
    simp only [List.map_cons, join_cons, List.length_append, length_mark]
    exact Nat.add_le_add (length_digits_le hB hg) (ih hgs)

/-- A stream that is no longer consists of the shortest groups. -/
theorem join_digits_eq (hB : 1 < B) {gs : List (List ℕ)} (hgs : ∀ g ∈ gs, IsGroup B g)
    (hle : (join B gs).length ≤ (join B ((gs.map (Nat.ofDigits B)).map (digits B))).length) :
    (gs.map (Nat.ofDigits B)).map (digits B) = gs := by
  induction gs with
  | nil => rfl
  | cons g gs ih =>
    obtain ⟨hg, hgs⟩ := List.forall_mem_cons.mp hgs
    simp only [List.map_cons, join_cons, List.length_append, length_mark] at hle ⊢
    have hfirst := length_digits_le hB hg
    have hrest := length_join_digits_le hB hgs
    rw [digits_ofDigits hB hg (by omega), ih hgs (by omega)]

end StellarFlow.Foundation.Varint
