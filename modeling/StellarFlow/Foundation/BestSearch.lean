import StellarFlow.Foundation.Checked

/-!
# Searches that keep the best

A search looks at candidates one after the other and keeps the best result it has found. Pricing a
candidate may find nothing, and may also fail altogether, which ends the search. Nested loops visit
the union of what their bodies visit.
-/
namespace StellarFlow.Foundation

universe u

variable {ε P ι : Type*} {Q α : Type u} (value : Q → ℕ) (price : P → Except ε (Option Q))

/-- Nothing ranks below every result. -/
def rank : Option Q → ℕ
  | none => 0
  | some q => value q + 1

/-- A result takes the place of the best one only if it is better. -/
def improve (best : Option Q) : Option Q → Option Q
  | none => best
  | some q =>
    match best with
    | none => some q
    | some current => if value current < value q then some q else best

/-- The best of a start and the results of a set. -/
structure BestOf (start : Option Q) (S : Q → Prop) (best : Option Q) : Prop where
  start_le : rank value start ≤ rank value best
  lt : ∀ q, S q → value q < rank value best
  mem : best = start ∨ ∃ q, S q ∧ best = some q

/-- A part of a search, as a function of the best result before it. It fails only where a candidate
of its set does. -/
def Visits (f : Option Q → Except ε (Option Q)) (S : P → Prop) : Prop :=
  ∀ start, (∃ e, f start = .error e ∧ ∃ p, S p ∧ price p = .error e) ∨
    ∃ best, f start = .ok best ∧ (∀ p, S p → ∃ found, price p = .ok found) ∧
      BestOf value start (fun q => ∃ p, S p ∧ price p = .ok (some q)) best

variable {value price}

theorem BestOf.congr {start best : Option Q} {S T : Q → Prop} (h : BestOf value start S best)
    (hS : ∀ q, S q ↔ T q) : BestOf value start T best := by
  obtain rfl : S = T := funext fun q => propext (hS q)
  exact h

theorem BestOf.trans {a b c : Option Q} {S T : Q → Prop} (h : BestOf value a S b)
    (h' : BestOf value b T c) : BestOf value a (fun q => S q ∨ T q) c := by
  refine ⟨h.start_le.trans h'.start_le, fun q hq => ?_, ?_⟩
  · rcases hq with hS | hT
    · exact (h.lt q hS).trans_le h'.start_le
    · exact h'.lt q hT
  · rcases h'.mem with rfl | ⟨q, hq, rfl⟩
    · rcases h.mem with hb | ⟨q, hq, hb⟩
      · exact .inl hb
      · exact .inr ⟨q, .inl hq, hb⟩
    · exact .inr ⟨q, .inr hq, rfl⟩

theorem improve_bestOf (start found : Option Q) :
    BestOf value start (fun q => found = some q) (improve value start found) := by
  cases found with
  | none => exact ⟨le_rfl, by simp, .inl rfl⟩
  | some q =>
    cases start with
    | none => exact ⟨Nat.zero_le _, by rintro _ ⟨⟩; exact Nat.lt_succ_self _, .inr ⟨q, rfl, rfl⟩⟩
    | some current =>
      rw [improve]
      split_ifs with hlt
      · exact ⟨Nat.succ_le_succ hlt.le, by rintro _ ⟨⟩; exact Nat.lt_succ_self _,
          .inr ⟨q, rfl, rfl⟩⟩
      · exact ⟨le_rfl, by rintro _ ⟨⟩; exact Nat.lt_succ_of_le (not_lt.mp hlt), .inl rfl⟩

/-- The best of a search that starts with nothing. -/
theorem BestOf.of_none {S : Q → Prop} {best : Option Q} (h : BestOf value none S best) :
    (best = none ∧ ∀ q, ¬ S q) ∨ ∃ q, best = some q ∧ S q ∧ ∀ q', S q' → value q' ≤ value q := by
  rcases h.mem with rfl | ⟨q, hq, rfl⟩
  · exact .inl ⟨rfl, fun q hq => Nat.not_lt_zero _ (h.lt q hq)⟩
  · exact .inr ⟨q, rfl, hq, fun q' hq' => Nat.lt_succ_iff.mp (h.lt q' hq')⟩

section Parts

variable {f g : Option Q → Except ε (Option Q)} {S T : P → Prop}

theorem Visits.congr (h : Visits value price f S) (hS : ∀ p, S p ↔ T p) :
    Visits value price f T := by
  obtain rfl : S = T := funext fun p => propext (hS p)
  exact h

theorem visits_pure : Visits value price pure fun _ => False :=
  fun start => .inr ⟨start, rfl, fun _ h => h.elim,
    ⟨le_rfl, fun _ ⟨_, h, _⟩ => h.elim, .inl rfl⟩⟩

theorem visits_candidate (p : P) :
    Visits value price (fun best => improve value best <$> price p) (· = p) := by
  intro start
  cases hprice : price p with
  | error e => exact .inl ⟨e, rfl, p, rfl, hprice⟩
  | ok found =>
    refine .inr ⟨improve value start found, rfl, by rintro _ rfl; exact ⟨found, hprice⟩, ?_⟩
    refine (improve_bestOf start found).congr fun q => ?_
    constructor
    · rintro rfl
      exact ⟨p, rfl, hprice⟩
    · rintro ⟨_, rfl, hfound⟩
      exact Except.ok.inj (hprice.symm.trans hfound)

theorem Visits.bind (hf : Visits value price f S) (hg : Visits value price g T) :
    Visits value price (fun best => f best >>= g) fun p => S p ∨ T p := by
  intro start
  rcases hf start with ⟨e, herror, p, hp, hprice⟩ | ⟨middle, hok, hfound, hbest⟩
  · exact .inl ⟨e, by dsimp only; rw [herror]; rfl, p, .inl hp, hprice⟩
  · rcases hg middle with ⟨e, herror, p, hp, hprice⟩ | ⟨best, hok', hfound', hbest'⟩
    · exact .inl ⟨e, by dsimp only; rw [hok, ok_bind, herror], p, .inr hp, hprice⟩
    · refine .inr ⟨best, by dsimp only; rw [hok, ok_bind, hok'], ?_, ?_⟩
      · exact fun p hp => hp.elim (hfound p) (hfound' p)
      · exact (hbest.trans hbest').congr fun q => by simp only [or_and_right, exists_or]

theorem visits_foldlM {body : Option Q → ι → Except ε (Option Q)} {R : ι → P → Prop}
    {l : List ι} (h : ∀ i ∈ l, Visits value price (fun best => body best i) (R i)) :
    Visits value price (fun best => l.foldlM body best) fun p => ∃ i ∈ l, R i p := by
  induction l with
  | nil => exact visits_pure.congr (by simp)
  | cons i l ih =>
    have hrest := ih fun j hj => h j (List.mem_cons_of_mem _ hj)
    simp only [List.foldlM_cons]
    exact ((h i List.mem_cons_self).bind hrest).congr (by simp)

variable {c : Prop} [Decidable c]

/-- A candidate that is left out under a condition. -/
theorem Visits.unless (hf : ¬ c → Visits value price f S) :
    Visits value price (fun best => if c then pure best else f best) fun p => ¬ c ∧ S p := by
  by_cases hc : c
  · simp only [if_pos hc]
    exact visits_pure.congr (by simp [hc])
  · simp only [if_neg hc]
    exact (hf hc).congr (by simp [hc])

theorem Visits.when (hf : c → Visits value price f S) :
    Visits value price (fun best => if c then f best else pure best) fun p => c ∧ S p := by
  by_cases hc : c
  · simp only [if_pos hc]
    exact (hf hc).congr (by simp [hc])
  · simp only [if_neg hc]
    exact visits_pure.congr (by simp [hc])

/-- Candidates that go through something looked up first. -/
theorem Visits.lookup {o : Option α} {e : ε} {g : α → Option Q → Except ε (Option Q)}
    {R : α → P → Prop} (ho : o.isSome) (hg : ∀ a, Visits value price (g a) (R a)) :
    Visits value price (fun best => okOr o e >>= fun b => g b best)
      fun p => ∃ a, o = some a ∧ R a p := by
  obtain ⟨a, rfl⟩ := Option.isSome_iff_exists.mp ho
  exact (hg a).congr (by simp)

end Parts

end StellarFlow.Foundation
