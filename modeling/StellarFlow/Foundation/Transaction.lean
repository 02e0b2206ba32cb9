import Mathlib.Tactic

/-!
# Runs of atomic calls

A call either succeeds with a new state or fails and leaves the state as it was.
A run is a list of calls. `Throughout` says that a predicate holds in every state
a run passes through, and `Along` that a condition holds for every call together
with the state it starts from. The last theorem turns an exact description of one
step into an exact description of whole runs.
-/
namespace StellarFlow.Foundation

universe u

variable {σ ι ε : Type*} (step : ι → σ → Except ε σ)

/-- Execute one call, rolling back when it fails. -/
def commit (s : σ) (i : ι) : σ :=
  match step i s with
  | .ok s' => s'
  | .error _ => s

def runAll (s : σ) (run : List ι) : σ := run.foldl (commit step) s

/-- The predicate holds in the first state and after every call of the run. -/
def Throughout (P : σ → Prop) : σ → List ι → Prop
  | s, [] => P s
  | s, i :: run => P s ∧ Throughout P (commit step s i) run

/-- Every call of the run meets the condition in the state it starts from. -/
def Along (C : σ → ι → Prop) : σ → List ι → Prop
  | _, [] => True
  | s, i :: run => C s i ∧ Along C (commit step s i) run

variable {step}

theorem commit_of_ok {s s' : σ} {i : ι} (h : step i s = .ok s') : commit step s i = s' := by
  simp [commit, h]

theorem commit_of_error {s : σ} {i : ι} {e : ε} (h : step i s = .error e) :
    commit step s i = s := by
  simp [commit, h]

/-- Whatever survives a successful call survives a committed one. -/
theorem commit_induction {s : σ} {i : ι} {P : σ → Prop} (h0 : P s)
    (hs : ∀ s', step i s = .ok s' → P s') : P (commit step s i) := by
  cases h : step i s with
  | error e => rwa [commit_of_error h]
  | ok s' =>
    rw [commit_of_ok h]
    exact hs s' h

/-- The same, exactly, for a condition that only concerns accepted calls. -/
theorem commit_iff_of_accepted {s : σ} {i : ι} {P : σ → Prop} {C : Prop} (h0 : P s)
    (hs : ∀ s', step i s = .ok s' → (P s' ↔ ((∃ s', step i s = .ok s') → C))) :
    P (commit step s i) ↔ ((∃ s', step i s = .ok s') → C) := by
  cases h : step i s with
  | error e =>
    rw [commit_of_error h]
    refine iff_of_true h0 ?_
    rintro ⟨s', hok⟩
    cases hok
  | ok s' =>
    rw [commit_of_ok h]
    exact h ▸ hs s' h

/-- The same, exactly, for a call that returns a value besides the new state. -/
theorem commit_iff_of_result {σ α : Type u} {ι ε : Type*} {step : ι → σ → Except ε σ} {s : σ}
    {i : ι} {x : Except ε (α × σ)} {P : σ → Prop} {C : Prop} (hstep : step i s = Prod.snd <$> x)
    (h0 : P s) (hs : ∀ r s', x = .ok (r, s') → (P s' ↔ C)) :
    P (commit step s i) ↔ ((∃ r, x = .ok r) → C) := by
  cases x with
  | error e =>
    rw [commit_of_error hstep]
    refine iff_of_true h0 ?_
    rintro ⟨r, h⟩
    cases h
  | ok r =>
    rw [commit_of_ok hstep, hs r.1 r.2 rfl]
    exact ⟨fun h _ => h, fun h => h ⟨r, rfl⟩⟩

@[simp] theorem runAll_nil (s : σ) : runAll step s [] = s := rfl

@[simp] theorem runAll_cons (s : σ) (i : ι) (run : List ι) :
    runAll step s (i :: run) = runAll step (commit step s i) run := rfl

theorem runAll_append (s : σ) (pre post : List ι) :
    runAll step s (pre ++ post) = runAll step (runAll step s pre) post :=
  List.foldl_append

/-- A predicate kept by every successful call holds at the end of every run. -/
theorem runAll_induction {P : σ → Prop} (hs : ∀ s i s', P s → step i s = .ok s' → P s')
    {s : σ} (h0 : P s) (run : List ι) : P (runAll step s run) := by
  induction run generalizing s with
  | nil => exact h0
  | cons i run ih => exact ih (commit_induction h0 fun s' h => hs s i s' h0 h)

theorem Throughout.head {P : σ → Prop} {s : σ} {run : List ι}
    (h : Throughout step P s run) : P s := by
  cases run with
  | nil => exact h
  | cons i run => exact h.1

theorem Throughout.last {P : σ → Prop} {s : σ} {run : List ι}
    (h : Throughout step P s run) : P (runAll step s run) := by
  induction run generalizing s with
  | nil => exact h
  | cons i run ih => exact ih h.2

theorem Throughout.imp {P Q : σ → Prop} (hpq : ∀ s, P s → Q s) {s : σ} {run : List ι}
    (h : Throughout step P s run) : Throughout step Q s run := by
  induction run generalizing s with
  | nil => exact hpq s h
  | cons i run ih => exact ⟨hpq s h.1, ih h.2⟩

theorem Along.last {C : σ → ι → Prop} {s : σ} {run : List ι} {i : ι}
    (h : Along step C s (run ++ [i])) : C (runAll step s run) i := by
  induction run generalizing s with
  | nil => exact h.1
  | cons j run ih => exact ih h.2

/-- If the condition on a call keeps the predicate, a run whose calls all meet the
condition never leaves it. -/
theorem throughout_of_along {P : σ → Prop} {C : σ → ι → Prop}
    (hs : ∀ s i s', P s → C s i → step i s = .ok s' → P s') {s : σ} (h0 : P s)
    {run : List ι} (hc : Along step C s run) : Throughout step P s run := by
  induction run generalizing s with
  | nil => exact h0
  | cons i run ih =>
    exact ⟨h0, ih (commit_induction h0 fun s' h => hs s i s' h0 hc.1 h) hc.2⟩

/-- What follows from an invariant holds in every state of a run. -/
theorem throughout_of_invariant {I P : σ → Prop}
    (hs : ∀ s i s', I s → step i s = .ok s' → I s') (hp : ∀ s, I s → P s) {s : σ} (h0 : I s)
    (run : List ι) : Throughout step P s run := by
  induction run generalizing s with
  | nil => exact hp s h0
  | cons i run ih => exact ⟨hp s h0, ih (commit_induction h0 fun s' h => hs s i s' h0 h)⟩

/-- A condition that every call meets under an invariant is met along every run. -/
theorem along_of_invariant {I : σ → Prop} {C : σ → ι → Prop}
    (hs : ∀ s i s', I s → step i s = .ok s' → I s') (hc : ∀ s i, I s → C s i) {s : σ} (h0 : I s)
    (run : List ι) : Along step C s run := by
  induction run generalizing s with
  | nil => trivial
  | cons i run ih => exact ⟨hc s i h0, ih (commit_induction h0 fun s' h => hs s i s' h0 h)⟩

/-- The same for an invariant that only survives calls with a condition of their own. -/
theorem along_of_along {I : σ → Prop} {C D : σ → ι → Prop}
    (hs : ∀ s i s', I s → C s i → step i s = .ok s' → I s') (hd : ∀ s i, I s → D s i) {s : σ}
    (h0 : I s) {run : List ι} (hc : Along step C s run) : Along step D s run := by
  induction run generalizing s with
  | nil => trivial
  | cons i run ih =>
    exact ⟨hd s i h0, ih (commit_induction h0 fun s' h => hs s i s' h0 hc.1 h) hc.2⟩

/-- Conditions that agree on every call from a state with the invariant agree on runs. -/
theorem along_congr {I : σ → Prop} {C D : σ → ι → Prop}
    (hinv : ∀ s i, I s → I (commit step s i)) (hs : ∀ s i, I s → (C s i ↔ D s i)) {s : σ}
    (h0 : I s) (run : List ι) : Along step C s run ↔ Along step D s run := by
  induction run generalizing s with
  | nil => exact Iff.rfl
  | cons i run ih => exact and_congr (hs s i h0) (ih (hinv s i h0))

/-- If, under an invariant, a call keeps the predicate exactly when it meets the condition,
then the predicate and what follows from it hold throughout a run exactly when every call of
the run meets the condition. The invariant only has to survive calls that start from the
predicate. -/
theorem throughout_and_iff_along {I P Q : σ → Prop} {C : σ → ι → Prop}
    (hinv : ∀ s i, I s → P s → I (commit step s i))
    (hs : ∀ s i, I s → P s → (P (commit step s i) ↔ C s i)) (hq : ∀ s, I s → P s → Q s) {s : σ}
    (h0 : I s) (hp : P s) (run : List ι) :
    Throughout step (fun s => P s ∧ Q s) s run ↔ Along step C s run := by
  induction run generalizing s with
  | nil => exact ⟨fun _ => trivial, fun _ => ⟨hp, hq s h0 hp⟩⟩
  | cons i run ih =>
    constructor
    · rintro ⟨_, ht⟩
      have hp' := ht.head.1
      exact ⟨(hs s i h0 hp).mp hp', (ih (hinv s i h0 hp) hp').mp ht⟩
    · rintro ⟨hc, ha⟩
      have hp' := (hs s i h0 hp).mpr hc
      exact ⟨⟨hp, hq s h0 hp⟩, (ih (hinv s i h0 hp) hp').mpr ha⟩

/-- The same without a consequence. -/
theorem throughout_iff_along {I P : σ → Prop} {C : σ → ι → Prop}
    (hinv : ∀ s i, I s → I (commit step s i))
    (hs : ∀ s i, I s → P s → (P (commit step s i) ↔ C s i)) {s : σ} (h0 : I s)
    (hp : P s) (run : List ι) : Throughout step P s run ↔ Along step C s run := by
  have hiff := throughout_and_iff_along (Q := fun _ => True) (fun s i h _ => hinv s i h) hs
    (fun _ _ _ => trivial) h0 hp run
  simpa only [and_true] using hiff

/-- The same for runs whose calls all meet an assumption. -/
theorem throughout_iff_along_of_along {I P : σ → Prop} {C D : σ → ι → Prop}
    (hinv : ∀ s i, I s → I (commit step s i))
    (hs : ∀ s i, I s → P s → D s i → (P (commit step s i) ↔ C s i)) {s : σ} (h0 : I s)
    (hp : P s) {run : List ι} (hd : Along step D s run) :
    Throughout step P s run ↔ Along step C s run := by
  induction run generalizing s with
  | nil => exact ⟨fun _ => trivial, fun _ => hp⟩
  | cons i run ih =>
    have hstep := hs s i h0 hp hd.1
    constructor
    · rintro ⟨_, ht⟩
      exact ⟨hstep.mp ht.head, (ih (hinv s i h0) ht.head hd.2).mp ht⟩
    · rintro ⟨hc, ha⟩
      have hp' := hstep.mpr hc
      exact ⟨hp, (ih (hinv s i h0) hp' hd.2).mpr ha⟩

/-- If, under an invariant, the predicate and a property of a call both hold after the call
exactly when it meets the condition, then both hold along a run exactly when every call does. -/
theorem throughout_and_along_iff {I P : σ → Prop} {R C : σ → ι → Prop}
    (hinv : ∀ s i, I s → I (commit step s i))
    (hs : ∀ s i, I s → P s → (P (commit step s i) ∧ R s i ↔ C s i)) {s : σ} (h0 : I s)
    (hp : P s) (run : List ι) :
    Throughout step P s run ∧ Along step R s run ↔ Along step C s run := by
  induction run generalizing s with
  | nil => exact ⟨fun _ => trivial, fun _ => ⟨hp, trivial⟩⟩
  | cons i run ih =>
    constructor
    · rintro ⟨⟨_, ht⟩, hr, ha⟩
      exact ⟨(hs s i h0 hp).mp ⟨ht.head, hr⟩, (ih (hinv s i h0) ht.head).mp ⟨ht, ha⟩⟩
    · rintro ⟨hc, ha⟩
      obtain ⟨hp', hr⟩ := (hs s i h0 hp).mpr hc
      obtain ⟨ht, har⟩ := (ih (hinv s i h0) hp').mpr ha
      exact ⟨⟨hp, ht⟩, hr, har⟩

/-- If an invariant survives the calls that meet the condition and every other call breaks the
predicate, then the predicate holds throughout a run exactly when every call meets it. -/
theorem throughout_iff_along_of_breaks {I P : σ → Prop} {C : σ → ι → Prop}
    (hp : ∀ s, I s → P s) (hkeep : ∀ s i, I s → C s i → I (commit step s i))
    (hbreak : ∀ s i, I s → ¬ C s i → ¬ P (commit step s i)) {s : σ} (h0 : I s) (run : List ι) :
    Throughout step P s run ↔ Along step C s run := by
  induction run generalizing s with
  | nil => exact ⟨fun _ => trivial, fun _ => hp s h0⟩
  | cons i run ih =>
    constructor
    · rintro ⟨_, ht⟩
      have hc : C s i := by
        by_contra hc
        exact hbreak s i h0 hc ht.head
      exact ⟨hc, (ih (hkeep s i h0 hc)).mp ht⟩
    · rintro ⟨hc, ha⟩
      exact ⟨hp s h0, (ih (hkeep s i h0 hc)).mpr ha⟩

/-- What holds after a run but not before it began to hold at some call, and has held in every
state since. -/
theorem exists_last_change {Q : σ → Prop} {s : σ} {run : List ι} (h0 : ¬ Q s)
    (h : Q (runAll step s run)) : ∃ pre i post, run = pre ++ i :: post ∧
      ¬ Q (runAll step s pre) ∧
      ∀ mid rest, post = mid ++ rest → Q (runAll step s (pre ++ i :: mid)) := by
  induction run using List.reverseRecOn with
  | nil => exact absurd h h0
  | append_singleton run i ih =>
    by_cases hbefore : Q (runAll step s run)
    · obtain ⟨pre, j, post, rfl, hnot, hsince⟩ := ih hbefore
      refine ⟨pre, j, post ++ [i], by simp, hnot, fun mid rest hpost => ?_⟩
      rcases List.eq_nil_or_concat rest with rfl | ⟨rest', k, rfl⟩
      · rw [List.append_nil] at hpost
        rwa [← hpost, ← List.cons_append, ← List.append_assoc]
      · rw [List.concat_eq_append, ← List.append_assoc] at hpost
        exact hsince mid rest' (List.append_inj' hpost rfl).1
    · refine ⟨run, i, [], rfl, hbefore, fun mid rest hpost => ?_⟩
      obtain ⟨rfl, rfl⟩ := List.append_eq_nil_iff.mp hpost.symm
      exact h

end StellarFlow.Foundation
