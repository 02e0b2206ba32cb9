import StellarFlow.Foundation.Store
import StellarFlow.Foundation.Transaction

/-!
# The last write of a run

A cell of the state changes only in the calls that write it. What it holds after a run is what
the last of them wrote.
-/
namespace StellarFlow.Foundation

variable {σ ι ε α : Type*} {step : ι → σ → Except ε σ}

/-- Under an invariant, what a call writes into a cell is the next value of the cell, if it writes
at all. -/
structure WritesCell (step : ι → σ → Except ε σ) (I : σ → Prop) (cell : σ → Option α)
    (write : σ → ι → Option (Option α)) : Prop where
  keeps : ∀ s i, I s → I (commit step s i)
  cell_commit : ∀ s i, I s → cell (commit step s i) = (write s i).getD (cell s)

namespace WritesCell

variable {I : σ → Prop} {cell : σ → Option α} {write : σ → ι → Option (Option α)}

theorem keeps_runAll (h : WritesCell step I cell write) {s : σ} (hs : I s) (run : List ι) :
    I (runAll step s run) := by
  induction run generalizing s with
  | nil => exact hs
  | cons i run ih => exact ih (h.keeps s i hs)

theorem cell_append (h : WritesCell step I cell write) {s : σ} (hs : I s) (run : List ι) (i : ι) :
    cell (runAll step s (run ++ [i])) =
      (write (runAll step s run) i).getD (cell (runAll step s run)) := by
  rw [runAll_append, runAll_cons, runAll_nil]
  exact h.cell_commit _ i (h.keeps_runAll hs run)

/-- Whatever holds of a written value, and survives the calls that follow, holds at the end. -/
theorem runAll_induction (h : WritesCell step I cell write) {s : σ} (hs : I s)
    {P : Option α → Prop} {run : List ι} (h0 : P (cell s))
    (hwrite : ∀ pre i rest v, run = pre ++ i :: rest → write (runAll step s pre) i = some v → P v) :
    P (cell (runAll step s run)) := by
  induction run using List.reverseRecOn with
  | nil => exact h0
  | append_singleton run i ih =>
    rw [h.cell_append hs]
    cases hv : write (runAll step s run) i with
    | some v => exact hwrite run i [] v rfl hv
    | none =>
      exact ih fun pre j rest v hrun => hwrite pre j (rest ++ [i]) v (by simp [hrun])

/-- A cell that is empty at first holds a value exactly when the last call that wrote it wrote
that value. -/
theorem eq_some_iff (h : WritesCell step I cell write) {s : σ} (hs : I s) (h0 : cell s = none)
    {run : List ι} {a : α} : cell (runAll step s run) = some a ↔
      ∃ pre i post, run = pre ++ i :: post ∧ write (runAll step s pre) i = some (some a) ∧
        ∀ mid j rest, post = mid ++ j :: rest →
          write (runAll step s (pre ++ i :: mid)) j = none := by
  constructor
  · intro hcell
    induction run using List.reverseRecOn with
    | nil => cases h0.symm.trans hcell
    | append_singleton run i ih =>
      rw [h.cell_append hs] at hcell
      cases hwrite : write (runAll step s run) i with
      | some v =>
        rw [hwrite, Option.getD_some] at hcell
        refine ⟨run, i, [], rfl, hwrite.trans (congrArg some hcell), fun mid j rest hnil => ?_⟩
        simp at hnil
      | none =>
        rw [hwrite, Option.getD_none] at hcell
        obtain ⟨pre, j, post, rfl, hlast, hsince⟩ := ih hcell
        refine ⟨pre, j, post ++ [i], by simp, hlast, fun mid k rest hpost => ?_⟩
        rcases List.eq_nil_or_concat rest with rfl | ⟨rest, l, rfl⟩
        · obtain ⟨rfl, hk⟩ := List.append_inj' hpost rfl
          obtain rfl := List.singleton_injective hk
          exact hwrite
        · have hsame : post ++ [i] = (mid ++ k :: rest) ++ [l] := by simpa using hpost
          exact hsince mid k rest (List.append_inj' hsame rfl).1
  · rintro ⟨pre, i, post, rfl, hlast, hsince⟩
    have hsplit : pre ++ i :: post = (pre ++ [i]) ++ post := by simp
    rw [hsplit, runAll_append]
    apply h.runAll_induction (h.keeps_runAll hs _) (P := fun v => v = some a)
    · rw [h.cell_append hs, hlast, Option.getD_some]
    · intro mid j rest v hpost hv
      rw [← runAll_append] at hv
      have hnone := hsince mid j rest hpost
      rw [List.append_assoc, List.singleton_append, hnone] at hv
      cases hv

/-- It holds some value exactly when it was written and never emptied since. -/
theorem ne_none_iff (h : WritesCell step I cell write) {s : σ} (hs : I s) (h0 : cell s = none)
    {run : List ι} : cell (runAll step s run) ≠ none ↔
      ∃ pre i post a, run = pre ++ i :: post ∧ write (runAll step s pre) i = some (some a) ∧
        ∀ mid j rest, post = mid ++ j :: rest →
          write (runAll step s (pre ++ i :: mid)) j ≠ some none := by
  constructor
  · intro hcell
    obtain ⟨a, ha⟩ := Option.ne_none_iff_exists'.mp hcell
    obtain ⟨pre, i, post, hrun, hwrite, hsince⟩ := (h.eq_some_iff hs h0).mp ha
    refine ⟨pre, i, post, a, hrun, hwrite, fun mid j rest hpost => ?_⟩
    rw [hsince mid j rest hpost]
    exact (Option.some_ne_none _).symm
  · rintro ⟨pre, i, post, a, rfl, hlast, hsince⟩
    have hsplit : pre ++ i :: post = (pre ++ [i]) ++ post := by simp
    rw [hsplit, runAll_append]
    apply h.runAll_induction (h.keeps_runAll hs _) (P := fun v => v ≠ none)
    · rw [h.cell_append hs, hlast, Option.getD_some]
      exact Option.some_ne_none a
    · rintro mid j rest v hpost hv rfl
      rw [← runAll_append, List.append_assoc, List.singleton_append] at hv
      exact hsince mid j rest hpost hv

end WritesCell

/-- The last call of a run that does something, with what is known of it and the calls before. -/
def LastCall (step : ι → σ → Except ε σ) (s : σ) (does : σ → ι → Prop) (run : List ι)
    (P : List ι → ι → Prop) : Prop :=
  ∃ pre i post, run = pre ++ i :: post ∧ does (runAll step s pre) i ∧ P pre i ∧
    ∀ mid j rest, post = mid ++ j :: rest → ¬ does (runAll step s (pre ++ i :: mid)) j

theorem LastCall.congr {s : σ} {does : σ → ι → Prop} {run : List ι} {P Q : List ι → ι → Prop}
    (h : ∀ pre i, does (runAll step s pre) i → (P pre i ↔ Q pre i)) :
    LastCall step s does run P ↔ LastCall step s does run Q := by
  refine exists_congr fun pre => exists_congr fun i => exists_congr fun post =>
    and_congr_right fun _ => and_congr_right fun hdoes => and_congr_left fun _ => h pre i hdoes

/-- Where only certain calls change a cell, it holds what the last of them left in it. -/
theorem cell_eq_some_iff_lastCall {I : σ → Prop} (cell : σ → Option α) {does : σ → ι → Prop}
    (hkeeps : ∀ s i, I s → I (commit step s i))
    (hrest : ∀ s i, I s → ¬ does s i → cell (commit step s i) = cell s) {s : σ} (hs : I s)
    (h0 : cell s = none) {run : List ι} {a : α} : cell (runAll step s run) = some a ↔
      LastCall step s does run fun pre i => cell (commit step (runAll step s pre) i) = some a := by
  classical
  have hcell : WritesCell step I cell fun s i =>
      if does s i then some (cell (commit step s i)) else none := by
    refine ⟨hkeeps, fun s i hI => ?_⟩
    split_ifs with h
    · rw [Option.getD_some]
    · rw [Option.getD_none, hrest s i hI h]
  rw [hcell.eq_some_iff hs h0, LastCall]
  simp only [Option.ite_none_right_eq_some, Option.some.injEq, ite_eq_right_iff, reduceCtorEq,
    imp_false, and_assoc]

/-- Every accepted call leaves a table alone or writes down one entry of it. -/
def WritesEntry {κ ν : Type*} [DecidableEq κ] (step : ι → σ → Except ε σ) (table : σ → Store κ ν)
    (subject : ι → Option κ) (Writes : ι → σ → κ → ν → Prop) : Prop :=
  ∀ i s s', step i s = .ok s' → (subject i = none ∧ table s' = table s) ∨
    ∃ k v, subject i = some k ∧ Writes i s k v ∧ table s' = (table s).insert k v

namespace WritesEntry

variable {κ ν : Type*} [DecidableEq κ] {table : σ → Store κ ν} {subject : ι → Option κ}
  {Writes : ι → σ → κ → ν → Prop} {s : σ} {i : ι} {k : κ}

theorem lookup_commit (h : WritesEntry step table subject Writes)
    (htouch : (step i s).isOk = true ∧ subject i = some k) :
    ∃ v, Writes i s k v ∧ (table (commit step s i)).lookup k = some v := by
  obtain ⟨hok, hsubject⟩ := htouch
  cases hstep : step i s with
  | error e =>
    rw [hstep] at hok
    cases hok
  | ok s' =>
    rw [commit_of_ok hstep]
    rcases h i s s' hstep with ⟨hnone, _⟩ | ⟨k', v, hk', hwrites, htable⟩
    · cases hnone.symm.trans hsubject
    · obtain rfl := Option.some.inj (hk'.symm.trans hsubject)
      exact ⟨v, hwrites, by rw [htable, Store.lookup_insert_ite, if_pos rfl]⟩

theorem lookup_commit_of_not (h : WritesEntry step table subject Writes)
    (htouch : ¬ ((step i s).isOk = true ∧ subject i = some k)) :
    (table (commit step s i)).lookup k = (table s).lookup k := by
  cases hstep : step i s with
  | error e => rw [commit_of_error hstep]
  | ok s' =>
    rw [commit_of_ok hstep]
    rcases h i s s' hstep with ⟨_, htable⟩ | ⟨k', v, hk', _, htable⟩
    · rw [htable]
    · have hne : k ≠ k' := by
        rintro rfl
        exact htouch ⟨by rw [hstep]; rfl, hk'⟩
      rw [htable, Store.lookup_insert_ite, if_neg hne]

/-- An entry is as the last accepted call about it left it. -/
theorem lookup_eq_some_iff (h : WritesEntry step table subject Writes) {v : ν} {run : List ι}
    (h0 : (table s).lookup k = none) : (table (runAll step s run)).lookup k = some v ↔
      LastCall step s (fun s i => (step i s).isOk = true ∧ subject i = some k) run fun pre i =>
        (table (commit step (runAll step s pre) i)).lookup k = some v :=
  cell_eq_some_iff_lastCall (I := fun _ => True) (fun s => (table s).lookup k)
    (fun _ _ _ => trivial) (fun _ _ _ htouch => h.lookup_commit_of_not htouch) trivial h0

end WritesEntry

end StellarFlow.Foundation
