import StellarFlow.Vaults.GuardPause
import Mathlib.Data.List.DropRight

/-!
# Sampling and the armed guard

The buffer of a vault holds its nine latest samples, however old they are. The guard is armed
while the oldest of them is at least a window old. Samples beyond the capacity push that
reference out, and then the guard advises to hold until the samples have aged again.
-/
namespace StellarFlow.Vaults

open Foundation

theorem rtake_append_rtake {α : Type*} (n : ℕ) (l r : List α) :
    (l.rtake n ++ r).rtake n = (l ++ r).rtake n := by
  simp only [List.rtake, List.length_append, List.length_drop, List.drop_append, List.drop_drop]
  congr 2 <;> omega

theorem rtake_of_length_le {α : Type*} {n : ℕ} {l : List α} (h : l.length ≤ n) :
    l.rtake n = l := by
  rw [List.rtake, Nat.sub_eq_zero_of_le h, List.drop_zero]

theorem pushSample_eq_rtake {samples : List PriceSample} (h : samples.length ≤ maxPriceSamples)
    (sample : PriceSample) :
    pushSample samples sample = (samples ++ [sample]).rtake maxPriceSamples := by
  unfold pushSample
  split_ifs with hfull
  · have hone : (samples ++ [sample]).length - maxPriceSamples = 1 := by
      rw [List.length_append, List.length_singleton] at hfull ⊢
      omega
    rw [List.rtake, hone, List.drop_one]
  · exact (rtake_of_length_le (not_lt.mp hfull)).symm

theorem length_pushSample_le {samples : List PriceSample} (h : samples.length ≤ maxPriceSamples)
    (sample : PriceSample) : (pushSample samples sample).length ≤ maxPriceSamples := by
  unfold pushSample
  split_ifs with hfull
  · rw [List.length_tail, List.length_append, List.length_singleton]
    omega
  · exact not_lt.mp hfull

/-- Pushing samples one by one keeps the latest of all. -/
theorem foldl_pushSample {samples : List PriceSample} (h : samples.length ≤ maxPriceSamples)
    (new : List PriceSample) :
    new.foldl pushSample samples = (samples ++ new).rtake maxPriceSamples := by
  induction new generalizing samples with
  | nil => rw [List.append_nil, rtake_of_length_le h, List.foldl_nil]
  | cons sample new ih =>
    rw [List.foldl_cons, ih (length_pushSample_le h sample), pushSample_eq_rtake h,
      rtake_append_rtake, List.append_assoc, List.singleton_append]

/-! ## Recorded samples -/

/-- What an accepted call adds to the samples of a vault. -/
def newSamples {here : Address} (vault : AssetId) (i : GuardStep here) (h : GuardHistory) :
    List PriceSample :=
  match i.call, guardStep i h with
  | .recordPriceSample _ v price, .ok h' => if v = vault then [⟨price, h'.clock⟩] else []
  | _, _ => []

/-- The samples that a run adds to a vault, in their order. -/
def recorded {here : Address} (vault : AssetId) : GuardHistory → List (GuardStep here) →
    List PriceSample
  | _, [] => []
  | h, i :: run => newSamples vault i h ++ recorded vault (commit guardStep h i) run

def GuardStep.RecordsPrice {here : Address} (i : GuardStep here) : Prop :=
  ∃ keeper vault price, i.call = .recordPriceSample keeper vault price

/-- A history at the last call of a run or later. -/
def Reached (here : Address) (h : GuardHistory) : Prop :=
  h.clock < 2 ^ 64 ∧ ∃ tokens, ∃ pre : List (GuardStep here),
    (runAll guardStep (.fresh tokens) pre).state = h.state ∧
    (runAll guardStep (.fresh tokens) pre).clock ≤ h.clock

/-- The guard of a vault finds a reference at the given time. -/
def Armed (now : ℕ) (vault : AssetId) (s : GuardState) : Prop :=
  ∃ config, s.configs.lookup vault = some config ∧
    (findReference now config.windowSecs (s.readSamples vault)).isSome = true

def Breached (now : ℕ) (vault : AssetId) (s : GuardState) : Prop :=
  ∃ config e, s.configs.lookup vault = some config ∧
    evaluate now (s.readSamples vault) config = .ok e ∧ e.breached = true

section Samples

variable {here : Address} {h h' : GuardHistory} {i : GuardStep here} {run : List (GuardStep here)}
  {vault : AssetId} {config : CompoundingGuardConfig} {now later : ℕ} {s : GuardState}

/-- An accepted call pushes its new sample, if it has one. -/
theorem guardStep_readSamples (hstep : guardStep i h = .ok h') :
    h'.state.readSamples vault =
      (newSamples vault i h).foldl pushSample (h.state.readSamples vault) := by
  obtain ⟨_, _, hexec⟩ := guardStep_eq_ok hstep
  rw [newSamples, hstep]
  obtain ⟨elapsed, env, call⟩ := i
  rcases exec_guard_cases hexec with
    ⟨_, hsamples, _, hnot⟩ | ⟨v, config, samples, hr, he⟩
  · have hsame : h'.state.readSamples vault = h.state.readSamples vault := by
      rw [GuardState.readSamples, hsamples, GuardState.readSamples]
    cases call with
    | recordPriceSample keeper v price =>
      obtain ⟨r, hok⟩ := snd_map_eq_ok.mp hexec
      obtain ⟨config, hstored, _⟩ := recordPriceSample_eq_ok hok
      exact absurd (.record hstored) (hnot _ _ _)
    | _ => exact hsame
  · by_cases hv : vault = v
    · subst hv
      rw [he.samples_eq]
      cases hr with
      | record hstored => simp
      | _ => rfl
    · rw [he.samples_others vault hv]
      cases hr with
      | record hstored => simp [Ne.symm hv]
      | _ => rfl

theorem newSamples_of_error {e : Fault} (hstep : guardStep i h = .error e) :
    newSamples vault i h = [] := by
  rw [newSamples, hstep]
  split
  · next hok => cases hok
  · rfl

theorem runAll_readSamples : (runAll guardStep h run).state.readSamples vault =
    (recorded vault h run).foldl pushSample (h.state.readSamples vault) := by
  induction run generalizing h with
  | nil => rfl
  | cons i run ih =>
    rw [runAll_cons, ih, recorded, List.foldl_append]
    congr 1
    cases hstep : guardStep i h with
    | error e => rw [commit_of_error hstep, newSamples_of_error hstep, List.foldl_nil]
    | ok h' => rw [commit_of_ok hstep, guardStep_readSamples hstep]

/-- Recording prices leaves the configurations alone. -/
theorem runAll_configs (hrun : ∀ i ∈ run, i.RecordsPrice) :
    (runAll guardStep h run).state.configs.lookup vault = h.state.configs.lookup vault := by
  induction run generalizing h with
  | nil => rfl
  | cons i run ih =>
    rw [runAll_cons, ih fun j hj => hrun j (List.mem_cons_of_mem i hj)]
    refine commit_induction
      (P := fun h' : GuardHistory => h'.state.configs.lookup vault = h.state.configs.lookup vault)
      rfl fun h' hstep => ?_
    obtain ⟨keeper, v, price, hcall⟩ := hrun i List.mem_cons_self
    obtain ⟨_, _, hexec⟩ := guardStep_eq_ok hstep
    rcases exec_guard_cases hexec with ⟨hconfigs, _⟩ | ⟨v', config, samples, hr, he⟩
    · rw [hconfigs]
    · by_cases hv : vault = v'
      · rw [hcall] at hr
        cases hr with
        | record hstored => rw [hv, he.config_eq, hstored]
      · exact he.configs_others vault hv

theorem Reached.sound (hr : Reached here h) : h.Sound := by
  obtain ⟨hlt, tokens, pre, hstate, hle⟩ := hr
  have hs : (runAll guardStep (.fresh tokens) pre).Sound :=
    runAll_induction (fun _ _ _ hs hstep => guardStep_sound hs hstep) (.fresh tokens) pre
  refine ⟨hlt, ?_, fun vault sample hmem => ?_, fun vault hp => ?_⟩
  · rw [← hstate]
    exact hs.ordered
  · rw [← hstate] at hmem
    exact (hs.observed vault sample hmem).trans hle
  · rw [← hstate] at hp ⊢
    obtain ⟨config, hconfig, haged, hfell⟩ := hs.breached vault hp
    exact ⟨config, hconfig, haged.mono hle, hfell⟩

theorem Reached.buffered (hr : Reached here h) (vault : AssetId) :
    (h.state.readSamples vault).length ≤ maxPriceSamples := by
  obtain ⟨_, tokens, pre, hstate, _⟩ := hr
  have hfresh : ((GuardHistory.fresh tokens).state.readSamples vault).length ≤ maxPriceSamples :=
    Nat.zero_le _
  rw [← hstate, runAll_readSamples, foldl_pushSample hfresh, List.rtake, List.length_drop]
  omega

theorem armed_iff (now : ℕ) (hs : Ordered (s.readSamples vault))
    (hconfig : s.configs.lookup vault = some config) :
    Armed now vault s ↔ OldestAged now config.windowSecs (s.readSamples vault) := by
  rw [← findReference_isSome_iff hs]
  constructor
  · rintro ⟨config', hconfig', harmed⟩
    rwa [Option.some.inj (hconfig.symm.trans hconfig')]
  · exact fun harmed => ⟨config, hconfig, harmed⟩

theorem breached_iff (now : ℕ) (hs : Ordered (s.readSamples vault))
    (hconfig : s.configs.lookup vault = some config) :
    Breached now vault s ↔ OldestAged now config.windowSecs (s.readSamples vault) ∧
      FellBelow config.maxDrawdownBps (s.readSamples vault) := by
  constructor
  · rintro ⟨config', e, hconfig', he, hbreached⟩
    rw [Option.some.inj (hconfig.symm.trans hconfig')]
    exact (evaluate_eq_ok hs he).2.mp hbreached
  · rintro ⟨haged, hfell⟩
    obtain ⟨e, he⟩ := evaluate_of_fellBelow hs hfell now
    exact ⟨config, e, hconfig, he, (evaluate_eq_ok hs he).2.mpr ⟨haged, hfell⟩⟩

/-- Without a reference the strategy neither reinvests nor converts. -/
theorem strategyAction_of_not_armed (hconfig : s.configs.lookup vault = some config)
    (hnot : ¬ Armed now vault s) : strategyAction now vault s = .ok .hold := by
  have hnone : findReference now config.windowSecs (s.readSamples vault) = none := by
    by_contra href
    exact hnot ⟨config, hconfig, Option.isSome_iff_ne_none.mpr href⟩
  cases hlast : (s.readSamples vault).getLast? with
  | none =>
    have he : evaluate now (s.readSamples vault) config = .ok .unarmed := by
      rw [evaluate, hlast]
      rfl
    rw [strategyAction_of_config hconfig he]
    rfl
  | some current =>
    have he : evaluate now (s.readSamples vault) config =
        .ok { Evaluation.unarmed with currentPrice := current.price } := by
      simp only [evaluate, hlast, hnone]
      rfl
    rw [strategyAction_of_config hconfig he]
    rfl

theorem OldestAged.append {windowSecs : ℕ} {old new : List PriceSample}
    (h : OldestAged now windowSecs old) (hle : now ≤ later) :
    OldestAged later windowSecs (old ++ new) := by
  obtain ⟨oldest, hhead, haged⟩ := h.mono hle
  exact ⟨oldest, by rw [List.head?_append, hhead, Option.some_or], haged⟩

/-- Samples at the newest price do not change what the newest price has lost. -/
theorem FellBelow.append {maxDrawdownBps : ℤ} {old new : List PriceSample}
    (h : FellBelow maxDrawdownBps old)
    (hsame : ∀ newest ∈ old.getLast?, ∀ sample ∈ new, sample.price = newest.price) :
    FellBelow maxDrawdownBps (old ++ new) := by
  obtain ⟨oldest, newest, hhead, hlast, hexceeded⟩ := h
  have hhead' : (old ++ new).head? = some oldest := by
    rw [List.head?_append, hhead, Option.some_or]
  cases hnew : new.getLast? with
  | none =>
    refine ⟨oldest, newest, hhead', ?_, hexceeded⟩
    rw [List.getLast?_append, hnew, Option.none_or, hlast]
  | some sample =>
    refine ⟨oldest, sample, hhead', ?_, ?_⟩
    · rw [List.getLast?_append, hnew, Option.some_or]
    · rwa [hsame newest hlast sample (List.mem_of_getLast? hnew)]

/-- After any samples at the time of an armed guard or later, the guard is armed exactly when
the oldest of the latest nine samples is a window old. It stays armed while the samples fit in
the buffer, where the newest price keeps a breach, and otherwise the advice is to hold. -/
theorem armed_after_samples (hr : Reached here h) (hrun : ∀ i ∈ run, i.RecordsPrice)
    (hconfig : h.state.configs.lookup vault = some config) (harmed : Armed h.clock vault h.state)
    (hlater : (runAll guardStep h run).clock ≤ later) :
    let samples := h.state.readSamples vault ++ recorded vault h run
    let s := (runAll guardStep h run).state
    (Armed later vault s ↔
      OldestAged later config.windowSecs (samples.rtake maxPriceSamples)) ∧
    (samples.length ≤ maxPriceSamples → Armed later vault s) ∧
    (samples.length ≤ maxPriceSamples →
      (∀ newest ∈ (h.state.readSamples vault).getLast?, ∀ sample ∈ recorded vault h run,
        sample.price = newest.price) →
      Breached h.clock vault h.state → Breached later vault s) ∧
    (¬ Armed later vault s → strategyAction later vault s = .ok .hold) := by
  intro samples s
  have hs : (runAll guardStep h run).Sound :=
    runAll_induction (fun _ _ _ hs hstep => guardStep_sound hs hstep) hr.sound run
  have hclock : h.clock ≤ later := by
    refine le_trans ?_ hlater
    exact runAll_induction (P := fun h' : GuardHistory => h.clock ≤ h'.clock)
      (fun _ _ _ hle hstep => hle.trans (by rw [(guardStep_eq_ok hstep).1]; omega)) le_rfl run
  have hretained : s.readSamples vault = samples.rtake maxPriceSamples := by
    rw [runAll_readSamples, foldl_pushSample (hr.buffered vault)]
  have hstored : s.configs.lookup vault = some config := by rw [runAll_configs hrun, hconfig]
  have hord := hs.ordered vault
  have hbefore := (armed_iff h.clock (hr.sound.ordered vault) hconfig).mp harmed
  have hiff := armed_iff later hord hstored
  refine ⟨?_, fun hfits => ?_, fun hfits hsame hbreached => ?_, strategyAction_of_not_armed hstored⟩
  · rw [← hretained]
    exact hiff
  · rw [hiff, hretained, rtake_of_length_le hfits]
    exact hbefore.append hclock
  · have hfell := ((breached_iff h.clock (hr.sound.ordered vault) hconfig).mp hbreached).2
    rw [breached_iff later hord hstored, hretained, rtake_of_length_le hfits]
    exact ⟨hbefore.append hclock, hfell.append hsame⟩

end Samples

/-- The price halves within seven days. -/
def halvedWeekRun : List (GuardStep ⟨0⟩) :=
  [guardCall 1000 (.configureGuard ⟨9⟩ 5 ⟨1⟩ ⟨2⟩ 2000 604800),
   guardCall 0 (.recordPriceSample ⟨3⟩ 5 100), guardCall 604800 (.recordPriceSample ⟨3⟩ 5 50)]

def sampleCall (price : ℤ) : GuardStep ⟨0⟩ := guardCall 0 (.recordPriceSample ⟨4⟩ 5 price)

def halvedWeek : GuardHistory := runAll guardStep (.fresh (fun _ _ => 0)) halvedWeekRun

/-- One more sample at the same price leaves the guard armed and in its breach. -/
theorem halvedWeek_one_sample :
    Armed 605900 5 (runAll guardStep halvedWeek [sampleCall 50]).state ∧
    Breached 605900 5 (runAll guardStep halvedWeek [sampleCall 50]).state := by
  have hr : Reached ⟨0⟩ halvedWeek :=
    ⟨by decide +kernel, fun _ _ => 0, halvedWeekRun, rfl, le_rfl⟩
  have hconfig : halvedWeek.state.configs.lookup 5 = some ⟨5, ⟨1⟩, ⟨2⟩, 2000, 604800⟩ := by
    decide +kernel
  have harmed : Armed halvedWeek.clock 5 halvedWeek.state := ⟨_, hconfig, by decide +kernel⟩
  have hbreached : Breached halvedWeek.clock 5 halvedWeek.state :=
    ⟨_, ⟨true, 50, 100, 604800, -5000, true⟩, hconfig, by decide +kernel, rfl⟩
  have hrun : ∀ i ∈ [sampleCall 50], i.RecordsPrice := by
    intro i hi
    exact ⟨⟨4⟩, 5, 50, by rw [List.mem_singleton.mp hi]; rfl⟩
  have hlater : (runAll guardStep halvedWeek [sampleCall 50]).clock ≤ 605900 := by
    decide +kernel
  have hafter := armed_after_samples hr hrun hconfig harmed hlater
  exact ⟨hafter.2.1 (by decide +kernel), hafter.2.2.1 (by decide +kernel) (by decide +kernel)
    hbreached⟩

/-- Nine more samples at the same price and time disarm the guard and resume compounding. -/
theorem halvedWeek_nine_samples :
    Armed 605800 5 halvedWeek.state ∧ Breached 605800 5 halvedWeek.state ∧
    requireCompoundingAllowed 5 halvedWeek.state =
      .error (Fault.error .yieldCompoundingPaused) ∧
    ¬ Armed 605800 5 (runAll guardStep halvedWeek (List.replicate 9 (sampleCall 50))).state ∧
    ¬ Breached 605800 5 (runAll guardStep halvedWeek (List.replicate 9 (sampleCall 50))).state ∧
    requireCompoundingAllowed 5
      (runAll guardStep halvedWeek (List.replicate 9 (sampleCall 50))).state = .ok () := by
  have hconfig : halvedWeek.state.configs.lookup 5 = some ⟨5, ⟨1⟩, ⟨2⟩, 2000, 604800⟩ := by
    decide +kernel
  have hconfig' : (runAll guardStep halvedWeek
      (List.replicate 9 (sampleCall 50))).state.configs.lookup 5 =
      some ⟨5, ⟨1⟩, ⟨2⟩, 2000, 604800⟩ := by
    decide +kernel
  have harmed : findReference 605800 604800 ((runAll guardStep halvedWeek
      (List.replicate 9 (sampleCall 50))).state.readSamples 5) = none := by
    decide +kernel
  have hevaluated : evaluate 605800 ((runAll guardStep halvedWeek
      (List.replicate 9 (sampleCall 50))).state.readSamples 5) ⟨5, ⟨1⟩, ⟨2⟩, 2000, 604800⟩ =
      .ok { Evaluation.unarmed with currentPrice := 50 } := by
    decide +kernel
  refine ⟨⟨_, hconfig, by decide +kernel⟩,
    ⟨_, ⟨true, 50, 100, 604800, -5000, true⟩, hconfig, by decide +kernel, rfl⟩,
    requireCompoundingAllowed_of_paused (by decide +kernel), ?_, ?_,
    requireCompoundingAllowed_of_running (by decide +kernel)⟩
  · rintro ⟨config, hstored, h⟩
    rw [← Option.some.inj (hconfig'.symm.trans hstored), harmed] at h
    cases h
  · rintro ⟨config, e, hstored, he, h⟩
    rw [← Option.some.inj (hconfig'.symm.trans hstored), hevaluated] at he
    rw [← Except.ok.inj he] at h
    cases h

end StellarFlow.Vaults
