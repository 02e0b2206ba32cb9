import StellarFlow.Settlement.AnchorLedger

/-!
# How a pause ends

New collateral or a lowered minimum should be the only ways out of a pause. A settlement takes
the same amount from the collateral and from the volume. Below full cover that would lower the
ratio, but the collateral always covers the volume, so a settlement raises the ratio and can
lift it over the minimum.
-/
namespace StellarFlow.Settlement

open Foundation

/-- The book together with the anchors whose minimum was lowered since they were paused. -/
structure PauseHistory where
  book : AnchorBook
  lowered : AnchorKey → Bool

def PauseHistory.empty : PauseHistory := ⟨AnchorBook.empty, fun _ => false⟩

/-- The call sets a smaller minimum for the corridor of the anchor. -/
def Lowers (call : AnchorCall) (b : AnchorBook) (key : AnchorKey) : Bool :=
  match call with
  | .setMinCollateralRatioBps _ corridor minRatioBps =>
    corridor = key.2 ∧ minRatioBps < b.corridorMinRatioBps corridor
  | _ => false

/-- While an anchor is not paused there is no pause to count from. -/
def pauseStep {here : Address} (i : AnchorStep here) (h : PauseHistory) :
    Except Fault PauseHistory := do
  let book ← anchorStep i h.book
  pure ⟨book, fun key =>
    Lowers i.2 h.book key || (h.lowered key && (h.book.account key).paused)⟩

/-- A pause ends by a deposit for the anchor, or after the minimum was lowered since the pause;
a settlement never ends it. -/
def PauseEndsByCollateral {here : Address} (h : PauseHistory) (i : AnchorStep here) : Prop :=
  ∀ h', pauseStep i h = .ok h' → ∀ key : AnchorKey,
    (h.book.getAnchorState key.1 key.2).assignmentsPaused = true →
    (h'.book.getAnchorState key.1 key.2).assignmentsPaused = false →
    (∃ caller amount, i.2 = .depositCollateral caller key.1 key.2 amount) ∨
      h.lowered key = true ∧
        ∀ caller payoutId amount, i.2 ≠ .settleFiatPayout caller key.1 key.2 payoutId amount

/-- An accepted settlement of a paused anchor, times the excess of the minimum over full
backing, stays below the shortfall of the collateral. -/
def SettlesWithinShortfall {here : Address} (h : PauseHistory) (i : AnchorStep here) : Prop :=
  (∃ h', pauseStep i h = .ok h') →
    match i.2 with
    | .settleFiatPayout _ anchor corridor _ amount =>
      let state := h.book.getAnchorState anchor corridor
      let minRatioBps := h.book.corridorMinRatioBps corridor
      state.assignmentsPaused = true →
      amount * (minRatioBps - anchorBps) <
        minRatioBps * state.volumeUnsettled - state.collateralLocked * anchorBps
    | _ => True

section Pause

variable {here : Address} {i : AnchorStep here} {h h' : PauseHistory} {v : AnchorAccount}
  {minRatioBps amount payoutId : ℕ}

/-- A paused anchor whose minimum was not lowered lacks collateral. -/
structure PauseHistory.Sound (h : PauseHistory) : Prop where
  keyed : h.book.Keyed
  full : h.book.FullBacking
  lacking : ∀ key, (h.book.account key).paused = true → h.lowered key = false →
    ¬ (h.book.account key).Covers (h.book.corridorMinRatioBps key.2)

theorem PauseHistory.Sound.empty : PauseHistory.empty.Sound where
  keyed := AnchorBook.empty_keyed
  full := AnchorBook.empty_full
  lacking _ hp := by cases hp

theorem pauseStep_sound (hs : h.Sound) (hstep : pauseStep i h = .ok h') : h'.Sound := by
  simp only [pauseStep, bind_eq_ok, pure_eq_ok] at hstep
  obtain ⟨b', hstep, rfl⟩ := hstep
  obtain ⟨hkeyed, hfull⟩ := anchorStep_keyed_full hs.keyed hs.full hstep
  refine ⟨hkeyed, hfull, fun k hp hlow => ?_⟩
  simp only [Bool.or_eq_false_iff, Bool.and_eq_false_iff] at hlow
  rcases anchorStep_cases hs.keyed hstep with
    ⟨admin, corridor, m, hcall, _, rfl⟩ | ⟨key, v, _, _, ht⟩
  · have hp' : (h.book.account k).paused = true := hp
    have hlack := hs.lacking k hp' (hlow.2.resolve_right (by simp [hp']))
    -- The new minimum is not smaller, so it is not reached either.
    have hge : h.book.corridorMinRatioBps k.2 ≤
        (AnchorBook.corridorMinRatioBps
          { h.book with minRatios := h.book.minRatios.insert corridor m } k.2) := by
      simp only [AnchorBook.corridorMinRatioBps, Store.lookup_insert_ite]
      split_ifs with hc
      · have hnot := hlow.1
        simp only [Lowers, hcall, hc, true_and, decide_eq_false_iff_not, not_lt] at hnot
        rw [← hc] at hnot
        exact hnot
      · exact le_rfl
    exact fun hcov => hlack ((Nat.mul_le_mul_right _ hge).trans hcov)
  · have hmin : AnchorBook.corridorMinRatioBps b' k.2 = h.book.corridorMinRatioBps k.2 := by
      rw [AnchorBook.corridorMinRatioBps, ht.ratios, AnchorBook.corridorMinRatioBps]
    rw [hmin]
    by_cases hk : k = key
    · rw [hk] at hp ⊢
      rw [ht.account_eq] at hp ⊢
      exact of_decide_eq_true hp
    · rw [ht.others k hk] at hp ⊢
      exact hs.lacking k hp (hlow.2.resolve_right (by simp [hp]))

/-- A settlement leaves the collateral short exactly when it stays within the shortfall. -/
theorem settled_lacking_iff (payoutId : ℕ) (hm : anchorBps ≤ minRatioBps)
    (hvol : amount ≤ v.volume) (hlock : amount ≤ v.locked) :
    ¬ (v.settled payoutId amount).Covers minRatioBps ↔
      amount * (minRatioBps - anchorBps) < minRatioBps * v.volume - v.locked * anchorBps := by
  simp only [AnchorAccount.Covers, AnchorAccount.settled, not_le]
  have hleft : (v.locked - amount) * anchorBps = v.locked * anchorBps - amount * anchorBps :=
    Nat.sub_mul _ _ _
  have hright : minRatioBps * (v.volume - amount) =
      minRatioBps * v.volume - amount * minRatioBps := by
    rw [Nat.mul_sub, mul_comm minRatioBps amount]
  have hdiff : amount * (minRatioBps - anchorBps) =
      amount * minRatioBps - amount * anchorBps := Nat.mul_sub _ _ _
  have hl : amount * anchorBps ≤ v.locked * anchorBps := Nat.mul_le_mul_right _ hlock
  have hr : amount * minRatioBps ≤ minRatioBps * v.volume := by
    rw [mul_comm]
    exact Nat.mul_le_mul_left _ hvol
  have hb : amount * anchorBps ≤ amount * minRatioBps := Nat.mul_le_mul_left _ hm
  omega

/-- The flag of a booked account after the evaluation. -/
theorem AnchorBook.Touched.paused_eq {b b' : AnchorBook} {key : AnchorKey}
    (ht : b.Touched b' key v) : (b'.getAnchorState key.1 key.2).assignmentsPaused =
      decide (¬ v.Covers (b.corridorMinRatioBps key.2)) :=
  congrArg AnchorAccount.paused ht.account_eq

/-- A pause that an accepted call ends was ended as it should, if the call is not a settlement
beyond the shortfall. -/
theorem pauseEnds_of_within (hs : h.Sound) (hstep : pauseStep i h = .ok h')
    (hcond : SettlesWithinShortfall h i) (key : AnchorKey)
    (hp : (h.book.getAnchorState key.1 key.2).assignmentsPaused = true)
    (hp' : (h'.book.getAnchorState key.1 key.2).assignmentsPaused = false) :
    (∃ caller amount, i.2 = .depositCollateral caller key.1 key.2 amount) ∨
      h.lowered key = true ∧
        ∀ caller payoutId amount, i.2 ≠ .settleFiatPayout caller key.1 key.2 payoutId amount := by
  have hwithin := hcond ⟨h', hstep⟩
  simp only [pauseStep, bind_eq_ok, pure_eq_ok] at hstep
  obtain ⟨b', hstep, rfl⟩ := hstep
  obtain ⟨env, call⟩ := i
  rcases anchorStep_cases hs.keyed hstep with
    ⟨admin, corridor, m, _, _, rfl⟩ | ⟨key', v, hkey, hb, ht⟩
  · exact absurd (hp.symm.trans hp') (by simp)
  · by_cases hk : key = key'
    · subst hk
      have hcov : v.Covers (h.book.corridorMinRatioBps key.2) := by
        have heq := ht.paused_eq.symm.trans hp'
        exact not_not.mp (of_decide_eq_false heq)
      cases hb with
      | deposit =>
        obtain rfl := Option.some.inj hkey
        exact .inl ⟨_, _, rfl⟩
      | withdraw running _ => exact absurd (running.symm.trans hp) (by simp)
      | assign _ running _ => exact absurd (running.symm.trans hp) (by simp)
      | settle found exact_amount volume_le locked_le =>
        obtain rfl := Option.some.inj hkey
        exact absurd hcov ((settled_lacking_iff _ (hs.full _) volume_le locked_le).mpr (hwithin hp))
      | sync =>
        refine .inr ⟨?_, by simp⟩
        by_contra hlow
        exact hs.lacking key hp (by simpa using hlow) hcov
    · have hsame := congrArg AnchorAccount.paused (ht.others key hk)
      exact absurd (hp.symm.trans (hsame.symm.trans hp')) (by simp)

/-- A call ends pauses only as it should exactly when it is no settlement beyond the
shortfall. -/
theorem pauseEnds_iff (hs : h.Sound) (i : AnchorStep here) :
    PauseEndsByCollateral h i ↔ SettlesWithinShortfall h i := by
  constructor
  · rintro hends ⟨h', hres⟩
    have hstep := hres
    simp only [pauseStep, bind_eq_ok, pure_eq_ok] at hstep
    obtain ⟨b', hstep, rfl⟩ := hstep
    obtain ⟨env, call⟩ := i
    cases call with
    | settleFiatPayout caller anchor corridor payoutId amount =>
      intro hp
      obtain ⟨r, hsettle⟩ := snd_map_eq_ok.mp hstep
      obtain ⟨_, _, _, hvol, hlock, ht⟩ := settleFiatPayout_touched hs.keyed hsettle
      apply (settled_lacking_iff payoutId (hs.full corridor) hvol hlock).mp
      intro hcov
      -- The pause would end, and neither of the admitted ways applies.
      have hp' := ht.paused_eq.trans (decide_eq_false (not_not.mpr hcov))
      rcases hends _ hres (anchor, corridor) hp hp' with ⟨_, _, hdep⟩ | ⟨_, hnot⟩
      · cases hdep
      · exact hnot _ _ _ rfl
    | _ => trivial
  · intro hcond h' hstep key hp hp'
    exact pauseEnds_of_within hs hstep hcond key hp hp'

/-- In every run pauses end only by collateral or a lowered minimum exactly when no accepted
settlement of a paused anchor exceeds its shortfall. -/
theorem pauseEnds_along_iff (run : List (AnchorStep here)) :
    Along pauseStep PauseEndsByCollateral .empty run ↔
      Along pauseStep SettlesWithinShortfall .empty run :=
  along_congr (I := PauseHistory.Sound)
    (fun _ _ hs => commit_induction hs fun _ hstep => pauseStep_sound hs hstep)
    (fun _ i hs => pauseEnds_iff hs i) .empty run

/-- Everybody signs. -/
def anchorCall (call : AnchorCall) : AnchorStep ⟨0⟩ :=
  ({ Env.standard ⟨0⟩ 1 none with admin := some ⟨9⟩ }, call)

/-- The minimum rises above the ratio of an anchor, which is paused. -/
def pausedRun : List (AnchorStep ⟨0⟩) :=
  [anchorCall (.setMinCollateralRatioBps ⟨9⟩ 5 11000),
   anchorCall (.depositCollateral ⟨1⟩ ⟨2⟩ 5 1150),
   anchorCall (.assignFiatPayout ⟨1⟩ ⟨2⟩ 5 500), anchorCall (.assignFiatPayout ⟨1⟩ ⟨2⟩ 5 500),
   anchorCall (.setMinCollateralRatioBps ⟨9⟩ 5 12000), anchorCall (.syncAnchorRatio ⟨2⟩ 5)]

def settlingCall : AnchorStep ⟨0⟩ := anchorCall (.settleFiatPayout ⟨1⟩ ⟨2⟩ 5 1 500)

/-- Settling one of the payouts resumes the assignments. -/
theorem settlement_ends_pause :
    ((runAll pauseStep .empty pausedRun).book.getAnchorState ⟨2⟩ 5).assignmentsPaused = true ∧
    ((runAll pauseStep .empty (pausedRun ++ [settlingCall])).book.getAnchorState ⟨2⟩
      5).assignmentsPaused = false ∧
    ¬ Along pauseStep PauseEndsByCollateral .empty (pausedRun ++ [settlingCall]) := by
  have hpaused : ((runAll pauseStep .empty pausedRun).book.getAnchorState ⟨2⟩
      5).assignmentsPaused = true := by
    decide +kernel
  have hresumed : ((runAll pauseStep .empty (pausedRun ++ [settlingCall])).book.getAnchorState ⟨2⟩
      5).assignmentsPaused = false := by
    decide +kernel
  refine ⟨hpaused, hresumed, ?_⟩
  intro halong
  have hends : PauseEndsByCollateral (runAll pauseStep .empty pausedRun) settlingCall :=
    halong.last
  have hcommit : runAll pauseStep .empty (pausedRun ++ [settlingCall]) =
      commit pauseStep (runAll pauseStep .empty pausedRun) settlingCall :=
    runAll_append ..
  rw [hcommit] at hresumed
  clear hcommit halong
  generalize runAll pauseStep .empty pausedRun = h at *
  cases hstep : pauseStep settlingCall h with
  | error e =>
    rw [commit_of_error hstep, hpaused] at hresumed
    cases hresumed
  | ok h' =>
    rw [commit_of_ok hstep] at hresumed
    rcases hends h' hstep (⟨2⟩, 5) hpaused hresumed with ⟨_, _, hdep⟩ | ⟨_, hnot⟩
    · cases hdep
    · exact hnot _ _ _ rfl

end Pause

end StellarFlow.Settlement
