import StellarFlow.Host

/-!
# The rolling rate limit of the bridge

For each asset the amounts of the last day are stored with their times. A new amount is recorded
if the amounts of the last day and the new one stay below a cap; recording drops the entries
that are older. The history beside the store holds every amount that was ever recorded.
-/
namespace StellarFlow.Bridge

open Foundation

/-- The environment with the admin in the contract data, absent before `initialize`. -/
structure BridgeEnv (here : Address) extends Env here where
  admin : Option Address

def windowSeconds : ℕ := 24 * 60 * 60

inductive RateLimitAsset where
  | wrapped (assetCode : Symbol)
  | native (token : Address)
  deriving DecidableEq

structure MintWindowEntry where
  timestamp : ℕ
  amount : ℤ
  deriving DecidableEq

structure MintRateLimit where
  asset : RateLimitAsset
  maxRollingAmount : ℤ
  windowSeconds : ℕ
  deriving DecidableEq

structure RateLimits where
  caps : Store RateLimitAsset MintRateLimit
  mints : Store RateLimitAsset (List MintWindowEntry)

def RateLimits.empty : RateLimits := ⟨∅, ∅⟩

namespace RateLimits

def getLimit (asset : RateLimitAsset) (r : RateLimits) : Option MintRateLimit :=
  r.caps.lookup asset

/-- The cap in force: the configured one, or else the one that the caller passes. -/
def capFor (asset : RateLimitAsset) (fallbackCap : ℤ) (r : RateLimits) : ℤ :=
  ((r.getLimit asset).map MintRateLimit.maxRollingAmount).getD fallbackCap

def window (asset : RateLimitAsset) (r : RateLimits) : List MintWindowEntry :=
  (r.mints.lookup asset).getD []

end RateLimits

/-- The loop over the stored entries, with the entries that stay and their total. -/
def pruneEntries (cutoff : ℕ) :
    List MintWindowEntry → List MintWindowEntry → ℤ → Except Fault (List MintWindowEntry × ℤ)
  | [], pruned, rollingTotal => pure (pruned, rollingTotal)
  | entry :: entries, pruned, rollingTotal =>
    if cutoff < entry.timestamp then do
      let rollingTotal ← okOr (i128.check (rollingTotal + entry.amount))
        (Fault.error .mathOverflow)
      pruneEntries cutoff entries (pruned ++ [entry]) rollingTotal
    else pruneEntries cutoff entries pruned rollingTotal

section Calls

variable {here : Address} (env : BridgeEnv here)

def requireProtocolAdmin (caller : Address) : Except Fault Unit := do
  let admin ← okOr env.admin (Fault.error .notInitialized)
  failIf (admin ≠ caller) (Fault.error .notAdmin)
  env.requireAuth caller

def setLimit (admin : Address) (asset : RateLimitAsset) (maxRollingAmount : ℤ) (r : RateLimits) :
    Except Fault (MintRateLimit × RateLimits) := do
  requireProtocolAdmin env admin
  failIf (maxRollingAmount ≤ 0) (Fault.error .invalidBridgeRateLimit)
  let limit : MintRateLimit := ⟨asset, maxRollingAmount, windowSeconds⟩
  pure (limit, { r with caps := r.caps.insert asset limit })

def enforceAndRecord (asset : RateLimitAsset) (amount fallbackCap : ℤ) (r : RateLimits) :
    Except Fault RateLimits := do
  failIf (amount ≤ 0) (Fault.error .bridgeInvalidAmount)
  let cap := r.capFor asset fallbackCap
  failIf (cap ≤ 0) (Fault.error .invalidBridgeRateLimit)
  let cutoff := env.timestamp - windowSeconds
  let (pruned, rollingTotal) ← pruneEntries cutoff (r.window asset) [] 0
  let nextTotal ← okOr (i128.check (rollingTotal + amount)) (Fault.error .mathOverflow)
  failIf (cap < nextTotal) (Fault.error .bridgeRateLimitExceeded)
  pure { r with mints := r.mints.insert asset (pruned ++ [⟨env.timestamp, amount⟩]) }

end Calls

/-! ## What recording does -/

section Recording

variable {here : Address} {env : BridgeEnv here} {asset : RateLimitAsset} {amount fallbackCap : ℤ}
  {r r' : RateLimits} {cutoff : ℕ} {entries pruned kept : List MintWindowEntry} {total total' : ℤ}

/-- The entries after a cutoff. -/
def laterThan (cutoff : ℕ) (entries : List MintWindowEntry) : List MintWindowEntry :=
  entries.filter fun entry => cutoff < entry.timestamp

def totalAmount (entries : List MintWindowEntry) : ℤ := (entries.map MintWindowEntry.amount).sum

theorem pruneEntries_eq_ok (h : pruneEntries cutoff entries pruned total = .ok (kept, total')) :
    kept = pruned ++ laterThan cutoff entries ∧
      total' = total + totalAmount (laterThan cutoff entries) := by
  induction entries generalizing pruned total with
  | nil =>
    obtain ⟨rfl, rfl⟩ := Prod.mk.inj (Except.ok.inj h)
    simp [laterThan, totalAmount]
  | cons entry entries ih =>
    rw [pruneEntries] at h
    split_ifs at h with hlater
    · obtain ⟨sum, hsum, h⟩ := bind_eq_ok.mp h
      obtain ⟨-, rfl⟩ := IntRange.check_eq_some.mp (okOr_eq_ok.mp hsum)
      obtain ⟨rfl, rfl⟩ := ih h
      simp [laterThan, totalAmount, hlater, add_assoc]
    · obtain ⟨rfl, rfl⟩ := ih h
      simp [laterThan, hlater]

/-- A recorded amount fits below the cap together with the entries that stay. -/
theorem enforceAndRecord_eq_ok (h : enforceAndRecord env asset amount fallbackCap r = .ok r') :
    totalAmount (laterThan (env.timestamp - windowSeconds) (r.window asset)) + amount ≤
        r.capFor asset fallbackCap ∧
      r' = { r with
        mints := r.mints.insert asset
          (laterThan (env.timestamp - windowSeconds) (r.window asset) ++
            [⟨env.timestamp, amount⟩]) } := by
  rw [enforceAndRecord] at h
  obtain ⟨_, -, h⟩ := bind_eq_ok.mp h
  obtain ⟨_, -, h⟩ := bind_eq_ok.mp h
  obtain ⟨⟨pruned, total⟩, hprune, h⟩ := bind_eq_ok.mp h
  obtain ⟨next, hnext, h⟩ := bind_eq_ok.mp h
  obtain ⟨_, hcap, hwrite⟩ := bind_eq_ok.mp h
  obtain ⟨rfl, rfl⟩ := pruneEntries_eq_ok hprune
  obtain ⟨-, rfl⟩ := IntRange.check_eq_some.mp (okOr_eq_ok.mp hnext)
  rw [failIf_eq_ok, not_lt, zero_add] at hcap
  exact ⟨hcap, (pure_eq_ok.mp hwrite).symm⟩

theorem setLimit_eq_ok {admin : Address} {maxRollingAmount : ℤ} {limit : MintRateLimit}
    (h : setLimit env admin asset maxRollingAmount r = .ok (limit, r')) : r'.mints = r.mints := by
  rw [setLimit] at h
  obtain ⟨_, -, h⟩ := bind_eq_ok.mp h
  obtain ⟨_, -, h⟩ := bind_eq_ok.mp h
  obtain ⟨-, rfl⟩ := Prod.mk.inj (pure_eq_ok.mp h)
  rfl

theorem window_insert (asset' : RateLimitAsset) (entries : List MintWindowEntry) :
    RateLimits.window asset' { r with mints := r.mints.insert asset entries } =
      if asset' = asset then entries else r.window asset' := by
  rw [RateLimits.window, Store.lookup_insert_ite, RateLimits.window]
  split_ifs <;> rfl

/-- A recording changes no other window. -/
theorem window_of_enforceAndRecord
    (h : enforceAndRecord env asset amount fallbackCap r = .ok r') {other : RateLimitAsset}
    (hne : other ≠ asset) : r'.window other = r.window other := by
  obtain ⟨-, rfl⟩ := enforceAndRecord_eq_ok h
  rw [window_insert, if_neg hne]

theorem laterThan_laterThan {first second : ℕ} (hle : first ≤ second)
    (entries : List MintWindowEntry) :
    laterThan second (laterThan first entries) = laterThan second entries := by
  rw [laterThan, laterThan, List.filter_filter, laterThan]
  refine List.filter_congr fun entry _ => ?_
  rw [← Bool.decide_and, decide_eq_decide]
  exact and_iff_left_of_imp fun hlater => hle.trans_lt hlater

end Recording

/-! ## The history -/

/-- The store with the time and everything that was recorded, the oldest first. -/
structure RateHistory where
  limits : RateLimits
  now : ℕ
  recorded : List (RateLimitAsset × MintWindowEntry)

/-- Nothing recorded at the time of deployment. -/
def RateHistory.start (now : ℕ) : RateHistory := ⟨.empty, now, []⟩

def RateHistory.recordedFor (asset : RateLimitAsset) (h : RateHistory) : List MintWindowEntry :=
  (h.recorded.filter fun record => record.1 = asset).map Prod.snd

inductive RateLimitCall where
  | setLimit (admin : Address) (asset : RateLimitAsset) (maxRollingAmount : ℤ)
  | enforceAndRecord (asset : RateLimitAsset) (amount fallbackCap : ℤ)

/-- A call some seconds after the last accepted one. -/
structure RateStep (here : Address) where
  elapsed : ℕ
  env : BridgeEnv here
  call : RateLimitCall

section History

variable {here : Address}

def RateLimitCall.exec (env : BridgeEnv here) (r : RateLimits) :
    RateLimitCall → Except Fault RateLimits
  | setLimit admin asset maxRollingAmount =>
    Prod.snd <$> Bridge.setLimit env admin asset maxRollingAmount r
  | enforceAndRecord asset amount fallbackCap =>
    Bridge.enforceAndRecord env asset amount fallbackCap r

/-- What an accepted call records. -/
def RateLimitCall.records (now : ℕ) :
    RateLimitCall → List (RateLimitAsset × MintWindowEntry)
  | setLimit _ _ _ => []
  | enforceAndRecord asset amount _ => [(asset, ⟨now, amount⟩)]

def rateStep (i : RateStep here) (h : RateHistory) : Except Fault RateHistory := do
  let now := h.now + i.elapsed
  let limits ← i.call.exec { i.env with timestamp := now } h.limits
  pure ⟨limits, now, h.recorded ++ i.call.records now⟩

/-- The entries of the last day, in the half-open window that ends at the given time. -/
def countable (now : ℕ) (entries : List MintWindowEntry) : List MintWindowEntry :=
  entries.filter fun entry => now < entry.timestamp + windowSeconds ∧ entry.timestamp ≤ now

/-- Whatever counts now or later is still stored. -/
def KeepsCountable (h : RateHistory) : Prop :=
  ∀ asset now, h.now ≤ now →
    countable now (h.limits.window asset) = countable now (h.recordedFor asset)

/-- After a recording the amounts of the last day stay below the cap in force. -/
def WithinCap (h : RateHistory) (i : RateStep here) : Prop :=
  ∀ asset amount fallbackCap, i.call = .enforceAndRecord asset amount fallbackCap →
    ∀ h', rateStep i h = .ok h' →
      totalAmount (countable h'.now (h'.recordedFor asset)) ≤ h.limits.capFor asset fallbackCap

/-- A failed call leaves the stored windows as they were. -/
def KeepsWindows (h : RateHistory) (i : RateStep here) : Prop :=
  ∀ e, rateStep i h = .error e →
    ∀ asset, (commit rateStep h i).limits.window asset = h.limits.window asset

/-- The stored entries are those after a cutoff that no countable entry lies before. -/
structure WindowsKept (h : RateHistory) : Prop where
  positive : ∀ asset, ∀ entry ∈ h.recordedFor asset, 0 < entry.timestamp
  past : ∀ asset, ∀ entry ∈ h.recordedFor asset, entry.timestamp ≤ h.now
  stored : ∀ asset, ∃ cutoff ≤ h.now - windowSeconds,
    h.limits.window asset = laterThan cutoff (h.recordedFor asset)

variable {h h' : RateHistory} {i : RateStep here} {asset : RateLimitAsset}

/-- Dropping what is before the window changes nothing about it. -/
theorem countable_eq_laterThan {entries : List MintWindowEntry} {now : ℕ}
    (hpos : ∀ entry ∈ entries, 0 < entry.timestamp)
    (hpast : ∀ entry ∈ entries, entry.timestamp ≤ now) :
    countable now entries = laterThan (now - windowSeconds) entries := by
  refine List.filter_congr fun entry hentry => ?_
  have := hpos entry hentry
  have := hpast entry hentry
  rw [decide_eq_decide]
  unfold windowSeconds
  omega

theorem WindowsKept.keepsCountable (hk : WindowsKept h) : KeepsCountable h := by
  intro asset now hnow
  obtain ⟨cutoff, hle, hstored⟩ := hk.stored asset
  have hpast : ∀ entry ∈ h.recordedFor asset, entry.timestamp ≤ now :=
    fun entry hentry => (hk.past asset entry hentry).trans hnow
  have hsub : ∀ entry ∈ h.limits.window asset, entry ∈ h.recordedFor asset := by
    rw [hstored]
    exact fun entry hentry => List.mem_of_mem_filter hentry
  rw [countable_eq_laterThan (fun entry hentry => hk.positive asset entry (hsub entry hentry))
      (fun entry hentry => hpast entry (hsub entry hentry)),
    countable_eq_laterThan (hk.positive asset) hpast, hstored, laterThan_laterThan]
  exact hle.trans (Nat.sub_le_sub_right hnow _)

theorem rateStep_eq_ok (h0 : rateStep i h = .ok h') :
    ∃ limits, i.call.exec { i.env with timestamp := h.now + i.elapsed } h.limits = .ok limits ∧
      h' = ⟨limits, h.now + i.elapsed, h.recorded ++ i.call.records (h.now + i.elapsed)⟩ := by
  obtain ⟨limits, hexec, hpure⟩ := bind_eq_ok.mp h0
  exact ⟨limits, hexec, (pure_eq_ok.mp hpure).symm⟩

theorem recordedFor_append (h : RateHistory) (records : List (RateLimitAsset × MintWindowEntry))
    (limits : RateLimits) (now : ℕ) (asset : RateLimitAsset) :
    RateHistory.recordedFor asset ⟨limits, now, h.recorded ++ records⟩ =
      h.recordedFor asset ++ (records.filter fun record => record.1 = asset).map Prod.snd := by
  rw [RateHistory.recordedFor, List.filter_append, List.map_append, RateHistory.recordedFor]

/-- A successful call appends at most one entry, of the present. -/
theorem mem_recordedFor_step (h0 : rateStep i h = .ok h') {entry : MintWindowEntry}
    (hentry : entry ∈ h'.recordedFor asset) :
    entry ∈ h.recordedFor asset ∨ entry.timestamp = h'.now := by
  obtain ⟨limits, -, rfl⟩ := rateStep_eq_ok h0
  rw [recordedFor_append, List.mem_append] at hentry
  refine hentry.imp_right fun hnew => ?_
  obtain ⟨record, hrecord, rfl⟩ := List.mem_map.mp hnew
  cases hcall : i.call with
  | setLimit admin asset max =>
    rw [hcall] at hrecord
    exact absurd (List.mem_of_mem_filter hrecord) List.not_mem_nil
  | enforceAndRecord asset amount fallbackCap =>
    rw [hcall] at hrecord
    obtain rfl := List.mem_singleton.mp (List.mem_of_mem_filter hrecord)
    rfl

/-- What is stored for an asset after a successful call. -/
theorem window_step (h0 : rateStep i h = .ok h') (asset : RateLimitAsset) :
    (h'.limits.window asset = h.limits.window asset ∧ h'.recordedFor asset = h.recordedFor asset) ∨
      ∃ entry, entry.timestamp = h'.now ∧
        h'.limits.window asset =
          laterThan (h'.now - windowSeconds) (h.limits.window asset) ++ [entry] ∧
        h'.recordedFor asset = h.recordedFor asset ++ [entry] := by
  obtain ⟨limits, hexec, rfl⟩ := rateStep_eq_ok h0
  rw [recordedFor_append]
  cases hcall : i.call with
  | setLimit admin asset' max =>
    rw [hcall] at hexec
    obtain ⟨limit, hset⟩ := snd_map_eq_ok.mp hexec
    refine .inl ⟨?_, List.append_nil _⟩
    change RateLimits.window asset limits = _
    rw [RateLimits.window, setLimit_eq_ok hset, RateLimits.window]
  | enforceAndRecord asset' amount fallbackCap =>
    rw [hcall] at hexec
    obtain ⟨-, rfl⟩ := enforceAndRecord_eq_ok hexec
    rw [window_insert]
    by_cases hasset : asset = asset'
    · subst hasset
      refine .inr ⟨⟨h.now + i.elapsed, amount⟩, rfl, if_pos rfl, ?_⟩
      simp [RateLimitCall.records]
    · refine .inl ⟨if_neg hasset, ?_⟩
      simp [RateLimitCall.records, Ne.symm hasset]

theorem WindowsKept.start (now : ℕ) : WindowsKept (.start now) where
  positive _ _ hentry := absurd hentry List.not_mem_nil
  past _ _ hentry := absurd hentry List.not_mem_nil
  stored _ := ⟨0, Nat.zero_le _, rfl⟩

theorem WindowsKept.step (hk : WindowsKept h) (hnow : 0 < h.now) (h0 : rateStep i h = .ok h') :
    WindowsKept h' := by
  have hle : h.now ≤ h'.now := by
    obtain ⟨limits, -, rfl⟩ := rateStep_eq_ok h0
    exact Nat.le_add_right _ _
  refine ⟨fun asset entry hentry => ?_, fun asset entry hentry => ?_, fun asset => ?_⟩
  · obtain hold | hnew := mem_recordedFor_step h0 hentry
    · exact hk.positive asset entry hold
    · omega
  · obtain hold | hnew := mem_recordedFor_step h0 hentry
    · exact (hk.past asset entry hold).trans hle
    · exact hnew.le
  · obtain ⟨cutoff, hcut, hstored⟩ := hk.stored asset
    have hcut' : cutoff ≤ h'.now - windowSeconds := hcut.trans (Nat.sub_le_sub_right hle _)
    obtain ⟨hwindow, hrecorded⟩ | ⟨entry, htime, hwindow, hrecorded⟩ := window_step h0 asset
    · exact ⟨cutoff, hcut', by rw [hwindow, hrecorded, hstored]⟩
    · refine ⟨h'.now - windowSeconds, le_rfl, ?_⟩
      have hcounts : h'.now - windowSeconds < entry.timestamp := by
        unfold windowSeconds
        omega
      rw [hwindow, hrecorded, hstored, laterThan_laterThan hcut', laterThan, laterThan,
        List.filter_append]
      simp [hcounts]

theorem totalAmount_append (first second : List MintWindowEntry) :
    totalAmount (first ++ second) = totalAmount first + totalAmount second := by
  rw [totalAmount, List.map_append, List.sum_append, totalAmount, totalAmount]

theorem WindowsKept.countable_eq (hk : WindowsKept h) (asset : RateLimitAsset) :
    countable h.now (h.recordedFor asset) =
      laterThan (h.now - windowSeconds) (h.limits.window asset) := by
  obtain ⟨cutoff, hcut, hstored⟩ := hk.stored asset
  rw [countable_eq_laterThan (hk.positive asset) (hk.past asset), hstored,
    laterThan_laterThan hcut]

/-- A recording leaves the amounts of the last day below the cap. -/
theorem WindowsKept.withinCap (hk : WindowsKept h) (hnow : 0 < h.now) : WithinCap h i := by
  intro asset amount fallbackCap hcall h' h0
  have hk' := hk.step hnow h0
  obtain ⟨limits, hexec, rfl⟩ := rateStep_eq_ok h0
  rw [hcall] at hexec
  obtain ⟨hcap, rfl⟩ := enforceAndRecord_eq_ok hexec
  rw [hk'.countable_eq]
  have hcounts : h.now + i.elapsed - windowSeconds < h.now + i.elapsed := by
    unfold windowSeconds
    omega
  have hwindow : laterThan (h.now + i.elapsed - windowSeconds)
      (laterThan (h.now + i.elapsed - windowSeconds) (h.limits.window asset) ++
        [⟨h.now + i.elapsed, amount⟩]) =
      laterThan (h.now + i.elapsed - windowSeconds) (h.limits.window asset) ++
        [⟨h.now + i.elapsed, amount⟩] := by
    rw [laterThan, List.filter_append, ← laterThan, laterThan_laterThan le_rfl]
    simp [hcounts]
  rw [window_insert, if_pos rfl, hwindow, totalAmount_append]
  simpa [totalAmount] using hcap

theorem rateStep_error (h : RateHistory) (i : RateStep here) : KeepsWindows h i := by
  intro e herror asset
  rw [commit_of_error herror]

/-- From a positive time on no countable entry is ever lost, every recording leaves the amounts
of the last day below the cap in force, and a failed call changes no window. -/
theorem rateLimit_throughout {now : ℕ} (hnow : 0 < now) (run : List (RateStep here)) :
    Throughout rateStep KeepsCountable (.start now) run ∧
      Along rateStep WithinCap (.start now) run ∧ Along rateStep KeepsWindows (.start now) run := by
  have hstep : ∀ h (i : RateStep here) h', WindowsKept h ∧ 0 < h.now → rateStep i h = .ok h' →
      WindowsKept h' ∧ 0 < h'.now := by
    rintro h i h' ⟨hk, hpos⟩ h0
    refine ⟨hk.step hpos h0, ?_⟩
    obtain ⟨limits, -, rfl⟩ := rateStep_eq_ok h0
    exact Nat.add_pos_left hpos _
  have hstart : WindowsKept (.start now) ∧ 0 < now := ⟨.start now, hnow⟩
  exact ⟨throughout_of_invariant hstep (fun h hi => hi.1.keepsCountable) hstart run,
    along_of_invariant hstep (fun h i hi => hi.1.withinCap hi.2) hstart run,
    along_of_invariant hstep (fun h i _ => rateStep_error h i) hstart run⟩

end History

section Sample

def sampleBridgeEnv : BridgeEnv ⟨0⟩ := { Env.standard ⟨0⟩ 0 none with admin := some ⟨1⟩ }

/-- The second amount is too large on the same day and fits on the next one. -/
def sampleRateRun : List (RateStep ⟨0⟩) :=
  [⟨0, sampleBridgeEnv, .enforceAndRecord (.native ⟨7⟩) 60 100⟩,
    ⟨86399, sampleBridgeEnv, .enforceAndRecord (.native ⟨7⟩) 60 100⟩,
    ⟨86400, sampleBridgeEnv, .enforceAndRecord (.native ⟨7⟩) 60 100⟩]

theorem sampleRateRun_limited :
    Throughout rateStep KeepsCountable (.start 1) sampleRateRun ∧
      Along rateStep WithinCap (.start 1) sampleRateRun ∧
      Along rateStep KeepsWindows (.start 1) sampleRateRun :=
  rateLimit_throughout Nat.one_pos sampleRateRun

example : (runAll rateStep (.start 1) sampleRateRun).limits.window (.native ⟨7⟩) =
    [⟨86401, 60⟩] := by decide

end Sample

end StellarFlow.Bridge
