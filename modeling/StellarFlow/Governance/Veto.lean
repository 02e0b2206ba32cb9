import StellarFlow.Governance.Proposals

/-!
# Whether a veto is final

There is one slot for veto records, so the next veto drops the last one, and the emergency
override never looks at it. A veto therefore lasts exactly as long as no other proposal is vetoed
and nobody executes the vetoed one.
-/
namespace StellarFlow.Governance

open Foundation Admin

variable {here : Address}

abbrev GovernanceStep (here : Address) := GovernanceEnv here × GovernanceCall

/-- The store with the numbers of all proposals vetoed so far. -/
structure VetoHistory where
  store : GovernanceStore
  vetoed : Finset ℕ

/-- Only the recorded proposal has been vetoed. -/
def VetoHistory.start (g : GovernanceStore) : VetoHistory :=
  ⟨g, (g.veto.map ProposalVeto.proposalId).toFinset⟩

/-- The proposal that a call vetoes. -/
def GovernanceCall.vetoes : GovernanceCall → Finset ℕ
  | .vetoProposal _ proposalId _ => {proposalId}
  | _ => ∅

def vetoStep (i : GovernanceStep here) (h : VetoHistory) : Except Fault VetoHistory := do
  let store ← i.2.exec i.1 h.store
  pure ⟨store, i.2.vetoes ∪ h.vetoed⟩

/-- Every proposal vetoed so far counts as vetoed. -/
def VetoesStay (h : VetoHistory) : Prop :=
  ∀ proposalId ∈ h.vetoed, h.store.IsProposalVetoed proposalId

/-- A vetoed proposal is not executed. -/
def NoVetoedExecution (h : VetoHistory) (i : GovernanceStep here) : Prop :=
  ∀ executor proposalId, i.2 = .executeEmergencyOverride executor proposalId →
    proposalId ∈ h.vetoed → ∀ h', vetoStep i h ≠ .ok h'

/-- An accepted veto names the proposal on record, if there is one, and an accepted execution
names a proposal that does not count as vetoed. -/
def RespectsVeto (h : VetoHistory) (i : GovernanceStep here) : Prop :=
  (∃ h', vetoStep i h = .ok h') →
    match i.2 with
    | .vetoProposal _ proposalId _ =>
      ∀ record, h.store.veto = some record → record.proposalId = proposalId
    | .executeEmergencyOverride _ proposalId => ¬ h.store.IsProposalVetoed proposalId
    | _ => True

/-- The record is about a proposal that was vetoed. -/
def RecordVetoed (h : VetoHistory) : Prop :=
  ∀ record, h.store.veto = some record → record.proposalId ∈ h.vetoed

section Veto

variable {env : GovernanceEnv here} {call : GovernanceCall} {g g' : GovernanceStore}
  {h h' : VetoHistory} {i : GovernanceStep here} {proposalId : ℕ}

/-- Calls other than a veto leave the record as it is. -/
theorem exec_veto (h : call.exec env g = .ok g') (hcall : call.vetoes = ∅) : g'.veto = g.veto := by
  cases call with
  | submitGovernanceProposal proposer wasmHash =>
    obtain ⟨_, h⟩ := snd_map_eq_ok.mp h
    obtain ⟨_, _, rfl⟩ := submitGovernanceProposal_eq_ok h
    rfl
  | voteCancelGovernanceProposal voter proposalId sigExpiresAt =>
    obtain ⟨_, _, _, _, _, _, _, rfl⟩ := voteCancelGovernanceProposal_eq_ok h
    rfl
  | cancelGovernanceProposal canceller proposalId =>
    obtain ⟨_, _, rfl⟩ := cancelGovernanceProposal_eq_ok h
    rfl
  | setSecurityCouncil caller council =>
    obtain rfl := setSecurityCouncil_eq_ok h
    rfl
  | vetoProposal caller proposalId reason =>
    exact absurd hcall (Finset.singleton_ne_empty proposalId)
  | setEmergencyOverrideConfig caller emergencySigners thresholdBps enabled =>
    obtain rfl := setEmergencyOverrideConfig_eq_ok h
    rfl
  | voteEmergencyOverride signer proposalId =>
    obtain ⟨_, _, _, _, _, rfl⟩ := voteEmergencyOverride_eq_ok h
    rfl
  | executeEmergencyOverride executor proposalId =>
    obtain ⟨_, h⟩ := snd_map_eq_ok.mp h
    obtain ⟨_, _, _, _, _, rfl⟩ := executeEmergencyOverride_eq_ok h
    rfl

theorem vetoStep_eq_ok (h0 : vetoStep i h = .ok h') :
    i.2.exec i.1 h.store = .ok h'.store ∧ h'.vetoed = i.2.vetoes ∪ h.vetoed := by
  simp only [vetoStep, bind_eq_ok, pure_eq_ok] at h0
  obtain ⟨store, hexec, rfl⟩ := h0
  exact ⟨hexec, rfl⟩

/-- After a veto the record is about that proposal, otherwise it is the old one. -/
theorem vetoStep_record (h0 : vetoStep i h = .ok h') :
    (∃ caller proposalId reason record, i.2 = .vetoProposal caller proposalId reason ∧
      h'.store.veto = some record ∧ record.proposalId = proposalId ∧
      h'.vetoed = insert proposalId h.vetoed) ∨
    i.2.vetoes = ∅ ∧ h'.store.veto = h.store.veto ∧ h'.vetoed = h.vetoed := by
  obtain ⟨hexec, hvetoed⟩ := vetoStep_eq_ok h0
  by_cases hcall : i.2.vetoes = ∅
  · exact .inr ⟨hcall, exec_veto hexec hcall, by rw [hvetoed, hcall, Finset.empty_union]⟩
  · obtain ⟨env, call⟩ := i
    cases call with
    | vetoProposal caller proposalId reason =>
      obtain ⟨_, _, hstore⟩ := vetoProposal_eq_ok hexec
      exact .inl ⟨caller, proposalId, reason, _, rfl, by rw [hstore], rfl, hvetoed⟩
    | _ => exact absurd rfl hcall

theorem vetoStep_recordVetoed (hr : RecordVetoed h) (h0 : vetoStep i h = .ok h') :
    RecordVetoed h' := by
  rcases vetoStep_record h0 with ⟨_, proposalId, _, record, _, hveto, hid, hvetoed⟩ |
    ⟨_, hveto, hvetoed⟩
  · intro record' hrecord'
    obtain rfl := Option.some.inj (hveto.symm.trans hrecord')
    rw [hvetoed, hid]
    exact Finset.mem_insert_self proposalId _
  · intro record hrecord
    rw [hvetoed]
    exact hr record (hveto ▸ hrecord)

/-- While vetoes stay, a proposal counts as vetoed exactly if it was vetoed. -/
theorem isProposalVetoed_iff_mem (hr : RecordVetoed h) (hstay : VetoesStay h) :
    h.store.IsProposalVetoed proposalId ↔ proposalId ∈ h.vetoed := by
  refine ⟨fun hveto => ?_, hstay proposalId⟩
  obtain ⟨record, hrecord, rfl⟩ := GovernanceStore.isProposalVetoed_iff.mp hveto
  exact hr record hrecord

/-- A veto drops the record of every other proposal. -/
theorem vetoesStay_of_veto {record : ProposalVeto} (hr : RecordVetoed h) (hstay : VetoesStay h)
    (hveto : h'.store.veto = some record) (hid : record.proposalId = proposalId)
    (hvetoed : h'.vetoed = insert proposalId h.vetoed) :
    VetoesStay h' ↔ ∀ record, h.store.veto = some record → record.proposalId = proposalId := by
  have hiff : ∀ id, h'.store.IsProposalVetoed id ↔ id = proposalId := by
    intro id
    rw [GovernanceStore.isProposalVetoed_iff, hveto, ← hid]
    simp only [Option.some.injEq, exists_eq_left', eq_comm]
  constructor
  · intro hstay' old hold
    refine (hiff old.proposalId).mp (hstay' old.proposalId ?_)
    rw [hvetoed]
    exact Finset.mem_insert_of_mem (hr old hold)
  · intro hold id hmem
    rw [hiff]
    rw [hvetoed, Finset.mem_insert] at hmem
    rcases hmem with rfl | hmem
    · rfl
    · obtain ⟨old, hrecord, rfl⟩ := GovernanceStore.isProposalVetoed_iff.mp (hstay id hmem)
      exact hold old hrecord

theorem vetoesStay_and_noVetoedExecution_iff (hr : RecordVetoed h) (hstay : VetoesStay h)
    (i : GovernanceStep here) :
    VetoesStay (commit vetoStep h i) ∧ NoVetoedExecution h i ↔ RespectsVeto h i := by
  cases hstep : vetoStep i h with
  | error e =>
    rw [commit_of_error hstep]
    refine iff_of_true ⟨hstay, fun _ _ _ _ h' hok => ?_⟩ ?_
    · cases hstep.symm.trans hok
    · rintro ⟨h', hok⟩
      cases hstep.symm.trans hok
  | ok h' =>
    rw [commit_of_ok hstep, RespectsVeto, forall_prop_of_true ⟨h', hstep⟩]
    rcases vetoStep_record hstep with ⟨caller, proposalId, reason, record, hcall, hveto, hid,
      hvetoed⟩ | ⟨hcall, hveto, hvetoed⟩
    · have hnot : NoVetoedExecution h i := by
        intro executor id hexecute
        cases hcall.symm.trans hexecute
      simp only [hcall]
      rw [and_iff_left hnot, vetoesStay_of_veto hr hstay hveto hid hvetoed]
    · have hstay' : VetoesStay h' := by
        intro id hmem
        rw [GovernanceStore.isProposalVetoed_iff, hveto]
        exact GovernanceStore.isProposalVetoed_iff.mp (hstay id (hvetoed ▸ hmem))
      rw [and_iff_right hstay']
      obtain ⟨env, call⟩ := i
      cases call with
      | vetoProposal caller proposalId reason =>
        exact absurd hcall (Finset.singleton_ne_empty proposalId)
      | executeEmergencyOverride executor proposalId =>
        simp only [isProposalVetoed_iff_mem hr hstay]
        constructor
        · intro hnot hmem
          exact hnot executor proposalId rfl hmem h' hstep
        · rintro hnot _ _ ⟨rfl, rfl⟩ hmem
          exact absurd hmem hnot
      | _ =>
        refine iff_of_true (fun executor id hexecute => ?_) trivial
        cases hexecute

theorem VetoHistory.start_recordVetoed (g : GovernanceStore) : RecordVetoed (.start g) := by
  intro record hrecord
  have hveto : g.veto = some record := hrecord
  simp [VetoHistory.start, hveto]

theorem VetoHistory.start_vetoesStay (g : GovernanceStore) : VetoesStay (.start g) := by
  intro id hmem
  rw [GovernanceStore.isProposalVetoed_iff]
  simpa [VetoHistory.start] using hmem

/-- In every run, from any state, a vetoed proposal counts as vetoed ever after and is never
executed exactly if no accepted veto displaces the record of another proposal and no accepted
execution names a proposal that counts as vetoed. -/
theorem vetoFinal_iff (g : GovernanceStore) (run : List (GovernanceStep here)) :
    Throughout vetoStep VetoesStay (.start g) run ∧
        Along vetoStep NoVetoedExecution (.start g) run ↔
      Along vetoStep RespectsVeto (.start g) run :=
  throughout_and_along_iff (I := RecordVetoed)
    (fun _ _ hr => commit_induction hr fun _ hstep => vetoStep_recordVetoed hr hstep)
    (fun _ i hr hstay => vetoesStay_and_noVetoedExecution_iff hr hstay i)
    (VetoHistory.start_recordVetoed g) (VetoHistory.start_vetoesStay g) run

def everybody : GovernanceEnv ⟨0⟩ := ⟨⟨.standard ⟨0⟩ 1 none, fun _ => true⟩, fun _ => false⟩

/-- The contract of an admin, with a council and an emergency signer. -/
def equipped : GovernanceStore :=
  ⟨.initialized ⟨9⟩, none, none, some ⟨8⟩, none, some ⟨[⟨5⟩], 5001, true⟩, ∅⟩

/-- The council vetoes the open proposal, then another number, and the emergency signer executes
the proposal all the same. -/
def vetoedRun : List (GovernanceStep ⟨0⟩) :=
  [(everybody, .submitGovernanceProposal ⟨7⟩ zeroDigest),
    (everybody, .vetoProposal ⟨8⟩ 1 "malicious"),
    (everybody, .vetoProposal ⟨8⟩ 2 "malicious"),
    (everybody, .voteEmergencyOverride ⟨5⟩ 1),
    (everybody, .executeEmergencyOverride ⟨5⟩ 1)]

theorem vetoedRun_executes :
    (runAll vetoStep (.start equipped) vetoedRun).store.proposal = none ∧
    (runAll vetoStep (.start equipped) vetoedRun).vetoed = {1, 2} ∧
    ¬ (runAll vetoStep (.start equipped) vetoedRun).store.IsProposalVetoed 1 ∧
    ¬ (Throughout vetoStep VetoesStay (.start equipped) vetoedRun ∧
      Along vetoStep NoVetoedExecution (.start equipped) vetoedRun) := by
  have hproposal : (runAll vetoStep (.start equipped) vetoedRun).store.proposal = none := by
    decide +kernel
  have hvetoed : (runAll vetoStep (.start equipped) vetoedRun).vetoed = {1, 2} := by
    decide +kernel
  have hnot : ¬ (runAll vetoStep (.start equipped) vetoedRun).store.IsProposalVetoed 1 := by
    decide +kernel
  refine ⟨hproposal, hvetoed, hnot, ?_⟩
  rintro ⟨⟨_, _, _, _, _, hstay⟩, _⟩
  have hstay : VetoesStay (runAll vetoStep (.start equipped) vetoedRun) := hstay
  generalize runAll vetoStep (.start equipped) vetoedRun = h at *
  exact hnot (hstay 1 (by simp [hvetoed]))

end Veto

end StellarFlow.Governance
