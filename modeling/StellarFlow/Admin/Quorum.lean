import StellarFlow.Foundation.Tally
import StellarFlow.Admin.Store

/-!
# Weighted quorums

A governance change names the addresses that approve it. The list is weighed, leaving out
repetitions and strangers, against the number of signers and the weight that are configured.
-/
namespace StellarFlow.Admin

open Foundation

namespace AdminStore

variable (s : AdminStore)

def getSignerWeight (signer : Address) : ℕ := (s.weights.lookup signer).getD 0

/-- The admin and the registered signers may approve. -/
def IsAuthorized (data : ContractData) (signer : Address) : Prop :=
  signer = data.admin ∨ signer ∈ s.getSigners

instance (data : ContractData) : DecidablePred (s.IsAuthorized data) :=
  fun _ => inferInstanceAs (Decidable (_ ∨ _))

/-- The admin weighs at least one. -/
def approvalWeight (data : ContractData) (signer : Address) : ℕ :=
  if signer = data.admin then max (s.getSignerWeight data.admin) 1 else s.getSignerWeight signer

/-- Weigh the approvals. A list is shorter than `2 ^ 32`, so their number fits. -/
def collect (data : ContractData) (signers : List Address) : Except Fault (Tally Address) :=
  tally (s.IsAuthorized data) (s.approvalWeight data) 32 (Fault.error .overflow) .empty signers

/-- What a set of approvals amounts to. -/
def approvals (data : ContractData) (signers : Finset Address) : Tally Address :=
  Tally.of (s.IsAuthorized data) (s.approvalWeight data) signers

/-- The approvals reach the configured count and weight. -/
def MeetsQuorum (data : ContractData) (signers : Finset Address) : Prop :=
  s.getGovernanceConfig.quorumThreshold ≤ (s.approvals data signers).count ∧
    s.getMultisigConfig.requiredWeight ≤ (s.approvals data signers).weight

end AdminStore

def verifyUpgradeQuorum (signers : List Address) (s : AdminStore) : Except Fault Unit := do
  let data ← s.getData
  let t ← s.collect data signers
  failIf (t.count < s.getGovernanceConfig.quorumThreshold) (Fault.error .thresholdNotReached)
  failIf (t.weight < s.getMultisigConfig.requiredWeight) (Fault.error .thresholdNotReached)

def calculateCollectedWeight (signers : List Address) (data : ContractData) (s : AdminStore) :
    Except Fault ℕ := do
  let t ← s.collect data signers
  pure t.weight

/-- Replace the admin, the signers and the thresholds with the approval of a quorum. -/
def rotateAdminKeys (signers newSigners : List Address) (newThreshold : ℕ) (s : AdminStore) :
    Except Fault AdminStore := do
  verifyUpgradeQuorum signers s
  failIf (newThreshold = 0 ∨ newSigners.toFinset.card < newThreshold)
    (Fault.error .invalidThreshold)
  let data ← s.getData
  let admin ← okOr newSigners.head? (Fault.error .invalidThreshold)
  pure { s with
    data := some { data with admin }
    signers := some newSigners.toFinset
    weights := newSigners.foldl (fun weights signer => weights.insert signer 1) ∅
    governance := some ⟨newThreshold⟩
    multisig := some ⟨newThreshold, max s.getMultisigConfig.maxSignerWeight 1⟩ }

section Quorum

variable {s s' : AdminStore} {data : ContractData} {signers newSigners : List Address} {x : Address}

theorem AdminStore.collect_eq (s : AdminStore) (data : ContractData) (signers : List Address) :
    s.collect data signers =
      if (s.approvals data signers.toFinset).weight < 2 ^ 32 then
        .ok (s.approvals data signers.toFinset)
      else .error (Fault.error .overflow) :=
  tally_eq signers

theorem AdminStore.collect_eq_ok {t : Tally Address} (h : s.collect data signers = .ok t) :
    t = s.approvals data signers.toFinset :=
  tally_eq_ok h

/-- A list that passes meets the quorum. -/
theorem verifyUpgradeQuorum_eq_ok {u : Unit} (h : verifyUpgradeQuorum signers s = .ok u) :
    ∃ data, s.data = some data ∧ s.MeetsQuorum data signers.toFinset := by
  simp only [verifyUpgradeQuorum, AdminStore.getData, bind_eq_ok, okOr_eq_ok, failIf_eq_ok,
    not_lt] at h
  obtain ⟨data, hdata, t, hcollect, _, hcount, hweight⟩ := h
  obtain rfl := AdminStore.collect_eq_ok hcollect
  exact ⟨data, hdata, hcount, hweight⟩

theorem rotateAdminKeys_eq_ok {newThreshold : ℕ}
    (h : rotateAdminKeys signers newSigners newThreshold s = .ok s') :
    ∃ data admin rest weights governance multisig, s.data = some data ∧
      newSigners = admin :: rest ∧ s' = { s with
        data := some { data with admin }, signers := some newSigners.toFinset, weights,
        governance, multisig } := by
  simp only [rotateAdminKeys, AdminStore.getData, bind_eq_ok, okOr_eq_ok, pure_eq_ok] at h
  obtain ⟨_, _, _, _, data, hdata, admin, hhead, rfl⟩ := h
  obtain ⟨rest, hlist⟩ := List.head?_eq_some_iff.mp hhead
  exact ⟨data, admin, rest, _, _, _, hdata, hlist, rfl⟩

/-- An address without authority adds nothing to a set of approvals. -/
theorem AdminStore.approvals_erase (hx : ¬ s.IsAuthorized data x) (a : Finset Address) :
    (s.approvals data (a.erase x)).count = (s.approvals data a).count ∧
      (s.approvals data (a.erase x)).weight = (s.approvals data a).weight := by
  have hfilter : (a.erase x).filter (s.IsAuthorized data) = a.filter (s.IsAuthorized data) := by
    rw [Finset.filter_erase]
    exact Finset.erase_eq_of_notMem fun hm => hx (Finset.mem_filter.mp hm).2
  simp only [AdminStore.approvals, Tally.of, hfilter, and_self]

/-- An address with authority adds one to the count. -/
theorem AdminStore.approvals_singleton (hx : s.IsAuthorized data x) :
    (s.approvals data {x}).count = 1 ∧ (s.approvals data {x}).weight = s.approvalWeight data x := by
  have hfilter : ({x} : Finset Address).filter (s.IsAuthorized data) = {x} := by
    rw [Finset.filter_singleton, if_pos hx]
  simp only [AdminStore.approvals, Tally.of, hfilter, Finset.card_singleton, Finset.sum_singleton,
    and_self]

end Quorum

end StellarFlow.Admin
