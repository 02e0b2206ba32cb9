import StellarFlow.Bridge.Escrow

/-!
# Remittances leave once

The history beside the escrow holds every remittance as it was created and every payment out,
with the id it was made for. A remittance is paid to the recipient in time or back to the sender
afterwards, and never twice; what is owed on the open ones is what was paid in less what was paid
out.
-/
namespace StellarFlow.Bridge

open Foundation

structure RemittanceHistory where
  escrow : BridgeEscrow
  now : ℕ
  created : List RemittanceEscrow
  payouts : List (ℕ × Payment)

/-- What was paid out for one remittance. -/
def RemittanceHistory.paidOutOf (id : ℕ) (h : RemittanceHistory) : List Payment :=
  (h.payouts.filter fun payout => payout.1 = id).map Prod.snd

/-- A call some seconds after the last accepted one. -/
structure RemittanceStep (here : Address) where
  elapsed : ℕ
  env : BridgeEnv here
  call : EscrowCall

/-- The payments that bring some remittances in. -/
def deposits (here : Address) (created : List RemittanceEscrow) : List Payment :=
  created.flatMap fun r => r.payments r.sender here

/-- The remittance that an accepted call creates. -/
def EscrowCall.creates (e : BridgeEscrow) : EscrowCall → List RemittanceEscrow
  | createRemittance sender recipient primaryToken primaryAmount feeToken feeAmount expiresAt =>
    [⟨e.remittanceNonce, sender, recipient, primaryToken, primaryAmount, feeToken, feeAmount,
      expiresAt, false, false⟩]
  | _ => []

/-- The payments that an accepted call makes for a stored remittance. -/
def EscrowCall.paysOut (here : Address) (e : BridgeEscrow) : EscrowCall → List (ℕ × Payment)
  | releaseRemittance id _ => (e.remittances.lookup id).elim [] fun r =>
    (r.payments here r.recipient).map (Prod.mk id)
  | cancelRemittance id sender | reclaimExpired id sender =>
    (e.remittances.lookup id).elim [] fun r => (r.payments here sender).map (Prod.mk id)
  | _ => []

section History

variable {here : Address} (crypto : BridgeCrypto)

def remittanceStep (i : RemittanceStep here) (h : RemittanceHistory) :
    Except Fault RemittanceHistory := do
  let now := h.now + i.elapsed
  let escrow ←
    i.call.exec (assertBalanceInvariant here) crypto { i.env with timestamp := now } h.escrow
  pure ⟨escrow, now, h.created ++ i.call.creates h.escrow,
    h.payouts ++ i.call.paysOut here h.escrow⟩

/-- Nothing left yet, everything left to the recipient, or everything left to the sender. -/
def LeftOnce (here : Address) (r : RemittanceEscrow) (released refunded : Bool)
    (paidOut : List Payment) : Prop :=
  released = false ∧ refunded = false ∧ paidOut = [] ∨
    released = true ∧ refunded = false ∧ paidOut = r.payments here r.recipient ∨
    released = false ∧ refunded = true ∧ paidOut = r.payments here r.sender

/-- Every remittance keeps its terms and leaves at most once, one way, and nothing is paid out
for an id that no remittance has. -/
def SingleExit (here : Address) (h : RemittanceHistory) : Prop :=
  (h.created.map RemittanceEscrow.id).Nodup ∧
    (∀ r ∈ h.created, ∃ released refunded,
      h.escrow.remittances.lookup r.id =
          some { r with released := released, refunded := refunded } ∧
        LeftOnce here r released refunded (h.paidOutOf r.id)) ∧
    (∀ id r, h.escrow.remittances.lookup id = some r → ∃ q ∈ h.created, q.id = id) ∧
    ∀ payout ∈ h.payouts, ∃ r ∈ h.created, r.id = payout.1

/-- In every token the open remittances owe what was paid in less what was paid out. -/
def Conserved (here : Address) (h : RemittanceHistory) : Prop :=
  ∀ token, h.escrow.owed token =
    totalIn token (deposits here h.created) - totalIn token (h.payouts.map Prod.snd)

/-- Only a signed release in time and a cancellation of the sender after the deadline pay out. -/
def ExitAllowed (h : RemittanceHistory) (i : RemittanceStep here) : Prop :=
  ∀ h', remittanceStep crypto i h = .ok h' →
    match i.call with
    | .releaseRemittance id signature => ∃ r config, h.escrow.remittances.lookup id = some r ∧
        h'.now ≤ r.expiresAt ∧ h.escrow.config = some config ∧ config.processor ≠ zeroKey ∧
        crypto.ed25519Verify config.processor (remittancePayload crypto r) signature = true
    | .cancelRemittance id sender | .reclaimExpired id sender =>
      ∃ r, h.escrow.remittances.lookup id = some r ∧ r.expiresAt < h'.now ∧ r.sender = sender ∧
        i.env.auth sender = true
    | _ => h'.payouts = h.payouts

/-- An accepted call other than a lock or an unlock makes exactly the recorded payments. -/
def MakesPayments (h : RemittanceHistory) (i : RemittanceStep here) : Prop :=
  ∀ h', remittanceStep crypto i h = .ok h' →
    match i.call with
    | .lockTokens _ _ _ _ | .unlockTokens _ _ => h'.created = h.created ∧ h'.payouts = h.payouts
    | _ => ∃ created payouts, h'.created = h.created ++ created ∧
        h'.payouts = h.payouts ++ payouts ∧
        h'.escrow.tokens =
          payAll h.escrow.tokens (deposits here created ++ payouts.map Prod.snd)

/-- A failed call pays nothing and changes no remittance. -/
def KeepsRemittances (h : RemittanceHistory) (i : RemittanceStep here) : Prop :=
  ∀ fault, remittanceStep crypto i h = .error fault → commit (remittanceStep crypto) h i = h

/-- What every call keeps. -/
structure RemittancesKept (here : Address) (h : RemittanceHistory) : Prop where
  remitted : Remitted h.escrow
  once : SingleExit here h
  conserved : Conserved here h

variable {crypto} {h h' : RemittanceHistory} {i : RemittanceStep here}

theorem remittanceStep_eq_ok (h0 : remittanceStep crypto i h = .ok h') :
    ∃ escrow, i.call.exec (assertBalanceInvariant here) crypto
        { i.env with timestamp := h.now + i.elapsed } h.escrow = .ok escrow ∧
      h' = ⟨escrow, h.now + i.elapsed, h.created ++ i.call.creates h.escrow,
        h.payouts ++ i.call.paysOut here h.escrow⟩ := by
  obtain ⟨escrow, hexec, hwrite⟩ := bind_eq_ok.mp h0
  exact ⟨escrow, hexec, (pure_eq_ok.mp hwrite).symm⟩

theorem paidOutOf_append (escrow : BridgeEscrow) (now : ℕ) (created : List RemittanceEscrow)
    (payouts payouts' : List (ℕ × Payment)) (id : ℕ) :
    RemittanceHistory.paidOutOf id ⟨escrow, now, created, payouts ++ payouts'⟩ =
      RemittanceHistory.paidOutOf id ⟨escrow, now, created, payouts⟩ ++
        (payouts'.filter fun payout => payout.1 = id).map Prod.snd := by
  rw [RemittanceHistory.paidOutOf, List.filter_append, List.map_append, RemittanceHistory.paidOutOf]

/-- An id without a remittance was never paid for. -/
theorem SingleExit.paidOutOf_of_none (hs : SingleExit here h) {id : ℕ}
    (hnone : ∀ r ∈ h.created, r.id ≠ id) : h.paidOutOf id = [] := by
  rw [RemittanceHistory.paidOutOf, List.map_eq_nil_iff, List.filter_eq_nil_iff]
  intro payout hpayout
  obtain ⟨r, hr, hid⟩ := hs.2.2.2 payout hpayout
  rw [decide_eq_true_iff, ← hid]
  exact hnone r hr

theorem filter_paysOut (id id' : ℕ) (payments : List Payment) :
    ((payments.map (Prod.mk id)).filter fun payout => payout.1 = id').map Prod.snd =
      if id = id' then payments else [] := by
  rw [List.filter_map, List.map_map]
  split_ifs with h
  · simp [Function.comp_def, h]
  · simp [Function.comp_def, h]

/-- One more remittance, under a new id. -/
theorem SingleExit.created (hs : SingleExit here h) (hremitted : Remitted h.escrow)
    {escrow : BridgeEscrow} (now : ℕ) {r : RemittanceEscrow}
    (hid : r.id = h.escrow.remittanceNonce) (hopen : r.released = false ∧ r.refunded = false)
    (hstored : escrow.remittances = h.escrow.remittances.insert h.escrow.remittanceNonce r) :
    SingleExit here ⟨escrow, now, h.created ++ [r], h.payouts⟩ := by
  obtain ⟨hids, hleft, hknown, hpaid⟩ := hs
  have hne : ∀ q ∈ h.created, q.id ≠ h.escrow.remittanceNonce := by
    intro q hq heq
    obtain ⟨released, refunded, hlookup, -⟩ := hleft q hq
    exact (hremitted.fresh q.id _ hlookup).ne heq
  refine ⟨?_, fun q hq => ?_, fun id q hlookup => ?_, fun payout hpayout => ?_⟩
  · rw [List.map_append, List.nodup_append]
    refine ⟨hids, List.nodup_singleton _, fun id hold id' hnew => ?_⟩
    obtain ⟨q, hq, rfl⟩ := List.mem_map.mp hold
    obtain rfl := List.mem_singleton.mp hnew
    exact hid ▸ hne q hq
  · obtain hold | hnew := List.mem_append.mp hq
    · obtain ⟨released, refunded, hlookup, hpaidOut⟩ := hleft q hold
      refine ⟨released, refunded, ?_, hpaidOut⟩
      rw [hstored, Finmap.lookup_insert_of_ne _ (hne q hold), hlookup]
    · obtain rfl := List.mem_singleton.mp hnew
      refine ⟨q.released, q.refunded, ?_, .inl ⟨hopen.1, hopen.2, ?_⟩⟩
      · rw [hstored, ← hid, Finmap.lookup_insert]
      · rw [hid]
        exact SingleExit.paidOutOf_of_none ⟨hids, hleft, hknown, hpaid⟩ hne
  · rw [hstored, Store.lookup_insert_eq_some] at hlookup
    obtain ⟨rfl, rfl⟩ | ⟨-, hold⟩ := hlookup
    · exact ⟨q, List.mem_append_right _ (List.mem_singleton_self q), hid⟩
    · obtain ⟨q', hq', hid'⟩ := hknown id q hold
      exact ⟨q', List.mem_append_left _ hq', hid'⟩
  · obtain ⟨q, hq, hid'⟩ := hpaid payout hpayout
    exact ⟨q, List.mem_append_left _ hq, hid'⟩

theorem Conserved.created (hc : Conserved here h) (hremitted : Remitted h.escrow)
    {escrow : BridgeEscrow} (now : ℕ) {r : RemittanceEscrow}
    (hopen : r.released = false ∧ r.refunded = false)
    (hstored : escrow.remittances = h.escrow.remittances.insert h.escrow.remittanceNonce r) :
    Conserved here ⟨escrow, now, h.created ++ [r], h.payouts⟩ := by
  intro token
  have hconserved := hc token
  have howed := owed_created hremitted hopen token
  have hdeposits : deposits here (h.created ++ [r]) =
      deposits here h.created ++ r.payments r.sender here := by
    rw [deposits, List.flatMap_append, List.flatMap_singleton, deposits]
  change escrow.owed token = totalIn token (deposits here (h.created ++ [r])) -
    totalIn token (h.payouts.map Prod.snd)
  rw [hdeposits, totalIn_append, totalIn_payments, BridgeEscrow.owed, hstored, howed]
  omega

/-- An open remittance is paid out one way: nothing was paid out for it before. -/
theorem SingleExit.exited (hs : SingleExit here h) {escrow : BridgeEscrow} (now : ℕ) {id : ℕ}
    {r r' : RemittanceEscrow} {payee : Address}
    (hlookup : h.escrow.remittances.lookup id = some r)
    (hopen : r.released = false ∧ r.refunded = false)
    (hexit : payee = r.recipient ∧ r' = { r with released := true } ∨
      payee = r.sender ∧ r' = { r with refunded := true })
    (hstored : escrow.remittances = h.escrow.remittances.insert id r') :
    SingleExit here ⟨escrow, now, h.created,
      h.payouts ++ (r.payments here payee).map (Prod.mk id)⟩ := by
  obtain ⟨hids, hleft, hknown, hpaid⟩ := hs
  obtain ⟨q, hq, rfl⟩ := hknown id r hlookup
  obtain ⟨released, refunded, hq', hpaidOut⟩ := hleft q hq
  obtain rfl := Option.some.inj (hlookup.symm.trans hq')
  obtain ⟨rfl, rfl⟩ : released = false ∧ refunded = false := hopen
  refine ⟨hids, fun p hp => ?_, fun id p hp => ?_, fun payout hpayout => ?_⟩
  · rw [paidOutOf_append, filter_paysOut]
    by_cases hpq : q.id = p.id
    · obtain rfl := List.inj_on_of_nodup_map hids hq hp hpq
      have hnothing : h.paidOutOf q.id = [] := by
        obtain ⟨-, -, hnil⟩ | ⟨hfalse, -⟩ | ⟨-, hfalse, -⟩ := hpaidOut
        · exact hnil
        · cases hfalse
        · cases hfalse
      refine ⟨r'.released, r'.refunded, ?_, ?_⟩
      · rw [hstored, Finmap.lookup_insert]
        obtain ⟨-, rfl⟩ | ⟨-, rfl⟩ := hexit <;> rfl
      · change LeftOnce here q r'.released r'.refunded (h.paidOutOf q.id ++ _)
        rw [if_pos rfl, hnothing, List.nil_append]
        obtain ⟨rfl, rfl⟩ | ⟨rfl, rfl⟩ := hexit
        · exact .inr (.inl ⟨rfl, rfl, rfl⟩)
        · exact .inr (.inr ⟨rfl, rfl, rfl⟩)
    · obtain ⟨released, refunded, hp', hleft'⟩ := hleft p hp
      refine ⟨released, refunded, ?_, ?_⟩
      · rw [hstored, Finmap.lookup_insert_of_ne _ (Ne.symm hpq), hp']
      · rw [if_neg hpq, List.append_nil]
        exact hleft'
  · rw [hstored, Store.lookup_insert_eq_some] at hp
    obtain ⟨rfl, -⟩ | ⟨-, hold⟩ := hp
    · exact ⟨q, hq, rfl⟩
    · exact hknown id p hold
  · obtain hold | hnew := List.mem_append.mp hpayout
    · exact hpaid payout hold
    · obtain ⟨payment, -, rfl⟩ := List.mem_map.mp hnew
      exact ⟨q, hq, rfl⟩

theorem Conserved.exited (hc : Conserved here h) {escrow : BridgeEscrow} (now : ℕ) {id : ℕ}
    {r r' : RemittanceEscrow} (payee : Address)
    (hlookup : h.escrow.remittances.lookup id = some r)
    (hopen : r.released = false ∧ r.refunded = false)
    (hclosed : r'.released = true ∨ r'.refunded = true)
    (hstored : escrow.remittances = h.escrow.remittances.insert id r') :
    Conserved here ⟨escrow, now, h.created,
      h.payouts ++ (r.payments here payee).map (Prod.mk id)⟩ := by
  intro token
  have hconserved := hc token
  have howed := owed_exited hlookup hopen hclosed token
  have hpaid : (h.payouts ++ (r.payments here payee).map (Prod.mk id)).map Prod.snd =
      h.payouts.map Prod.snd ++ r.payments here payee := by
    rw [List.map_append, List.map_map]
    exact congrArg (h.payouts.map Prod.snd ++ ·) (List.map_id _)
  change escrow.owed token = totalIn token (deposits here h.created) -
    totalIn token ((h.payouts ++ (r.payments here payee).map (Prod.mk id)).map Prod.snd)
  rw [hpaid, totalIn_append, totalIn_payments, BridgeEscrow.owed, hstored]
  omega

/-- A call that touches no remittance. -/
theorem RemittancesKept.unchanged (hk : RemittancesKept here h) {escrow : BridgeEscrow} (now : ℕ)
    (hremitted : Remitted escrow) (hsame : escrow.remittances = h.escrow.remittances) :
    RemittancesKept here ⟨escrow, now, h.created ++ [], h.payouts ++ []⟩ := by
  rw [List.append_nil, List.append_nil]
  obtain ⟨hids, hleft, hknown, hpaid⟩ := hk.once
  refine ⟨hremitted, ⟨hids, fun q hq => ?_, fun id q hlookup => ?_, hpaid⟩, fun token => ?_⟩
  · obtain ⟨released, refunded, hlookup, hpaidOut⟩ := hleft q hq
    exact ⟨released, refunded, hsame ▸ hlookup, hpaidOut⟩
  · exact hknown id q (hsame ▸ hlookup)
  · rw [← hk.conserved token, BridgeEscrow.owed, BridgeEscrow.owed, hsame]

theorem RemittancesKept.exited (hk : RemittancesKept here h) {escrow : BridgeEscrow} (now : ℕ)
    (hremitted : Remitted escrow) {id : ℕ} {r r' : RemittanceEscrow} {payee : Address}
    (hlookup : h.escrow.remittances.lookup id = some r)
    (hopen : r.released = false ∧ r.refunded = false)
    (hexit : payee = r.recipient ∧ r' = { r with released := true } ∨
      payee = r.sender ∧ r' = { r with refunded := true })
    (hstored : escrow.remittances = h.escrow.remittances.insert id r') :
    RemittancesKept here ⟨escrow, now, h.created ++ [],
      h.payouts ++ (r.payments here payee).map (Prod.mk id)⟩ := by
  rw [List.append_nil]
  exact ⟨hremitted, hk.once.exited now hlookup hopen hexit hstored,
    hk.conserved.exited now payee hlookup hopen (closed_of_exit hexit) hstored⟩

theorem paysOut_release {e : BridgeEscrow} {id : ℕ} {r : RemittanceEscrow}
    (hr : e.remittances.lookup id = some r) (signature : Bytes64) :
    (EscrowCall.releaseRemittance id signature).paysOut here e =
      (r.payments here r.recipient).map (Prod.mk id) := by
  rw [EscrowCall.paysOut, hr, Option.elim_some]

theorem paysOut_cancel {e : BridgeEscrow} {id : ℕ} {r : RemittanceEscrow}
    (hr : e.remittances.lookup id = some r) :
    (EscrowCall.cancelRemittance id r.sender).paysOut here e =
      (r.payments here r.sender).map (Prod.mk id) := by
  rw [EscrowCall.paysOut, hr, Option.elim_some]

/-- The history after a cancellation, under either of its two names. -/
theorem RemittancesKept.cancelled (hk : RemittancesKept here h) {env : BridgeEnv here} {id : ℕ}
    {sender : Address} {escrow : BridgeEscrow} (now : ℕ) (hremitted : Remitted escrow)
    (h0 : cancelRemittance env id sender h.escrow = .ok escrow) :
    RemittancesKept here ⟨escrow, now, h.created ++ [],
      h.payouts ++ (EscrowCall.cancelRemittance id sender).paysOut here h.escrow⟩ := by
  obtain ⟨r, hr, hreleased, hrefunded, -, rfl, -, rfl⟩ := cancelRemittance_eq_ok h0
  rw [paysOut_cancel hr]
  exact hk.exited now hremitted hr ⟨hreleased, hrefunded⟩ (.inr ⟨rfl, rfl⟩) rfl

theorem RemittancesKept.step (hk : RemittancesKept here h)
    (h0 : remittanceStep crypto i h = .ok h') : RemittancesKept here h' := by
  obtain ⟨escrow, hexec, rfl⟩ := remittanceStep_eq_ok h0
  have hremitted := hk.remitted.step (EscrowCall.exec_effect hexec)
  obtain ⟨elapsed, env, call⟩ := i
  cases call with
  | lockTokens depositor amount targetChainId recipientAddress =>
    obtain ⟨lock, hlock⟩ := snd_map_eq_ok.mp hexec
    obtain ⟨config, -, hmoved, -⟩ := lockTokens_eq_ok hlock
    exact hk.unchanged _ hremitted hmoved.remittances
  | unlockTokens proof signatures =>
    obtain ⟨r, hunlock⟩ := snd_map_eq_ok.mp hexec
    obtain ⟨config, -, hmoved, -⟩ := unlockTokens_eq_ok hunlock
    exact hk.unchanged _ hremitted hmoved.remittances
  | registerProcessor admin processor =>
    obtain ⟨_, -, hload⟩ := bind_eq_ok.mp hexec
    obtain ⟨config, -, hwrite⟩ := bind_eq_ok.mp hload
    obtain rfl := pure_eq_ok.mp hwrite
    exact hk.unchanged _ hremitted rfl
  | createRemittance sender recipient primaryToken primaryAmount feeToken feeAmount expiresAt =>
    obtain ⟨r, hcreate⟩ := snd_map_eq_ok.mp hexec
    obtain ⟨rfl, -, -, -, rfl⟩ := createRemittance_eq_ok hcreate
    simp only [EscrowCall.creates, EscrowCall.paysOut, List.append_nil]
    exact ⟨hremitted, hk.once.created hk.remitted _ rfl ⟨rfl, rfl⟩ rfl,
      hk.conserved.created hk.remitted _ ⟨rfl, rfl⟩ rfl⟩
  | releaseRemittance id signature =>
    obtain ⟨r, config, hr, hreleased, hrefunded, -, -, -, -, rfl⟩ := releaseRemittance_eq_ok hexec
    rw [paysOut_release hr]
    exact hk.exited _ hremitted hr ⟨hreleased, hrefunded⟩ (.inl ⟨rfl, rfl⟩) rfl
  | cancelRemittance id sender => exact hk.cancelled _ hremitted hexec
  | reclaimExpired id sender => exact hk.cancelled _ hremitted hexec

theorem remittanceStep_exitAllowed (h : RemittanceHistory) (i : RemittanceStep here) :
    ExitAllowed crypto h i := by
  intro h' h0
  obtain ⟨escrow, hexec, rfl⟩ := remittanceStep_eq_ok h0
  obtain ⟨elapsed, env, call⟩ := i
  cases call with
  | releaseRemittance id signature =>
    obtain ⟨r, config, hr, -, -, htime, hconfig, hkey, hverify, -⟩ := releaseRemittance_eq_ok hexec
    exact ⟨r, config, hr, htime, hconfig, hkey, hverify⟩
  | cancelRemittance id sender =>
    obtain ⟨r, hr, -, -, htime, hsender, hauth, -⟩ := cancelRemittance_eq_ok hexec
    exact ⟨r, hr, htime, hsender, hauth⟩
  | reclaimExpired id sender =>
    obtain ⟨r, hr, -, -, htime, hsender, hauth, -⟩ := cancelRemittance_eq_ok hexec
    exact ⟨r, hr, htime, hsender, hauth⟩
  | _ => exact List.append_nil _

theorem cancel_makesPayments {env : BridgeEnv here} {id : ℕ} {sender : Address}
    {e escrow : BridgeEscrow} (h0 : cancelRemittance env id sender e = .ok escrow) :
    escrow.tokens = payAll e.tokens
      (((EscrowCall.cancelRemittance id sender).paysOut here e).map Prod.snd) := by
  obtain ⟨r, hr, -, -, -, rfl, -, rfl⟩ := cancelRemittance_eq_ok h0
  rw [paysOut_cancel hr, List.map_map]
  exact congrArg (payAll e.tokens) (List.map_id _).symm

theorem remittanceStep_makesPayments (h : RemittanceHistory) (i : RemittanceStep here) :
    MakesPayments crypto h i := by
  intro h' h0
  obtain ⟨escrow, hexec, rfl⟩ := remittanceStep_eq_ok h0
  obtain ⟨elapsed, env, call⟩ := i
  cases call with
  | lockTokens depositor amount targetChainId recipientAddress =>
    exact ⟨List.append_nil _, List.append_nil _⟩
  | unlockTokens proof signatures => exact ⟨List.append_nil _, List.append_nil _⟩
  | registerProcessor admin processor =>
    obtain ⟨_, -, hload⟩ := bind_eq_ok.mp hexec
    obtain ⟨config, -, hwrite⟩ := bind_eq_ok.mp hload
    obtain rfl := pure_eq_ok.mp hwrite
    exact ⟨[], [], rfl, rfl, rfl⟩
  | createRemittance sender recipient primaryToken primaryAmount feeToken feeAmount expiresAt =>
    obtain ⟨r, hcreate⟩ := snd_map_eq_ok.mp hexec
    obtain ⟨hr, -, -, -, rfl⟩ := createRemittance_eq_ok hcreate
    refine ⟨[r], [], ?_, rfl, ?_⟩
    · rw [EscrowCall.creates, hr]
    · rw [List.map_nil, List.append_nil, deposits, List.flatMap_singleton, hr]
  | releaseRemittance id signature =>
    obtain ⟨r, config, hr, -, -, -, -, -, -, rfl⟩ := releaseRemittance_eq_ok hexec
    refine ⟨[], _, rfl, rfl, ?_⟩
    rw [paysOut_release hr, List.map_map]
    exact congrArg (payAll h.escrow.tokens) (List.map_id _).symm
  | cancelRemittance id sender => exact ⟨[], _, rfl, rfl, cancel_makesPayments hexec⟩
  | reclaimExpired id sender => exact ⟨[], _, rfl, rfl, cancel_makesPayments hexec⟩

/-- The history of an escrow without remittances. -/
def RemittanceHistory.start (e : BridgeEscrow) (now : ℕ) : RemittanceHistory :=
  ⟨{ e with remittances := ∅ }, now, [], []⟩

theorem RemittancesKept.start (e : BridgeEscrow) (now : ℕ) :
    RemittancesKept here (.start e now) where
  remitted := .of_empty rfl
  once := by
    refine ⟨List.nodup_nil, fun _ h => absurd h List.not_mem_nil, fun _ _ h => ?_,
      fun _ h => absurd h List.not_mem_nil⟩
    cases h
  conserved _ := rfl

/-- In every run every remittance leaves at most once, to the recipient in time and signed or back
to its sender after the deadline, the recorded payments are the ones that are made, the open
remittances owe in every token what came in less what went out, and a failed call changes
nothing. -/
theorem remittances_exitOnce (e : BridgeEscrow) (now : ℕ) (run : List (RemittanceStep here)) :
    Throughout (remittanceStep crypto) (fun h => SingleExit here h ∧ Conserved here h)
        (.start e now) run ∧
      Along (remittanceStep crypto) (fun h i => ExitAllowed crypto h i ∧ MakesPayments crypto h i ∧
        KeepsRemittances crypto h i) (.start e now) run := by
  have hstep : ∀ h (i : RemittanceStep here) h', RemittancesKept here h →
      remittanceStep crypto i h = .ok h' → RemittancesKept here h' := fun _ _ _ hk h0 => hk.step h0
  have hstart : RemittancesKept here (.start e now) := .start e now
  exact ⟨throughout_of_invariant hstep (fun _ hk => ⟨hk.once, hk.conserved⟩) hstart run,
    along_of_invariant hstep (fun h i _ => ⟨remittanceStep_exitAllowed h i,
      remittanceStep_makesPayments h i, fun _ herror => commit_of_error herror⟩) hstart run⟩

end History

section Sample

def sampleRemittanceEscrow : BridgeEscrow :=
  .configured ⟨⟨7⟩, sampleKey⟩ ⟨none, ∅, ∅, ∅⟩ .empty fun _ holder =>
    if holder = ⟨3⟩ then 1000 else 0

/-- A release in time, after which the sender gets nothing back. -/
example : (runAll (remittanceStep sampleCrypto) (.start sampleRemittanceEscrow 0)
    [⟨0, sampleBridgeEnv, .createRemittance ⟨3⟩ ⟨4⟩ ⟨8⟩ 100 (some ⟨9⟩) 5 10⟩,
      ⟨10, sampleBridgeEnv, .releaseRemittance 0 (Vector.replicate 64 5)⟩,
      ⟨1, sampleBridgeEnv, .reclaimExpired 0 ⟨3⟩⟩]).payouts =
    [(0, ⟨⟨8⟩, ⟨0⟩, ⟨4⟩, 100⟩), (0, ⟨⟨9⟩, ⟨0⟩, ⟨4⟩, 5⟩)] := by decide +kernel

end Sample

end StellarFlow.Bridge
