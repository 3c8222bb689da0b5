import IconBridge.Algorand.Execution

/-!
# Who can send for a contract

Nobody but the creator can register a service or change a contract, and nobody
but the program of a contract sends from its account: the programs never rekey
it. Both hold through every group, whatever other applications submit.
-/

namespace IconBridge.Algorand

open Lib List

def Request.header : Request → TxnHeader
  | .assetTransfer header _ | .appCall header _ | .other header => header

@[simp] theorem Txn.header_request (t : Txn) : t.request.header = t.header := by
  cases t <;> rfl

variable {d : Deployment} {s s' s₀ : Ledger} {id : UInt64}

/-- A call of the BMC registers nothing, and logs the service of its sender if
it logs at all. -/
structure BmcApproved (s : Ledger) (sender : Key) (a : Approved) : Prop where
  auth : a.1.auth = s.auth
  contracts : a.1.contracts = s.contracts
  svc : ∀ k v, a.1.svc k = some v → s.svc k = some v
  logs : ∀ v ∈ a.2.1, s.svc sender = some v
  modest : ∀ g ∈ a.2.2, ∀ r ∈ g, r.header.rekeyTo = none

theorem BmcApproved.plain (sender : Key) (ha : s'.auth = s.auth) (hc : s'.contracts = s.contracts)
    (hs : s'.svc = s.svc) : BmcApproved s sender (s', [], []) :=
  ⟨ha, hc, fun k v h => by rwa [hs] at h, by simp, by simp⟩

theorem sendMessage_ok (h : sendMessage s sender args = some a) :
    ∃ v, s.svc sender = some v ∧ a = (s, [v], []) ∧ 3 ≤ args.length := by
  simp only [sendMessage, Option.bind_eq_bind, Option.bind_eq_some_iff] at h
  obtain ⟨_, -, _, -, msg, hmsg, _, -, v, hv, h⟩ := h
  obtain ⟨hlen, -⟩ := List.getElem?_eq_some_iff.1 hmsg
  exact ⟨v, hv, (Option.some.inj h).symm, hlen⟩

theorem bmc_approved (hsender : sender ≠ d.creator) (h : bmc d s sender call = some a) :
    BmcApproved s sender a := by
  unfold bmc at h
  split at h
  · cases h
    exact .plain sender rfl rfl rfl
  · cases h
    refine ⟨rfl, rfl, fun k v hk => ?_, by simp, by simp⟩
    dsimp only at hk
    rw [Function.update_apply] at hk
    split at hk
    · cases hk
    · exact hk
  · rw [if_neg hsender] at h
    cases h
  · rw [if_neg hsender] at h
    cases h
  · split at h
    · simp [registerBSHContract, guard, hsender] at h
    split at h
    · simp only [setRelayer, Option.bind_eq_bind, Option.bind_eq_some_iff] at h
      obtain ⟨_, -, _, -, h⟩ := h
      cases h
      exact .plain sender rfl rfl rfl
    split at h
    · obtain ⟨v, hv, rfl, -⟩ := sendMessage_ok h
      exact ⟨rfl, rfl, fun _ _ => id, by simpa using hv, by simp⟩
    split at h
    · simp only [relayMessage, Option.bind_eq_bind, Option.bind_eq_some_iff] at h
      obtain ⟨_, -, _, -, _, -, _, -, _, -, h⟩ := h
      cases h
      exact ⟨rfl, rfl, fun _ _ => id, by simp, by simp [Request.header]⟩
    · cases h
  · cases h

/-- A deposit as the contract sees it: the arguments of the call, the transfer
behind it in the group and the message that is sent. -/
structure Deposits (d : Deployment) (kind : Kind) (app : App) (group : List Txn) (index : ℕ)
    (sender : Key) (call : ApplicationCall) (sendArgs : SendArgs) : Prop where
  noOp : call.onCompletion = .noOp
  args : ∃ amount flag flags dst pay, call.applicationArgs =
      d.selector kind.send :: call.applicationArgs.tail ∧
    call.applicationArgs[1]? = some amount ∧ call.applicationArgs[2]? = some (flag :: flags) ∧
    call.applicationArgs[3]? = some dst ∧ amount.length ≤ 8 ∧ group[1]? = some pay ∧
    deposit app { groupIndex := index, sender, payment := pay.payment } (ofBytes amount)
      (128 ≤ flag.toNat) dst = some sendArgs

/-- A call of a contract changes nothing, and asks for a transfer or, as a
deposit, for a message. -/
theorem contract_approved (hsender : sender ≠ d.creator)
    (h : contract d s kind app caller group index sender call = some a) :
    a.1 = s ∧ a.2.1 = [] ∧
    (a.2.2 = [] ∨ (∃ t, a.2.2 = [[.assetTransfer { sender := app.address } t]]) ∨
      ∃ sendArgs, a.2.2 = [[sendCall d app sendArgs]] ∧
        Deposits d kind app group index sender call sendArgs) := by
  unfold contract at h
  split at h
  · cases h
    exact ⟨rfl, rfl, .inl rfl⟩
  · rw [if_neg hsender] at h
    cases h
  · rw [if_neg hsender] at h
    cases h
  · next selector args honC hargs =>
    split at h
    · simp [initContract, guard, hsender] at h
    split at h
    · next hselector =>
      simp only [depositCall, Option.bind_eq_bind, Option.bind_eq_some_iff] at h
      obtain ⟨amount, hamount, flags, hflags, flag, hflag, dst, hdst, pay, hpay, _, hguard,
        sendArgs, hdeposit, h⟩ := h
      cases h
      refine ⟨rfl, rfl, .inr (.inr ⟨sendArgs, rfl, honC, ?_⟩)⟩
      obtain ⟨rest, rfl⟩ : ∃ rest, flags = flag :: rest := by
        cases flags with
        | nil => cases hflag
        | cons b bs =>
          cases hflag
          exact ⟨bs, rfl⟩
      have hlen : amount.length ≤ 8 := by
        by_contra hlen
        simp [guard, hlen] at hguard
      refine ⟨amount, flag, rest, dst, pay, ?_, ?_, ?_, ?_, hlen, hpay, hdeposit⟩
      · rw [hargs, hselector]
        rfl
      · rw [hargs]
        exact hamount
      · rw [hargs]
        exact hflags
      · rw [hargs]
        exact hdst
    split at h
    · simp only [btpMessageCall, Option.bind_eq_bind, Option.bind_eq_some_iff] at h
      obtain ⟨_, -, _, -, t, -, h⟩ := h
      cases h
      exact ⟨rfl, rfl, .inr (.inl ⟨_, rfl⟩)⟩
    · cases h
  · cases h

def Known (d : Deployment) (s : Ledger) (id : UInt64) : Prop :=
  id = d.bmcId ∨ (s.contracts id).isSome

/-- How the bridge is set up before others than the creator act. -/
structure Deployed (d : Deployment) (s : Ledger) : Prop where
  creator : s.auth d.creator = d.creator
  auth : ∀ id, Known d s id → s.auth (d.address id) = d.address id
  contracts : ∀ id kind app, s.contracts id = some (kind, app) →
    id ≠ d.bmcId ∧ app.address = d.address id ∧ app.bmcId = d.bmcId.toNat

/-- What no group changes, as seen from the ledger at the start. -/
structure Secure (d : Deployment) (s₀ s : Ledger) : Prop where
  creator : s.auth d.creator = d.creator
  auth : ∀ id, Known d s₀ id → s.auth (d.address id) = d.address id
  contracts : s.contracts = s₀.contracts
  svc : ∀ k v, s.svc k = some v → s₀.svc k = some v

theorem Deployed.secure (h : Deployed d s₀) : Secure d s₀ s₀ :=
  ⟨h.creator, h.auth, rfl, fun _ _ => id⟩

theorem enter_some (h : enter d caller s header = some s') :
    authorized d s caller header.sender = true ∧ s'.svc = s.svc ∧ s'.contracts = s.contracts ∧
    (header.rekeyTo = none → s'.auth = s.auth) ∧
    ∀ k, k ≠ header.sender → s'.auth k = s.auth k := by
  unfold enter at h
  split at h
  · next hauth =>
    cases h
    refine ⟨hauth, rfl, rfl, fun hnone => ?_, fun k hk => ?_⟩
    · simp only [hnone]
    · cases hrekey : header.rekeyTo with
      | none => rfl
      | some key => exact Function.update_of_ne hk _ _
  · cases h

theorem Secure.sender_ne_creator (h : Secure d s₀ s)
    (hauth : authorized d s caller sender = true) : sender ≠ d.creator := by
  rintro rfl
  unfold authorized at hauth
  split at hauth
  · rw [h.creator, d.not_held_creator] at hauth
    cases hauth
  · next id =>
    rw [h.creator, decide_eq_true_eq] at hauth
    exact d.address_ne_creator id hauth.symm

theorem Secure.caller_eq (h : Secure d s₀ s) (hknown : Known d s₀ id)
    (hauth : authorized d s caller (d.address id) = true) : caller = some id := by
  unfold authorized at hauth
  rw [h.auth id hknown] at hauth
  split at hauth
  · rw [d.not_held_address] at hauth
    cases hauth
  · next id' =>
    rw [d.address_injective (of_decide_eq_true hauth)]

def Modest (d : Deployment) (s₀ : Ledger) (caller : Option UInt64) (t : Txn) : Prop :=
  ∀ id, caller = some id → Known d s₀ id → t.header.rekeyTo = none

theorem Secure.enter (h : Secure d s₀ s)
    (hmodest : ∀ id, caller = some id → Known d s₀ id → header.rekeyTo = none)
    (hs : Algorand.enter d caller s header = some s') : Secure d s₀ s' := by
  obtain ⟨hauth, hsvc, hcontracts, hsame, hothers⟩ := enter_some hs
  refine ⟨?_, fun id hknown => ?_, hcontracts.trans h.contracts, by rw [hsvc]; exact h.svc⟩
  · rw [hothers _ (h.sender_ne_creator hauth).symm]
    exact h.creator
  · by_cases hsender : d.address id = header.sender
    · rw [← hsender] at hauth
      rw [hsame (hmodest id (h.caller_eq hknown hauth) hknown)]
      exact h.auth id hknown
    · rw [hothers _ hsender]
      exact h.auth id hknown

theorem approve_some {inner : List (List Request)} (h : Secure d s₀ s) (hsender : sender ≠ d.creator)
    (hs : approve d caller group index s sender call logs inner = some s') :
    Secure d s₀ s' ∧
    (Known d s₀ call.applicationID → ∀ g ∈ inner, ∀ r ∈ g, r.header.rekeyTo = none) := by
  unfold approve at hs
  split at hs
  · have ha := bmc_approved hsender (follow_some.1 hs)
    refine ⟨⟨?_, fun id hknown => ?_, ha.contracts.trans h.contracts, fun k v hk => ?_⟩,
      fun _ => ha.modest⟩
    · rw [ha.auth]
      exact h.creator
    · rw [ha.auth]
      exact h.auth id hknown
    · exact h.svc k v (ha.svc k v hk)
  next hbmc =>
  split at hs
  · next kind app hcontract =>
    obtain ⟨rfl, -, hinner⟩ := contract_approved hsender (follow_some.1 hs)
    refine ⟨h, fun _ => ?_⟩
    dsimp only at hinner
    rcases hinner with rfl | ⟨t, rfl⟩ | ⟨sendArgs, rfl, -⟩ <;> simp [Request.header, sendCall]
  · next hforeign =>
    cases hs
    refine ⟨h, fun hknown => ?_⟩
    rw [h.contracts] at hforeign
    rcases hknown with hknown | hknown
    · exact absurd hknown hbmc
    · rw [hforeign] at hknown
      cases hknown

theorem modest_of_requests {inner : List (List Txn)}
    (h : Known d s₀ id → ∀ g ∈ inner.map (·.map Txn.request), ∀ r ∈ g, r.header.rekeyTo = none) :
    ∀ g ∈ inner, ∀ t ∈ g, Modest d s₀ (some id) t := by
  rintro g hg t ht id' hid hknown
  cases hid
  rw [← Txn.header_request]
  exact h hknown _ (mem_map_of_mem hg) _ (mem_map_of_mem ht)

-- By recursion on the transactions with all they submit.
mutual

theorem execTxn_secure (caller : Option UInt64) (group : List Txn) (index : ℕ) (s : Ledger)
    (t : Txn) (s' : Ledger) (h : Secure d s₀ s) (hmodest : Modest d s₀ caller t)
    (hs : execTxn d caller group index s t = some s') : Secure d s₀ s' := by
  cases t with
  | assetTransfer header transfer =>
    rw [execTxn] at hs
    simp only [Option.bind_eq_bind, Option.bind_eq_some_iff] at hs
    obtain ⟨s₁, henter, _, -, hs⟩ := hs
    cases hs
    exact h.enter hmodest henter
  | appCall header call logs inner =>
    rw [execTxn] at hs
    simp only [Option.bind_eq_bind, Option.bind_eq_some_iff] at hs
    obtain ⟨s₁, henter, s₂, happrove, hs⟩ := hs
    obtain ⟨h₂, hinner⟩ := approve_some (h.enter hmodest henter)
      (h.sender_ne_creator (enter_some henter).1) happrove
    exact execGroups_secure _ s₂ inner s' h₂ (modest_of_requests hinner) hs
  | other header =>
    rw [execTxn] at hs
    exact h.enter hmodest hs

theorem execGroups_secure (caller : Option UInt64) (s : Ledger) (groups : List (List Txn))
    (s' : Ledger) (h : Secure d s₀ s) (hmodest : ∀ g ∈ groups, ∀ t ∈ g, Modest d s₀ caller t)
    (hs : execGroups d caller s groups = some s') : Secure d s₀ s' := by
  cases groups with
  | nil =>
    rw [execGroups] at hs
    cases hs
    exact h
  | cons group groups =>
    rw [execGroups] at hs
    simp only [Option.bind_eq_bind, Option.bind_eq_some_iff] at hs
    obtain ⟨s₁, hgroup, hs⟩ := hs
    obtain ⟨hmodest₁, hmodest₂⟩ := forall_mem_cons.1 hmodest
    exact execGroups_secure caller s₁ groups s'
      (execGroup_secure caller group 0 s group s₁ h hmodest₁ hgroup) hmodest₂ hs

theorem execGroup_secure (caller : Option UInt64) (group : List Txn) (index : ℕ) (s : Ledger)
    (ts : List Txn) (s' : Ledger) (h : Secure d s₀ s) (hmodest : ∀ t ∈ ts, Modest d s₀ caller t)
    (hs : execGroup d caller group index s ts = some s') : Secure d s₀ s' := by
  cases ts with
  | nil =>
    rw [execGroup] at hs
    cases hs
    exact h
  | cons t ts =>
    rw [execGroup] at hs
    simp only [Option.bind_eq_bind, Option.bind_eq_some_iff] at hs
    obtain ⟨s₁, ht, hs⟩ := hs
    obtain ⟨hmodest₁, hmodest₂⟩ := forall_mem_cons.1 hmodest
    exact execGroup_secure caller group (index + 1) s₁ ts s'
      (execTxn_secure caller group index s t s₁ h hmodest₁ ht) hmodest₂ hs

end

theorem execGroup_visits {ts : List Txn} (h : Secure d s₀ s)
    (hmodest : ∀ t ∈ ts, Modest d s₀ caller t)
    (hs : execGroup d caller group index s ts = some s') (ht : ts[i]? = some t) :
    ∃ s₁ s₂, Secure d s₀ s₁ ∧ execTxn d caller group (index + i) s₁ t = some s₂ := by
  induction ts generalizing s index i with
  | nil => cases ht
  | cons u ts ih =>
    rw [execGroup] at hs
    simp only [Option.bind_eq_bind, Option.bind_eq_some_iff] at hs
    obtain ⟨s₁, hu, hs⟩ := hs
    obtain ⟨hmodest₁, hmodest₂⟩ := forall_mem_cons.1 hmodest
    cases i with
    | zero =>
      cases ht
      exact ⟨s, s₁, h, hu⟩
    | succ i =>
      rw [show index + (i + 1) = index + 1 + i by omega]
      exact ih (execTxn_secure caller group index s u s₁ h hmodest₁ hu) hmodest₂ hs ht

theorem execGroups_visits {groups : List (List Txn)} (h : Secure d s₀ s)
    (hmodest : ∀ g ∈ groups, ∀ t ∈ g, Modest d s₀ caller t)
    (hs : execGroups d caller s groups = some s') :
    ∀ g ∈ groups, ∃ s₁ s₂, Secure d s₀ s₁ ∧ execGroup d caller g 0 s₁ g = some s₂ := by
  induction groups generalizing s with
  | nil => simp
  | cons group groups ih =>
    rw [execGroups] at hs
    simp only [Option.bind_eq_bind, Option.bind_eq_some_iff] at hs
    obtain ⟨s₁, hgroup, hs⟩ := hs
    obtain ⟨hmodest₁, hmodest₂⟩ := forall_mem_cons.1 hmodest
    exact forall_mem_cons.2 ⟨⟨s, s₁, h, hgroup⟩,
      ih (execGroup_secure caller group 0 s group s₁ h hmodest₁ hgroup) hmodest₂ hs⟩

theorem message_sender {inner : List (List Txn)} (h : Secure d s₀ s)
    (hs : execTxn d caller group index s (.appCall header call logs inner) = some s')
    (hbmc : call.applicationID = d.bmcId) (hlog : v ∈ logs) :
    s₀.svc header.sender = some v ∧ authorized d s caller header.sender = true := by
  rw [execTxn] at hs
  simp only [Option.bind_eq_bind, Option.bind_eq_some_iff] at hs
  obtain ⟨s₁, henter, s₂, happrove, -⟩ := hs
  obtain ⟨hauth, hsvc, -⟩ := enter_some henter
  rw [approve, if_pos hbmc] at happrove
  have ha := bmc_approved (h.sender_ne_creator hauth) (follow_some.1 happrove)
  have hv := ha.logs v hlog
  rw [hsvc] at hv
  exact ⟨h.svc _ _ hv, hauth⟩

/-- A message of a service that one contract has stems from a deposit there,
and is the only thing that the deposit submits. -/
theorem message_of_deposit (hdep : Deployed d s₀) (hid : s₀.contracts id = some (kind, app))
    (hname : ∀ k, s₀.svc k = some v → k = app.address) (h : Secure d s₀ s)
    (hmodest : Modest d s₀ caller t) (hs : execTxn d caller group index s t = some s')
    (hu : .appCall header' call' logs' inner' ∈ t.innerTxns) (hbmc : call'.applicationID = d.bmcId)
    (hlog : v ∈ logs') :
    ∃ header call sendArgs logs,
      t = .appCall header call logs [[.appCall header' call' logs' inner']] ∧
      call.applicationID = id ∧ authorized d s caller header.sender = true ∧
      Deposits d kind app group index header.sender call sendArgs ∧
      call'.applicationArgs =
        [d.selector .sendMessage, sendArgs.target, sendArgs.sn, sendArgs.msg] := by
  obtain ⟨hne, haddress, -⟩ := hdep.contracts id kind app hid
  have hknown : Known d s₀ id := .inr (by rw [hid]; rfl)
  cases t with
  | assetTransfer header transfer => cases hu
  | other header => cases hu
  | appCall header call logs inner =>
    rw [execTxn] at hs
    simp only [Option.bind_eq_bind, Option.bind_eq_some_iff] at hs
    obtain ⟨s₁, henter, s₂, happrove, hs⟩ := hs
    have hauth := (enter_some henter).1
    have h₁ := h.enter hmodest henter
    obtain ⟨h₂, hinner⟩ := approve_some h₁ (h.sender_ne_creator hauth) happrove
    -- the call was executed for the application, and its sender is the contract
    obtain ⟨g, hg, hug⟩ := mem_flatten.1 hu
    obtain ⟨i, hi⟩ := mem_iff_getElem?.1 hug
    obtain ⟨s₃, _, h₃, hgroup⟩ := execGroups_visits h₂ (modest_of_requests hinner) hs g hg
    obtain ⟨s₄, _, h₄, hexec⟩ := execGroup_visits h₃ (modest_of_requests hinner g hg) hgroup hi
    obtain ⟨hsvc, hauth'⟩ := message_sender h₄ hexec hbmc hlog
    rw [hname _ hsvc, haddress] at hauth'
    have hcall : call.applicationID = id := Option.some.inj (h₄.caller_eq hknown hauth')
    have hcontract : s₁.contracts call.applicationID = some (kind, app) := by
      rw [h₁.contracts, hcall, hid]
    rw [approve, if_neg (by rw [hcall]; exact hne)] at happrove
    simp only [hcontract] at happrove
    obtain ⟨-, -, hasked⟩ := contract_approved (h.sender_ne_creator hauth) (follow_some.1 happrove)
    dsimp only at hasked
    have hrequest : Request.appCall header' call' ∈ (inner.map (·.map Txn.request)).flatten :=
      mem_flatten.2 ⟨_, mem_map_of_mem hg, mem_map_of_mem hug⟩
    rcases hasked with hasked | ⟨_, hasked⟩ | ⟨sendArgs, hasked, hdeposits⟩
    · rw [hasked] at hrequest
      cases hrequest
    · rw [hasked] at hrequest
      simp at hrequest
    · rw [hasked] at hrequest
      have hsend : Request.appCall header' call' = sendCall d app sendArgs := by
        simpa using hrequest
      have honly : inner = [[.appCall header' call' logs' inner']] := by
        obtain ⟨g', rfl, hg'⟩ := map_eq_singleton_iff.1 hasked
        obtain ⟨u, rfl, -⟩ := map_eq_singleton_iff.1 hg'
        cases mem_singleton.1 hg
        rw [mem_singleton.1 hug]
      cases hsend
      exact ⟨header, call, sendArgs, logs, by rw [honly], hcall, hauth, hdeposits, rfl⟩

end IconBridge.Algorand
