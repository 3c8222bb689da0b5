import Mathlib.Algebra.Order.BigOperators.Group.List
import IconBridge.Algorand.Security
import IconBridge.Go.Algo.Completeness

/-!
# Messages that leave Algorand are backed

What the receiver extracts under the service of a contract is what deposits
into that contract have sent, and the transfers behind the deposits cover it.
-/

namespace IconBridge.Go.Algo

open Lib Algorand List
open Algorand.Relay (Float64 smallNumbers)

def extracted (f : Float64) (c : Config) (faults : ℕ → Faults) (block : Block) (p : Progress) :
    List Event :=
  match (outcome (getRelayReceipts f c faults block) p).1 with
  | .ok receipts => receipts.flatMap Receipt.events
  | .error _ => []

def serviceMessage (name : String) (event : Event) : Option Bytes :=
  match decodeRelayMessage event.message with
  | .ok (svc, msg) => if svc = name then some msg else none
  | .error _ => none

def amountOf (msg : Bytes) : ℕ := ofBytes (msg.take 8)

def depositOf (d : Deployment) (id : UInt64) (kind : Kind) : Txn → Option Bytes
  | .appCall _ call _ _ => do
    guard (call.applicationID = id ∧ call.onCompletion = .noOp ∧
      call.applicationArgs[0]? = some (d.selector kind.send))
    let amount ← call.applicationArgs[1]?
    let isContract ← (← call.applicationArgs[2]?).head?
    let dst ← call.applicationArgs[3]?
    return depositMessage (ofBytes amount) (128 ≤ isContract.toNat) dst
  | .assetTransfer .. | .other _ => none

def incoming (app : App) : Txn → ℕ
  | .assetTransfer header t =>
    if t.xferAsset = app.assetId ∧ t.assetReceiver = app.address ∧
        t.assetSender.getD header.sender ≠ app.address then t.assetAmount else 0
  | .appCall .. | .other _ => 0

/-- The message that the receiver reads of an inner transaction, if it is one
under the service. -/
def named (c : Config) (name : String) (t : Txn) : Option Bytes :=
  if messageLog c (innerTxn t) = some (utf8 name) then (innerTxn t).applicationArgs[3]? else none

variable {c : Config} {d : Deployment} {s s' s₀ : Ledger} {id : UInt64} {kind : Kind} {app : App}
  {name : String}

theorem serviceMessage_of_relays (h : Relays c (innerTxn t) event)
    (hsize : event.message.length < 2 ^ 64) : serviceMessage name event = named c name t := by
  obtain ⟨txnLog, target, message, txSeq, hlog, -, hmessage, -, rfl⟩ := h
  rw [serviceMessage, encodeBMCMessage, decodeRelayMessage_encodeList hsize, named, hlog, hmessage]
  cases hutf8 : ofUtf8 txnLog with
  | none =>
    have hne : txnLog ≠ utf8 name := by
      rintro rfl
      rw [ofUtf8_utf8] at hutf8
      cases hutf8
    simp [hne]
  | some svc =>
    obtain rfl := utf8_of_ofUtf8 hutf8
    by_cases hname : svc = name
    · simp [hname]
    · have hne : utf8 svc ≠ utf8 name := by
        intro heq
        have hsome := ofUtf8_utf8 svc
        rw [heq, ofUtf8_utf8] at hsome
        exact hname (Option.some.inj hsome).symm
      simp [hname, hne]

theorem named_of_not_message (h : ¬ IsMessage c t) : named c name t = none := by
  have hnone : messageLog c (innerTxn t) = none := by simpa [IsMessage] using h
  rw [named, hnone]
  rfl

theorem filterMap_of_forall₂ {txns : List Txn} {events : List Event}
    (h : List.Forall₂ (fun t event => Relays c (innerTxn t) event) txns events)
    (hsize : ∀ event ∈ events, event.message.length < 2 ^ 64) :
    events.filterMap (serviceMessage name) = txns.filterMap (named c name) := by
  induction h with
  | nil => rfl
  | cons hrelays _ ih =>
    obtain ⟨hevent, hevents⟩ := forall_mem_cons.1 hsize
    rw [filterMap_cons, filterMap_cons, serviceMessage_of_relays hrelays hevent,
      ih hevents]

theorem filterMap_named (txns : List Txn) :
    (txns.filter (IsMessage c)).filterMap (named c name) = txns.filterMap (named c name) := by
  induction txns with
  | nil => rfl
  | cons t txns ih =>
    rw [filter_cons]
    split
    · rw [filterMap_cons, filterMap_cons, ih]
    · next hmsg =>
      rw [filterMap_cons_none (named_of_not_message (by simpa using hmsg)), ih]

theorem extracted_sublist {f : Float64} {faults : ℕ → Faults} {header : BlockHeader}
    {txns : List Txn} {p : Progress}
    (hsize : ∀ event ∈ extracted f c faults (blockOf header txns) p,
      event.message.length < 2 ^ 64) :
    ((extracted f c faults (blockOf header txns) p).filterMap (serviceMessage name)).Sublist
      ((txns.flatMap Txn.innerTxns).filterMap (named c name)) := by
  unfold extracted at hsize ⊢
  rw [getRelayReceipts_blockOf] at hsize ⊢
  cases hscan : outcome (scan f c faults header.round 0
      ((txns.flatMap Txn.innerTxns).map innerTxn)) p with
  | mk result p' =>
    rw [hscan] at hsize
    cases result with
    | error e => exact nil_sublist _
    | ok receipts =>
      have hforall := scan_forall₂ hscan
      dsimp only at hsize ⊢
      rw [filterMap_of_forall₂ hforall hsize, filterMap_named]

theorem deposit_some (h : deposit app g amount isContract dst = some args) :
    g.groupIndex = 0 ∧ g.sender = g.payment.sender ∧ g.payment.isAssetTransfer = true ∧
    g.payment.xferAsset = app.assetId ∧ g.payment.assetReceiver = app.address ∧
    g.payment.assetAmount = amount ∧ args.msg = depositMessage amount isContract dst := by
  unfold deposit at h
  split at h
  · next hguard =>
    obtain ⟨-, hindex, hsender, htype, hasset, hreceiver, hamount⟩ := hguard
    cases h
    exact ⟨hindex, hsender, htype, hasset, hreceiver, hamount, rfl⟩
  · cases h

theorem amountOf_depositMessage {amount : Bytes} (h : amount.length ≤ 8) (isContract : Bool)
    (dst : Bytes) : amountOf (depositMessage (ofBytes amount) isContract dst) = ofBytes amount := by
  have hlt : ofBytes amount < 256 ^ 8 :=
    (ofBytes_lt amount).trans_le (Nat.pow_le_pow_right (by decide) h)
  rw [amountOf, depositMessage, take_left' length_toBytes, ofBytes_toBytes,
    Nat.mod_eq_of_lt hlt]

def Pays (app : App) (sender : Key) (amount : ℕ) (pay : Txn) : Prop :=
  ∃ header t, pay = .assetTransfer header t ∧ header.sender = sender ∧
    t.xferAsset = app.assetId ∧ t.assetReceiver = app.address ∧ t.assetAmount = amount

theorem deposits_pays {header : TxnHeader} {call : ApplicationCall} (logs : List Bytes)
    (inner : List (List Txn))
    (h : Deposits d kind app group index header.sender call sendArgs)
    (hcall : call.applicationID = id) :
    index = 0 ∧ depositOf d id kind (.appCall header call logs inner) = some sendArgs.msg ∧
    ∃ pay, group[1]? = some pay ∧ Pays app header.sender (amountOf sendArgs.msg) pay := by
  obtain ⟨amount, flag, flags, dst, pay, hselector, hamount, hflag, hdst, hlen, hpay, hdeposit⟩ :=
    h.args
  obtain ⟨hindex, hsender, htype, hasset, hreceiver, hvalue, hmsg⟩ := deposit_some hdeposit
  have hfirst : call.applicationArgs[0]? = some (d.selector kind.send) := by
    rw [hselector]
    rfl
  refine ⟨hindex, ?_, pay, hpay, ?_⟩
  · simp [depositOf, hcall, h.noOp, hfirst, hamount, hflag, hdst, hmsg, guard]
  · rw [hmsg, amountOf_depositMessage hlen]
    cases pay with
    | assetTransfer header' t => exact ⟨header', t, rfl, hsender.symm, hasset, hreceiver, hvalue⟩
    | appCall header' call' logs' inner' => cases htype
    | other header' => cases htype

theorem messageLog_of_no_logs {t : InnerTxn} (h : t.logs = []) : messageLog c t = none := by
  rw [messageLog, h]
  split <;> rfl

theorem named_some (h : named c name t = some msg) :
    ∃ header call logs inner, t = .appCall header call logs inner ∧
      call.applicationID = c.appID ∧ utf8 name ∈ logs ∧ call.applicationArgs[3]? = some msg := by
  unfold named at h
  split at h
  · next hlog =>
    cases t with
    | assetTransfer header transfer =>
      rw [messageLog_of_no_logs rfl] at hlog
      cases hlog
    | other header =>
      rw [messageLog_of_no_logs rfl] at hlog
      cases hlog
    | appCall header call logs inner =>
      unfold messageLog at hlog
      split at hlog
      · next happ => exact ⟨header, call, logs, inner, rfl, happ, mem_of_head? hlog, h⟩
      · cases hlog
  · cases h

/-- A top-level transaction yields a message only as a deposit at the head of
its group. -/
theorem named_txn (hdep : Deployed d s₀) (hc : c.appID = d.bmcId)
    (hid : s₀.contracts id = some (kind, app))
    (hname : ∀ k, s₀.svc k = some (utf8 name) → k = app.address) (h : Secure d s₀ s)
    (hs : execTxn d none group index s t = some s') :
    t.innerTxns.filterMap (named c name) = [] ∨
    index = 0 ∧ ∃ msg pay, t.innerTxns.filterMap (named c name) = [msg] ∧
      depositOf d id kind t = some msg ∧ group[1]? = some pay ∧
      Pays app t.header.sender (amountOf msg) pay ∧
      authorized d s none t.header.sender = true := by
  by_cases hnone : ∀ u ∈ t.innerTxns, named c name u = none
  · exact .inl (filterMap_eq_nil_iff.2 hnone)
  right
  obtain ⟨u, hnone⟩ := not_forall.1 hnone
  obtain ⟨hu, hsome⟩ := Classical.not_imp.1 hnone
  obtain ⟨msg, hmsg⟩ := Option.ne_none_iff_exists'.1 hsome
  obtain ⟨header', call', logs', inner', rfl, happ, hlog, hargs⟩ := named_some hmsg
  obtain ⟨header, call, sendArgs, logs, rfl, hcall, hauth, hdeposits, hsent⟩ :=
    message_of_deposit hdep hid hname h (fun _ hcaller => by cases hcaller) hs hu (happ.trans hc)
      hlog
  obtain ⟨hindex, hdepositOf, pay, hpay, hpays⟩ :=
    deposits_pays logs [[.appCall header' call' logs' inner']] hdeposits hcall
  rw [hsent] at hargs
  cases hargs
  refine ⟨hindex, sendArgs.msg, pay, ?_, hdepositOf, hpay, hpays, hauth⟩
  simp [Txn.innerTxns, Txn.innerGroups, hmsg]

theorem modest_none (t : Txn) : Modest d s₀ none t := fun _ hcaller => by cases hcaller

theorem transfer_source (hclawback : d.clawback t.xferAsset = none)
    (hs : execTxn d caller group index s (.assetTransfer header t) = some s') :
    t.assetSender = none := by
  rw [execTxn] at hs
  simp only [Option.bind_eq_bind, Option.bind_eq_some_iff] at hs
  obtain ⟨_, -, _, hguard, -⟩ := hs
  by_contra hne
  simp [guard, hne, hclawback] at hguard

theorem incoming_of_pays (hdep : Deployed d s₀) (hid : s₀.contracts id = some (kind, app))
    (hclawback : d.clawback app.assetId = none) (h : Secure d s₀ s₁)
    (hauth : authorized d s₁ none sender = true) (hpays : Pays app sender amount pay)
    (hs : execTxn d caller group index s pay = some s') : incoming app pay = amount := by
  obtain ⟨header, t, rfl, rfl, hasset, hreceiver, hamount⟩ := hpays
  have hsource := transfer_source (by rwa [hasset]) hs
  have hne : header.sender ≠ app.address := by
    intro heq
    obtain ⟨-, haddress, -⟩ := hdep.contracts id kind app hid
    rw [heq, haddress] at hauth
    cases h.caller_eq (.inr (by rw [hid]; rfl)) hauth
  simp [incoming, hasset, hreceiver, hsource, hne, hamount]

/-- The messages of a group come from deposits in it, and transfers in it cover
them. -/
theorem named_group (hdep : Deployed d s₀) (hc : c.appID = d.bmcId)
    (hid : s₀.contracts id = some (kind, app))
    (hname : ∀ k, s₀.svc k = some (utf8 name) → k = app.address)
    (hclawback : d.clawback app.assetId = none) {g : List Txn} (h : Secure d s₀ s)
    (hs : execGroup d none g 0 s g = some s') :
    ((g.flatMap Txn.innerTxns).filterMap (named c name)).Sublist
      (g.filterMap (depositOf d id kind)) ∧
    (((g.flatMap Txn.innerTxns).filterMap (named c name)).map amountOf).sum ≤
      (g.map (incoming app)).sum := by
  have hvisits : ∀ i t, g[i]? = some t →
      ∃ s₁ s₂, Secure d s₀ s₁ ∧ execTxn d none g i s₁ t = some s₂ := by
    intro i t ht
    obtain ⟨s₁, s₂, h₁, hexec⟩ := execGroup_visits h (fun t _ => modest_none t) hs ht
    rw [Nat.zero_add] at hexec
    exact ⟨s₁, s₂, h₁, hexec⟩
  cases g with
  | nil => simp
  | cons t ts =>
    have htail : (ts.flatMap Txn.innerTxns).filterMap (named c name) = [] := by
      rw [filterMap_eq_nil_iff]
      intro u hu
      obtain ⟨t', ht', hu⟩ := mem_flatMap.1 hu
      obtain ⟨i, hi⟩ := mem_iff_getElem?.1 ht'
      obtain ⟨s₁, s₂, h₁, hexec⟩ := hvisits (i + 1) t' hi
      rcases named_txn hdep hc hid hname h₁ hexec with hnil | ⟨hindex, -⟩
      · exact filterMap_eq_nil_iff.1 hnil u hu
      · cases hindex
    obtain ⟨s₁, s₂, h₁, hexec⟩ := hvisits 0 t rfl
    rw [flatMap_cons, filterMap_append, htail, append_nil]
    rcases named_txn hdep hc hid hname h₁ hexec with
      hnil | ⟨-, msg, pay, hmsg, hdeposit, hpay, hpays, hauth⟩
    · rw [hnil]
      exact ⟨nil_sublist _, Nat.zero_le _⟩
    · obtain ⟨s₃, s₄, -, hexecPay⟩ := hvisits 1 pay hpay
      have hincoming := incoming_of_pays hdep hid hclawback h₁ hauth hpays hexecPay
      rw [hmsg]
      constructor
      · rw [filterMap_cons_some hdeposit]
        exact (nil_sublist _).cons_cons msg
      · have hmem : incoming app pay ∈ (t :: ts).map (incoming app) :=
          mem_map_of_mem (mem_of_getElem? hpay)
        rw [map_singleton, sum_singleton, ← hincoming]
        exact single_le_sum (fun _ _ => Nat.zero_le _) _ hmem

theorem named_groups (hdep : Deployed d s₀) (hc : c.appID = d.bmcId)
    (hid : s₀.contracts id = some (kind, app))
    (hname : ∀ k, s₀.svc k = some (utf8 name) → k = app.address)
    (hclawback : d.clawback app.assetId = none) {groups : List (List Txn)}
    (hgroups : ∀ g ∈ groups, ∃ s s', Secure d s₀ s ∧ execGroup d none g 0 s g = some s') :
    ((groups.flatten.flatMap Txn.innerTxns).filterMap (named c name)).Sublist
      (groups.flatten.filterMap (depositOf d id kind)) ∧
    (((groups.flatten.flatMap Txn.innerTxns).filterMap (named c name)).map amountOf).sum ≤
      (groups.flatten.map (incoming app)).sum := by
  induction groups with
  | nil => simp
  | cons g groups ih =>
    obtain ⟨⟨s, s', h, hs⟩, hrest⟩ := forall_mem_cons.1 hgroups
    obtain ⟨hsub, hsum⟩ := named_group hdep hc hid hname hclawback h hs
    obtain ⟨hsubs, hsums⟩ := ih hrest
    rw [flatten_cons, flatMap_append, filterMap_append, filterMap_append,
      map_append, map_append, sum_append, sum_append]
    exact ⟨hsub.append hsubs, Nat.add_le_add hsum hsums⟩

def Scans (c : Config) (blocks : List (BlockHeader × List (List Txn)))
    (events : List (List Event)) : Prop :=
  List.Forall₂ (fun block events => ∃ f faults p,
    events = extracted f c faults (blockOf block.1 block.2.flatten) p) blocks events

theorem scans_sublist (name : String) {blocks : List (BlockHeader × List (List Txn))}
    {events : List (List Event)} (h : Scans c blocks events)
    (hsize : ∀ event ∈ events.flatten, event.message.length < 2 ^ 64) :
    (events.flatten.filterMap (serviceMessage name)).Sublist
      (((blocks.flatMap Prod.snd).flatten.flatMap Txn.innerTxns).filterMap (named c name)) := by
  induction h with
  | nil => exact nil_sublist _
  | cons hblock _ ih =>
    obtain ⟨f, faults, p, rfl⟩ := hblock
    rw [flatten_cons] at hsize ⊢
    obtain ⟨hhead, hrest⟩ := forall_mem_append.1 hsize
    rw [filterMap_append, flatMap_cons, flatten_append, flatMap_append,
      filterMap_append]
    exact (extracted_sublist hhead).append (ih hrest)

theorem sum_map_le_of_sublist {l l' : List Bytes} (h : l.Sublist l') :
    (l.map amountOf).sum ≤ (l'.map amountOf).sum :=
  (h.map amountOf).sum_le_sum fun _ _ => Nat.zero_le _

theorem sum_incoming_le (app : App) (txns : List Txn) :
    (txns.map (incoming app)).sum ≤ ((txns.flatMap Txn.all).map (incoming app)).sum := by
  induction txns with
  | nil => exact le_rfl
  | cons t txns ih =>
    rw [map_cons, sum_cons, flatMap_cons, map_append, sum_append,
      Txn.all_eq, map_cons, sum_cons]
    omega

/-- Events under the service of a contract are, one for one, the messages of
deposits into it, and what was transferred to the contract covers them. -/
theorem outbound_backed (d : Deployment) (c : Config) (s₀ s : Ledger) (id : UInt64) (kind : Kind)
    (app : App) (name : String) (blocks : List (BlockHeader × List (List Txn)))
    (events : List (List Event)) (hdep : Deployed d s₀) (hc : c.appID = d.bmcId)
    (hid : s₀.contracts id = some (kind, app))
    (hname : ∀ k, s₀.svc k = some (utf8 name) → k = app.address)
    (hclawback : d.clawback app.assetId = none)
    (hexec : execGroups d none s₀ (blocks.flatMap Prod.snd) = some s)
    (hscans : Scans c blocks events)
    (hsize : ∀ event ∈ events.flatten, event.message.length < 2 ^ 64) :
    (events.flatten.filterMap (serviceMessage name)).Sublist
      ((blocks.flatMap Prod.snd).flatten.filterMap (depositOf d id kind)) ∧
    ((events.flatten.filterMap (serviceMessage name)).map amountOf).sum ≤
      (((blocks.flatMap Prod.snd).flatten.flatMap Txn.all).map (incoming app)).sum := by
  have hgroups := execGroups_visits hdep.secure (fun _ _ t _ => modest_none t) hexec
  obtain ⟨hdeposits, hcovered⟩ := named_groups hdep hc hid hname hclawback hgroups
  have hevents := scans_sublist name hscans hsize
  exact ⟨hevents.trans hdeposits, (sum_map_le_of_sublist hevents).trans
    (hcovered.trans (sum_incoming_le app _))⟩

def sampleSelector : Method → Bytes
  | .registerBSHContract => [0]
  | .setRelayer => [1]
  | .sendMessage => [2]
  | .handleRelayMessage => [3]
  | .init => [4]
  | .deposit => [5]
  | .burn => [6]
  | .handleBTPMessage => [7]

/-- Addresses of applications start with 1, keys of accounts with 2. -/
def sampleDeployment : Deployment where
  creator := [0]
  bmcId := 7
  address id := 1 :: toBytes 8 id.toNat
  selector := sampleSelector
  clawback _ := none
  held k := k.head? = some 2
  address_injective := by
    intro a b h
    have hbytes : ofBytes (toBytes 8 a.toNat) = ofBytes (toBytes 8 b.toNat) :=
      congrArg ofBytes (List.cons.inj h).2
    rw [ofBytes_toBytes, ofBytes_toBytes] at hbytes
    have ha := a.toNat_lt
    have hb := b.toNat_lt
    exact UInt64.toNat_inj.1 (by omega)
  selector_injective := by
    intro a b h
    cases a <;> cases b <;> first | rfl | cases h
  address_ne_creator := by simp
  not_held_creator := rfl
  not_held_address _ := rfl

def sampleEscrow : App where
  initialized := true
  bmcId := 7
  receiverAddress := "btp://0x1.icon/cx01"
  assetId := 5
  address := sampleDeployment.address 8

def sampleLedger : Ledger where
  auth k := k
  optedIn k := k = sampleEscrow.address
  svc k := if k = sampleEscrow.address then some (utf8 "escrow") else none
  relayer := [0]
  contracts id := if id = 8 then some (.escrow, sampleEscrow) else none

theorem sampleLedger_deployed : Deployed sampleDeployment sampleLedger where
  creator := rfl
  auth _ _ := rfl
  contracts id kind app h := by
    dsimp only [sampleLedger] at h
    split at h
    · next hid =>
      cases h
      subst hid
      exact ⟨by decide, rfl, rfl⟩
    · cases h

def depositGroup : List Txn :=
  [.appCall { sender := [2] }
    { applicationID := 8
      applicationArgs := [[5], toBytes 8 100, [0], List.replicate 20 1] } []
    [[.appCall { sender := sampleEscrow.address }
      { applicationID := 7
        applicationArgs := [[2], toBytes 2 19 ++ utf8 "btp://0x1.icon/cx01", toBytes 8 1,
          depositMessage 100 false (List.replicate 20 1)] }
      [utf8 "escrow"] []]],
   .assetTransfer { sender := [2] }
    { xferAsset := 5, assetAmount := 100, assetReceiver := sampleEscrow.address }]

def depositEvents : List (List Event) :=
  [extracted smallNumbers sampleConfig (fun _ _ => none) (blockOf sampleHeader depositGroup)
    { seq := 1, status := fun _ => 0 }]

theorem deposit_backed :
    (depositEvents.flatten.filterMap (serviceMessage "escrow")).map amountOf = [100] ∧
    [100].sum ≤ ((depositGroup.flatMap Txn.all).map (incoming sampleEscrow)).sum := by
  have hamounts : (depositEvents.flatten.filterMap (serviceMessage "escrow")).map amountOf =
      [100] := by
    decide +kernel
  obtain ⟨s, hs⟩ := Option.isSome_iff_exists.1
    (show (execGroups sampleDeployment none sampleLedger [depositGroup]).isSome by decide +kernel)
  have hbacked := (outbound_backed sampleDeployment sampleConfig sampleLedger s 8 .escrow
    sampleEscrow "escrow" [(sampleHeader, [depositGroup])] depositEvents sampleLedger_deployed rfl rfl
    (fun k hk => by
      dsimp only [sampleLedger] at hk
      split at hk
      · assumption
      · cases hk) rfl hs
    (.cons ⟨smallNumbers, fun _ _ => none, { seq := 1, status := fun _ => 0 }, rfl⟩ .nil)
    (by decide +kernel)).2
  rw [hamounts] at hbacked
  exact ⟨hamounts, hbacked⟩

end IconBridge.Go.Algo
