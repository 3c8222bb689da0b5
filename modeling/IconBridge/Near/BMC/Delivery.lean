import IconBridge.Lib.Runs
import IconBridge.Near.BMC.Handling

/-!
# Delivery of the messages of a service

A service names the network that its message is for. If a link to that network
is registered, the message is addressed to such a link, and emitted to it when
the promise is executed. The proof needs that the connections of the networks
hold the registered links and no others; what the message center knows of the
networks behind its links need not be so, and is not used.
-/

namespace IconBridge.Near.BMC

open Lib Function List
open Near.BTS (Outcome AccountId u128Max i128Min add add_ok)

variable {B : Type} {c : Config B} {s s' t : St B}

structure SameLinks (s s' : St B) : Prop where
  keys : s'.linkKeys = s.linkKeys
  stored : ∀ a, (s'.links a).isSome = (s.links a).isSome
  connected : ∀ network, s'.connections (.link network) = s.connections (.link network)

namespace SameLinks

theorem refl (s : St B) : SameLinks s s := ⟨rfl, fun _ => rfl, fun _ => rfl⟩

theorem trans (h : SameLinks s s') (h' : SameLinks s' t) : SameLinks s t where
  keys := h'.keys.trans h.keys
  stored a := (h'.stored a).trans (h.stored a)
  connected network := (h'.connected network).trans (h.connected network)

theorem promise (s : St B) (p : Promise B) : SameLinks s (s.promise p) := ⟨rfl, fun _ => rfl, fun _ => rfl⟩

theorem setLink (h : (s.links a).isSome) (property : Link) : SameLinks s (s.setLink a property) where
  keys := rfl
  stored b := by
    by_cases hb : b = a
    · subst hb
      simp [St.setLink, h]
    · simp [St.setLink, hb]
  connected _ := rfl

theorem addConnection (h : ∀ network, connection ≠ .link network) (a : BTPAddress) :
    SameLinks s (s.addConnection connection a) where
  keys := rfl
  stored _ := rfl
  connected network := update_of_ne (h network).symm _ _

theorem removeConnection (h : ∀ network, connection ≠ .link network) (a : BTPAddress) :
    SameLinks s (s.removeConnection connection a) where
  keys := rfl
  stored _ := rfl
  connected network := update_of_ne (h network).symm _ _

theorem modifyLink (s : St B) (a : BTPAddress) (f : Link → Link) : SameLinks s (s.modifyLink a f) := by
  unfold St.modifyLink
  split
  · next hlink => exact setLink (by simp [hlink]) _
  · exact refl s

theorem setRelayStatus (s : St B) (a : BTPAddress) (property : Link) (relay : AccountId) (n : ℕ) :
    SameLinks s (s.setRelayStatus a property relay n).1 := by
  unfold St.setRelayStatus
  split <;> exact ⟨rfl, fun _ => rfl, fun _ => rfl⟩

theorem foldlM {l : List α} {f : St B → α → Except ε (St B)}
    (hf : ∀ s a s', f s a = .ok s' → SameLinks s s') (h : l.foldlM f s = .ok s') : SameLinks s s' :=
  foldlM_ok (fun _ _ _ _ hs hstep => hs.trans (hf _ _ _ hstep)) (refl s) h

end SameLinks

theorem sendMessage_sameLinks (h : sendMessage c s source destination m = .ok s') :
    SameLinks s s' := by
  obtain ⟨next, m', rfl⟩ := sendMessage_promise h
  exact .promise s _

theorem sendError_sameLinks (h : sendError c s source exception m = .ok s') : SameLinks s s' := by
  obtain ⟨reply, next, -, rfl⟩ := sendError_ok h
  exact .promise s _

theorem propagateInternal_sameLinks (h : propagateInternal c s m = .ok s') : SameLinks s s' :=
  .foldlM (fun _ _ _ hsend => sendMessage_sameLinks hsend) h

theorem sendServiceMessage_sameLinks
    (h : sendServiceMessage c s caller serialNo service network payload = .ok s') :
    SameLinks s s' := by
  simp only [sendServiceMessage, bind_ok] at h
  obtain ⟨_, -, next, -, h⟩ := h
  split at h
  · simp at h
  · exact sendMessage_sameLinks h

theorem emitMessage_sameLinks (h : emitMessage s link m = .ok s') : SameLinks s s' := by
  unfold emitMessage at h
  split at h
  · next property hlink =>
    simp only [bind_ok, pure_ok] at h
    obtain ⟨txSeq, -, rfl⟩ := h
    have hset := SameLinks.setLink (s := s) (a := link) (by simp [hlink]) { property with txSeq }
    exact ⟨hset.keys, hset.stored, hset.connected⟩
  · cases h
    exact .refl s

theorem Hears.sameLinks (h : Hears source m s s') : SameLinks s s' := by
  obtain ⟨property, _, hlink, ⟨connections, rfl, hconnected⟩, rfl, -⟩ := h
  have hrewired : SameLinks s { s with connections } := ⟨rfl, fun _ => rfl, hconnected⟩
  refine hrewired.trans (.setLink ?_ _)
  rw [hlink]
  rfl

theorem handleServiceMessage_sameLinks (h : handleServiceMessage c s source m = .ok s') :
    SameLinks s s' := by
  cases handleServiceMessage_handles h with
  | told t _ _ h => exact h.sameLinks
  | promised ps _ _ _ h | refused reply next _ _ _ h => exact h ▸ ⟨rfl, fun _ => rfl, fun _ => rfl⟩

theorem handleBtpMessages_sameLinks (h : handleBtpMessages c s source messages = .ok s') :
    SameLinks s s' := by
  obtain ⟨mid, hservice, hroute⟩ := bind_ok.1 h
  exact (SameLinks.foldlM (fun _ _ _ => handleServiceMessage_sameLinks) hservice).trans
    (.foldlM (fun _ _ _ => sendMessage_sameLinks) hroute)

theorem handleRelayMessage_sameLinks (h : handleRelayMessage c s caller source receipts = .ok s') :
    SameLinks s s' := by
  simp only [handleRelayMessage, processBmcMessages, bind_ok, pure_ok] at h
  obtain ⟨_, -, _, -, link, hlink, ⟨messages, link'⟩, -, _, ⟨_, -, _, -, mid, hmid, rfl⟩, rfl⟩ := h
  have hsame := (SameLinks.setRelayStatus _ _ _ _ _).trans (handleBtpMessages_sameLinks hmid)
  refine hsame.trans (.setLink ?_ _)
  rw [hsame.stored, BTS.unwrap_ok.1 hlink]
  rfl

theorem routeEntry_sameLinks (h : s.addRoute destination link = .ok s') : SameLinks s s' := by
  obtain ⟨_, -, h⟩ := bind_ok.1 h
  cases h
  exact ⟨rfl, fun _ => rfl, fun _ => rfl⟩

theorem addRoute_sameLinks (h : addRoute s caller destination link = .ok s') : SameLinks s s' := by
  simp only [addRoute, bind_ok, pure_ok] at h
  obtain ⟨_, -, _, -, _, -, mid, hentry, network, -, rfl⟩ := h
  exact (routeEntry_sameLinks hentry).trans (.addConnection (by simp) link)

theorem noRouteEntry_sameLinks (h : s.removeRoute destination = .ok s') : SameLinks s s' := by
  obtain ⟨_, -, h⟩ := bind_ok.1 h
  cases h
  exact ⟨rfl, fun _ => rfl, fun _ => rfl⟩

theorem removeRoute_sameLinks (h : removeRoute s caller destination = .ok s') : SameLinks s s' := by
  simp only [removeRoute, bind_ok, pure_ok] at h
  obtain ⟨_, -, _, -, _, -, mid, hentry, network, -, rfl⟩ := h
  exact (noRouteEntry_sameLinks hentry).trans (.removeConnection (by simp) _)

/-- The links are listed once and stored, and the connection of a network holds
the links to it. -/
structure Wired (s : St B) : Prop where
  nodup : s.linkKeys.Nodup
  stored : ∀ a, a ∈ s.linkKeys ↔ (s.links a).isSome
  mem : ∀ network a, a ∈ (s.connections (.link network)).getD [] ↔
    a ∈ s.linkKeys ∧ a.networkAddress = .ok network
  nonempty : ∀ network, s.connections (.link network) ≠ some []

theorem Wired.sameLinks (hs : Wired s) (h : SameLinks s s') : Wired s' where
  nodup := h.keys ▸ hs.nodup
  stored a := by rw [h.keys, h.stored]; exact hs.stored a
  mem network a := by rw [h.keys, h.connected]; exact hs.mem network a
  nonempty network := by rw [h.connected]; exact hs.nonempty network

theorem initialState_wired (c : Config B) : Wired (initialState c) := by
  constructor <;> simp [initialState]

theorem Wired.added (hs : Wired s) (ha : a ∉ s.linkKeys) (hnetwork : a.networkAddress = .ok network) :
    Wired ((s.addLink a).addConnection (.link network) a) where
  nodup := by
    simp only [St.addConnection, St.addLink, if_neg ha]
    exact hs.nodup.append (nodup_singleton a) (by simpa using ha)
  stored b := by
    simp only [St.addConnection, St.addLink, if_neg ha]
    by_cases hb : b = a
    · simp [hb]
    · simp [hb, hs.stored]
  mem n b := by
    simp only [St.addConnection, St.addLink, if_neg ha, mem_append, mem_singleton]
    by_cases hn : n = network
    · subst hn
      simp only [update_self, Option.getD_some, mem_insert_iff, hs.mem]
      grind
    · rw [update_of_ne (by simpa using hn), hs.mem]
      grind
  nonempty n := by
    simp only [St.addConnection, St.addLink]
    by_cases hn : n = network
    · subst hn
      intro hnil
      have hmem : a ∈ ((s.connections (.link n)).getD []).insert a := mem_insert_self
      rw [update_self, Option.some.injEq] at hnil
      simp [hnil] at hmem
    · rw [update_of_ne (by simpa using hn)]
      exact hs.nonempty n

theorem kept_ne_nil [DecidableEq α] (l : List α) : (if l = [] then none else some l) ≠ some [] := by
  by_cases h : l = [] <;> simp [h]

theorem Wired.removed (hs : Wired s) (ha : a ∈ s.linkKeys) (hnetwork : a.networkAddress = .ok network) :
    Wired ((s.removeLink a).removeConnection (.link network) a) where
  nodup := by
    simp only [St.removeConnection, St.removeLink, if_pos ha]
    exact nodup_swapErase hs.nodup
  stored b := by
    simp only [St.removeConnection, St.removeLink, if_pos ha, mem_swapErase hs.nodup ha]
    by_cases hb : b = a
    · simp [hb]
    · simp [hb, hs.stored]
  mem n b := by
    simp only [St.removeConnection, St.removeLink, if_pos ha, mem_swapErase hs.nodup ha]
    by_cases hn : n = network
    · subst hn
      rw [update_self, and_assoc, ← hs.mem, getD_kept]
      simp [and_comm]
    · rw [update_of_ne (by simpa using hn), hs.mem]
      grind
  nonempty n := by
    simp only [St.removeConnection, St.removeLink]
    by_cases hn : n = network
    · subst hn
      rw [update_self]
      exact kept_ne_nil _
    · rw [update_of_ne (by simpa using hn)]
      exact hs.nonempty n

theorem addLink_wired (hs : Wired s) (h : addLink c s caller a = .ok s') : Wired s' := by
  simp only [addLink, assertLinkDoesNotExists, bind_ok, require_ok, decide_eq_true_eq] at h
  obtain ⟨_, -, _, ha, mid, hpropagate, network, hnetwork, hsend⟩ := h
  have hmid := propagateInternal_sameLinks hpropagate
  have hadded := (hs.sameLinks hmid).added (hmid.keys ▸ ha) (unwrap_ok.1 hnetwork)
  exact hadded.sameLinks (sendMessage_sameLinks hsend)

theorem removeLink_wired (hs : Wired s) (h : removeLink c s caller a = .ok s') : Wired s' := by
  simp only [removeLink, assertLinkExists, bind_ok, require_ok, decide_eq_true_eq, pure_ok] at h
  obtain ⟨_, -, _, ha, _, -, mid, hpropagate, network, hnetwork, rfl⟩ := h
  have hmid := propagateInternal_sameLinks hpropagate
  exact (hs.sameLinks hmid).removed (hmid.keys ▸ ha) (unwrap_ok.1 hnetwork)

theorem call_wired {call : Call B} (hs : Wired s) (h : call.run c s caller = .ok s') : Wired s' := by
  cases call with
  | addOwner account =>
    simp only [Call.run, addOwner, bind_ok, pure_ok] at h
    obtain ⟨_, -, _, -, rfl⟩ := h
    exact hs.sameLinks ⟨rfl, fun _ => rfl, fun _ => rfl⟩
  | removeOwner account =>
    simp only [Call.run, removeOwner, bind_ok, pure_ok] at h
    obtain ⟨_, -, _, -, _, -, rfl⟩ := h
    exact hs.sameLinks ⟨rfl, fun _ => rfl, fun _ => rfl⟩
  | addService name service =>
    simp only [Call.run, addService, bind_ok, pure_ok] at h
    obtain ⟨_, -, _, -, rfl⟩ := h
    exact hs.sameLinks ⟨rfl, fun _ => rfl, fun _ => rfl⟩
  | removeService name =>
    simp only [Call.run, removeService, bind_ok, pure_ok] at h
    obtain ⟨_, -, _, -, rfl⟩ := h
    exact hs.sameLinks ⟨rfl, fun _ => rfl, fun _ => rfl⟩
  | addRelays link relays =>
    simp only [Call.run, addRelays, bind_ok, pure_ok] at h
    obtain ⟨_, -, _, -, rfl⟩ := h
    exact hs.sameLinks (.modifyLink s link _)
  | addRelay link relay =>
    simp only [Call.run, addRelay, bind_ok, pure_ok] at h
    obtain ⟨_, -, _, -, _, -, rfl⟩ := h
    exact hs.sameLinks (.modifyLink s link _)
  | removeRelay link relay =>
    simp only [Call.run, removeRelay, bind_ok, pure_ok] at h
    obtain ⟨_, -, _, -, _, -, rfl⟩ := h
    exact hs.sameLinks (.modifyLink s link _)
  | addLink link => exact addLink_wired hs h
  | removeLink link => exact removeLink_wired hs h
  | setLinkRxHeight link height =>
    simp only [Call.run, setLinkRxHeight, bind_ok, pure_ok] at h
    obtain ⟨_, -, _, -, rfl⟩ := h
    exact hs.sameLinks (.modifyLink s link _)
  | addRoute destination link => exact hs.sameLinks (addRoute_sameLinks h)
  | removeRoute destination => exact hs.sameLinks (removeRoute_sameLinks h)
  | handleRelayMessage source receipts => exact hs.sameLinks (handleRelayMessage_sameLinks h)
  | sendServiceMessage serialNo service network payload =>
    exact hs.sameLinks (sendServiceMessage_sameLinks h)

theorem promise_sameLinks {p : Promise B} (h : p.run c s succeeded = .ok s') : SameLinks s s' := by
  cases p with
  | emitMessage link m =>
    obtain ⟨m', -, h⟩ := bind_ok.1 h
    exact emitMessage_sameLinks h
  | handleBtpMessage service source m =>
    obtain ⟨m', -, h⟩ := bind_ok.1 h
    cases succeeded with
    | true => cases h; exact .refl s
    | false => exact sendError_sameLinks h
  | handleBtpError service source m =>
    obtain ⟨m', -, h⟩ := bind_ok.1 h
    cases succeeded with
    | true => cases h; exact .refl s
    | false =>
      simp only [handleBtpErrorCallback, Bool.false_eq_true, if_false, bind_ok, pure_ok] at h
      obtain ⟨_, -, _, -, _, -, rfl⟩ := h
      exact ⟨rfl, fun _ => rfl, fun _ => rfl⟩
  | handleFeeGathering account feeAggregator service =>
    cases h
    exact .refl s

theorem step_wired (hs : Wired s) (h : step c s act = .ok s') : Wired s' := by
  cases act with
  | call caller call =>
    obtain ⟨_, -, h⟩ := bind_ok.1 h
    exact call_wired hs h
  | execute i succeeded =>
    simp only [step] at h
    split at h
    · cases h
    · have htaken : SameLinks s { s with promises := s.promises.eraseIdx i } :=
        ⟨rfl, fun _ => rfl, fun _ => rfl⟩
      split at h
      · next hrun =>
        cases h
        exact hs.sameLinks (htaken.trans (promise_sameLinks hrun))
      · cases h
        exact hs.sameLinks htaken

theorem run_wired (c : Config B) (acts : List (Act B)) : Wired (run (step c) (initialState c) acts) :=
  run_induct (fun _ _ _ => step_wired) (initialState_wired c)

def Linked (s : St B) (network : String) : Prop :=
  ∃ link ∈ s.linkKeys, link.networkAddress = .ok network

instance : Decidable (Linked s network) :=
  inferInstanceAs (Decidable (∃ link ∈ s.linkKeys, link.networkAddress = .ok network))

theorem isSome_of_mem_getD {o : Option (List α)} (h : a ∈ o.getD []) : o.isSome := by
  cases o with
  | none => cases h
  | some l => rfl

theorem connection_of_mem (c : Config B) (h : a ∈ (s.connections x).getD []) :
    (s.connections x).isSome ∧ ∃ link ∈ (s.connections x).getD [], s.connection c x = some link := by
  obtain ⟨link, hlink⟩ := Option.isSome_iff_exists.1 (c.last_isSome _ (ne_nil_of_mem h))
  exact ⟨isSome_of_mem_getD h, link, c.last_mem _ _ hlink, hlink⟩

theorem resolveRoute_registered (h : link ∈ s.linkKeys) : resolveRoute c s link = .ok (some link) :=
  if_pos h

theorem resolveRoute_linked (hs : Wired s) (h : Linked s network) :
    ∃ link ∈ s.linkKeys, link.networkAddress = .ok network ∧
      resolveRoute c s (serviceAddress network) = .ok (some link) := by
  obtain ⟨a, ha, hnetwork⟩ := h
  have hservice := serviceAddress_network (BTPAddress.noSlash_of_networkAddress hnetwork)
  by_cases hkey : serviceAddress network ∈ s.linkKeys
  · exact ⟨_, hkey, hservice, resolveRoute_registered hkey⟩
  obtain ⟨hsome, link, hmem, hlast⟩ := connection_of_mem c ((hs.mem network a).2 ⟨ha, hnetwork⟩)
  have hlink := (hs.mem network link).1 hmem
  refine ⟨link, hlink.1, hlink.2, ?_⟩
  rw [resolveRoute, if_neg hkey, hservice]
  simp [unwrap, Except.mapError, hsome, hlast, pure, Except.pure]

theorem sendServiceMessage_linked (hs : Wired s) (hlinked : Linked s network)
    (h : sendServiceMessage c s caller serialNo service network payload = .ok s') :
    ∃ link ∈ s.linkKeys, link.networkAddress = .ok network ∧
      s' = s.promise (.emitMessage link
        { source := c.btpAddress, destination := link, service, serialNo, payload }) := by
  obtain ⟨link, hkey, hnetwork, hroute⟩ := resolveRoute_linked (c := c) hs hlinked
  refine ⟨link, hkey, hnetwork, ?_⟩
  simp only [sendServiceMessage, hroute, ok_bind, bind_ok, sendMessage] at h
  obtain ⟨_, -, h⟩ := h
  cases hdepth : c.depth with
  | zero => rw [hdepth] at h; cases h
  | succ depth =>
    rw [hdepth, sendMessageIn, resolveRoute_registered hkey] at h
    cases h
    rfl

theorem execute_emitMessage (hp : t.promises[i]? = some (.emitMessage link m))
    (hlink : t.links link = some property) (htx : property.txSeq < u128Max)
    (hread : m.reread = .ok m') :
    step c t (.execute i succeeded) = .ok { t with
      promises := t.promises.eraseIdx i
      links := update t.links link (some { property with txSeq := property.txSeq + 1 })
      emitted := t.emitted ++ [{ next := link, sequence := property.txSeq + 1, message := m' }] } := by
  have hadd : unwrap (add property.txSeq 1) = .ok (property.txSeq + 1) :=
    unwrap_ok.2 (add_ok.2 ⟨htx, rfl⟩)
  simp only [step, hp, Promise.run, hread, ok_bind, emitMessage, hlink, hadd]
  rfl

/-- Whenever the message of a service for a network with a registered link is
accepted, it is promised to a registered link and addressed to the network. If
that link is still registered when the promise is executed, and has not used up
its sequence numbers, one event is emitted to it, with the next sequence number. -/
theorem serviceMessage_emitted (c : Config B) (acts : List (Act B)) (caller : AccountId)
    (serialNo : ℤ) (service network : String) (payload : B) (s s' : St B)
    (hs : s = run (step c) (initialState c) acts) (hlinked : Linked s network)
    (hsend : step c s (.call caller (.sendServiceMessage serialNo service network payload)) = .ok s') :
    ∃ link m m', s' = { s with promises := s.promises ++ [.emitMessage link m] } ∧
      link ∈ s.linkKeys ∧ m.reread = .ok m' ∧ m'.destination.networkAddress = .ok network ∧
      ∀ later i succeeded property, (run (step c) s' later).promises[i]? = some (.emitMessage link m) →
        (run (step c) s' later).links link = some property → property.txSeq < u128Max →
        step c (run (step c) s' later) (.execute i succeeded) = .ok { run (step c) s' later with
          promises := (run (step c) s' later).promises.eraseIdx i
          links := update (run (step c) s' later).links link
            (some { property with txSeq := property.txSeq + 1 })
          emitted := (run (step c) s' later).emitted ++
            [{ next := link, sequence := property.txSeq + 1, message := m' }] } := by
  have hwired : Wired s := hs ▸ run_wired c acts
  simp only [step, bind_ok, require_ok, decide_eq_true_eq] at hsend
  obtain ⟨_, hsigned, hsend⟩ := hsend
  obtain ⟨link, hkey, hnetwork, rfl⟩ := sendServiceMessage_linked hwired hlinked hsend
  obtain ⟨m', hread⟩ := BtpMessage.reread_succeeds
    (m := { source := c.btpAddress, destination := link, service, serialNo, payload }) hsigned
  refine ⟨link, _, m', rfl, hkey, hread, ?_, ?_⟩
  · rw [BtpMessage.destination_of_reread hread]
    exact hnetwork
  · intro later i succeeded property hp hlink htx
    exact execute_emitMessage hp hlink htx hread

inductive Note
  | text (text : String)
  | service (m : BmcServiceType)
  | error (code : ℕ) (message : String)
  deriving DecidableEq, Repr

def noteCodec : Codec Note where
  bmcServiceMessage
    | .service m =>
      if ∀ a ∈ m.addresses, a.Valid then .ok m
      else .error (.decodeFailed "rlp: BTPAddress Decode Error")
    | _ => .error (.decodeFailed "rlp: RlpExpectedToBeList")
  ofBmcServiceMessage := .service
  errorMessage
    | .error code message => .ok (code, some message)
    | _ => .error "rlp: RlpExpectedToBeList"
  ofErrorMessage := .error
  valid b m h := by
    cases b with
    | service m' =>
      dsimp only at h
      split at h
      · next hvalid => cases h; exact hvalid
      · cases h
    | text text => cases h
    | error code message => cases h

def center : Config Note where
  account := "bmc.near"
  network := "0x1.near"
  codec := noteCodec
  last := List.getLast?
  last_mem _ _ := mem_of_getLast?
  last_isSome _ hl := getLast?_isSome.2 hl
  depth := 3

def iconLink : BTPAddress := ⟨"btp://0x1.icon/cx1"⟩

def iconInit : Event Note where
  next := center.btpAddress
  sequence := 1
  message := {
    source := iconLink
    destination := center.btpAddress
    service := serviceName
    serialNo := 0
    payload := .service (.init [center.btpAddress, ⟨"btp://0x61.bsc/0x2"⟩]) }

def setUp : List (Act Note) := [
  .call "bmc.near" (.addService "bts" "bts.near"),
  .call "bmc.near" (.addLink iconLink),
  .call "bmc.near" (.addRelay iconLink "relay.near"),
  .execute 0 true,
  .call "relay.near" (.handleRelayMessage iconLink [{ events := [iconInit], height := 1 }])]

def linkedToIcon : St Note := run (step center) (initialState center) setUp

def unlinkedFromIcon : St Note :=
  exec (step center) linkedToIcon (.call "bmc.near" (.removeLink iconLink))

def sendTo (network : String) : Act Note :=
  .call "bts.near" (.sendServiceMessage 1 "bts" network (.text "transfer"))

def sentToIcon : St Note := exec (step center) linkedToIcon (sendTo "0x1.icon")

theorem messageToIcon_emitted : ∃ e,
    (exec (step center) sentToIcon (.execute linkedToIcon.promises.length true)).emitted =
      sentToIcon.emitted ++ [e] ∧
    e.next ∈ linkedToIcon.linkKeys ∧ e.message.destination.networkAddress = .ok "0x1.icon" := by
  obtain ⟨s', hsend⟩ : ∃ s', step center linkedToIcon (sendTo "0x1.icon") = .ok s' :=
    toBool_ok.1 (by decide +kernel)
  obtain rfl : sentToIcon = s' := exec_of_ok hsend
  obtain ⟨link, m, m', hsent, hkey, -, hnetwork, hemit⟩ := serviceMessage_emitted center setUp
    "bts.near" 1 "bts" "0x1.icon" (.text "transfer") linkedToIcon sentToIcon rfl (by decide +kernel) hsend
  have hpromise : sentToIcon.promises[linkedToIcon.promises.length]? = some (.emitMessage link m) := by
    rw [hsent]
    simp
  have hkeys : linkedToIcon.linkKeys = [iconLink] := by decide +kernel
  obtain rfl : link = iconLink := mem_singleton.1 (hkeys ▸ hkey)
  obtain ⟨property, hlink, htx⟩ : ∃ property ∈ sentToIcon.links iconLink, property.txSeq < u128Max := by
    decide +kernel
  have hstep := hemit [] _ true property hpromise hlink htx
  rw [run_nil] at hstep
  exact ⟨{ next := iconLink, sequence := property.txSeq + 1, message := m' },
    congrArg St.emitted (exec_of_ok hstep), hkey, hnetwork⟩

/-- A message for a chain behind ICON is accepted and emitted with an address of
ICON. Once the link to ICON is removed it is still accepted, and then nothing
is emitted. -/
theorem messageToBsc_lost :
    (step center linkedToIcon (sendTo "0x61.bsc")).toBool ∧
    (run (step center) linkedToIcon [sendTo "0x61.bsc", .execute 0 true]).emitted.getLast?.map
      (·.message.destination.networkAddress) = some (.ok "0x1.icon") ∧
    unlinkedFromIcon.linkKeys = [] ∧
    (step center unlinkedFromIcon (sendTo "0x61.bsc")).toBool ∧
    (run (step center) unlinkedFromIcon [sendTo "0x61.bsc",
      .execute unlinkedFromIcon.promises.length true]).emitted = unlinkedFromIcon.emitted := by
  decide +kernel

end IconBridge.Near.BMC
