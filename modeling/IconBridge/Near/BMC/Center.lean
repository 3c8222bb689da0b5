import IconBridge.Near.BMC.State

/-!
# The message center of NEAR

The calls of the owners, the services and the relays, and the promises that the
message center makes to itself. `send_message` and `send_error` call each other;
how deep they can is the `depth` of the configuration.
-/

namespace IconBridge.Near.BMC

open Lib
open Near.BTS (Outcome AccountId u128Max i128Min add)

variable {B : Type}

def serviceName : String := "bmc"

def assertHavePermission (s : St B) (caller : AccountId) : Outcome Unit :=
  require (caller ∈ s.owners) BmcError.permissionNotExist.toString

def assertLinkExists (s : St B) (link : BTPAddress) : Outcome Unit :=
  require (link ∈ s.linkKeys) BmcError.linkNotExist.toString

def assertLinkDoesNotExists (s : St B) (link : BTPAddress) : Outcome Unit :=
  require (link ∉ s.linkKeys) BmcError.linkExist.toString

def assertLinkDoesNotHaveRouteConnection (s : St B) (link : BTPAddress) : Outcome Unit := do
  let network ← unwrap link.networkAddress
  require (s.connections (.route network)).isNone BmcError.linkRouteExist.toString

def assertOwnerExists (s : St B) (account : AccountId) : Outcome Unit :=
  require (account ∈ s.owners) BmcError.ownerNotExist.toString

def assertOwnerDoesNotExists (s : St B) (account : AccountId) : Outcome Unit :=
  require (account ∉ s.owners) BmcError.ownerExist.toString

def assertOwnerIsNotLastOwner (s : St B) : Outcome Unit :=
  require (1 < s.owners.length) BmcError.lastOwner.toString

def assertRelayIsRegistered (s : St B) (link : BTPAddress) (caller : AccountId) : Outcome Unit := do
  let property ← s.link link
  require (caller ∈ property.relays) (BmcError.unauthorized "not registered relay").toString

def assertRouteExists (s : St B) (destination : BTPAddress) : Outcome Unit := do
  require (← s.route destination).isSome BmcError.routeNotExist.toString

def assertRouteDoesNotExists (s : St B) (destination : BTPAddress) : Outcome Unit := do
  require (← s.route destination).isNone BmcError.routeExist.toString

def assertSenderIsAuthorizedService (s : St B) (service : String) (caller : AccountId) :
    Outcome Unit :=
  require (s.services service = some caller) BmcError.permissionNotExist.toString

def assertServiceExists (s : St B) (name : String) : Outcome Unit :=
  require (s.services name).isSome BmcError.serviceNotExist.toString

def assertServiceDoesNotExists (s : St B) (name : String) : Outcome Unit :=
  require (s.services name).isNone BmcError.serviceExist.toString

def assertRelayNotExists (s : St B) (link : BTPAddress) (relay : AccountId) : Outcome Unit :=
  match s.links link with
  | some property => require (relay ∉ property.relays) (BmcError.relayExist link.string).toString
  | none => .ok ()

def assertRelayExists (s : St B) (link : BTPAddress) (relay : AccountId) : Outcome Unit :=
  match s.links link with
  | some property => require (relay ∈ property.relays) (BmcError.relayNotExist link.string).toString
  | none => .ok ()

def St.connection (c : Config B) (s : St B) (connection : Connection) : Option BTPAddress :=
  c.last ((s.connections connection).getD [])

def resolveRoute (c : Config B) (s : St B) (destination : BTPAddress) :
    Outcome (Option BTPAddress) :=
  if destination ∈ s.linkKeys then .ok (some destination) else do
    let network ← unwrap destination.networkAddress
    if (s.connections (.link network)).isSome then return s.connection c (.link network)
    else if (s.connections (.route network)).isSome then return s.connection c (.route network)
    else if (s.connections (.linkReachable network)).isSome then
      return s.connection c (.linkReachable network)
    else return none

/-- `negate` -/
def neg (v : ℤ) : Outcome ℤ :=
  if v = i128Min then .error "attempt to negate with overflow" else .ok (-v)

def errorReply (c : Config B) (exception : BtpException) (m : BtpMessage B) :
    Outcome (BtpMessage B) := do
  let serialNo ← neg m.serialNo
  return {
    source := c.btpAddress
    destination := m.source
    service := m.service
    serialNo
    payload := c.codec.ofErrorMessage exception.code exception.message }

def sendMessageIn (c : Config B) (s : St B) (source : BTPAddress) :
    (depth : ℕ) → (destination : BTPAddress) → BtpMessage B → Outcome (St B)
  | 0, _, _ => .error "Exceeded the prepaid gas."
  | depth + 1, destination, m => do
    match ← resolveRoute c s destination with
    | some next => return s.promise (.emitMessage next m)
    | none =>
      -- `send_error`
      let reply ← errorReply c (.bmc (.unreachable destination.string)) m
      sendMessageIn c s source depth source reply

def sendMessage (c : Config B) (s : St B) (source destination : BTPAddress) (m : BtpMessage B) :
    Outcome (St B) :=
  sendMessageIn c s source c.depth destination m

def sendError (c : Config B) (s : St B) (source : BTPAddress) (exception : BtpException)
    (m : BtpMessage B) : Outcome (St B) := do
  let reply ← errorReply c exception m
  sendMessage c s source source reply

def sendServiceMessage (c : Config B) (s : St B) (caller : AccountId) (serialNo : ℤ)
    (service network : String) (payload : B) : Outcome (St B) := do
  let _ ← assertSenderIsAuthorizedService s service caller
  match ← resolveRoute c s (serviceAddress network) with
  | none => throw BmcError.linkNotExist.toString
  | some destination =>
    sendMessage c s c.btpAddress destination
      { source := c.btpAddress, destination, service, serialNo, payload }

def sendInternalServiceMessage (c : Config B) (s : St B) (destination : BTPAddress)
    (m : BmcServiceType) : Outcome (St B) :=
  sendMessage c s c.btpAddress destination {
    source := c.btpAddress
    destination
    service := serviceName
    serialNo := 0
    payload := c.codec.ofBmcServiceMessage m }

def propagateInternal (c : Config B) (s : St B) (m : BmcServiceType) : Outcome (St B) :=
  s.linkKeys.foldlM (fun s link => sendInternalServiceMessage c s link m) s

/-- A link that is not registered is skipped. -/
def emitMessage (s : St B) (link : BTPAddress) (m : BtpMessage B) : Outcome (St B) :=
  match s.links link with
  | some property => do
    let txSeq ← unwrap (add property.txSeq 1)
    let s := s.setLink link { property with txSeq }
    return { s with emitted := s.emitted ++ [{ next := link, sequence := txSeq, message := m }] }
  | none => .ok s

def addOwner (s : St B) (caller account : AccountId) : Outcome (St B) := do
  let _ ← assertHavePermission s caller
  let _ ← assertOwnerDoesNotExists s account
  return { s with owners := s.owners ++ [account] }

def removeOwner (s : St B) (caller account : AccountId) : Outcome (St B) := do
  let _ ← assertHavePermission s caller
  let _ ← assertOwnerExists s account
  let _ ← assertOwnerIsNotLastOwner s
  return { s with owners := swapErase s.owners account }

def addService (s : St B) (caller : AccountId) (name : String) (service : AccountId) :
    Outcome (St B) := do
  let _ ← assertHavePermission s caller
  let _ ← assertServiceDoesNotExists s name
  return { s with services := Function.update s.services name (some service) }

def removeService (s : St B) (caller : AccountId) (name : String) : Outcome (St B) := do
  let _ ← assertHavePermission s caller
  let _ ← assertServiceExists s name
  return { s with services := Function.update s.services name none }

/-- `if let Some(link_property) = self.links.get(&link)` -/
def St.modifyLink (s : St B) (link : BTPAddress) (f : Link → Link) : St B :=
  match s.links link with
  | some property => s.setLink link (f property)
  | none => s

def addRelays (s : St B) (caller : AccountId) (link : BTPAddress) (relays : List AccountId) :
    Outcome (St B) := do
  let _ ← assertHavePermission s caller
  let _ ← assertLinkExists s link
  return s.modifyLink link fun property => { property with
    relays := relays.foldl (fun l a => if a ∈ l then l else l ++ [a]) [] }

def addRelay (s : St B) (caller : AccountId) (link : BTPAddress) (relay : AccountId) :
    Outcome (St B) := do
  let _ ← assertHavePermission s caller
  let _ ← assertLinkExists s link
  let _ ← assertRelayNotExists s link relay
  return s.modifyLink link fun property => { property with
    relays := if relay ∈ property.relays then property.relays else property.relays ++ [relay] }

def removeRelay (s : St B) (caller : AccountId) (link : BTPAddress) (relay : AccountId) :
    Outcome (St B) := do
  let _ ← assertHavePermission s caller
  let _ ← assertLinkExists s link
  let _ ← assertRelayExists s link relay
  return s.modifyLink link fun property => { property with
    relays := swapErase property.relays relay }

def addLink (c : Config B) (s : St B) (caller : AccountId) (link : BTPAddress) :
    Outcome (St B) := do
  let _ ← assertHavePermission s caller
  let _ ← assertLinkDoesNotExists s link
  let s ← propagateInternal c s (.link link)
  let s := s.addLink link
  let network ← unwrap link.networkAddress
  let s := s.addConnection (.link network) link
  sendInternalServiceMessage c s link (.init s.linkKeys)

/-- What was reachable over the link, and the routes over it, stay. -/
def removeLink (c : Config B) (s : St B) (caller : AccountId) (link : BTPAddress) :
    Outcome (St B) := do
  let _ ← assertHavePermission s caller
  let _ ← assertLinkExists s link
  let _ ← assertLinkDoesNotHaveRouteConnection s link
  let s ← propagateInternal c s (.unlink link)
  let s := s.removeLink link
  let network ← unwrap link.networkAddress
  return s.removeConnection (.link network) link

def setLinkRxHeight (s : St B) (caller : AccountId) (link : BTPAddress) (height : ℕ) :
    Outcome (St B) := do
  let _ ← assertHavePermission s caller
  let _ ← assertLinkExists s link
  return s.modifyLink link fun property => { property with rxHeight := height }

def addRoute (s : St B) (caller : AccountId) (destination link : BTPAddress) : Outcome (St B) := do
  let _ ← assertHavePermission s caller
  let _ ← assertRouteDoesNotExists s destination
  let _ ← assertLinkExists s link
  let s ← s.addRoute destination link
  let network ← unwrap destination.networkAddress
  return s.addConnection (.route network) link

def removeRoute (s : St B) (caller : AccountId) (destination : BTPAddress) : Outcome (St B) := do
  let _ ← assertHavePermission s caller
  let _ ← assertRouteExists s destination
  let link := (← s.route destination).getD ⟨""⟩
  let s ← s.removeRoute destination
  let network ← unwrap destination.networkAddress
  return s.removeConnection (.route network) link

def networkOf (a : BTPAddress) : Except BmcError String := a.networkAddress.mapError .invalidAddress

/-- The message center keeps its own list of what is reachable over the link. -/
def reach (source : BTPAddress) (x : St B × Link) (a : BTPAddress) :
    Except BmcError (St B × Link) := do
  let link := { x.2 with reachable := x.2.reachable.insert a }
  let network ← networkOf a
  return (x.1.addConnection (.linkReachable network) source, link)

def handleInit (s : St B) (source : BTPAddress) (links : List BTPAddress) :
    Except BmcError (St B) :=
  match s.links source with
  | none => .error .linkNotExist
  | some link => do
    let (s, link) ← links.foldlM (reach source) (s, link)
    return s.setLink source link

def handleLink (s : St B) (source sourceLink : BTPAddress) : Except BmcError (St B) :=
  match s.links source with
  | none => .error .linkNotExist
  | some link =>
    if sourceLink ∈ link.reachable then .ok (s.setLink source link) else do
      let (s, link) ← reach source (s, link) sourceLink
      return s.setLink source link

def handleUnlink (s : St B) (source sourceLink : BTPAddress) : Except BmcError (St B) :=
  match s.links source with
  | none => .error .linkNotExist
  | some link =>
    if sourceLink ∉ link.reachable then .ok (s.setLink source link) else do
      let link := { link with reachable := link.reachable.filter (· ≠ sourceLink) }
      let network ← networkOf sourceLink
      return (s.removeConnection (.linkReachable network) source).setLink source link

def handleFeeGathering (s : St B) (source feeAggregator : BTPAddress) (services : List String) :
    Except BmcError (St B) :=
  if source.networkAddress ≠ feeAggregator.networkAddress then
    .error (.feeAggregatorNotAllowed source.string)
  else
    .ok (services.foldl (fun s service =>
      match s.services service with
      | some account => s.promise (.handleFeeGathering account feeAggregator service)
      | none => s) s)

def handleInternalServiceMessage (c : Config B) (s : St B) (source : BTPAddress)
    (m : BtpMessage B) : Except BmcError (St B) := do
  match ← c.codec.bmcServiceMessage m.payload with
  | .init links => handleInit s source links
  | .link link => handleLink s source link
  | .unlink link => handleUnlink s source link
  | .feeGathering feeAggregator services => handleFeeGathering s source feeAggregator services
  | .unknownType => throw .internalEventHandleNotExists

def handleExternalServiceMessage (s : St B) (source : BTPAddress) (m : BtpMessage B) :
    Except BmcError (St B) :=
  match s.services m.service with
  | none => .error .serviceNotExist
  | some account =>
    if 0 ≤ m.serialNo then .ok (s.promise (.handleBtpMessage account source m))
    else .ok (s.promise (.handleBtpError account source m))

def handleServiceMessage (c : Config B) (s : St B) (source : BTPAddress) (m : BtpMessage B) :
    Outcome (St B) :=
  let outcome :=
    if m.service = serviceName then handleInternalServiceMessage c s source m
    else handleExternalServiceMessage s source m
  match outcome with
  | .ok s => .ok s
  | .error .serviceNotExist => sendError c s source (.bmc .serviceNotExist) m
  | .error e => .error e.toString

def BtpMessage.isService (c : Config B) (m : BtpMessage B) : Bool :=
  c.btpAddress.networkAddress = m.destination.networkAddress

/-- All messages for this network come before those that are passed on. -/
def handleBtpMessages (c : Config B) (s : St B) (source : BTPAddress)
    (messages : List (BtpMessage B)) : Outcome (St B) := do
  let s ← (messages.filter (·.isService c)).foldlM (fun s m => handleServiceMessage c s source m) s
  (messages.filter (!·.isService c)).foldlM (fun s m => sendMessage c s source m.destination m) s

/-- The link is a copy that is written back at the end of the call. -/
def acceptEvent (c : Config B) (x : List (BtpMessage B) × Link) (e : Event B) :
    Outcome (List (BtpMessage B) × Link) := do
  let _ ← require (x.2.rxSeq = e.sequence)
    "called `Result::unwrap()` on an `Err` value: InvalidSequence"
  let rxSeq ← (add x.2.rxSeq 1).mapError fun _ =>
    "called `Result::unwrap()` on an `Err` value: Unknown \x7b message: \"FAILED TO UPDATE SEQUENCE\" \x7d"
  let link := { x.2 with rxSeq }
  return if e.next ≠ c.btpAddress then (x.1, link) else (x.1 ++ [e.message], link)

def acceptReceipt (c : Config B) (x : List (BtpMessage B) × Link) (r : Receipt B) :
    Outcome (List (BtpMessage B) × Link) :=
  if r.height < x.2.rxHeight then .ok x
  else r.events.foldlM (acceptEvent c) (x.1, { x.2 with rxHeight := r.height })

def getBtpMessages (c : Config B) (receipts : List (Receipt B)) (link : Link) :
    Outcome (List (BtpMessage B) × Link) :=
  receipts.foldlM (acceptReceipt c) ([], link)

def u64Max : ℕ := 2 ^ 64 - 1

def processBmcMessages (c : Config B) (s : St B) (source : BTPAddress) (link : Link)
    (messages : List (BtpMessage B)) (relay : AccountId) : Outcome (St B × Link) := do
  let messageCount := (← s.relayStatus source link relay).getD 0 + messages.length
  let _ ← require (messageCount ≤ u64Max)
    "called `Result::unwrap()` on an `Err` value: Unknown \x7b message: \"FAILED TO UPDATE RELAY STATUS\" \x7d"
  let (s, link) := s.setRelayStatus source link relay messageCount
  let s ← handleBtpMessages c s source messages
  return (s, link)

def handleRelayMessage (c : Config B) (s : St B) (caller : AccountId) (source : BTPAddress)
    (receipts : List (Receipt B)) : Outcome (St B) := do
  let _ ← assertLinkExists s source
  let _ ← assertRelayIsRegistered s source caller
  let link ← s.link source
  let (messages, link) ← getBtpMessages c receipts link
  let (s, link) ← processBmcMessages c s source link messages caller
  return s.setLink source link

def handleExternalServiceMessageCallback (c : Config B) (s : St B) (source : BTPAddress)
    (m : BtpMessage B) (succeeded : Bool) : Outcome (St B) :=
  if succeeded then .ok s else sendError c s source (.bsh .unknown) m

def handleBtpErrorCallback (c : Config B) (s : St B) (m : BtpMessage B) (succeeded : Bool) :
    Outcome (St B) :=
  if succeeded then .ok s else do
    let (code, message) ← unwrap (c.codec.errorMessage m.payload)
    let exception ← BtpException.ofCode code message
    let serialNo ← neg m.serialNo
    return { s with
      errors := s.errors ++ [{
        service := m.service
        serialNo := RLP.asUnsigned 128 serialNo
        code
        message := message.getD ""
        btpErrorCode := exception.code
        btpErrorMessage := exception.message }] }

inductive Call (B : Type)
  | addOwner (account : AccountId)
  | removeOwner (account : AccountId)
  | addService (name : String) (service : AccountId)
  | removeService (name : String)
  | addRelays (link : BTPAddress) (relays : List AccountId)
  | addRelay (link : BTPAddress) (relay : AccountId)
  | removeRelay (link : BTPAddress) (relay : AccountId)
  | addLink (link : BTPAddress)
  | removeLink (link : BTPAddress)
  | setLinkRxHeight (link : BTPAddress) (height : ℕ)
  | addRoute (destination link : BTPAddress)
  | removeRoute (destination : BTPAddress)
  | handleRelayMessage (source : BTPAddress) (receipts : List (Receipt B))
  | sendServiceMessage (serialNo : ℤ) (service network : String) (payload : B)
  deriving DecidableEq, Repr

/-- The arguments are read before the call runs. -/
def Call.Decodable : Call B → Prop
  | addRelays link _ | addRelay link _ | removeRelay link _ | addLink link | removeLink link
  | setLinkRxHeight link _ => link.Valid
  | addRoute destination link => destination.Valid ∧ link.Valid
  | removeRoute destination => destination.Valid
  | handleRelayMessage source receipts =>
    source.Valid ∧ ∀ r ∈ receipts, ∀ e ∈ r.events, e.next.Valid ∧ e.message.Decodable
  | sendServiceMessage serialNo _ _ _ => RLP.inSigned 128 serialNo
  | _ => True

instance (call : Call B) : Decidable call.Decodable := by
  unfold Call.Decodable
  split <;> infer_instance

def Call.run (c : Config B) (s : St B) (caller : AccountId) : Call B → Outcome (St B)
  | .addOwner account => BMC.addOwner s caller account
  | .removeOwner account => BMC.removeOwner s caller account
  | .addService name service => BMC.addService s caller name service
  | .removeService name => BMC.removeService s caller name
  | .addRelays link relays => BMC.addRelays s caller link relays
  | .addRelay link relay => BMC.addRelay s caller link relay
  | .removeRelay link relay => BMC.removeRelay s caller link relay
  | .addLink link => BMC.addLink c s caller link
  | .removeLink link => BMC.removeLink c s caller link
  | .setLinkRxHeight link height => BMC.setLinkRxHeight s caller link height
  | .addRoute destination link => BMC.addRoute s caller destination link
  | .removeRoute destination => BMC.removeRoute s caller destination
  | .handleRelayMessage source receipts => BMC.handleRelayMessage c s caller source receipts
  | .sendServiceMessage serialNo service network payload =>
    BMC.sendServiceMessage c s caller serialNo service network payload

/-- What the message center does when the promise is executed, or when the
service that was called has finished. -/
def Promise.run (c : Config B) (s : St B) (succeeded : Bool) : Promise B → Outcome (St B)
  | emitMessage link m => do BMC.emitMessage s link (← m.reread)
  | handleBtpMessage _ source m => do
    handleExternalServiceMessageCallback c s source (← m.reread) succeeded
  | handleBtpError _ _ m => do handleBtpErrorCallback c s (← m.reread) succeeded
  | handleFeeGathering _ _ _ => .ok s

inductive Act (B : Type)
  | call (caller : AccountId) (call : Call B)
  | execute (i : ℕ) (succeeded : Bool)
  deriving DecidableEq, Repr

/-- A promise that panics is used up. -/
def step (c : Config B) (s : St B) : Act B → Outcome (St B)
  | .call caller call => do
    let _ ← require call.Decodable "Failed to deserialize input from JSON."
    call.run c s caller
  | .execute i succeeded =>
    match s.promises[i]? with
    | none => .error "no such promise"
    | some p =>
      let s := { s with promises := s.promises.eraseIdx i }
      match p.run c s succeeded with
      | .ok s => .ok s
      | .error _ => .ok s

end IconBridge.Near.BMC
