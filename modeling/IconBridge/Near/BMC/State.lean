import IconBridge.Lib.Dict
import IconBridge.Near.BMC.Address
import IconBridge.Near.RLP

/-!
# Messages and storage of the message center of NEAR

Payloads are bytes that the libraries write and read; how is a parameter. So is
the order in which a set of addresses is walked, which is the hasher's: the
source only asks for the last element.

A message is not emitted by the call that sends it. The call creates a promise
to the message center itself, and other calls may run before it is executed.
-/

namespace IconBridge.Near.BMC

open Lib Function
open Near.BTS (Outcome AccountId u128Max i128Min add)

inductive BmcError
  | decodeFailed (message : String)
  | errorDrop
  | feeAggregatorNotAllowed (source : String)
  | invalidAddress (description : String)
  | invalidSerialNo
  | lastOwner
  | linkExist
  | linkNotExist
  | linkRouteExist
  | ownerExist
  | ownerNotExist
  | permissionNotExist
  | relayExist (link : String)
  | relayNotExist (link : String)
  | routeExist
  | routeNotExist
  | serviceExist
  | serviceNotExist
  | unknown (message : String)
  | unreachable (destination : String)
  | verifierExist
  | verifierNotExist
  | unauthorized (message : String)
  | invalidSequence
  | internalEventHandleNotExists
  deriving DecidableEq, Repr

def BmcError.toString : BmcError → String
  | decodeFailed message => "BMCRevertDecodeError for " ++ message
  | errorDrop => "BMCRevertErrorDrop"
  | feeAggregatorNotAllowed source => "BMCRevertNotAllowedFeeAggregator from " ++ source
  | invalidAddress description => "BMCRevertInvalidAddress: " ++ description
  | invalidSerialNo => "BMCRevertInvalid Serial No"
  | lastOwner => "BMCRevertLastOwner"
  | linkExist => "BMCRevertAlreadyExistsLink"
  | linkNotExist => "BMCRevertNotExistsLink"
  | linkRouteExist => "BMCRevertLinkRouteExist"
  | ownerExist => "BMCRevertAlreadyExistsOwner"
  | ownerNotExist => "BMCRevertNotExistsOwner"
  | permissionNotExist => "BMCRevertNotExistsPermission"
  | relayExist link => "BMCRevertRelayExist for " ++ link
  | relayNotExist link => "BMCRevertNotExistRelay for " ++ link
  | routeExist => "BMCRevertAlreadyExistsRoute"
  | routeNotExist => "BMCRevertNotExistsRoute"
  | serviceExist => "BMCRevertAlreadyExistsBSH"
  | serviceNotExist => "BMCRevertNotExistBSH"
  | unknown message => "BMCRevertUnknown:" ++ message
  | unreachable destination => "BMCRevertUnreachable at " ++ destination
  | verifierExist => "BMCRevertAlreadyExistsBMV"
  | verifierNotExist => "BMCRevertNotExistBMV"
  | unauthorized message => "BMCRevertUnauthorized: " ++ message
  | invalidSequence => "BMCRevertInvalidSequence"
  | internalEventHandleNotExists => "BMCRevertNotExistInternalEventHandle"

def BmcError.code : BmcError → ℕ
  | permissionNotExist => 1
  | invalidSerialNo => 2
  | verifierExist => 3
  | verifierNotExist => 4
  | serviceExist => 5
  | serviceNotExist => 6
  | linkExist => 7
  | linkNotExist => 8
  | relayExist _ => 9
  | relayNotExist _ => 10
  | unreachable _ => 11
  | errorDrop => 12
  | invalidSequence => 13
  | _ => 0

def BmcError.ofCode (code : ℕ) (message : Option String) : BmcError :=
  let message := message.getD "Undefined"
  match code with
  | 1 => permissionNotExist
  | 2 => invalidSerialNo
  | 3 => verifierExist
  | 4 => verifierNotExist
  | 5 => serviceExist
  | 6 => serviceNotExist
  | 7 => linkExist
  | 8 => linkNotExist
  | 9 => relayExist message
  | 10 => relayNotExist message
  | 11 => unreachable message
  | 12 => errorDrop
  | 13 => invalidSequence
  | _ => unknown message

/-- The errors of a service that have a code of their own -/
inductive BshError
  | unknown
  | permissionNotExist
  deriving DecidableEq, Repr

def BshError.toString : BshError → String
  | unknown => "BSHRevertUnknown"
  | permissionNotExist => "BSHRevertNotExistsPermission"

def BshError.code : BshError → ℕ
  | unknown => 0
  | permissionNotExist => 1

inductive BtpException
  | bmc (error : BmcError)
  | bsh (error : BshError)
  deriving DecidableEq, Repr

def BtpException.code : BtpException → ℕ
  | bmc error => error.code + 10
  | bsh error => error.code + 40

def BtpException.message : BtpException → String
  | bmc error => error.toString
  | bsh error => error.toString

/-- `todo!()` panics. -/
def BtpException.ofCode (code : ℕ) (message : Option String) : Outcome BtpException :=
  if code ≤ 9 then .error "not yet implemented"
  else if code ≤ 24 then .ok (.bmc (.ofCode (code - 10) message))
  else if code ≤ 39 then .error "not yet implemented"
  else .ok (.bsh (if code - 40 = 1 then .permissionNotExist else .unknown))

def unwrap (x : Except String α) : Outcome α :=
  x.mapError fun e => "called `Result::unwrap()` on an `Err` value: \"" ++ e ++ "\""

theorem unwrap_ok {x : Except String α} : unwrap x = .ok a ↔ x = .ok a := mapError_ok

structure BtpMessage (B : Type) where
  source : BTPAddress
  destination : BTPAddress
  service : String
  serialNo : ℤ
  payload : B
  deriving DecidableEq, Repr

/-- What a decoder accepts -/
def BtpMessage.Decodable (m : BtpMessage B) : Prop :=
  m.source.Valid ∧ m.destination.Valid ∧ RLP.inSigned 128 m.serialNo

instance (m : BtpMessage B) : Decidable m.Decodable := inferInstanceAs (Decidable (_ ∧ _ ∧ _))

/-- An argument of a promise is written by the caller and read by the callee. Of
a message this may change the serial number. -/
def BtpMessage.reread (m : BtpMessage B) : Outcome (BtpMessage B) :=
  match RLP.decode (RLP.rlpAppend m.serialNo) with
  | .ok serialNo => .ok { m with serialNo }
  | .error _ => .error "Failed to deserialize input from JSON."

theorem BtpMessage.destination_of_reread {m m' : BtpMessage B} (h : m.reread = .ok m') :
    m'.destination = m.destination := by
  unfold reread at h
  split at h <;> cases h
  rfl

theorem BtpMessage.reread_succeeds {m : BtpMessage B} (h : RLP.inSigned 128 m.serialNo) :
    ∃ m', m.reread = .ok m' := by
  obtain ⟨serialNo, hdecode⟩ := RLP.decode_rlpAppend_succeeds ((RLP.inSigned_iff (by decide)).1 h)
  exact ⟨{ m with serialNo }, by simp [reread, hdecode]⟩

inductive BmcServiceType
  | init (links : List BTPAddress)
  | link (link : BTPAddress)
  | unlink (link : BTPAddress)
  | feeGathering (feeAggregator : BTPAddress) (services : List String)
  | unknownType
  deriving DecidableEq, Repr

def BmcServiceType.addresses : BmcServiceType → List BTPAddress
  | .init links => links
  | .link a => [a]
  | .unlink a => [a]
  | .feeGathering feeAggregator _ => [feeAggregator]
  | .unknownType => []

/-- The decoder validates the addresses it reads. -/
structure Codec (B : Type) where
  bmcServiceMessage : B → Except BmcError BmcServiceType
  ofBmcServiceMessage : BmcServiceType → B
  errorMessage : B → Except String (ℕ × Option String)
  ofErrorMessage : (code : ℕ) → (message : String) → B
  valid : ∀ b m, bmcServiceMessage b = .ok m → ∀ a ∈ m.addresses, a.Valid

structure Event (B : Type) where
  next : BTPAddress
  sequence : ℕ
  message : BtpMessage B
  deriving DecidableEq, Repr

structure Receipt (B : Type) where
  events : List (Event B)
  height : ℕ
  deriving DecidableEq, Repr

structure BtpError where
  service : String
  serialNo : ℕ
  code : ℕ
  message : String
  btpErrorCode : ℕ
  btpErrorMessage : String
  deriving DecidableEq, Repr

inductive Connection
  | link (network : String)
  | route (network : String)
  | linkReachable (network : String)
  deriving DecidableEq, Repr

/-- `statuses` is the length of the map from relays to their status. -/
structure Link where
  rxSeq : ℕ := 1
  txSeq : ℕ := 0
  relays : List AccountId := []
  statuses : ℕ := 0
  reachable : List BTPAddress := []
  rxHeight : ℕ := 0
  deriving DecidableEq, Repr

/-- A call of a contract: the first of the message center itself, the others of
a service. The two in the middle are followed by a callback. -/
inductive Promise (B : Type)
  | emitMessage (link : BTPAddress) (message : BtpMessage B)
  | handleBtpMessage (service : AccountId) (source : BTPAddress) (message : BtpMessage B)
  | handleBtpError (service : AccountId) (source : BTPAddress) (message : BtpMessage B)
  | handleFeeGathering (account : AccountId) (feeAggregator : BTPAddress) (service : String)
  deriving DecidableEq, Repr

/-- `depth` is how deep calls can be nested before the gas is used up. -/
structure Config (B : Type) where
  account : AccountId
  network : String
  codec : Codec B
  last : List BTPAddress → Option BTPAddress
  last_mem : ∀ l a, last l = some a → a ∈ l
  last_isSome : ∀ l, l ≠ [] → (last l).isSome
  depth : ℕ

def Config.btpAddress (c : Config B) : BTPAddress := ⟨"btp://" ++ c.network ++ "/" ++ c.account⟩

/-- The source keeps only the last event and the last error. The statuses of the
relays of a link are stored under the link's address, and stay when it is removed. -/
structure St (B : Type) where
  owners : List AccountId
  services : String → Option AccountId := fun _ => none
  linkKeys : List BTPAddress := []
  links : BTPAddress → Option Link := fun _ => none
  statusIndex : BTPAddress → AccountId → Option ℕ := fun _ _ => none
  statusAt : BTPAddress → ℕ → ℕ := fun _ _ => 0
  routeKeys : List String := []
  routes : String → Option (List (BTPAddress × BTPAddress)) := fun _ => none
  connections : Connection → Option (List BTPAddress) := fun _ => none
  -- the runtime
  promises : List (Promise B) := []
  emitted : List (Event B) := []
  errors : List BtpError := []

/-- `new` -/
def initialState (c : Config B) : St B := { owners := [c.account] }

namespace St

variable {B : Type}

def promise (s : St B) (p : Promise B) : St B := { s with promises := s.promises ++ [p] }

-- `Links`

def addLink (s : St B) (link : BTPAddress) : St B :=
  { s with
    linkKeys := if link ∈ s.linkKeys then s.linkKeys else s.linkKeys ++ [link]
    links := update s.links link (some {}) }

def setLink (s : St B) (link : BTPAddress) (property : Link) : St B :=
  { s with links := update s.links link (some property) }

def removeLink (s : St B) (link : BTPAddress) : St B :=
  { s with
    linkKeys := if link ∈ s.linkKeys then swapErase s.linkKeys link else s.linkKeys
    links := update s.links link none }

/-- `get(…).unwrap()` -/
def link (s : St B) (link : BTPAddress) : Outcome Link := BTS.unwrap (s.links link)

-- `Relays`

/-- An index that is stored but not below the length makes the map panic. -/
def relayStatus (s : St B) (link : BTPAddress) (property : Link) (relay : AccountId) :
    Outcome (Option ℕ) :=
  match s.statusIndex link relay with
  | none => .ok none
  | some i =>
    if i < property.statuses then .ok (some (s.statusAt link i)) else
      .error "The collection is an inconsistent state. Did previous smart contract execution terminate unexpectedly?"

def setRelayStatus (s : St B) (link : BTPAddress) (property : Link) (relay : AccountId)
    (messageCount : ℕ) : St B × Link :=
  match s.statusIndex link relay with
  | some i =>
    ({ s with
      statusAt := update s.statusAt link
        (update (s.statusAt link) i messageCount) }, property)
  | none =>
    ({ s with
      statusIndex := update s.statusIndex link
        (update (s.statusIndex link) relay (some property.statuses))
      statusAt := update s.statusAt link
        (update (s.statusAt link) property.statuses messageCount) },
      { property with statuses := property.statuses + 1 })

-- `Connections`

def addConnection (s : St B) (connection : Connection) (link : BTPAddress) : St B :=
  let list := (s.connections connection).getD []
  { s with
    connections := update s.connections connection (some (list.insert link)) }

def removeConnection (s : St B) (connection : Connection) (link : BTPAddress) : St B :=
  let list := ((s.connections connection).getD []).filter (· ≠ link)
  { s with
    connections := update s.connections connection
      (if list = [] then none else some list) }

-- `Routes`

def route (s : St B) (destination : BTPAddress) : Outcome (Option BTPAddress) := do
  let network ← unwrap destination.networkAddress
  return ((s.routes network).getD []).lookup destination

def addRoute (s : St B) (destination link : BTPAddress) : Outcome (St B) := do
  let network ← unwrap destination.networkAddress
  let list := ((s.routes network).getD []).filter (·.1 ≠ destination)
  return { s with
    routeKeys := if network ∈ s.routeKeys then s.routeKeys else s.routeKeys ++ [network]
    routes := update s.routes network (some (list ++ [(destination, link)])) }

/-- The network is no longer listed, even when it has other routes. -/
def removeRoute (s : St B) (destination : BTPAddress) : Outcome (St B) := do
  let network ← unwrap destination.networkAddress
  let list := ((s.routes network).getD []).filter (·.1 ≠ destination)
  return { s with
    routeKeys := if network ∈ s.routeKeys then swapErase s.routeKeys network else s.routeKeys
    routes := update s.routes network (if list = [] then none else some list) }

/-- `to_vec`; a network that is listed without routes makes it panic. -/
def routeList (s : St B) : Outcome (List (BTPAddress × BTPAddress)) :=
  return (← s.routeKeys.mapM fun network => BTS.unwrap (s.routes network)).flatten

end St

end IconBridge.Near.BMC
