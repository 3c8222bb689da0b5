import IconBridge.Lib.Inbox
import IconBridge.Lib.Runs
import IconBridge.Solidity.Text

/-!
# The message center of an EVM chain

The storage of `BMCManagement` that messages read and write, and
`BMCPeriphery`. The byte format of messages and the contracts behind the
registered services are parameters: a called service changes its own world and
sends messages, and it knows which networks can be reached.
-/

namespace IconBridge.Solidity.BMC

open Lib Function

structure BMCMessage (B : Type) where
  src : String
  dst : String
  svc : String
  sn : Int
  message : B
  deriving DecidableEq, Repr

structure MessageEvent (B : Type) where
  nextBmc : String
  seq : Nat
  message : B
  deriving DecidableEq, Repr

structure ReceiptProof (B : Type) where
  index : Nat
  events : List (MessageEvent B)
  height : Nat
  deriving DecidableEq, Repr

structure BMCService (B : Type) where
  serviceType : String
  payload : B

structure GatherFeeMessage where
  fa : String
  svcs : List String

structure Response where
  code : Nat
  message : String

/-- The encoders and decoders of `RLPEncodeStruct` and `RLPDecodeStruct`. -/
structure Codec (B : Type) where
  decodeReceiptProofs : B → Outcome (List (ReceiptProof B))
  decodeBMCMessage : B → Outcome (BMCMessage B)
  decodeBMCService : B → Outcome (BMCService B)
  decodeGatherFeeMessage : B → Outcome GatherFeeMessage
  decodePropagateMessage : B → Outcome String
  decodeInitMessage : B → Outcome (List String)
  decodeResponse : B → Outcome Response
  encodeBMCMessage : BMCMessage B → B
  encodeResponse : Response → B

/-- A call of `sendMessage` by a service. -/
structure Send (B : Type) where
  target : String
  svc : String
  sn : Nat
  msg : B

/-- The contracts that can be registered as services. A call sees which
networks `resolveRoute` knows and yields the messages it has sent. -/
structure Contracts (W B : Type) where
  isContract : Address → Bool
  handleBTPMessage : Address → (String → Bool) → W → (src svc : String) → (sn : Nat) → B →
    Outcome (W × List (Send B))
  handleBTPError : Address → (String → Bool) → W → (src svc : String) → (sn code : Nat) →
    (msg : String) → Outcome (W × List (Send B))
  handleFeeGathering : Address → (String → Bool) → W → (fa svc : String) →
    Outcome (W × List (Send B))

structure Config (W B : Type) where
  bmcBtpAddress : String
  bmcManagement : Address
  isOwner : Address → Bool
  codec : Codec B
  contracts : Contracts W B

structure Link where
  relays : List Address := []
  reachable : List String := []
  rxSeq : Nat := 0
  txSeq : Nat := 0
  rxHeight : Nat := 0
  isConnected : Bool := false
  deriving DecidableEq, Repr

structure RelayStats where
  blockCount : Nat := 0
  msgCount : Nat := 0

/-- `event Message` -/
structure Emitted (B : Type) where
  next : String
  seq : Nat
  msg : B

structure ErrorOnBTPError where
  svc : String
  sn : Int
  code : Nat
  errMsg : String
  svcErrCode : Nat
  svcErrMsg : String

/-- The empty string stands for no route and no link, the zero address for no
service. `received` records the events taken from relay messages, by link. -/
structure St (W B : Type) where
  links : String → Link
  relayStats : Address → RelayStats := fun _ => {}
  routes : String → String := fun _ => ""
  getRouteDstFromNet : String → String := fun _ => ""
  getLinkFromNet : String → String := fun _ => ""
  getLinkFromReachableNet : String → String × String := fun _ => ("", "")
  bshServices : String → Address := fun _ => 0
  world : W
  messages : List (Emitted B) := []
  errors : List ErrorOnBTPError := []
  received : List (String × Nat) := []

variable {W B : Type}

def setLink (s : St W B) (name : String) (l : Link) : St W B :=
  { s with links := update s.links name l }

def resolveRoute (s : St W B) (dstNet : String) : Outcome (String × String) :=
  let dst := s.getRouteDstFromNet dstNet
  if dst ≠ "" then .ok (s.routes dst, dst)
  else
    let dst := s.getLinkFromNet dstNet
    if dst ≠ "" then .ok (dst, dst)
    else
      let (prev, target) := s.getLinkFromReachableNet dstNet
      if target ≠ "" then .ok (prev, target)
      else .error (.error s!"Unreachable: {dstNet} is unreachable")

def updateLinkReachable (s : St W B) (prev : String) (links : List String) : Outcome (St W B) :=
  links.foldlM (fun s target => do
    let (net, _) ← splitBTPAddress target
    let l := s.links prev
    return { setLink s prev { l with reachable := l.reachable ++ [target] } with
      getLinkFromReachableNet := update s.getLinkFromReachableNet net (prev, target) }) s

/-- The entry is overwritten by the last one, which is then dropped. -/
def deleteLinkReachable (s : St W B) (prev : String) (i : Nat) : Outcome (St W B) :=
  let l := s.links prev
  match l.reachable[i]? with
  | none => .error (.panic 0x32)
  | some target => do
    let (net, _) ← splitBTPAddress target
    return { setLink s prev
        { l with reachable := (l.reachable.set i (l.reachable.getLastD "")).dropLast } with
      getLinkFromReachableNet := update s.getLinkFromReachableNet net ("", "") }

def bmcErr : Nat := 10
def bshErr : Nat := 40
def unknownErr : Nat := 0

/-- The private `_sendMessage`: count, then emit. -/
def emitMessage (s : St W B) (next : String) (msg : B) : St W B :=
  let l := s.links next
  { setLink s next { l with txSeq := l.txSeq + 1 } with
    messages := s.messages ++ [{ next, seq := l.txSeq + 1, msg }] }

/-- The private `_sendError`; only a positive serial number is answered. -/
def sendError (c : Config W B) (s : St W B) (prev : String) (m : BMCMessage B) (code : Nat)
    (message : String) : St W B :=
  if 0 < m.sn then
    emitMessage s prev (c.codec.encodeBMCMessage
      { src := c.bmcBtpAddress, dst := m.src, svc := m.svc, sn := -m.sn,
        message := c.codec.encodeResponse { code, message } })
  else s

/-- `int256(_sn)` -/
def toInt256 (n : Nat) : Int := if n < 2 ^ 255 then n else n - 2 ^ 256

def sendMessage (c : Config W B) (caller : Address) (s : St W B) (m : Send B) :
    Outcome (St W B) := do
  require (caller = c.bmcManagement || s.bshServices m.svc = caller) (.error "Unauthorized")
  let (nextLink, dst) ← resolveRoute s m.target
  return emitMessage s nextLink (c.codec.encodeBMCMessage
    { src := c.bmcBtpAddress, dst, svc := m.svc, sn := toInt256 m.sn, message := m.msg })

def reaches (s : St W B) (net : String) : Bool := (resolveRoute s net).toBool

/-- A call into a service; its messages are sent in the order it sent them. -/
def callService (c : Config W B) (s : St W B) (addr : Address)
    (f : (String → Bool) → W → Outcome (W × List (Send B))) : Outcome (St W B) := do
  let (world, sends) ← f (reaches s) s.world
  sends.foldlM (sendMessage c addr) { s with world }

/-- A service that reverts is passed over. -/
def gatherFees (c : Config W B) (fa : String) (s : St W B) (svc : String) : Outcome (St W B) :=
  let addr := s.bshServices svc
  if addr = 0 then .ok s
  else do
    require (c.contracts.isContract addr) .raw
    match callService c s addr fun reach w => c.contracts.handleFeeGathering addr reach w fa svc with
    | .ok s => .ok s
    | .error _ => .ok s

def handleLink (c : Config W B) (s : St W B) (prev : String) (payload : B) : Outcome (St W B) := do
  let target ← c.codec.decodePropagateMessage payload
  let l := s.links prev
  if l.isConnected ∧ target ∉ l.reachable then updateLinkReachable s prev [target]
  else .ok s

/-- The loop runs over a copy of the list it deletes from. -/
def handleUnlink (c : Config W B) (s : St W B) (prev : String) (payload : B) :
    Outcome (St W B) := do
  let target ← c.codec.decodePropagateMessage payload
  let l := s.links prev
  if l.isConnected then
    l.reachable.zipIdx.foldlM (fun s e =>
      if target = e.1 then deleteLinkReachable s prev e.2 else .ok s) s
  else .ok s

def handleInit (c : Config W B) (s : St W B) (prev : String) (payload : B) : Outcome (St W B) := do
  let links ← c.codec.decodeInitMessage payload
  updateLinkReachable s prev links

def handleInternal (c : Config W B) (s : St W B) (prev : String) (m : BMCMessage B) :
    Outcome (St W B) :=
  match c.codec.decodeBMCService m.message with
  | .error _ => .ok (sendError c s prev m bmcErr "ParseFailure")
  | .ok sm =>
    if sm.serviceType = "FeeGathering" then
      match c.codec.decodeGatherFeeMessage sm.payload with
      | .error _ => .ok (sendError c s prev m bmcErr "ParseFailure")
      | .ok g => g.svcs.foldlM (gatherFees c g.fa) s
    else if sm.serviceType = "Link" then handleLink c s prev sm.payload
    else if sm.serviceType = "Unlink" then handleUnlink c s prev sm.payload
    else if sm.serviceType = "Init" then handleInit c s prev sm.payload
    else if sm.serviceType = "Sack" then .ok s
    else .error (.error "NotExistsInternalHandler")

/-- `_msg.sn * -1` overflows at the least `int256`. -/
def negate (n : Int) : Outcome Int :=
  if n = -2 ^ 255 then .error (.panic 0x11) else .ok (-n)

def deliverMessage (c : Config W B) (s : St W B) (prev : String) (m : BMCMessage B)
    (addr : Address) : Outcome (St W B) := do
  let (net, _) ← splitBTPAddress m.src
  require (c.contracts.isContract addr) .raw
  match callService c s addr fun reach w =>
      c.contracts.handleBTPMessage addr reach w net m.svc m.sn.toNat m.message with
  | .ok s => .ok s
  | .error (.error reason) => .ok (sendError c s prev m bshErr reason)
  | .error _ => .ok (sendError c s prev m bshErr "UnknownHandleBTPMessage")

def deliverError (c : Config W B) (s : St W B) (m : BMCMessage B) (addr : Address) :
    Outcome (St W B) := do
  let r ← c.codec.decodeResponse m.message
  let sn ← negate m.sn
  require (c.contracts.isContract addr) .raw
  let report (svcErrCode : Nat) (svcErrMsg : String) : St W B :=
    if svcErrMsg = "" then s
    else { s with
      errors := s.errors ++ [{ svc := m.svc, sn, code := r.code, errMsg := r.message,
                               svcErrCode, svcErrMsg }] }
  match callService c s addr fun reach w =>
      c.contracts.handleBTPError addr reach w m.src m.svc sn.toNat r.code r.message with
  | .ok s => .ok s
  | .error (.error reason) => .ok (report bshErr reason)
  | .error _ => .ok (report unknownErr "UnknownHandleBTPError")

def handleService (c : Config W B) (s : St W B) (prev : String) (m : BMCMessage B) :
    Outcome (St W B) :=
  let addr := s.bshServices m.svc
  if addr = 0 then .ok (sendError c s prev m bmcErr "NotExistsBSH")
  else if 0 ≤ m.sn then deliverMessage c s prev m addr
  else deliverError c s m addr

def handleMessage (c : Config W B) (s : St W B) (prev : String) (m : BMCMessage B) :
    Outcome (St W B) :=
  if m.svc = "bmc" then handleInternal c s prev m else handleService c s prev m

/-- An event in sequence: it is handled here, passed on, or dropped when it
cannot be read. -/
def processEvent (c : Config W B) (prev : String) (s : St W B) (ev : MessageEvent B) :
    Outcome (St W B) :=
  let s := { s with received := s.received ++ [(prev, ev.seq)] }
  match c.codec.decodeBMCMessage ev.message with
  | .error _ => .ok s
  | .ok m =>
    if m.dst = c.bmcBtpAddress then handleMessage c s prev m
    else do
      let (net, _) ← splitBTPAddress m.dst
      match resolveRoute s net with
      | .ok (nextLink, _) => .ok (emitMessage s nextLink ev.message)
      | .error (.error reason) => .ok (sendError c s prev m bmcErr reason)
      | .error e => .error e

def inbox (c : Config W B) (prev : String) : Inbox (St W B) (MessageEvent B) Revert where
  check ev := require (ev.nextBmc = c.bmcBtpAddress) (.error "Invalid Next BMC")
  seq ev := ev.seq
  gap := .error "InvalidSeqNumber"
  process := processEvent c prev

def updateLinkRxSeq (s : St W B) (prev : String) (val : Nat) : St W B :=
  let l := s.links prev
  setLink s prev { l with rxSeq := l.rxSeq + val }

def updateLinkRxHeight (s : St W B) (prev : String) (val : Nat) : St W B :=
  let l := s.links prev
  setLink s prev { l with rxHeight := l.rxHeight + val }

def updateRelayStats (s : St W B) (relay : Address) (blockCount msgCount : Nat) : St W B :=
  let old := s.relayStats relay
  let new : RelayStats :=
    { blockCount := old.blockCount + blockCount, msgCount := old.msgCount + msgCount }
  { s with relayStats := update s.relayStats relay new }

def handleRelayMessage (c : Config W B) (s : St W B) (sender : Address) (prev : String) (msg : B) :
    Outcome (St W B) := do
  require (sender ∈ (s.links prev).relays) (.error "Unauthorized")
  let linkRxSeq := (s.links prev).rxSeq
  let linkRxHeight := (s.links prev).rxHeight
  let rps ← c.codec.decodeReceiptProofs msg
  let (s, rxSeq, rxHeight) ← (inbox c prev).receive (s, linkRxSeq, linkRxHeight)
    (rps.map fun rp => { height := rp.height, events := rp.events })
  let s := updateLinkRxSeq s prev (rxSeq - linkRxSeq)
  let s := updateRelayStats s sender 0 (rxSeq - linkRxSeq)
  return updateLinkRxHeight s prev (rxHeight - linkRxHeight)

def addRelay (c : Config W B) (s : St W B) (sender : Address) (link : String)
    (addrs : List Address) : Outcome (St W B) := do
  require (c.isOwner sender) (.error "Unauthorized")
  require (s.links link).isConnected (.error "NotExistsLink")
  return { setLink s link { s.links link with relays := addrs } with
    relayStats := addrs.foldl (fun f a => update f a {}) s.relayStats }

def removeRelay (c : Config W B) (s : St W B) (sender : Address) (link : String) (addr : Address) :
    Outcome (St W B) := do
  require (c.isOwner sender) (.error "Unauthorized")
  let l := s.links link
  require (l.isConnected && l.relays ≠ []) (.error "Unauthorized")
  return setLink s link { l with relays := l.relays.filter (· ≠ addr) }

inductive Tx (W B : Type)
  | handleRelayMessage (sender : Address) (prev : String) (msg : B)
  | addRelay (sender : Address) (link : String) (addrs : List Address)
  | removeRelay (sender : Address) (link : String) (addr : Address)
  /-- A call of a user into a service contract, which may send messages. -/
  | service (addr : Address) (f : (String → Bool) → W → Outcome (W × List (Send B)))

def step (c : Config W B) (s : St W B) : Tx W B → Outcome (St W B)
  | .handleRelayMessage sender prev msg => handleRelayMessage c s sender prev msg
  | .addRelay sender link addrs => addRelay c s sender link addrs
  | .removeRelay sender link addr => removeRelay c s sender link addr
  | .service addr f => callService c s addr f

end IconBridge.Solidity.BMC
