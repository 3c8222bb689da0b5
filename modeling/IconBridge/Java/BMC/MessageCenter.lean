import IconBridge.Lib.Inbox
import IconBridge.Lib.Runs
import IconBridge.Java.BMC.State

/-!
# `BTPMessageCenter`

Links, routes and services, the handling of relay messages, fee gathering and
the distribution of relayer rewards. The height of the block a transaction is
in is an argument.
-/

namespace IconBridge.Java.BMC

open Lib Function

variable {W B : Type}

def getLink (s : St W B) (link : BTPAddress) : Outcome Link :=
  match s.links.val link with
  | some l => .ok l
  | none => .error notExistsLink

def putLink (s : St W B) (link : BTPAddress) (l : Link) : St W B :=
  { s with links := s.links.put link l }

def resolveRoute (c : Config W B) (s : St W B) (net : String) : Option BTPAddress :=
  match s.routes.val net with
  | some next => some next
  | none => (s.routes.keys.find? fun key => (c.parse key).net = net).bind s.routes.val

/-- The next hop: by route, then by the network of a link, then by the networks
a link has announced. -/
def resolveNext (c : Config W B) (s : St W B) (net : String) : Outcome BTPAddress :=
  match resolveRoute c s net with
  | some next => do
    let _ ← getLink s next
    return next
  | none =>
    match s.links.keys.find? fun key => key.net = net with
    | some key => .ok key
    | none =>
      match s.links.keys.find? fun key =>
          ((s.links.val key).getD {}).reachable.any fun r => r.net = net with
      | some key => .ok key
      | none => .error unreachable

/-- The private `sendMessage`: count, then emit. -/
def emitMessage (s : St W B) (next : BTPAddress) (msg : B) : Outcome (St W B) := do
  let l ← getLink s next
  return { putLink s next { l with txSeq := l.txSeq + 1 } with
    messages := s.messages ++ [{ next, seq := l.txSeq + 1, msg }] }

/-- Only a positive serial number is answered. -/
def sendError (c : Config W B) (s : St W B) (prev : BTPAddress) (m : BTPMessage B) (code : ℤ)
    (message : String) : Outcome (St W B) := do
  let sn ← nonNull m.sn
  if 0 < sn then
    emitMessage s prev (c.codec.ofBTPMessage
      { src := some c.btpAddr, dst := m.src, svc := m.svc, sn := some (-sn),
        payload := some (c.codec.ofErrorMessage { code, msg := some message }) })
  else return s

def sendInternal (c : Config W B) (internal : Internal) (payload : B) (s : St W B)
    (link : BTPAddress) : Outcome (St W B) :=
  emitMessage s link (c.codec.ofBTPMessage
    { src := some c.btpAddr, dst := some link, svc := some "bmc", sn := some 0,
      payload := some (c.codec.ofBMCMessage { type := some internal.name, payload := some payload }) })

def propagateInternal (c : Config W B) (s : St W B) (internal : Internal) (payload : B) :
    Outcome (St W B) :=
  s.links.keys.foldlM (sendInternal c internal payload) s

/-- The message is addressed to the next hop. -/
def sendMessage (c : Config W B) (caller : Address) (s : St W B) (m : Send B) :
    Outcome (St W B) := do
  match s.services.val m.svc with
  | none => .error notExistsBSH
  | some addr =>
    require (caller = addr) (unauthorized "Unauthorized")
    require (0 < m.sn) invalidSn
    let link ← resolveNext c s m.target
    emitMessage s link (c.codec.ofBTPMessage
      { src := some c.btpAddr, dst := some link, svc := some m.svc, sn := some m.sn,
        payload := some m.msg })

def reaches (c : Config W B) (s : St W B) (net : String) : Bool := (resolveNext c s net).toBool

/-- A call into a service; its messages are sent in the order it sent them. -/
def callService (c : Config W B) (s : St W B) (addr : Address)
    (f : (String → Bool) → W → Outcome (W × List (Send B))) : Outcome (St W B) :=
  Except.mapError asCaller do
    let (world, sends) ← f (reaches c s) s.world
    sends.foldlM (sendMessage c addr) { s with world }

def handleInit (s : St W B) (prev : BTPAddress) (links : Option (List (Option BTPAddress))) :
    Outcome (St W B) :=
  match s.links.val prev with
  | none => .ok s
  | some l => do
    let links ← nonNull links
    -- a link with a null entry cannot be written
    let links ← links.mapM nonNull
    return putLink s prev { l with reachable := l.reachable ++ links }

def handleLink (s : St W B) (prev : BTPAddress) (reachable : Option BTPAddress) :
    Outcome (St W B) :=
  match s.links.val prev with
  | none => .ok s
  | some l => do
    let reachable ← nonNull reachable
    if reachable ∈ l.reachable then return s
    else return putLink s prev { l with reachable := l.reachable ++ [reachable] }

def handleUnlink (s : St W B) (prev : BTPAddress) (reachable : Option BTPAddress) : St W B :=
  match s.links.val prev, reachable with
  | some l, some r =>
    if r ∈ l.reachable then putLink s prev { l with reachable := l.reachable.erase r } else s
  | _, _ => s

def handleSack (s : St W B) (prev : BTPAddress) (m : SackMessage) : Outcome (St W B) := do
  let l ← getLink s prev
  return putLink s prev { l with sackHeight := m.height, sackSeq := m.seq }

/-- Whatever a service throws is passed over. -/
def gatherFees (c : Config W B) (fa : String) (s : St W B) (svc : Option String) : St W B :=
  match svc.bind fun svc => (s.services.val svc).map (svc, ·) with
  | none => s
  | some (svc, addr) =>
    match callService c s addr fun reach w => c.contracts.handleFeeGathering addr reach w fa svc with
    | .ok s' => s'
    | .error _ => s

def handleFeeGathering (c : Config W B) (s : St W B) (prev : BTPAddress) (m : FeeGatheringMessage) :
    Outcome (St W B) := do
  let fa ← nonNull m.fa
  require (prev.net = fa.net) (unknown ("not allowed GatherFeeMessage from:" ++ prev.net))
  let svcs ← nonNull m.svcs
  require (1 ≤ svcs.length) (unknown "requires svcs.length > 1")
  return svcs.foldl (gatherFees c fa.toString) s

def dispatchInternal (c : Config W B) (s : St W B) (prev : BTPAddress) (payload : Option B) :
    Internal → Outcome (St W B)
  | .init => do handleInit s prev (← c.codec.initMessage payload)
  | .link => do handleLink s prev (← c.codec.linkMessage payload)
  | .unlink => do return handleUnlink s prev (← c.codec.unlinkMessage payload)
  | .feeGathering => do handleFeeGathering c s prev (← c.codec.feeGatheringMessage payload)
  | .sack => do handleSack s prev (← c.codec.sackMessage payload)

/-- `catch (BTPException e)` around code that throws one before it writes. -/
def catchBTP (s : St W B) : Outcome (St W B) → Outcome (St W B)
  | .error (.btp _ _) => .ok s
  | r => r

def handleInternal (c : Config W B) (s : St W B) (prev : BTPAddress) (m : BTPMessage B) :
    Outcome (St W B) := do
  let bm ← c.codec.bmcMessage m.payload
  let type ← nonNull bm.type
  match Internal.fromString type with
  | none => return s
  | some internal =>
    let src ← nonNull m.src
    require (prev = src) (unknown ("internal message not allowed from " ++ src.toString))
    catchBTP s (dispatchInternal c s prev bm.payload internal)

def getService (s : St W B) (svc : String) : Outcome Address :=
  match s.services.val svc with
  | some addr => .ok addr
  | none => .error notExistsBSH

def deliverMessage (c : Config W B) (s : St W B) (m : BTPMessage B) (svc : String) (sn : ℤ) :
    Outcome (St W B) := do
  let addr ← getService s svc
  let src ← nonNull m.src
  callService c s addr fun reach w =>
    c.contracts.handleBTPMessage addr reach w src.net svc sn m.payload

def deliverError (c : Config W B) (s : St W B) (m : BTPMessage B) (svc : String) (sn : ℤ)
    (e : ErrorMessage) : Outcome (St W B) := do
  let addr ← getService s svc
  let src ← nonNull m.src
  callService c s addr fun reach w =>
    c.contracts.handleBTPError addr reach w src.toString svc sn e.code (e.msg.getD "")

def errorOnBTPError (s : St W B) (svc : String) (seq code : ℤ) (msg : Option String) (ecode : ℤ)
    (emsg : String) : St W B :=
  { s with errors := s.errors ++ [{ svc, seq, code, msg, ecode, emsg }] }

/-- A negative serial number brings the error of a message sent from here. -/
def handleErrorMessage (c : Config W B) (s : St W B) (m : BTPMessage B) (svc : String) (sn : ℤ) :
    St W B :=
  match c.codec.errorMessage m.payload with
  | .error (.btp _ emsg) | .error (.reverted _ emsg) | .error (.other emsg) =>
    errorOnBTPError s svc sn (-1) none (-1) emsg
  | .ok e =>
    match deliverError c s m svc sn e with
    | .ok s' => s'
    | .error (.btp ecode emsg) | .error (.reverted ecode emsg) =>
      errorOnBTPError s svc sn e.code e.msg ecode emsg
    | .error (.other emsg) => errorOnBTPError s svc sn (-1) none (-1) emsg

/-- The code of `BTPException.unknown` is 0. -/
def handleService (c : Config W B) (s : St W B) (prev : BTPAddress) (m : BTPMessage B)
    (svc : String) : Outcome (St W B) := do
  let sn ← nonNull m.sn
  if 0 ≤ sn then
    match deliverMessage c s m svc sn with
    | .ok s' => return s'
    | .error (.btp code message) => sendError c s prev m code message
    | .error (.reverted code message) =>
      sendError c s prev m (c.btpExceptionOf code message).1 (c.btpExceptionOf code message).2
    | .error (.other message) => sendError c s prev m 0 message
  else return handleErrorMessage c s m svc (-sn)

def handleMessage (c : Config W B) (s : St W B) (prev : BTPAddress) (m : BTPMessage B) :
    Outcome (St W B) := do
  let svc ← nonNull m.svc
  if svc = "bmc" then handleInternal c s prev m else handleService c s prev m svc

/-- A message for another network is passed on. -/
def forward (c : Config W B) (s : St W B) (m : BTPMessage B) (dst : BTPAddress) :
    Outcome (St W B) := do
  let next ← resolveNext c s dst.net
  emitMessage s next (c.codec.ofBTPMessage m)

/-- An event in sequence; one that cannot be read is dropped. -/
def processEvent (c : Config W B) (prev : BTPAddress) (s : St W B) (ev : EventDataBTPMessage B) :
    Outcome (St W B) :=
  let s := { s with received := s.received ++ [(prev, ev)] }
  match c.codec.btpMessage ev.msg with
  | .error _ => .ok s
  | .ok m =>
    if m.dst = some c.btpAddr then handleMessage c s prev m
    else do
      let dst ← nonNull m.dst
      match forward c s m dst with
      | .ok s' => return s'
      | .error (.btp code message) => sendError c s prev m code message
      | .error e => .error e

def gatherFrom (c : Config W B) (s : St W B) (feeAggregator : Address) : Outcome (St W B) := do
  let m : FeeGatheringMessage :=
    { fa := some { protocol := "btp", net := c.btpAddr.net, contract := feeAggregator.toString }
      svcs := some (s.services.keys.map some) }
  let s ← handleFeeGathering c s c.btpAddr m
  propagateInternal c s .feeGathering (c.codec.ofFeeGatheringMessage m)

/-- The fee gathering that ends `handleRelayMessage` when a term is over. -/
def gatherOnTerm (c : Config W B) (s : St W B) (height : ℤ) : Outcome (St W B) :=
  let p := s.properties
  match p.feeAggregator with
  | none => .ok s
  | some fa =>
    if s.services.keys ≠ [] ∧ 0 < p.feeGatheringTerm ∧ p.feeGatheringNext ≤ height then do
      let s' ← gatherFrom c s fa
      let next := p.feeGatheringNext +
        p.feeGatheringTerm * (1 + (height - p.feeGatheringNext).tdiv p.feeGatheringTerm)
      return { s' with properties := { p with feeGatheringNext := next } }
    else .ok s

def requireOwnerAccess (c : Config W B) (sender : Address) : Outcome Unit :=
  require (c.isOwner sender) (unauthorized "require owner access")

def sendFeeGathering (c : Config W B) (s : St W B) (sender : Address) : Outcome (St W B) := do
  requireOwnerAccess c sender
  require (s.services.keys ≠ []) (unknown "services is empty")
  match s.properties.feeAggregator with
  | none => .error (unknown "feeAggregator is null")
  | some fa => gatherFrom c s fa

/-- Bond descending, then `since` and `sinceExtra` ascending. -/
def Relayer.compare (a b : Relayer) : Ordering :=
  (Ord.compare b.bond a.bond).then
    ((Ord.compare a.since b.since).then (Ord.compare a.sinceExtra b.sinceExtra))

/-- One pass of `sortAsc`: the least element is carried to the front. -/
def sweep (v : Relayer) : List Relayer → Relayer × List Relayer
  | [] => (v, [])
  | x :: xs =>
    if v.compare x = .gt then ((sweep x xs).1, v :: (sweep x xs).2)
    else ((sweep v xs).1, x :: (sweep v xs).2)

/-- The number of passes is the length of the array. -/
def sortPasses : ℕ → List Relayer → List Relayer
  | n + 1, v :: xs => (sweep v xs).1 :: sortPasses n (sweep v xs).2
  | _, xs => xs

def sortAsc (xs : List Relayer) : List Relayer := sortPasses xs.length xs

def getValuesBySinceAndSortAsc (relayers : Dict Address Relayer) (since : ℤ) : List Relayer :=
  sortAsc ((relayers.keys.filterMap relayers.val).filter fun r => r.since < since)

/-- `while (nextRewardDistribution < currentHeight)`; a positive term needs no
more rounds than there are heights in between. -/
def skipTerms (term height : ℤ) : ℕ → ℤ → ℤ
  | 0, next => next
  | n + 1, next => if next < height then skipTerms term height n (next + term) else next

/-- The relayers, what is carried over and the sum of the rewards. -/
structure Payout where
  relayers : Dict Address Relayer
  carryover : ℤ
  sumOfReward : ℤ

def Payout.pay (reward : Relayer → ℤ) (p : Payout) (r : Relayer) : Payout :=
  { relayers := p.relayers.put r.addr { r with reward := r.reward + reward r }
    carryover := p.carryover - reward r
    sumOfReward := p.sumOfReward + reward r }

def distributeRelayerReward (c : Config W B) (s : St W B) (height : ℤ) : St W B :=
  let p := s.relayersProperties
  if p.nextRewardDistribution ≤ height then
    let due := p.nextRewardDistribution + p.relayerTerm
    let next :=
      if due ≤ height then skipTerms p.relayerTerm height (height - due).toNat due else due
    let p := { p with nextRewardDistribution := next }
    let current := s.balance - p.bond
    if p.distributed < current then
      let budget := current - p.distributed
      let ranked := (getValuesBySinceAndSortAsc s.relayers (next - p.relayerTerm * 2)).take
        p.relayerRewardRank
      let sumOfBond := (ranked.map Relayer.bond).sum
      let paid := ranked.foldl (Payout.pay fun r => c.share budget r.bond sumOfBond)
        { relayers := s.relayers, carryover := budget, sumOfReward := 0 }
      let p := { p with distributed := p.distributed + paid.sumOfReward, carryover := paid.carryover }
      { s with relayers := paid.relayers, relayersProperties := p }
    else { s with relayersProperties := p }
  else s

def inbox (c : Config W B) (prev : BTPAddress) : Inbox (St W B) (EventDataBTPMessage B) Exc where
  check ev := require (ev.nextBmc = c.btpAddr.toString) (.reverted 0 "Invalid Next BMC")
  seq ev := ev.seq
  gap := invalidSeqNumber
  process := processEvent c prev

/-- The link is read again, so that what the handlers wrote to it stays. -/
def writeBack (s : St W B) (prev : BTPAddress) (relayAddr : Address) (rxSeq : ℕ) (rxHeight : ℤ) :
    Outcome (St W B) := do
  let l ← getLink s prev
  let relay ← nonNull ((s.relays prev).val relayAddr)
  let relay := { relay with msgCount := relay.msgCount + (rxSeq - l.rxSeq) }
  return { putLink s prev { l with rxSeq, rxHeight } with
    relays := update s.relays prev ((s.relays prev).put relayAddr relay) }

def handleRelayMessage (c : Config W B) (s : St W B) (sender : Address) (height : ℤ)
    (prev : String) (msg : B) : Outcome (St W B) := do
  let prev ← c.valueOf prev
  let l ← getLink s prev
  require ((s.relays prev).val sender).isSome
    (unauthorized ("relay not registered: " ++ sender.toString))
  let rps ← c.codec.relayMessage msg
  let (s, rxSeq, rxHeight) ← (inbox c prev).receive (s, l.rxSeq, l.rxHeight)
    (rps.map fun rp => { height := longValue rp.height, events := rp.events })
  let s ← writeBack s prev sender rxSeq rxHeight
  let s ← gatherOnTerm c s height
  return distributeRelayerReward c s height

def addService (c : Config W B) (s : St W B) (svc : String) (addr : Address) :
    Outcome (St W B) := do
  require (c.isAlphaNumeric svc) (unknown "invalid service name")
  require ((s.services.val svc).isNone && svc ≠ "bmc") alreadyExistsBSH
  return { s with services := s.services.put svc addr }

def removeService (s : St W B) (svc : String) : Outcome (St W B) := do
  require (s.services.val svc).isSome notExistsBSH
  return { s with services := s.services.remove svc }

def addLink (c : Config W B) (s : St W B) (link : String) : Outcome (St W B) := do
  let target ← c.valueOf link
  require (s.links.val target).isNone alreadyExistsLink
  let s ← propagateInternal c s .link (c.codec.ofLinkMessage target)
  let links := s.links.keys
  sendInternal c .init (c.codec.ofInitMessage links) (putLink s target {}) target

def removeLink (c : Config W B) (s : St W B) (link : String) : Outcome (St W B) := do
  let target ← c.valueOf link
  let _ ← getLink s target
  require (!(s.routes.keys.any fun key => s.routes.val key = some target))
    (unknown "could not remove, referred by route")
  let s ← propagateInternal c s .unlink (c.codec.ofUnlinkMessage target)
  return { s with
    links := s.links.remove target
    relays := update s.relays target .empty }

def setLinkRxHeight (c : Config W B) (s : St W B) (link : String) (height : ℤ) :
    Outcome (St W B) := do
  let target ← c.valueOf link
  let l ← getLink s target
  return putLink s target { l with rxHeight := height }

def addRoute (c : Config W B) (s : St W B) (dst link : String) : Outcome (St W B) := do
  require (s.routes.val dst).isNone (unknown "already exists route")
  let target ← c.valueOf link
  let _ ← getLink s target
  return { s with routes := s.routes.put dst target }

def removeRoute (s : St W B) (dst : String) : Outcome (St W B) := do
  require (s.routes.val dst).isSome (unknown "not exists route")
  return { s with routes := s.routes.remove dst }

def addRelay (c : Config W B) (s : St W B) (link : String) (addr : Address) :
    Outcome (St W B) := do
  let target ← c.valueOf link
  let _ ← getLink s target
  require ((s.relays target).val addr).isNone alreadyExistsBMR
  return { s with relays := update s.relays target ((s.relays target).put addr {}) }

def removeRelay (c : Config W B) (s : St W B) (link : String) (addr : Address) :
    Outcome (St W B) := do
  let target ← c.valueOf link
  let _ ← getLink s target
  require ((s.relays target).val addr).isSome notExistsBMR
  return { s with relays := update s.relays target ((s.relays target).remove addr) }

def setFeeGatheringTerm (s : St W B) (height value : ℤ) : Outcome (St W B) := do
  require (0 ≤ value) (unknown "invalid param")
  return { s with properties := { s.properties with
    feeGatheringTerm := value, feeGatheringNext := height + value } }

inductive Admin
  | addService (svc : String) (addr : Address)
  | removeService (svc : String)
  | addLink (link : String)
  | removeLink (link : String)
  | setLinkRxHeight (link : String) (height : ℤ)
  | addRoute (dst link : String)
  | removeRoute (dst : String)
  | addRelay (link : String) (addr : Address)
  | removeRelay (link : String) (addr : Address)
  | setFeeGatheringTerm (height value : ℤ)
  | setFeeAggregator (addr : Address)

/-- What only an owner may do. -/
def administer (c : Config W B) (s : St W B) : Admin → Outcome (St W B)
  | .addService svc addr => addService c s svc addr
  | .removeService svc => removeService s svc
  | .addLink link => addLink c s link
  | .removeLink link => removeLink c s link
  | .setLinkRxHeight link height => setLinkRxHeight c s link height
  | .addRoute dst link => addRoute c s dst link
  | .removeRoute dst => removeRoute s dst
  | .addRelay link addr => addRelay c s link addr
  | .removeRelay link addr => removeRelay c s link addr
  | .setFeeGatheringTerm height value => setFeeGatheringTerm s height value
  | .setFeeAggregator addr => .ok { s with properties := { s.properties with feeAggregator := some addr } }

inductive Tx (W B : Type)
  | handleRelayMessage (sender : Address) (height : ℤ) (prev : String) (msg : B)
  /-- A call into a contract that may be a service and then sends messages. -/
  | service (addr : Address) (f : (String → Bool) → W → Outcome (W × List (Send B)))
  | sendFeeGathering (sender : Address)
  | distributeRelayerReward (height : ℤ)
  | fallback (value : ℕ)
  | admin (sender : Address) (a : Admin)

def step (c : Config W B) (s : St W B) : Tx W B → Outcome (St W B)
  | .handleRelayMessage sender height prev msg => handleRelayMessage c s sender height prev msg
  | .service addr f => callService c s addr f
  | .sendFeeGathering sender => sendFeeGathering c s sender
  | .distributeRelayerReward height => .ok (distributeRelayerReward c s height)
  | .fallback value => .ok { s with balance := s.balance + value }
  | .admin sender a => do
    requireOwnerAccess c sender
    administer c s a

end IconBridge.Java.BMC
