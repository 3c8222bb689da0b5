import Mathlib.Data.Int.ConditionallyCompleteOrder
import IconBridge.Lib.Exchange
import IconBridge.Lib.Outbox
import IconBridge.Solidity.BMC.Periphery
import IconBridge.Solidity.BTS.Traffic
import IconBridge.Java.BMC.MessageCenter
import IconBridge.Java.BTS.Traffic

/-!
# Two chains and the channels between them

An EVM chain and ICON, each with its message center and its token service. The
message centers know each other only. What one of them emits reaches the other
in order and without loss, at any time; in between, accounts and owners act on
both chains.

The bytes that pass between the chains are kept as the messages that they
encode. A relay message brings one event.
-/

namespace IconBridge.Bridge

open Lib

inductive Wire
  | relay (nextBmc : String) (seq : ℕ) (height : ℤ) (msg : Wire)
  | btp (src dst svc : String) (sn : ℤ) (payload : Wire)
  | service (m : Java.BTS.BTSMessage)
  | error (code : ℤ) (message : String)
  | internal (type : String) (payload : Wire)
  | feeGathering (fa : String) (svcs : List String)
  | link (target : String)
  | init (links : List String)

/-- No number in these messages is negative. -/
def toServiceMessage (m : Java.BTS.BTSMessage) : Option Solidity.BTS.ServiceMessage :=
  let serviceType : Option Solidity.BTS.ServiceType := match m.serviceType with
    | .requestCoinTransfer => some .requestCoinTransfer
    | .requestCoinRegister => some .requestCoinRegister
    | .responseHandleService => some .responseHandleService
    | .blacklistMessage => some .blacklistMessage
    | .changeTokenLimit => some .changeTokenLimit
    | .unknownType => some .unknownType
    | .other _ => none
  let data : Solidity.BTS.Data := match m.data with
    | .transferRequest r => .transferCoin
      { sender := r.sender, target := r.target,
        assets := r.assets.map fun a => { coinName := a.coinName, value := a.amount.natAbs } }
    | .response r => .response { code := r.code.natAbs, message := r.message.getD "" }
    | .blacklist r => .blacklist
      { serviceType := match r.serviceType with
          | .addToBlacklist => .addToBlacklist
          | .removeFromBlacklist => .removeFromBlacklist
        addrs := r.address, net := r.net }
    | .tokenLimit r => .tokenLimit
      { coinName := r.coinName, tokenLimit := r.tokenLimit.map Int.natAbs, net := r.net }
    | .malformed => .malformed
  serviceType.map fun serviceType => { serviceType, data }

def ofServiceMessage (m : Solidity.BTS.ServiceMessage) : Java.BTS.BTSMessage where
  serviceType := match m.serviceType with
    | .requestCoinTransfer => .requestCoinTransfer
    | .requestCoinRegister => .requestCoinRegister
    | .responseHandleService => .responseHandleService
    | .blacklistMessage => .blacklistMessage
    | .changeTokenLimit => .changeTokenLimit
    | .unknownType => .unknownType
  data := match m.data with
    | .transferCoin tc => .transferRequest
      { sender := tc.sender, target := tc.target,
        assets := tc.assets.map fun a => { coinName := a.coinName, amount := a.value } }
    | .response r => .response { code := r.code, message := some r.message }
    | .blacklist bm => .blacklist
      { serviceType := match bm.serviceType with
          | .addToBlacklist => .addToBlacklist
          | .removeFromBlacklist => .removeFromBlacklist
        address := bm.addrs, net := bm.net }
    | .tokenLimit tl => .tokenLimit
      { coinName := tl.coinName, tokenLimit := tl.tokenLimit.map Int.ofNat, net := tl.net }
    | .malformed => .malformed

def Wire.service? : Wire → Option Java.BTS.BTSMessage
  | .service m => some m
  | _ => none

/-- The contracts of both chains, the addresses of the message centers, and the
library functions of ICON that come without source. The addresses are read back
as they are written. -/
structure Parties where
  evm : Solidity.BTS.Deployment
  btsPeriphery : Solidity.Address
  bmcManagement : Solidity.Address
  evmAddr : Java.BTPAddress
  icon : Java.BTS.Deployment
  iconAddr : Java.BTPAddress
  isOwner : Java.Address → Bool
  parse : String → Java.BTPAddress
  isAlphaNumeric : String → Bool
  btpExceptionOf : (code : ℤ) → (message : String) → ℤ × String
  share : (budget bond sumOfBond : ℤ) → ℤ
  periphery_ne : btsPeriphery ≠ 0
  valueOf_evm : icon.valueOf evmAddr.toString = .ok evmAddr
  valueOf_icon : icon.valueOf iconAddr.toString = .ok iconAddr
  iconName_ne : iconAddr.toString ≠ ""
  split_icon : ∃ account, Solidity.splitBTPAddress iconAddr.toString = .ok (iconAddr.net, account)

variable (p : Parties)

def Parties.evmName : String := p.evmAddr.toString
def Parties.iconName : String := p.iconAddr.toString

/-- The token service, and what the receivers of its payments will do. -/
structure EvmWorld where
  bts : Solidity.BTS.St
  reactions : List Solidity.BTS.Reaction := []

def evmCodec : Solidity.BMC.Codec Wire where
  decodeReceiptProofs
    | .relay nextBmc seq height msg =>
      .ok [{ index := 0, events := [{ nextBmc, seq, message := msg }], height := height.toNat }]
    | _ => .error .raw
  decodeBMCMessage
    | .btp src dst svc sn payload => .ok { src, dst, svc, sn, message := payload }
    | _ => .error .raw
  decodeBMCService
    | .internal type payload => .ok { serviceType := type, payload }
    | _ => .error .raw
  decodeGatherFeeMessage
    | .feeGathering fa svcs => .ok { fa, svcs }
    | _ => .error .raw
  decodePropagateMessage
    | .link target => .ok target
    | _ => .error .raw
  decodeInitMessage
    | .init links => .ok links
    | _ => .error .raw
  decodeResponse
    | .error code message => .ok { code := code.natAbs, message }
    | _ => .error .raw
  encodeBMCMessage m := .btp m.src m.dst m.svc m.sn m.message
  encodeResponse r := .error r.code r.message

def evmCall (f : Solidity.BTS.St → Solidity.Outcome Solidity.BTS.St) (reach : String → Bool)
    (w : EvmWorld) : Solidity.Outcome (EvmWorld × List (Solidity.BMC.Send Wire)) := do
  let bts ← f { w.bts with reachable := reach }
  let sends := (bts.sent.drop w.bts.sent.length).map fun o =>
    { target := o.target, svc := Solidity.BTS.serviceName, sn := o.sn,
      msg := .service (ofServiceMessage o.msg) : Solidity.BMC.Send Wire }
  return ({ w with bts }, sends)

def evmConfig : Solidity.BMC.Config EvmWorld Wire where
  bmcBtpAddress := p.evmName
  bmcManagement := p.bmcManagement
  isOwner := p.evm.isOwner
  codec := evmCodec
  contracts :=
    { isContract := fun addr => addr = p.btsPeriphery
      handleBTPMessage := fun _ reach w src svc sn msg =>
        evmCall (fun s => Solidity.BTS.handleBTPMessage p.evm s p.evm.bmc src svc sn
          (msg.service?.bind toServiceMessage) w.reactions) reach w
      handleBTPError := fun _ reach w _ svc sn code msg =>
        evmCall (fun s => Solidity.BTS.handleBTPError p.evm s p.evm.bmc svc sn code msg w.reactions)
          reach w
      handleFeeGathering := fun _ reach w fa svc =>
        evmCall (fun s => Solidity.BTS.handleFeeGathering p.evm s p.evm.bmc fa svc) reach w }

def evmStart (relays : List Solidity.Address) (bts : Solidity.BTS.St) :
    Solidity.BMC.St EvmWorld Wire where
  links name := if name = p.iconName then { relays, isConnected := true } else {}
  getLinkFromNet net := if net = p.iconAddr.net then p.iconName else ""
  bshServices svc := if svc = Solidity.BTS.serviceName then p.btsPeriphery else 0
  world := { bts }

/-- The token service, and which contracts take what they are sent. -/
structure IconWorld where
  bts : Java.BTS.St
  receivers : Java.BTS.Receivers

def unreadable : Java.Exc := .other "IllegalStateException"

def iconCodec (valueOf : String → Java.Outcome Java.BTPAddress) : Java.BMC.Codec Wire where
  relayMessage
    | .relay nextBmc seq height msg =>
      .ok [{ index := 0, events := [{ nextBmc, seq, msg }], height }]
    | _ => .error unreadable
  btpMessage
    | .btp src dst svc sn payload => do
      let src ← valueOf src
      let dst ← valueOf dst
      return { src := some src, dst := some dst, svc := some svc, sn := some sn,
               payload := some payload }
    | _ => .error unreadable
  bmcMessage
    | some (.internal type payload) => .ok { type := some type, payload := some payload }
    | _ => .error unreadable
  initMessage
    | some (.init links) => do
      let links ← links.mapM valueOf
      return some (links.map some)
    | _ => .error unreadable
  linkMessage
    | some (.link target) => do return some (← valueOf target)
    | _ => .error unreadable
  unlinkMessage
    | some (.link target) => do return some (← valueOf target)
    | _ => .error unreadable
  sackMessage _ := .error unreadable
  feeGatheringMessage
    | some (.feeGathering fa svcs) => do
      let fa ← valueOf fa
      return { fa := some fa, svcs := some (svcs.map some) }
    | _ => .error unreadable
  errorMessage
    | some (.error code message) => .ok { code, msg := some message }
    | _ => .error unreadable
  ofBTPMessage m := .btp (m.src.elim "" Java.BTPAddress.toString)
    (m.dst.elim "" Java.BTPAddress.toString) (m.svc.getD "") (m.sn.getD 0) (m.payload.getD (.init []))
  ofBMCMessage m := .internal (m.type.getD "") (m.payload.getD (.init []))
  ofInitMessage links := .init (links.map Java.BTPAddress.toString)
  ofLinkMessage target := .link target.toString
  ofUnlinkMessage target := .link target.toString
  ofFeeGatheringMessage m := .feeGathering (m.fa.elim "" Java.BTPAddress.toString)
    ((m.svcs.getD []).map (Option.getD · ""))
  ofErrorMessage e := .error e.code (e.msg.getD "")

def iconCall (f : Java.BTS.St → Java.Outcome Java.BTS.St) (reach : String → Bool) (w : IconWorld) :
    Java.Outcome (IconWorld × List (Java.BMC.Send Wire)) := do
  let bts ← f { w.bts with reachable := reach }
  let sends := (bts.sent.drop w.bts.sent.length).map fun o =>
    { target := o.target, svc := "bts", sn := o.sn, msg := .service o.msg : Java.BMC.Send Wire }
  return ({ w with bts }, sends)

def iconConfig : Java.BMC.Config IconWorld Wire where
  btpAddr := p.iconAddr
  isOwner := p.isOwner
  valueOf := p.icon.valueOf
  parse := p.parse
  isAlphaNumeric := p.isAlphaNumeric
  btpExceptionOf := p.btpExceptionOf
  share := p.share
  codec := iconCodec p.icon.valueOf
  contracts :=
    { handleBTPMessage := fun _ reach w src svc sn payload =>
        iconCall (fun s => Java.BTS.handleBTPMessage p.icon w.receivers s p.icon.bmc src svc sn
          (payload.bind Wire.service?)) reach w
      handleBTPError := fun _ reach w src _ sn code msg =>
        iconCall (fun s => Java.BTS.handleBTPError p.icon w.receivers s p.icon.bmc src sn code msg)
          reach w
      handleFeeGathering := fun _ reach w fa _ =>
        iconCall (fun s => Java.BTS.handleFeeGathering p.icon w.receivers s p.icon.bmc fa) reach w }

def noOne : Java.BTS.Receivers where
  token _ _ _ := false
  icx _ _ := false

def iconStart (relays : Dict Java.Address Java.BMC.Relay) (properties : Java.BMC.BMCProperties)
    (bts : Java.BTS.St) : Java.BMC.St IconWorld Wire where
  links := Dict.empty.put p.evmAddr {}
  relays link := if link = p.evmAddr then relays else .empty
  services := Dict.empty.put "bts" p.icon.bts
  properties := properties
  world := { bts, receivers := noOne }

structure Chains where
  evm : Solidity.BMC.St EvmWorld Wire
  icon : Java.BMC.St IconWorld Wire

/-- What the chains start with. -/
structure Genesis where
  evmRelays : List Solidity.Address
  nativeCoinName : String
  evmFeeNumerator : ℕ
  evmFixedFee : ℕ
  native : Solidity.Ledger
  evmCode : Solidity.Address → Option Solidity.BTS.Code
  erc20 : Solidity.Address → Solidity.Ledger
  iconRelays : Dict Java.Address Java.BMC.Relay
  properties : Java.BMC.BMCProperties
  iconFeeNumerator : ℤ
  iconFixedFee : ℤ
  icx : Java.Address → ℤ
  iconCode : Java.Address → Option Java.BTS.Code
  irc2 : Java.Address → Java.IRC2

def start (g : Genesis) : Chains where
  evm := evmStart p g.evmRelays (Solidity.BTS.initialState g.nativeCoinName g.evmFeeNumerator
    g.evmFixedFee g.native g.evmCode g.erc20)
  icon := iconStart p g.iconRelays g.properties
    (Java.BTS.initialState p.icon g.iconFeeNumerator g.iconFixedFee g.icx g.iconCode g.irc2)

def Chains.evmRxSeq (s : Chains) : ℕ := (s.evm.links p.iconName).rxSeq
def Chains.iconRxSeq (s : Chains) : ℕ := ((s.icon.links.val p.evmAddr).map Java.BMC.Link.rxSeq).getD 0

def Chains.nextToIcon (s : Chains) : Option (Solidity.BMC.Emitted Wire) :=
  (s.evm.messages.filter fun e => e.next = p.iconName)[s.iconRxSeq p]?

def Chains.nextToEvm (s : Chains) : Option (Java.BMC.Emitted Wire) :=
  (s.icon.messages.filter fun e => e.next = p.evmAddr)[s.evmRxSeq p]?

inductive Act
  | evm (tx : Solidity.BTS.Tx)
  | icon (tx : Java.BTS.Tx)
  /-- An owner has the fees of both chains gathered. -/
  | sendFeeGathering (receivers : Java.BTS.Receivers) (sender : Java.Address)
  | toEvm (relay : Solidity.Address) (height : ℤ) (reactions : List Solidity.BTS.Reaction)
  | toIcon (relay : Java.Address) (height blockHeight : ℤ) (receivers : Java.BTS.Receivers)

/-- The contracts that take what they are sent differ from act to act. -/
def withReceivers (s : Java.BMC.St IconWorld Wire) (receivers : Java.BTS.Receivers) :
    Java.BMC.St IconWorld Wire :=
  { s with world := { s.world with receivers } }

def withReactions (s : Solidity.BMC.St EvmWorld Wire)
    (reactions : List Solidity.BTS.Reaction) : Solidity.BMC.St EvmWorld Wire :=
  { s with world := { s.world with reactions } }

/-- A transaction of an account or an owner at the token service. -/
def evmAct (s : Solidity.BMC.St EvmWorld Wire) (tx : Solidity.BTS.Tx) :
    Solidity.Outcome (Solidity.BMC.St EvmWorld Wire) := do
  require tx.outside .raw
  Solidity.BMC.callService (evmConfig p) s p.btsPeriphery
    (evmCall fun bts => Solidity.BTS.step p.evm bts tx)

def iconAct (s : Java.BMC.St IconWorld Wire) (tx : Java.BTS.Tx) :
    Java.Outcome (Java.BMC.St IconWorld Wire) := do
  require tx.outside unreadable
  let links := s.links.keys.map Java.BTPAddress.toString
  Java.BMC.callService (iconConfig p) s p.icon.bts
    (iconCall fun bts => Java.BTS.step p.icon { bts with links } tx)

def Chains.withEvm (s : Chains) (x : Solidity.Outcome (Solidity.BMC.St EvmWorld Wire)) :
    Except Unit Chains :=
  (x.map fun evm => { s with evm }).mapError fun _ => ()

def Chains.withIcon (s : Chains) (x : Java.Outcome (Java.BMC.St IconWorld Wire)) :
    Except Unit Chains :=
  (x.map fun icon => { s with icon }).mapError fun _ => ()

def step (s : Chains) : Act → Except Unit Chains
  | .evm tx => s.withEvm (evmAct p s.evm tx)
  | .icon tx => s.withIcon (iconAct p s.icon tx)
  | .sendFeeGathering receivers sender =>
    s.withIcon (Java.BMC.sendFeeGathering (iconConfig p) (withReceivers s.icon receivers) sender)
  | .toEvm relay height reactions =>
    match s.nextToEvm p with
    | none => .error ()
    | some e => s.withEvm (Solidity.BMC.handleRelayMessage (evmConfig p)
        (withReactions s.evm reactions) relay p.iconName (.relay e.next.toString e.seq height e.msg))
  | .toIcon relay height blockHeight receivers =>
    match s.nextToIcon p with
    | none => .error ()
    | some e => s.withIcon (Java.BMC.handleRelayMessage (iconConfig p)
        (withReceivers s.icon receivers) relay blockHeight p.evmName
        (.relay e.next e.seq height e.msg))

theorem withEvm_ok {s s' : Chains} : s.withEvm x = .ok s' ↔ ∃ evm, x = .ok evm ∧ s' = { s with evm } := by
  cases x <;> simp [Chains.withEvm, Except.map, Except.mapError, eq_comm]

theorem withIcon_ok {s s' : Chains} :
    s.withIcon x = .ok s' ↔ ∃ icon, x = .ok icon ∧ s' = { s with icon } := by
  cases x <;> simp [Chains.withIcon, Except.map, Except.mapError, eq_comm]

/-- A request or a change asks for something, a response to a request answers. -/
def serviceNote (sn : ℤ) : Java.BTS.BTSMessage → Note ℤ
  | ⟨.requestCoinTransfer, .transferRequest _⟩ | ⟨.blacklistMessage, .blacklist _⟩
  | ⟨.changeTokenLimit, .tokenLimit _⟩ => .ask sn
  | ⟨.responseHandleService, .response r⟩ => .reply sn (decide (r.code = Java.BTS.rcOk))
  | _ => .other

/-- An error answers the request with its number, as the token services read it. -/
def Wire.note : Wire → Note ℤ
  | .btp _ _ _ sn (.service m) => serviceNote sn m
  | .btp _ _ _ sn (.error _ _) => .reply (-sn) false
  | _ => .other

/-- The service messages that the EVM chain sends. -/
inductive EvmService : Java.BTS.BTSMessage → Prop
  | request (r : Java.BTS.TransferRequest) : EvmService ⟨.requestCoinTransfer, .transferRequest r⟩
  | response (ty : Java.BTS.ServiceType)
      (hty : ty = .responseHandleService ∨ ty = .blacklistMessage ∨ ty = .changeTokenLimit)
      (r : Java.BTS.TransferResponse) : EvmService ⟨ty, .response r⟩

inductive FromEvm : Wire → Prop
  | service (sn : ℤ) (hsn : 0 < sn) (m : Java.BTS.BTSMessage) (hm : EvmService m) :
      FromEvm (.btp p.evmName p.iconName "bts" sn (.service m))
  | error (sn : ℤ) (hsn : 0 < sn) (code : ℤ) (message : String) :
      FromEvm (.btp p.evmName p.iconName "bts" (-sn) (.error code message))

/-- The service messages that ICON sends. -/
inductive IconService : Java.BTS.BTSMessage → Prop
  | request (r : Java.BTS.TransferRequest) : IconService ⟨.requestCoinTransfer, .transferRequest r⟩
  | change (m : Java.BTS.BTSMessage) (hm : m.IsChange) : IconService m
  | response (r : Java.BTS.TransferResponse) : IconService ⟨.responseHandleService, .response r⟩

inductive FromIcon : Wire → Prop
  | service (sn : ℤ) (hsn : 0 < sn) (m : Java.BTS.BTSMessage) (hm : IconService m) :
      FromIcon (.btp p.iconName p.evmName "bts" sn (.service m))
  | error (sn : ℤ) (hsn : 0 < sn) (code : ℤ) (message : String) :
      FromIcon (.btp p.iconName p.evmName "bts" (-sn) (.error code message))
  | feeGathering (fa : String) (svcs : List String) :
      FromIcon (.btp p.iconName p.evmName "bmc" 0 (.internal "FeeGathering" (.feeGathering fa svcs)))

def evmWire (sn : ℤ) (m : Java.BTS.BTSMessage) : Wire :=
  .btp p.evmName p.iconName "bts" sn (.service m)

def iconWire (sn : ℤ) (m : Java.BTS.BTSMessage) : Wire :=
  .btp p.iconName p.evmName "bts" sn (.service m)

def evmError (sn code : ℤ) (message : String) : Wire :=
  .btp p.evmName p.iconName "bts" (-sn) (.error code message)

def iconError (sn code : ℤ) (message : String) : Wire :=
  .btp p.iconName p.evmName "bts" (-sn) (.error code message)

def iconGathering (fa : String) (svcs : List String) : Wire :=
  .btp p.iconName p.evmName "bmc" 0 (.internal "FeeGathering" (.feeGathering fa svcs))

/-- What happens in the course of an act: which transactions are taken, and
which messages of the token services are delivered. -/
structure Terms where
  evm : Solidity.BTS.Tx → Prop
  icon : Java.BTS.Tx → Prop
  toEvm : Wire → Prop
  toIcon : Wire → Prop

def Act.terms (s : Chains) (a : Act) : Terms where
  evm tx := a = .evm tx
  icon tx := a = .icon tx
  toEvm w := ∃ e, s.nextToEvm p = some e ∧ e.msg = w
  toIcon w := ∃ e, s.nextToIcon p = some e ∧ e.msg = w

end IconBridge.Bridge
