import IconBridge.Lib.Dict
import IconBridge.Java.Basic

/-!
# Messages and storage of the ICON message center

Fields of a message that was read from bytes can be `null`. The byte format
and the contracts behind the registered services are parameters, as are the
parts of the shared Java library that come without source.
-/

namespace IconBridge.Java.BMC

open Lib

structure BTPMessage (B : Type) where
  src : Option BTPAddress
  dst : Option BTPAddress
  svc : Option String
  sn : Option ℤ
  payload : Option B
  deriving DecidableEq, Repr

structure EventDataBTPMessage (B : Type) where
  nextBmc : String
  seq : ℤ
  msg : B
  deriving DecidableEq, Repr

structure ReceiptProof (B : Type) where
  index : ℤ
  events : List (EventDataBTPMessage B)
  height : ℤ
  deriving DecidableEq, Repr

structure BMCMessage (B : Type) where
  type : Option String
  payload : Option B

inductive Internal
  | init
  | link
  | unlink
  | feeGathering
  | sack
  deriving DecidableEq, Repr

def Internal.name : Internal → String
  | .init => "Init"
  | .link => "Link"
  | .unlink => "Unlink"
  | .feeGathering => "FeeGathering"
  | .sack => "Sack"

def Internal.fromString (type : String) : Option Internal :=
  [.init, .link, .unlink, .feeGathering, .sack].find? fun i => i.name = type

structure SackMessage where
  height : ℤ
  seq : Option ℤ
  deriving DecidableEq, Repr

structure FeeGatheringMessage where
  fa : Option BTPAddress
  svcs : Option (List (Option String))
  deriving DecidableEq, Repr

structure ErrorMessage where
  code : ℤ
  msg : Option String
  deriving DecidableEq, Repr

/-- The `fromBytes` and `toBytes` of the message classes. -/
structure Codec (B : Type) where
  relayMessage : B → Outcome (List (ReceiptProof B))
  btpMessage : B → Outcome (BTPMessage B)
  bmcMessage : Option B → Outcome (BMCMessage B)
  initMessage : Option B → Outcome (Option (List (Option BTPAddress)))
  linkMessage : Option B → Outcome (Option BTPAddress)
  unlinkMessage : Option B → Outcome (Option BTPAddress)
  sackMessage : Option B → Outcome SackMessage
  feeGatheringMessage : Option B → Outcome FeeGatheringMessage
  errorMessage : Option B → Outcome ErrorMessage
  ofBTPMessage : BTPMessage B → B
  ofBMCMessage : BMCMessage B → B
  ofInitMessage : List BTPAddress → B
  ofLinkMessage : BTPAddress → B
  ofUnlinkMessage : BTPAddress → B
  ofFeeGatheringMessage : FeeGatheringMessage → B
  ofErrorMessage : ErrorMessage → B

/-- A call of `sendMessage` by a service. -/
structure Send (B : Type) where
  target : String
  svc : String
  sn : ℤ
  msg : B

/-- The contracts that can be registered as services. A call sees which
networks can be reached and yields the messages it has sent. -/
structure Contracts (W B : Type) where
  handleBTPMessage : Address → (String → Bool) → W → (src svc : String) → (sn : ℤ) → Option B →
    Outcome (W × List (Send B))
  handleBTPError : Address → (String → Bool) → W → (src svc : String) → (sn code : ℤ) →
    (msg : String) → Outcome (W × List (Send B))
  handleFeeGathering : Address → (String → Bool) → W → (fa svc : String) →
    Outcome (W × List (Send B))

/-- `share budget bond sumOfBond` is the reward of a relayer, which the code
computes with floating-point numbers. -/
structure Config (W B : Type) where
  btpAddr : BTPAddress
  isOwner : Address → Bool
  valueOf : String → Outcome BTPAddress
  parse : String → BTPAddress
  isAlphaNumeric : String → Bool
  btpExceptionOf : (code : ℤ) → (message : String) → ℤ × String
  share : (budget bond sumOfBond : ℤ) → ℤ
  codec : Codec B
  contracts : Contracts W B

/-- A link is stored under its own address. -/
structure Link where
  rxSeq : ℕ := 0
  txSeq : ℕ := 0
  rxHeight : ℤ := 0
  sackHeight : ℤ := 0
  sackSeq : Option ℤ := some 0
  reachable : List BTPAddress := []
  deriving DecidableEq, Repr

structure Relay where
  blockCount : ℤ := 0
  msgCount : ℤ := 0
  deriving DecidableEq, Repr

structure Relayer where
  addr : Address
  since : ℤ
  sinceExtra : ℤ
  bond : ℤ
  reward : ℤ
  deriving DecidableEq, Repr

structure RelayersProperties where
  relayerMinBond : ℤ := 1
  relayerTerm : ℤ := 43200
  relayerRewardRank : ℕ := 25
  nextRewardDistribution : ℤ := 0
  distributed : ℤ := 0
  carryover : ℤ := 0
  bond : ℤ := 0

structure BMCProperties where
  feeGatheringTerm : ℤ := 0
  feeGatheringNext : ℤ := 0
  feeAggregator : Option Address := none

/-- `Message` -/
structure Emitted (B : Type) where
  next : BTPAddress
  seq : ℕ
  msg : B

structure ErrorOnBTPError where
  svc : String
  seq : ℤ
  code : ℤ
  msg : Option String
  ecode : ℤ
  emsg : String

/-- `received` records the events taken from relay messages, by link. -/
structure St (W B : Type) where
  links : Dict BTPAddress Link := .empty
  relays : BTPAddress → Dict Address Relay := fun _ => .empty
  routes : Dict String BTPAddress := .empty
  services : Dict String Address := .empty
  properties : BMCProperties := {}
  relayers : Dict Address Relayer := .empty
  relayersProperties : RelayersProperties := {}
  balance : ℤ := 0
  world : W
  messages : List (Emitted B) := []
  errors : List ErrorOnBTPError := []
  received : List (BTPAddress × EventDataBTPMessage B) := []

/-- The codes of `BMCException` start at 10. -/
def unknown (message : String) : Exc := .btp 10 message
def unauthorized (message : String) : Exc := .btp 11 message
def invalidSn : Exc := .btp 12 "InvalidSn"
def alreadyExistsBSH : Exc := .btp 15 "AlreadyExistsBSH"
def notExistsBSH : Exc := .btp 16 "NotExistsBSH"
def alreadyExistsLink : Exc := .btp 17 "AlreadyExistsLink"
def notExistsLink : Exc := .btp 18 "NotExistsLink"
def alreadyExistsBMR : Exc := .btp 19 "AlreadyExistsBMR"
def notExistsBMR : Exc := .btp 20 "NotExistsBMR"
def unreachable : Exc := .btp 21 "Unreachable"
def invalidSeqNumber : Exc := .btp 23 "InvalidSeqNumber"

/-- What the caller of a contract sees of an exception in it. -/
def asCaller : Exc → Exc
  | .btp code message => .reverted code message
  | e => e

end IconBridge.Java.BMC
