import IconBridge.Lib.Table
import IconBridge.Solidity.Text

/-!
# The token service of an EVM chain

The storage of `BTSCore` and `BTSPeriphery`, the accounts of the chain as far
as the service moves them, and the first functions of `BTSPeriphery`.

The two contracts call each other only behind `onlyBTSCore` and
`onlyBTSPeriphery`, so their storage is one record. The messages handed to
`BMCPeriphery.sendMessage` and the emitted events are kept as logs.
-/

namespace IconBridge.Solidity.BTS

open Lib Function

inductive CoinType
  | native
  | nativeWrapped
  | nonNativeToken
  deriving DecidableEq, Repr

structure Coin where
  addr : Address := 0
  feeNumerator : Nat := 0
  fixedFee : Nat := 0
  coinType : CoinType := .native
  deriving DecidableEq, Repr

structure Balance where
  lockedBalance : Nat := 0
  refundableBalance : Nat := 0
  deriving DecidableEq, Repr

structure Asset where
  coinName : String
  value : Nat
  deriving DecidableEq, Repr

structure AssetTransferDetail where
  coinName : String
  value : Nat
  fee : Nat
  deriving DecidableEq, Repr

/-- A recorded request; the three arrays of the source have one length, so
they are one list. -/
structure PendingTransferCoin where
  sender : String
  target : String
  details : List AssetTransferDetail
  deriving DecidableEq, Repr

inductive ServiceType
  | requestCoinTransfer
  | requestCoinRegister
  | responseHandleService
  | blacklistMessage
  | changeTokenLimit
  | unknownType
  deriving DecidableEq, Repr

structure TransferCoin where
  sender : String
  target : String
  assets : List Asset
  deriving DecidableEq, Repr

structure Response where
  code : Nat
  message : String
  deriving DecidableEq, Repr

inductive BlacklistService
  | addToBlacklist
  | removeFromBlacklist
  deriving DecidableEq, Repr

structure BlacklistMessage where
  serviceType : BlacklistService
  addrs : List String
  net : String
  deriving DecidableEq, Repr

structure TokenLimitMessage where
  coinName : List String
  tokenLimit : List Nat
  net : String
  deriving DecidableEq, Repr

/-- The data of a service message, as the decoder for its type reads it.
`malformed` is what no decoder reads. -/
inductive Data
  | transferCoin (tc : TransferCoin)
  | response (r : Response)
  | blacklist (bm : BlacklistMessage)
  | tokenLimit (tl : TokenLimitMessage)
  | malformed
  deriving DecidableEq, Repr

structure ServiceMessage where
  serviceType : ServiceType
  data : Data
  deriving DecidableEq, Repr

/-- One call of `BMCPeriphery.sendMessage`; the service name is always `bts`. -/
structure Outgoing where
  target : String
  sn : Nat
  msg : ServiceMessage
  deriving DecidableEq, Repr

inductive Event
  | transferStart (sender : Address) (target : String) (sn : Nat) (details : List AssetTransferDetail)
  | transferEnd (sender : Address) (sn code : Nat) (response : String)
  | transferReceived (sender : String) (target : Address) (sn : Nat) (assets : List Asset)
  | unknownResponse (sender : String) (sn : Nat)
  deriving DecidableEq, Repr

structure Deployment where
  btsCore : Address
  bmc : Address
  isOwner : Address → Bool
  caps : Checksum

/-- The code behind a token address: an `ERC20Tradable` that `BTSCore` owns, or
an ERC20 contract from elsewhere. -/
inductive Code
  | tradable
  | foreign
  deriving DecidableEq, Repr

structure St where
  -- BTSCore
  nativeCoinName : String
  coinsName : List String
  aggregationFee : String → Nat := fun _ => 0
  balances : Address → String → Balance := fun _ _ => {}
  coins : String → Address
  coinDetails : String → Coin
  coinsAddress : Address → String := fun _ => ""
  entered : Bool := false
  -- BTSPeriphery
  requests : Nat → Option PendingTransferCoin := fun _ => none
  serialNo : Nat := 0
  numOfPendingRequests : Nat := 0
  blacklist : Address → Bool := fun _ => false
  tokenLimit : String → Nat
  -- BMCPeriphery
  reachable : String → Bool
  sent : List Outgoing := []
  events : List Event := []
  -- accounts: native coin, and for each token its holders, their approvals for
  -- BTSCore and its supply
  native : Ledger
  code : Address → Option Code
  erc20 : Address → Ledger
  allowance : Address → Ledger := fun _ _ => 0
  totalSupply : Address → Nat := fun _ => 0

def nativeCoinAddress : Address := 0xEeeeeEeeeEeEeeEeEeEeeEEEeeeeEeeeeeeeEEeE

/-- `BTSCore.initialize` and `BTSPeriphery.initialize` on a chain with these
accounts and contracts. -/
def initialState (nativeCoinName : String) (feeNumerator fixedFee : Nat)
    (native : Ledger) (code : Address → Option Code) (erc20 : Address → Ledger) : St where
  nativeCoinName := nativeCoinName
  coinsName := [nativeCoinName]
  coins := update (fun _ => 0) nativeCoinName nativeCoinAddress
  coinDetails := update (fun _ => {}) nativeCoinName
    { addr := nativeCoinAddress, feeNumerator, fixedFee, coinType := .native }
  tokenLimit := update (fun _ => 0) nativeCoinName uint256Max
  reachable := fun _ => false
  native := native
  code := code
  erc20 := erc20

def maxBatchSize : Nat := 15
def rcOk : Nat := 0
def rcErr : Nat := 1

def checkTransferRestrictions (s : St) (coinName : String) (user : Address) (value : Nat) :
    Outcome Unit := do
  require (!s.blacklist user) (.error "Blacklisted")
  require (value ≤ s.tokenLimit coinName) (.error "LimitExceed")

/-- `bmc.sendMessage`: `resolveRoute` reverts for a network it does not know. -/
def sendMessage (s : St) (target : String) (sn : Nat) (msg : ServiceMessage) : Outcome St := do
  require (s.reachable target) (.error s!"Unreachable: {target} is unreachable")
  return { s with sent := s.sent ++ [{ target, sn, msg }] }

def sendServiceMessage (d : Deployment) (s : St) (sender : Address) (target : String)
    (details : List AssetTransferDetail) : Outcome St := do
  let (toNetwork, toAddress) ← splitBTPAddress target
  let serialNo ← add s.serialNo 1
  let strFrom := toString d.caps sender
  let assets := details.map fun e => { coinName := e.coinName, value := e.value : Asset }
  let s ← sendMessage s toNetwork serialNo
    { serviceType := .requestCoinTransfer,
      data := .transferCoin { sender := strFrom, target := toAddress, assets } }
  let numOfPendingRequests ← add s.numOfPendingRequests 1
  return { s with
    serialNo, numOfPendingRequests
    requests := update s.requests serialNo (some { sender := strFrom, target, details })
    events := s.events ++ [.transferStart sender target serialNo details] }

def sendResponseMessage (s : St) (serviceType : ServiceType) (target : String) (sn : Nat)
    (message : String) (code : Nat) : Outcome St :=
  sendMessage s target sn { serviceType, data := .response { code, message } }

end IconBridge.Solidity.BTS
