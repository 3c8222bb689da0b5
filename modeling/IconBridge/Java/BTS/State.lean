import IconBridge.Lib.Dict
import IconBridge.Java.IRC2

/-!
# The token service of ICON

The storage of `BTPTokenService` and of the token contracts it calls. The
messages handed to `BMC.sendMessage` and the emitted events are kept as logs.

A recorded request keeps its sender as an address; the source writes it with
`toString` and reads it back with `fromString`.
-/

namespace IconBridge.Java.BTS

open Lib

inductive CoinType
  | native
  | nativeWrapped
  | nonNativeToken
  deriving DecidableEq, Repr

structure Coin where
  address : Address
  feeNumerator : ℤ
  fixedFee : ℤ
  coinType : CoinType
  deriving DecidableEq, Repr

structure Balance where
  usable : ℤ := 0
  locked : ℤ := 0
  refundable : ℤ := 0
  deriving DecidableEq, Repr

structure Asset where
  coinName : String
  amount : ℤ
  deriving DecidableEq, Repr

structure AssetTransferDetail extends Asset where
  fee : ℤ
  deriving DecidableEq, Repr

structure TransferTransaction where
  sender : Address
  target : String
  assets : List AssetTransferDetail
  deriving DecidableEq, Repr

structure TokenLimitTransaction where
  coinName : List String
  tokenLimit : List ℤ
  net : List (Option String)
  deriving DecidableEq, Repr

inductive BlacklistService
  | addToBlacklist
  | removeFromBlacklist
  deriving DecidableEq, Repr

structure BlacklistTransaction where
  serviceType : BlacklistService
  address : List String
  net : String
  deriving DecidableEq, Repr

inductive ServiceType
  | requestCoinTransfer
  | requestCoinRegister
  | responseHandleService
  | blacklistMessage
  | changeTokenLimit
  | unknownType
  | other (n : ℤ)
  deriving DecidableEq, Repr

structure TransferRequest where
  sender : String
  target : String
  assets : List Asset
  deriving DecidableEq, Repr

structure TransferResponse where
  code : ℤ
  message : Option String
  deriving DecidableEq, Repr

structure TokenLimitRequest where
  coinName : List String
  tokenLimit : List ℤ
  net : String
  deriving DecidableEq, Repr

/-- The data of a service message, as the reader for its type reads it. The
three responses have one form. A message with a `null` that its handler would
access is `malformed`, as is what cannot be read. -/
inductive Data
  | transferRequest (r : TransferRequest)
  | response (r : TransferResponse)
  | blacklist (r : BlacklistTransaction)
  | tokenLimit (r : TokenLimitRequest)
  | malformed
  deriving DecidableEq, Repr

structure BTSMessage where
  serviceType : ServiceType
  data : Data
  deriving DecidableEq, Repr

/-- One call of `BMC.sendMessage`; the service name is always `bts`. -/
structure Outgoing where
  target : String
  sn : ℤ
  msg : BTSMessage
  deriving DecidableEq, Repr

inductive Event
  | transferStart (sender : Address) (target : String) (sn : ℤ) (details : List AssetTransferDetail)
  | transferEnd (sender : Address) (sn code : ℤ) (msg : Option String)
  | transferReceived (sender : String) (target : Address) (sn : ℤ) (assets : List Asset)
  | unknownResponse (sender : String) (sn : ℤ)
  | addedToBlacklist (sn : ℤ) (msg : Option String)
  | removedFromBlacklist (sn : ℤ) (msg : Option String)
  | tokenLimitSet (sn : ℤ) (msg : Option String)
  deriving DecidableEq, Repr

/-- What is fixed when the service is deployed, and the library functions that
come without source. -/
structure Deployment where
  bts : Address
  isContract : bts.isContract = true
  bmc : Address
  net : String
  name : String
  isOwner : Address → Bool
  valueOf : String → Outcome BTPAddress
  fromString : String → Option Address
  lowercase : String → String

/-- The code behind a token address: an `IRC2Tradeable` that the service has
deployed, or an IRC2 contract from elsewhere. -/
inductive Code
  | tradeable
  | foreign
  deriving DecidableEq, Repr

structure St where
  coinNames : List String := []
  coinAddresses : String → Option Address := fun _ => none
  coinAddressName : Address → Option String := fun _ => none
  balances : String → Address → Balance := fun _ _ => {}
  feeBalances : String → ℤ := fun _ => 0
  transactions : ℤ → Option TransferTransaction := fun _ => none
  blacklistTxn : ℤ → Option BlacklistTransaction := fun _ => none
  tokenLimitTxn : ℤ → Option TokenLimitTransaction := fun _ => none
  tokenLimitStatus : String → String → Bool := fun _ _ => false
  coinDb : String → Option Coin
  tokenLimit : String → Option ℤ := fun _ => none
  sn : ℤ := 0
  restriction : Bool := true
  blacklist : String → List String := fun _ => []
  -- the message center
  links : List String := []
  reachable : String → Bool := fun _ => false
  sent : List Outgoing := []
  events : List Event := []
  -- ICX and token contracts
  icx : Address → ℤ
  code : Address → Option Code
  irc2 : Address → IRC2

def zeroScoreAddress : Address := ⟨true, 0⟩

/-- The constructor, on a chain with these accounts and contracts. -/
def initialState (d : Deployment) (feeNumerator fixedFee : ℤ) (icx : Address → ℤ)
    (code : Address → Option Code) (irc2 : Address → IRC2) : St where
  coinDb := Function.update (fun _ => none) d.name
    (some { address := zeroScoreAddress, feeNumerator, fixedFee, coinType := .native })
  icx := icx
  code := code
  irc2 := irc2

/-- Which contracts take what is sent to them. -/
structure Receivers where
  token : (token target : Address) → ℤ → Bool
  icx : Address → ℤ → Bool

/-- The codes of `BTSException` start at 40. -/
def unknown (message : String) : Exc := .btp 40 message
def unauthorized (message : String) : Exc := .btp 41 message
def irc31Failure (message : String) : Exc := .btp 42 message
def irc31Reverted (message : String) : Exc := .btp 43 message
def restricted (message : String) : Exc := .btp 44 message

def uintCap : ℤ := 2 ^ 256 - 1
def feeDenominator : ℤ := 10000
def batchLimitSize : ℕ := 15
def rcOk : ℤ := 0
def rcErr : ℤ := 1

end IconBridge.Java.BTS
