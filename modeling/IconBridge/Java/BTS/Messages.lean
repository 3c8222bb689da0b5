import IconBridge.Java.BTS.Service

/-!
# Messages and transactions of `BTPTokenService`

Blacklist and token limits, the dispatch of messages, fee gathering, coins and
the transactions that users, owners and the message center take.
-/

namespace IconBridge.Java.BTS

open Lib Function

def addToBlacklist (d : Deployment) (net : String) (s : St) (user : String) : St :=
  let users := s.blacklist net
  let user := d.lowercase user
  if user ∈ users then s
  else { s with blacklist := update s.blacklist net (users ++ [user]) }

def removeFromBlacklist (d : Deployment) (net : String) (s : St) (user : String) : St :=
  let users := s.blacklist net
  let user := d.lowercase user
  if user ∈ users then { s with blacklist := update s.blacklist net (swapErase users user) }
  else s

/-- A change that failed at its destination is undone here. -/
def undoBlacklist (d : Deployment) (s : St) (t : BlacklistTransaction) : St :=
  match t.serviceType with
  | .addToBlacklist => t.address.foldl (removeFromBlacklist d t.net) s
  | .removeFromBlacklist => t.address.foldl (addToBlacklist d t.net) s

def handleBlacklist (d : Deployment) (s : St) (sn : ℤ) (response : TransferResponse) : St :=
  match s.blacklistTxn sn with
  | none => s
  | some t =>
    if response.code = rcOk then
      let event := match t.serviceType with
        | .addToBlacklist => Event.addedToBlacklist sn response.message
        | .removeFromBlacklist => .removedFromBlacklist sn response.message
      { s with
        blacklistTxn := update s.blacklistTxn sn none
        events := s.events ++ [event] }
    else undoBlacklist d s t

def setTokenLimitStatus (net : String) (status : Bool) (s : St) (coinName : String) : St :=
  let ofNet := update (s.tokenLimitStatus net) coinName status
  { s with tokenLimitStatus := update s.tokenLimitStatus net ofNet }

/-- The new array is one shorter; an entry that occurs more often leaves `null`
at its end. -/
def removeFromArray (arr : List (Option String)) (element : String) :
    Outcome (List (Option String)) :=
  if some element ∈ arr then
    if none ∈ arr then .error (.other "NullPointerException")
    else
      let rest := arr.filter (· ≠ some element)
      .ok (rest ++ List.replicate (arr.length - 1 - rest.length) none)
  else .ok arr

def handleChangeTokenLimit (s : St) (net : String) (sn : ℤ) (response : TransferResponse) :
    Outcome St :=
  match s.tokenLimitTxn sn with
  | none => .ok s
  | some t => do
    require (response.code = rcOk) (unknown "Invalid change limit transaction")
    let nets ← removeFromArray t.net net
    let s := t.coinName.foldl (setTokenLimitStatus net true) s
    let left := if nets = [] then none else some { t with net := nets }
    return { s with
      tokenLimitTxn := update s.tokenLimitTxn sn left
      events := s.events ++ [.tokenLimitSet sn response.message] }

def requireOwnerAccess (d : Deployment) (sender : Address) : Outcome Unit :=
  require (d.isOwner sender) (unauthorized "require owner access")

/-- The networks of the links, in their order. -/
def linkNets (d : Deployment) (s : St) : Outcome (List String) :=
  s.links.mapM fun link => do return (← d.valueOf link).net

/-- One round of the first loop of `setTokenLimit` -/
def limitCoin (d : Deployment) (s : St) (a : String × ℤ) : Outcome St := do
  checkUintLimit a.2
  require (0 ≤ a.2) (unknown "Invalid value")
  let s := { s with tokenLimit := update s.tokenLimit a.1 (some a.2) }
  return setTokenLimitStatus d.net true s a.1

/-- One round of the second loop -/
def announceLimit (coinNames : List String) (tokenLimits : List ℤ) (sn : ℤ) (s : St)
    (net : String) : Outcome St :=
  sendMessage (coinNames.foldl (setTokenLimitStatus net false) s) net .changeTokenLimit sn
    (.tokenLimit { coinName := coinNames, tokenLimit := tokenLimits, net })

def setTokenLimit (d : Deployment) (s : St) (sender : Address) (coinNames : List String)
    (tokenLimits : List ℤ) : Outcome St := do
  requireOwnerAccess d sender
  require (coinNames.length = tokenLimits.length) (unknown "Invalid arguments")
  require (0 < coinNames.length) (unknown "Array can't be empty.")
  require (coinNames.length ≤ batchLimitSize) (unknown "Array  Exceed.")
  let s ← (coinNames.zip tokenLimits).foldlM (limitCoin d) s
  let sn := s.sn + 1
  let nets ← linkNets d s
  let s ← nets.foldlM (announceLimit coinNames tokenLimits sn) { s with sn }
  let t := { coinName := coinNames, tokenLimit := tokenLimits, net := nets.map some }
  return { s with tokenLimitTxn := update s.tokenLimitTxn sn (some t) }

/-- The request to another network, unless there is nothing to change. -/
def sendBlacklist (d : Deployment) (s : St) (serviceType : BlacklistService) (net : String)
    (address : List String) : Outcome St :=
  if address = [] ∨ d.net = net then .ok s
  else
    let sn := s.sn + 1
    let t := { serviceType, address, net }
    sendMessage { s with sn, blacklistTxn := update s.blacklistTxn sn (some t) }
      net .blacklistMessage sn (.blacklist t)

def requireLink (d : Deployment) (s : St) (net : String) : Outcome Unit := do
  let nets ← linkNets d s
  require (net ∈ nets || net = d.net) (unknown "Invalid link")

/-- One round of `addBlacklistAddress`, with the addresses added so far. -/
def blacklistUser (d : Deployment) (net : String) (x : St × List String) (addr : String) :
    St × List String :=
  let addr := d.lowercase addr
  if !isUserBlackListed d x.1 net addr && 0 < addr.length &&
      (net ≠ d.net || (d.fromString addr).isSome) then
    (addToBlacklist d net x.1 addr, x.2 ++ [addr])
  else x

def addBlacklistAddress (d : Deployment) (s : St) (sender : Address) (net : String)
    (addresses : List String) : Outcome St := do
  requireOwnerAccess d sender
  require (addresses.length ≤ batchLimitSize) (unknown "Exceed Batch Limit Size")
  requireLink d s net
  let (s, added) := addresses.foldl (blacklistUser d net) (s, [])
  sendBlacklist d s .addToBlacklist net added

/-- One round of `removeBlacklistAddress`; the address goes out as it was given. -/
def unlistUser (d : Deployment) (net : String) (x : St × List String) (addr : String) :
    St × List String :=
  if isUserBlackListed d x.1 net addr then (removeFromBlacklist d net x.1 addr, x.2 ++ [addr])
  else x

def removeBlacklistAddress (d : Deployment) (s : St) (sender : Address) (net : String)
    (addresses : List String) : Outcome St := do
  requireOwnerAccess d sender
  require (addresses.length ≤ batchLimitSize) (unknown "Exceed Batch Limit Size")
  requireLink d s net
  let (s, removed) := addresses.foldl (unlistUser d net) (s, [])
  sendBlacklist d s .removeFromBlacklist net removed

def handleBTPMessage (d : Deployment) (r : Receivers) (s : St) (caller : Address)
    (sender svc : String) (sn : ℤ) (msg : Option BTSMessage) : Outcome St := do
  require (caller = d.bmc) (unknown "Only BMC")
  require (svc = "bts") (unknown "InvalidSvc")
  match msg with
  | none => .error (.other "IllegalStateException")
  | some msg =>
    match msg.serviceType, msg.data with
    | .requestCoinTransfer, .transferRequest request => handleRequest d r s request sender sn
    | .responseHandleService, .response response => handleResponse d r s sn response
    | .blacklistMessage, .response response => .ok (handleBlacklist d s sn response)
    | .changeTokenLimit, .response response => handleChangeTokenLimit s sender sn response
    | .unknownType, _ => .ok { s with events := s.events ++ [.unknownResponse sender sn] }
    | .requestCoinRegister, _ | .other _, _ =>
      sendMessage s sender .unknownType sn
        (.response { code := rcErr, message := some "UNKNOWN_TYPE" })
    | _, _ => .error (.other "IllegalStateException")

def handleBTPError (d : Deployment) (r : Receivers) (s : St) (caller : Address) (src : String)
    (sn code : ℤ) (msg : String) : Outcome St := do
  require (caller = d.bmc) (unknown "Only BMC")
  if (s.transactions sn).isSome then
    handleResponse d r s sn { code := rcErr
                              message := some ("BTPError [code:" ++ toString code ++ ",msg:" ++ msg) }
  else
    match s.tokenLimitTxn sn, s.blacklistTxn sn with
    | some t, _ => return t.coinName.foldl (setTokenLimitStatus src false) s
    | none, some t => return undoBlacklist d s t
    | none, none => return s

/-- The fees of every coin, in the order of `coinNames()`, are taken out. -/
def clearFees (d : Deployment) (s : St) : St × List (String × ℤ) :=
  let names := d.name :: s.coinNames
  let fees := names.filterMap fun c => if 0 < s.feeBalances c then some (c, s.feeBalances c) else none
  ({ s with feeBalances := fun c => if c ∈ names ∧ 0 < s.feeBalances c then 0 else s.feeBalances c },
    fees)

def payFees (d : Deployment) (r : Receivers) (s : St) (fa : Address) (fees : List (String × ℤ)) :
    Outcome St := do
  let s ← (fees.find? fun a => a.1 = d.name).elim (.ok s) fun a => payICX d r s fa a.2
  (fees.filter fun a => a.1 ≠ d.name).foldlM (transferOut d r fa) s

def handleFeeGathering (d : Deployment) (r : Receivers) (s : St) (caller : Address) (fa : String) :
    Outcome St := do
  require (caller = d.bmc) (unknown "Only BMC")
  let target ← d.valueOf fa
  let (s, fees) := clearFees d s
  if fees = [] then return s
  else if target.net = d.net then
    match d.fromString target.contract with
    | none => .error (.other "IllegalArgumentException")
    | some fa => payFees d r s fa fees
  else sendRequest d s d.bts target fees

/-- `str.trim().isEmpty()` -/
def isBlank (str : String) : Bool := str.toList.all (· ≤ ' ')

/-- The constructor of a token contract, at the address it gets. -/
def deployIRC2 (s : St) (deployed : Address) (name symbol : String) (decimals : ℤ) :
    Outcome St := do
  require (!isBlank name) (.reverted 0 "str is null or empty")
  require (!isBlank symbol) (.reverted 0 "str is null or empty")
  require (0 ≤ decimals && decimals ≤ 77) (.reverted 0 "decimals")
  require (deployed.isContract && (s.code deployed).isNone) (.other "address in use")
  return { setIRC2 s deployed {} with code := update s.code deployed (some .tradeable) }

def requireFee (feeNumerator fixedFee : ℤ) : Outcome Unit := do
  require (0 ≤ feeNumerator && feeNumerator < feeDenominator) (.reverted 0
    "The feeNumerator should be less than FEE_DENOMINATOR and feeNumerator should be greater than 1")
  require (0 ≤ fixedFee) (.reverted 0 "Fixed fee cannot be less than zero")

def addCoin (s : St) (name : String) (coin : Coin) : St :=
  { s with
    coinNames := s.coinNames ++ [name]
    coinAddresses := update s.coinAddresses name (some coin.address)
    coinAddressName := update s.coinAddressName coin.address (some name)
    coinDb := update s.coinDb name (some coin) }

/-- A token contract is deployed when no address, or the zero one, is given. -/
def register (d : Deployment) (s : St) (sender : Address) (name symbol : String)
    (decimals feeNumerator fixedFee : ℤ) (addr : Option Address) (deployed : Address) :
    Outcome St := do
  requireOwnerAccess d sender
  require (!isRegistered d s name) (unknown "already existed")
  requireFee feeNumerator fixedFee
  match addr.filter (· ≠ zeroScoreAddress) with
  | none =>
    let s ← deployIRC2 s deployed name symbol decimals
    return addCoin s name
      { address := deployed, feeNumerator, fixedFee, coinType := .nativeWrapped }
  | some addr =>
    require (s.coinAddressName addr).isNone (unknown "coin with that address already registered")
    return addCoin s name
      { address := addr, feeNumerator, fixedFee, coinType := .nonNativeToken }

def setFeeRatio (d : Deployment) (s : St) (sender : Address) (name : String)
    (feeNumerator fixedFee : ℤ) : Outcome St := do
  requireOwnerAccess d sender
  requireFee feeNumerator fixedFee
  require (isRegistered d s name) (unknown "Not supported Coin")
  match s.coinDb name with
  | none => .error (unknown "Coin Not Registered")
  | some coin =>
    let coin := { coin with feeNumerator, fixedFee }
    return { s with coinDb := update s.coinDb name (some coin) }

inductive Tx
  | transferNativeCoin (sender : Address) (value : ℕ) (target : String)
  | transfer (r : Receivers) (sender : Address) (coinName : String) (value : ℤ) (target : String)
  | transferBatch (r : Receivers) (sender : Address) (coinNames : List String) (values : List ℤ)
      (value : ℕ) (target : String)
  | reclaim (r : Receivers) (sender : Address) (coinName : String) (value : ℤ)
  | handleBTPMessage (r : Receivers) (caller : Address) (sender svc : String) (sn : ℤ)
      (msg : Option BTSMessage)
  | handleBTPError (r : Receivers) (caller : Address) (src : String) (sn code : ℤ) (msg : String)
  | handleFeeGathering (r : Receivers) (caller : Address) (fa : String)
  | register (sender : Address) (name symbol : String) (decimals feeNumerator fixedFee : ℤ)
      (addr : Option Address) (deployed : Address)
  | setFeeRatio (sender : Address) (name : String) (feeNumerator fixedFee : ℤ)
  | setTokenLimit (sender : Address) (coinNames : List String) (tokenLimits : List ℤ)
  | addBlacklistAddress (sender : Address) (net : String) (addresses : List String)
  | removeBlacklistAddress (sender : Address) (net : String) (addresses : List String)
  | setRestriction (sender : Address) (restriction : Bool)
  /-- Calls of token contracts by their holders. -/
  | tokenTransfer (r : Receivers) (token sender target : Address) (value : ℤ)
  | tokenTransferFrom (r : Receivers) (token caller sender target : Address) (value : ℤ)
  | tokenApprove (token owner spender : Address) (amount : ℤ)
  /-- A call of `tokenFallback` by any contract or account. -/
  | tokenFallback (caller sender : Address) (value : ℤ)
  /-- The links of the message center change. -/
  | network (links : List String) (reachable : String → Bool)

/-- The service sends no transactions itself, and a contract that it has
deployed calls `tokenFallback` in a transfer only. -/
def step (d : Deployment) (s : St) : Tx → Outcome St
  | .transferNativeCoin sender value target => transferNativeCoin d s sender value target
  | .transfer r sender coinName value target => transfer d r s sender coinName value target
  | .transferBatch r sender coinNames values value target =>
    transferBatch d r s sender coinNames values value target
  | .reclaim r sender coinName value => reclaim d r s sender coinName value
  | .handleBTPMessage r caller sender svc sn msg => handleBTPMessage d r s caller sender svc sn msg
  | .handleBTPError r caller src sn code msg => handleBTPError d r s caller src sn code msg
  | .handleFeeGathering r caller fa => handleFeeGathering d r s caller fa
  | .register sender name symbol decimals feeNumerator fixedFee addr deployed =>
    register d s sender name symbol decimals feeNumerator fixedFee addr deployed
  | .setFeeRatio sender name feeNumerator fixedFee =>
    setFeeRatio d s sender name feeNumerator fixedFee
  | .setTokenLimit sender coinNames tokenLimits => setTokenLimit d s sender coinNames tokenLimits
  | .addBlacklistAddress sender net addresses => addBlacklistAddress d s sender net addresses
  | .removeBlacklistAddress sender net addresses => removeBlacklistAddress d s sender net addresses
  | .setRestriction sender restriction => do
    requireOwnerAccess d sender
    return { s with restriction }
  | .tokenTransfer r token sender target value => do
    require (sender ≠ d.bts) (.other "")
    tokenTransfer d r s token sender target value
  | .tokenTransferFrom r token caller sender target value => do
    require (caller ≠ d.bts) (.other "")
    tokenTransferFrom d r s token caller sender target value
  | .tokenApprove token owner spender amount => do
    require (owner ≠ d.bts) (.other "")
    return tokenApprove s token owner spender amount
  | .tokenFallback caller sender value => do
    require (s.code caller ≠ some .tradeable) (.other "")
    tokenFallback d s caller sender value
  | .network links reachable => .ok { s with links, reachable }

end IconBridge.Java.BTS
