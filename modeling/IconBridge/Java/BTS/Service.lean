import IconBridge.Lib.Runs
import IconBridge.Java.BTS.State

/-!
# `BTPTokenService`

Tokens, locks and refunds, requests and their responses. A transfer of tokens
into the service calls `tokenFallback` in the middle of whatever the service is
doing; other contracts take what they are sent or do not.
-/

namespace IconBridge.Java.BTS

open Lib Function

def checkUintLimit (value : ℤ) : Outcome Unit :=
  require (value ≤ uintCap) (unknown "Value cannot exceed uint(256)-1")

def setBalance (s : St) (coinName : String) (owner : Address) (b : Balance) : St :=
  { s with balances :=
      update s.balances coinName (update (s.balances coinName) owner b) }

def addFee (s : St) (coinName : String) (amount : ℤ) : St :=
  { s with feeBalances := update s.feeBalances coinName (s.feeBalances coinName + amount) }

def isRegistered (d : Deployment) (s : St) (coinName : String) : Bool :=
  coinName ∈ s.coinNames || d.name = coinName

def getTokenLimit (s : St) (coinName : String) : ℤ := (s.tokenLimit coinName).getD uintCap

def isUserBlackListed (d : Deployment) (s : St) (net user : String) : Bool :=
  d.lowercase user ∈ s.blacklist net

def checkTransferRestrictions (d : Deployment) (s : St) (net coinName sender target : String)
    (value : ℤ) : Outcome Unit :=
  if s.restriction then do
    require (!isUserBlackListed d s net sender) (restricted "_from user is Blacklisted")
    require (!isUserBlackListed d s net target) (restricted "_to user is Blacklisted")
    require (value ≤ getTokenLimit s coinName)
      (restricted "Transfer amount exceeds the transaction limit")
  else .ok ()

def checkRestrictions (d : Deployment) (s : St) (coinName sender : String) (target : BTPAddress)
    (value : ℤ) : Outcome Unit := do
  checkTransferRestrictions d s target.net coinName sender target.contract value
  checkTransferRestrictions d s d.net coinName sender target.contract value

def checkBlacklist (d : Deployment) (s : St) (net sender target : String) : Outcome Unit :=
  if s.restriction then do
    require (!isUserBlackListed d s net sender) (restricted "from user blacklisted")
    require (!isUserBlackListed d s net target) (restricted "to user blacklisted")
  else .ok ()

def checkTokenLimit (s : St) (coinName : String) (value : ℤ) : Outcome Unit :=
  if s.restriction then
    require (value ≤ getTokenLimit s coinName)
      (restricted "Transfer amount exceeds the transaction limit")
  else .ok ()

def tokenFallback (d : Deployment) (s : St) (caller sender : Address) (value : ℤ) :
    Outcome St := do
  require (0 ≤ value) (unknown "value should be positive")
  checkUintLimit value
  match s.coinAddressName caller with
  | none => .error (unknown "Token not registered")
  | some coinName =>
    require (d.bts ≠ sender) (unknown "Token not registered")
    require (s.coinAddresses coinName).isSome (.reverted 0 "CoinNotExists")
    let b := s.balances coinName sender
    return setBalance s coinName sender { b with usable := b.usable + value }

def setIRC2 (s : St) (token : Address) (t : IRC2) : St :=
  { s with irc2 := update s.irc2 token t }

/-- The call of `tokenFallback` that ends a transfer to a contract. -/
def fallback (d : Deployment) (r : Receivers) (s : St) (token sender target : Address) (value : ℤ) :
    Outcome St :=
  if target.isContract then
    if target = d.bts then tokenFallback d s token sender value
    else do
      require (r.token token target value) (.reverted 0 "tokenFallback")
      return s
  else .ok s

def tokenTransfer (d : Deployment) (r : Receivers) (s : St) (token sender target : Address)
    (value : ℤ) : Outcome St := do
  require (s.code token).isSome (.other "IllegalArgumentException")
  let t ← (s.irc2 token).transfer sender target value
  fallback d r (setIRC2 s token t) token sender target value

def tokenTransferFrom (d : Deployment) (r : Receivers) (s : St)
    (token caller sender target : Address) (value : ℤ) : Outcome St := do
  require (s.code token).isSome (.other "IllegalArgumentException")
  let t ← (s.irc2 token).transferFrom caller sender target value
  fallback d r (setIRC2 s token t) token sender target value

def tokenApprove (s : St) (token owner spender : Address) (amount : ℤ) : St :=
  setIRC2 s token ((s.irc2 token).approve owner spender amount)

/-- What the service throws when a token contract has thrown. -/
def intercall : Exc → Exc
  | .btp code message | .reverted code message =>
    irc31Reverted ("code:" ++ toString code ++ "msg:" ++ message)
  | .other message => irc31Failure ("Exception:" ++ message)

/-- Nothing is moved but for wrapped coins. -/
def transferFrom (d : Deployment) (r : Receivers) (s : St) (sender target : Address)
    (coinName : String) (amount : ℤ) : Outcome St := do
  let coin ← nonNull (s.coinDb coinName)
  if coin.coinType = .nativeWrapped then
    let token ← nonNull (s.coinAddresses coinName)
    (tokenTransferFrom d r s token d.bts sender target amount).mapError intercall
  else return s

/-- Out of the service: a wrapped coin is first approved by the service to
itself. The state comes with what was thrown, since the approval stays. -/
def sendOut (d : Deployment) (r : Receivers) (s : St) (target : Address) (coinName : String)
    (amount : ℤ) : St × Option Exc :=
  match (s.coinDb coinName).map Coin.coinType, s.coinAddresses coinName with
  | some .native, _ => (s, none)
  | some .nativeWrapped, some token =>
    let s := tokenApprove s token d.bts d.bts amount
    match transferFrom d r s d.bts target coinName amount with
    | .ok s' => (s', none)
    | .error e => (s, some e)
  | some .nonNativeToken, some token =>
    match tokenTransfer d r s token d.bts target amount with
    | .ok s' => (s', none)
    | .error e => (s, some (intercall e))
  | some .nonNativeToken, none => (s, some (irc31Failure "Exception: CoinNotFound"))
  | _, _ => (s, some (.other "NullPointerException"))

/-- One round of `_transferBatch` -/
def transferOut (d : Deployment) (r : Receivers) (target : Address) (s : St) (a : String × ℤ) :
    Outcome St :=
  match sendOut d r s target a.1 a.2 with
  | (s', none) => .ok s'
  | (_, some e) => .error e

/-- `Context.transfer` -/
def payICX (d : Deployment) (r : Receivers) (s : St) (target : Address) (value : ℤ) :
    Outcome St := do
  require (value ≤ s.icx d.bts) (.other "OutOfBalance")
  require (!target.isContract || r.icx target value) (.other "fallback")
  let icx := update s.icx d.bts (s.icx d.bts - value)
  return { s with icx := update icx target (icx target + value) }

/-- The coin attached to a payable call. -/
def attach (d : Deployment) (s : St) (sender : Address) (value : ℕ) : Outcome St := do
  require (value ≤ s.icx sender) (.other "OutOfBalance")
  let icx := update s.icx sender (s.icx sender - value)
  return { s with icx := update icx d.bts (icx d.bts + value) }

def mint (d : Deployment) (r : Receivers) (target : Address) (s : St) (a : String × ℤ) :
    Outcome St := do
  let coin ← nonNull (s.coinDb a.1)
  if coin.coinType = .nativeWrapped then
    let t ← ((s.irc2 coin.address).mint target a.2).mapError intercall
    return setIRC2 s coin.address t
  else
    match s.coinAddresses a.1 with
    | none => .error (irc31Failure "Exception: CoinNotFound")
    | some token => (tokenTransfer d r s token d.bts target a.2).mapError intercall

def burn (d : Deployment) (s : St) (a : String × ℤ) : Outcome St := do
  let coin ← nonNull (s.coinDb a.1)
  if coin.coinType = .nativeWrapped then
    let t ← ((s.irc2 coin.address).burn d.bts a.2).mapError intercall
    return setIRC2 s coin.address t
  else return s

/-- The service itself pays the fixed fee only. -/
def feeFor (d : Deployment) (coin : Coin) (owner : Address) (amount : ℤ) : ℤ :=
  let feeRatio := if owner = d.bts then 0 else coin.feeNumerator
  let fee := (amount * feeRatio).tdiv feeDenominator + coin.fixedFee
  if 0 < feeRatio ∧ fee = 0 then 1 else fee

def newAssetTransferDetail (d : Deployment) (s : St) (owner : Address) (a : String × ℤ) :
    Outcome AssetTransferDetail :=
  match s.coinDb a.1 with
  | none => .error (unknown "Coin Not Registered")
  | some coin =>
    let fee := feeFor d coin owner a.2
    if a.2 - fee < 1 then .error (unknown "not enough value")
    else .ok { coinName := a.1, amount := a.2 - fee, fee }

/-- The usable balance pays for tokens from elsewhere only. -/
def lock (s : St) (owner : Address) (a : String × ℤ) : Outcome St := do
  let b := s.balances a.1 owner
  let coin ← nonNull (s.coinDb a.1)
  if coin.coinType = .nonNativeToken then
    require (a.2 ≤ b.usable) (.reverted 0 "InSufficient Usable Balance")
    return setBalance s a.1 owner { b with usable := b.usable - a.2, locked := b.locked + a.2 }
  else return setBalance s a.1 owner { b with locked := b.locked + a.2 }

def unlock (s : St) (coinName : String) (owner : Address) (value : ℤ) : St :=
  let b := s.balances coinName owner
  setBalance s coinName owner { b with locked := b.locked - value }

/-- `BMC.sendMessage` -/
def sendMessage (s : St) (net : String) (serviceType : ServiceType) (sn : ℤ) (data : Data) :
    Outcome St := do
  require (0 < sn) (.reverted 12 "InvalidSn")
  require (s.reachable net) (.reverted 21 "Unreachable")
  return { s with sent := s.sent ++ [{ target := net, sn, msg := { serviceType, data } }] }

/-- One round of the loop in `sendRequest` -/
def lockAsset (d : Deployment) (owner : Address) (x : St × List AssetTransferDetail)
    (a : String × ℤ) : Outcome (St × List AssetTransferDetail) := do
  let detail ← newAssetTransferDetail d x.1 owner a
  let s ← lock x.1 owner a
  return (s, x.2 ++ [detail])

def sendRequest (d : Deployment) (s : St) (owner : Address) (target : BTPAddress)
    (coins : List (String × ℤ)) : Outcome St := do
  let (s, details) ← coins.foldlM (lockAsset d owner) (s, [])
  let sn := s.sn + 1
  let transaction := { sender := owner, target := target.toString, assets := details }
  let s := { s with sn, transactions := update s.transactions sn (some transaction) }
  let s ← sendMessage s target.net .requestCoinTransfer sn (.transferRequest
    { sender := owner.toString, target := target.contract,
      assets := details.map AssetTransferDetail.toAsset })
  return { s with events := s.events ++ [.transferStart owner target.toString sn details] }

def transferNativeCoin (d : Deployment) (s : St) (sender : Address) (value : ℕ) (target : String) :
    Outcome St := do
  let s ← attach d s sender value
  checkUintLimit value
  let target ← d.valueOf target
  require (0 < value) (unknown "Invalid amount")
  checkRestrictions d s d.name sender.toString target value
  sendRequest d s sender target [(d.name, value)]

def transfer (d : Deployment) (r : Receivers) (s : St) (sender : Address) (coinName : String)
    (value : ℤ) (target : String) : Outcome St := do
  require (coinName ≠ d.name) (unknown "Only for IRC2 Token")
  require (0 < value) (unknown "Invalid amount")
  checkUintLimit value
  require (isRegistered d s coinName) (unknown "Not supported Token")
  let target ← d.valueOf target
  checkRestrictions d s coinName sender.toString target value
  let s ← transferFrom d r s sender d.bts coinName value
  sendRequest d s sender target [(coinName, value)]

/-- One round of the checking loop of `transferBatch` -/
def checkBatchEntry (d : Deployment) (s : St) (a : String × ℤ) : Outcome Unit := do
  require (d.name ≠ a.1 && a.1 ∈ s.coinNames) (unknown "Not supported Token")
  require (0 < a.2) (unknown "Invalid amount")
  checkUintLimit a.2
  checkTokenLimit s a.1 a.2

def transferBatch (d : Deployment) (r : Receivers) (s : St) (sender : Address)
    (coinNames : List String) (values : List ℤ) (value : ℕ) (target : String) : Outcome St := do
  let s ← attach d s sender value
  require (0 < coinNames.length) (unknown "Zero length arguments")
  require (coinNames.length = values.length) (unknown "Invalid arguments")
  let attached : List (String × ℤ) := if 0 < value then [(d.name, (value : ℤ))] else []
  attached.forM fun a => checkTokenLimit s a.1 a.2
  require (coinNames.length + attached.length ≤ batchLimitSize)
    (unknown "Cannot transfer over 15 tokens at once")
  let target ← d.valueOf target
  checkBlacklist d s d.net sender.toString target.contract
  checkBlacklist d s target.net sender.toString target.contract
  let coins := coinNames.zip values
  coins.forM (checkBatchEntry d s)
  let s ← coins.foldlM (fun s a => transferFrom d r s sender d.bts a.1 a.2) s
  sendRequest d s sender target (attached ++ coins)

def reclaim (d : Deployment) (r : Receivers) (s : St) (sender : Address) (coinName : String)
    (value : ℤ) : Outcome St := do
  require (0 < value) (unknown "_value must be positive")
  checkUintLimit value
  let b := s.balances coinName sender
  require (value ≤ b.refundable + b.usable) (unknown "invalid value")
  require (isRegistered d s coinName) (unknown "Not registered")
  let b := if b.refundable < value then
      { b with usable := b.usable - (value - b.refundable), refundable := 0 }
    else { b with refundable := b.refundable - value }
  let s := setBalance s coinName sender b
  if d.name = coinName then payICX d r s sender value
  else transferOut d r sender s (coinName, value)

/-- Tokens in order, and the last amount that names the native coin. -/
structure Payout where
  native : Option ℤ := none
  tokens : List (String × ℤ) := []

/-- One round of the loop in `handleRequest` -/
def addAsset (d : Deployment) (s : St) (sender target : String) (p : Payout) (a : Asset) :
    Outcome Payout := do
  require (1 ≤ a.amount) (unknown "Amount must be positive value")
  require (a.coinName ∈ s.coinNames || d.name = a.coinName) (unknown "Invalid Token")
  checkTransferRestrictions d s d.net a.coinName sender target a.amount
  if a.coinName ∈ s.coinNames then return { p with tokens := p.tokens ++ [(a.coinName, a.amount)] }
  else return { p with native := some a.amount }

def payNative (d : Deployment) (r : Receivers) (s : St) (target : Address) :
    Option ℤ → Outcome St
  | none => .ok s
  | some amount =>
    (payICX d r s target amount).mapError fun
      | .btp _ m | .reverted _ m | .other m => unknown ("fail to transfer err:" ++ m)

def handleRequest (d : Deployment) (r : Receivers) (s : St) (request : TransferRequest)
    (sender : String) (sn : ℤ) : Outcome St :=
  match d.fromString request.target with
  | none => .error (unknown "IllegalArgumentException")
  | some target => do
    require (request.assets.length ≤ batchLimitSize) (unknown "Exceed Batch Limit Size")
    let p ← request.assets.foldlM (addAsset d s sender request.target) {}
    let s ← payNative d r s target p.native
    let s ← p.tokens.foldlM (mint d r target) s
    let s ← sendMessage s sender .responseHandleService sn
      (.response { code := rcOk, message := some "Transfer Success" })
    return { s with events := s.events ++ [.transferReceived sender target sn request.assets] }

/-- One round for a request that was carried out. -/
def settle (d : Deployment) (owner : Address) (s : St) (a : AssetTransferDetail) : Outcome St := do
  require (isRegistered d s a.coinName) (unknown "invalid transaction, invalid coinName")
  return addFee (unlock s a.coinName owner (a.amount + a.fee)) a.coinName a.fee

/-- The `try` block of `refund` -/
def payBack (d : Deployment) (r : Receivers) (s : St) (coinName : String) (owner : Address)
    (value : ℤ) : St × Option Exc :=
  if d.name = coinName then
    match payICX d r s owner value with
    | .ok s' => (s', none)
    | .error e => (s, some e)
  else sendOut d r s owner coinName value

def refund (d : Deployment) (r : Receivers) (s : St) (coinName : String) (owner : Address)
    (locked fee : ℤ) : St :=
  let value := locked - fee
  let s := unlock s coinName owner locked
  let b := s.balances coinName owner
  let (s, thrown) := payBack d r s coinName owner value
  let s :=
    if thrown.isSome ∧ owner ≠ d.bts then
      setBalance s coinName owner { b with refundable := b.refundable + value }
    else s
  addFee s coinName fee

/-- One round for a request that failed. -/
def refundAsset (d : Deployment) (r : Receivers) (owner : Address) (s : St)
    (a : AssetTransferDetail) : Outcome St := do
  require (isRegistered d s a.coinName) (unknown "invalid transaction, invalid coinName")
  return refund d r s a.coinName owner (a.amount + a.fee) a.fee

def settleAssets (d : Deployment) (r : Receivers) (s : St) (t : TransferTransaction) (code : ℤ) :
    Outcome St :=
  if code = rcOk then do
    let s ← t.assets.foldlM (settle d t.sender) s
    let tokens := t.assets.filter fun a => d.name ≠ a.coinName
    (tokens.map fun a => (a.coinName, a.amount)).foldlM (burn d) s
  else t.assets.foldlM (refundAsset d r t.sender) s

/-- Without a pending request the response is ignored. -/
def handleResponse (d : Deployment) (r : Receivers) (s : St) (sn : ℤ) (response : TransferResponse) :
    Outcome St :=
  match s.transactions sn with
  | none => .ok s
  | some t => do
    require (t.assets.length ≤ batchLimitSize) (unknown "Exceed Batch Limit Size")
    let s ← settleAssets d r s t response.code
    return { s with
      transactions := update s.transactions sn none
      events := s.events ++ [.transferEnd t.sender sn response.code response.message] }

end IconBridge.Java.BTS
