import IconBridge.Solidity.BTS.State

/-!
# BTSCore

The functions of `BTSCore` and the token contracts under them.

A payment of native coin, or of a token from elsewhere, hands control to its
receiver. What the receiver does is a script: it rejects the payment, accepts
it, or first calls back into the service, in any order and to any depth. A
failed call back is undone on its own.
-/

namespace IconBridge.Solidity.BTS

open Lib Function

def setBalance (s : St) (u : Address) (c : String) (b : Balance) : St :=
  { s with balances := update s.balances u (update (s.balances u) c b) }

def setHolders (s : St) (token : Address) (f : Ledger) : St :=
  { s with erc20 := update s.erc20 token f }

/-- `ERC20.transfer` by a holder. A call to an address without code reverts. -/
def tokenTransfer (s : St) (token sender receiver : Address) (value : Nat) : Outcome St :=
  match s.code token with
  | none => .error .raw
  | some code => do
    require (!(code = .tradable && receiver = 0)) (.error "ERC20: transfer to the zero address")
    require (value ≤ s.erc20 token sender) (.error "ERC20: transfer amount exceeds balance")
    return setHolders s token (move (s.erc20 token) sender receiver value)

/-- `ERC20.transferFrom` with `BTSCore` as spender and receiver. -/
def tokenTransferFrom (d : Deployment) (s : St) (token holder : Address) (value : Nat) :
    Outcome St := do
  require (s.code token).isSome .raw
  let approved := s.allowance token holder
  require (approved = uint256Max || value ≤ approved) (.error "ERC20: insufficient allowance")
  let left := if approved = uint256Max then approved else approved - value
  let s := { s with
    allowance := update s.allowance token (update (s.allowance token) holder left) }
  tokenTransfer s token holder d.btsCore value

/-- `ERC20Tradable.mint`; `BTSCore` owns the contracts it has deployed and no others. -/
def tokenMint (s : St) (token account : Address) (value : Nat) : Outcome St := do
  require (s.code token = some .tradable) .raw
  require (account ≠ 0) (.error "ERC20: mint to the zero address")
  let supply ← add (s.totalSupply token) value
  return { setHolders s token (update (s.erc20 token) account (s.erc20 token account + value))
    with totalSupply := update s.totalSupply token supply }

/-- `ERC20Tradable.burn` -/
def tokenBurn (s : St) (token account : Address) (value : Nat) : Outcome St := do
  require (s.code token = some .tradable) .raw
  require (account ≠ 0) (.error "ERC20: burn from the zero address")
  require (value ≤ s.erc20 token account) (.error "ERC20: burn amount exceeds balance")
  return { setHolders s token (update (s.erc20 token) account (s.erc20 token account - value))
    with totalSupply := update s.totalSupply token (s.totalSupply token - value) }

/-- What the receiver of a payment does with the control it is given. -/
abbrev Receiver := St → Outcome St

/-- `BTSCore` has no `receive` function, so a payment to itself fails. -/
def paymentTransfer (d : Deployment) (s : St) (receiver : Address) (amount : Nat) (k : Receiver) :
    Outcome St := do
  require (receiver ≠ d.btsCore && amount ≤ s.native d.btsCore) (.error "PaymentFailed")
  match k { s with native := move s.native d.btsCore receiver amount } with
  | .ok s => .ok s
  | .error _ => .error (.error "PaymentFailed")

/-- `IERC20(token).transfer` by `BTSCore`. An `ERC20Tradable` calls nobody. -/
def tokenPayment (d : Deployment) (s : St) (token receiver : Address) (value : Nat) (k : Receiver) :
    Outcome St := do
  let s ← tokenTransfer s token d.btsCore receiver value
  if s.code token = some .foreign then k s else .ok s

def refund (d : Deployment) (s : St) (receiver : Address) (coinName : String) (value : Nat)
    (k : Receiver) : Outcome St :=
  if coinName = s.nativeCoinName then paymentTransfer d s receiver value k
  else tokenPayment d s (s.coins coinName) receiver value k

def mint (d : Deployment) (s : St) (receiver : Address) (coinName : String) (value : Nat)
    (k : Receiver) : Outcome St :=
  if coinName = s.nativeCoinName then paymentTransfer d s receiver value k
  else match (s.coinDetails coinName).coinType with
    | .nativeWrapped => tokenMint s (s.coins coinName) receiver value
    | .nonNativeToken => tokenPayment d s (s.coins coinName) receiver value k
    | .native => .ok s

def feeDenominator : Nat := 10 ^ 4

/-- `msg.value` reaches `BTSCore` before its code runs. -/
def deposit (d : Deployment) (s : St) (sender : Address) (value : Nat) : Outcome St := do
  require (value ≤ s.native sender) .raw
  return { s with native := move s.native sender d.btsCore value }

def chargeAmt (s : St) (coinName : String) (value : Nat) : Outcome Nat := do
  let product ← mul value (s.coinDetails coinName).feeNumerator
  add (product / feeDenominator) (s.coinDetails coinName).fixedFee

def lockBalance (s : St) (u : Address) (coinName : String) (value : Nat) : Outcome St := do
  let b := s.balances u coinName
  let locked ← add b.lockedBalance value
  return setBalance s u coinName { b with lockedBalance := locked }

def sendSingle (d : Deployment) (s : St) (sender : Address) (target coinName : String)
    (value charge : Nat) : Outcome St := do
  require (charge < value) (.error "ValueGreaterThan0")
  let s ← lockBalance s sender coinName value
  sendServiceMessage d s sender target [{ coinName, value := value - charge, fee := charge }]

def transferNativeCoin (d : Deployment) (s : St) (sender : Address) (target : String) (value : Nat) :
    Outcome St := do
  let s ← deposit d s sender value
  checkTransferRestrictions s s.nativeCoinName sender value
  let charge ← chargeAmt s s.nativeCoinName value
  match s.coinsName with
  | [] => .error (.panic 0x32)
  | coinName :: _ => sendSingle d s sender target coinName value charge

def transfer (d : Deployment) (s : St) (sender : Address) (coinName : String) (value : Nat)
    (target : String) : Outcome St := do
  require (coinName ≠ s.nativeCoinName) (.error "InvalidWrappedCoin")
  require (s.coins coinName ≠ 0) (.error "CoinNotRegistered")
  checkTransferRestrictions s coinName sender value
  let charge ← chargeAmt s coinName value
  let s ← tokenTransferFrom d s (s.coins coinName) sender value
  sendSingle d s sender target coinName value charge

/-- One round of the loop of `transferBatch`. -/
def batchRound (d : Deployment) (s : St) (sender : Address) (coinName : String) (value : Nat) :
    Outcome (St × AssetTransferDetail) := do
  require (s.coins coinName ≠ 0) (.error "CoinNotRegistered")
  require (0 < value) (.error "ZeroOrLess")
  checkTransferRestrictions s coinName sender value
  let s ← tokenTransferFrom d s (s.coins coinName) sender value
  let charge ← chargeAmt s coinName value
  let amount ← sub value charge
  let s ← lockBalance s sender coinName value
  return (s, { coinName, value := amount, fee := charge })

def batchLoop (d : Deployment) (sender : Address) : St → List (String × Nat) →
    Outcome (St × List AssetTransferDetail)
  | s, [] => .ok (s, [])
  | s, (coinName, value) :: rest => do
    let (s, e) ← batchRound d s sender coinName value
    let (s, es) ← batchLoop d sender s rest
    return (s, e :: es)

/-- The native coin sent along with a batch is its last entry. -/
def batchNative (s : St) (sender : Address) (msgValue : Nat) :
    Outcome (St × List AssetTransferDetail) :=
  if msgValue = 0 then .ok (s, []) else do
    checkTransferRestrictions s s.nativeCoinName sender msgValue
    let charge ← chargeAmt s s.nativeCoinName msgValue
    let amount ← sub msgValue charge
    let s ← lockBalance s sender s.nativeCoinName msgValue
    return (s, [{ coinName := s.nativeCoinName, value := amount, fee := charge }])

def transferBatch (d : Deployment) (s : St) (sender : Address) (coinNames : List String)
    (values : List Nat) (target : String) (msgValue : Nat) : Outcome St := do
  let s ← deposit d s sender msgValue
  require (coinNames.length = values.length) (.error "InvalidRequest")
  require (0 < coinNames.length) (.error "Zero length arguments")
  let size := if msgValue ≠ 0 then coinNames.length + 1 else coinNames.length
  require (size ≤ maxBatchSize) (.error "Batch maxSize Exceeds")
  let (s, es) ← batchLoop d sender s (coinNames.zip values)
  let (s, last) ← batchNative s sender msgValue
  sendServiceMessage d s sender target (es ++ last)

/-- `reclaim` is `nonReentrant`. -/
def reclaim (d : Deployment) (s : St) (sender : Address) (coinName : String) (value : Nat)
    (k : Receiver) : Outcome St := do
  require (!s.entered) (.error "ReentrancyGuard: reentrant call")
  let b := s.balances sender coinName
  require (value ≤ b.refundableBalance) (.error "Imbalance")
  let s := setBalance { s with entered := true } sender coinName
    { b with refundableBalance := b.refundableBalance - value }
  let s ← refund d s sender coinName value k
  return { s with entered := false }

/-- What becomes of the value of an entry once its lock is off: it is refunded,
or burned where it has been minted elsewhere. A refund that fails becomes a
refundable balance. -/
def settleValue (d : Deployment) (s : St) (requester : Address) (coinName : String)
    (value rspCode : Nat) (k : Receiver) : Outcome St :=
  if rspCode = rcErr then
    match refund d s requester coinName value k with
    | .ok s => .ok s
    | .error _ => do
      let b := s.balances requester coinName
      let refundable ← add b.refundableBalance value
      return setBalance s requester coinName { b with refundableBalance := refundable }
  else if rspCode = rcOk ∧ coinName ≠ s.nativeCoinName ∧
      (s.coinDetails coinName).coinType = .nativeWrapped then
    tokenBurn s (s.coins coinName) d.btsCore value
  else .ok s

/-- `BTSCore.handleResponseService`. The requester of a fee gathering is
`BTSCore` itself. -/
def handleResponseService (d : Deployment) (s : St) (requester : Address) (coinName : String)
    (value fee rspCode : Nat) (k : Receiver) : Outcome St :=
  if requester = d.btsCore then
    if rspCode = rcErr then do
      let fees ← add (s.aggregationFee coinName) value
      return { s with aggregationFee := update s.aggregationFee coinName fees }
    else .ok s
  else do
    let amount ← add value fee
    let b := s.balances requester coinName
    let locked ← sub b.lockedBalance amount
    let s := setBalance s requester coinName { b with lockedBalance := locked }
    let s ← settleValue d s requester coinName value rspCode k
    let fees ← add (s.aggregationFee coinName) fee
    return { s with aggregationFee := update s.aggregationFee coinName fees }

/-- The loop of `transferFees`: the charged coins, and the fees left behind. -/
def chargedCoins : (String → Nat) → List String → List AssetTransferDetail × (String → Nat)
  | fees, [] => ([], fees)
  | fees, c :: cs =>
    if fees c ≠ 0 then
      let (es, fees') := chargedCoins (update fees c 0) cs
      ({ coinName := c, value := fees c, fee := 0 } :: es, fees')
    else chargedCoins fees cs

def transferFees (d : Deployment) (s : St) (fa : String) : Outcome St :=
  let (details, fees) := chargedCoins s.aggregationFee s.coinsName
  sendServiceMessage d { s with aggregationFee := fees } d.btsCore fa details

def isValidCoin (s : St) (coinName : String) : Bool :=
  s.coins coinName ≠ 0 || coinName = s.nativeCoinName

def addCoin (s : St) (name : String) (coin : Coin) : St :=
  { s with
    coins := update s.coins name coin.addr
    coinsName := s.coinsName ++ [name]
    coinsAddress := update s.coinsAddress coin.addr name
    coinDetails := update s.coinDetails name coin
    tokenLimit := update s.tokenLimit name uint256Max }

/-- `new ERC20Tradable` at the address the chain picks for it. -/
def deployTradable (s : St) (deployed : Address) (decimals : Nat) : Outcome St := do
  require (decimals ≤ 77) (.error "OverLimit")
  require (deployed ≠ 0 && s.code deployed = none) .raw
  return { s with
    code := update s.code deployed (some .tradable)
    erc20 := update s.erc20 deployed fun _ => 0
    allowance := update s.allowance deployed fun _ => 0
    totalSupply := update s.totalSupply deployed 0 }

/-- `register`; a zero address asks for a new wrapped coin. -/
def register (d : Deployment) (s : St) (sender : Address) (name : String)
    (decimals feeNumerator fixedFee : Nat) (addr deployed : Address) : Outcome St := do
  require (d.isOwner sender) (.error "Unauthorized")
  require (name ≠ s.nativeCoinName) (.error "ExistNativeCoin")
  require (s.coins name = 0) (.error "ExistCoin")
  require (s.coinsAddress addr = "") (.error "AddressExists")
  require (feeNumerator ≤ feeDenominator) (.error "InvalidFeeSetting")
  if addr = 0 then
    let s ← deployTradable s deployed decimals
    return addCoin s name { addr := deployed, feeNumerator, fixedFee, coinType := .nativeWrapped }
  else
    return addCoin s name { addr, feeNumerator, fixedFee, coinType := .nonNativeToken }

def setFeeRatio (d : Deployment) (s : St) (sender : Address) (name : String)
    (feeNumerator fixedFee : Nat) : Outcome St := do
  require (d.isOwner sender) (.error "Unauthorized")
  require (feeNumerator < feeDenominator) (.error "InvalidSetting")
  require (isValidCoin s name) (.error "TokenNotExists")
  require (0 < fixedFee) (.error "LessThan0")
  return { s with
    coinDetails := update s.coinDetails name
      { s.coinDetails name with feeNumerator, fixedFee } }

/-- `updateCoinDb` files the name of every coin under its address again. -/
def updateCoinDb (d : Deployment) (s : St) (sender : Address) : Outcome St := do
  require (d.isOwner sender) (.error "Unauthorized")
  let coinDetails := update s.coinDetails s.nativeCoinName
    { s.coinDetails s.nativeCoinName with addr := nativeCoinAddress }
  return { s with
    coins := update s.coins s.nativeCoinName nativeCoinAddress
    coinDetails
    coinsAddress := (s.coinsName.filter (· ≠ s.nativeCoinName)).foldl
      (fun f c => update f (coinDetails c).addr c)
      (update s.coinsAddress nativeCoinAddress s.nativeCoinName) }

mutual

/-- What an account can call between two steps of the bridge: the service, and
the contracts of the tokens it holds. -/
inductive Call
  | transferNativeCoin (target : String) (msgValue : Nat)
  | transfer (coinName : String) (value : Nat) (target : String)
  | transferBatch (coinNames : List String) (values : List Nat) (target : String) (msgValue : Nat)
  | reclaim (coinName : String) (value : Nat) (reaction : Reaction)
  | approve (token : Address) (value : Nat)
  | tokenTransfer (token receiver : Address) (value : Nat)
  | pay (receiver : Address) (value : Nat)

inductive Reaction
  | revert
  | accept
  | call (sender : Address) (c : Call) (next : Reaction)

end

/-- Native coin between accounts; `BTSCore` takes none. -/
def pay (d : Deployment) (s : St) (sender receiver : Address) (value : Nat) : Outcome St := do
  require (receiver ≠ d.btsCore && value ≤ s.native sender) .raw
  return { s with native := move s.native sender receiver value }

mutual

/-- `BTSCore` calls none of its own entry points, so it is not a caller. -/
def call (d : Deployment) (s : St) (sender : Address) : Call → Outcome St
  | .transferNativeCoin target msgValue => do
    require (sender ≠ d.btsCore) .raw
    transferNativeCoin d s sender target msgValue
  | .transfer coinName value target => do
    require (sender ≠ d.btsCore) .raw
    transfer d s sender coinName value target
  | .transferBatch coinNames values target msgValue => do
    require (sender ≠ d.btsCore) .raw
    transferBatch d s sender coinNames values target msgValue
  | .reclaim coinName value reaction => do
    require (sender ≠ d.btsCore) .raw
    reclaim d s sender coinName value fun s => react d s reaction
  | .approve token value => do
    require (sender ≠ d.btsCore) .raw
    return { s with
      allowance := update s.allowance token
        (update (s.allowance token) sender value) }
  | .tokenTransfer token receiver value => do
    require (sender ≠ d.btsCore) .raw
    tokenTransfer s token sender receiver value
  | .pay receiver value => do
    require (sender ≠ d.btsCore) .raw
    pay d s sender receiver value

def react (d : Deployment) (s : St) : Reaction → Outcome St
  | .revert => .error .raw
  | .accept => .ok s
  | .call sender c next =>
    match call d s sender c with
    | .ok s' => react d s' next
    | .error _ => react d s next

end

end IconBridge.Solidity.BTS
