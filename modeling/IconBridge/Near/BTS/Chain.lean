import IconBridge.Near.BTS.Service

/-!
# Calls, promises and callbacks

The service as the runtime drives it. A call, the execution of a promise in
another contract and a callback are separate steps; between them anything else
may happen. A callback that panics uses up its receipt and changes nothing.
-/

namespace IconBridge.Near.BTS

open Lib Function

/-- What `deposit` and `ft_on_transfer` do once the token is known -/
def receiveDeposit (d : Deployment) (env : Env) (s : St) (account : AccountId) (tokenId : TokenId)
    (amount : ℕ) : Outcome St := do
  let balance := (s.balances (account, tokenId)).getD {}
  let deposit ← add balance.deposit amount
  let s := (s.setBalance (account, tokenId) { balance with deposit }).note
    (.deposit (account, tokenId) amount)
  let totalStorageCost ← calculateStorageCost d env
  return s.setStorageBalance (account, tokenId) totalStorageCost

def ftOnTransfer (d : Deployment) (env : Env) (s : St) (senderId : AccountId) (amount : ℕ) :
    Outcome St := do
  assertHaveMinimumAmount amount
  assertTokenRegistered s env.predecessor
  let tokenId ← unwrap (s.registeredTokens env.predecessor)
  receiveDeposit d env s senderId tokenId amount

def deposit (d : Deployment) (env : Env) (s : St) : Outcome St := do
  assertHaveMinimumAmount env.attachedDeposit
  let tokenId ← unwrap (s.tokenIds d.nativeCoin.name)
  receiveDeposit d env s env.predecessor tokenId env.attachedDeposit

def paymentOf (d : Deployment) (token : Token) : Outcome Payment :=
  if token.network ≠ d.network then do
    let uri ← unwrap token.uri
    return .nep141 uri
  else
    match token.uri with
    | some uri => .ok (.fungibleToken uri)
    | none => .ok .native

/-- The deposit is checked here and debited by the callback. -/
def withdraw (d : Deployment) (env : Env) (s : St) (tokenName : String) (amount : ℕ) :
    Outcome St := do
  let tokenId ← getTokenId s tokenName
  assertHaveMinimumAmount amount
  assertHaveSufficientDeposit s env.predecessor tokenId amount none
  assertMinimumOneYocto env
  assertHaveSufficientStorageDeposit env s env.predecessor tokenId
  assertHaveSufficientBalance d env amount
  let token ← unwrap (s.tokens tokenId)
  let payment ← paymentOf d token
  return s.promise (.withdraw payment env.predecessor amount tokenName tokenId)

def reclaim (env : Env) (s : St) (tokenName : String) (amount : ℕ) : Outcome St := do
  assertHaveMinimumAmount amount
  let tokenId ← getTokenId s tokenName
  assertHaveSufficientRefundable s env.predecessor tokenId amount
  let balance ← unwrap (s.balances (env.predecessor, tokenId))
  let refundable ← sub balance.refundable amount
  let deposit ← add balance.deposit amount
  let s := s.setBalance (env.predecessor, tokenId) { balance with refundable, deposit }
  return s.note (.reclaim (env.predecessor, tokenId) amount)

def transfer (env : Env) (s : St) (tokenName : String) (destination : BTPAddress) (amount : ℕ) :
    Outcome St := do
  assertHaveMinimumAmount amount
  let tokenId ← getTokenId s tokenName
  assertHaveSufficientStorageDeposit env s env.predecessor tokenId
  let (asset, s) ← processExternalTransfer s tokenId env.predecessor amount
  let s ← sendRequest s env.predecessor destination [asset]
  return s.setStorageBalance (env.predecessor, tokenId) 0

/-- The assets of `transfer_batch`; an amount that is missing panics. -/
def processBatch (senderId : AccountId) (amounts : List ℕ) :
    St → List TokenId → Outcome (List TransferableAsset × St)
  | s, [] => .ok ([], s)
  | s, tokenId :: tokenIds => do
    match amounts with
    | [] => .error "index out of bounds"
    | amount :: amounts =>
      assertHaveMinimumAmount amount
      let (asset, s) ← processExternalTransfer s tokenId senderId amount
      let (assets, s) ← processBatch senderId amounts s tokenIds
      return (asset :: assets, s)

def transferBatch (env : Env) (s : St) (tokenNames : List String) (destination : BTPAddress)
    (amounts : List ℕ) : Outcome St := do
  let tokenIds ← tokenNames.mapM (getTokenId s)
  let storageCost ← tokenIds.foldlM (fun cost tokenId =>
    add cost ((s.storageBalances (env.predecessor, tokenId)).getD 0)) 0
  assertHaveSufficientStorageDepositForBatch env storageCost
  let (assets, s) ← processBatch env.predecessor amounts s tokenIds
  let s ← sendRequest s env.predecessor destination assets
  return tokenIds.foldl (fun s tokenId => s.setStorageBalance (env.predecessor, tokenId) 0) s

def register (d : Deployment) (env : Env) (s : St) (token : Token) : Outcome St := do
  assertHavePermission env s
  assertTokenDoesNotExists s token
  let _ ← require (token.network = d.network || token.extras) "Token Metadata Missing"
  let _ ← require token.uri.isSome "Token Account Missing"
  return s.promise (.register token (hashTokenId d token.name))

def setFeeRatio (env : Env) (s : St) (tokenName : String) (feeNumerator fixedFee : ℕ) :
    Outcome St := do
  assertHavePermission env s
  let tokenId ← getTokenId s tokenName
  let token ← unwrap (s.tokens tokenId)
  return s.setToken tokenId { token with feeNumerator, fixedFee }

def addOwner (env : Env) (s : St) (account : AccountId) : Outcome St := do
  assertHavePermission env s
  ensure (!s.owners.contains account) .ownerExist
  return { s with owners := s.owners ++ [account] }

def removeOwner (env : Env) (s : St) (account : AccountId) : Outcome St := do
  assertHavePermission env s
  ensure (s.owners.contains account) .ownerNotExist
  ensure (1 < s.owners.length) .lastOwner
  return { s with owners := s.owners.erase account }

/-- One round of `transfer_fees` -/
def collectFee (d : Deployment) (x : List TransferableAsset × St) (tokenKey : TokenId) :
    Outcome (List TransferableAsset × St) := do
  let token ← unwrap (x.2.tokens tokenKey)
  let tokenId ← unwrap (x.2.tokenIds token.name)
  let tokenFee ← unwrap (x.2.tokenFees tokenId)
  if 0 < tokenFee then
    let (asset, s) ← processExternalTransfer (x.2.setTokenFee tokenId 0) tokenId d.account tokenFee
    return (x.1 ++ [asset], s)
  else
    return x

def transferFees (d : Deployment) (s : St) (feeAggregator : BTPAddress) : Outcome St := do
  let (assets, s) ← s.tokenKeys.foldlM (collectFee d) ([], s)
  sendRequest s d.account feeAggregator assets

def handleFeeGathering (d : Deployment) (env : Env) (s : St) (feeAggregator : BTPAddress)
    (service : String) : Outcome St := do
  assertPredecessorIsBmc d env
  assertValidService d service
  transferFees d s feeAggregator

/-- A failure of these two requests is answered with its own kind of response. -/
def orElseRespond (serialNo : ℤ) (source : BTPAddress)
    (response : String → TokenServiceMessage)
    (x : Except BshError (Option TokenServiceMessage) × St) :
    Except BshError (Option TokenServiceMessage) × St :=
  match x with
  | (.ok outcome, s) => (.ok outcome, s)
  | (.error e, s) => (.ok none, sendResponse s serialNo source (response e.toString))

/-- The message, or why it cannot be decoded -/
def handleServiceMessage (d : Deployment) (s : St) (source : BTPAddress) (serialNo : ℤ) :
    Except String TokenServiceMessage →
      Outcome (Except BshError (Option TokenServiceMessage) × St)
  | .error e => .ok (.error (.decodeFailed e), s)
  | .ok (.requestTokenTransfer _ receiver assets) => handleTokenTransfer d s receiver assets
  | .ok (.responseHandleService code _) => do
    let s ← handleResponse d s serialNo code
    return (.ok none, s)
  | .ok (.requestBlacklist requestType addresses network) => do
    let x ← handleRequestBlacklist d s requestType addresses network
    return orElseRespond serialNo source (.responseBlacklist 1) x
  | .ok (.requestChangeTokenLimit tokenNames tokenLimits _) => do
    let x ← handleRequestChangeTokenLimit s tokenNames tokenLimits
    return orElseRespond serialNo source (.responseChangeTokenLimit 1) x
  | .ok .unknownType => .ok (.ok none, s)
  | .ok .requestTokenRegister => .ok (.ok (some .unknownType), s)
  | .ok (.responseBlacklist _ _) => .ok (.ok (some .unknownType), s)
  | .ok (.responseChangeTokenLimit _ _) => .ok (.ok (some .unknownType), s)
  | .ok .unhandledType => .ok (.ok (some .unknownType), s)

def handleBtpMessage (d : Deployment) (env : Env) (s : St) (source : BTPAddress)
    (service : String) (serialNo : ℤ) (message : Except String TokenServiceMessage) :
    Outcome St := do
  assertPredecessorIsBmc d env
  assertValidService d service
  match ← handleServiceMessage d s source serialNo message with
  | (.ok none, s) => return s
  | (.ok (some outcome), s) => return sendResponse s serialNo source outcome
  | (.error e, s) => return sendResponse s serialNo source (.responseHandleService 1 e.toString)

/-- `none` is an error message that cannot be decoded. -/
def handleBtpError (d : Deployment) (env : Env) (s : St) (service : String) (serialNo : ℤ)
    (message : Option String) : Outcome St := do
  assertPredecessorIsBmc d env
  assertValidService d service
  let _ ← unwrap message
  let _ ← require (serialNo ≠ i128Min) "attempt to negate with overflow"
  handleResponse d s (-serialNo) rcError

def onWithdraw (s : St) (account : AccountId) (amount : ℕ) (tokenId : TokenId) :
    PromiseResult → Outcome St
  | .successful _ => do
    let balance ← unwrap (s.balances (account, tokenId))
    let deposit ← sub balance.deposit amount
    let s := (s.setBalance (account, tokenId) { balance with deposit }).note
      (.withdraw (account, tokenId) amount)
    return s.setStorageBalance (account, tokenId) 0
  | .failed => .ok s

def onMint (d : Deployment) (env : Env) (s : St) (amount : ℕ) (tokenId : TokenId)
    (receiverId : AccountId) : PromiseResult → Outcome St
  | .successful (some storageCost) => do
    let balance ← unwrap (s.balances (d.account, tokenId))
    let deposit ← add balance.deposit amount
    let s := (s.setBalance (d.account, tokenId) { balance with deposit }).note (.mint tokenId amount)
    let s ← internalTransfer d s receiverId tokenId amount
    let totalStorageCost ← calculateStorageCost d env
    let storageBalance ← add ((s.storageBalances (receiverId, tokenId)).getD 0) storageCost
    let storageBalance ← add storageBalance totalStorageCost
    let s := s.setStorageBalance (receiverId, tokenId) storageBalance
    -- the name is read for the log
    let _ ← unwrap (s.tokens tokenId)
    return s
  | _ => do
    let _ ← unwrap (s.tokens tokenId)
    return s

def onBurn (d : Deployment) (s : St) (amount : ℕ) (tokenId : TokenId) : PromiseResult → Outcome St
  | .successful _ => do
    let balance ← unwrap (s.balances (d.account, tokenId))
    let deposit ← sub balance.deposit amount
    let s := (s.setBalance (d.account, tokenId) { balance with deposit }).note (.burn tokenId amount)
    let _ ← unwrap (s.tokens tokenId)
    return s
  | .failed => do
    let _ ← unwrap (s.tokens tokenId)
    return s

def registerToken (d : Deployment) (s : St) (token : Token) (tokenId : TokenId) : Outcome St := do
  let tokenKeys := if s.tokenKeys.contains tokenId then s.tokenKeys else s.tokenKeys ++ [tokenId]
  let s := ({ s with tokenKeys }.setToken tokenId token).setTokenFee tokenId 0
  let uri ← unwrap token.uri
  let s := { s with registeredTokens := update s.registeredTokens uri (some tokenId) }
  return s.addBalance (d.account, tokenId)

def registerTokenCallback (d : Deployment) (s : St) (token : Token) (tokenId : TokenId) :
    PromiseResult → Outcome St
  | .successful _ =>
    registerToken d { s with tokenIds := update s.tokenIds token.name (some tokenId) }
      token tokenId
  | .failed => .ok s

/-- The request stays in the table when sending it has failed. -/
def sendServiceMessageCallback (d : Deployment) (s : St) (message : TokenServiceMessage)
    (result : PromiseResult) : Outcome St :=
  match message, result with
  | .requestTokenTransfer sender _ assets, .failed => rollbackExternalTransfer d s sender assets
  | _, _ => .ok s

def Promise.callback (d : Deployment) (env : Env) (s : St) (p : Promise) (result : PromiseResult) :
    Outcome St :=
  match p with
  | .withdraw _ account amount _ tokenId => onWithdraw s account amount tokenId result
  | .mint _ amount tokenId receiverId => onMint d env s amount tokenId receiverId result
  | .burn _ amount tokenId => onBurn d s amount tokenId result
  | .register token tokenId => registerTokenCallback d s token tokenId result
  | .sendServiceMessage _ _ message => sendServiceMessageCallback d s message result

inductive Call
  | ftOnTransfer (senderId : AccountId) (amount : ℕ)
  | deposit
  | withdraw (tokenName : String) (amount : ℕ)
  | reclaim (tokenName : String) (amount : ℕ)
  | transfer (tokenName : String) (destination : BTPAddress) (amount : ℕ)
  | transferBatch (tokenNames : List String) (destination : BTPAddress) (amounts : List ℕ)
  | register (token : Token)
  | setFeeRatio (tokenName : String) (feeNumerator fixedFee : ℕ)
  | addOwner (account : AccountId)
  | removeOwner (account : AccountId)
  | handleFeeGathering (feeAggregator : BTPAddress) (service : String)
  | handleBtpMessage (source : BTPAddress) (service : String) (serialNo : ℤ)
      (message : Except String TokenServiceMessage)
  | handleBtpError (service : String) (serialNo : ℤ) (message : Option String)

def call (d : Deployment) (env : Env) (s : St) : Call → Outcome St
  | .ftOnTransfer senderId amount => ftOnTransfer d env s senderId amount
  | .deposit => deposit d env s
  | .withdraw tokenName amount => withdraw d env s tokenName amount
  | .reclaim tokenName amount => reclaim env s tokenName amount
  | .transfer tokenName destination amount => transfer env s tokenName destination amount
  | .transferBatch tokenNames destination amounts =>
    transferBatch env s tokenNames destination amounts
  | .register token => register d env s token
  | .setFeeRatio tokenName feeNumerator fixedFee => setFeeRatio env s tokenName feeNumerator fixedFee
  | .addOwner account => addOwner env s account
  | .removeOwner account => removeOwner env s account
  | .handleFeeGathering feeAggregator service => handleFeeGathering d env s feeAggregator service
  | .handleBtpMessage source service serialNo message =>
    handleBtpMessage d env s source service serialNo message
  | .handleBtpError service serialNo message => handleBtpError d env s service serialNo message

inductive Act
  | call (env : Env) (c : Call)
  | execute (i : ℕ) (result : PromiseResult)
  | callback (i : ℕ) (env : Env)

/-- What another contract does: a transfer that succeeds has paid the account. -/
def Promise.pay (p : Promise) (result : PromiseResult) (transferred : Key → ℕ) : Key → ℕ :=
  match p, result with
  | .withdraw _ account amount _ tokenId, .successful _ =>
    update transferred (account, tokenId) (transferred (account, tokenId) + amount)
  | _, _ => transferred

def step (d : Deployment) (s : St) : Act → Outcome St
  | .call env c => call d env s c
  | .execute i result =>
    match s.receipts[i]? with
    | some { promise, result := none } =>
      .ok { s with
        receipts := s.receipts.set i { promise, result := some result }
        transferred := promise.pay result s.transferred }
    | _ => .error "no such promise"
  | .callback i env =>
    match s.receipts[i]? with
    | some { promise, result := some result } =>
      let s := { s with receipts := s.receipts.eraseIdx i }
      match promise.callback d env s result with
      | .ok s => .ok s
      | .error _ => .ok s
    | _ => .error "no such callback"

end IconBridge.Near.BTS
