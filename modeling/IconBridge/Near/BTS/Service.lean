import IconBridge.Near.BTS.State

/-!
# The functions of the token service of NEAR

The functions follow the source file by file. A function that answers with a
`Result` may have changed the service before it fails, so it returns the state
in both cases.
-/

namespace IconBridge.Near.BTS

open Lib

def feeDenominator : ℕ := 10 ^ 4
def rcOk : ℕ := 0
def rcError : ℕ := 1

def ensure (c : Bool) (e : BshError) : Outcome Unit := require c e.toString

theorem ensure_ok : ensure c e = .ok u ↔ c = true := require_ok

def assertPredecessorIsBmc (d : Deployment) (env : Env) : Outcome Unit :=
  ensure (env.predecessor = d.bmc) .notBmc

def assertValidService (d : Deployment) (service : String) : Outcome Unit :=
  ensure (d.name = service) .invalidService

def assertHavePermission (env : Env) (s : St) : Outcome Unit :=
  ensure (s.owners.contains env.predecessor) .permissionNotExist

def assertHaveMinimumAmount (amount : ℕ) : Outcome Unit :=
  ensure (0 < amount) .notMinimumAmount

def assertHaveSufficientBalance (d : Deployment) (env : Env) (amount : ℕ) : Outcome Unit :=
  ensure (amount < env.accountBalance) (.notMinimumBalance d.account)

def assertHaveSufficientDeposit (s : St) (account : AccountId) (tokenId : TokenId) (amount : ℕ)
    (fees : Option ℕ) : Outcome Unit := do
  ensure (fees.getD 0 ≤ amount) .notMinimumAmount
  let amount := max amount (fees.getD 0)
  match s.balances (account, tokenId) with
  | some balance => ensure (amount ≤ balance.deposit) .notMinimumDeposit
  | none => .error BshError.notMinimumDeposit.toString

def assertHaveSufficientRefundable (s : St) (account : AccountId) (tokenId : TokenId)
    (amount : ℕ) : Outcome Unit :=
  match s.balances (account, tokenId) with
  | some balance => ensure (amount ≤ balance.refundable) .notMinimumRefundable
  | none => .error BshError.notMinimumRefundable.toString

def assertSenderIsNotReceiver (senderId receiverId : AccountId) : Outcome Unit :=
  ensure (senderId ≠ receiverId) .sameSenderReceiver

def assertTokenDoesNotExists (s : St) (token : Token) : Outcome Unit :=
  ensure (s.tokenIds token.name).isNone .tokenExist

def assertTokenRegistered (s : St) (tokenAccount : AccountId) : Outcome Unit :=
  ensure (s.registeredTokens tokenAccount).isSome .tokenNotRegistered

def assertHaveSufficientStorageDeposit (env : Env) (s : St) (account : AccountId)
    (assetId : TokenId) : Outcome Unit :=
  match s.storageBalances (account, assetId) with
  | some storageBalance => ensure (storageBalance < env.attachedDeposit) .notMinimumDeposit
  | none => .ok ()

def assertHaveSufficientStorageDepositForBatch (env : Env) (storageBalance : ℕ) : Outcome Unit :=
  ensure (storageBalance < env.attachedDeposit) .notMinimumDeposit

def assertMinimumOneYocto (env : Env) : Outcome Unit :=
  ensure (1 ≤ env.attachedDeposit) .requiredMinimumOneYoctoNear

/-- `token_id`; all its callers unwrap the result. -/
def getTokenId (s : St) (tokenName : String) : Outcome TokenId :=
  match s.tokenIds tokenName with
  | some tokenId => .ok tokenId
  | none => .error (BshError.tokenNotExist tokenName).toString

theorem getTokenId_ok : getTokenId s tokenName = .ok t ↔ s.tokenIds tokenName = some t := by
  unfold getTokenId
  split <;> simp_all

def calculateStorageCost (d : Deployment) (env : Env) : Outcome ℕ := do
  let cost ← times env.storageUsage d.storageByteCost
  plus cost 669547687500000000

def sendMessage (s : St) (serialNo : ℤ) (destinationNetwork : String)
    (message : TokenServiceMessage) : St :=
  s.promise (.sendServiceMessage serialNo destinationNetwork message)

def sendRequest (s : St) (senderId : AccountId) (destination : BTPAddress)
    (assets : List TransferableAsset) : Outcome St := do
  let _ ← require (s.serialNo + 1 ≤ i128Max) "called `Option::unwrap()` on a `None` value"
  let serialNo := s.serialNo + 1
  let request : Request := { sender := senderId, receiver := destination.contractAddress, assets }
  let s := { s with serialNo, requests := Function.update s.requests serialNo (some request) }
  return sendMessage s serialNo destination.networkAddress
    (.requestTokenTransfer senderId destination.contractAddress assets)

def sendResponse (s : St) (serialNo : ℤ) (destination : BTPAddress)
    (message : TokenServiceMessage) : St :=
  sendMessage s serialNo destination.networkAddress message

def calculateTokenTransferFee (amount : ℕ) (token : Token) : Outcome ℕ := do
  let fee ← times amount token.feeNumerator
  add (fee / feeDenominator) token.fixedFee

def processExternalTransfer (s : St) (tokenId : TokenId) (senderId : AccountId) (amount : ℕ) :
    Outcome (TransferableAsset × St) := do
  let token ← unwrap (s.tokens tokenId)
  let fees ← calculateTokenTransferFee amount token
  assertHaveSufficientDeposit s senderId tokenId amount (some fees)
  let amount ← sub amount fees
  let balance ← unwrap (s.balances (senderId, tokenId))
  -- the fees
  let locked ← add balance.locked fees
  let deposit ← sub balance.deposit fees
  -- the rest
  let deposit ← sub deposit amount
  let locked ← add locked amount
  let s := s.setBalance (senderId, tokenId) { balance with deposit, locked }
  return ({ name := token.name, amount, fees }, s.note (.lock (senderId, tokenId) (amount + fees)))

/-- All transfers inside the service come from its own account. -/
def internalTransfer (d : Deployment) (s : St) (receiverId : AccountId) (tokenId : TokenId)
    (amount : ℕ) : Outcome St := do
  assertSenderIsNotReceiver d.account receiverId
  assertHaveSufficientDeposit s d.account tokenId amount none
  let senderBalance ← unwrap (s.balances (d.account, tokenId))
  let senderDeposit ← sub senderBalance.deposit amount
  let receiverBalance := (s.balances (receiverId, tokenId)).getD {}
  let receiverDeposit ← add receiverBalance.deposit amount
  let s := s.setBalance (d.account, tokenId) { senderBalance with deposit := senderDeposit }
  let s := s.setBalance (receiverId, tokenId) { receiverBalance with deposit := receiverDeposit }
  return s.note (.internalTransfer receiverId tokenId amount)

/-- Only whether it succeeds matters. -/
def verifyInternalTransfer (d : Deployment) (s : St) (receiverId : AccountId) (tokenId : TokenId)
    (amount : ℕ) (senderBalance : AccountBalance) : Outcome (Except String Unit) := do
  assertSenderIsNotReceiver d.account receiverId
  return do
    let _ ← sub senderBalance.deposit amount
    let _ ← add ((s.balances (receiverId, tokenId)).getD {}).deposit amount
    return ()

def burn (s : St) (tokenId : TokenId) (amount : ℕ) (token : Token) : Outcome St := do
  let uri ← unwrap token.uri
  return s.promise (.burn uri amount tokenId)

def mint (s : St) (tokenId : TokenId) (amount : ℕ) (token : Token) (receiverId : AccountId) :
    Outcome St := do
  let uri ← unwrap token.uri
  return s.promise (.mint uri amount tokenId receiverId)

/-- One round of `finalize_external_transfer` -/
def finalizeAsset (d : Deployment) (senderId : AccountId) (s : St) (asset : TransferableAsset) :
    Outcome St := do
  let tokenId ← getTokenId s asset.name
  let token ← unwrap (s.tokens tokenId)
  let tokenFee ← unwrap (s.tokenFees tokenId)
  let senderBalance ← unwrap (s.balances (senderId, tokenId))
  let whole ← plus asset.amount asset.fees
  let locked ← sub senderBalance.locked whole
  let s := s.setBalance (senderId, tokenId) { senderBalance with locked }
  let currentAccountBalance ← unwrap (s.balances (d.account, tokenId))
  let deposit ← add currentAccountBalance.deposit whole
  let s := s.setBalance (d.account, tokenId) { currentAccountBalance with deposit }
  let tokenFee ← add tokenFee asset.fees
  let s := (s.setTokenFee tokenId tokenFee).note
    (.finalize (senderId, tokenId) asset.amount asset.fees)
  if token.network ≠ d.network then burn s tokenId asset.amount token else return s

def finalizeExternalTransfer (d : Deployment) (s : St) (senderId : AccountId)
    (assets : List TransferableAsset) : Outcome St :=
  assets.foldlM (finalizeAsset d senderId) s

/-- One round of `rollback_external_transfer` -/
def rollbackAsset (d : Deployment) (senderId : AccountId) (s : St) (asset : TransferableAsset) :
    Outcome St := do
  let tokenId ← getTokenId s asset.name
  let tokenFee ← unwrap (s.tokenFees tokenId)
  let senderBalance ← unwrap (s.balances (senderId, tokenId))
  let whole ← plus asset.amount asset.fees
  let locked ← sub senderBalance.locked whole
  let refundable ← add senderBalance.refundable asset.amount
  let s := s.setBalance (senderId, tokenId) { senderBalance with locked, refundable }
  let currentAccountBalance ← unwrap (s.balances (d.account, tokenId))
  let deposit ← add currentAccountBalance.deposit asset.fees
  let s := s.setBalance (d.account, tokenId) { currentAccountBalance with deposit }
  let tokenFee ← add tokenFee asset.fees
  return (s.setTokenFee tokenId tokenFee).note
    (.rollback (senderId, tokenId) asset.amount asset.fees)

def rollbackExternalTransfer (d : Deployment) (s : St) (senderId : AccountId)
    (assets : List TransferableAsset) : Outcome St :=
  assets.foldlM (rollbackAsset d senderId) s

def verifyMint (d : Deployment) (s : St) (tokenId : TokenId) (amount : ℕ) :
    Outcome (Except String Unit) := do
  let balance ← unwrap (s.balances (d.account, tokenId))
  return do
    let _ ← add balance.deposit amount
    return ()

/-- One round of `is_tokens_transferable`; the sender is the service. -/
def isTokenTransferable (d : Deployment) (s : St) (receiverId : AccountId) (tokenId : TokenId)
    (token : Token) (asset : TransferableAsset) : Outcome (Except String Unit) := do
  if s.blacklistedAccounts.contains receiverId then
    return .error (BshError.blacklistedUsers receiverId).toString
  let senderBalance ← unwrap (s.balances (d.account, tokenId))
  if token.tokenLimit.any (· < asset.amount) then
    return .error "limit exceeded"
  if token.network ≠ d.network then
    match ← verifyMint d s tokenId asset.amount with
    | .error e => return .error e
    | .ok () =>
      match add senderBalance.deposit asset.amount with
      | .error e => return .error e
      | .ok deposit =>
        verifyInternalTransfer d s receiverId tokenId asset.amount { senderBalance with deposit }
  else
    verifyInternalTransfer d s receiverId tokenId asset.amount senderBalance

def isTokensTransferable (d : Deployment) (s : St) (receiverId : AccountId) :
    List (TokenId × Token × TransferableAsset) → Outcome (Except String Unit)
  | [] => .ok (.ok ())
  | (tokenId, token, asset) :: rest => do
    match ← isTokenTransferable d s receiverId tokenId token asset with
    | .error e => return .error e
    | .ok () => isTokensTransferable d s receiverId rest

/-- One round of the transfers of `handle_token_transfer` -/
def receiveAsset (d : Deployment) (receiverId : AccountId) (s : St)
    (x : TokenId × Token × TransferableAsset) : Outcome St :=
  let (tokenId, token, asset) := x
  if token.network ≠ d.network then mint s tokenId asset.amount token receiverId
  else internalTransfer d s receiverId tokenId asset.amount

def handleTokenTransfer (d : Deployment) (s : St) (receiverId : String)
    (assets : List TransferableAsset) :
    Outcome (Except BshError (Option TokenServiceMessage) × St) := do
  if let some e := d.accountError receiverId then
    return (.error (.invalidAddress e), s)
  let unregisteredTokens := (assets.map (·.name)).filter fun name => (s.tokenIds name).isNone
  if unregisteredTokens ≠ [] then
    return (.error (.tokenNotExist (", ".intercalate unregisteredTokens)), s)
  let tokens ← assets.mapM fun asset => do
    let tokenId ← unwrap (s.tokenIds asset.name)
    let token ← unwrap (s.tokens tokenId)
    return (tokenId, token, asset)
  match ← isTokensTransferable d s receiverId tokens with
  | .error e => return (.error (.reverted ("Coins not transferable: " ++ e)), s)
  | .ok () =>
    let s ← tokens.foldlM (receiveAsset d receiverId) s
    return (.ok (some (.responseHandleService 0 "Transfer Success")), s)

/-- A code that is neither leaves the balances as they are. -/
def settleRequest (d : Deployment) (s : St) (request : Request) (code : ℕ) : Outcome St :=
  if code = rcOk then finalizeExternalTransfer d s request.sender request.assets
  else if code = rcError then rollbackExternalTransfer d s request.sender request.assets
  else .ok s

def handleResponse (d : Deployment) (s : St) (serialNo : ℤ) (code : ℕ) : Outcome St :=
  match s.requests serialNo with
  | none => .ok s
  | some request => do
    let s ← settleRequest d s request code
    return { s with requests := Function.update s.requests serialNo none }

def addToBlacklist (s : St) (users : List AccountId) : St :=
  { s with blacklistedAccounts :=
      users.foldl (fun accounts user =>
        if accounts.contains user then accounts else accounts ++ [user]) s.blacklistedAccounts }

/-- The accounts that are listed are removed even when others are not. -/
def removeFromBlacklist (s : St) (users : List AccountId) : Except BshError Unit × St :=
  let (blacklistedAccounts, nonBlacklistedUser) :=
    users.foldl (fun (accounts, missing) user =>
      if accounts.contains user then (accounts.erase user, missing)
      else (accounts, missing ++ [user])) (s.blacklistedAccounts, [])
  let s := { s with blacklistedAccounts }
  if nonBlacklistedUser ≠ [] then
    (.error (.nonBlacklistedUsers (", ".intercalate nonBlacklistedUser)), s)
  else (.ok (), s)

def handleRequestBlacklist (d : Deployment) (s : St) (requestType : BlackListType)
    (addresses : List String) (network : String) :
    Outcome (Except BshError (Option TokenServiceMessage) × St) :=
  if network ≠ d.network then .ok (.error (.invalidAddress network), s)
  else
    let nonValidAddresses := addresses.filter fun address => (d.accountError address).isSome
    if nonValidAddresses ≠ [] then
      .ok (.error (.invalidAddress (", ".intercalate nonValidAddresses)), s)
    else
      match requestType with
      | .addToBlacklist =>
        .ok (.ok (some (.responseBlacklist 0 "AddedToBlacklist")), addToBlacklist s addresses)
      | .removeFromBlacklist =>
        match removeFromBlacklist s addresses with
        | (.error e, s) => .ok (.error e, s)
        | (.ok (), s) => .ok (.ok (some (.responseBlacklist 0 "RemovedFromBlacklist")), s)
      | .unhandledType => .error "not yet implemented"

/-- An unknown token panics before it could be collected. -/
def setTokenLimit (s : St) (tokenNames : List String) (tokenLimits : List ℕ) :
    Outcome (Except BshError Unit × St) := do
  if tokenNames.length ≠ tokenLimits.length then
    return (.error .invalidParams, s)
  let tokenIds ← tokenNames.mapM fun name => unwrap (s.tokenIds name)
  let s ← (tokenIds.zip tokenLimits).foldlM (fun s (tokenId, limit) => do
    let token ← unwrap (s.tokens tokenId)
    return s.setToken tokenId { token with tokenLimit := some limit }) s
  return (.ok (), s)

def handleRequestChangeTokenLimit (s : St) (tokenNames : List String) (tokenLimits : List ℕ) :
    Outcome (Except BshError (Option TokenServiceMessage) × St) := do
  match ← setTokenLimit s tokenNames tokenLimits with
  | (.error e, s) => return (.error e, s)
  | (.ok (), s) => return (.ok (some (.responseChangeTokenLimit 0 "ChangeTokenLimit")), s)

end IconBridge.Near.BTS
