import IconBridge.Lib.Runs
import IconBridge.Solidity.BTS.Core

/-!
# BTSPeriphery

The functions the message center calls, and the transactions of the service.
-/

namespace IconBridge.Solidity.BTS

open Lib Function

/-- The bytes of a message; `none` when `decodeServiceMessage` rejects them. -/
abbrev Message := Option ServiceMessage

def decodeServiceMessage : Message → Outcome ServiceMessage
  | some m => .ok m
  | none => .error .raw

def decodeTransferCoinMsg : Data → Outcome TransferCoin
  | .transferCoin tc => do
    require (tc.assets.all fun a => a.value ≤ uint256Max) .raw
    return tc
  | _ => .error .raw

def decodeResponse : Data → Outcome Response
  | .response r => do
    require (r.code ≤ uint256Max) .raw
    return r
  | _ => .error .raw

def decodeBlackListMsg : Data → Outcome BlacklistMessage
  | .blacklist bm => .ok bm
  | _ => .error .raw

def decodeTokenLimitMsg : Data → Outcome TokenLimitMessage
  | .tokenLimit tl => do
    require (tl.tokenLimit.all fun v => v ≤ uint256Max) .raw
    return tl
  | _ => .error .raw

def addToBlacklist (s : St) (addrs : List String) : Outcome St := do
  require (addrs.length ≤ maxBatchSize) (.error "BatchMaxSizeExceed")
  addrs.foldlM (fun s addr =>
    match parseAddress addr with
    | .ok a => .ok { s with blacklist := update s.blacklist a true }
    | .error _ => .error (.error "InvalidAddress")) s

def removeFromBlacklist (s : St) (addrs : List String) : Outcome St := do
  require (addrs.length ≤ maxBatchSize) (.error "BatchMaxSizeExceed")
  addrs.foldlM (fun s addr =>
    match parseAddress addr with
    | .ok a => do
      require (s.blacklist a) (.error "UserNotBlacklisted")
      .ok { s with blacklist := update s.blacklist a false }
    | .error _ => .error (.error "InvalidAddress")) s

def setTokenLimit (s : St) (coinNames : List String) (tokenLimits : List Nat) : Outcome St := do
  require (coinNames.length = tokenLimits.length) (.error "InvalidParams")
  require (coinNames.length ≤ maxBatchSize) (.error "BatchMaxSizeExceed")
  return { s with
    tokenLimit := (coinNames.zip tokenLimits).foldl (fun f e => update f e.1 e.2)
      s.tokenLimit }

/-- The loop of `handleRequestService`, with the reactions of the payments. -/
def requestLoop (d : Deployment) (target : String) : St → List Asset → List Reaction → Outcome St
  | s, [], _ => .ok s
  | s, a :: assets, rs => do
    require (isValidCoin s a.coinName) (.error "UnregisteredCoin")
    let user ← parseAddress target
    checkTransferRestrictions s a.coinName user a.value
    match mint d s user a.coinName a.value fun s => react d s (rs.headD .accept) with
    | .ok s => requestLoop d target s assets rs.tail
    | .error _ => .error (.error "TransferFailed")

def handleRequestService (d : Deployment) (s : St) (target : String) (assets : List Asset)
    (rs : List Reaction) : Outcome St := do
  require (assets.length ≤ maxBatchSize) (.error "BatchMaxSizeExceed")
  requestLoop d target s assets rs

/-- One round of the settlement loop. The request is read from storage again
in every round, after whatever the earlier payments have triggered. -/
def settleRound (d : Deployment) (sn : Nat) (caller : Address) (code : Nat) (rs : List Reaction)
    (s : St) (i : Nat) : Outcome St :=
  match (s.requests sn).bind fun p => p.details[i]? with
  | some e => handleResponseService d s caller e.coinName e.value e.fee code fun s =>
      react d s (rs.getD i .accept)
  | none => .error (.panic 0x32)

/-- The first `n` rounds of the settlement loop. -/
def settleLoop (d : Deployment) (s : St) (sn : Nat) (caller : Address) (code : Nat)
    (rs : List Reaction) (n : Nat) : Outcome St :=
  (List.range n).foldlM (settleRound d sn caller code rs) s

/-- `BTSPeriphery.handleResponseService` for a recorded request. -/
def settle (d : Deployment) (s : St) (sn : Nat) (code : Nat) (message : String)
    (rs : List Reaction) : Outcome St :=
  match s.requests sn with
  | none => .error (.error "InvalidSN")
  | some p => do
    let caller ← parseAddress p.sender
    require (p.details.length ≤ maxBatchSize) (.error "BatchNaxSizeExceed")
    let s ← settleLoop d s sn caller code rs p.details.length
    let numOfPendingRequests ← sub s.numOfPendingRequests 1
    return { s with
      numOfPendingRequests
      requests := update s.requests sn none
      events := s.events ++ [.transferEnd caller sn code message] }

def serviceName : String := "bts"

def handleTransferCoin (d : Deployment) (s : St) (src : String) (sn : Nat) (tc : TransferCoin)
    (rs : List Reaction) : Outcome St :=
  match parseAddress tc.target with
  | .error _ => sendResponseMessage s .responseHandleService src sn "InvalidAddress" rcErr
  | .ok receiver =>
    match handleRequestService d s tc.target tc.assets rs with
    | .ok s => do
      let s ← sendResponseMessage s .responseHandleService src sn "" rcOk
      return { s with events := s.events ++ [.transferReceived src receiver sn tc.assets] }
    | .error (.error reason) => sendResponseMessage s .responseHandleService src sn reason rcErr
    | .error e => .error e

/-- `try this.f(..) { respond RC_OK } catch { respond RC_ERR }` -/
def answer (s : St) (attempt : Outcome St) (serviceType : ServiceType) (src : String) (sn : Nat)
    (okMsg errMsg : String) : Outcome St :=
  match attempt with
  | .ok s => sendResponseMessage s serviceType src sn okMsg rcOk
  | .error _ => sendResponseMessage s serviceType src sn errMsg rcErr

def handleBTPMessage (d : Deployment) (s : St) (sender : Address) (src svc : String) (sn : Nat)
    (msg : Message) (rs : List Reaction) : Outcome St := do
  require (sender = d.bmc) (.error "Unauthorized")
  require (svc = serviceName) (.error "InvalidSvc")
  let sm ← decodeServiceMessage msg
  match sm.serviceType with
  | .requestCoinTransfer =>
    let tc ← decodeTransferCoinMsg sm.data
    handleTransferCoin d s src sn tc rs
  | .blacklistMessage =>
    let bm ← decodeBlackListMsg sm.data
    match bm.serviceType with
    | .addToBlacklist =>
      answer s (addToBlacklist s bm.addrs) .blacklistMessage src sn
        "AddedToBlacklist" "ErrorAddToBlackList"
    | .removeFromBlacklist =>
      answer s (removeFromBlacklist s bm.addrs) .blacklistMessage src sn
        "RemovedFromBlacklist" "ErrorRemoveFromBlackList"
  | .changeTokenLimit =>
    let tl ← decodeTokenLimitMsg sm.data
    answer s (setTokenLimit s tl.coinName tl.tokenLimit) .changeTokenLimit src sn
      "ChangeTokenLimit" "ErrorChangeTokenLimit"
  | .responseHandleService =>
    require (s.requests sn).isSome (.error "InvalidSN")
    let r ← decodeResponse sm.data
    settle d s sn r.code r.message rs
  | .unknownType => return { s with events := s.events ++ [.unknownResponse src sn] }
  | .requestCoinRegister => sendResponseMessage s .unknownType src sn "Unknown" rcErr

def handleBTPError (d : Deployment) (s : St) (sender : Address) (svc : String) (sn code : Nat)
    (message : String) (rs : List Reaction) : Outcome St := do
  require (sender = d.bmc) (.error "Unauthorized")
  require (svc = serviceName) (.error "InvalidSvc")
  require (s.requests sn).isSome (.error "InvalidSN")
  settle d s sn rcErr ("errCode: " ++ ", errMsg: " ++ Nat.repr code ++ message) rs

def handleFeeGathering (d : Deployment) (s : St) (sender : Address) (fa svc : String) :
    Outcome St := do
  require (sender = d.bmc) (.error "Unauthorized")
  require (svc = serviceName) (.error "InvalidSvc")
  let _ ← splitBTPAddress fa
  transferFees d s fa

inductive Tx
  | user (sender : Address) (c : Call)
  | handleBTPMessage (sender : Address) (src svc : String) (sn : Nat) (msg : Message)
      (rs : List Reaction)
  | handleBTPError (sender : Address) (svc : String) (sn code : Nat) (message : String)
      (rs : List Reaction)
  | handleFeeGathering (sender : Address) (fa svc : String)
  | register (sender : Address) (name : String) (decimals feeNumerator fixedFee : Nat)
      (addr deployed : Address)
  | setFeeRatio (sender : Address) (name : String) (feeNumerator fixedFee : Nat)
  | updateCoinDb (sender : Address)
  /-- The message center learns or forgets networks. -/
  | routes (reachable : String → Bool)

def step (d : Deployment) (s : St) : Tx → Outcome St
  | .user sender c => call d s sender c
  | .handleBTPMessage sender src svc sn msg rs => handleBTPMessage d s sender src svc sn msg rs
  | .handleBTPError sender svc sn code message rs =>
    handleBTPError d s sender svc sn code message rs
  | .handleFeeGathering sender fa svc => handleFeeGathering d s sender fa svc
  | .register sender name decimals feeNumerator fixedFee addr deployed =>
    register d s sender name decimals feeNumerator fixedFee addr deployed
  | .setFeeRatio sender name feeNumerator fixedFee =>
    setFeeRatio d s sender name feeNumerator fixedFee
  | .updateCoinDb sender => updateCoinDb d s sender
  | .routes reachable => .ok { s with reachable }

end IconBridge.Solidity.BTS
