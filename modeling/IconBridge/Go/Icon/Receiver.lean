import IconBridge.Go.ReceiveLoop
import IconBridge.Go.Icon.Verifier

/-!
# The ICON receiver

`chain/icon/receiver.go`. Monitor goroutines put block notifications into a
channel. The main loop fetches the blocks and puts them into another one, from
which it takes them to verify and deliver them. Whoever finds something wrong
calls `reconnect`, which empties both channels, element by element.
-/

namespace IconBridge.Go.Icon

open Lib

/-- Hexadecimal numbers are texts. -/
abbrev HexInt := String

structure EventLog where
  addr : Bytes
  indexed : List Bytes
  data : List Bytes
  deriving DecidableEq

/-- What goloop computes for the receiver. -/
structure Codec extends Goloop where
  hexInt : HexInt → Option ℤ
  hexBytes : String → Option Bytes
  sha3 : Bytes → Hash
  decodeValidators : Bytes → Option (List Address)
  /-- The receipt hash in the result of a header. -/
  decodeResult : Bytes → Option Hash
  /-- The hash of the event logs in a receipt. -/
  decodeReceipt : Bytes → Option Hash
  decodeEventLog : Bytes → Option EventLog
  mptProve : HexInt → List Bytes → Hash → Option Bytes
  /-- The low 64 bits of an integer. -/
  uint64 : Bytes → UInt64

structure BlockNotification where
  hash : String
  height : HexInt
  indexes : List (List HexInt)
  events : List (List (List HexInt))
  deriving DecidableEq

structure BtpBlockRequest where
  height : ℤ
  hash : String
  indexes : List (List HexInt)
  events : List (List (List HexInt))
  deriving DecidableEq

structure Event where
  next : Bytes
  sequence : UInt64
  message : Bytes
  deriving DecidableEq

structure Receipt where
  index : ℕ
  height : ℕ
  events : List Event
  deriving DecidableEq

structure BtpBlockResponse where
  height : ℤ
  hash : Bytes
  header : BlockHeader
  votes : Bytes
  nextValidators : List Address
  receipts : List Receipt
  deriving DecidableEq

structure EventLogRawFilter where
  addr : Bytes
  signature : Bytes
  next : Bytes

def rpcCallRetry : ℕ := 5

/-- What the node answers to the requests for one block. The data is that of the
validators, and proofs are asked for one receipt after another. -/
structure Answers where
  header : Option BlockHeader
  votes : Option Bytes
  data : Option Bytes
  proofs : ℕ → Option (List (List Bytes))

def getValidatorsByHash (C : Codec) (hash : Hash) (data : Option Bytes) :
    Except Failure (List Address) := do
  let data ← expect data .node
  require (hash = C.sha3 data) (.invalidData hash)
  expect (C.decodeValidators data) (.invalidData hash)

/-- Validators that the verifier knows are not fetched. -/
def fetchVotes (C : Codec) (vr : Verifier) (header : BlockHeader) (a : Answers) :
    Except Failure (Bytes × List Address) := do
  let votes ← expect a.votes .node
  if (vr.known header.nextValidatorsHash).isEmpty then
    let nextValidators ← getValidatorsByHash C header.nextValidatorsHash a.data
    return (votes, nextValidators)
  else return (votes, [])

def proveEvent (C : Codec) (logFilter : EventLogRawFilter) (eventLogsHash : Hash) (event : HexInt)
    (proof : List Bytes) : Except Failure Event := do
  let serializedEventLog ← expect (C.mptProve event proof eventLogsHash) .invalidProof
  let el ← expect (C.decodeEventLog serializedEventLog) .invalidProof
  -- both are read for the comparison or for the log
  let signature ← expect el.indexed[0]? .crash
  let next ← expect el.indexed[1]? .crash
  require (el.addr = logFilter.addr && signature = logFilter.signature && next = logFilter.next)
    .invalidEvent
  let sequence ← expect el.indexed[2]? .crash
  let message ← expect el.data[0]? .crash
  return { next, sequence := C.uint64 sequence, message }

def proveReceipt (C : Codec) (logFilter : EventLogRawFilter) (height : ℤ) (receiptHash : Hash)
    (index : HexInt) (events : List HexInt) (proofs : List (List Bytes)) :
    Except Failure (Option Receipt) := do
  require (proofs.length = 1 + events.length) (.missingProofs proofs.length (1 + events.length))
  let proof ← expect proofs.head? .crash
  let serializedReceipt ← expect (C.mptProve index proof receiptHash) .invalidProof
  let eventLogsHash ← expect (C.decodeReceipt serializedReceipt) .invalidProof
  let events ← (events.zip proofs.tail).mapM fun (event, proof) =>
    proveEvent C logFilter eventLogsHash event proof
  if events.isEmpty then return none
  else
    return some { index := Go.uint64 ((C.hexInt index).getD 0), height := Go.uint64 height, events }

/-- The loop over the receipts of a request. -/
def proveEach (C : Codec) (logFilter : EventLogRawFilter) (height : ℤ) (receiptHash : Hash)
    (events : List (List HexInt)) (proofs : ℕ → Option (List (List Bytes))) :
    ℕ → List HexInt → Except Failure (List Receipt)
  | _, [] => return []
  | i, index :: indexes => do
    let event ← expect events[i]? .crash
    let proof ← expect (proofs i) .node
    let receipt ← proveReceipt C logFilter height receiptHash index event proof
    let receipts ← proveEach C logFilter height receiptHash events proofs (i + 1) indexes
    return receipt.toList ++ receipts

def proveReceipts (C : Codec) (logFilter : EventLogRawFilter) (request : BtpBlockRequest)
    (header : BlockHeader) (proofs : ℕ → Option (List (List Bytes))) : Except Failure (List Receipt) :=
  match request.indexes, request.events with
  | indexes :: _, events :: _ => do
    let receiptHash ← expect (C.decodeResult header.result) .invalidResult
    proveEach C logFilter request.height receiptHash events proofs 0 indexes
  | _, _ => return []

/-- Votes and validators are only fetched for a verifier. -/
def fetchVotesFor (C : Codec) (vr : Option Verifier) (header : BlockHeader) (a : Answers) :
    Except Failure (Bytes × List Address) :=
  match vr with
  | none => return ([], [])
  | some vr => fetchVotes C vr header a

def handleBTPBlockRequest (C : Codec) (logFilter : EventLogRawFilter) (vr : Option Verifier)
    (request : BtpBlockRequest) (a : Answers) : Except Failure BtpBlockResponse := do
  let hash ← expect (C.hexBytes request.hash) .invalidHash
  let header ← expect a.header .node
  let (votes, nextValidators) ← fetchVotesFor C vr header a
  let receipts ← proveReceipts C logFilter request header a.proofs
  return { height := request.height, hash, header, votes, nextValidators, receipts }

/-- A request that fails is made again, up to `retry` times; a crash ends the program. -/
def requested (attempt : ℕ → Except Failure α) : (retry : ℕ) → Except Failure (Option α)
  | 0 =>
    match attempt 0 with
    | .ok a => return some a
    | .error .crash => throw .crash
    | .error _ => return none
  | retry + 1 =>
    match attempt (retry + 1) with
    | .ok a => return some a
    | .error .crash => throw .crash
    | .error _ => requested attempt retry

/-- Sorted by height the responses are in the order of the requests. -/
def handleBTPBlockRequests (C : Codec) (logFilter : EventLogRawFilter) (vr : Option Verifier)
    (requests : List BtpBlockRequest) (answers : ℤ → ℕ → Answers) :
    Except Failure (List BtpBlockResponse) := do
  let brs ← requests.mapM fun request =>
    requested (fun k => handleBTPBlockRequest C logFilter vr request (answers request.height k))
      rpcCallRetry
  return brs.filterMap id

/-- The loop that forwards responses. -/
def forwarded : ℤ → List BtpBlockResponse → List BtpBlockResponse
  | _, [] => []
  | h, d :: ds => if d.height = h then d :: forwarded (h + 1) ds else forwarded (h + 1) ds

structure VerifierOptions where
  blockHeight : UInt64
  validatorsHash : Hash

/-- The first header is verified, but the verifier stays where it is. -/
def newVerifier (C : Codec) (opts : VerifierOptions) (a : Answers) : Except Failure Verifier := do
  let validators ← getValidatorsByHash C opts.validatorsHash a.data
  let vr := {
    next := int64 opts.blockHeight.toNat
    nextValidatorsHash := opts.validatorsHash
    validators := [(opts.validatorsHash, validators)] }
  let header ← expect a.header .node
  let votes ← expect a.votes .node
  verify C.toGoloop vr header votes
  return vr

structure VerifierBlockResponse where
  height : ℤ
  header : BlockHeader
  votes : Bytes
  nextValidators : List Address
  deriving DecidableEq

def handleVerifierBlockRequest (C : Codec) (vr : Verifier) (height : ℤ) (a : Answers) :
    Option VerifierBlockResponse := do
  let header ← a.header
  let (votes, nextValidators) ← (fetchVotes C vr header a).toOption
  return { height, header, votes, nextValidators }

/-- As many headers as there are places in the channel, wherever the target is. -/
def handleVerifierBlockRequests (C : Codec) (concurrency : ℕ) (vr : Verifier)
    (answers : ℤ → ℕ → Answers) : List VerifierBlockResponse :=
  (List.range concurrency).filterMap fun i =>
    retried 2 fun k => handleVerifierBlockRequest C vr (vr.next + i) (answers (vr.next + i) k)

/-- The verifier, and the responses that it was updated with. -/
structure Synced where
  vr : Verifier
  accepted : List VerifierBlockResponse

def syncResponse (C : Codec) (s : Synced) (response : VerifierBlockResponse) :
    Except Failure Synced :=
  if s.vr.next = response.height then do
    verify C.toGoloop s.vr response.header response.votes
    return {
      vr := update s.vr response.header response.nextValidators
      accepted := s.accepted ++ [response] }
  else return s

/-- The rounds that the node answers. -/
def syncRounds (C : Codec) (concurrency : ℕ) (height : ℤ) (s : Synced) :
    List (ℤ → ℕ → Answers) → Except Failure Synced
  | [] => if s.vr.next < height then throw .pending else return s
  | answers :: rounds =>
    if s.vr.next < height then do
      let s ← (handleVerifierBlockRequests C concurrency s.vr answers).foldlM (syncResponse C) s
      syncRounds C concurrency height s rounds
    else return s

def syncVerifier (C : Codec) (concurrency : ℕ) (vr : Verifier) (height : ℤ)
    (rounds : List (ℤ → ℕ → Answers)) : Except Failure Synced :=
  if height < vr.next then throw (.invalidTargetHeight vr.next height)
  else syncRounds C concurrency height { vr, accepted := [] } rounds

end IconBridge.Go.Icon
