import IconBridge.Go.Bsc.Verifier

/-!
# The BSC receiver

`chain/bsc/receiver.go`. The node may answer anything to any request, and
something else when it is asked again.
-/

namespace IconBridge.Go.Bsc

open Lib

variable {R : Type}

def blockFinalityConfirmations : UInt64 := 10
def rpcCallRetry : ℕ := 5

structure VerifierOptions where
  blockHeight : UInt64
  blockHash : Hash
  validatorData : Bytes

/-- The limits that `NewReceiver` puts on the option. -/
def clampConcurrency (syncConcurrency : UInt64) : ℕ :=
  if syncConcurrency < 1 then 1 else min syncConcurrency.toNat 300

/-- An answer of the node, or none. -/
def answer : Option α → Except Failure α
  | some a => .ok a
  | none => .error .node

/-- The node is asked for the header at the height of the options and for that of
the epoch block before it. -/
def newVerifier (chainID : ℕ) (opts : VerifierOptions) (header epochHeader : Option Header) :
    Except Failure Verifier := do
  let header ← answer header
  require (header.parentHash = opts.blockHash)
    (.unexpectedHash opts.blockHeight.toNat header.parentHash opts.blockHash)
  let epochHeader ← answer epochHeader
  require (epochHeader.extra = opts.validatorData)
    (.unexpectedValidatorData epochHeader.extra opts.validatorData)
  let validators ← getValidatorMapFromHex opts.validatorData
  return {
    chainID
    next := int64 opts.blockHeight.toNat
    parentHash := opts.blockHash
    validators
    prevValidators := ∅
    useNewValidatorsFromHeight := int64 opts.blockHeight.toNat }

structure Sync where
  vr : Verifier
  prevHeader : Option Header
  cursor : ℤ
  /-- The headers that the verifier was updated with, which the source does not
  keep. -/
  verified : List Header

/-- The loop over the headers of a round, sorted by the height they were requested
for. -/
def syncHeaders (E : Ethereum R) (height : ℤ) (s : Sync) : List Header → Except Failure Sync
  | [] => .ok s
  | header :: headers =>
    match s.prevHeader with
    | none => syncHeaders E height
        { s with cursor := s.cursor + 1, prevHeader := some header } headers
    | some prevHeader =>
      if height ≤ s.vr.next then .ok { s with cursor := s.cursor + 1 }
      else do
        verify E s.vr prevHeader header []
        let vr ← update E s.vr prevHeader
        syncHeaders E height
          { vr, prevHeader := some header, cursor := s.cursor + 1,
            verified := s.verified ++ [prevHeader] } headers

/-- The rounds of requests, with the answers to every attempt. -/
def syncRounds (E : Ethereum R) (concurrency : ℕ) (height : ℤ) (s : Sync) :
    List (ℤ → ℕ → Option Header) → Except Failure Sync
  | [] => if height < s.cursor then .ok s else .error .pending
  | answers :: rounds =>
    if height < s.cursor then .ok s
    else do
      let heights := (List.range concurrency).map fun i => s.cursor + i
      let s ← syncHeaders E height s (heights.filterMap fun h => retried rpcCallRetry (answers h))
      syncRounds E concurrency height s rounds

def syncVerifier (E : Ethereum R) (concurrency : ℕ) (vr : Verifier) (height : ℤ)
    (rounds : List (ℤ → ℕ → Option Header)) : Except Failure (Verifier × List Header) :=
  if height = vr.next then .ok (vr, [])
  else do
    require (vr.next ≤ height) (.invalidTargetHeight vr.next height)
    let s ← syncRounds E concurrency height
      { vr, prevHeader := none, cursor := vr.next, verified := [] } rounds
    return (s.vr, s.verified)

/-- `BlockNotification`, but for its height. -/
structure Block (R : Type) where
  header : Header
  receipts : List R
  deriving DecidableEq

/-- The answers to one attempt to fetch a block. -/
structure Answers (R : Type) where
  header : Option Header
  hasBTPMessage : Option Bool
  receipts : Option (List R)

def fetchBlock (a : Answers R) : Option (Block R) := do
  let header ← a.header
  if 0 < header.gasUsed then
    if ← a.hasBTPMessage then return { header, receipts := ← a.receipts }
    else return { header, receipts := [] }
  else return { header, receipts := [] }

/-- A block of the same height is one that was fetched again. -/
def judge (E : Ethereum R) (vr : Option Verifier) (lbn bn : Notification (Block R)) :
    Verdict (Option Verifier) :=
  if bn.height = lbn.height then
    if bn.block.header.parentHash = lbn.block.header.parentHash then .replace else .drop false
  else
    match vr with
    | none => .deliver none
    | some vr =>
      match verify E vr lbn.block.header bn.block.header bn.block.receipts with
      | .error _ => .drop true
      | .ok () =>
        match update E vr lbn.block.header with
        | .error _ => .fail
        | .ok vr => .deliver (some vr)

/-- From the answer to `GetBlockNumber`. -/
def latestHeight : Option UInt64 → UInt64
  | some height => height - blockFinalityConfirmations
  | none => 0

inductive Event (R : Type)
  | tick
  | poll (blockNumber : Option UInt64)
  | fetch (answers : (height attempt : ℕ) → Answers R)
  | take (callback : Notification (Block R) → Bool)

abbrev State (R : Type) := LoopState (Block R) (Option Verifier)

def Event.toLoop (s : State R) : Event R → LoopEvent (Block R)
  | .tick => .tick
  | .poll blockNumber => .poll (latestHeight blockNumber)
  | .fetch answers =>
    .fetch (fun h => retried rpcCallRetry fun k => fetchBlock (answers h k)) (UInt64.ofNat s.latest)
  | .take callback => .take callback

def step (E : Ethereum R) (concurrency : ℕ) (s : State R) (e : Event R) :
    Except Unit (State R) :=
  loopStep (judge E) concurrency s (e.toLoop s)

/-- The options of a receiver with a verifier, and what the node answers before the
loop starts. -/
structure Setup where
  chainID : ℕ
  syncConcurrency : UInt64
  verifier : VerifierOptions
  startHeight : UInt64
  header : Option Header
  epochHeader : Option Header
  rounds : List (ℤ → ℕ → Option Header)
  blockNumber : Option UInt64

def Setup.concurrency (c : Setup) : ℕ := clampConcurrency c.syncConcurrency

/-- The state in which the loop of `receiveLoop` starts, and the headers that the
verifier has followed until then. -/
def Setup.start (E : Ethereum R) (c : Setup) : Except Failure (State R × List Header) := do
  let vr ← newVerifier c.chainID c.verifier c.header c.epochHeader
  let (vr, verified) ←
    syncVerifier E c.concurrency vr (int64 c.startHeight.toNat) c.rounds
  return (loopStart c.startHeight (latestHeight c.blockNumber) (some vr), verified)

end IconBridge.Go.Bsc
