import IconBridge.Lib.Runs
import IconBridge.Algorand.Relay

/-!
# The Algorand receiver

`chain/algo/receiver.go`. A relay that is started again subscribes again, so
several loops may share one verifier; the status file is shared with the
sender of the other direction. A panic in a loop ends the process.
-/

namespace IconBridge.Go.Algo

open Lib Algorand
open Algorand.Relay (Float64 LinkStatus incrementSeq updateHeight)

/-- `[32]byte` -/
abbrev Hash := { bs : Bytes // bs.length = 32 }

/-- `copy(hashBytes[:], bs)` into an array of zeros. -/
def copyHash (bs : Bytes) : Hash := ⟨(bs ++ List.replicate 32 0).take 32, by simp⟩

structure InnerTxn where
  applicationID : UInt64
  applicationArgs : List Bytes
  logs : List Bytes
  rest : ℕ
  deriving DecidableEq

structure SignedTxnInBlock where
  innerTxns : List InnerTxn
  rest : ℕ
  deriving DecidableEq

structure BlockHeader where
  round : UInt64
  branch : Hash
  txnCommitment : Hash
  rest : ℕ
  deriving DecidableEq

structure Block where
  header : BlockHeader
  payset : List SignedTxnInBlock
  deriving DecidableEq

structure Hashing where
  encodeBlockHash : BlockHeader → Hash
  /-- What the header of a block with this payset has to contain. -/
  commitment : List SignedTxnInBlock → Hash
  /-- `base32.StdEncoding.WithPadding(base32.NoPadding).DecodeString` -/
  decodeString : String → Option Bytes

def Hashing.decodeHash (C : Hashing) (hashStr : String) : Option Hash :=
  (C.decodeString hashStr).map copyHash

structure VerifierOptions where
  round : UInt64
  blockHash : String

structure Config where
  src : String
  dst : String
  appID : UInt64
  verifier : VerifierOptions

/-- Accesses to the status file. -/
inductive FileOp
  | incrementSeq
  | updateHeight
  | getStatus
  deriving DecidableEq

inductive ScanError
  | file (op : FileOp) (error : String)
  | unexpectedDestination (dst expected : Bytes)
  | unexpectedSequence (sequence : ℕ) (expected round : UInt64)
  | panic
  deriving DecidableEq

/-- What is changed on the way, also by a scan that fails. -/
structure Progress where
  seq : UInt64
  status : LinkStatus

abbrev Scan := ExceptT ScanError (StateM Progress)

abbrev Faults := FileOp → Option String

def access (faults : Faults) (op : FileOp) : Scan Unit :=
  match faults op with
  | some error => throw (.file op error)
  | none => pure ()

def appArg (appArgs : List Bytes) (i : ℕ) : Scan Bytes :=
  match appArgs[i]? with
  | some arg => pure arg
  | none => throw .panic

def getEventFromMsg (c : Config) (faults : Faults) (txnLog : Bytes) (appArgs : List Bytes) :
    Scan Event := do
  let dst := destinationOf (← appArg appArgs 1)
  access faults .getStatus
  let link ← get
  let message ← appArg appArgs 3
  if dst = utf8 c.dst then
    return { next := c.dst, sequence := link.status .txSeq
             message := encodeBMCMessage (utf8 c.src) dst txnLog (link.status .txSeq) message }
  else throw (.unexpectedDestination dst (utf8 c.dst))

/-- The first log of a call of the BMC. -/
def messageLog (c : Config) (innerTxn : InnerTxn) : Option Bytes :=
  if innerTxn.applicationID = c.appID then innerTxn.logs.head? else none

/-- The events of an inner transaction, of which there is at most one. -/
def getEvents (f : Float64) (c : Config) (faults : Faults) (round : UInt64) (innerTxn : InnerTxn) :
    Scan (List Event) :=
  match messageLog c innerTxn with
  | none => return []
  | some txnLog => do
    access faults .incrementSeq
    modify fun p => { p with status := incrementSeq f .txSeq p.status }
    access faults .updateHeight
    modify fun p => { p with status := updateHeight f .txHeight round.toNat p.status }
    let event ← getEventFromMsg c faults txnLog innerTxn.applicationArgs
    let p ← get
    if event.sequence = p.seq.toNat then
      set { p with seq := p.seq + 1 }
      return [event]
    else throw (.unexpectedSequence event.sequence p.seq round)

def scan (f : Float64) (c : Config) (faults : ℕ → Faults) (round : UInt64) :
    (index : ℕ) → List InnerTxn → Scan (List Receipt)
  | _, [] => return []
  | index, innerTxn :: innerTxns => do
    let events ← getEvents f c (faults index) round innerTxn
    let receipts ← scan f c faults round (index + 1) innerTxns
    return { index, events, height := round.toNat } :: receipts

/-- `round` is the one that the header has. -/
def getRelayReceipts (f : Float64) (c : Config) (faults : ℕ → Faults) (block : Block) :
    Scan (List Receipt) :=
  scan f c faults block.header.round 0 (block.payset.flatMap SignedTxnInBlock.innerTxns)

structure Verifier where
  round : UInt64
  blockHash : Hash
  deriving DecidableEq

structure SubscribeOptions where
  seq : UInt64
  height : UInt64
  deriving DecidableEq

inductive Pc
  /-- At the head of the loop. -/
  | ready
  /-- Waiting for a block. -/
  | asked (round : UInt64)
  /-- The block is on top of the verifier's. -/
  | matched (round : UInt64) (block : Block)
  | aborted
  deriving DecidableEq

structure Loop where
  pc : Pc
  latestRound : UInt64
  subOpts : SubscribeOptions
  deriving DecidableEq

inductive Failure
  | status (error : String)
  | reachedRetryLimit
  | invalidParentHash (round : UInt64)
  | receipts (e : ScanError)
  | aborting
  deriving DecidableEq

structure State where
  vr : Verifier
  status : LinkStatus
  loops : List Loop := []
  crashed : Bool := false
  /-- The blocks that were on top of the verifier's when they came. -/
  accepted : List Block := []
  msgCh : List (List Receipt) := []
  errCh : List Failure := []

inductive Act
  /-- `Subscribe`, with the latest round that the node tells. -/
  | subscribe (subOpts : SubscribeOptions) (latestRound : UInt64)
  /-- The latest round is asked for again; it is taken over also with an error. -/
  | poll (i : ℕ) (latestRound : UInt64) (error : Option String)
  | ask (i : ℕ)
  /-- What the node answers to one attempt after another. -/
  | answer (i : ℕ) (answers : List (Option Block))
  | inspect (i : ℕ) (faults : ℕ → Faults)
  | cancel (i : ℕ)
  /-- The sender writes the status file. -/
  | write (status : LinkStatus)

def blockRetryLimit : ℕ := 5

def getBlockbyRound (answers : List (Option Block)) : Option Block :=
  (answers.take blockRetryLimit).findSome? id

def State.setLoop (s : State) (i : ℕ) (l : Loop) : State := { s with loops := s.loops.set i l }

def State.fail (s : State) (e : Failure) : State := { s with errCh := s.errCh ++ [e] }

/-- The part of `inspectBlock` up to the comparison. -/
def State.compare (s : State) (i : ℕ) (l : Loop) (round : UInt64) : Option Block → State
  | none => (s.setLoop i { l with pc := .ready }).fail .reachedRetryLimit
  | some block =>
    if block.header.branch = s.vr.blockHash then
      { s.setLoop i { l with pc := .matched round block } with accepted := s.accepted ++ [block] }
    else (s.setLoop i { l with pc := .ready }).fail (.invalidParentHash round)

/-- The verifier moves on whatever becomes of the receipts. -/
def State.advance (C : Hashing) (s : State) (block : Block) : State :=
  { s with vr := { round := s.vr.round + 1, blockHash := C.encodeBlockHash block.header } }

/-- The part of `inspectBlock` behind the verifier. -/
def State.deliver (s : State) (i : ℕ) (l : Loop) :
    Except ScanError (List Receipt) × Progress → State
  | (result, p) =>
    let s := { s.setLoop i { l with pc := .ready, subOpts.seq := p.seq } with status := p.status }
    match result with
    | .ok [] => s
    | .ok receipts => { s with msgCh := s.msgCh ++ [receipts] }
    | .error .panic => { s with crashed := true }
    | .error e => s.fail (.receipts e)

def State.inspect (C : Hashing) (f : Float64) (c : Config) (s : State) (i : ℕ) (l : Loop)
    (round : UInt64) (block : Block) (faults : ℕ → Faults) : State :=
  let s := s.advance C block
  if round ≤ l.subOpts.height then s.setLoop i { l with pc := .ready }
  else s.deliver i l (outcome (getRelayReceipts f c faults block) ⟨l.subOpts.seq, s.status⟩)

def step (C : Hashing) (f : Float64) (c : Config) (s : State) (a : Act) : Except Unit State := do
  require (!s.crashed) ()
  match a with
  | .subscribe subOpts latestRound =>
    let subOpts := { subOpts with seq := subOpts.seq + 1 }
    return { s with loops := s.loops ++ [{ pc := .ready, latestRound, subOpts }] }
  | .poll i latestRound error =>
    let l ← expect s.loops[i]? ()
    require (l.pc = .ready ∧ l.latestRound ≤ s.vr.round) ()
    let s := s.setLoop i { l with latestRound }
    return match error with
      | some error => s.fail (.status error)
      | none => s
  | .ask i =>
    let l ← expect s.loops[i]? ()
    require (l.pc = .ready ∧ s.vr.round < l.latestRound) ()
    return s.setLoop i { l with pc := .asked s.vr.round }
  | .answer i answers =>
    let l ← expect s.loops[i]? ()
    match l.pc with
    | .asked round => return s.compare i l round (getBlockbyRound answers)
    | _ => throw ()
  | .inspect i faults =>
    let l ← expect s.loops[i]? ()
    match l.pc with
    | .matched round block => return s.inspect C f c i l round block faults
    | _ => throw ()
  | .cancel i =>
    let l ← expect s.loops[i]? ()
    require (l.pc = .ready) ()
    return (s.setLoop i { l with pc := .aborted }).fail .aborting
  | .write status => return { s with status }

inductive StartError
  | getBlockHash
  | decode
  deriving DecidableEq

/-- The hash of the block before the first one is the one that the node tells. The one in the
options is not looked at. -/
def newReceiver (C : Hashing) (c : Config) (getBlockHash : UInt64 → Option String) :
    Except StartError Verifier := do
  let hashStr ← expect (getBlockHash (c.verifier.round - 1)) .getBlockHash
  let blockHash ← expect (C.decodeHash hashStr) .decode
  return { round := c.verifier.round, blockHash }

def start (vr : Verifier) (status : LinkStatus) : State := { vr, status }

end IconBridge.Go.Algo
