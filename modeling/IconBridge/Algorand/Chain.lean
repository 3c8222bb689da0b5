import IconBridge.Lib.RLP
import IconBridge.Lib.Outcome
import IconBridge.Algorand.Contracts

/-!
# The Algorand side of the relay

`Segment` of the sender takes messages for Algorand apart and packs them into a
group of calls; `getEventFromMsg` of the receiver wraps a message from
Algorand. An access beyond the end of a slice panics.
-/

namespace IconBridge.Algorand

open Lib

inductive GoError
  | error (message : String)
  | panic
  deriving DecidableEq, Repr

abbrev Outcome := Except GoError

structure Event where
  next : String
  sequence : ℕ
  message : Bytes
  deriving DecidableEq, Repr

structure Receipt where
  index : ℕ
  events : List Event
  height : ℕ
  deriving DecidableEq, Repr

def atomicTxnLimit : ℕ := 16

/-- The references of the method call parameters, which the sender keeps. -/
structure CallParams where
  foreignAssets : List ℕ := []
  foreignAccounts : List Key := []
  deriving DecidableEq, Repr

/-- A call of `handleRelayMessage` -/
structure AbiFunc where
  appID : ℕ
  svcName : String
  msg : Bytes
  deriving DecidableEq, Repr

/-- `bs[lo:hi]` -/
def slice (bs : Bytes) (lo hi : ℕ) : Outcome Bytes :=
  if lo ≤ hi ∧ hi ≤ bs.length then .ok ((bs.take hi).drop lo) else .error .panic

/-- `int(bs[i])` -/
def byteAt (bs : Bytes) (i : ℕ) : Outcome ℕ :=
  if h : i < bs.length then .ok (bs.get ⟨i, h⟩).toNat else .error .panic

/-- The service and the message of a BMC message, which has five fields. -/
def decodeRelayMessage (rlpMsg : Bytes) : Outcome (String × Bytes) :=
  match RLP.readList rlpMsg with
  | none => .error (.error "Failed to decode bmc msg")
  | some (payload, _) =>
    match RLP.readStrings 5 payload with
    | some ([_, _, svc, _, msg], []) =>
      (ofUtf8 svc).elim (.error (.error "Unrecognized service")) fun svc => .ok (svc, msg)
    | _ => .error (.error "Failed to decode bmc msg")

/-- Every round starts its slice at the same offset. -/
def readAssets (msgBytes : Bytes) (assetsCount : ℕ) : Outcome (List ℕ) :=
  (List.range assetsCount).mapM fun k => do
    let bs ← slice msgBytes 1 (1 + 8 * k + 8)
    return ofBytes (bs.take 8)

def readAddresses (msgBytes : Bytes) (offset addressesCount : ℕ) : Outcome (List Key) :=
  (List.range addressesCount).mapM fun k =>
    slice msgBytes (offset + 32 * k) (offset + 32 * k + 32)

/-- One round over the events in `Segment` -/
def segmentEvent (services : String → Option ℕ) (x : CallParams × List AbiFunc) (event : Event) :
    Outcome (CallParams × List AbiFunc) := do
  let (svcName, msgBytes) ← decodeRelayMessage event.message
  match services svcName with
  | none => .error (.error ("Unrecognized service " ++ svcName))
  | some appID =>
    let assetsCount ← byteAt msgBytes 0
    let assets ← readAssets msgBytes assetsCount
    let offset := 1 + 8 * assetsCount
    let addressesCount ← byteAt msgBytes offset
    let addresses ← readAddresses msgBytes (offset + 1) addressesCount
    let msg ← slice msgBytes (offset + 1 + 32 * addressesCount) msgBytes.length
    return ({ foreignAssets := x.1.foreignAssets ++ assets
              foreignAccounts := x.1.foreignAccounts ++ addresses },
      x.2 ++ [{ appID, svcName, msg }])

/-- The calls of a group, and the receipts that are left. When all fit, the
message is handed back whole. -/
def segmentLoop (services : String → Option ℕ) (all : List Receipt) :
    List Receipt → CallParams × List AbiFunc →
      Outcome ((CallParams × List AbiFunc) × List Receipt)
  | [], x => .ok (x, all)
  | receipt :: receipts, x =>
    if atomicTxnLimit ≤ x.2.length + receipt.events.length then .ok (x, receipt :: receipts)
    else do
      let x ← receipt.events.foldlM (segmentEvent services) x
      segmentLoop services all receipts x

structure RelayTx where
  svcs : List AbiFunc
  height : ℕ
  deriving DecidableEq, Repr

/-- Without receipts there is nothing to send. -/
def segment (services : String → Option ℕ) (params : CallParams) :
    List Receipt → Outcome (CallParams × Option (RelayTx × List Receipt))
  | [] => .ok (params, none)
  | receipt :: receipts => do
    let ((params, svcs), left) ←
      segmentLoop services (receipt :: receipts) (receipt :: receipts) (params, [])
    return (params, some ({ svcs, height := receipt.height }, left))

/-- From the first occurrence of `pattern` on. -/
def fromPattern (pattern : Bytes) : Bytes → Option Bytes
  | [] => if pattern = [] then some [] else none
  | b :: bs => if pattern.isPrefixOf (b :: bs) then some (b :: bs) else fromPattern pattern bs

/-- `strings.TrimRight(dst, "\n")` -/
def trimNewlines (bs : Bytes) : Bytes := (bs.reverse.dropWhile (· = 10)).reverse

/-- Without `btp` in the argument the destination is empty. -/
def destinationOf (arg : Bytes) : Bytes := trimNewlines ((fromPattern (utf8 "btp") arg).getD [])

/-- The fields of `BMCMessageAlgo` in RLP; an unsigned integer has no leading
zeros. -/
def encodeBMCMessage (src dst svc : Bytes) (sn : ℕ) (message : Bytes) : Bytes :=
  RLP.encodeList [src, dst, svc, minBytes sn, message]

/-- `txSeq` is the transmit sequence in the link status. -/
def getEventFromMsg (src dst : String) (txSeq : ℕ) (txnLog : String) (args : SendArgs) :
    Outcome Event := do
  require (destinationOf args.target = utf8 dst) (.error "Unexpected msg destination")
  return { next := dst, sequence := txSeq
           message := encodeBMCMessage (utf8 src) (utf8 dst) (utf8 txnLog) txSeq args.msg }

end IconBridge.Algorand
