import Mathlib.Logic.Function.Basic
import IconBridge.Algorand.Transactions

/-!
# The approval programs under arbitrary groups

`bmc.py`, and `escrow.py` and `reserve.py`, which differ in the name of one
method. A program approves a call or not; an approved call leaves logs and asks
for groups of inner transactions. Limits of the machine (fees, sizes, the
resources a call has to list) are left out, so that more is approved here.
-/

namespace IconBridge.Algorand

open Lib Function

inductive Method
  | registerBSHContract
  | setRelayer
  | sendMessage
  | handleRelayMessage
  | init
  | deposit
  | burn
  | handleBTPMessage
  deriving DecidableEq, Repr

inductive Kind
  | escrow
  | reserve
  deriving DecidableEq, Repr

/-- The method by which tokens leave. -/
def Kind.send : Kind → Method
  | .escrow => .deposit
  | .reserve => .burn

/-- What the programs and the ledger are set up with. `held` are the keys of
all accounts but the creator; nobody has the key of an application. -/
structure Deployment where
  creator : Key
  bmcId : UInt64
  address : UInt64 → Key
  selector : Method → Bytes
  clawback : ℕ → Option Key
  held : Key → Bool
  address_injective : Function.Injective address
  selector_injective : Function.Injective selector
  address_ne_creator : ∀ id, address id ≠ creator
  not_held_creator : held creator = false
  not_held_address : ∀ id, held (address id) = false

/-- `auth` is who may send for an account. `optedIn`, `svc` and `relayer` are
the state of the BMC, `contracts` the globals of the contracts behind it. -/
structure Ledger where
  auth : Key → Key
  optedIn : Key → Bool
  svc : Key → Option Bytes
  relayer : Key
  contracts : UInt64 → Option (Kind × App)

/-- The state, the logs and the inner transactions of an approved call. -/
abbrev Approved := Ledger × List Bytes × List (List Request)

variable (d : Deployment) (s : Ledger)

def registerBSHContract (sender : Key) (args : List Bytes) : Option Approved := do
  let bshAddress ← args[0]?
  let svc ← args[1]?
  guard (sender = d.creator ∧ s.optedIn bshAddress)
  -- an encoded string has its length in front
  return ({ s with svc := update s.svc bshAddress (some (svc.drop 2)) }, [], [])

def setRelayer (sender : Key) (args : List Bytes) : Option Approved := do
  let relayerAccount ← args[0]?
  guard (sender = s.relayer)
  return ({ s with relayer := relayerAccount }, [], [])

/-- The sender's own service is logged; without one the length of a number is
asked for, which fails. -/
def sendMessage (sender : Key) (args : List Bytes) : Option Approved := do
  let _to ← args[0]?
  let sn ← args[1]?
  let _msg ← args[2]?
  guard (sn.length ≤ 8)
  let senderSvc ← s.svc sender
  return (s, [senderSvc], [])

/-- The application of a call, or one that the call lists. -/
def referredApp (call : ApplicationCall) (arg : Bytes) : Option UInt64 := do
  let i ← arg.head?
  (call.applicationID :: call.foreignApps)[i.toNat]?

def relayMessage (sender : Key) (call : ApplicationCall) (args : List Bytes) : Option Approved := do
  let bshApp ← referredApp call (← args[0]?)
  let _svc ← args[1]?
  let msg ← args[2]?
  guard (sender = s.relayer)
  return (s, [], [[.appCall { sender := d.address d.bmcId }
    { applicationID := bshApp, applicationArgs := [d.selector .handleBTPMessage, msg] }]])

/-- A creator who updates or deletes the application is not followed further. -/
def bmc (sender : Key) (call : ApplicationCall) : Option Approved :=
  match call.onCompletion, call.applicationArgs with
  | .optIn, [] => some ({ s with optedIn := update s.optedIn sender true }, [], [])
  | .clearState, _ => some
    ({ s with
        optedIn := update s.optedIn sender false
        svc := update s.svc sender none }, [], [])
  | .updateApplication, [] | .deleteApplication, [] =>
    if sender = d.creator then some (s, [], []) else none
  | .noOp, selector :: args =>
    if selector = d.selector .registerBSHContract then registerBSHContract d s sender args
    else if selector = d.selector .setRelayer then setRelayer s sender args
    else if selector = d.selector .sendMessage then sendMessage s sender args
    else if selector = d.selector .handleRelayMessage then relayMessage d s sender call args
    else none
  | _, _ => none

/-- The fields of a transaction of the group that `deposit` looks at. -/
def Txn.payment : Txn → Payment
  | .assetTransfer header t =>
    { sender := header.sender, isAssetTransfer := true, xferAsset := t.xferAsset
      assetReceiver := t.assetReceiver, assetAmount := t.assetAmount }
  | .appCall header _ _ _ | .other header =>
    { sender := header.sender, isAssetTransfer := false, xferAsset := 0, assetReceiver := []
      assetAmount := 0 }

/-- The contract opts in to the BMC and to the asset. -/
def initContract (kind : Kind) (app : App) (sender : Key) (call : ApplicationCall)
    (args : List Bytes) : Option Approved := do
  let bmcApp ← referredApp call (← args[0]?)
  let receiverAddress ← ofUtf8 ((← args[1]?).drop 2)
  let asaId ← args[2]?
  guard (asaId.length ≤ 8 ∧ app.initialized = false ∧ sender = d.creator)
  let app := { app with
    initialized := true, bmcId := bmcApp.toNat, receiverAddress, assetId := ofBytes asaId }
  return ({ s with contracts := update s.contracts call.applicationID (some (kind, app)) },
    [], [[.appCall { sender := app.address }
        { applicationID := bmcApp, onCompletion := .optIn, applicationArgs := [] }],
      [.assetTransfer { sender := app.address }
        { xferAsset := app.assetId, assetAmount := 0, assetReceiver := app.address }]])

/-- The call of `sendMessage` that a deposit asks for. -/
def sendCall (app : App) (args : SendArgs) : Request :=
  .appCall { sender := app.address }
    { applicationID := UInt64.ofNat app.bmcId
      applicationArgs := [d.selector .sendMessage, args.target, args.sn, args.msg] }

def depositCall (app : App) (group : List Txn) (index : ℕ) (sender : Key) (args : List Bytes) :
    Option Approved := do
  let amount ← args[0]?
  let isContract ← (← args[1]?).head?
  let dst ← args[2]?
  let payment ← group[1]?
  guard (amount.length ≤ 8)
  let sendArgs ← deposit app { groupIndex := index, sender, payment := payment.payment }
    (ofBytes amount) (128 ≤ isContract.toNat) dst
  return (s, [], [[sendCall d app sendArgs]])

/-- The asset and the receiver are taken to be among what the call lists. -/
def btpMessageCall (app : App) (caller : Option UInt64) (args : List Bytes) : Option Approved := do
  let msg := (← args[0]?).drop 2
  let t ← handleBTPMessage app (← caller).toNat [app.assetId] (substring msg 8 40).toList msg
  return (s, [], [[.assetTransfer { sender := app.address }
    { xferAsset := t.xferAsset, assetAmount := t.assetAmount, assetReceiver := t.assetReceiver }]])

def contract (kind : Kind) (app : App) (caller : Option UInt64) (group : List Txn) (index : ℕ)
    (sender : Key) (call : ApplicationCall) : Option Approved :=
  match call.onCompletion, call.applicationArgs with
  | .clearState, _ => some (s, [], [])
  | .updateApplication, [] | .deleteApplication, [] =>
    if sender = d.creator then some (s, [], []) else none
  | .noOp, selector :: args =>
    if selector = d.selector .init then initContract d s kind app sender call args
    else if selector = d.selector kind.send then depositCall d s app group index sender args
    else if selector = d.selector .handleBTPMessage then btpMessageCall s app caller args
    else none
  | _, _ => none

end IconBridge.Algorand
