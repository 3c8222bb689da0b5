import Mathlib.Data.List.Basic
import IconBridge.Algorand.Contracts

/-!
# Transactions and what they submit

A call of an application submits groups of inner transactions, which may be
calls again. A transaction is kept with all that was executed in it.
-/

namespace IconBridge.Algorand

open Lib List

inductive OnCompletion
  | noOp
  | optIn
  | closeOut
  | clearState
  | updateApplication
  | deleteApplication
  deriving DecidableEq, Repr

/-- The fields that every transaction has. -/
structure TxnHeader where
  sender : Key
  rekeyTo : Option Key := none
  deriving DecidableEq, Repr

/-- `assetSender` is given by the clawback address of the asset only. -/
structure AssetTransfer where
  xferAsset : ℕ
  assetAmount : ℕ
  assetReceiver : Key
  assetSender : Option Key := none
  deriving DecidableEq, Repr

structure ApplicationCall where
  applicationID : UInt64
  onCompletion : OnCompletion := .noOp
  applicationArgs : List Bytes
  foreignApps : List UInt64 := []
  deriving DecidableEq, Repr

/-- A transaction as it is asked for. -/
inductive Request
  | assetTransfer (header : TxnHeader) (transfer : AssetTransfer)
  | appCall (header : TxnHeader) (call : ApplicationCall)
  | other (header : TxnHeader)
  deriving DecidableEq, Repr

inductive Txn
  | assetTransfer (header : TxnHeader) (transfer : AssetTransfer)
  /-- With the logs and the groups of inner transactions of its execution. -/
  | appCall (header : TxnHeader) (call : ApplicationCall) (logs : List Bytes)
      (inner : List (List Txn))
  /-- A transaction of another type. -/
  | other (header : TxnHeader)

namespace Txn

def header : Txn → TxnHeader
  | .assetTransfer header _ | .appCall header _ _ _ | .other header => header

def request : Txn → Request
  | .assetTransfer header transfer => .assetTransfer header transfer
  | .appCall header call _ _ => .appCall header call
  | .other header => .other header

def innerGroups : Txn → List (List Txn)
  | .appCall _ _ _ inner => inner
  | .assetTransfer .. | .other _ => []

/-- The inner transactions as a block lists them, whatever their groups. -/
def innerTxns (t : Txn) : List Txn := t.innerGroups.flatten

-- The transaction and all that it submits, in the order in which they start.
mutual

def all : Txn → List Txn
  | .assetTransfer header transfer => [.assetTransfer header transfer]
  | .appCall header call logs inner => .appCall header call logs inner :: allGroups inner
  | .other header => [.other header]

def allGroups : List (List Txn) → List Txn
  | [] => []
  | group :: groups => allGroup group ++ allGroups groups

def allGroup : List Txn → List Txn
  | [] => []
  | t :: ts => t.all ++ allGroup ts

end

theorem allGroup_eq (ts : List Txn) : allGroup ts = ts.flatMap all := by
  induction ts with
  | nil => rw [allGroup, flatMap_nil]
  | cons t ts ih => rw [allGroup, ih, flatMap_cons]

theorem allGroups_eq (groups : List (List Txn)) :
    allGroups groups = groups.flatten.flatMap all := by
  induction groups with
  | nil => rw [allGroups, flatten_nil, flatMap_nil]
  | cons group groups ih =>
    rw [allGroups, allGroup_eq, ih, flatten_cons, flatMap_append]

theorem all_eq (t : Txn) : t.all = t :: t.innerTxns.flatMap all := by
  cases t with
  | assetTransfer header transfer => rw [all]; rfl
  | appCall header call logs inner => rw [all, allGroups_eq]; rfl
  | other header => rw [all]; rfl

end Txn

end IconBridge.Algorand
