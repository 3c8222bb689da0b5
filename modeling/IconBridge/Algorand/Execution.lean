import IconBridge.Algorand.Programs

/-!
# Execution of groups

Whoever holds the key of an account sends for it, and so does an application
for its own account. An account may be rekeyed. An application that is not one
of the bridge has any program: it logs and submits what it likes. The BMC and
the contracts behind it submit what their programs ask for.
-/

namespace IconBridge.Algorand

open Lib

variable (d : Deployment)

/-- A top-level transaction has no caller. -/
def authorized (s : Ledger) (caller : Option UInt64) (sender : Key) : Bool :=
  match caller with
  | none => d.held (s.auth sender)
  | some id => s.auth sender = d.address id

/-- What comes before the part of a transaction that its type has. -/
def enter (caller : Option UInt64) (s : Ledger) (header : TxnHeader) : Option Ledger :=
  if authorized d s caller header.sender then
    some { s with
      auth := match header.rekeyTo with
        | some key => Function.update s.auth header.sender key
        | none => s.auth }
  else none

/-- The call has left the logs and asked for the transactions that its program
says. -/
def follow (logs : List Bytes) (inner : List (List Request)) (approved : Option Approved) :
    Option Ledger := do
  let (s, logs', inner') ← approved
  guard (logs = logs' ∧ inner = inner')
  return s

theorem follow_some {inner : List (List Request)} {approved : Option Approved} :
    follow logs inner approved = some s ↔ approved = some (s, logs, inner) := by
  simp only [follow, Option.bind_eq_bind, Option.bind_eq_some_iff, Prod.exists]
  constructor
  · rintro ⟨t, logs', inner', rfl, _, hguard, hs⟩
    cases hs
    by_cases h : logs = logs' ∧ inner = inner'
    · rw [h.1, h.2]
    · simp [guard, h] at hguard
  · rintro rfl
    exact ⟨s, logs, inner, rfl, (), by simp [guard], rfl⟩

/-- What the program of the application makes of a call with the logs and inner
transactions that are there. -/
def approve (caller : Option UInt64) (group : List Txn) (index : ℕ) (s : Ledger) (sender : Key)
    (call : ApplicationCall) (logs : List Bytes) (inner : List (List Request)) : Option Ledger :=
  if call.applicationID = d.bmcId then follow logs inner (bmc d s sender call)
  else
    match s.contracts call.applicationID with
    | some (kind, app) =>
      follow logs inner (contract d s kind app caller group index sender call)
    | none => some s

mutual

def execTxn (caller : Option UInt64) (group : List Txn) (index : ℕ) (s : Ledger) :
    Txn → Option Ledger
  | .assetTransfer header transfer => do
    let s ← enter d caller s header
    guard (transfer.assetSender = none ∨ d.clawback transfer.xferAsset = some header.sender)
    return s
  | .appCall header call logs inner => do
    let s ← enter d caller s header
    let s ← approve d caller group index s header.sender call logs (inner.map (·.map Txn.request))
    execGroups (some call.applicationID) s inner
  | .other header => enter d caller s header

def execGroups (caller : Option UInt64) (s : Ledger) : List (List Txn) → Option Ledger
  | [] => some s
  | group :: groups => do
    let s ← execGroup caller group 0 s group
    execGroups caller s groups

/-- The rest of a group, from an index on. -/
def execGroup (caller : Option UInt64) (group : List Txn) (index : ℕ) (s : Ledger) :
    List Txn → Option Ledger
  | [] => some s
  | t :: ts => do
    let s ← execTxn caller group index s t
    execGroup caller group (index + 1) s ts

end

end IconBridge.Algorand
