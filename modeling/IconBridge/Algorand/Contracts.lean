import IconBridge.Lib.Bytes
import IconBridge.Lib.Outcome

/-!
# The Algorand contracts

The approval programs of the message center and of the two contracts behind it,
`escrow` and `reserve`; the methods that matter here are the same in both. A
program that fails an assertion rejects its transaction, and the group with it.
-/

namespace IconBridge.Algorand

open Lib

/-- A public key, which is an address, has 32 bytes. -/
abbrev Key := Bytes

/-- The globals of a contract, and its own address. -/
structure App where
  initialized : Bool
  bmcId : ℕ
  receiverAddress : String
  assetId : ℕ
  address : Key

structure Payment where
  sender : Key
  isAssetTransfer : Bool
  xferAsset : ℕ
  assetReceiver : Key
  assetAmount : ℕ

/-- The call of a method, with its place in the group and the next transaction
of the group. -/
structure Group where
  groupIndex : ℕ
  sender : Key
  payment : Payment

/-- The arguments of the inner call of `sendMessage` behind the selector; a
string is encoded with its length, the message is passed as it is. -/
structure SendArgs where
  target : Bytes
  sn : Bytes
  msg : Bytes
  deriving DecidableEq, Repr

/-- The 64-bit amount, a byte with the highest bit for the flag and the twenty
bytes of the destination. -/
def depositMessage (amount : ℕ) (isContract : Bool) (dst : Bytes) : Bytes :=
  toBytes 8 amount ++ (if isContract then 0x80 else 0x00) :: dst

/-- `deposit` of the escrow contract, `burn` of the reserve contract -/
def deposit (app : App) (g : Group) (amount : ℕ) (isContract : Bool) (dst : Bytes) :
    Option SendArgs :=
  if app.initialized ∧ g.groupIndex = 0 ∧ g.sender = g.payment.sender ∧ g.payment.isAssetTransfer ∧
      g.payment.xferAsset = app.assetId ∧ g.payment.assetReceiver = app.address ∧
      g.payment.assetAmount = amount then
    some { target := toBytes 2 (utf8 app.receiverAddress).length ++ utf8 app.receiverAddress
           sn := toBytes 8 1
           msg := depositMessage amount isContract dst }
  else none

/-- The asset transfer that a contract submits. -/
structure Transfer where
  xferAsset : ℕ
  assetReceiver : Key
  assetAmount : ℕ
  deriving DecidableEq, Repr

/-- `Substring` fails when its end is behind the end of the bytes. -/
def substring (bs : Bytes) (lo hi : ℕ) : Option Bytes :=
  if hi ≤ bs.length then some ((bs.take hi).drop lo) else none

/-- A contract can use the assets and accounts that its call lists. -/
def handleBTPMessage (app : App) (callerAppId : ℕ) (assets : List ℕ) (accounts : List Key)
    (msg : Bytes) : Option Transfer := do
  guard (app.initialized ∧ app.bmcId = callerAppId)
  let amount ← substring msg 0 8
  let receiver ← substring msg 8 40
  guard (app.assetId ∈ assets ∧ receiver ∈ accounts)
  return { xferAsset := app.assetId, assetReceiver := receiver, assetAmount := ofBytes amount }

/-- The message center hands the assets and accounts of its own call on. -/
def handleRelayMessage (relayer bmcId : ℕ) (apps : ℕ → Option App) (sender : ℕ) (assets : List ℕ)
    (accounts : List Key) (appId : ℕ) (msg : Bytes) : Option Transfer := do
  guard (sender = relayer)
  let app ← apps appId
  handleBTPMessage app bmcId assets accounts msg

end IconBridge.Algorand
