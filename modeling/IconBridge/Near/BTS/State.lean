import Mathlib.Algebra.Ring.Int.Defs
import Mathlib.Algebra.Ring.Nat
import Mathlib.Logic.Function.Basic
import IconBridge.Lib.Outcome

/-!
# The token service of NEAR

The storage of `BtpTokenService` and the part of the runtime it depends on.
A call may create promises: calls of other contracts, each with a callback of
the service. A promise that was created is a receipt until its callback has
run; other calls run in between.

The journal lists what the service has done to its balances. The source keeps
no such list; it is there to state what happened over a whole run.
-/

namespace IconBridge.Near.BTS

open Lib Function

/-- A panic aborts the call and its changes. -/
abbrev Outcome := Except String

def u128Max : ℕ := 2 ^ 128 - 1
def i128Max : ℤ := 2 ^ 127 - 1
def i128Min : ℤ := -2 ^ 127

/-- `add` of `Math` -/
def add (a b : ℕ) : Outcome ℕ :=
  if a + b ≤ u128Max then .ok (a + b) else .error "overflow occured"

/-- `sub` of `Math` -/
def sub (a b : ℕ) : Outcome ℕ :=
  if b ≤ a then .ok (a - b) else .error "underflow occured"

/-- The operator, in a build with overflow checks -/
def plus (a b : ℕ) : Outcome ℕ :=
  if a + b ≤ u128Max then .ok (a + b) else .error "attempt to add with overflow"

def times (a b : ℕ) : Outcome ℕ :=
  if a * b ≤ u128Max then .ok (a * b) else .error "attempt to multiply with overflow"

theorem add_ok : add a b = .ok c ↔ a + b ≤ u128Max ∧ c = a + b := by
  unfold add
  split <;> simp [*, eq_comm]

theorem sub_ok : sub a b = .ok c ↔ b ≤ a ∧ c = a - b := by
  unfold sub
  split <;> simp [*, eq_comm]

theorem plus_ok : plus a b = .ok c ↔ a + b ≤ u128Max ∧ c = a + b := by
  unfold plus
  split <;> simp [*, eq_comm]

def unwrap : Option α → Outcome α
  | some a => .ok a
  | none => .error "called `Option::unwrap()` on a `None` value"

theorem unwrap_ok : unwrap o = .ok a ↔ o = some a := by
  cases o <;> simp [unwrap]

abbrev AccountId := String

/-- The 32 bytes of a hash -/
abbrev TokenId := ℕ

abbrev Key := AccountId × TokenId

structure AccountBalance where
  deposit : ℕ := 0
  refundable : ℕ := 0
  locked : ℕ := 0
  deriving DecidableEq, Repr

/-- A fungible token without its label and symbol. Of the extras only their
presence matters. -/
structure Token where
  name : String
  uri : Option AccountId
  network : String
  feeNumerator : ℕ
  fixedFee : ℕ
  extras : Bool
  tokenLimit : Option ℕ
  deriving DecidableEq, Repr

structure TransferableAsset where
  name : String
  amount : ℕ
  fees : ℕ
  deriving DecidableEq, Repr

structure Request where
  sender : AccountId
  receiver : String
  assets : List TransferableAsset
  deriving DecidableEq, Repr

/-- A BTP address that was accepted; the service asks only for these parts. -/
structure BTPAddress where
  networkAddress : String
  contractAddress : String
  deriving DecidableEq, Repr

inductive BlackListType
  | addToBlacklist
  | removeFromBlacklist
  | unhandledType
  deriving DecidableEq, Repr

inductive TokenServiceMessage
  | requestTokenTransfer (sender receiver : String) (assets : List TransferableAsset)
  | requestTokenRegister
  | responseHandleService (code : ℕ) (message : String)
  | requestBlacklist (requestType : BlackListType) (addresses : List String) (network : String)
  | requestChangeTokenLimit (tokenNames : List String) (tokenLimits : List ℕ) (network : String)
  | responseBlacklist (code : ℕ) (message : String)
  | responseChangeTokenLimit (code : ℕ) (message : String)
  | unknownType
  | unhandledType
  deriving DecidableEq, Repr

inductive BshError
  | unknown
  | permissionNotExist
  | ownerExist
  | ownerNotExist
  | lastOwner
  | notMinimumDeposit
  | notMinimumRefundable
  | notMinimumAmount
  | notMinimumBalance (account : String)
  | tokenExist
  | tokenNotExist (message : String)
  | reverted (message : String)
  | notBmc
  | invalidService
  | decodeFailed (message : String)
  | invalidAddress (message : String)
  | sameSenderReceiver
  | tokenNotRegistered
  | blacklistedUsers (message : String)
  | nonBlacklistedUsers (message : String)
  | invalidParams
  | requiredMinimumOneYoctoNear
  deriving DecidableEq, Repr

def BshError.toString : BshError → String
  | unknown => "BSHRevertUnknown"
  | permissionNotExist => "BSHRevertNotExistsPermission"
  | ownerExist => "BSHRevertAlreadyExistsOwner"
  | ownerNotExist => "BSHRevertNotExistsOwner"
  | lastOwner => "BSHRevertLastOwner"
  | notMinimumDeposit => "BSHRevertNotMinimumDeposit"
  | notMinimumRefundable => "BSHRevertNotMinimumRefundable"
  | notMinimumAmount => "BSHRevertNotMinimumAmount"
  | notMinimumBalance account => "BSHRevertNotMinimumBalance for " ++ account
  | tokenExist => "BSHRevertAlreadyExistsToken"
  | tokenNotExist message => "BSHRevertNotExistsToken: " ++ message
  | reverted message => "BSHRevertReverted: " ++ message
  | notBmc => "BSHRevertNotBMC"
  | invalidService => "BSHRevertInvalidSvc"
  | decodeFailed message => "BSHRevertDecodeError for " ++ message
  | invalidAddress message => "BSHRevertInvalidAddress: " ++ message
  | sameSenderReceiver => "BSHRevertSameSenderReceiver"
  | tokenNotRegistered => "BSHRevertTokenNotRegistered"
  | blacklistedUsers message => "BSHRevertUsersBlacklisted for " ++ message
  | nonBlacklistedUsers message => "BSHRevertUsersNotBlacklisted for " ++ message
  | invalidParams => "BSHRevertInvalidParams"
  | requiredMinimumOneYoctoNear => "BSHRevertRequiredMinimumOneYoctoNear"

/-- How `withdraw` pays -/
inductive Payment
  | nep141 (uri : AccountId)
  | fungibleToken (uri : AccountId)
  | native
  deriving DecidableEq, Repr

/-- A call of another contract, with the arguments of the callback that follows. -/
inductive Promise
  | withdraw (payment : Payment) (account : AccountId) (amount : ℕ) (tokenName : String)
      (tokenId : TokenId)
  | mint (uri : AccountId) (amount : ℕ) (tokenId : TokenId) (receiverId : AccountId)
  | burn (uri : AccountId) (amount : ℕ) (tokenId : TokenId)
  | register (token : Token) (tokenId : TokenId)
  | sendServiceMessage (serialNo : ℤ) (network : String) (message : TokenServiceMessage)
  deriving DecidableEq, Repr

/-- A callback never sees `NotReady`. A minting contract returns the storage cost. -/
inductive PromiseResult
  | successful (value : Option ℕ)
  | failed
  deriving DecidableEq, Repr

structure Receipt where
  promise : Promise
  result : Option PromiseResult := none
  deriving DecidableEq, Repr

/-- What the service did to its balances -/
inductive Movement
  | deposit (k : Key) (amount : ℕ)
  | withdraw (k : Key) (amount : ℕ)
  | reclaim (k : Key) (amount : ℕ)
  | lock (k : Key) (amount : ℕ)
  | mint (tokenId : TokenId) (amount : ℕ)
  | burn (tokenId : TokenId) (amount : ℕ)
  | internalTransfer (receiver : AccountId) (tokenId : TokenId) (amount : ℕ)
  | finalize (k : Key) (amount fees : ℕ)
  | rollback (k : Key) (amount fees : ℕ)
  deriving DecidableEq, Repr

/-- What is fixed when the service is deployed -/
structure Deployment where
  account : AccountId
  name : String
  bmc : AccountId
  network : String
  nativeCoin : Token
  sha256 : String → TokenId
  -- what is wrong with an account id
  accountError : String → Option String
  storageByteCost : ℕ

/-- What a call sees of the runtime. `storageUsage` is what storage has grown by
where the source measures it. -/
structure Env where
  predecessor : AccountId
  attachedDeposit : ℕ := 0
  accountBalance : ℕ := 0
  storageUsage : ℕ := 0
  deriving DecidableEq, Repr

structure St where
  owners : List AccountId
  tokenKeys : List TokenId
  tokens : TokenId → Option Token
  -- `add` looks at the keys, `set` writes only values
  balanceKeys : Key → Bool
  balances : Key → Option AccountBalance
  storageBalances : Key → Option ℕ := fun _ => none
  tokenFees : TokenId → Option ℕ
  requests : ℤ → Option Request := fun _ => none
  serialNo : ℤ := 0
  blacklistedAccounts : List AccountId := []
  tokenIds : String → Option TokenId
  registeredTokens : AccountId → Option TokenId := fun _ => none
  -- the runtime
  receipts : List Receipt := []
  transferred : Key → ℕ := fun _ => 0
  journal : List Movement := []

def hashTokenId (d : Deployment) (tokenName : String) : TokenId := d.sha256 tokenName

/-- `new` -/
def initialState (d : Deployment) : St :=
  let nativeCoinId := hashTokenId d d.nativeCoin.name
  { owners := [d.account]
    tokenKeys := [nativeCoinId]
    tokens := update (fun _ => none) nativeCoinId (some d.nativeCoin)
    balanceKeys := update (fun _ => false) (d.account, nativeCoinId) true
    balances := update (fun _ => none) (d.account, nativeCoinId) (some {})
    tokenFees := update (fun _ => none) nativeCoinId (some 0)
    tokenIds := update (fun _ => none) d.nativeCoin.name (some nativeCoinId) }

namespace St

def setBalance (s : St) (k : Key) (balance : AccountBalance) : St :=
  { s with balances := update s.balances k (some balance) }

/-- `add` of `Balances` -/
def addBalance (s : St) (k : Key) : St :=
  if s.balanceKeys k then s
  else { s.setBalance k {} with balanceKeys := update s.balanceKeys k true }

def setStorageBalance (s : St) (k : Key) (amount : ℕ) : St :=
  { s with storageBalances := update s.storageBalances k (some amount) }

def setTokenFee (s : St) (tokenId : TokenId) (amount : ℕ) : St :=
  { s with tokenFees := update s.tokenFees tokenId (some amount) }

def setToken (s : St) (tokenId : TokenId) (token : Token) : St :=
  { s with tokens := update s.tokens tokenId (some token) }

def promise (s : St) (p : Promise) : St :=
  { s with receipts := s.receipts ++ [{ promise := p }] }

def note (s : St) (m : Movement) : St :=
  { s with journal := s.journal ++ [m] }

end St

end IconBridge.Near.BTS
