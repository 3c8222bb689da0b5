import Mathlib.Data.Finset.Card
import IconBridge.Lib.Bytes
import IconBridge.Go.ReceiveLoop

/-!
# The verifier of the BSC receiver

`chain/bsc/verifier.go`. Hashes, signatures, blooms and receipt tries are those
of go-ethereum and are parameters here.
-/

namespace IconBridge.Go.Bsc

open Lib

abbrev Hash := BitVec 256
abbrev Address := BitVec 160
abbrev Bloom := BitVec 2048

structure Header where
  parentHash : Hash
  uncleHash : Hash
  coinbase : Address
  root : Hash
  txHash : Hash
  receiptHash : Hash
  bloom : Bloom
  difficulty : Option ℕ
  number : ℕ
  gasLimit : UInt64
  gasUsed : UInt64
  time : UInt64
  extra : Bytes
  mixDigest : Hash
  nonce : BitVec 64
  deriving DecidableEq

/-- What go-ethereum computes, for receipts of some type. -/
structure Ethereum (R : Type*) where
  hash : Header → Hash
  sealHash : (chainID : ℕ) → Header → Hash
  /-- `crypto.Ecrecover`, and the address of the public key. -/
  recover : Hash → Bytes → Option Address
  createBloom : List R → Bloom
  deriveSha : List R → Hash
  uncleHash : Hash

def extraVanity : ℕ := 32
def extraSeal : ℕ := 65
def defaultEpochLength : ℕ := 200
def validatorBytesLength : ℕ := 20
def parliaGasLimitBoundDivisor : UInt64 := 256
def minGasLimit : UInt64 := 5000
def maxGasLimit : UInt64 := 0x7fffffffffffffff

inductive Failure
  | differentHeight (prev new : ℕ)
  | differentHash (number : ℕ) (prev new : Hash)
  | unexpectedHeight (got : ℕ) (expected : ℤ)
  | unexpectedHash (number : ℕ) (got expected : Hash)
  | missingVanity
  | missingSignature
  | missingValidators
  | extraValidators
  | invalidSpanValidators
  | invalidMixDigest
  | invalidUncleHash
  | invalidDifficulty
  | unknownAncestor
  | gasLimitAboveMax (got max : UInt64)
  | invalidGasUsed (got gasLimit : UInt64)
  | invalidGasLimit (got want limit : UInt64)
  | unrecoverable
  | coinBaseMisMatch
  | unauthorizedValidator
  | invalidBloom (remote here : Bloom)
  | invalidReceiptRoot (remote here : Hash)
  | unexpectedValidatorData (got expected : Bytes)
  | invalidTargetHeight (verifier target : ℤ)
  /-- A request of the node that fails. -/
  | node
  /-- A loop that has not come to its end. -/
  | pending
  deriving DecidableEq

/-- The keys of the map. -/
def getValidatorMapFromHex (headerExtra : Bytes) : Except Failure (Finset Address) := do
  require (extraVanity + extraSeal ≤ headerExtra.length) .missingSignature
  let addrs := (headerExtra.drop extraVanity).take (headerExtra.length - extraSeal - extraVanity)
  let numAddrs := addrs.length / validatorBytesLength
  return ((List.range numAddrs).map fun i => BitVec.ofNat 160
    (ofBytes ((addrs.drop (i * validatorBytesLength)).take validatorBytesLength))).toFinset

structure Verifier where
  chainID : ℕ
  next : ℤ
  parentHash : Hash
  validators : Finset Address
  prevValidators : Finset Address
  useNewValidatorsFromHeight : ℤ
  deriving DecidableEq

def Verifier.isValidator (vr : Verifier) (addr : Address) (curHeight : ℤ) : Bool :=
  if vr.useNewValidatorsFromHeight ≤ curHeight then addr ∈ vr.validators
  else addr ∈ vr.prevValidators

def Header.isEpoch (h : Header) : Bool := uint64 h.number % defaultEpochLength = 0

variable {R : Type*}

def verifyHeader (E : Ethereum R) (header : Header) : Except Failure Unit := do
  require (extraVanity ≤ header.extra.length) .missingVanity
  require (extraVanity + extraSeal ≤ header.extra.length) .missingSignature
  let signersBytes := header.extra.length - extraVanity - extraSeal
  require (header.isEpoch || signersBytes = 0) .extraValidators
  require (!header.isEpoch || signersBytes ≠ 0) .missingValidators
  require (!header.isEpoch || signersBytes % validatorBytesLength = 0) .invalidSpanValidators
  require (header.mixDigest = 0) .invalidMixDigest
  require (header.uncleHash = E.uncleHash) .invalidUncleHash
  require (uint64 header.number = 0 || header.difficulty.isSome) .invalidDifficulty

/-- The difference of two gas limits, as `int64` without its sign. -/
def gasLimitDiff (parent header : Header) : UInt64 :=
  let diff := parent.gasLimit.toInt64 - header.gasLimit.toInt64
  (if diff < 0 then diff * -1 else diff).toUInt64

def verifyCascadingFields (E : Ethereum R) (header parent : Header) : Except Failure Unit :=
  if uint64 header.number = 0 then .ok ()
  else do
    require (uint64 parent.number = uint64 header.number - 1 && E.hash parent = header.parentHash)
      .unknownAncestor
    require (header.gasLimit ≤ maxGasLimit) (.gasLimitAboveMax header.gasLimit maxGasLimit)
    require (header.gasUsed ≤ header.gasLimit) (.invalidGasUsed header.gasUsed header.gasLimit)
    let limit := parent.gasLimit / parliaGasLimitBoundDivisor
    require (gasLimitDiff parent header < limit && minGasLimit ≤ header.gasLimit)
      (.invalidGasLimit header.gasLimit parent.gasLimit limit)

def ecrecover (E : Ethereum R) (header : Header) (chainID : ℕ) : Except Failure Address := do
  require (extraSeal ≤ header.extra.length) .missingSignature
  let signature := header.extra.drop (header.extra.length - extraSeal)
  match E.recover (E.sealHash chainID header) signature with
  | some signer => return signer
  | none => throw .unrecoverable

def verifySeal (E : Ethereum R) (vr : Verifier) (header : Header) : Except Failure Unit := do
  let signer ← ecrecover E header vr.chainID
  require (signer = header.coinbase) .coinBaseMisMatch
  require (vr.isValidator signer header.number) .unauthorizedValidator

def validateState (E : Ethereum R) (header : Header) (receipts : List R) : Except Failure Unit := do
  let rbloom := E.createBloom receipts
  require (rbloom = header.bloom) (.invalidBloom header.bloom rbloom)
  let receiptSha := E.deriveSha receipts
  require (receiptSha = header.receiptHash) (.invalidReceiptRoot header.receiptHash receiptSha)

/-- The receipts are those of `nextHeader`. -/
def verify (E : Ethereum R) (vr : Verifier) (header nextHeader : Header) (receipts : List R) :
    Except Failure Unit := do
  require (nextHeader.number = header.number + 1) (.differentHeight header.number nextHeader.number)
  require (E.hash header = nextHeader.parentHash)
    (.differentHash header.number (E.hash header) nextHeader.parentHash)
  require (vr.next = header.number) (.unexpectedHeight header.number vr.next)
  require (header.parentHash = vr.parentHash)
    (.unexpectedHash header.number header.parentHash vr.parentHash)
  verifyHeader E nextHeader
  verifyCascadingFields E nextHeader header
  verifySeal E vr nextHeader
  if receipts.isEmpty then return ()
  else validateState E nextHeader receipts

/-- The part of `Update` for epoch blocks. -/
def updateValidators (vr : Verifier) (header : Header) : Except Failure Verifier :=
  if header.isEpoch then do
    let newValidators ← getValidatorMapFromHex header.extra
    return { vr with
      prevValidators := vr.validators
      validators := newValidators
      useNewValidatorsFromHeight := header.number + (1 + (vr.validators.card / 2 : ℕ)) }
  else .ok vr

def update (E : Ethereum R) (vr : Verifier) (header : Header) : Except Failure Verifier := do
  let vr ← updateValidators vr header
  return { vr with parentHash := E.hash header, next := header.number + 1 }

variable {E : Ethereum R} {vr vr' : Verifier} {header nextHeader : Header} {receipts : List R}

/-- Receipts that belong to a header, or none. -/
def Authentic (E : Ethereum R) (header : Header) (receipts : List R) : Prop :=
  receipts = [] ∨ E.createBloom receipts = header.bloom ∧ E.deriveSha receipts = header.receiptHash

/-- The header follows another one, and was sealed by a validator. -/
structure Sealed (E : Ethereum R) (vr : Verifier) (header nextHeader : Header) : Prop where
  number : nextHeader.number = header.number + 1
  parentHash : nextHeader.parentHash = E.hash header
  signer : ∃ a, ecrecover E nextHeader vr.chainID = .ok a ∧ vr.isValidator a nextHeader.number

theorem validateState_ok (h : validateState E header receipts = .ok u) :
    E.createBloom receipts = header.bloom ∧ E.deriveSha receipts = header.receiptHash := by
  simp only [validateState, bind_ok, require_ok, decide_eq_true_eq] at h
  obtain ⟨_, hbloom, hsha⟩ := h
  exact ⟨hbloom, hsha⟩

theorem verifySeal_ok (h : verifySeal E vr header = .ok u) :
    ∃ a, ecrecover E header vr.chainID = .ok a ∧ vr.isValidator a header.number := by
  simp only [verifySeal, bind_ok, require_ok] at h
  obtain ⟨a, ha, _, -, hvalidator⟩ := h
  exact ⟨a, ha, hvalidator⟩

theorem verify_ok (h : verify E vr header nextHeader receipts = .ok u) :
    vr.next = header.number ∧ header.parentHash = vr.parentHash ∧
      Sealed E vr header nextHeader ∧ Authentic E nextHeader receipts := by
  simp only [verify, bind_ok, require_ok, decide_eq_true_eq] at h
  obtain ⟨_, hnumber, _, hhash, _, hnext, _, hparent, _, -, _, -, _, hseal, h⟩ := h
  refine ⟨hnext, hparent, ⟨hnumber, hhash.symm, verifySeal_ok hseal⟩, ?_⟩
  split at h
  · next hempty => exact .inl (List.isEmpty_iff.1 hempty)
  · exact .inr (validateState_ok h)

/-- What `Update` makes of the verifier. -/
structure Updates (E : Ethereum R) (vr : Verifier) (header : Header) (vr' : Verifier) : Prop where
  chainID : vr'.chainID = vr.chainID
  next : vr'.next = header.number + 1
  parentHash : vr'.parentHash = E.hash header
  kept : header.isEpoch = false → vr'.validators = vr.validators ∧
    vr'.prevValidators = vr.prevValidators ∧
    vr'.useNewValidatorsFromHeight = vr.useNewValidatorsFromHeight
  epoch : header.isEpoch = true → getValidatorMapFromHex header.extra = .ok vr'.validators ∧
    vr'.prevValidators = vr.validators ∧
    vr'.useNewValidatorsFromHeight = header.number + 1 + (vr.validators.card / 2 : ℕ)

theorem update_ok (h : update E vr header = .ok vr') : Updates E vr header vr' := by
  simp only [update, bind_ok, pure_ok] at h
  obtain ⟨v, hv, rfl⟩ := h
  unfold updateValidators at hv
  split at hv
  · next hepoch =>
    simp only [bind_ok, pure_ok] at hv
    obtain ⟨new, hnew, rfl⟩ := hv
    exact ⟨rfl, rfl, rfl, by simp [hepoch], fun _ => ⟨hnew, rfl, (add_assoc ..).symm⟩⟩
  · next hepoch =>
    cases hv
    exact ⟨rfl, rfl, rfl, fun _ => ⟨rfl, rfl, rfl⟩, fun h => absurd h hepoch⟩

end IconBridge.Go.Bsc
