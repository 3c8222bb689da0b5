import Mathlib.Algebra.BigOperators.Intervals
import IconBridge.Go.ReceiveLoop
import IconBridge.Lib.Bytes
import IconBridge.Lib.Quorum

/-!
# The verifier of the NEAR receiver

`chain/near/verifier.go`. A header is hashed over the hash of the one before it,
and the block producers approve it with their stakes. Hashes and signatures are
parameters.
-/

namespace IconBridge.Go.Near

open Lib

abbrev CryptoHash := BitVec 256
abbrev PublicKey := Bytes
abbrev Signature := Bytes

structure BlockProducer where
  accountId : String
  publicKey : PublicKey
  stake : ℕ
  deriving DecidableEq

structure Header where
  height : ℤ
  previousHeight : ℤ
  epochId : CryptoHash
  nextEpochId : CryptoHash
  hash : CryptoHash
  nextBlockProducerHash : CryptoHash
  /-- An empty slot is that of a block producer who has not approved. -/
  approvals : List (Option Signature)
  /-- The other fields, which are only hashed. -/
  rest : Bytes
  deriving DecidableEq

structure BlockNotification (R : Type) where
  offset : ℤ
  block : Header
  receipts : List R
  deriving DecidableEq

inductive ApprovalMessage
  | endorsement (previousBlockHash : CryptoHash) (targetHeight : ℕ)
  | skip (previousBlockHeight targetHeight : ℕ)
  deriving DecidableEq

/-- Numbers are written with the low byte first. -/
def borshUint64 (n : ℕ) : Bytes := (toBytes 8 n).reverse

def ApprovalMessage.borshSerialize : ApprovalMessage → Bytes
  | .endorsement previousBlockHash targetHeight =>
    0 :: toBytes 32 previousBlockHash.toNat ++ borshUint64 targetHeight
  | .skip previousBlockHeight targetHeight =>
    1 :: borshUint64 previousBlockHeight ++ borshUint64 targetHeight

/-- What is computed by libraries. Serialisation may fail. -/
structure Crypto where
  /-- The hash over both inner parts of a header. -/
  innerHash : Header → Option CryptoHash
  combineHash : CryptoHash → CryptoHash → CryptoHash
  bpsHash : List BlockProducer → Option CryptoHash
  /-- `ed25519.Verify`. -/
  ed25519 : PublicKey → Bytes → Signature → Bool

def computeHash (N : Crypto) (previousBlockHash : CryptoHash) (block : Header) : Option CryptoHash :=
  (N.innerHash block).map fun innerHash => N.combineHash innerHash previousBlockHash

inductive Failure
  | serialization
  | unexpectedHash (expected got : CryptoHash) (height : ℤ)
  | invalidEpoch
  | unexpectedBlockProducers (expected got epochId : CryptoHash)
  | invalidSignature (signature : Signature) (publicKey : PublicKey)
  | belowThreshold (approvedStake threshold : ℕ)
  /-- A request of the node that fails. -/
  | node
  deriving DecidableEq

structure Verifier where
  blockHeight : ℕ
  previousBlockHash : CryptoHash
  currentEpochId : CryptoHash
  nextEpochId : CryptoHash
  currentBpsHash : CryptoHash
  nextBpsHash : CryptoHash
  blockProducers : List BlockProducer
  deriving DecidableEq

variable {R : Type}

def approvalMessage (v : Verifier) (bn : BlockNotification R) : ApprovalMessage :=
  if uint64 (bn.block.previousHeight + 1) = uint64 bn.offset then
    .endorsement v.previousBlockHash (uint64 bn.offset)
  else .skip v.blockHeight (uint64 bn.offset)

/-- The loop over the approvals, which ends with the block producers at the latest. -/
def weigh (valid : PublicKey → Signature → Bool) :
    List BlockProducer → List (Option Signature) → (totalStake approvedStake : ℕ) →
      Except Failure (ℕ × ℕ)
  | bp :: bps, approval :: approvals, totalStake, approvedStake =>
    match approval with
    | none => weigh valid bps approvals (totalStake + bp.stake) approvedStake
    | some signature => do
      require (valid bp.publicKey signature) (.invalidSignature signature bp.publicKey)
      weigh valid bps approvals (totalStake + bp.stake) (approvedStake + bp.stake)
  | [], _, totalStake, approvedStake | _, [], totalStake, approvedStake =>
    return (totalStake, approvedStake)

def checkApprovals (N : Crypto) (message : ApprovalMessage) (bps : List BlockProducer)
    (approvals : List (Option Signature)) : Except Failure Unit := do
  let valid publicKey signature := N.ed25519 publicKey message.borshSerialize signature
  let (totalStake, approvedStake) ← weigh valid bps approvals 0 0
  let threshold := totalStake * 2 / 3
  require (threshold < approvedStake) (.belowThreshold approvedStake threshold)

/-- The block producers that the node gives for a block. -/
abbrev Producers := CryptoHash → Option (List BlockProducer)

/-- Both epochs are checked; the block producers change with the epoch. -/
def switchEpoch (N : Crypto) (getBlockProducers : Producers) (v : Verifier) (block : Header) :
    Except Failure Verifier :=
  if block.epochId ≠ v.currentEpochId ∧ block.epochId ≠ v.nextEpochId then throw .invalidEpoch
  else if block.epochId = v.nextEpochId then do
    let bps ← expect (getBlockProducers block.hash) .node
    let bpsHash ← expect (N.bpsHash bps) .serialization
    require (bpsHash = v.nextBpsHash) (.unexpectedBlockProducers v.nextBpsHash bpsHash block.epochId)
    return { v with
      blockProducers := bps
      currentEpochId := block.epochId
      nextEpochId := block.nextEpochId
      nextBpsHash := block.nextBlockProducerHash }
  else return v

/-- What becomes of the verifier, and whether the header is accepted. The verifier moves
on as soon as the hash is right. -/
def validateHeader (N : Crypto) (getBlockProducers : Producers) (v : Verifier)
    (bn : BlockNotification R) : Verifier × Except Failure Unit :=
  match computeHash N v.previousBlockHash bn.block with
  | none => (v, .error .serialization)
  | some currBlockHash =>
    if currBlockHash = bn.block.hash then
      let moved := { v with blockHeight := uint64 bn.offset, previousBlockHash := currBlockHash }
      match switchEpoch N getBlockProducers moved bn.block with
      | .error e => (moved, .error e)
      | .ok switched =>
        (switched, checkApprovals N (approvalMessage v bn) switched.blockProducers bn.block.approvals)
    else (v, .error (.unexpectedHash bn.block.hash currBlockHash bn.block.height))

structure VerifierConfig where
  blockHeight : ℕ
  previousBlockHash : CryptoHash
  currentEpochId : CryptoHash
  nextEpochId : CryptoHash
  nextBpsHash : CryptoHash
  currentBpsHash : CryptoHash

def newVerifier (N : Crypto) (getBlockProducers : Producers) (c : VerifierConfig) :
    Except Failure Verifier := do
  let bps ← expect (getBlockProducers c.previousBlockHash) .node
  let bpsHash ← expect (N.bpsHash bps) .serialization
  require (c.currentBpsHash = bpsHash)
    (.unexpectedBlockProducers c.currentBpsHash bpsHash c.currentEpochId)
  return {
    blockHeight := c.blockHeight
    previousBlockHash := c.previousBlockHash
    currentEpochId := c.currentEpochId
    nextEpochId := c.nextEpochId
    currentBpsHash := c.currentBpsHash
    nextBpsHash := c.nextBpsHash
    blockProducers := bps }

def stakeAt (bps : List BlockProducer) (i : ℕ) : ℕ := (bps[i]?.map BlockProducer.stake).getD 0

/-- The block producer at a place has signed. -/
def approves (valid : PublicKey → Signature → Bool) (bps : List BlockProducer)
    (approvals : List (Option Signature)) (i : ℕ) : Bool :=
  match bps[i]?, approvals[i]? with
  | some bp, some (some signature) => valid bp.publicKey signature
  | _, _ => false

@[simp] theorem stakeAt_zero : stakeAt (bp :: bps) 0 = bp.stake := rfl
@[simp] theorem stakeAt_succ : stakeAt (bp :: bps) (i + 1) = stakeAt bps i := rfl

@[simp] theorem approves_zero_none :
    approves valid (bp :: bps) (none :: approvals) 0 = false := rfl

@[simp] theorem approves_zero_some :
    approves valid (bp :: bps) (some signature :: approvals) 0 = valid bp.publicKey signature := rfl

@[simp] theorem approves_succ :
    approves valid (bp :: bps) (approval :: approvals) (i + 1) = approves valid bps approvals i := rfl

/-- The places of the block producers whose approvals are valid. -/
def approvers (valid : PublicKey → Signature → Bool) (bps : List BlockProducer)
    (approvals : List (Option Signature)) : Finset ℕ :=
  (Finset.range bps.length).filter fun i => approves valid bps approvals i

/-- The loop adds up the stakes of the places that have a slot, and of those that approve. -/
theorem weigh_ok (h : weigh valid bps approvals t a = .ok (t', a')) :
    t' = t + ∑ i ∈ Finset.range bps.length, (if i < approvals.length then stakeAt bps i else 0) ∧
    a' = a + ∑ i ∈ Finset.range bps.length,
      (bif approves valid bps approvals i then stakeAt bps i else 0) := by
  induction bps generalizing approvals t a with
  | nil =>
    unfold weigh at h
    cases pure_ok.1 h
    simp
  | cons bp bps ih =>
    cases approvals with
    | nil =>
      unfold weigh at h
      cases pure_ok.1 h
      simp [approves]
    | cons approval approvals =>
      rw [List.length_cons, Finset.sum_range_succ', Finset.sum_range_succ']
      simp only [stakeAt_zero, stakeAt_succ, approves_succ, List.length_cons, Nat.add_lt_add_iff_right,
        Nat.zero_lt_succ, if_true]
      cases approval with
      | none =>
        obtain ⟨rfl, rfl⟩ := ih (by simpa only [weigh] using h)
        simp only [approves_zero_none, cond_false]
        omega
      | some signature =>
        simp only [weigh, bind_ok, require_ok] at h
        obtain ⟨_, hvalid, h⟩ := h
        obtain ⟨rfl, rfl⟩ := ih h
        simp only [approves_zero_some, hvalid, cond_true]
        omega

/-- Every block producer that has a stake has a slot. -/
def Slotted (bps : List BlockProducer) (approvals : List (Option Signature)) : Prop :=
  ∀ i < bps.length, approvals.length ≤ i → stakeAt bps i = 0

instance : Decidable (Slotted bps approvals) :=
  inferInstanceAs (Decidable (∀ i < bps.length, _ → _))

theorem checkApprovals_quorum {N : Crypto} (h : checkApprovals N message bps approvals = .ok u)
    (hslotted : Slotted bps approvals) :
    Quorum (stakeAt bps) (Finset.range bps.length)
      (approvers (fun publicKey signature => N.ed25519 publicKey message.borshSerialize signature)
        bps approvals) := by
  simp only [checkApprovals, bind_ok, require_ok, decide_eq_true_eq] at h
  obtain ⟨⟨totalStake, approvedStake⟩, hweigh, hthreshold⟩ := h
  obtain ⟨htotal, happroved⟩ := weigh_ok hweigh
  refine ⟨Finset.filter_subset _ _, ?_⟩
  have hall : totalStake = ∑ i ∈ Finset.range bps.length, stakeAt bps i := by
    rw [htotal, zero_add]
    refine Finset.sum_congr rfl fun i hi => ?_
    split
    · rfl
    · next hslot => exact (hslotted i (Finset.mem_range.1 hi) (Nat.le_of_not_lt hslot)).symm
  rw [approvers, Finset.sum_filter, ← hall]
  simp only [zero_add, Bool.cond_eq_ite] at happroved
  rw [← happroved]
  omega

theorem validateHeader_ok {N : Crypto} {bn : BlockNotification R}
    (h : (validateHeader N getBlockProducers v bn).2 = .ok u) :
    computeHash N v.previousBlockHash bn.block = some bn.block.hash ∧
    switchEpoch N getBlockProducers
      { v with blockHeight := uint64 bn.offset, previousBlockHash := bn.block.hash } bn.block =
        .ok (validateHeader N getBlockProducers v bn).1 ∧
    checkApprovals N (approvalMessage v bn) (validateHeader N getBlockProducers v bn).1.blockProducers
      bn.block.approvals = .ok u := by
  unfold validateHeader at h ⊢
  cases hhash : computeHash N v.previousBlockHash bn.block with
  | none => simp [hhash] at h
  | some currBlockHash =>
    simp only [hhash] at h ⊢
    split at h
    · next heq =>
      subst heq
      simp only [if_true] at h ⊢
      split at h
      · simp at h
      · next switched hswitch => simpa only [hswitch, true_and] using h
    · simp at h

/-- The block producers that have approved a header. -/
def headerApprovers (N : Crypto) (v : Verifier) (bps : List BlockProducer) (bn : BlockNotification R) :
    Finset ℕ :=
  approvers (fun publicKey signature =>
    N.ed25519 publicKey (approvalMessage v bn).borshSerialize signature) bps bn.block.approvals

/-- Hashes tell the heights of the chain, and a signature is the public key. -/
def sample : Crypto where
  innerHash h := some (BitVec.ofNat 256 h.height.toNat)
  combineHash innerHash previousBlockHash := 16 * previousBlockHash + innerHash
  bpsHash bps := some (BitVec.ofNat 256 bps.length)
  ed25519 publicKey _ signature := publicKey = signature

def sampleProducers : List BlockProducer :=
  [⟨"a", [1], 1⟩, ⟨"b", [2], 10⟩, ⟨"c", [3], 10⟩, ⟨"d", [4], 10⟩]

def sampleConfig : VerifierConfig where
  blockHeight := 5
  previousBlockHash := 1
  currentEpochId := 7
  nextEpochId := 8
  nextBpsHash := 4
  currentBpsHash := 4

def sampleVerifier : Verifier where
  blockHeight := 5
  previousBlockHash := 1
  currentEpochId := 7
  nextEpochId := 8
  currentBpsHash := 4
  nextBpsHash := 4
  blockProducers := sampleProducers

def sampleHeader (height : ℤ) (hash : CryptoHash) (approvals : List (Option Signature)) : Header where
  height
  previousHeight := height - 1
  epochId := 7
  nextEpochId := 8
  hash
  nextBlockProducerHash := 4
  approvals
  rest := []

/-- A notification of height 6 on top of the trusted block. -/
def sampleNotification (approvals : List (Option Signature)) : BlockNotification ℕ where
  offset := 6
  block := sampleHeader 6 22 approvals
  receipts := []

end IconBridge.Go.Near
