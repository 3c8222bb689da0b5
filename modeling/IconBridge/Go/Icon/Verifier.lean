import Mathlib.Data.Finset.Card
import IconBridge.Lib.Bytes
import IconBridge.Lib.Outcome
import IconBridge.Lib.Quorum

/-!
# The verifier of the ICON receiver

`chain/icon/verifier.go`. A header is accepted with the votes of the validators
that the header before it has named. Codec, hashes and signatures are those of
goloop and are parameters here.
-/

namespace IconBridge.Go.Icon

open Lib List

abbrev Hash := Bytes

/-- A byte for the kind of account, and twenty for its number. -/
abbrev Address := BitVec 168

structure BlockHeader where
  version : ℤ
  height : ℤ
  timestamp : ℤ
  proposer : Bytes
  prevID : Bytes
  votesHash : Bytes
  nextValidatorsHash : Hash
  patchTransactionsHash : Bytes
  normalTransactionsHash : Bytes
  logsBloom : Bytes
  result : Bytes
  deriving DecidableEq

structure PartSetID where
  count : UInt16
  hash : Bytes
  deriving DecidableEq

inductive VoteType
  | prevote
  | precommit
  deriving DecidableEq

structure Vote where
  height : ℤ
  round : ℤ
  type : VoteType
  blockID : Hash
  blockPartSetID : PartSetID
  timestamp : ℤ
  deriving DecidableEq

structure CommitVoteItem where
  timestamp : ℤ
  signature : Bytes
  deriving DecidableEq

structure CommitVoteList where
  round : ℤ
  blockPartSetID : Option PartSetID
  items : List CommitVoteItem
  deriving DecidableEq

/-- What goloop computes for the verifier. -/
structure Goloop where
  /-- `SHA3Sum256` of an encoded header. -/
  headerHash : BlockHeader → Hash
  voteHash : Vote → Hash
  /-- `RecoverPublicKey`, and the account of the public key. -/
  recover : Bytes → Hash → Option Address
  decodeVotes : Bytes → Option CommitVoteList

inductive Failure
  | noValidators (hash : Hash)
  | invalidVotes (votes : Bytes)
  | insufficientVotes
  | invalidTargetHeight (verifier target : ℤ)
  | invalidHash
  | invalidData (hash : Hash)
  | invalidResult
  | missingProofs (got expected : ℕ)
  | invalidProof
  | invalidEvent
  /-- A request of the node that fails. -/
  | node
  /-- A loop that has not come to its end. -/
  | pending
  /-- A nil pointer, or an index out of range. -/
  | crash
  deriving DecidableEq

structure Verifier where
  next : ℤ
  nextValidatorsHash : Hash
  validators : List (Hash × List Address)
  deriving DecidableEq

def requiredVotes (listValidators : List Address) : ℕ := max 1 (2 * listValidators.length / 3)

/-- The vote that is signed for a header, but for its time. -/
def voteFor (G : Goloop) (blockHeader : BlockHeader) (round : ℤ) (id : PartSetID) (timestamp : ℤ) :
    Vote where
  height := blockHeader.height
  round
  type := .precommit
  blockID := G.headerHash blockHeader
  blockPartSetID := id
  timestamp

/-- The loop over the votes. A validator that has voted is taken out of the map. -/
def countVotes (G : Goloop) (vote : ℤ → Vote) (required : ℕ) :
    Finset Address → ℕ → List CommitVoteItem → Bool
  | _, _, [] => false
  | validators, numVotes, item :: items =>
    match G.recover item.signature (G.voteHash (vote item.timestamp)) with
    | none => countVotes G vote required validators numVotes items
    | some address =>
      if address ∈ validators then
        if required ≤ numVotes + 1 then true
        else countVotes G vote required (validators.erase address) (numVotes + 1) items
      else countVotes G vote required validators numVotes items

def verify (G : Goloop) (vr : Verifier) (blockHeader : BlockHeader) (votes : Bytes) :
    Except Failure Unit := do
  let listValidators ← expect (vr.validators.lookup vr.nextValidatorsHash)
    (.noValidators vr.nextValidatorsHash)
  let cvl ← expect (G.decodeVotes votes) (.invalidVotes votes)
  let id ← expect cvl.blockPartSetID .crash
  require (countVotes G (voteFor G blockHeader cvl.round id) (requiredVotes listValidators)
    listValidators.toFinset 0 cvl.items) .insufficientVotes

/-- Validators under a hash that is known already are kept. -/
def update (vr : Verifier) (blockHeader : BlockHeader) (nextValidators : List Address) :
    Verifier where
  next := blockHeader.height + 1
  nextValidatorsHash := blockHeader.nextValidatorsHash
  validators :=
    if (vr.validators.lookup blockHeader.nextValidatorsHash).isSome then vr.validators
    else (blockHeader.nextValidatorsHash, nextValidators) :: vr.validators

/-- `Validators`; an unknown hash has none. -/
def Verifier.known (vr : Verifier) (nextValidatorsHash : Hash) : List Address :=
  (vr.validators.lookup nextValidatorsHash).getD []

variable {G : Goloop}

/-- The validators whose signatures of a vote are among the items. -/
def signersOf (G : Goloop) (vote : ℤ → Vote) (validators : Finset Address)
    (items : List CommitVoteItem) : Finset Address :=
  validators.filter fun a => ∃ item ∈ items,
    G.recover item.signature (G.voteHash (vote item.timestamp)) = some a

theorem signersOf_cons_of_none (h : G.recover item.signature (G.voteHash (vote item.timestamp)) = none) :
    signersOf G vote validators (item :: items) = signersOf G vote validators items := by
  simp [signersOf, h]

theorem signersOf_cons_of_notMem
    (h : G.recover item.signature (G.voteHash (vote item.timestamp)) = some a) (ha : a ∉ validators) :
    signersOf G vote validators (item :: items) = signersOf G vote validators items := by
  ext b
  simp only [signersOf, mem_cons, exists_eq_or_imp, h, Option.some.injEq, Finset.mem_filter]
  constructor
  · rintro ⟨hb, rfl | hsigned⟩
    · exact absurd hb ha
    · exact ⟨hb, hsigned⟩
  · rintro ⟨hb, hsigned⟩
    exact ⟨hb, .inr hsigned⟩

theorem signersOf_cons_of_mem
    (h : G.recover item.signature (G.voteHash (vote item.timestamp)) = some a) (ha : a ∈ validators) :
    signersOf G vote validators (item :: items) =
      insert a (signersOf G vote (validators.erase a) items) := by
  ext b
  simp only [signersOf, mem_cons, exists_eq_or_imp, h, Option.some.injEq, Finset.mem_filter,
    Finset.mem_insert, Finset.mem_erase]
  constructor
  · rintro ⟨hb, rfl | hsigned⟩
    · exact .inl rfl
    · by_cases heq : b = a
      · exact .inl heq
      · exact .inr ⟨⟨heq, hb⟩, hsigned⟩
  · rintro (rfl | ⟨⟨-, hb⟩, hsigned⟩)
    · exact ⟨ha, .inl rfl⟩
    · exact ⟨hb, .inr hsigned⟩

/-- The loop counts every validator once, as long as votes are missing. -/
theorem countVotes_iff (hmissing : numVotes < required) :
    countVotes G vote required validators numVotes items = true ↔
      required ≤ numVotes + (signersOf G vote validators items).card := by
  induction items generalizing validators numVotes with
  | nil => simp [countVotes, signersOf, hmissing]
  | cons item items ih =>
    rw [countVotes]
    cases hrecover : G.recover item.signature (G.voteHash (vote item.timestamp)) with
    | none => rw [signersOf_cons_of_none hrecover]; exact ih hmissing
    | some a =>
      by_cases ha : a ∈ validators
      · have hcard : (signersOf G vote validators (item :: items)).card =
            (signersOf G vote (validators.erase a) items).card + 1 := by
          rw [signersOf_cons_of_mem hrecover ha, Finset.card_insert_of_notMem]
          simp [signersOf]
        simp only [ha, if_true, hcard]
        by_cases henough : required ≤ numVotes + 1
        · simp only [henough, if_true, true_iff]
          omega
        · rw [if_neg henough, ih (Nat.lt_of_not_le henough)]
          omega
      · simp only [ha, if_false, signersOf_cons_of_notMem hrecover ha]
        exact ih hmissing

/-- The listed validators that have signed a precommit vote for a header, by the votes
that came with it. -/
def signers (G : Goloop) (listValidators : List Address) (blockHeader : BlockHeader) (votes : Bytes) :
    Finset Address :=
  match G.decodeVotes votes with
  | some { round, blockPartSetID := some id, items } =>
    signersOf G (voteFor G blockHeader round id) listValidators.toFinset items
  | _ => ∅

theorem signers_subset : signers G listValidators blockHeader votes ⊆ listValidators.toFinset := by
  unfold signers
  split
  · exact Finset.filter_subset _ _
  · exact Finset.empty_subset _

/-- A header is accepted if and only if enough of the listed validators have signed. -/
theorem verify_iff : verify G vr blockHeader votes = .ok () ↔
    ∃ listValidators, vr.validators.lookup vr.nextValidatorsHash = some listValidators ∧
      requiredVotes listValidators ≤ (signers G listValidators blockHeader votes).card := by
  have hpos (l : List Address) : 0 < requiredVotes l := le_max_left 1 _
  simp only [verify, bind_ok, expect_ok, require_ok]
  refine exists_congr fun listValidators => and_congr_right fun _ => ?_
  unfold signers
  constructor
  · rintro ⟨⟨round, _, items⟩, hvotes, id, rfl, hcount⟩
    rw [countVotes_iff (hpos _)] at hcount
    simpa [hvotes] using hcount
  · intro hcard
    split at hcard
    · next round id items hvotes =>
      refine ⟨_, hvotes, id, rfl, ?_⟩
      rw [countVotes_iff (hpos _)]
      simpa using hcard
    · have := hpos listValidators
      simp only [Finset.card_empty] at hcard
      omega

/-- As many votes as the verifier asks for, and no more than two thirds. -/
def Marginal (listValidators : List Address) (numVotes : ℕ) : Prop :=
  listValidators.length ≠ 1 ∧ numVotes = 2 * listValidators.length / 3

instance : Decidable (Marginal listValidators numVotes) := inferInstanceAs (Decidable (_ ∧ _))

theorem quorum_iff (hne : listValidators ≠ []) (hrequired : requiredVotes listValidators ≤ n) :
    2 * listValidators.length < 3 * n ↔ ¬ Marginal listValidators n := by
  have hpos := length_pos_iff.2 hne
  unfold requiredVotes at hrequired
  unfold Marginal
  omega

theorem signers_quorum (hnodup : listValidators.Nodup)
    (hquorum : 2 * listValidators.length < 3 * (signers G listValidators blockHeader votes).card) :
    Quorum (fun _ => 1) listValidators.toFinset (signers G listValidators blockHeader votes) := by
  refine ⟨signers_subset, ?_⟩
  rwa [← Finset.card_eq_sum_ones, ← Finset.card_eq_sum_ones, toFinset_card_of_nodup hnodup]

/-- More than two thirds of the validators have signed a header that is accepted, unless
exactly two thirds, rounded down, have. If more have signed two headers, then more than
one third have signed both. -/
theorem verify_quorum (G : Goloop) (listValidators : List Address) (hnodup : listValidators.Nodup)
    (hne : listValidators ≠ []) (vr : Verifier)
    (hlist : vr.validators.lookup vr.nextValidatorsHash = some listValidators)
    (blockHeader : BlockHeader) (votes : Bytes) (hverify : verify G vr blockHeader votes = .ok ()) :
    let signed := signers G listValidators blockHeader votes
    (2 * listValidators.length < 3 * signed.card ↔ ¬ Marginal listValidators signed.card) ∧
    ∀ vr' blockHeader' votes', vr'.validators.lookup vr'.nextValidatorsHash = some listValidators →
      verify G vr' blockHeader' votes' = .ok () →
      let signed' := signers G listValidators blockHeader' votes'
      ¬ Marginal listValidators signed.card → ¬ Marginal listValidators signed'.card →
      listValidators.length < 3 * (signed ∩ signed').card := by
  have hquorum {vr : Verifier} {blockHeader votes}
      (hlist : vr.validators.lookup vr.nextValidatorsHash = some listValidators)
      (hverify : verify G vr blockHeader votes = .ok ()) :
      2 * listValidators.length < 3 * (signers G listValidators blockHeader votes).card ↔
        ¬ Marginal listValidators (signers G listValidators blockHeader votes).card := by
    obtain ⟨l, hl, hrequired⟩ := verify_iff.1 hverify
    cases hlist.symm.trans hl
    exact quorum_iff hne hrequired
  refine ⟨hquorum hlist hverify, fun vr' blockHeader' votes' hlist' hverify' h h' => ?_⟩
  have hinter := Quorum.inter (signers_quorum hnodup ((hquorum hlist hverify).2 h))
    (signers_quorum hnodup ((hquorum hlist' hverify').2 h'))
  rwa [← Finset.card_eq_sum_ones, ← Finset.card_eq_sum_ones, toFinset_card_of_nodup hnodup] at hinter

/-- A signature is the number of the signer and the hash. Votes are the hash, of one byte,
and the numbers of the signers. -/
def sample : Goloop where
  headerHash h := h.result
  voteHash v := v.blockID
  recover signature hash :=
    match signature with
    | [] => none
    | b :: signed => if signed = hash then some (BitVec.ofNat 168 b.toNat) else none
  decodeVotes
    | [] => none
    | h :: bs => some {
        round := 0
        blockPartSetID := some { count := 1, hash := [h] }
        items := bs.map fun b => { timestamp := 0, signature := [b, h] } }

def sampleHeader (height : ℤ) (result : UInt8) : BlockHeader where
  version := 2
  height
  timestamp := 0
  proposer := []
  prevID := []
  votesHash := []
  nextValidatorsHash := [9]
  patchTransactionsHash := []
  normalTransactionsHash := []
  logsBloom := []
  result := [result]

def sampleVerifier : Verifier where
  next := 5
  nextValidatorsHash := [9]
  validators := [([9], [1, 2, 3, 4])]

/-- Three of four validators have signed. -/
theorem three_votes :
    (4 : ℕ) < 3 * (signers sample [1, 2, 3, 4] (sampleHeader 5 7) [7, 1, 2, 3] ∩
      signers sample [1, 2, 3, 4] (sampleHeader 5 8) [8, 2, 3, 4]).card := by
  have h := (verify_quorum sample [1, 2, 3, 4] (by decide) (by decide) sampleVerifier rfl
    (sampleHeader 5 7) [7, 1, 2, 3] (by decide +kernel)).2
  exact h sampleVerifier (sampleHeader 5 8) [8, 2, 3, 4] rfl (by decide +kernel) (by decide +kernel)
    (by decide +kernel)

/-- Two of four validators are enough, and the two others for another header of the
same height. -/
theorem two_votes :
    verify sample sampleVerifier (sampleHeader 5 7) [7, 1, 2] = .ok () ∧
    verify sample sampleVerifier (sampleHeader 5 8) [8, 3, 4] = .ok () ∧
    ¬ 2 * 4 < 3 * (signers sample [1, 2, 3, 4] (sampleHeader 5 7) [7, 1, 2]).card ∧
    signers sample [1, 2, 3, 4] (sampleHeader 5 7) [7, 1, 2] ∩
      signers sample [1, 2, 3, 4] (sampleHeader 5 8) [8, 3, 4] = ∅ := by
  decide +kernel

end IconBridge.Go.Icon
