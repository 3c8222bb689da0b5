import IconBridge.Lib.Bytes
import IconBridge.Lib.Path
import IconBridge.Go.ReceiveLoop

/-!
# The verifier of the Harmony receiver

`chain/hmny/verifier.go`, with `newVerifier` and `syncVerifier` of
`chain/hmny/client.go`. A header is signed by those members of the committee that
a bitmap selects; the last header of an epoch names the next committees. The
decoders and the BLS library are parameters.
-/

namespace IconBridge.Go.Hmny

open Lib

abbrev Hash := BitVec 256
abbrev PublicKey := Bytes

structure Header where
  receiptsRoot : Hash
  number : ℕ
  gasUsed : UInt64
  viewID : ℕ
  epoch : ℕ
  shardID : UInt32
  lastCommitSignature : Bytes
  lastCommitBitmap : Bytes
  shardState : Bytes
  /-- The other fields, which are only hashed. -/
  rest : Bytes
  deriving DecidableEq

/-- The public keys of the slots, for each shard. -/
abbrev Shards := List (UInt32 × List PublicKey)

/-- What Harmony's libraries compute, for receipts of some type. -/
structure Harmony (R : Type) where
  hash : Header → Hash
  deriveSha : List R → Hash
  decodeShardState : Bytes → Option (ℕ × Shards)
  decodeLegacyShardState : Bytes → Option Shards
  /-- `BytesToBLSPublicKey` succeeds. -/
  validKey : PublicKey → Bool
  /-- A signature can be deserialised. -/
  validSignature : Bytes → Bool
  /-- `VerifyHash` with the sum of some public keys. -/
  verifyHash : List PublicKey → Bytes → Bytes → Bool

inductive Failure
  | invalidShardID (shardID : UInt32)
  | invalidMask
  | invalidSignature
  | invalidShardState
  | invalidKey
  | startBelowVerifier (startHeight blockHeight : UInt64)
  /-- A request of the node that fails. -/
  | node
  deriving DecidableEq

structure Verifier where
  epoch : ℕ
  smsk : Shards
  deriving DecidableEq

variable {R : Type}

/-- Numbers are written with the low byte first. -/
def putUint64 (n : ℕ) : Bytes := (toBytes 8 n).reverse

def payload (H : Harmony R) (h : Header) : Bytes :=
  putUint64 h.number ++ toBytes 32 (H.hash h).toNat ++ putUint64 h.viewID

def bit (bitmap : Bytes) (i : ℕ) : Bool := (bitmap[i / 8]?.getD 0).toNat.testBit (i % 8)

/-- The public keys that a bitmap selects. -/
def selected (bitmap : Bytes) (keys : List PublicKey) : List PublicKey :=
  (keys.zipIdx.filter fun x => bit bitmap x.2).map Prod.fst

def verify (H : Harmony R) (vr : Verifier) (h : Header) (bitmap signature : Bytes) :
    Except Failure Bool := do
  let keys ← expect (vr.smsk.lookup h.shardID) (.invalidShardID h.shardID)
  require (bitmap.length = (keys.length + 7) / 8) .invalidMask
  require (H.validSignature signature) .invalidSignature
  return H.verifyHash (selected bitmap keys) (payload H h) signature

/-- The epoch and the committees of a shard state, or of one in the old form. -/
def shardStateOf (H : Harmony R) (h : Header) : Except Failure (ℕ × Shards) :=
  match H.decodeShardState h.shardState with
  | some (epoch, shards) => return (uint64 epoch, shards)
  | none => do
    let shards ← expect (H.decodeLegacyShardState h.shardState) .invalidShardState
    return (uint64 (uint64 h.epoch + 1), shards)

/-- A committee that comes later replaces one of the same shard. -/
def committees (shards : Shards) : Shards :=
  shards.foldl (fun spks cmt => cmt :: spks.filter fun c => c.1 ≠ cmt.1) []

def update (H : Harmony R) (vr : Verifier) (h : Header) : Except Failure Verifier :=
  if h.shardState.isEmpty then return vr
  else do
    let (epoch, shards) ← shardStateOf H h
    let smsk := committees shards
    require (smsk.all fun cmt => cmt.2.all H.validKey) .invalidKey
    return { epoch, smsk }

structure VerifierOptions where
  blockHeight : UInt64
  commitBitmap : Bytes
  commitSignature : Bytes

/-- The header whose shard state is taken: the one of the last epoch, or the first one. -/
def shardStateHeader (h : Header) (ssh : Option Header) : Except Failure Header :=
  if h.epoch = 0 ∧ h.number = 0 then return h else expect ssh .node

def newVerifier (H : Harmony R) (opts : VerifierOptions) (h ssh : Option Header) :
    Except Failure Verifier := do
  let h ← expect h .node
  let ssh ← shardStateHeader h ssh
  let vr ← update H { epoch := 0, smsk := [] } ssh
  let ok ← verify H vr h opts.commitBitmap opts.commitSignature
  require ok .invalidSignature
  return vr

/-- The verifier, and the headers that it was updated with. -/
structure Synced where
  vr : Verifier
  verified : List Header
  deriving DecidableEq

/-- The last header of an epoch is verified with the commit in the header behind it. -/
def syncEpoch (H : Harmony R) (answer : Option (Header × Header)) (s : Synced) :
    Except Failure Synced := do
  let (elh, elx) ← expect answer .node
  let ok ← verify H s.vr elh elx.lastCommitBitmap elx.lastCommitSignature
  require ok .invalidSignature
  let vr ← update H s.vr elh
  return { vr, verified := s.verified ++ [elh] }

def syncVerifier (H : Harmony R) (vr : Verifier) (h : Option Header)
    (answers : ℕ → Option (Header × Header)) : Except Failure Synced := do
  let h ← expect h .node
  (List.range' vr.epoch (uint64 h.epoch - vr.epoch)).foldlM
    (fun s epoch => syncEpoch H (answers epoch) s) { vr, verified := [] }

variable {H : Harmony R}

/-- The verifier is updated with a header that was signed for it. -/
def Confirms (H : Harmony R) (vr : Verifier) (h : Header) (vr' : Verifier) : Prop :=
  (∃ bitmap signature, verify H vr h bitmap signature = .ok true) ∧ update H vr h = .ok vr'

theorem syncEpoch_path (hs : Path (Confirms H) vr s.verified s.vr)
    (h : syncEpoch H answer s = .ok s') : Path (Confirms H) vr s'.verified s'.vr := by
  simp only [syncEpoch, bind_ok, require_ok, pure_ok] at h
  obtain ⟨⟨elh, elx⟩, -, ok, hverify, _, rfl, vr', hupdate, rfl⟩ := h
  exact hs.snoc ⟨⟨_, _, hverify⟩, hupdate⟩

theorem syncVerifier_path (h : syncVerifier H vr header answers = .ok synced) :
    Path (Confirms H) vr synced.verified synced.vr := by
  simp only [syncVerifier, bind_ok] at h
  obtain ⟨_, -, h⟩ := h
  exact foldlM_ok (P := fun s => Path (Confirms H) vr s.verified s.vr)
    (fun _ _ _ _ hs h => syncEpoch_path hs h) .nil h

theorem verify_true (h : verify H vr header bitmap signature = .ok true) :
    ∃ keys, vr.smsk.lookup header.shardID = some keys ∧
      H.verifyHash (selected bitmap keys) (payload H header) signature = true := by
  simp only [verify, bind_ok, expect_ok, pure_ok] at h
  obtain ⟨keys, hkeys, _, -, _, -, hverify⟩ := h
  exact ⟨keys, hkeys, hverify⟩

end IconBridge.Go.Hmny
