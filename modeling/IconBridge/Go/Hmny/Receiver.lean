import IconBridge.Go.Hmny.Verifier

/-!
# The Harmony receiver

`receiveLoop` of `chain/hmny/receiver.go`. A block is delivered once the commit
in the header behind it is verified. Neither the number nor the epoch of a
header is looked at, nor how many members of the committee a bitmap selects.
-/

namespace IconBridge.Go.Hmny

open Lib

variable {R : Type}

structure Block (R : Type) where
  header : Header
  receipts : List R
  deriving DecidableEq

inductive Answer (R : Type)
  | block (header : Header) (receipts : Option (List R))
  | error
  /-- The requested block number is greater than the current block number. -/
  | above

def rpcCallRetry : ℕ := 3
def monitorBlockMaxConcurrency : UInt64 := 1000

def clampConcurrency (concurrency : UInt64) : ℕ :=
  (if concurrency < 1 then 1 else min concurrency monitorBlockMaxConcurrency).toNat

/-- Receipts are fetched and checked only if gas was used. -/
def fetchBlock (H : Harmony R) : Answer R → Option (Block R)
  | .block header receipts =>
    if 0 < header.gasUsed then do
      let receipts ← receipts
      if H.deriveSha receipts = header.receiptsRoot then some { header, receipts } else none
    else some { header, receipts := [] }
  | .error | .above => none

/-- A request is repeated unless the block is above the current one. What is thrown tells
whether it is. -/
def request (H : Harmony R) (answers : ℕ → Answer R) : (retry : ℕ) → Except Bool (Block R)
  | 0 => expect (fetchBlock H (answers 0)) false
  | retry + 1 =>
    match answers (retry + 1) with
    | .above => throw true
    | answer =>
      match fetchBlock H answer with
      | some block => return block
      | none => request H answers retry

/-- `latest` goes down for every height that is above the current block. -/
def lowered (latest : ℕ) (above : List ℕ) : ℕ :=
  above.foldl (fun latest h => if h ≤ latest then uint64 (h - 1) else latest) latest

def judge (H : Harmony R) (vr : Option Verifier) (lbn bn : Notification (Block R)) :
    Verdict (Option Verifier) :=
  match vr with
  | none => .deliver none
  | some vr =>
    match verify H vr lbn.block.header bn.block.header.lastCommitBitmap
      bn.block.header.lastCommitSignature with
    | .ok true =>
      match update H vr lbn.block.header with
      | .error _ => .fail
      | .ok vr => .deliver (some vr)
    | .ok false | .error _ => .drop false

inductive Event (R : Type)
  | tick
  | poll (blockNumber : Option UInt64)
  | fetch (answers : (height retry : ℕ) → Answer R)
  | take (callback : Notification (Block R) → Bool)

abbrev State (R : Type) := LoopState (Block R) (Option Verifier)

def Event.toLoop (H : Harmony R) (concurrency : ℕ) (s : State R) : Event R → LoopEvent (Block R)
  | .tick => .tick
  | .poll blockNumber => .poll (blockNumber.getD 0)
  | .fetch answers =>
    .fetch (fun h => (request H (answers h) rpcCallRetry).toOption) (UInt64.ofNat (lowered s.latest
      ((window s.next s.latest concurrency).filter fun h =>
        request H (answers h) rpcCallRetry matches .error true)))
  | .take callback => .take callback

def step (H : Harmony R) (concurrency : ℕ) (s : State R) (e : Event R) : Except Unit (State R) :=
  loopStep (judge H) concurrency s (e.toLoop H concurrency s)

/-- The options of a receiver with a verifier, and what the node answers before the loop
starts. -/
structure Setup where
  concurrency : UInt64
  verifier : VerifierOptions
  startHeight : UInt64
  header : Option Header
  shardStateHeader : Option Header
  startHeader : Option Header
  epochLast : ℕ → Option (Header × Header)
  blockNumber : Option UInt64

def Setup.start (H : Harmony R) (c : Setup) : Except Failure (State R × List Header) := do
  require (c.verifier.blockHeight ≤ c.startHeight)
    (.startBelowVerifier c.startHeight c.verifier.blockHeight)
  let vr ← newVerifier H c.verifier c.header c.shardStateHeader
  let synced ← syncVerifier H vr c.startHeader c.epochLast
  return (loopStart c.startHeight (c.blockNumber.getD 0) (some synced.vr), synced.verified)

variable {H : Harmony R} {s s' : State R}

def Checked (H : Harmony R) (b : Block R) : Prop :=
  H.deriveSha b.receipts = b.header.receiptsRoot ∨ b.header.gasUsed = 0 ∧ b.receipts = []

theorem fetchBlock_checked (h : fetchBlock H answer = some b) : Checked H b := by
  cases answer with
  | error | above => simp [fetchBlock] at h
  | block header receipts =>
    simp only [fetchBlock] at h
    split at h
    · simp only [Option.bind_eq_bind, Option.bind_eq_some_iff] at h
      obtain ⟨receipts, -, h⟩ := h
      split at h
      · next hroot =>
        cases h
        exact .inl hroot
      · cases h
    · next hgas =>
      cases h
      exact .inr ⟨by simpa using hgas, rfl⟩

theorem request_checked (h : request H answers retry = .ok b) : Checked H b := by
  induction retry with
  | zero => exact fetchBlock_checked (expect_ok.1 h)
  | succ retry ih =>
    unfold request at h
    split at h
    · simp at h
    · split at h
      · next hfetch =>
        obtain rfl := pure_ok.1 h
        exact fetchBlock_checked hfetch
      · exact ih h

/-- What the loop does not check: the number of the header that is delivered, its epoch,
how many have signed it, and its receipts root if no gas was used. -/
def Expected (H : Harmony R) (vr : Option Verifier) (lbn bn : Notification (Block R)) : Prop :=
  lbn.block.header.number = lbn.height ∧
  (lbn.block.header.gasUsed = 0 → H.deriveSha [] = lbn.block.header.receiptsRoot) ∧
  ∀ v ∈ vr, lbn.block.header.epoch = v.epoch ∧
    ∀ keys ∈ v.smsk.lookup lbn.block.header.shardID,
      2 * keys.length ≤ 3 * (selected bn.block.header.lastCommitBitmap keys).length

instance : Decidable (Expected H vr lbn bn) := inferInstanceAs (Decidable (_ ∧ (_ → _) ∧ ∀ v ∈ vr, _))

/-- At least two thirds of a committee, by a bitmap, are behind a signature of a header. -/
def Signed (H : Harmony R) (keys : List PublicKey) (header : Header) : Prop :=
  ∃ bitmap signature, 2 * keys.length ≤ 3 * (selected bitmap keys).length ∧
    H.verifyHash (selected bitmap keys) (payload H header) signature = true

/-- A block that the verifier has good reasons to deliver. -/
structure Attests (H : Harmony R) (vr : Verifier) (bn : Notification (Block R)) (vr' : Verifier) :
    Prop where
  number : bn.block.header.number = bn.height
  receipts : H.deriveSha bn.block.receipts = bn.block.header.receiptsRoot
  epoch : bn.block.header.epoch = vr.epoch
  signed : ∃ keys, vr.smsk.lookup bn.block.header.shardID = some keys ∧
    Signed H keys bn.block.header
  confirms : Confirms H vr bn.block.header vr'

theorem judge_attests (h : judge H (some vr) lbn bn = .deliver v)
    (hexpected : Expected H (some vr) lbn bn) (hchecked : Checked H lbn.block) :
    ∃ vr', v = some vr' ∧ Attests H vr lbn vr' := by
  simp only [judge] at h
  split at h
  · next hverify =>
    split at h
    · contradiction
    · next vr' hupdate =>
      cases h
      obtain ⟨hnumber, hroot, hvr⟩ := hexpected
      obtain ⟨hepoch, hquorum⟩ := hvr vr rfl
      obtain ⟨keys, hkeys, hsigned⟩ := verify_true hverify
      refine ⟨vr', rfl, hnumber, ?_, hepoch, ⟨keys, hkeys, _, _, hquorum keys hkeys, hsigned⟩,
        ⟨_, _, hverify⟩, hupdate⟩
      rcases hchecked with hchecked | ⟨hgas, hnil⟩
      · exact hchecked
      · rw [hnil]
        exact hroot hgas
  all_goals contradiction

/-- The verifier has followed the blocks that were delivered, and the receipts of those
that were fetched are checked. -/
structure Tracks (H : Harmony R) (vr₁ : Verifier) (s : State R) : Prop where
  path : ∃ vr, s.vr = some vr ∧ Path (Attests H) vr₁ s.delivered vr
  lbn : ∀ lbn, s.lbn = some lbn → Checked H lbn.block
  bnch : ∀ bn ∈ s.bnch, Checked H bn.block

theorem Tracks.deliver {lbn bn : Notification (Block R)} (hs : Tracks H vr₁ s)
    (hlbn : s.lbn = some lbn)
    (hjudge : guarded (Expected H) (judge H) s.vr lbn bn = .deliver v) :
    ∃ vr, v = some vr ∧ Path (Attests H) vr₁ (s.delivered ++ [lbn]) vr := by
  obtain ⟨vr, hvr, hpath⟩ := hs.path
  rw [hvr] at hjudge
  obtain ⟨hjudge, hexpected⟩ := guarded_deliver hjudge
  obtain ⟨vr', rfl, hattests⟩ := judge_attests hjudge hexpected (hs.lbn lbn hlbn)
  exact ⟨vr', rfl, hpath.snoc hattests⟩

theorem process_tracks (hq : Queued s) (hrun : s.running) (hs : Tracks H vr₁ s) :
    Tracks H vr₁ (process (guarded (Expected H) (judge H)) callback s s.bnch) := by
  have hlast {bn : Notification (Block R)} (hbn : Checked H bn.block) :
      ∀ lbn, some bn = some lbn → Checked H lbn.block := by
    rintro _ ⟨⟩
    exact hbn
  refine process_induct (P := Tracks H vr₁) (R := Tracks H vr₁) (Q := fun bn => Checked H bn.block)
    (fun t t' _ _ ht hround => ?_) (fun t t' _ _ ht hhalt => ?_)
    (fun t ht => ⟨ht.path, ht.lbn, by simp⟩) hs.bnch hq.bnch hrun hs
  · cases hround with
    | first hbn | replace hbn => exact ⟨ht.path, hlast hbn, ht.bnch⟩
    | deliver hbn _ hlbn hjudge => exact ⟨ht.deliver hlbn hjudge, hlast hbn, ht.bnch⟩
  · cases hhalt with
    | drop | fail => exact ⟨ht.path, ht.lbn, by simp⟩
    | last _ _ hlbn hjudge => exact ⟨ht.deliver hlbn hjudge, ht.lbn, by simp⟩

/-- Every judgement of an event meets what the loop does not check. -/
def Meets (H : Harmony R) (concurrency : ℕ) (s : State R) (e : Event R) : Prop :=
  Ruled (Expected H) (judge H) s (e.toLoop H concurrency s)

instance : Decidable (Meets H concurrency s e) := inferInstanceAs (Decidable (Ruled _ _ _ _))

theorem step_tracks (hq : Queued s) (hs : Tracks H vr₁ s) (hmeets : Meets H concurrency s e)
    (h : step H concurrency s e = .ok s') : Queued s' ∧ Tracks H vr₁ s' := by
  unfold step at h
  rw [← loopStep_guarded hmeets] at h
  have hhappens := loopStep_happens h
  refine ⟨hhappens.queued hq, ?_⟩
  cases e with
  | take callback =>
    cases hhappens with
    | take _ hrun => exact process_tracks hq hrun hs
  | tick =>
    cases hhappens
    exact ⟨hs.path, hs.lbn, hs.bnch⟩
  | poll =>
    cases hhappens with
    | poll => exact ⟨hs.path, hs.lbn, hs.bnch⟩
    | idle => exact hs
  | fetch answers =>
    cases hhappens
    refine ⟨hs.path, hs.lbn, fun bn hbn => ?_⟩
    obtain ⟨-, hanswer⟩ := mem_fetched.1 (mem_forward hbn)
    cases hrequest : request H (answers bn.height) rpcCallRetry with
    | error => simp [hrequest, Except.toOption] at hanswer
    | ok b =>
      simp only [hrequest, Except.toOption, Option.some.injEq] at hanswer
      exact hanswer ▸ request_checked hrequest

def headers (bns : List (Notification (Block R))) : List Header := bns.map fun bn => bn.block.header

/-- A block that is delivered has a header of its height and the receipts of this header, which
at least two thirds of the committee in force have signed, provided that the judgements of the
loop meet what it does not check. -/
theorem delivers_signed {R : Type} (H : Harmony R) (signed : PublicKey → Bytes → Prop)
    (hsigned : ∀ keys payload signature, H.verifyHash keys payload signature = true →
      ∀ key ∈ keys, signed key payload)
    (c : Setup) (s : State R) (verified : List Header) (hstart : c.start H = .ok (s, verified))
    (es : List (Event R))
    (hmeets : Along (step H (clampConcurrency c.concurrency))
      (Meets H (clampConcurrency c.concurrency)) s es)
    (before after : List _) (bn : Notification (Block R))
    (hbn : (run (step H (clampConcurrency c.concurrency)) s es).delivered = before ++ bn :: after) :
    bn.block.header.number = bn.height ∧
    H.deriveSha bn.block.receipts = bn.block.header.receiptsRoot ∧
    ∃ vr₀ vr keys, newVerifier H c.verifier c.header c.shardStateHeader = .ok vr₀ ∧
      Path (Confirms H) vr₀ (verified ++ headers before) vr ∧ bn.block.header.epoch = vr.epoch ∧
      vr.smsk.lookup bn.block.header.shardID = some keys ∧
      ∃ bitmap, 2 * keys.length ≤ 3 * (selected bitmap keys).length ∧
        ∀ key ∈ selected bitmap keys, signed key (payload H bn.block.header) := by
  simp only [Setup.start, bind_ok, require_ok, pure_ok, Prod.mk.injEq] at hstart
  obtain ⟨_, -, vr₀, hvr₀, synced, hsynced, rfl, rfl⟩ := hstart
  have htracks := run_along (P := fun s => Queued s ∧ Tracks H synced.vr s)
    (fun s e s' hs ha h => step_tracks hs.1 hs.2 ha h)
    ⟨loopStart_queued, ⟨synced.vr, rfl, .nil⟩, by simp [loopStart], by simp [loopStart]⟩ hmeets
  obtain ⟨vr, -, hpath⟩ := htracks.2.path
  obtain ⟨t, t', hbefore, hattests, -⟩ := hpath.split hbn
  obtain ⟨keys, hkeys, bitmap, signature, hquorum, hverify⟩ := hattests.signed
  have hconfirms : Path (Confirms H) synced.vr (headers before) t :=
    hbefore.map fun _ _ _ hlink => hlink.confirms
  exact ⟨hattests.number, hattests.receipts, vr₀, t, keys, hvr₀,
    (syncVerifier_path hsynced).append hconfirms, hattests.epoch, hkeys, bitmap, hquorum,
    hsigned _ _ _ hverify⟩

/-- What was delivered has the heights from `start` on; the last notification has the next of
them and is not delivered yet. -/
structure InOrder (start : ℕ) (s : State R) : Prop where
  heights : s.delivered.map Notification.height = List.range' start s.delivered.length
  next : s.running → s.next = start + s.delivered.length + s.lbn.toList.length
  lbn : ∀ lbn, s.lbn = some lbn → s.running → lbn.height = start + s.delivered.length

theorem InOrder.deliver {lbn : Notification (Block R)} (hs : InOrder start s) (hrun : s.running)
    (hlbn : s.lbn = some lbn) : (s.delivered ++ [lbn]).map Notification.height =
      List.range' start (s.delivered ++ [lbn]).length := by
  rw [List.map_append, hs.heights, List.length_append, List.length_singleton, List.range'_concat,
    Nat.one_mul, ← hs.lbn lbn hlbn hrun]
  rfl

theorem judge_ne (vr : Option Verifier) (lbn bn : Notification (Block R)) :
    judge H vr lbn bn ≠ .replace ∧ judge H vr lbn bn ≠ .drop true := by
  unfold judge
  split
  · simp
  · split
    · split <;> simp
    · simp
    · simp

theorem step_inOrder (hq : Queued s) (hs : InOrder start s) (h : step H concurrency s e = .ok s') :
    Queued s' ∧ InOrder start s' := by
  refine ⟨(loopStep_happens h).queued hq, loopStep_preserves (fun s s' hlt hrun hs hround => ?_)
    (fun s s' hlt hrun hs hhalt => ?_) (fun s _ _ hs => ⟨hs.heights, hs.next, hs.lbn⟩) hq hs h⟩
  · have hsucc : uint64 (s.next + 1 : ℤ) = s.next + 1 := uint64_of_lt hlt
    have hnext := hs.next hrun
    cases hround with
    | first _ hheight hlbn =>
      rw [hlbn] at hnext
      refine ⟨hs.heights, fun _ => hsucc.trans (congrArg (· + 1) hnext), ?_⟩
      rintro _ ⟨⟩ _
      exact hheight.trans hnext
    | replace _ _ _ hjudge => exact absurd hjudge (judge_ne ..).1
    | deliver _ hheight hlbn =>
      rw [hlbn] at hnext
      refine ⟨hs.deliver hrun hlbn, fun _ => hsucc.trans (by simp [hnext, add_assoc]), ?_⟩
      rintro _ ⟨⟩ _
      simp [hheight, hnext, add_assoc]
  · cases hhalt with
    | @drop _ _ back _ _ _ hjudge =>
      cases back with
      | false => exact hs
      | true => exact absurd hjudge (judge_ne ..).2
    | fail => exact ⟨hs.heights, nofun, nofun⟩
    | last _ _ hlbn => exact ⟨hs.deliver hrun hlbn, nofun, nofun⟩

/-- Whatever the node answers and however the requests are timed, with a verifier or without one,
every height from the start height on is delivered once, in order. -/
theorem delivers_each_height {R : Type} (H : Harmony R) (concurrency : ℕ)
    (startHeight latest : UInt64) (vr : Option Verifier) (es : List (Event R)) :
    let delivered := (run (step H concurrency) (loopStart startHeight latest vr) es).delivered
    delivered.map Notification.height = List.range' startHeight.toNat delivered.length := by
  refine (run_induct (P := fun s => Queued s ∧ InOrder startHeight.toNat s)
    (fun _ _ _ hs h => step_inOrder hs.1 hs.2 h) ⟨loopStart_queued, ?_⟩).2.heights
  exact ⟨rfl, fun _ => rfl, nofun⟩

def sampleKeys : List PublicKey := [[1], [2], [3], [4]]

/-- A shard state is the epoch and the keys of shard 0. A signature names the signers and the
number of the block. -/
def sample : Harmony ℕ where
  hash h := BitVec.ofNat 256 h.number
  deriveSha receipts := BitVec.ofNat 256 receipts.sum
  decodeShardState
    | [] => none
    | epoch :: keys => some (epoch.toNat, [(0, keys.map fun k => [k])])
  decodeLegacyShardState _ := none
  validKey _ := true
  validSignature _ := true
  verifyHash keys payload signature := signature = keys.flatten ++ payload.take 8

def sampleHeader (number : ℕ) (bitmap : UInt8) : Header where
  receiptsRoot := BitVec.ofNat 256 number
  number
  gasUsed := 1
  viewID := 0
  epoch := 1
  shardID := 0
  lastCommitSignature := (selected [bitmap] sampleKeys).flatten ++ putUint64 (number - 1)
  lastCommitBitmap := [bitmap]
  shardState := []
  rest := []

def sampleSetup : Setup where
  concurrency := 3
  verifier := { blockHeight := 5, commitBitmap := [15], commitSignature := [1, 2, 3, 4] ++ putUint64 5 }
  startHeight := 5
  header := some (sampleHeader 5 15)
  shardStateHeader := some { sampleHeader 4 15 with shardState := [1, 1, 2, 3, 4] }
  startHeader := some (sampleHeader 5 15)
  epochLast _ := none
  blockNumber := some 20

def sampleState : State ℕ := loopStart 5 20 (some { epoch := 1, smsk := [(0, sampleKeys)] })

def committed : List (Event ℕ) :=
  [.fetch fun h _ => .block (sampleHeader h 7) (some [h]), .take fun _ => true]

theorem committed_signed :
    ∃ vr₀ vr keys,
      newVerifier sample sampleSetup.verifier sampleSetup.header sampleSetup.shardStateHeader = .ok vr₀ ∧
      Path (Confirms sample) vr₀ [] vr ∧ 1 = vr.epoch ∧ vr.smsk.lookup 0 = some keys ∧
      ∃ bitmap, 2 * keys.length ≤ 3 * (selected bitmap keys).length ∧
        ∀ key ∈ selected bitmap keys, ∃ keys signature, key ∈ keys ∧
          sample.verifyHash keys (payload sample (sampleHeader 5 7)) signature = true := by
  have hrun : (run (step sample 3) sampleState committed).delivered =
      [] ++ { height := 5, block := { header := sampleHeader 5 7, receipts := [5] } } ::
        [{ height := 6, block := { header := sampleHeader 6 7, receipts := [6] } }] := by decide +kernel
  exact (delivers_signed sample (fun key payload => ∃ keys signature, key ∈ keys ∧
      sample.verifyHash keys payload signature = true)
    (fun keys payload signature h key hkey => ⟨keys, signature, hkey, h⟩) sampleSetup sampleState []
    (by decide +kernel) committed (by decide +kernel) [] _ _ hrun).2.2

/-- The node answers with block 3 for height 5, and with the commit of one member for it. -/
def uncommitted : List (Event ℕ) :=
  [.fetch fun h _ => .block (sampleHeader (h - 2) 1) (some [h - 2]), .take fun _ => true]

/-- Block 3 is delivered for height 5. One of four has signed it. -/
theorem uncommitted_delivered :
    sampleSetup.start sample = .ok (sampleState, []) ∧
    (run (step sample 3) sampleState uncommitted).delivered.map
      (fun bn => (bn.height, bn.block.header.number)) = [(5, 3), (6, 4)] ∧
    (selected (sampleHeader 4 1).lastCommitBitmap sampleKeys).length = 1 := by
  decide +kernel

end IconBridge.Go.Hmny
