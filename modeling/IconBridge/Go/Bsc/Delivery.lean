import IconBridge.Go.Bsc.Chain

/-!
# What the BSC receiver delivers

The headers of the blocks that are delivered continue the chain that the
verifier has followed before. The receipts of a block are checked when it is
judged against the block before it; the first block, and one that is fetched
again, are not judged that way.
-/

namespace IconBridge.Go.Bsc

open Lib List

variable {R : Type} {E : Ethereum R} {vr vr₀ : Verifier} {s s' : State R}
  {lbn bn : Notification (Block R)}

theorem judge_replace {v : Option Verifier} (h : judge E v lbn bn = .replace) : bn.height = lbn.height := by
  unfold judge at h
  split at h
  · next heq => exact heq
  · repeat' split at h
    all_goals contradiction

theorem judge_drop {v : Option Verifier} (h : judge E v lbn bn = .drop back) :
    back = true ↔ bn.height ≠ lbn.height := by
  unfold judge at h
  split at h
  · next heq =>
    split at h
    · contradiction
    · cases h
      simp [heq]
  · next hne =>
    repeat' split at h
    all_goals first | contradiction | skip
    cases h
    simp [hne]

theorem judge_deliver (h : judge E (some vr) lbn bn = .deliver v) :
    bn.height ≠ lbn.height ∧ ∃ vr', v = some vr' ∧ Links E vr lbn.block.header vr' ∧
      Authentic E bn.block.header bn.block.receipts := by
  unfold judge at h
  split at h
  · split at h <;> contradiction
  · next hne =>
    simp only at h
    split at h
    · contradiction
    · next hverify =>
      split at h
      · contradiction
      · next vr' hupdate =>
        cases h
        obtain ⟨-, -, -, hauthentic⟩ := verify_ok hverify
        exact ⟨hne, vr', rfl, links_of_ok hverify hupdate, hauthentic⟩

def headers (bns : List (Notification (Block R))) : List Header := bns.map fun bn => bn.block.header

/-- The verifier has followed the blocks that were delivered, and the next one is that
which was fetched last. -/
structure Tracks (E : Ethereum R) (vr₀ : Verifier) (startHeight : ℕ) (s : State R) : Prop where
  path : ∃ vr, s.vr = some vr ∧ Path (Links E) vr₀ (headers s.delivered) vr
  heights : s.delivered.map Notification.height = List.range' startHeight s.delivered.length
  bounded : ∀ bn ∈ s.delivered, bn.height < 2 ^ 64
  first : s.running → s.lbn = none → s.delivered = [] ∧ s.next = startHeight
  last : s.running → ∀ lbn, s.lbn = some lbn → lbn.height = startHeight + s.delivered.length ∧
    lbn.height < 2 ^ 64 ∧ (s.next = lbn.height ∨ s.next = lbn.height + 1)

theorem Tracks.deliver (hs : Tracks E vr₀ startHeight s) (hrun : s.running) (hlbn : s.lbn = some lbn)
    (hjudge : judge E s.vr lbn bn = .deliver v) :
    (∃ vr, v = some vr ∧ Path (Links E) vr₀ (headers (s.delivered ++ [lbn])) vr) ∧
      (s.delivered ++ [lbn]).map Notification.height =
        List.range' startHeight (s.delivered ++ [lbn]).length ∧
      (∀ bn ∈ s.delivered ++ [lbn], bn.height < 2 ^ 64) ∧ bn.height ≠ lbn.height := by
  obtain ⟨vr, hvr, hpath⟩ := hs.path
  rw [hvr] at hjudge
  obtain ⟨hne, vr', rfl, hlink, -⟩ := judge_deliver hjudge
  obtain ⟨hheight, hlt, -⟩ := hs.last hrun lbn hlbn
  refine ⟨⟨vr', rfl, ?_⟩, ?_, ?_, hne⟩
  · rw [headers, map_append]
    exact hpath.snoc hlink
  · rw [map_append, hs.heights, length_append, length_singleton, range'_concat,
      one_mul]
    exact congrArg _ (congrArg (fun h => [h]) hheight)
  · intro bn hbn
    rcases mem_append.1 hbn with hbn | hbn
    · exact hs.bounded bn hbn
    · obtain rfl := mem_singleton.1 hbn
      exact hlt

theorem Tracks.round {Q : Notification (Block R) → Prop} (hlt : s.next + 1 < 2 ^ 64)
    (hrun : s.running) (hs : Tracks E vr₀ startHeight s) (h : Round (judge E) Q s s') :
    Tracks E vr₀ startHeight s' := by
  have hnext : uint64 (s.next + 1) = s.next + 1 := by rw [← Nat.cast_succ, uint64_of_lt hlt]
  cases h with
  | @first bn _ hheight hlbn =>
    obtain ⟨hdelivered, hstart⟩ := hs.first hrun hlbn
    refine ⟨hs.path, hs.heights, hs.bounded, by simp, fun _ lbn hlbn => ?_⟩
    cases hlbn
    refine ⟨?_, by omega, .inr (by rw [hnext, hheight])⟩
    simp [hheight, hstart, hdelivered]
  | @replace bn lbn _ hheight hlbn hjudge =>
    obtain ⟨hlast, hbound, -⟩ := hs.last hrun lbn hlbn
    have hsame := judge_replace hjudge
    refine ⟨hs.path, hs.heights, hs.bounded, by simp, fun _ lbn' hlbn' => ?_⟩
    cases hlbn'
    exact ⟨hsame.trans hlast, hsame ▸ hbound, .inr (by rw [hnext, hheight])⟩
  | @deliver bn lbn vr _ hheight hlbn hjudge =>
    obtain ⟨hpath, hheights, hbounded, hne⟩ := hs.deliver hrun hlbn hjudge
    obtain ⟨hlast, hbound, hnext'⟩ := hs.last hrun lbn hlbn
    refine ⟨hpath, hheights, hbounded, by simp, fun _ lbn' hlbn' => ?_⟩
    cases hlbn'
    refine ⟨?_, by omega, .inr (by rw [hnext, hheight])⟩
    simp only [length_append, length_singleton]
    omega

theorem Tracks.halt {Q : Notification (Block R) → Prop} (hrun : s.running)
    (hs : Tracks E vr₀ startHeight s) (h : Halt (judge E) Q s s') : Tracks E vr₀ startHeight s' := by
  cases h with
  | @drop bn lbn back _ hheight hlbn hjudge =>
    refine ⟨hs.path, hs.heights, hs.bounded, fun _ hnone => by simp [hlbn] at hnone, fun _ lbn' hlbn' => ?_⟩
    cases hlbn.symm.trans hlbn'
    obtain ⟨hlast, hbound, hnext⟩ := hs.last hrun lbn hlbn
    refine ⟨hlast, hbound, ?_⟩
    cases back with
    | false => exact hnext
    | true =>
      have hne := (judge_drop hjudge).1 rfl
      have hback : (s.next : ℤ) - 1 = lbn.height := by omega
      simp only [if_true, hback, uint64_of_lt hbound, true_or]
  | fail => exact ⟨hs.path, hs.heights, hs.bounded, by simp, by simp⟩
  | last _ _ hlbn hjudge =>
    obtain ⟨hpath, hheights, hbounded, -⟩ := hs.deliver hrun hlbn hjudge
    exact ⟨hpath, hheights, hbounded, by simp, by simp⟩

theorem step_tracks (hq : Queued s) (hs : Tracks E vr₀ startHeight s)
    (h : step E concurrency s e = .ok s') : Queued s' ∧ Tracks E vr₀ startHeight s' := by
  refine ⟨(loopStep_happens h).queued hq, ?_⟩
  refine loopStep_preserves (fun s s' hlt hrun hs hround => hs.round hlt hrun hround)
    (fun s s' _ hrun hs hhalt => hs.halt hrun hhalt) (fun s latest bnch hs => ?_) hq hs h
  exact ⟨hs.path, hs.heights, hs.bounded, hs.first, hs.last⟩

theorem start_tracks (vr : Verifier) :
    Tracks E vr startHeight.toNat (loopStart startHeight latest (some vr)) :=
  ⟨⟨vr, rfl, .nil⟩, rfl, by simp [loopStart], fun _ _ => ⟨rfl, rfl⟩, fun _ _ h => by simp [loopStart] at h⟩

theorem Setup.start_ok {c : Setup} (h : c.start E = .ok (s, verified)) :
    ∃ vr₀ vr, newVerifier c.chainID c.verifier c.header c.epochHeader = .ok vr₀ ∧
      Path (Links E) vr₀ verified vr ∧ vr.next = int64 c.startHeight.toNat ∧
      s = loopStart c.startHeight (latestHeight c.blockNumber) (some vr) := by
  simp only [Setup.start, bind_ok, pure_ok, Prod.exists, Prod.mk.injEq] at h
  obtain ⟨vr₀, hvr₀, vr, verified, hsync, rfl, rfl⟩ := h
  obtain ⟨hpath, hnext⟩ := syncVerifier_path hsync
  exact ⟨vr₀, vr, hvr₀, hpath, hnext, rfl⟩

theorem run_tracks {c : Setup} (hs : s = loopStart c.startHeight latest (some vr)) :
    Tracks E vr c.startHeight.toNat (run (step E c.concurrency) s es) := by
  refine (run_induct (P := fun s => Queued s ∧ Tracks E vr c.startHeight.toNat s)
    (fun s e s' hinv h => step_tracks hinv.1 hinv.2 h) ?_).2
  subst hs
  exact ⟨loopStart_queued, start_tracks vr⟩

theorem int64_nonneg {n : UInt64} (h : 0 ≤ int64 n.toNat) : int64 n.toNat = n.toNat := by
  have hlt := n.toNat_lt
  unfold int64 at h ⊢
  rw [Int.bmod_def] at h ⊢
  split
  · omega
  · next hge =>
    rw [if_neg hge] at h
    omega

theorem Links.next_nonneg (h : Links E vr header vr') : 0 ≤ vr.next := by
  rw [h.number]
  exact Int.natCast_nonneg _

theorem path_numbers {n : UInt64} (h : Path (Links E) vr₀ hs vr) (hn : vr₀.next = int64 n.toNat) :
    hs.map Header.number = List.range' n.toNat hs.length := by
  cases hs with
  | nil => rfl
  | cons header hs =>
    obtain ⟨vr', hlink, -⟩ := h.uncons
    rw [int64_nonneg (hn ▸ hlink.next_nonneg)] at hn
    exact (numbers h hn).1

theorem number_lt (h : Path (Links E) vr₀ hs vr) : ∀ header ∈ hs, (header.number : ℤ) < vr.next := by
  induction h with
  | nil => simp
  | @snoc hs vr header vr' _ hlink ih =>
    have hnext := hlink.updates.next
    have hnumber := hlink.number
    intro header' hmem
    rcases mem_append.1 hmem with hmem | hmem
    · have hlt := ih header' hmem
      omega
    · obtain rfl := mem_singleton.1 hmem
      omega

theorem path_chainID (h : Path (Links E) vr₀ hs vr) : vr.chainID = vr₀.chainID :=
  h.induct (P := fun vr => vr.chainID = vr₀.chainID) rfl
    fun _ _ _ hs hlink => hlink.updates.chainID.trans hs

theorem newVerifier_rotated (h : newVerifier chainID opts header epochHeader = .ok vr)
    (hinitial : getValidatorMapFromHex opts.validatorData = .ok initial) (hsized : Sized initial) :
    Rotated vr [(0, initial)] := by
  obtain ⟨-, hnext, -, hvalidators, hsince⟩ := newVerifier_ok h
  obtain rfl : initial = vr.validators := Except.ok.inj (hinitial.symm.trans hvalidators)
  refine ⟨hsized, fun e _ hle => ?_, .inl ⟨rfl, ?_⟩⟩ <;> omega

def sample : Ethereum ℕ where
  hash h := BitVec.ofNat 256 (1000 * h.number + h.receiptHash.toNat)
  sealHash _ _ := 0
  recover _ signature := signature.head?.map fun b => BitVec.ofNat 160 b.toNat
  createBloom receipts := BitVec.ofNat 2048 receipts.sum
  deriveSha receipts := BitVec.ofNat 256 receipts.sum
  uncleHash := 0

def sampleExtra (validators : List UInt8) (signer : UInt8) : Bytes :=
  List.replicate 32 0 ++ validators.flatMap (fun b => List.replicate 19 0 ++ [b]) ++
    signer :: List.replicate 64 0

def sampleHeader (number receipt : ℕ) : Header where
  parentHash := BitVec.ofNat 256 (1000 * (number - 1) + (receipt - 1))
  uncleHash := 0
  coinbase := 7
  root := 0
  txHash := 0
  receiptHash := BitVec.ofNat 256 receipt
  bloom := BitVec.ofNat 2048 receipt
  difficulty := some 2
  number
  gasLimit := 100000
  gasUsed := 1
  time := 0
  extra := sampleExtra [] 7
  mixDigest := 0
  nonce := 0

def sampleSetup (startHeight : UInt64) : Setup where
  chainID := 56
  syncConcurrency := 3
  verifier := { blockHeight := 1, blockHash := 0, validatorData := sampleExtra [7, 8] 7 }
  startHeight
  header := some (sampleHeader 1 1)
  epochHeader := some { sampleHeader 0 0 with extra := sampleExtra [7, 8] 7 }
  rounds := [fun h _ => some (sampleHeader h.toNat h.toNat)]
  blockNumber := some 20

def sampleState : State ℕ :=
  loopStart 2 10 (some {
    chainID := 56
    next := 2
    parentHash := 1001
    validators := {7, 8}
    prevValidators := ∅
    useNewValidatorsFromHeight := 1 })

def sampleAnswers (h _ : ℕ) : Answers ℕ where
  header := some (sampleHeader h h)
  hasBTPMessage := some true
  receipts := some [h]

def following : List (Event ℕ) := [.fetch sampleAnswers, .take fun _ => true]

/-- The first notification in the channel, if it is kept without being judged: there is
none before it, or it is fetched in place of the last one. -/
def unjudged (s : State R) : Option (Notification (Block R)) :=
  s.bnch.head?.filter fun bn => s.lbn.all fun lbn => bn.height = lbn.height

/-- The receipts of a notification that is not judged are those of its header. -/
def Vouched (E : Ethereum R) (s : State R) : Event R → Prop
  | .take _ => ∀ bn ∈ unjudged s, Authentic E bn.block.header bn.block.receipts
  | _ => True

instance [DecidableEq R] : Decidable (Authentic E header receipts) :=
  inferInstanceAs (Decidable (_ ∨ _ ∧ _))

instance [DecidableEq R] : ∀ e, Decidable (Vouched E s e)
  | .take _ => inferInstanceAs (Decidable (∀ bn ∈ unjudged s, _))
  | .tick | .poll _ | .fetch _ => .isTrue trivial

/-- The receipts of every block that was delivered, and of the next one, are checked. -/
structure Checked (E : Ethereum R) (s : State R) : Prop where
  delivered : ∀ bn ∈ s.delivered, Authentic E bn.block.header bn.block.receipts
  lbn : ∀ lbn, s.lbn = some lbn → Authentic E lbn.block.header lbn.block.receipts

theorem Checked.deliver (hs : Checked E s) (hlbn : s.lbn = some lbn) :
    ∀ bn ∈ s.delivered ++ [lbn], Authentic E bn.block.header bn.block.receipts := by
  intro bn hbn
  rcases mem_append.1 hbn with hbn | hbn
  · exact hs.delivered bn hbn
  · obtain rfl := mem_singleton.1 hbn
    exact hs.lbn bn hlbn

theorem process_checked (hq : Queued s) (hrun : s.running) (htracks : Tracks E vr₀ startHeight s)
    (hs : Checked E s) (hvouched : ∀ bn ∈ unjudged s, Authentic E bn.block.header bn.block.receipts) :
    Checked E (process (judge E) callback s s.bnch) := by
  -- only the first notification is kept without being judged
  have hfirst (bn : Notification (Block R)) (hbn : bn ∈ s.bnch) (hheight : bn.height = s.next)
      (hkept : ∀ lbn, s.lbn = some lbn → bn.height = lbn.height) :
      Authentic E bn.block.header bn.block.receipts := by
    refine hvouched bn ?_
    cases hbnch : s.bnch with
    | nil => simp [hbnch] at hbn
    | cons bn' bns =>
      have hconsecutive := hq.bnch
      rw [hbnch] at hconsecutive hbn
      obtain ⟨hheight', -, hbns⟩ := Consecutive.cons_iff.1 hconsecutive
      have hhead : bn = bn' := by
        rcases mem_cons.1 hbn with rfl | hbn
        · rfl
        · have hmem : bn.height ∈ bns.map Notification.height := mem_map_of_mem hbn
          rw [hbns.1, mem_range'_1] at hmem
          omega
      subst hhead
      rw [unjudged, hbnch]
      cases hlbn : s.lbn with
      | none => simp
      | some lbn => simp [hkept lbn hlbn]
  refine process_induct (Q := (· ∈ s.bnch))
    (P := fun t => Tracks E vr₀ startHeight t ∧ Checked E t ∧
      (t.next = s.next ∧ t.lbn = s.lbn ∨ ∃ lbn, t.lbn = some lbn ∧ lbn.height < t.next))
    (R := Checked E) (fun t t' hlt hrun ht hround => ?_) (fun t t' hlt hrun ht hhalt => ?_)
    (fun t ht => ⟨ht.2.1.delivered, ht.2.1.lbn⟩) (fun _ hbn => hbn) hq.bnch hrun
    ⟨htracks, hs, .inl ⟨rfl, rfl⟩⟩
  · obtain ⟨ht, hchecked, hplace⟩ := ht
    refine ⟨ht.round hlt hrun hround, ?_⟩
    have hnext : uint64 (t.next + 1) = t.next + 1 := by rw [← Nat.cast_succ, uint64_of_lt hlt]
    cases hround with
    | @first bn hbn hheight hlbn =>
      obtain ⟨hsame, hlbn'⟩ : t.next = s.next ∧ t.lbn = s.lbn := by
        rcases hplace with hplace | ⟨lbn, hsome, -⟩
        · exact hplace
        · cases hlbn.symm.trans hsome
      refine ⟨⟨hchecked.delivered, fun lbn heq => ?_⟩, .inr ⟨bn, rfl, by simp only [hnext]; omega⟩⟩
      cases heq
      refine hfirst bn hbn (hheight.trans hsame) fun lbn hsome => ?_
      cases hlbn.symm.trans (hlbn'.trans hsome)
    | @replace bn lbn hbn hheight hlbn hjudge =>
      have hagain := judge_replace hjudge
      obtain ⟨hsame, hlbn'⟩ : t.next = s.next ∧ t.lbn = s.lbn := by
        rcases hplace with hplace | ⟨lbn', hsome, hlt'⟩
        · exact hplace
        · cases hlbn.symm.trans hsome
          omega
      refine ⟨⟨hchecked.delivered, fun lbn heq => ?_⟩, .inr ⟨bn, rfl, by simp only [hnext]; omega⟩⟩
      cases heq
      refine hfirst bn hbn (hheight.trans hsame) fun lbn' hsome => ?_
      cases hlbn.symm.trans (hlbn'.trans hsome)
      exact hagain
    | @deliver bn lbn vr hbn hheight hlbn hjudge =>
      obtain ⟨vr', hvr, -⟩ := ht.path
      rw [hvr] at hjudge
      obtain ⟨-, -, -, -, hauthentic⟩ := judge_deliver hjudge
      refine ⟨⟨hchecked.deliver hlbn, fun lbn' heq => ?_⟩, .inr ⟨bn, rfl, by simp only [hnext]; omega⟩⟩
      cases heq
      exact hauthentic
  · obtain ⟨-, hchecked, -⟩ := ht
    cases hhalt with
    | drop | fail => exact ⟨hchecked.delivered, hchecked.lbn⟩
    | last _ _ hlbn => exact ⟨hchecked.deliver hlbn, hchecked.lbn⟩

theorem step_checked (hq : Queued s) (htracks : Tracks E vr₀ startHeight s) (hs : Checked E s)
    (hvouched : Vouched E s e) (h : step E concurrency s e = .ok s') : Checked E s' := by
  have hhappens := loopStep_happens h
  cases e with
  | take callback =>
    cases hhappens with
    | take _ hrun => exact process_checked hq hrun htracks hs hvouched
  | tick | fetch =>
    cases hhappens
    exact ⟨hs.delivered, hs.lbn⟩
  | poll =>
    cases hhappens with
    | poll => exact ⟨hs.delivered, hs.lbn⟩
    | idle => exact hs

/-- The receipts that are delivered are none, or those of the header they are delivered
with, provided that those of blocks that are not judged are. The header is the parent
of one that was sealed by a validator in force. -/
theorem delivers_authentic (E : Ethereum R) (c : Setup) (es : List (Event R)) (s : State R)
    (verified : List Header) (hstart : c.start E = .ok (s, verified))
    (hvouched : Along (step E c.concurrency) (Vouched E) s es) (before after : List _)
    (bn : Notification (Block R))
    (hbn : (run (step E c.concurrency) s es).delivered = before ++ bn :: after) :
    Authentic E bn.block.header bn.block.receipts ∧
    ∃ vr₀ vr nextHeader, newVerifier c.chainID c.verifier c.header c.epochHeader = .ok vr₀ ∧
      Path (Links E) vr₀ (verified ++ headers before) vr ∧ Sealed E vr bn.block.header nextHeader := by
  obtain ⟨vr₀, vr₁, hvr₀, hpath₁, -, hs⟩ := Setup.start_ok hstart
  have hinv : (Queued (run (step E c.concurrency) s es) ∧
      Tracks E vr₁ c.startHeight.toNat (run (step E c.concurrency) s es)) ∧
      Checked E (run (step E c.concurrency) s es) := by
    refine run_along (P := fun s => (Queued s ∧ Tracks E vr₁ c.startHeight.toNat s) ∧ Checked E s)
      (fun s e s' hinv ha h => ?_) ?_ hvouched
    · exact ⟨step_tracks hinv.1.1 hinv.1.2 h, step_checked hinv.1.1 hinv.1.2 hinv.2 ha h⟩
    · subst hs
      exact ⟨⟨loopStart_queued, start_tracks vr₁⟩, by simp [loopStart], by simp [loopStart]⟩
  refine ⟨hinv.2.delivered bn (by rw [hbn]; simp), ?_⟩
  obtain ⟨vr, -, hpath⟩ := hinv.1.2.path
  rw [hbn, headers, map_append, map_cons] at hpath
  obtain ⟨t, t', hbefore, hlink, -⟩ := hpath.split rfl
  obtain ⟨nextHeader, hsealed⟩ := hlink.sealed
  exact ⟨vr₀, t, nextHeader, hvr₀, hpath₁.append hbefore, hsealed⟩

theorem following_authentic :
    Authentic sample (sampleHeader 2 2) [2] := by
  have hrun : (run (step sample (sampleSetup 2).concurrency) sampleState following).delivered =
      [] ++ { height := 2, block := { header := sampleHeader 2 2, receipts := [2] } } ::
        [{ height := 3, block := { header := sampleHeader 3 3, receipts := [3] } }] := by decide +kernel
  exact (delivers_authentic sample (sampleSetup 2) following sampleState [sampleHeader 1 1]
    (by decide +kernel) (by decide +kernel) [] _ _ hrun).1

def inventing : List (Event ℕ) :=
  [.fetch fun h k => if h = 2 then { sampleAnswers h k with receipts := some [1000] } else sampleAnswers h k,
   .take fun _ => true]

/-- The first block is delivered with receipts that its header does not have. -/
theorem inventing_delivered :
    (sampleSetup 2).start sample = .ok (sampleState, [sampleHeader 1 1]) ∧
    ∃ bn ∈ (run (step sample (sampleSetup 2).concurrency) sampleState inventing).delivered,
      ¬ Authentic sample bn.block.header bn.block.receipts := by
  decide +kernel

end IconBridge.Go.Bsc
