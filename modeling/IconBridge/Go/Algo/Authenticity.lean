import IconBridge.Lib.Path
import IconBridge.Go.Algo.Receiver

/-!
# What the Algorand receiver emits

The headers are chained, from the hash that the node tells when the receiver is
made. The transactions of a block are not compared with its header.
-/

namespace IconBridge.Go.Algo

open Lib Algorand List
open Algorand.Relay (Float64 LinkStatus smallNumbers)

variable {C : Hashing} {f : Float64} {c : Config} {s s' : State} {trusted : Hash} {round : UInt64}

def Relays (c : Config) (innerTxn : InnerTxn) (event : Event) : Prop :=
  ∃ txnLog target message txSeq, messageLog c innerTxn = some txnLog ∧
    innerTxn.applicationArgs[1]? = some target ∧ innerTxn.applicationArgs[3]? = some message ∧
    destinationOf target = utf8 c.dst ∧
    event = { next := c.dst, sequence := txSeq
              message := encodeBMCMessage (utf8 c.src) (utf8 c.dst) txnLog txSeq message }

theorem appArg_ok (h : outcome (appArg appArgs i) p = (.ok arg, p')) : appArgs[i]? = some arg := by
  unfold appArg at h
  split at h
  · next harg =>
    obtain ⟨rfl, -⟩ := outcome_pure_ok.1 h
    exact harg
  · simp at h

theorem getEventFromMsg_ok
    (h : outcome (getEventFromMsg c faults txnLog appArgs) p = (.ok event, p')) :
    ∃ target message txSeq, appArgs[1]? = some target ∧ appArgs[3]? = some message ∧
      destinationOf target = utf8 c.dst ∧
      event = { next := c.dst, sequence := txSeq
                message := encodeBMCMessage (utf8 c.src) (utf8 c.dst) txnLog txSeq message } := by
  simp only [getEventFromMsg, outcome_bind_ok] at h
  obtain ⟨target, p₁, htarget, _, p₂, -, link, p₃, -, message, p₄, hmessage, h⟩ := h
  split at h
  · next hdst =>
    obtain ⟨rfl, -⟩ := outcome_pure_ok.1 h
    exact ⟨target, message, _, appArg_ok htarget, appArg_ok hmessage, hdst, by rw [hdst]⟩
  · simp at h

theorem getEvents_relays (h : outcome (getEvents f c faults round innerTxn) p = (.ok events, p')) :
    ∀ event ∈ events, Relays c innerTxn event := by
  unfold getEvents at h
  split at h
  · obtain ⟨rfl, -⟩ := outcome_pure_ok.1 h
    simp
  · next txnLog hlog =>
    simp only [outcome_bind_ok] at h
    obtain ⟨_, _, -, _, _, -, _, _, -, _, _, -, event, _, hevent, q, _, -, h⟩ := h
    split at h
    · simp only [outcome_bind_ok, outcome_pure_ok] at h
      obtain ⟨_, _, -, rfl, -⟩ := h
      obtain ⟨target, message, txSeq, htarget, hmessage, hdst, rfl⟩ := getEventFromMsg_ok hevent
      intro event hmem
      obtain rfl := mem_singleton.1 hmem
      exact ⟨txnLog, target, message, txSeq, hlog, htarget, hmessage, hdst, rfl⟩
    · simp at h

theorem scan_relays (h : outcome (scan f c faults round index innerTxns) p = (.ok receipts, p')) :
    ∀ receipt ∈ receipts, ∀ event ∈ receipt.events, ∃ innerTxn ∈ innerTxns,
      Relays c innerTxn event := by
  induction innerTxns generalizing index p receipts with
  | nil =>
    obtain ⟨rfl, -⟩ := outcome_pure_ok.1 h
    simp
  | cons innerTxn innerTxns ih =>
    simp only [scan, outcome_bind_ok, outcome_pure_ok] at h
    obtain ⟨events, q, hevents, rest, q', hrest, rfl, rfl⟩ := h
    intro receipt hreceipt event hevent
    rcases mem_cons.1 hreceipt with rfl | hreceipt
    · exact ⟨innerTxn, mem_cons_self, getEvents_relays hevents event hevent⟩
    · obtain ⟨t, ht, hrelays⟩ := ih hrest receipt hreceipt event hevent
      exact ⟨t, mem_cons_of_mem _ ht, hrelays⟩

def Contains (c : Config) (block : Block) (event : Event) : Prop :=
  ∃ txn ∈ block.payset, ∃ innerTxn ∈ txn.innerTxns, Relays c innerTxn event

theorem getRelayReceipts_contains
    (h : outcome (getRelayReceipts f c faults block) p = (.ok receipts, p')) :
    ∀ receipt ∈ receipts, ∀ event ∈ receipt.events, Contains c block event := by
  intro receipt hreceipt event hevent
  obtain ⟨innerTxn, hmem, hrelays⟩ := scan_relays h receipt hreceipt event hevent
  obtain ⟨txn, htxn, hinner⟩ := mem_flatMap.1 hmem
  exact ⟨txn, htxn, innerTxn, hinner, hrelays⟩

/-- The header commits to the transactions that the block comes with. -/
def Commits (C : Hashing) (block : Block) : Prop :=
  C.commitment block.payset = block.header.txnCommitment

instance : Decidable (Commits C block) := inferInstanceAs (Decidable (_ = _))

def Follows (C : Hashing) (blockHash : Hash) (block : Block) (blockHash' : Hash) : Prop :=
  block.header.branch = blockHash ∧ blockHash' = C.encodeBlockHash block.header

def Reached (C : Hashing) (trusted : Hash) (accepted : List Block) (blockHash : Hash) : Prop :=
  ∃ chain, Path (Follows C) trusted chain blockHash ∧ ∀ b ∈ chain, b ∈ accepted

/-- The event comes from a transaction that is committed to by the last header of a hash
chain. -/
def Authentic (C : Hashing) (c : Config) (trusted : Hash) (accepted : List Block) (event : Event) :
    Prop :=
  ∃ before block, (∀ b ∈ before ++ [block], b ∈ accepted) ∧
    Linked (fun b => b.header.branch) (fun b => C.encodeBlockHash b.header) trusted
      (before ++ [block]) ∧
    Commits C block ∧ Contains c block event

theorem Reached.mono (h : Reached C trusted accepted blockHash) (block : Block) :
    Reached C trusted (accepted ++ [block]) blockHash := by
  obtain ⟨chain, hpath, hmem⟩ := h
  exact ⟨chain, hpath, fun b hb => mem_append_left _ (hmem b hb)⟩

theorem Authentic.mono (h : Authentic C c trusted accepted event) (block : Block) :
    Authentic C c trusted (accepted ++ [block]) event := by
  obtain ⟨before, b, hmem, h⟩ := h
  exact ⟨before, b, fun b hb => mem_append_left _ (hmem b hb), h⟩

theorem Reached.step (h : Reached C trusted accepted block.header.branch)
    (hmem : block ∈ accepted) :
    Reached C trusted accepted (C.encodeBlockHash block.header) := by
  obtain ⟨chain, hpath, hchain⟩ := h
  refine ⟨chain ++ [block], hpath.snoc ⟨rfl, rfl⟩, fun b hb => ?_⟩
  rcases mem_append.1 hb with hb | hb
  · exact hchain b hb
  · exact mem_singleton.1 hb ▸ hmem

theorem Reached.authentic (h : Reached C trusted accepted block.header.branch)
    (hmem : block ∈ accepted) (hcommits : Commits C block) (hcontains : Contains c block event) :
    Authentic C c trusted accepted event := by
  obtain ⟨chain, hpath, hchain⟩ := h
  refine ⟨chain, block, fun b hb => ?_, ?_, hcommits, hcontains⟩
  · rcases mem_append.1 hb with hb | hb
    · exact hchain b hb
    · exact mem_singleton.1 hb ▸ hmem
  · have hsnoc : Path (Follows C) trusted (chain ++ [block]) (C.encodeBlockHash block.header) :=
      hpath.snoc ⟨rfl, rfl⟩
    change Chained _ _ (id trusted) _
    exact hsnoc.chained fun _ _ _ h => h

theorem Authentic.anchored (h : Authentic C c trusted accepted event) :
    ∃ b ∈ accepted, b.header.branch = trusted := by
  obtain ⟨before, block, hmem, hlinked, -⟩ := h
  cases before with
  | nil => exact ⟨block, hmem block (by simp), hlinked.1⟩
  | cons b before => exact ⟨b, hmem b (by simp), hlinked.1⟩

theorem Authentic.committed (h : Authentic C c trusted accepted event) :
    ∃ b ∈ accepted, Commits C b := by
  obtain ⟨before, block, hmem, -, hcommits, -⟩ := h
  exact ⟨block, hmem block (by simp), hcommits⟩

def State.inspected (s : State) (i : ℕ) : Option Block := do
  let l ← s.loops[i]?
  match l.pc with
  | .matched round block => if l.subOpts.height < round then some block else none
  | _ => none

/-- A block is inspected only with the transactions that its header commits to. -/
def Committed (C : Hashing) (s : State) : Act → Prop
  | .inspect i _ => ∀ block ∈ s.inspected i, Commits C block
  | _ => True

instance : ∀ a, Decidable (Committed C s a)
  | .inspect _ _ => inferInstanceAs (Decidable (∀ block ∈ _, Commits C block))
  | .subscribe .. | .poll .. | .ask _ | .answer .. | .cancel _ | .write _ => .isTrue trivial

/-- A block that a loop is about to follow is on top of one that was reached. -/
def Grounded (C : Hashing) (trusted : Hash) (accepted : List Block) (l : Loop) : Prop :=
  ∀ round block, l.pc = .matched round block →
    block ∈ accepted ∧ Reached C trusted accepted block.header.branch

structure Sound (C : Hashing) (c : Config) (trusted : Hash) (s : State) : Prop where
  reached : Reached C trusted s.accepted s.vr.blockHash
  grounded : ∀ l ∈ s.loops, Grounded C trusted s.accepted l
  authentic : ∀ receipts ∈ s.msgCh, ∀ receipt ∈ receipts, ∀ event ∈ receipt.events,
    Authentic C c trusted s.accepted event

theorem Grounded.mono (h : Grounded C trusted accepted l) (block : Block) :
    Grounded C trusted (accepted ++ [block]) l := by
  intro round b hpc
  obtain ⟨hmem, hreached⟩ := h round b hpc
  exact ⟨mem_append_left _ hmem, hreached.mono block⟩

theorem grounded_ready (h : l.pc = .ready) : Grounded C trusted accepted l := by
  intro round block hpc
  simp [h] at hpc

theorem Sound.setLoop (hs : Sound C c trusted s) (hl : Grounded C trusted s.accepted l) :
    Sound C c trusted (s.setLoop i l) := by
  refine ⟨hs.reached, fun m hm => ?_, hs.authentic⟩
  rcases mem_or_eq_of_mem_set hm with hm | rfl
  · exact hs.grounded m hm
  · exact hl

theorem Sound.fail (hs : Sound C c trusted s) (e : Failure) : Sound C c trusted (s.fail e) :=
  ⟨hs.reached, hs.grounded, hs.authentic⟩

theorem compare_sound (hs : Sound C c trusted s) (answer : Option Block) :
    Sound C c trusted (s.compare i l round answer) := by
  cases answer with
  | none => exact (hs.setLoop (grounded_ready rfl)).fail _
  | some block =>
    simp only [State.compare]
    split
    · next hbranch =>
      have hgrown : Sound C c trusted { s with accepted := s.accepted ++ [block] } :=
        ⟨hs.reached.mono block, fun l hl => (hs.grounded l hl).mono block,
          fun _ h _ h' _ h'' => (hs.authentic _ h _ h' _ h'').mono block⟩
      refine hgrown.setLoop fun round' block' hpc => ?_
      obtain ⟨-, rfl⟩ := Pc.matched.inj hpc
      exact ⟨by simp, hbranch ▸ hs.reached.mono block⟩
    · exact (hs.setLoop (grounded_ready rfl)).fail _

theorem deliver_sound (hs : Sound C c trusted s)
    (hresult : ∀ receipts, result = .ok receipts → ∀ receipt ∈ receipts,
      ∀ event ∈ receipt.events, Authentic C c trusted s.accepted event) :
    Sound C c trusted (s.deliver i l (result, p)) := by
  have hready : Sound C c trusted
      { s.setLoop i { l with pc := .ready, subOpts.seq := p.seq } with status := p.status } := by
    have h := hs.setLoop (i := i) (l := { l with pc := .ready, subOpts.seq := p.seq })
      (grounded_ready rfl)
    exact ⟨h.reached, h.grounded, h.authentic⟩
  simp only [State.deliver]
  split
  · exact hready
  · next receipts _ =>
    refine ⟨hready.reached, hready.grounded, fun receipts' hmem => ?_⟩
    rcases mem_append.1 hmem with hmem | hmem
    · exact hs.authentic receipts' hmem
    · exact mem_singleton.1 hmem ▸ hresult receipts rfl
  · exact ⟨hready.reached, hready.grounded, hready.authentic⟩
  · exact hready.fail _

theorem inspect_sound (hs : Sound C c trusted s) (hl : s.loops[i]? = some l)
    (hpc : l.pc = .matched round block) (hcommitted : Committed C s (.inspect i faults)) :
    Sound C c trusted (s.inspect C f c i l round block faults) := by
  obtain ⟨hmem, hreached⟩ := hs.grounded l (mem_of_getElem? hl) round block hpc
  have hadvance : Sound C c trusted (s.advance C block) :=
    ⟨hreached.step hmem, hs.grounded, hs.authentic⟩
  simp only [State.inspect]
  split
  · exact hadvance.setLoop (grounded_ready rfl)
  · next hheight =>
    have hcommits : Commits C block := by
      apply hcommitted
      simp [State.inspected, hl, hpc, UInt64.not_le.1 hheight]
    refine deliver_sound hadvance fun receipts hok receipt hreceipt event hevent => ?_
    exact hreached.authentic hmem hcommits
      (getRelayReceipts_contains (Prod.ext hok rfl) receipt hreceipt event hevent)

theorem step_sound (hs : Sound C c trusted s) (hcommitted : Committed C s a)
    (h : step C f c s a = .ok s') : Sound C c trusted s' := by
  simp only [step, bind_ok] at h
  obtain ⟨_, -, h⟩ := h
  cases a with
  | subscribe subOpts latestRound =>
    obtain rfl := pure_ok.1 h
    refine ⟨hs.reached, fun l hl => ?_, hs.authentic⟩
    rcases mem_append.1 hl with hl | hl
    · exact hs.grounded l hl
    · exact grounded_ready (by rw [mem_singleton.1 hl])
  | poll i latestRound error =>
    simp only [bind_ok, expect_ok, require_ok, decide_eq_true_eq, pure_ok] at h
    obtain ⟨l, hl, _, ⟨hpc, -⟩, rfl⟩ := h
    have hset : Sound C c trusted (s.setLoop i { l with latestRound }) :=
      hs.setLoop (grounded_ready hpc)
    cases error with
    | none => exact hset
    | some error => exact hset.fail _
  | ask i =>
    simp only [bind_ok, expect_ok, require_ok, pure_ok] at h
    obtain ⟨l, hl, _, -, rfl⟩ := h
    exact hs.setLoop fun round block hpc => by simp at hpc
  | answer i answers =>
    simp only [bind_ok, expect_ok] at h
    obtain ⟨l, hl, h⟩ := h
    split at h
    · obtain rfl := pure_ok.1 h
      exact compare_sound hs _
    · simp at h
  | inspect i faults =>
    simp only [bind_ok, expect_ok] at h
    obtain ⟨l, hl, h⟩ := h
    split at h
    · next hpc =>
      obtain rfl := pure_ok.1 h
      exact inspect_sound hs hl hpc hcommitted
    · simp at h
  | cancel i =>
    simp only [bind_ok, expect_ok, require_ok, pure_ok] at h
    obtain ⟨l, hl, _, -, rfl⟩ := h
    refine (hs.setLoop fun round block hpc => ?_).fail _
    simp at hpc
  | write status =>
    obtain rfl := pure_ok.1 h
    exact ⟨hs.reached, hs.grounded, hs.authentic⟩

/-- Every event comes from a transaction that a header commits to, in a hash chain on top of the
hash in the options. -/
theorem emits_authentic (C : Hashing) (f : Float64) (c : Config) (trusted : Hash)
    (htrusted : C.decodeHash c.verifier.blockHash = some trusted)
    (getBlockHash : UInt64 → Option String) (vr : Verifier)
    (hvr : newReceiver C c getBlockHash = .ok vr)
    (hnode : ∀ hashStr ∈ getBlockHash (c.verifier.round - 1),
      C.decodeHash hashStr = C.decodeHash c.verifier.blockHash)
    (status : LinkStatus) (acts : List Act)
    (hcommitted : Along (step C f c) (Committed C) (start vr status) acts) :
    let s := run (step C f c) (start vr status) acts
    ∀ receipts ∈ s.msgCh, ∀ receipt ∈ receipts, ∀ event ∈ receipt.events,
      Authentic C c trusted s.accepted event := by
  have hblockHash : vr.blockHash = trusted := by
    simp only [newReceiver, bind_ok, expect_ok, pure_ok] at hvr
    obtain ⟨hashStr, hhashStr, blockHash, hdecode, rfl⟩ := hvr
    rw [hnode hashStr hhashStr, htrusted] at hdecode
    exact (Option.some.inj hdecode).symm
  have hstart : Sound C c trusted (start vr status) :=
    ⟨⟨[], hblockHash ▸ .nil, by simp⟩, by simp [start], by simp [start]⟩
  exact (run_along (fun s a s' hs ha h => step_sound hs ha h) hstart hcommitted).authentic

def sample : Hashing where
  encodeBlockHash header := copyHash (UInt8.ofNat header.rest :: header.branch.1)
  commitment payset := copyHash (payset.map fun txn => UInt8.ofNat txn.rest)
  decodeString
    | "AE" => some [1]
    | "AI" => some [2]
    | _ => none

def sampleConfig : Config where
  src := "btp://0x14.algo/0x01"
  dst := "btp://0x1.icon/cx01"
  appID := 7
  verifier := { round := 5, blockHash := "AE" }

def sampleBlock (branch txnCommitment : UInt8) : Block where
  header := {
    round := 5
    branch := copyHash [branch]
    txnCommitment := copyHash [txnCommitment]
    rest := 0 }
  payset := [{
    innerTxns := [{
      applicationID := 7
      applicationArgs := [[], utf8 "btp://0x1.icon/cx01", [], [9]]
      logs := [utf8 "bts"]
      rest := 0 }]
    rest := 3 }]

def sampleEvent : Event where
  next := "btp://0x1.icon/cx01"
  sequence := 1
  message := encodeBMCMessage (utf8 "btp://0x14.algo/0x01") (utf8 "btp://0x1.icon/cx01")
    (utf8 "bts") 1 [9]

def inspecting (block : Block) : List Act :=
  [.subscribe { seq := 0, height := 0 } 9, .ask 0, .answer 0 [none, some block],
   .inspect 0 fun _ _ => none]

def sampleRun (hash : Hash) (block : Block) : State :=
  run (step sample smallNumbers sampleConfig) (start { round := 5, blockHash := hash } fun _ => 0)
    (inspecting block)

theorem committed_block_authentic :
    Authentic sample sampleConfig (copyHash [1]) [sampleBlock 1 3] sampleEvent :=
  emits_authentic sample smallNumbers sampleConfig (copyHash [1]) (by decide +kernel)
    (fun _ => some "AE") { round := 5, blockHash := copyHash [1] } (by decide +kernel)
    (by decide +kernel) (fun _ => 0) (inspecting (sampleBlock 1 3)) (by decide +kernel)
    [{ index := 0, events := [sampleEvent], height := 5 }] (by decide +kernel)
    { index := 0, events := [sampleEvent], height := 5 } (by decide +kernel) sampleEvent
    (by decide +kernel)

/-- An event is delivered from a chain that is not on top of the configured block, if the node
tells another hash, and from transactions that no header commits to. -/
theorem invented_delivered :
    newReceiver sample sampleConfig (fun _ => some "AI") =
      .ok { round := 5, blockHash := copyHash [2] } ∧
    (sampleRun (copyHash [2]) (sampleBlock 2 3)).msgCh =
      [[{ index := 0, events := [sampleEvent], height := 5 }]] ∧
    ¬ Authentic sample sampleConfig (copyHash [1])
      (sampleRun (copyHash [2]) (sampleBlock 2 3)).accepted sampleEvent ∧
    newReceiver sample sampleConfig (fun _ => some "AE") =
      .ok { round := 5, blockHash := copyHash [1] } ∧
    (sampleRun (copyHash [1]) (sampleBlock 1 4)).msgCh =
      [[{ index := 0, events := [sampleEvent], height := 5 }]] ∧
    ¬ Authentic sample sampleConfig (copyHash [1])
      (sampleRun (copyHash [1]) (sampleBlock 1 4)).accepted sampleEvent := by
  refine ⟨by decide +kernel, by decide +kernel, fun h => ?_, by decide +kernel, by decide +kernel,
    fun h => ?_⟩
  · have hanchored := h.anchored
    revert hanchored
    decide +kernel
  · have hcommitted := h.committed
    revert hcommitted
    decide +kernel

end IconBridge.Go.Algo
