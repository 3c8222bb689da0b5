import IconBridge.Go.Algo.Completeness

/-!
# Numbers of messages over restarts

A message gets its number from the status file, which is counted up whenever a
message is seen. A restarted relay begins again at the configured round, passes
over the rounds that the destination has, and goes on with the file as it is.
-/

namespace IconBridge.Go.Algo

open Lib Algorand List
open Algorand.Relay (Float64 LinkStatus smallNumbers)

structure Chain where
  header : UInt64 → BlockHeader
  txns : UInt64 → List Txn
  round_header : ∀ round, (header round).round = round

def Chain.block (chain : Chain) (round : UInt64) : Block :=
  blockOf (chain.header round) (chain.txns round)

def Chain.messages (chain : Chain) (c : Config) (round : ℕ) : List Txn :=
  (List.range round).flatMap fun r => messageCalls c (chain.txns (UInt64.ofNat r))

/-- A receiver with its subscription and the status file. `rxSeq` is what the
destination had at the start, `emitted` what was handed to the relay since. -/
structure Session where
  round : UInt64
  height : UInt64
  progress : Progress
  rxSeq : UInt64
  emitted : List Event := []
  failure : Option ScanError := none

inductive SessionAct
  /-- A new receiver is made and `Start` subscribes with the status of the
  destination. -/
  | restart (rxSeq rxHeight : UInt64)
  /-- The loop takes the next block. -/
  | inspect (latestRound : UInt64)
  /-- The sender of the other direction writes the file. -/
  | write (status : LinkStatus)

def Session.inspect (f : Float64) (c : Config) (s : Session) (block : Block) : Session :=
  if s.round ≤ s.height then { s with round := s.round + 1 }
  else
    match outcome (getRelayReceipts f c (fun _ _ => none) block) s.progress with
    | (.ok receipts, p) =>
      { s with
        round := s.round + 1
        progress := p
        emitted := s.emitted ++ receipts.flatMap Receipt.events }
    | (.error e, p) => { s with round := s.round + 1, progress := p, failure := some e }

/-- `offset` is the height that the relay is configured to start behind. -/
def Session.restart (c : Config) (offset : UInt64) (s : Session) (rxSeq rxHeight : UInt64) :
    Session where
  round := c.verifier.round
  height := max rxHeight offset
  progress := { seq := rxSeq + 1, status := s.progress.status }
  rxSeq

def Session.step (f : Float64) (c : Config) (offset : UInt64) (chain : Chain) (s : Session) :
    SessionAct → Except Unit Session
  | .restart rxSeq rxHeight => .ok (s.restart c offset rxSeq rxHeight)
  | .inspect latestRound => do
    require (s.failure ≠ some .panic ∧ s.round < latestRound) ()
    return s.inspect f c (chain.block s.round)
  | .write status => .ok { s with progress := { seq := s.progress.seq, status } }

def firstRound (c : Config) (height : UInt64) : ℕ := max (height.toNat + 1) c.verifier.round.toNat

/-- At a restart the file and the destination have the number of messages of
the rounds that are passed over. Every message of a block that is inspected is
found, and the sender does not touch the number. -/
def InStep (c : Config) (offset : UInt64) (chain : Chain) (s : Session) : SessionAct → Prop
  | .restart rxSeq rxHeight =>
    s.progress.status .txSeq = rxSeq.toNat ∧
    rxSeq.toNat = (chain.messages c (firstRound c (max rxHeight offset))).length ∧
    rxSeq.toNat < 2 ^ 53
  | .inspect _ =>
    (∀ t ∈ unseen (chain.txns s.round), ¬ IsMessage c t) ∧
    (∀ t ∈ messageCalls c (chain.txns s.round), Addressed c t) ∧
    s.progress.status .txSeq + (messageCalls c (chain.txns s.round)).length ≤ 2 ^ 53
  | .write status => status .txSeq = s.progress.status .txSeq

structure Session.Models (r : Session) (latestRound : UInt64) (s : State) : Prop where
  alive : s.crashed = false
  round : s.vr.round = r.round
  status : s.status = r.progress.status
  loops : s.loops =
    [{ pc := .ready, latestRound, subOpts := { seq := r.progress.seq, height := r.height } }]
  emitted : s.msgCh.flatMap (fun receipts => receipts.flatMap Receipt.events) = r.emitted

theorem Session.restart_models (C : Hashing) (f : Float64) (c : Config) (offset : UInt64)
    (r : Session) (rxSeq rxHeight latestRound : UInt64) (vr : Verifier)
    (hvr : vr.round = c.verifier.round) :
    (r.restart c offset rxSeq rxHeight).Models latestRound
      (run (Algo.step C f c) (start vr r.progress.status)
        [.subscribe { seq := rxSeq, height := max rxHeight offset } latestRound]) :=
  ⟨rfl, hvr, rfl, rfl, rfl⟩

theorem Session.poll_models (C : Hashing) (f : Float64) (c : Config) {r : Session} {s : State}
    {latestRound : UInt64} (h : r.Models latestRound s) (hlatest : latestRound ≤ r.round)
    (next : UInt64) :
    r.Models next (run (Algo.step C f c) s [.poll 0 next none]) := by
  have hpoll : Algo.step C f c s (.poll 0 next none) = .ok (s.setLoop 0
      { pc := .ready, latestRound := next
        subOpts := { seq := r.progress.seq, height := r.height } }) := by
    simp [Algo.step, h.alive, h.loops, h.round, hlatest, expect, ok_bind]
  rw [run_cons, exec_of_ok hpoll, run_nil]
  exact ⟨h.alive, h.round, h.status, by simp [State.setLoop, h.loops], h.emitted⟩

/-- One turn of the loop, on a block that is on top of the last one and does
not fail. -/
theorem Session.inspect_models (C : Hashing) (f : Float64) (c : Config) {r : Session} {s : State}
    {latestRound : UInt64} {block : Block} (h : r.Models latestRound s)
    (hlatest : r.round < latestRound) (hbranch : block.header.branch = s.vr.blockHash)
    (hok : (r.inspect f c block).failure = none) :
    (r.inspect f c block).Models latestRound
      (run (Algo.step C f c) s
        [.ask 0, .answer 0 [some block], .inspect 0 fun _ _ => none]) := by
  obtain ⟨l, hl⟩ : ∃ l : Loop, l = { pc := .ready, latestRound, subOpts :=
    { seq := r.progress.seq, height := r.height } } := ⟨_, rfl⟩
  have hloops : s.loops = [l] := by rw [h.loops, hl]
  have hask : Algo.step C f c s (.ask 0) = .ok (s.setLoop 0 { l with pc := .asked r.round }) := by
    simp [Algo.step, h.alive, hloops, hl, h.round, hlatest, expect, ok_bind]
  have hanswer : Algo.step C f c (s.setLoop 0 { l with pc := .asked r.round })
      (.answer 0 [some block]) = .ok { s.setLoop 0 { l with pc := .matched r.round block } with
        accepted := s.accepted ++ [block] } := by
    simp [Algo.step, State.setLoop, State.compare, h.alive, hloops, expect, ok_bind, hbranch,
      getBlockbyRound, blockRetryLimit]
  have hinspect : Algo.step C f c { s.setLoop 0 { l with pc := .matched r.round block } with
        accepted := s.accepted ++ [block] } (.inspect 0 fun _ _ => none) =
      .ok (State.inspect C f c { s.setLoop 0 { l with pc := .matched r.round block } with
        accepted := s.accepted ++ [block] } 0 { l with pc := .matched r.round block } r.round block
        fun _ _ => none) := by
    simp [Algo.step, State.setLoop, h.alive, hloops, expect, ok_bind]
  rw [run_cons, exec_of_ok hask, run_cons, exec_of_ok hanswer, run_cons, exec_of_ok hinspect,
    run_nil]
  unfold Session.inspect at hok ⊢
  unfold State.inspect
  by_cases hround : r.round ≤ r.height
  · rw [if_pos hround, if_pos (by rw [hl]; exact hround)]
    exact ⟨h.alive, congrArg (· + 1) h.round, h.status,
      by simp [State.setLoop, State.advance, hloops, hl], h.emitted⟩
  · rw [if_neg hround] at hok ⊢
    rw [if_neg (by rw [hl]; exact hround)]
    have hprogress : (⟨l.subOpts.seq, s.status⟩ : Progress) = r.progress := by
      rw [hl, h.status]
    dsimp only [State.advance, State.setLoop]
    rw [hprogress]
    cases hscan : outcome (getRelayReceipts f c (fun _ _ => none) block) r.progress with
    | mk result p =>
      cases result with
      | error e => simp [hscan] at hok
      | ok receipts =>
        have hround' : s.vr.round + 1 = r.round + 1 := congrArg (· + 1) h.round
        cases receipts with
        | nil =>
          exact ⟨h.alive, hround', rfl, by simp [State.deliver, State.setLoop, hloops, hl],
            by simp [State.deliver, State.setLoop, h.emitted]⟩
        | cons receipt receipts =>
          exact ⟨h.alive, hround', rfl, by simp [State.deliver, State.setLoop, hloops, hl],
            by simp [State.deliver, State.setLoop, h.emitted]⟩

variable {f : Float64} {c : Config} {offset : UInt64} {chain : Chain} {s s' : Session}

theorem Chain.messages_succ (round : UInt64) :
    chain.messages c (round.toNat + 1) =
      chain.messages c round.toNat ++ messageCalls c (chain.txns round) := by
  rw [Chain.messages, range_succ, flatMap_append, flatMap_singleton,
    UInt64.ofNat_toNat]
  rfl

theorem Chain.length_messages_mono (h : m ≤ n) :
    (chain.messages c m).length ≤ (chain.messages c n).length := by
  obtain ⟨k, rfl⟩ := Nat.exists_eq_add_of_le h
  rw [Chain.messages, Chain.messages, range_add, flatMap_append, length_append]
  exact Nat.le_add_right _ _

/-- The `k`-th message is emitted with number `k`, from the first one that the
destination does not have. -/
structure Numbered (c : Config) (chain : Chain) (s : Session) : Prop where
  failure : s.failure = none
  relays : List.Forall₂ (fun t event => Relays c (innerTxn t) event)
    ((chain.messages c s.round.toNat).drop s.rxSeq.toNat) s.emitted
  numbers : s.emitted.map Event.sequence = List.range' (s.rxSeq.toNat + 1) s.emitted.length

structure Counting (c : Config) (chain : Chain) (s : Session) : Prop
    extends Numbered c chain s where
  first : s.rxSeq.toNat = (chain.messages c (firstRound c s.height)).length
  started : c.verifier.round.toNat ≤ s.round.toNat
  stored : s.progress.status .txSeq = s.rxSeq.toNat + s.emitted.length
  agree : Agree s.progress

theorem Counting.restart (h : InStep c offset chain s (.restart rxSeq rxHeight)) :
    Counting c chain (s.restart c offset rxSeq rxHeight) := by
  obtain ⟨hfile, hcount, hbound⟩ := h
  have hpassed : (chain.messages c c.verifier.round.toNat).length ≤ rxSeq.toNat := by
    rw [hcount]
    exact chain.length_messages_mono (le_max_right _ _)
  refine ⟨⟨rfl, ?_, rfl⟩, hcount, le_rfl, hfile, ?_⟩
  · dsimp only [Session.restart]
    rw [drop_of_length_le hpassed]
    exact .nil
  · change (rxSeq + 1).toNat = s.progress.status .txSeq + 1
    rw [hfile, UInt64.toNat_add, UInt64.toNat_one, Nat.mod_eq_of_lt (by omega)]

theorem toNat_succ {round latestRound : UInt64} (h : round < latestRound) :
    (round + 1).toNat = round.toNat + 1 := by
  have hlt : round.toNat < latestRound.toNat := h
  rw [UInt64.toNat_add, UInt64.toNat_one, Nat.mod_eq_of_lt]
  have := latestRound.toNat_lt
  omega

theorem Counting.pass (h : Counting c chain s) (hround : s.round ≤ s.height)
    (hnext : (s.round + 1).toNat = s.round.toNat + 1) :
    Counting c chain { s with round := s.round + 1 } := by
  have hheight : s.round.toNat ≤ s.height.toNat := hround
  have hnone : ∀ n ≤ s.height.toNat + 1, (chain.messages c n).drop s.rxSeq.toNat = [] := by
    intro n hn
    refine drop_of_length_le ?_
    rw [h.first]
    exact chain.length_messages_mono (hn.trans (le_max_left _ _))
  have hemitted : s.emitted = [] := by
    have hrelays := h.relays
    rw [hnone _ (by omega), forall₂_nil_left_iff] at hrelays
    exact hrelays
  refine ⟨⟨h.failure, ?_, h.numbers⟩, h.first, ?_, h.stored, h.agree⟩
  · dsimp only
    rw [hnext, hnone _ (by omega), hemitted]
    exact .nil
  · dsimp only
    rw [hnext]
    exact h.started.trans (Nat.le_succ _)

theorem Counting.take (h : Counting c chain s) (hround : ¬ s.round ≤ s.height)
    (hnext : (s.round + 1).toNat = s.round.toNat + 1)
    (hscan : Scanned c s.progress (messageCalls c (chain.txns s.round)) events p) :
    Counting c chain { s with
      round := s.round + 1, progress := p, emitted := s.emitted ++ events } := by
  have hheight : s.height.toNat < s.round.toNat := not_le.1 hround
  have hfirst : s.rxSeq.toNat ≤ (chain.messages c s.round.toNat).length := by
    rw [h.first]
    refine chain.length_messages_mono (max_le hheight ?_)
    exact h.started
  have hlength : (messageCalls c (chain.txns s.round)).length = events.length :=
    hscan.relays.length_eq
  have hseq : s.progress.seq.toNat = s.rxSeq.toNat + 1 + s.emitted.length := by
    rw [h.agree, h.stored]
    omega
  refine ⟨⟨h.failure, ?_, ?_⟩, h.first, ?_, ?_, ?_⟩
  · dsimp only
    rw [hnext, chain.messages_succ, drop_append_of_le_length hfirst]
    exact rel_append h.relays hscan.relays
  · dsimp only
    rw [map_append, h.numbers, hscan.numbers, length_append, hlength, hseq,
      range'_append_1]
  · dsimp only
    rw [hnext]
    exact h.started.trans (Nat.le_succ _)
  · dsimp only
    rw [hscan.stored, h.stored, hlength, length_append]
    omega
  · have hagree : s.progress.seq.toNat = s.progress.status .txSeq + 1 := h.agree
    rw [Agree, hscan.seq, hscan.stored, hagree]
    omega

theorem step_counting (h : Counting c chain s) (ha : InStep c offset chain s a)
    (hs : s.step f c offset chain a = .ok s') : Counting c chain s' := by
  cases a with
  | restart rxSeq rxHeight =>
    cases hs
    exact Counting.restart ha
  | inspect latestRound =>
    simp only [Session.step, bind_ok, require_ok, decide_eq_true_eq, pure_ok] at hs
    obtain ⟨_, ⟨-, hlatest⟩, rfl⟩ := hs
    have hnext := toNat_succ hlatest
    rw [Session.inspect]
    split
    · next hround => exact h.pass hround hnext
    · next hround =>
      obtain ⟨hseen, haddr, hbound⟩ := ha
      obtain ⟨receipts, p, hreceipts, hscan⟩ :=
        block_scanned f c (chain.header s.round) hseen haddr h.agree hbound
      rw [Chain.block, hreceipts]
      exact h.take hround hnext hscan
  | write status =>
    cases hs
    have hstatus : status .txSeq = s.progress.status .txSeq := ha
    exact ⟨⟨h.failure, h.relays, h.numbers⟩, h.first, h.started, hstatus.trans h.stored,
      h.agree.trans (congrArg (· + 1) hstatus.symm)⟩

/-- As long as the file, the destination and the rounds that are passed over
agree at every restart, the `k`-th message of the chain is emitted with number
`k` and none behind those of the destination is left out. -/
theorem messages_numbered (f : Float64) (c : Config) (offset : UInt64) (chain : Chain)
    (s : Session) (rxSeq rxHeight : UInt64) (acts : List SessionAct)
    (h : Along (Session.step f c offset chain) (InStep c offset chain) s
      (.restart rxSeq rxHeight :: acts)) :
    Numbered c chain
      (run (Session.step f c offset chain) s (.restart rxSeq rxHeight :: acts)) := by
  obtain ⟨hfirst, hacts⟩ := h
  have hstart : Counting c chain (s.restart c offset rxSeq rxHeight) := Counting.restart hfirst
  exact (run_along (fun _ _ _ hs ha hstep => step_counting hs ha hstep) hstart hacts).toNumbered

instance (c : Config) (offset : UInt64) (chain : Chain) (s : Session) :
    ∀ a, Decidable (InStep c offset chain s a)
  | .restart .. => inferInstanceAs (Decidable (_ ∧ _ ∧ _))
  | .inspect _ => inferInstanceAs (Decidable (_ ∧ _ ∧ _))
  | .write _ => inferInstanceAs (Decidable (_ = _))

def sampleChain : Chain where
  header round := { sampleHeader with round }
  txns round :=
    if round = 5 then [wrapTxn 8 (sendTxn [1])]
    else if round = 6 then [wrapTxn 9 (sendTxn [2])]
    else []
  round_header _ := rfl

def sampleSession : Session where
  round := 0
  height := 0
  progress := { seq := 0, status := fun _ => 0 }
  rxSeq := 0

/-- A restart after the first message has been delivered. -/
theorem delivered_before_restart :
    let s := run (Session.step smallNumbers sampleConfig 0 sampleChain) sampleSession
      [.restart 0 0, .inspect 9, .restart 1 5, .inspect 9, .inspect 9]
    s.failure = none ∧ s.emitted.length = 1 ∧ s.emitted.map Event.sequence = [2] := by
  have h := messages_numbered smallNumbers sampleConfig 0 sampleChain sampleSession 0 0
    [.inspect 9, .restart 1 5, .inspect 9, .inspect 9] (by decide +kernel)
  have hlength : (run (Session.step smallNumbers sampleConfig 0 sampleChain) sampleSession
      [.restart 0 0, .inspect 9, .restart 1 5, .inspect 9, .inspect 9]).emitted.length = 1 := by
    decide +kernel
  exact ⟨h.failure, hlength, h.numbers.trans (by rw [hlength]; decide +kernel)⟩

/-- A restart before the first message has been delivered: the file has counted
it already, and the subscription fails on it. -/
theorem restart_before_delivery :
    let s := run (Session.step smallNumbers sampleConfig 0 sampleChain) sampleSession
      [.restart 0 0, .inspect 9]
    let s' := run (Session.step smallNumbers sampleConfig 0 sampleChain) s
      [.restart 0 0, .inspect 9]
    s.failure = none ∧ s.emitted.map Event.sequence = [1] ∧
    (sampleChain.messages sampleConfig 6).length = 1 ∧
    s'.failure = some (.unexpectedSequence 2 1 5) ∧ s'.emitted = [] := by
  decide +kernel

end IconBridge.Go.Algo
