import IconBridge.Solidity.BMC.Dispatch

/-!
# Relay messages are delivered in order, once

Nothing that handling a message does touches the counters of the receiving
side, so the events taken on a link are numbered `1, 2, 3, …` and its `rxSeq`
counts them, whichever relays hand over whatever receipts.
-/

namespace IconBridge.Solidity.BMC

open Lib Function List

variable {W B : Type} {c : Config W B} {s s' t : St W B} {next prev : String}

structure Keeps (s s' : St W B) : Prop where
  rxSeq : ∀ l, (s'.links l).rxSeq = (s.links l).rxSeq
  rxHeight : ∀ l, (s'.links l).rxHeight = (s.links l).rxHeight
  received : s'.received = s.received

theorem Keeps.refl : Keeps s s := ⟨fun _ => rfl, fun _ => rfl, rfl⟩

theorem Keeps.trans (h1 : Keeps s t) (h2 : Keeps t s') : Keeps s s' :=
  ⟨fun l => (h2.rxSeq l).trans (h1.rxSeq l), fun l => (h2.rxHeight l).trans (h1.rxHeight l),
    h2.received.trans h1.received⟩

theorem Keeps.of_links (hl : s'.links = update s.links name l)
    (hseq : l.rxSeq = (s.links name).rxSeq) (hheight : l.rxHeight = (s.links name).rxHeight)
    (hr : s'.received = s.received) : Keeps s s' := by
  refine ⟨fun k => ?_, fun k => ?_, hr⟩ <;> rw [hl, update_apply] <;> split
  · next h => rw [hseq, h]
  · rfl
  · next h => rw [hheight, h]
  · rfl

theorem emitMessage_keeps : Keeps s (emitMessage s next msg) :=
  .of_links rfl rfl rfl rfl

theorem callService_keeps (h : callService c s addr f = .ok s') : Keeps s s' :=
  plainCall_rule Keeps.trans (fun _ _ _ => emitMessage_keeps)
    (fun _ _ => ⟨fun _ => rfl, fun _ => rfl, rfl⟩) h

/-- Handlers keep the receiving side when the services they call do. -/
theorem keeps_rule {call : Caller W B} (hcall : ∀ s addr req s', call s addr req = .ok s' → Keeps s s')
    (prev : String) : Rule prev call Keeps where
  refl _ := .refl
  trans := .trans
  emit _ _ _ := emitMessage_keeps
  report _ _ := ⟨fun _ => rfl, fun _ => rfl, rfl⟩
  call := hcall _ _ _ _
  push := fun _ _ _ _ _ => .of_links rfl rfl rfl rfl
  drop := fun _ _ _ _ _ _ _ => .of_links rfl rfl rfl rfl

def receivedOn (s : St W B) (link : String) : List Nat :=
  (s.received.filter fun r => r.1 = link).map Prod.snd

theorem processEvent_received (h : processEvent c prev s ev = .ok s') :
    Keeps { s with received := s.received ++ [(prev, ev.seq)] } s' :=
  (keeps_rule (fun _ _ _ _ => callService_keeps) prev : Rule prev (plainCall c) Keeps).processEvent h

theorem processEvents_received {es : List (MessageEvent B)}
    (h : es.foldlM (processEvent c prev) s = .ok s') :
    (∀ l, (s'.links l).rxSeq = (s.links l).rxSeq ∧ (s'.links l).rxHeight = (s.links l).rxHeight) ∧
      s'.received = s.received ++ es.map fun ev => (prev, ev.seq) := by
  induction es generalizing s with
  | nil =>
    cases pure_ok.1 h
    simp
  | cons ev es ih =>
    simp only [foldlM_cons, bind_ok] at h
    obtain ⟨t, ht, h⟩ := h
    have hev := processEvent_received ht
    obtain ⟨hlinks, hrec⟩ := ih h
    refine ⟨fun l => ⟨(hlinks l).1.trans (hev.rxSeq l), (hlinks l).2.trans (hev.rxHeight l)⟩, ?_⟩
    rw [hrec, hev.received, map_cons, append_assoc, singleton_append]

/-- A relay message adds the next numbers of its link and advances the
counters of that link with them. -/
theorem handleRelayMessage_ok (h : handleRelayMessage c s sender prev msg = .ok s') :
    ∃ n, (s'.links prev).rxSeq = (s.links prev).rxSeq + n ∧
      s'.received = s.received ++
        (List.range' ((s.links prev).rxSeq + 1) n).map (fun seq => (prev, seq)) ∧
      (s.links prev).rxHeight ≤ (s'.links prev).rxHeight ∧
      ∀ l, l ≠ prev → (s'.links l).rxSeq = (s.links l).rxSeq ∧
        (s'.links l).rxHeight = (s.links l).rxHeight := by
  simp only [handleRelayMessage, bind_ok, pure_ok, Prod.exists] at h
  obtain ⟨_, -, rps, -, t, rxSeq, rxHeight, hrecv, rfl⟩ := h
  obtain ⟨⟨es, hes, -, hfold, hn⟩, hheight⟩ := Inbox.receive_ok hrecv
  dsimp only at hes hfold hn hheight
  obtain ⟨hlinks, hrec⟩ := processEvents_received hfold
  have hseqs : es.map (fun ev => (prev, ev.seq)) =
      (List.range' ((s.links prev).rxSeq + 1) es.length).map fun seq => (prev, seq) :=
    hes.map_seq fun seq => (prev, seq.toNat)
  refine ⟨es.length, ?_, hrec.trans (by rw [hseqs]), ?_, fun l hl => ?_⟩
  · simp only [updateLinkRxHeight, updateRelayStats, updateLinkRxSeq, setLink, update_self]
    rw [(hlinks prev).1]
    omega
  · simp only [updateLinkRxHeight, updateRelayStats, updateLinkRxSeq, setLink, update_self]
    rw [(hlinks prev).2]
    omega
  · simp only [updateLinkRxHeight, updateRelayStats, updateLinkRxSeq, setLink,
      update_of_ne hl]
    exact hlinks l

theorem receivedOn_append (hs : s'.received = s.received ++ seqs.map fun seq => (prev, seq)) :
    receivedOn s' l = receivedOn s l ++ if prev = l then seqs else [] := by
  have hpairs : ((seqs.map fun seq => (prev, seq)).filter fun r => decide (r.1 = l)).map Prod.snd =
      if prev = l then seqs else [] := by
    split
    · next h => simp [h, filter_eq_self.2, comp_def]
    · next h => simp [h]
  rw [receivedOn, hs, filter_append, map_append, hpairs]
  rfl

theorem step_receives (h : step c s tx = .ok s') (l : String) :
    ∃ n, (s'.links l).rxSeq = (s.links l).rxSeq + n ∧
      receivedOn s' l = receivedOn s l ++ List.range' ((s.links l).rxSeq + 1) n ∧
      (s.links l).rxHeight ≤ (s'.links l).rxHeight := by
  have hkeeps : Keeps s s' → ∃ n, (s'.links l).rxSeq = (s.links l).rxSeq + n ∧
      receivedOn s' l = receivedOn s l ++ List.range' ((s.links l).rxSeq + 1) n ∧
      (s.links l).rxHeight ≤ (s'.links l).rxHeight := by
    intro hk
    refine ⟨0, hk.rxSeq l, ?_, (hk.rxHeight l).ge⟩
    rw [receivedOn, hk.received]
    simp [receivedOn]
  cases tx with
  | handleRelayMessage sender prev msg =>
    obtain ⟨n, hseq, hrec, hheight, hother⟩ := handleRelayMessage_ok h
    rcases eq_or_ne prev l with rfl | hne
    · exact ⟨n, hseq, by rw [receivedOn_append hrec, if_pos rfl], hheight⟩
    · refine ⟨0, (hother l hne.symm).1, ?_, (hother l hne.symm).2.ge⟩
      rw [receivedOn_append hrec, if_neg hne, range'_zero]
  | addRelay sender link addrs =>
    simp only [step, addRelay, bind_ok, pure_ok] at h
    obtain ⟨_, -, _, -, rfl⟩ := h
    exact hkeeps (.of_links rfl rfl rfl rfl)
  | removeRelay sender link addr =>
    simp only [step, removeRelay, bind_ok, pure_ok] at h
    obtain ⟨_, -, _, -, rfl⟩ := h
    exact hkeeps (.of_links rfl rfl rfl rfl)
  | service addr f => exact hkeeps (callService_keeps h)

/-- On a link that starts fresh, the events taken are numbered `1, 2, 3, …` and
`rxSeq` counts them; a transaction never lowers `rxHeight`, and one that reverts
changes nothing. -/
theorem relayed_in_order_exactly_once (c : Config W B) (s : St W B) (l : String) (txs : List (Tx W B))
    (hfresh : (s.links l).rxSeq = 0 ∧ receivedOn s l = []) :
    let t := run (step c) s txs
    receivedOn t l = List.range' 1 (t.links l).rxSeq ∧
    (receivedOn t l).length = (t.links l).rxSeq ∧
    (∀ tx, (t.links l).rxHeight ≤ ((exec (step c) t tx).links l).rxHeight) ∧
    ∀ tx e, step c t tx = .error e → exec (step c) t tx = t := by
  intro t
  have hnumbered : receivedOn t l = List.range' 1 (t.links l).rxSeq := by
    refine run_induct (P := fun t => receivedOn t l = List.range' 1 (t.links l).rxSeq)
      (fun u tx u' hu hstep => ?_) (by simp [hfresh])
    obtain ⟨n, hseq, hrec, -⟩ := step_receives hstep l
    rw [hrec, hseq, hu, Nat.add_comm (u.links l).rxSeq 1, range'_append_1]
  refine ⟨hnumbered, by rw [hnumbered, length_range'], fun tx => ?_,
    fun tx e he => exec_of_error he⟩
  refine exec_induct (P := fun t' : St W B => (t.links l).rxHeight ≤ (t'.links l).rxHeight)
    (fun t' ht' => ?_) le_rfl
  obtain ⟨_, -, -, hheight⟩ := step_receives ht' l
  exact hheight

/-- Relay messages are given as receipts; no event can be read. -/
inductive Packet
  | receipts (rps : List (ReceiptProof Packet))
  | noise

def packetCodec : Codec Packet where
  decodeReceiptProofs
    | .receipts rps => .ok rps
    | .noise => .error .raw
  decodeBMCMessage _ := .error .raw
  decodeBMCService _ := .error .raw
  decodeGatherFeeMessage _ := .error .raw
  decodePropagateMessage _ := .error .raw
  decodeInitMessage _ := .error .raw
  decodeResponse _ := .error .raw
  encodeBMCMessage _ := .noise
  encodeResponse _ := .noise

def packetConfig : Config Unit Packet where
  bmcBtpAddress := "btp://0x61.bsc/0x01"
  bmcManagement := 2
  isOwner _ := false
  codec := packetCodec
  contracts :=
    { isContract := fun _ => false
      handleBTPMessage := fun _ _ _ _ _ _ _ => .error .raw
      handleBTPError := fun _ _ _ _ _ _ _ _ => .error .raw
      handleFeeGathering := fun _ _ _ _ _ => .error .raw }

def packetState : St Unit Packet where
  links := update (fun _ => {}) "btp://0x1.icon/cx02" { relays := [7], isConnected := true }
  world := ()

def packetEvent (seq : Nat) : MessageEvent Packet :=
  { nextBmc := "btp://0x61.bsc/0x01", seq, message := .noise }

/-- Heights 5, 4 and 6; the second receipt is skipped, event 2 comes twice. -/
def packetRun : List (Tx Unit Packet) :=
  [.handleRelayMessage 7 "btp://0x1.icon/cx02" (.receipts
     [{ index := 0, height := 5, events := [packetEvent 1, packetEvent 2] },
      { index := 0, height := 4, events := [packetEvent 3] },
      { index := 0, height := 6, events := [packetEvent 2, packetEvent 3] }]),
   .handleRelayMessage 7 "btp://0x1.icon/cx02" (.receipts
     [{ index := 0, height := 6, events := [packetEvent 5] }])]

theorem packetRun_in_order :
    receivedOn (run (step packetConfig) packetState packetRun) "btp://0x1.icon/cx02" = [1, 2, 3] := by
  have hseq : ((run (step packetConfig) packetState packetRun).links "btp://0x1.icon/cx02").rxSeq = 3 := by
    decide +kernel
  have hnumbered := (relayed_in_order_exactly_once packetConfig packetState "btp://0x1.icon/cx02"
    packetRun ⟨by decide +kernel, rfl⟩).1
  rw [hnumbered, hseq]
  rfl

end IconBridge.Solidity.BMC
