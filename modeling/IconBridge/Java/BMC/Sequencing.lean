import IconBridge.Java.BMC.Handlers

/-!
# Sequence numbers on both sides of a link

For as long as a link stays registered, the events taken on it are numbered
`1, 2, 3, …` and so are the messages sent on it; `rxSeq` and `txSeq` count
them. What the neighbour has announced is what its events say, so nothing the
handlers wrote is lost when `handleRelayMessage` writes the link back.
-/

namespace IconBridge.Java.BMC

open Lib List

variable {W B : Type} {c : Config W B} {s s' t : St W B} {prev : BTPAddress}

def Tx.Removes (c : Config W B) (l : BTPAddress) : Tx W B → Prop
  | .admin _ (.removeLink link) => c.valueOf link = .ok l
  | _ => False

def Tx.SetsRxHeight (c : Config W B) (l : BTPAddress) : Tx W B → Prop
  | .admin _ (.setLinkRxHeight link _) => c.valueOf link = .ok l
  | _ => False

inductive Effect (c : Config W B) (tx : Tx W B) (s s' : St W B) : Prop
  | sends (h : Sends s s')
  | receives (prev : BTPAddress) (i : Incoming) (es : List (EventDataBTPMessage B)) (rxHeight : ℤ)
      (hprev : incoming s prev = some i)
      (hseq : es.map (·.seq) = (List.range' (i.rxSeq + 1) es.length).map fun n : ℕ => (n : ℤ))
      (hheight : i.rxHeight ≤ rxHeight)
      (received : s'.received = s.received ++ es.map (prev, ·))
      (incoming : ∀ l, incoming s' l = if l = prev
        then some { rxSeq := i.rxSeq + es.length, rxHeight,
                    announced := es.foldl (learn c prev) i.announced }
        else incoming s l)
      (numbered : ∀ l, Numbered s l → Numbered s' l)
  | adds (target : BTPAddress) (hnone : incoming s target = none)
      (received : s'.received = s.received)
      (incoming : ∀ l, incoming s' l =
        if l = target then some { rxSeq := 0, rxHeight := 0, announced := {} } else incoming s l)
      (numbered : ∀ l, Numbered s l → Numbered s' l)
  | removes (target : BTPAddress) (htx : tx.Removes c target)
      (received : s'.received = s.received)
      (incoming : ∀ l ≠ target, incoming s' l = incoming s l)
      (numbered : ∀ l ≠ target, Numbered s l → Numbered s' l)
  | sets (target : BTPAddress) (rxHeight : ℤ) (htx : tx.SetsRxHeight c target)
      (received : s'.received = s.received)
      (incoming : ∀ l, incoming s' l = if l = target
        then (incoming s l).map ({ · with rxHeight }) else incoming s l)
      (numbered : ∀ l, Numbered s l → Numbered s' l)

theorem processEvents_ok {es : List (EventDataBTPMessage B)}
    (h : es.foldlM (processEvent c prev) s = .ok s') :
    s'.received = s.received ++ es.map (prev, ·) ∧ (∀ l, Numbered s l → Numbered s' l) ∧
    ∀ l, incoming s' l = if l = prev
      then (incoming s l).map (Incoming.hear (es.foldl (learn c prev))) else incoming s l := by
  induction es generalizing s with
  | nil =>
    cases h
    refine ⟨by simp, fun _ => id, fun l => ?_⟩
    split
    · exact Option.map_id'.symm
    · rfl
  | cons ev es ih =>
    simp only [foldlM_cons, bind_ok] at h
    obtain ⟨t, ht, h⟩ := h
    have hev := processEvent_hears ht
    obtain ⟨hrec, hnum, hin⟩ := ih h
    refine ⟨?_, fun l hl => hnum l (hev.numbered l hl), fun l => ?_⟩
    · rw [hrec, hev.received, append_assoc]
      rfl
    · rw [hin l, hev.incoming l]
      split
      · rw [Option.map_map]
        rfl
      · rfl

theorem writeBack_ok (h : writeBack s prev relay rxSeq rxHeight = .ok s') :
    s'.received = s.received ∧ (∀ l, Numbered s l → Numbered s' l) ∧
    ∀ l, incoming s' l = if l = prev
      then (incoming s l).map ({ · with rxSeq, rxHeight }) else incoming s l := by
  simp only [writeBack, bind_ok, pure_ok, getLink_ok] at h
  obtain ⟨k, hk, relay, -, rfl⟩ := h
  refine ⟨rfl, fun l => numbered_putLink hk rfl, fun l => ?_⟩
  simp only [incoming, putLink, Dict.val_put]
  split
  · next heq => subst heq; simp [hk, Link.incoming, Link.announced]
  · rfl

theorem handleRelayMessage_effect {prev : String}
    (h : handleRelayMessage c s sender height prev msg = .ok s') :
    Effect c tx s s' := by
  simp only [handleRelayMessage, bind_ok, pure_ok, getLink_ok, Prod.exists] at h
  obtain ⟨prev, -, k, hk, _, -, rps, -, t, rxSeq, rxHeight, ht, u, hu, v, hv, rfl⟩ := h
  obtain ⟨⟨es, hes, -, hfold, rfl⟩, hheight⟩ := Inbox.receive_ok ht
  obtain ⟨hrec, hnum, hin⟩ := processEvents_ok hfold
  obtain ⟨hrec', hnum', hin'⟩ := writeBack_ok hu
  have hsends : Sends u (distributeRelayerReward c v height) :=
    (gatherOnTerm_sends hv).trans distributeRelayerReward_sends
  have hprev : incoming s prev = some k.incoming := by simp [incoming, hk]
  refine .receives prev k.incoming es rxHeight hprev (hes.map_seq id) hheight
    (hsends.received.trans (hrec'.trans hrec)) (fun l => ?_)
    fun l hl => hsends.numbered l (hnum' l (hnum l hl))
  rw [hsends.incoming, hin', hin]
  split
  · next heq =>
    subst heq
    rw [hprev]
    rfl
  · rfl

theorem addLink_effect (h : addLink c s link = .ok s') : Effect c tx s s' := by
  simp only [addLink, bind_ok, require_ok] at h
  obtain ⟨target, -, _, hnone, t, ht, h⟩ := h
  have hprop := sends_rule.propagateInternal ht
  have hsend := emitMessage_sends h
  have hnone : incoming s target = none := by simpa [incoming] using hnone
  have htnone : t.links.val target = none := by
    simpa [incoming] using (hprop.incoming target).trans hnone
  refine .adds target hnone (hsend.received.trans hprop.received) (fun l => ?_)
    fun l hl => hsend.numbered l ?_
  · rw [hsend.incoming, ← hprop.incoming]
    simp only [incoming, putLink, Dict.val_put]
    split <;> rfl
  · have hl := hprop.numbered l hl
    simp only [Numbered, sentTo, txSeq, putLink, Dict.val_put] at hl ⊢
    rw [hl]
    split
    · next heq => subst heq; simp [htnone]
    · rfl

theorem removeLink_effect (h : removeLink c s link = .ok s')
    (htx : ∀ l, c.valueOf link = .ok l → tx.Removes c l) : Effect c tx s s' := by
  simp only [removeLink, bind_ok, pure_ok] at h
  obtain ⟨target, htarget, _, -, _, -, t, ht, rfl⟩ := h
  have hprop := sends_rule.propagateInternal ht
  refine .removes target (htx _ htarget) hprop.received (fun l hl => ?_) fun l hl hnum => ?_
  · rw [← hprop.incoming l]
    simp [incoming, Dict.val_remove, hl]
  · have hnum := hprop.numbered l hnum
    simpa [Numbered, sentTo, txSeq, Dict.val_remove, hl] using hnum

theorem setLinkRxHeight_effect (h : setLinkRxHeight c s link height = .ok s')
    (htx : ∀ l, c.valueOf link = .ok l → tx.SetsRxHeight c l) : Effect c tx s s' := by
  simp only [setLinkRxHeight, bind_ok, pure_ok, getLink_ok] at h
  obtain ⟨target, htarget, k, hk, rfl⟩ := h
  refine .sets target height (htx _ htarget) rfl (fun l => ?_) fun l => numbered_putLink hk rfl
  simp only [incoming, putLink, Dict.val_put]
  split
  · next heq => subst heq; simp [hk, Link.incoming, Link.announced]
  · rfl

/-- Of the owner's transactions three concern the links themselves. -/
theorem administer_effect (h : administer c s a = .ok s') : Effect c (.admin sender a) s s' := by
  cases a with
  | addLink link => exact addLink_effect h
  | removeLink link => exact removeLink_effect h fun _ => id
  | setLinkRxHeight link height => exact setLinkRxHeight_effect h fun _ => id
  | setFeeAggregator addr =>
    cases h
    exact .sends (.of_eq rfl rfl rfl)
  | _ =>
    simp only [administer, addService, removeService, addRoute, removeRoute, addRelay, removeRelay,
      setFeeGatheringTerm, bind_ok, pure_ok] at h
    obtain ⟨_, _, h⟩ := h
    first
      | obtain rfl := h
      | obtain ⟨_, -, rfl⟩ := h
      | obtain ⟨_, -, _, -, rfl⟩ := h
    exact .sends (.of_eq rfl rfl rfl)

theorem step_effect (h : step c s tx = .ok s') : Effect c tx s s' := by
  cases tx with
  | handleRelayMessage sender height prev msg => exact handleRelayMessage_effect h
  | service addr f => exact .sends (sends_rule.callService h)
  | sendFeeGathering sender =>
    simp only [step, sendFeeGathering, bind_ok] at h
    obtain ⟨_, -, _, -, h⟩ := h
    split at h
    · contradiction
    · exact .sends (sends_rule.gatherFrom h)
  | distributeRelayerReward height =>
    cases h
    exact .sends distributeRelayerReward_sends
  | fallback value =>
    cases h
    exact .sends (.of_eq rfl rfl rfl)
  | admin sender a =>
    obtain ⟨_, -, h⟩ := bind_ok.1 h
    exact administer_effect h

structure Sequenced (c : Config W B) (l : BTPAddress) (s : St W B) : Prop where
  sent : Numbered s l
  fresh : incoming s l = none → receivedOn s l = []
  received : ∀ i, incoming s l = some i →
    (receivedOn s l).map (·.seq) = (List.range' 1 i.rxSeq).map fun n : ℕ => (n : ℤ)
  announced : ∀ i, incoming s l = some i → i.announced = (receivedOn s l).foldl (learn c l) {}

theorem Sequenced.of_same (hs : Sequenced c l s) (hsent : Numbered s' l)
    (hrec : s'.received = s.received) (f : Incoming → Incoming)
    (hf : ∀ i, (f i).rxSeq = i.rxSeq ∧ (f i).announced = i.announced)
    (hin : incoming s' l = (incoming s l).map f) : Sequenced c l s' := by
  have hon : receivedOn s' l = receivedOn s l := by rw [receivedOn, hrec]; rfl
  refine ⟨hsent, fun h => ?_, fun i h => ?_, fun i h => ?_⟩ <;> rw [hon]
  · exact hs.fresh (by simpa [hin] using h)
  all_goals
    rw [hin, Option.map_eq_some_iff] at h
    obtain ⟨j, hj, rfl⟩ := h
  · rw [(hf j).1]
    exact hs.received j hj
  · rw [(hf j).2]
    exact hs.announced j hj

theorem receivedOn_append (h : s'.received = s.received ++ es.map (prev, ·)) (l : BTPAddress) :
    receivedOn s' l = if l = prev then receivedOn s l ++ es else receivedOn s l := by
  rw [receivedOn, h, filterMap_append, filterMap_map]
  split
  · next heq => subst heq; simp [receivedOn]
  · next hne => simp [receivedOn, Ne.symm hne]

theorem step_sequenced (h : step c s tx = .ok s') (hstays : ¬tx.Removes c l)
    (hs : Sequenced c l s) : Sequenced c l s' := by
  have hsame : ∀ {s' : St W B}, Numbered s' l → s'.received = s.received →
      incoming s' l = incoming s l → Sequenced c l s' := fun hsent hrec hin =>
    hs.of_same hsent hrec id (fun _ => ⟨rfl, rfl⟩) (by simpa using hin)
  cases step_effect h with
  | sends h => exact hsame (h.numbered l hs.sent) h.received (h.incoming l)
  | receives prev i es height hprev hseq _ hrec hin hnum =>
    have hon := receivedOn_append hrec l
    have hin := hin l
    rcases eq_or_ne l prev with rfl | hne
    · rw [if_pos rfl] at hon hin
      refine ⟨hnum l hs.sent, by simp [hin], fun j hj => ?_, fun j hj => ?_⟩ <;>
        obtain rfl := Option.some.inj (hin.symm.trans hj) <;> rw [hon]
      · rw [map_append, hs.received i hprev, hseq, ← map_append,
          Nat.add_comm i.rxSeq 1, range'_append_1]
      · rw [foldl_append, ← hs.announced i hprev]
    · rw [if_neg hne] at hon hin
      refine ⟨hnum l hs.sent, fun h => ?_, fun j hj => ?_, fun j hj => ?_⟩ <;> rw [hon]
      · exact hs.fresh (hin ▸ h)
      · exact hs.received j (hin ▸ hj)
      · exact hs.announced j (hin ▸ hj)
  | adds target hnone hrec hin hnum =>
    have hin := hin l
    rcases eq_or_ne l target with rfl | hne
    · rw [if_pos rfl] at hin
      have hon : receivedOn s' l = [] := by
        rw [receivedOn, hrec]
        exact hs.fresh hnone
      refine ⟨hnum l hs.sent, by simp [hin], fun j hj => ?_, fun j hj => ?_⟩ <;>
        obtain rfl := Option.some.inj (hin.symm.trans hj) <;> rw [hon] <;> rfl
    · rw [if_neg hne] at hin
      exact hsame (hnum l hs.sent) hrec hin
  | removes target htx hrec hin hnum =>
    have hne : l ≠ target := fun heq => hstays (heq ▸ htx)
    exact hsame (hnum l hne hs.sent) hrec (hin l hne)
  | sets target height _ hrec hin hnum =>
    refine hs.of_same (hnum l hs.sent) hrec
      (fun i => if l = target then { i with rxHeight := height } else i) ?_ ?_
    · intro i
      split <;> exact ⟨rfl, rfl⟩
    · rw [hin l]
      split
      · rfl
      · simp

theorem step_rxHeight (h : step c s tx = .ok s') (hstays : ¬tx.Removes c l)
    (hset : ¬tx.SetsRxHeight c l) (hi : incoming s l = some i) (hi' : incoming s' l = some i') :
    i.rxHeight ≤ i'.rxHeight := by
  have hsame : incoming s' l = incoming s l → i.rxHeight ≤ i'.rxHeight := fun heq => by
    rw [heq, hi] at hi'
    cases hi'
    rfl
  cases step_effect h with
  | sends h => exact hsame (h.incoming l)
  | receives prev j es height hprev _ hheight _ hin _ =>
    have hin := hin l
    split at hin
    · next heq =>
      subst heq
      obtain rfl := Option.some.inj (hprev.symm.trans hi)
      obtain rfl := Option.some.inj (hin.symm.trans hi')
      exact hheight
    · exact hsame hin
  | adds target hnone _ hin _ =>
    have hin := hin l
    split at hin
    · next heq => simp [← heq, hi] at hnone
    · exact hsame hin
  | removes target htx _ hin _ => exact hsame (hin l fun heq => hstays (heq ▸ htx))
  | sets target height htx _ hin _ =>
    have hin := hin l
    split at hin
    · next heq => exact absurd (heq ▸ htx) hset
    · exact hsame hin

/-- After any run since deployment in which the link `l` was not removed: the
events taken on it and the messages sent on it are numbered from 1 and counted
by `rxSeq` and `txSeq`, its record holds all that its neighbour has announced,
and no transaction but `setLinkRxHeight` lowers `rxHeight`. -/
theorem sequenced_both_ways (c : Config W B) (w : W) (l : BTPAddress) (txs : List (Tx W B))
    (hstays : ∀ tx ∈ txs, ¬tx.Removes c l) (k : Link)
    (hk : (run (step c) { world := w } txs).links.val l = some k) :
    let t := run (step c) { world := w } txs
    (receivedOn t l).map (·.seq) = (List.range' 1 k.rxSeq).map (fun n : ℕ => (n : ℤ)) ∧
    sentTo t l = List.range' 1 k.txSeq ∧
    k.announced = (receivedOn t l).foldl (learn c l) {} ∧
    ∀ tx, ¬tx.Removes c l → ¬tx.SetsRxHeight c l →
      ∀ k', (exec (step c) t tx).links.val l = some k' → k.rxHeight ≤ k'.rxHeight := by
  intro t
  have hinit : Sequenced c l { world := w } := ⟨rfl, fun _ => rfl, nofun, nofun⟩
  have ht : Sequenced c l t := run_along (fun _ _ _ hs hC h => step_sequenced h hC hs) hinit
    (along_of_mem hstays)
  have hi : incoming t l = some k.incoming := by rw [incoming, hk]; rfl
  refine ⟨ht.received _ hi, ?_, ht.announced _ hi, fun tx hC hset k' => ?_⟩
  · rw [ht.sent, txSeq, hk]
    rfl
  · refine exec_induct (P := fun t' : St W B => t'.links.val l = some k' → k.rxHeight ≤ k'.rxHeight)
      (fun t' ht' hk' => ?_) fun hk' => ?_
    · have hi' : incoming t' l = some k'.incoming := by rw [incoming, hk']; rfl
      exact step_rxHeight ht' hC hset hi hi'
    · cases hk.symm.trans hk'
      rfl

inductive Wire
  | receipts (rps : List (ReceiptProof Wire))
  | btp (m : BTPMessage Wire)
  | bmc (m : BMCMessage Wire)
  | init (links : List BTPAddress)
  | other

def wireCodec : Codec Wire where
  relayMessage
    | .receipts rps => .ok rps
    | _ => .error (.other "IllegalStateException")
  btpMessage
    | .btp m => .ok m
    | _ => .error (.other "IllegalStateException")
  bmcMessage
    | some (.bmc m) => .ok m
    | _ => .error (.other "IllegalStateException")
  initMessage
    | some (.init links) => .ok (some (links.map some))
    | _ => .error (.other "IllegalStateException")
  linkMessage _ := .error (.other "IllegalStateException")
  unlinkMessage _ := .error (.other "IllegalStateException")
  sackMessage _ := .error (.other "IllegalStateException")
  feeGatheringMessage _ := .error (.other "IllegalStateException")
  errorMessage _ := .error (.other "IllegalStateException")
  ofBTPMessage := .btp
  ofBMCMessage := .bmc
  ofInitMessage := .init
  ofLinkMessage _ := .other
  ofUnlinkMessage _ := .other
  ofFeeGatheringMessage _ := .other
  ofErrorMessage _ := .other

def here : BTPAddress := ⟨"btp", "0x1.icon", "cx01"⟩
def bsc : BTPAddress := ⟨"btp", "0x61.bsc", "0x02"⟩
def near : BTPAddress := ⟨"btp", "0x1.near", "bmc"⟩

def wireConfig : Config Unit Wire where
  btpAddr := here
  isOwner := fun _ => true
  valueOf := fun _ => .ok bsc
  parse := fun _ => bsc
  isAlphaNumeric := fun _ => true
  btpExceptionOf := fun code message => (code, message)
  share := fun _ _ _ => 0
  codec := wireCodec
  contracts :=
    { handleBTPMessage := fun _ _ _ _ _ _ _ => .error (.other "")
      handleBTPError := fun _ _ _ _ _ _ _ _ => .error (.other "")
      handleFeeGathering := fun _ _ _ _ _ => .error (.other "") }

def relay : Address := ⟨false, 7⟩

def initEvent : EventDataBTPMessage Wire :=
  { nextBmc := "btp://0x1.icon/cx01", seq := 1,
    msg := .btp { src := some bsc, dst := some here, svc := some "bmc", sn := some 0,
                  payload := some (.bmc { type := some "Init", payload := some (.init [near]) }) } }

def serviceEvent : EventDataBTPMessage Wire :=
  { nextBmc := "btp://0x1.icon/cx01", seq := 2,
    msg := .btp { src := some bsc, dst := some here, svc := some "bts", sn := some 5, payload := none } }

def wireRun : List (Tx Unit Wire) :=
  [.admin relay (.addLink ""), .admin relay (.addRelay "" relay),
   .handleRelayMessage relay 10 "" (.receipts
     [{ index := 0, height := 3, events := [initEvent] },
      { index := 0, height := 4, events := [initEvent, serviceEvent] }])]

theorem wireRun_sequenced :
    (receivedOn (run (step wireConfig) { world := () } wireRun) bsc).map (·.seq) = [1, 2] ∧
    sentTo (run (step wireConfig) { world := () } wireRun) bsc = [1, 2] ∧
    ((run (step wireConfig) { world := () } wireRun).links.val bsc).map Link.reachable =
      some [near] := by
  have hk : (run (step wireConfig) { world := () } wireRun).links.val bsc =
      some { rxSeq := 2, txSeq := 2, rxHeight := 4, reachable := [near] } := by decide +kernel
  have hstays : ∀ tx ∈ wireRun, ¬tx.Removes wireConfig bsc := by
    simp [wireRun, Tx.Removes]
  obtain ⟨hrec, hsent, -⟩ := sequenced_both_ways wireConfig () bsc wireRun hstays _ hk
  exact ⟨hrec, hsent, by rw [hk]; rfl⟩

end IconBridge.Java.BMC
