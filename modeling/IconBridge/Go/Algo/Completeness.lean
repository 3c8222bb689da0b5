import IconBridge.Algorand.Transactions
import IconBridge.Go.Algo.Authenticity

/-!
# What the scan of a block finds

A message is sent by a call of the BMC, at any depth of inner transactions. The
scan looks at the inner transactions of the transactions of a block and at
nothing below them.
-/

namespace IconBridge.Go.Algo

open Lib Algorand List
open Algorand.Relay (Float64 LinkStatus incrementSeq updateHeight smallNumbers)

def innerTxn : Txn → InnerTxn
  | .appCall _ call logs _ =>
    { applicationID := call.applicationID
      applicationArgs := call.applicationArgs
      logs
      rest := 0 }
  | .assetTransfer .. | .other _ =>
    { applicationID := 0, applicationArgs := [], logs := [], rest := 0 }

def blockOf (header : BlockHeader) (txns : List Txn) : Block where
  header
  payset := txns.map fun t => { innerTxns := t.innerTxns.map innerTxn, rest := 0 }

def IsMessage (c : Config) (t : Txn) : Prop := (messageLog c (innerTxn t)).isSome

instance (c : Config) : DecidablePred (IsMessage c) :=
  fun t => inferInstanceAs (Decidable ((messageLog c (innerTxn t)).isSome = true))

def messageCalls (c : Config) (txns : List Txn) : List Txn :=
  (txns.flatMap Txn.all).filter (IsMessage c)

def unseen (txns : List Txn) : List Txn :=
  txns.flatMap fun t => t :: t.innerTxns.flatMap fun t' => t'.innerTxns.flatMap Txn.all

/-- Four arguments, with the address of the other chain in the second. -/
def Addressed (c : Config) (t : Txn) : Prop :=
  ∃ target message, (innerTxn t).applicationArgs[1]? = some target ∧
    (innerTxn t).applicationArgs[3]? = some message ∧ destinationOf target = utf8 c.dst

theorem addressed_iff : Addressed c t ↔
    (∃ target ∈ (innerTxn t).applicationArgs[1]?, destinationOf target = utf8 c.dst) ∧
    (innerTxn t).applicationArgs[3]?.isSome := by
  rw [Option.isSome_iff_exists]
  constructor
  · rintro ⟨target, message, htarget, hmessage, hdst⟩
    exact ⟨⟨target, htarget, hdst⟩, message, hmessage⟩
  · rintro ⟨⟨target, htarget, hdst⟩, message, hmessage⟩
    exact ⟨target, message, htarget, hmessage, hdst⟩

instance (c : Config) (t : Txn) : Decidable (Addressed c t) := decidable_of_iff' _ addressed_iff

def below (txns : List Txn) : List Txn := txns.flatMap fun t => t.innerTxns.flatMap Txn.all

theorem countP_flatMap_all (q : Txn → Bool) (txns : List Txn) :
    (txns.flatMap Txn.all).countP q = txns.countP q + (below txns).countP q := by
  induction txns with
  | nil => rfl
  | cons t txns ih =>
    rw [below] at ih ⊢
    rw [flatMap_cons, flatMap_cons, countP_append, countP_append, ih,
      Txn.all_eq, countP_cons, countP_cons]
    omega

theorem countP_unseen (q : Txn → Bool) (txns : List Txn) :
    (txns.flatMap Txn.all).countP q =
      (txns.flatMap Txn.innerTxns).countP q + (unseen txns).countP q := by
  induction txns with
  | nil => rfl
  | cons t txns ih =>
    rw [unseen] at ih ⊢
    rw [flatMap_cons, flatMap_cons, flatMap_cons, countP_append,
      countP_append, countP_append, ih, Txn.all_eq, countP_cons, countP_cons,
      countP_flatMap_all, below]
    omega

theorem filter_flatMap_all {q : Txn → Bool} {txns : List Txn} (h : ∀ t ∈ below txns, ¬ q t) :
    (txns.flatMap Txn.all).filter q = txns.filter q := by
  induction txns with
  | nil => rfl
  | cons t txns ih =>
    rw [below, flatMap_cons] at h
    obtain ⟨ht, htxns⟩ := forall_mem_append.1 h
    have hnone : (t.innerTxns.flatMap Txn.all).filter q = [] := filter_eq_nil_iff.2 ht
    rw [flatMap_cons, filter_append, ih htxns, Txn.all_eq, filter_cons,
      filter_cons, hnone]
    split <;> rfl

theorem messageCalls_of_seen {c : Config} {txns : List Txn}
    (h : ∀ t ∈ unseen txns, ¬ IsMessage c t) :
    messageCalls c txns = (txns.flatMap Txn.innerTxns).filter (IsMessage c) := by
  induction txns with
  | nil => rfl
  | cons t txns ih =>
    rw [unseen, flatMap_cons] at h
    obtain ⟨hhead, htxns⟩ := forall_mem_append.1 h
    obtain ⟨ht, hbelow⟩ := forall_mem_cons.1 hhead
    have hinner : (t.innerTxns.flatMap Txn.all).filter (IsMessage c) =
        t.innerTxns.filter (IsMessage c) :=
      filter_flatMap_all fun t' ht' => by simpa using hbelow t' ht'
    have hrest : (txns.flatMap Txn.all).filter (IsMessage c) =
        (txns.flatMap Txn.innerTxns).filter (IsMessage c) := ih htxns
    rw [messageCalls, flatMap_cons, flatMap_cons, filter_append, filter_append,
      hrest, Txn.all_eq, filter_cons_of_neg (by simpa using ht), hinner]

/-- The next number that is written is the one that is expected next. -/
def Agree (p : Progress) : Prop := p.seq.toNat = p.status .txSeq + 1

/-- One event for each call, numbered from the expected number on, and both
counters moved by their number. -/
structure Scanned (c : Config) (p : Progress) (calls : List Txn) (events : List Event)
    (p' : Progress) : Prop where
  relays : List.Forall₂ (fun t event => Relays c (innerTxn t) event) calls events
  numbers : events.map Event.sequence = List.range' p.seq.toNat calls.length
  seq : p'.seq.toNat = p.seq.toNat + calls.length
  stored : p'.status .txSeq = p.status .txSeq + calls.length

variable {f : Float64} {c : Config} {round : UInt64} {p p' : Progress} {t : Txn}

def bump (f : Float64) (round : UInt64) (p : Progress) : Progress where
  seq := p.seq + 1
  status := updateHeight f .txHeight round.toNat (incrementSeq f .txSeq p.status)

theorem bump_txSeq (h : p.status .txSeq < 2 ^ 53) :
    (bump f round p).status .txSeq = p.status .txSeq + 1 := by
  simp [bump, updateHeight, incrementSeq, f.increment_of_lt _ h, f.rewrite_of_le _ h]

theorem bump_seq (hagree : Agree p) (h : p.status .txSeq < 2 ^ 53) :
    (bump f round p).seq.toNat = p.seq.toNat + 1 := by
  have hseq : p.seq.toNat < 2 ^ 64 - 1 := by
    rw [hagree]
    omega
  rw [bump, UInt64.toNat_add, UInt64.toNat_one, Nat.mod_eq_of_lt (by omega)]

theorem Relays.addressed (h : Relays c (innerTxn t) event) : Addressed c t := by
  obtain ⟨_, target, message, _, -, htarget, hmessage, hdst, -⟩ := h
  exact ⟨target, message, htarget, hmessage, hdst⟩

theorem getEvents_of_addressed (f : Float64) (round : UInt64)
    (hlog : messageLog c (innerTxn t) = some txnLog)
    (haddr : Addressed c t) (hagree : Agree p) (h : p.status .txSeq < 2 ^ 53) :
    ∃ event, outcome (getEvents f c (fun _ => none) round (innerTxn t)) p =
        (.ok [event], bump f round p) ∧
      Relays c (innerTxn t) event ∧ event.sequence = p.seq.toNat := by
  obtain ⟨target, message, htarget, hmessage, hdst⟩ := haddr
  have hsequence : (bump f round p).status .txSeq = p.seq.toNat := (bump_txSeq h).trans hagree.symm
  refine ⟨{ next := c.dst, sequence := (bump f round p).status .txSeq
            message := encodeBMCMessage (utf8 c.src) (utf8 c.dst) txnLog
              ((bump f round p).status .txSeq) message }, ?_,
    ⟨txnLog, target, message, _, hlog, htarget, hmessage, hdst, rfl⟩, hsequence⟩
  have hevent : outcome (getEventFromMsg c (fun _ => none) txnLog (innerTxn t).applicationArgs)
      { seq := p.seq, status := (bump f round p).status } =
      (.ok { next := c.dst, sequence := (bump f round p).status .txSeq
             message := encodeBMCMessage (utf8 c.src) (utf8 c.dst) txnLog
               ((bump f round p).status .txSeq) message },
        { seq := p.seq, status := (bump f round p).status }) := by
    simp only [getEventFromMsg, outcome_bind_ok, appArg, htarget, hmessage]
    refine ⟨target, _, rfl, (), _, rfl, _, _, rfl, message, _, rfl, ?_⟩
    rw [if_pos hdst, hdst]
    rfl
  simp only [getEvents, hlog, outcome_bind_ok]
  refine ⟨(), _, rfl, (), _, rfl, (), _, rfl, (), _, rfl, _, _, hevent, _, _, rfl, ?_⟩
  rw [if_pos hsequence]
  rfl

theorem getEvents_length
    (h : outcome (getEvents f c faults round (innerTxn t)) p = (.ok events, p')) :
    events.length = if IsMessage c t then 1 else 0 := by
  unfold getEvents at h
  split at h
  · next hlog =>
    obtain ⟨rfl, -⟩ := outcome_pure_ok.1 h
    rw [if_neg (by simp [IsMessage, hlog])]
    rfl
  · next txnLog hlog =>
    simp only [outcome_bind_ok] at h
    obtain ⟨_, _, -, _, _, -, _, _, -, _, _, -, event, _, -, q, _, -, h⟩ := h
    rw [if_pos (by simp [IsMessage, hlog])]
    split at h
    · simp only [outcome_bind_ok, outcome_pure_ok] at h
      obtain ⟨_, _, -, rfl, -⟩ := h
      rfl
    · simp at h

theorem Scanned.nil (p : Progress) : Scanned c p [] [] p := ⟨.nil, rfl, rfl, rfl⟩

theorem scan_scanned {txns : List Txn} (haddr : ∀ t ∈ txns, IsMessage c t → Addressed c t)
    (hagree : Agree p) (hbound : p.status .txSeq + txns.countP (IsMessage c) ≤ 2 ^ 53) :
    ∃ receipts p', outcome (scan f c (fun _ _ => none) round index (txns.map innerTxn)) p =
        (.ok receipts, p') ∧
      Scanned c p (txns.filter (IsMessage c)) (receipts.flatMap Receipt.events) p' := by
  induction txns generalizing p index with
  | nil => exact ⟨[], p, rfl, .nil p⟩
  | cons t txns ih =>
    obtain ⟨ht, htxns⟩ := forall_mem_cons.1 haddr
    rw [countP_cons] at hbound
    simp only [map_cons, scan, outcome_bind_ok]
    by_cases hmsg : IsMessage c t
    · rw [if_pos (decide_eq_true hmsg)] at hbound
      obtain ⟨txnLog, hlog⟩ := Option.isSome_iff_exists.1 hmsg
      obtain ⟨event, hevent, hrelays, hnumber⟩ :=
        getEvents_of_addressed f round hlog (ht hmsg) hagree (by omega)
      have hstored : (bump f round p).status .txSeq = p.status .txSeq + 1 :=
        bump_txSeq (by omega)
      have hseq : (bump f round p).seq.toNat = p.seq.toNat + 1 := bump_seq hagree (by omega)
      obtain ⟨receipts, p', hrest, h⟩ := @ih (bump f round p) (index + 1) htxns
        (by rw [Agree, hseq, hstored, hagree]) (by omega)
      refine ⟨_, p', ⟨[event], _, hevent, receipts, p', hrest, rfl⟩, ?_⟩
      rw [filter_cons_of_pos (by simpa using hmsg), flatMap_cons]
      refine ⟨.cons hrelays h.relays, ?_, ?_, ?_⟩
      · rw [singleton_append, map_cons, hnumber, h.numbers, hseq, length_cons,
          range'_succ]
      · rw [h.seq, hseq, length_cons]
        omega
      · rw [h.stored, hstored, length_cons]
        omega
    · rw [if_neg (by simpa using hmsg)] at hbound
      have hnone : messageLog c (innerTxn t) = none := by simpa [IsMessage] using hmsg
      have hevent : outcome (getEvents f c (fun _ => none) round (innerTxn t)) p = (.ok [], p) := by
        simp only [getEvents, hnone]
        rfl
      obtain ⟨receipts, p', hrest, h⟩ := @ih p (index + 1) htxns hagree (by omega)
      refine ⟨_, p', ⟨[], p, hevent, receipts, p', hrest, rfl⟩, ?_⟩
      rw [filter_cons_of_neg (by simpa using hmsg), flatMap_cons]
      exact h

theorem getEvents_forall₂
    (h : outcome (getEvents f c faults round (innerTxn t)) p = (.ok events, p')) :
    List.Forall₂ (fun t event => Relays c (innerTxn t) event) ([t].filter (IsMessage c)) events := by
  have hlength := getEvents_length h
  have hrelays := getEvents_relays h
  by_cases hmsg : IsMessage c t
  · rw [if_pos hmsg, length_eq_one_iff] at hlength
    obtain ⟨event, rfl⟩ := hlength
    rw [filter_cons_of_pos (by simpa using hmsg)]
    exact .cons (hrelays event mem_cons_self) .nil
  · rw [if_neg hmsg, length_eq_zero_iff] at hlength
    subst hlength
    rw [filter_cons_of_neg (by simpa using hmsg)]
    exact .nil

theorem scan_forall₂ {txns : List Txn}
    (h : outcome (scan f c faults round index (txns.map innerTxn)) p = (.ok receipts, p')) :
    List.Forall₂ (fun t event => Relays c (innerTxn t) event) (txns.filter (IsMessage c))
      (receipts.flatMap Receipt.events) := by
  induction txns generalizing p index receipts with
  | nil =>
    obtain ⟨rfl, -⟩ := outcome_pure_ok.1 h
    exact .nil
  | cons t txns ih =>
    simp only [map_cons, scan, outcome_bind_ok, outcome_pure_ok] at h
    obtain ⟨events, q, hevents, rest, q', hrest, rfl, rfl⟩ := h
    rw [← singleton_append, filter_append, flatMap_cons]
    exact rel_append (getEvents_forall₂ hevents) (ih hrest)

theorem getRelayReceipts_blockOf (header : BlockHeader) (txns : List Txn) :
    getRelayReceipts f c faults (blockOf header txns) =
      scan f c faults header.round 0 ((txns.flatMap Txn.innerTxns).map innerTxn) := by
  rw [getRelayReceipts, blockOf, flatMap_map, map_flatMap]

theorem length_messageCalls (c : Config) (txns : List Txn) :
    (messageCalls c txns).length = (txns.flatMap Txn.innerTxns).countP (IsMessage c) +
      (unseen txns).countP (IsMessage c) := by
  rw [messageCalls, ← countP_eq_length_filter, countP_unseen]

theorem block_scanned (f : Float64) (c : Config) (header : BlockHeader) {txns : List Txn}
    (hseen : ∀ t ∈ unseen txns, ¬ IsMessage c t) (haddr : ∀ t ∈ messageCalls c txns, Addressed c t)
    (hagree : Agree p) (hbound : p.status .txSeq + (messageCalls c txns).length ≤ 2 ^ 53) :
    ∃ receipts p',
      outcome (getRelayReceipts f c (fun _ _ => none) (blockOf header txns)) p =
        (.ok receipts, p') ∧
      Scanned c p (messageCalls c txns) (receipts.flatMap Receipt.events) p' := by
  have hcount := length_messageCalls c txns
  rw [getRelayReceipts_blockOf]
  rw [messageCalls_of_seen hseen] at haddr ⊢
  refine scan_scanned (fun t ht hmsg => haddr t (mem_filter.2 ⟨ht, by simpa using hmsg⟩))
    hagree ?_
  omega

/-- The scan of a block is complete when every call that sends a message is an
inner transaction of a transaction of the block, and addressed to the chain the
receiver works for. -/
theorem block_scan_complete_iff (f : Float64) (c : Config) (header : BlockHeader)
    (txns : List Txn) (p : Progress) (hagree : Agree p)
    (hbound : p.status .txSeq + (messageCalls c txns).length ≤ 2 ^ 53) :
    (∃ receipts p',
      outcome (getRelayReceipts f c (fun _ _ => none) (blockOf header txns)) p =
        (.ok receipts, p') ∧
      Scanned c p (messageCalls c txns) (receipts.flatMap Receipt.events) p') ↔
    (∀ t ∈ unseen txns, ¬ IsMessage c t) ∧ ∀ t ∈ messageCalls c txns, Addressed c t := by
  constructor
  · rintro ⟨receipts, p', hscan, h⟩
    rw [getRelayReceipts_blockOf] at hscan
    have hlength := h.relays.length_eq.trans (scan_forall₂ hscan).length_eq.symm
    rw [length_messageCalls, ← countP_eq_length_filter] at hlength
    have hnone : (unseen txns).countP (IsMessage c) = 0 := by omega
    refine ⟨fun t ht => by simpa using countP_eq_zero.1 hnone t ht, ?_⟩
    exact ((forall₂_and_left _ _).1 (h.relays.imp fun _ _ hr => ⟨hr.addressed, hr⟩)).1
  · rintro ⟨hseen, haddr⟩
    exact block_scanned f c header hseen haddr hagree hbound

def sendTxn (sender : Key) : Txn :=
  .appCall { sender }
    { applicationID := 7
      applicationArgs := [[1, 2, 3, 4], utf8 "btp://0x1.icon/cx01", toBytes 8 1, [9]] }
    [utf8 "escrow"] []

def wrapTxn (applicationID : UInt64) (inner : Txn) : Txn :=
  .appCall { sender := [] } { applicationID, applicationArgs := [] } [] [[inner]]

def sampleHeader : BlockHeader where
  round := 5
  branch := copyHash [1]
  txnCommitment := copyHash [3]
  rest := 0

theorem direct_calls_found :
    ∃ receipts p', outcome (getRelayReceipts smallNumbers sampleConfig (fun _ _ => none)
        (blockOf sampleHeader [wrapTxn 8 (sendTxn [1]), wrapTxn 9 (sendTxn [2])]))
        { seq := 4, status := fun _ => 3 } = (.ok receipts, p') ∧
      (receipts.flatMap Receipt.events).map Event.sequence = [4, 5] ∧ p'.seq.toNat = 6 ∧
      p'.status .txSeq = 5 := by
  have hcalls : messageCalls sampleConfig [wrapTxn 8 (sendTxn [1]), wrapTxn 9 (sendTxn [2])] =
      [sendTxn [1], sendTxn [2]] := rfl
  have hseen : ∀ t ∈ [wrapTxn 8 (sendTxn [1]), wrapTxn 9 (sendTxn [2])],
      ¬ IsMessage sampleConfig t := by
    simp only [forall_mem_cons]
    exact ⟨by decide, by decide, by simp⟩
  have haddr : ∀ t ∈ [sendTxn [1], sendTxn [2]], Addressed sampleConfig t := by
    simp only [forall_mem_cons]
    exact ⟨⟨_, _, rfl, rfl, by decide +kernel⟩, ⟨_, _, rfl, rfl, by decide +kernel⟩, by simp⟩
  obtain ⟨receipts, p', hscan, h⟩ := (block_scan_complete_iff smallNumbers sampleConfig sampleHeader
    [wrapTxn 8 (sendTxn [1]), wrapTxn 9 (sendTxn [2])] { seq := 4, status := fun _ => 3 } rfl
    (by rw [hcalls]; decide)).2 ⟨hseen, by rwa [hcalls]⟩
  exact ⟨receipts, p', hscan, h.numbers, h.seq, h.stored⟩

/-- A deposit that another application has called: its message is not found. -/
theorem nested_call_missed :
    messageCalls sampleConfig [wrapTxn 10 (wrapTxn 8 (sendTxn [1]))] = [sendTxn [1]] ∧
    Agree { seq := 4, status := fun _ => 3 } ∧
    Addressed sampleConfig (sendTxn [1]) ∧
    ¬ ∃ receipts p', outcome (getRelayReceipts smallNumbers sampleConfig (fun _ _ => none)
        (blockOf sampleHeader [wrapTxn 10 (wrapTxn 8 (sendTxn [1]))]))
        { seq := 4, status := fun _ => 3 } = (.ok receipts, p') ∧
      Scanned sampleConfig { seq := 4, status := fun _ => 3 } [sendTxn [1]]
        (receipts.flatMap Receipt.events) p' := by
  refine ⟨rfl, rfl, ⟨_, _, rfl, rfl, by decide +kernel⟩, ?_⟩
  rintro ⟨receipts, p', hscan, h⟩
  have hempty : outcome (getRelayReceipts smallNumbers sampleConfig (fun _ _ => none)
      (blockOf sampleHeader [wrapTxn 10 (wrapTxn 8 (sendTxn [1]))]))
      { seq := 4, status := fun _ => 3 } =
      (.ok [{ index := 0, events := [], height := 5 }], { seq := 4, status := fun _ => 3 }) := rfl
  rw [hempty] at hscan
  cases hscan
  cases h.relays

end IconBridge.Go.Algo
