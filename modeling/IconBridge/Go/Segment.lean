import IconBridge.Go.Codec
import IconBridge.Lib.Greedy
import IconBridge.Solidity.RLP.Struct

/-!
# Relay messages

`Segment` of the relay writes what `decodeReceiptProofs` of the message center
reads: events in the bytes of a receipt, receipts in the bytes of a message.
-/

namespace IconBridge.Go

open Lib
open Solidity.RLP

structure Event where
  next : Bytes
  sequence : UInt64
  message : Option Bytes
  deriving DecidableEq, Repr

structure Receipt where
  index : UInt64
  events : Option (List Event)
  height : UInt64
  deriving DecidableEq, Repr

def encodeEvent (e : Event) : Bytes :=
  encodeStruct [writeString e.next, writeUint64 e.sequence, writeBytes e.message]

/-- `RelayReceipt` -/
def encodeRelayReceipt (index : UInt64) (events : Bytes) (height : UInt64) : Bytes :=
  encodeStruct [writeUint64 index, writeBytes (some events), writeUint64 height]

/-- `RelayMessage` -/
def encodeRelayMessage (receipts : List Bytes) : Bytes :=
  encodeStruct [encodeSlice (fun r => writeBytes (some r)) (some receipts)]

/-- `txMaxDataSize / (1 + txOverheadScale)` as an integer -/
def defaultTxSizeLimit : UInt64 := 8110

def marshalReceipt (r : Receipt) : Except Failure Bytes := do
  let rlpEvents ← marshalToBytes (encodeSlice encodeEvent r.events)
  marshalToBytes (encodeRelayReceipt r.index rlpEvents r.height)

/-- The loop over the receipts: those that are packed, and those from the first
one that is too much on, if there is one. -/
def packReceipts (limit : UInt64) :
    (msgSize : UInt64) → List Receipt → Except Failure (List Bytes × Option (List Receipt))
  | _, [] => .ok ([], none)
  | msgSize, receipt :: receipts => do
    let rlpReceipt ← marshalReceipt receipt
    let newMsgSize := msgSize + UInt64.ofNat rlpReceipt.length
    if limit < newMsgSize then return ([], some (receipt :: receipts))
    else
      let (packed, rest) ← packReceipts limit newMsgSize receipts
      return (rlpReceipt :: packed, rest)

/-- The limit of the options, or the default -/
def sizeLimit (txDataSizeLimit : UInt64) : UInt64 :=
  if txDataSizeLimit = 0 then defaultTxSizeLimit else txDataSizeLimit

/-- The message of the transaction and the receipts of the new message; if all
receipts are packed these are still all of them. -/
def segment (txDataSizeLimit : UInt64) (receipts : List Receipt) :
    Except Failure (Option (Bytes × List Receipt)) :=
  if receipts.length = 0 then .ok none
  else do
    let (packed, rest) ← packReceipts (sizeLimit txDataSizeLimit) 0 receipts
    let message ← marshalToBytes (encodeRelayMessage packed)
    return some (message, rest.getD receipts)

/-- The event as the message center has it -/
def Event.toMessageEvent (e : Event) : MessageEvent :=
  { nextBmc := e.next, seq := e.sequence.toNat, message := e.message.getD [] }

def Receipt.toReceiptProof (r : Receipt) : ReceiptProof :=
  { index := r.index.toNat
    events := (r.events.getD []).map Event.toMessageEvent
    height := r.height.toNat }

theorem nullSequence_isHead : RLP.IsHead 0xc0 0 nullSequence :=
  .long Nat.one_pos (by decide) (by decide)

theorem writeBytes_item (h : (writeBytes b).length < 2 ^ 64) :
    ∃ head, writeBytes b = head ++ b.getD [] ∧ Item head (b.getD []) := by
  cases b with
  | none => exact ⟨nullSequence, rfl, item_of_head (.inr rfl) nullSequence_isHead⟩
  | some b =>
    have hlt : b.length < 2 ^ 64 := (length_le_writeBytes (some b)).trans_lt h
    rw [writeBytes_some hlt]
    exact encodeString_item hlt

theorem length_writeUint64_le (v : UInt64) : (writeUint64 v).length ≤ 10 := by
  have hbits : bitLength v.toNat ≤ 64 := bitLength_le v.toNat_lt
  have hlen : (uint64ToBytes v).length ≤ 9 := by
    rw [uint64ToBytes_eq, shortest, length_twos, width_natCast]
    omega
  simp only [writeUint64, writeBytes]
  split_ifs <;> simp <;> omega

theorem toUint_writeUint64 (h : At (writeUint64 v) item) : toUint item = .ok v.toNat := by
  have hlen := length_writeUint64_le v
  obtain ⟨head, heq, hi⟩ := writeBytes_item (show (writeUint64 v).length < 2 ^ 64 by omega)
  rw [writeUint64, heq] at h hlen
  rw [Option.getD_some] at heq hi h hlen
  have hpayload : (uint64ToBytes v).length ≤ 10 := by
    rw [List.length_append] at hlen
    omega
  rw [toUint_of_at hi h (by omega) (by omega), uint64ToBytes_eq, shortest_natCast, ofBytes_toBytes,
    Nat.mod_eq_of_lt (lt_pow_width _)]

theorem toBytes_writeBytes (hlt : (writeBytes b).length < 2 ^ 64) (h : At (writeBytes b) item) :
    toBytes item = .ok (b.getD []) := by
  obtain ⟨head, heq, hi⟩ := writeBytes_item hlt
  rw [heq] at h
  exact toBytes_of_at hi h

theorem writeBytes_chunk (h : (writeBytes b).length < 2 ^ 64) : Chunk (writeBytes b) := by
  obtain ⟨head, heq, hi⟩ := writeBytes_item h
  exact heq ▸ hi.chunk

theorem writeList_isHead (h : (writeList b).length < 2 ^ 64) :
    ∃ head, writeList b = head ++ b ∧ RLP.IsHead 0xc0 b.length head := by
  have hlt := (length_le_writeList b).trans_lt h
  exact ⟨_, writeList_eq hlt, RLP.head_isHead 0xc0 hlt⟩

theorem writeList_chunk (h : (writeList b).length < 2 ^ 64) : Chunk (writeList b) := by
  obtain ⟨head, heq, hhead⟩ := writeList_isHead h
  exact heq ▸ (item_of_head (.inr rfl) hhead).chunk

theorem length_le_encodeStruct {fields : List Bytes} (h : e ∈ fields) :
    e.length ≤ (encodeStruct fields).length :=
  (List.sublist_flatten_of_mem h).length_le.trans (length_le_writeList _)

theorem toList_encodeStruct {fields : List Bytes} (hlt : (encodeStruct fields).length < 2 ^ 64)
    (hfields : ∀ e ∈ fields, e.length < 2 ^ 64 → Chunk e) (h : At (encodeStruct fields) item) :
    ∃ ls, toList item = .ok ls ∧ List.Forall₂ At fields ls := by
  obtain ⟨head, heq, hhead⟩ := writeList_isHead hlt
  rw [encodeStruct, heq] at h
  refine toList_of_at hhead ((length_le_writeList _).trans_lt hlt) ?_ h
  exact fun e he => hfields e he ((length_le_encodeStruct he).trans_lt hlt)

theorem length_le_encodeSlice (encode : α → Bytes) {xs : Option (List α)} (h : x ∈ xs.getD []) :
    (encode x).length ≤ (encodeSlice encode xs).length := by
  cases xs with
  | none => simp at h
  | some xs => exact length_le_encodeStruct (List.mem_map_of_mem h)

theorem toList_encodeSlice {encode : α → Bytes} {xs : Option (List α)}
    (hlt : (encodeSlice encode xs).length < 2 ^ 64)
    (hxs : ∀ x, (encode x).length < 2 ^ 64 → Chunk (encode x)) (h : At (encodeSlice encode xs) item) :
    ∃ ls, toList item = .ok ls ∧ List.Forall₂ (fun x l => At (encode x) l) (xs.getD []) ls := by
  cases xs with
  | none =>
    have hempty : At (nullSequence ++ ([] : List Bytes).flatten) item := h
    have hhead : RLP.IsHead 0xc0 ([] : List Bytes).flatten.length nullSequence := nullSequence_isHead
    obtain ⟨_, hls, hat⟩ := toList_of_at hhead (by decide) (by simp) hempty
    cases hat
    exact ⟨[], hls, .nil⟩
  | some xs =>
    have hmap : ∀ e ∈ xs.map encode, e.length < 2 ^ 64 → Chunk e := by
      intro e he
      obtain ⟨x, -, rfl⟩ := List.mem_map.1 he
      exact hxs x
    obtain ⟨ls, hls, hat⟩ := toList_encodeStruct hlt hmap h
    exact ⟨ls, hls, List.forall₂_map_left_iff.1 hat⟩

theorem toMessageEvent_encodeEvent (behind : Bytes → Bytes) (e : Event)
    (hlt : (encodeEvent e).length < 2 ^ 64) :
    toMessageEvent behind (encodeEvent e) = .ok e.toMessageEvent := by
  have hnext := (length_le_encodeStruct (List.mem_cons_self ..)).trans_lt hlt
  have hmessage := (length_le_encodeStruct (List.mem_of_getElem? (i := 2) rfl)).trans_lt hlt
  have hchunks : ∀ f ∈ [writeString e.next, writeUint64 e.sequence, writeBytes e.message],
      f.length < 2 ^ 64 → Chunk f := by
    simp only [List.forall_mem_cons, writeString, writeUint64]
    exact ⟨writeBytes_chunk, writeBytes_chunk, writeBytes_chunk, by simp⟩
  obtain ⟨ls, hls, hat⟩ := toList_encodeStruct hlt hchunks (at_toRlpItem behind _)
  obtain _ | ⟨a1, _ | ⟨a2, _ | ⟨a3, _ | _⟩⟩⟩ := hat
  rw [toMessageEvent, encodeEvent, hls]
  simp only [ok_bind, elem, List.getElem?_cons_zero, List.getElem?_cons_succ,
    toBytes_writeBytes hnext a1, toUint_writeUint64 a2, toBytes_writeBytes hmessage a3]
  rfl

theorem encodeEvent_chunk (h : (encodeEvent e).length < 2 ^ 64) : Chunk (encodeEvent e) :=
  writeList_chunk h

/-- The bytes of a receipt, however many -/
def rlpReceipt (r : Receipt) : Bytes :=
  encodeRelayReceipt r.index (encodeSlice encodeEvent r.events) r.height

def Receipt.InBuffer (r : Receipt) : Prop :=
  (encodeSlice encodeEvent r.events).length < 2 ^ 63 ∧ (rlpReceipt r).length < 2 ^ 63

theorem marshalReceipt_ok : marshalReceipt r = .ok bs ↔ r.InBuffer ∧ rlpReceipt r = bs := by
  simp only [marshalReceipt, bind_ok, marshalToBytes_ok, Receipt.InBuffer, rlpReceipt]
  constructor
  · rintro ⟨_, ⟨hevents, rfl⟩, hreceipt, rfl⟩
    exact ⟨⟨hevents, hreceipt⟩, rfl⟩
  · rintro ⟨⟨hevents, hreceipt⟩, rfl⟩
    exact ⟨_, ⟨hevents, rfl⟩, hreceipt, rfl⟩

theorem decodeReceiptProof_rlpReceipt (behind : Bytes → Bytes) (h : r.InBuffer) :
    decodeReceiptProof behind (rlpReceipt r) = .ok r.toReceiptProof := by
  have hevents : (encodeSlice encodeEvent r.events).length < 2 ^ 64 := h.1.trans (by decide)
  have hlt : (rlpReceipt r).length < 2 ^ 64 := h.2.trans (by decide)
  have hbytes := (length_le_encodeStruct (List.mem_cons_of_mem _ (List.mem_cons_self ..))).trans_lt hlt
  have hchunks : ∀ f ∈ [writeUint64 r.index, writeBytes (some (encodeSlice encodeEvent r.events)),
      writeUint64 r.height], f.length < 2 ^ 64 → Chunk f := by
    simp only [List.forall_mem_cons, writeUint64]
    exact ⟨writeBytes_chunk, writeBytes_chunk, writeBytes_chunk, by simp⟩
  obtain ⟨ls, hls, hat⟩ := toList_encodeStruct hlt hchunks (at_toRlpItem behind _)
  obtain _ | ⟨a1, _ | ⟨a2, _ | ⟨a3, _ | _⟩⟩⟩ := hat
  obtain ⟨events, hlist, hat⟩ := toList_encodeSlice hevents (fun _ => encodeEvent_chunk)
    (at_toRlpItem behind _)
  have hdecoded : events.mapM (fun event => toMessageEvent behind (toRlpBytes event)) =
      .ok ((r.events.getD []).map Event.toMessageEvent) := by
    refine mapM_of_forall₂ hat fun e he event hevent => ?_
    rw [toRlpBytes_of_at hevent]
    exact toMessageEvent_encodeEvent behind e ((length_le_encodeSlice _ he).trans_lt hevents)
  rw [decodeReceiptProof, rlpReceipt, encodeRelayReceipt, hls]
  simp only [ok_bind, elem, List.getElem?_cons_zero, List.getElem?_cons_succ,
    toBytes_writeBytes hbytes a2, Option.getD_some, hlist, hdecoded, toUint_writeUint64 a1,
    toUint_writeUint64 a3]
  rfl

theorem decodeReceiptProofs_encodeRelayMessage (behind : Bytes → Bytes) {receipts : List Receipt}
    (hbuffer : ∀ r ∈ receipts, r.InBuffer)
    (hlt : (encodeRelayMessage (receipts.map rlpReceipt)).length < 2 ^ 64) :
    decodeReceiptProofs behind (encodeRelayMessage (receipts.map rlpReceipt)) =
      .ok (receipts.map Receipt.toReceiptProof) := by
  have hslice : encodeSlice (fun bs => writeBytes (some bs)) (some (receipts.map rlpReceipt)) =
      encodeSlice (fun r => writeBytes (some (rlpReceipt r))) (some receipts) := by
    simp only [encodeSlice, List.map_map, Function.comp_def]
  rw [encodeRelayMessage, hslice] at hlt ⊢
  have hlist := (length_le_encodeStruct (List.mem_cons_self ..)).trans_lt hlt
  have hreceipts : ∀ r ∈ receipts, (writeBytes (some (rlpReceipt r))).length < 2 ^ 64 := fun r hr =>
    (length_le_encodeSlice (fun r => writeBytes (some (rlpReceipt r))) hr).trans_lt hlist
  have hchunk : ∀ f ∈ [encodeSlice (fun r => writeBytes (some (rlpReceipt r))) (some receipts)],
      f.length < 2 ^ 64 → Chunk f := by
    rw [List.forall_mem_singleton]
    exact writeList_chunk
  obtain ⟨ls, hls, hat⟩ := toList_encodeStruct hlt hchunk (at_toRlpItem behind _)
  obtain _ | ⟨a, _ | _⟩ := hat
  obtain ⟨items, hitems, hat⟩ := toList_encodeSlice hlist (fun _ => writeBytes_chunk) a
  have hdecoded : items.mapM (fun item => do decodeReceiptProof behind (← toBytes item)) =
      .ok (receipts.map Receipt.toReceiptProof) := by
    refine mapM_of_forall₂ hat fun r hr item hitem => ?_
    rw [toBytes_writeBytes (hreceipts r hr) hitem, ok_bind, Option.getD_some]
    exact decodeReceiptProof_rlpReceipt behind (hbuffer r hr)
  obtain ⟨head, heq, hhead⟩ := writeList_isHead hlist
  rw [encodeSlice, heq] at a
  have hbytes := toBytes_of_at (item_of_head (.inr rfl) hhead) a
  rw [decodeReceiptProofs, hls]
  simp only [ok_bind, elem, List.getElem?_cons_zero, hbytes, hitems, hdecoded]
  split
  · rfl
  · next hempty =>
    -- no receipts, no bytes
    have hchunks : ∀ e ∈ receipts.map fun r => writeBytes (some (rlpReceipt r)), Chunk e := by
      intro e he
      obtain ⟨r, hr, rfl⟩ := List.mem_map.1 he
      exact writeBytes_chunk (hreceipts r hr)
    have hle := length_le_flatten hchunks
    rw [List.length_map] at hle
    rw [List.length_eq_zero_iff.1 (show receipts.length = 0 by omega)]
    rfl

def totalSize (receipts : List Receipt) : ℕ := (receipts.map fun r => (rlpReceipt r).length).sum

theorem totalSize_cons (r : Receipt) (l : List Receipt) :
    totalSize (r :: l) = (rlpReceipt r).length + totalSize l := by
  simp [totalSize]

theorem totalSize_le (h : totalSize (l ++ l') ≤ n) : totalSize l ≤ n := by
  rw [totalSize, List.map_append, List.sum_append] at h
  exact (Nat.le_add_right ..).trans h

theorem packReceipts_ok (h : packReceipts limit msgSize receipts = .ok (packed, rest)) :
    ∃ taken, packed = taken.map rlpReceipt ∧ (∀ r ∈ taken, r.InBuffer) ∧ rest ≠ some [] ∧
      (msgSize.toNat + totalSize receipts < 2 ^ 64 →
        Greedy (fun l => msgSize.toNat + totalSize l ≤ limit.toNat) receipts taken (rest.getD [])) := by
  induction receipts generalizing msgSize packed rest with
  | nil =>
    cases h
    exact ⟨[], rfl, by simp, by simp, fun _ => .nil⟩
  | cons r receipts ih =>
    simp only [packReceipts, bind_ok, marshalReceipt_ok] at h
    obtain ⟨_, ⟨hbuffer, rfl⟩, h⟩ := h
    rw [totalSize_cons]
    have hone : totalSize [r] = (rlpReceipt r).length := by simp [totalSize]
    have hsize (hmemory : msgSize.toNat + ((rlpReceipt r).length + totalSize receipts) < 2 ^ 64) :
        (msgSize + UInt64.ofNat (rlpReceipt r).length).toNat =
          msgSize.toNat + (rlpReceipt r).length := by
      rw [UInt64.toNat_add, UInt64.toNat_ofNat', Nat.add_mod_mod, Nat.mod_eq_of_lt (by omega)]
    split at h
    · next hmore =>
      cases h
      refine ⟨[], rfl, by simp, by simp, fun hmemory => .stop ?_⟩
      rwa [UInt64.lt_iff_toNat_lt, hsize hmemory, ← hone, ← not_le] at hmore
    · next hfits =>
      simp only [bind_ok, pure_ok, Prod.exists, Prod.mk.injEq] at h
      obtain ⟨packed', rest', hpack, rfl, rfl⟩ := h
      obtain ⟨taken, rfl, htaken, hrest, hgreedy⟩ := ih hpack
      refine ⟨r :: taken, rfl, List.forall_mem_cons.2 ⟨hbuffer, htaken⟩, hrest, fun hmemory => ?_⟩
      rw [hsize hmemory, Nat.add_assoc] at hgreedy
      refine (hgreedy hmemory).cons ?_ fun l => by rw [totalSize_cons, Nat.add_assoc]
      rwa [UInt64.lt_iff_toNat_lt, hsize hmemory, ← hone, not_lt] at hfits

/-- If the receipts are within the limit, the message center reads them from the
message, whatever its memory has behind the bytes. -/
theorem decodeReceiptProofs_segment (behind : Bytes → Bytes) (txDataSizeLimit : UInt64)
    (receipts rest : List Receipt) (message : Bytes)
    (hfit : totalSize receipts ≤ (sizeLimit txDataSizeLimit).toNat)
    (h : segment txDataSizeLimit receipts = .ok (some (message, rest))) :
    decodeReceiptProofs behind message = .ok (receipts.map Receipt.toReceiptProof) := by
  unfold segment at h
  split at h
  · cases h
  · simp only [bind_ok, marshalToBytes_ok, pure_ok, Prod.exists, Option.some.injEq,
      Prod.mk.injEq] at h
    obtain ⟨packed, _, hpack, message, ⟨hlt, rfl⟩, rfl, -⟩ := h
    obtain ⟨taken, rfl, htaken, -, hgreedy⟩ := packReceipts_ok hpack
    have hlimit := (sizeLimit txDataSizeLimit).toNat_lt
    simp only [UInt64.toNat_zero, zero_add] at hgreedy
    have hgreedy := hgreedy (hfit.trans_lt hlimit)
    have hrest := hgreedy.rest_eq_nil (fun _ _ => totalSize_le) hfit
    obtain rfl : receipts = taken := by rw [hgreedy.eq, hrest, List.append_nil]
    exact decodeReceiptProofs_encodeRelayMessage behind htaken (hlt.trans (by decide))

def sampleReceipts : List Receipt :=
  [{ index := 0
     events := some [
       { next := utf8 "btp://0x61.bsc/0x03", sequence := 200, message := some [0x80] },
       { next := [], sequence := 0xffffffffffffffff, message := none }]
     height := 56 },
   { index := 128, events := none, height := 0 }]

theorem sampleReceipts_decoded : ∃ message rest,
    segment 0 sampleReceipts = .ok (some (message, rest)) ∧
    decodeReceiptProofs (fun _ => []) message = .ok (sampleReceipts.map Receipt.toReceiptProof) :=
  ⟨_, _, rfl, decodeReceiptProofs_segment _ 0 _ _ _ (by decide +kernel) rfl⟩

end IconBridge.Go
