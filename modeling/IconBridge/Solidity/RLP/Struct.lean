import IconBridge.Solidity.RLP.Encode
import IconBridge.Solidity.RLP.Decode

/-!
# `RLPEncodeStruct` and `RLPDecodeStruct`

The messages of the message center and the relay messages that it receives.
-/

namespace IconBridge.Solidity.RLP

open Lib

/-- `Types.BMCMessage` -/
structure BMCMessage where
  src : Bytes
  dst : Bytes
  svc : Bytes
  sn : ℤ
  message : Bytes
  deriving DecidableEq, Repr

structure MessageEvent where
  nextBmc : Bytes
  seq : ℕ
  message : Bytes
  deriving DecidableEq, Repr

structure ReceiptProof where
  index : ℕ
  events : List MessageEvent
  height : ℕ
  deriving DecidableEq, Repr

def encodeBMCMessage (_bm : BMCMessage) : Outcome Bytes := do
  let _rlp := encodeBytes _bm.src ++ encodeBytes _bm.dst ++ encodeBytes _bm.svc
    ++ (← encodeInt _bm.sn) ++ encodeBytes _bm.message
  return (← addLength _rlp.length) ++ _rlp

section Decode

-- What memory has behind an array
variable (behind : Bytes → Bytes)

def toRlpItem (item : Bytes) : RLPItem := ⟨item.length, item ++ behind item⟩

def decodeBMCMessage (_rlp : Bytes) : Outcome BMCMessage := do
  let ls ← toList (toRlpItem behind _rlp)
  return {
    src := ← toBytes (← elem ls 0)
    dst := ← toBytes (← elem ls 1)
    svc := ← toBytes (← elem ls 2)
    sn := ← toInt (← elem ls 3)
    message := ← toBytes (← elem ls 4) }

def toMessageEvent (_rlp : Bytes) : Outcome MessageEvent := do
  let ls ← toList (toRlpItem behind _rlp)
  return {
    nextBmc := ← toBytes (← elem ls 0)
    seq := ← toUint (← elem ls 1)
    message := ← toBytes (← elem ls 2) }

def decodeReceiptProof (_rlp : Bytes) : Outcome ReceiptProof := do
  let ls ← toList (toRlpItem behind _rlp)
  let events ← toList (toRlpItem behind (← toBytes (← elem ls 1)))
  let events ← events.mapM fun event => toMessageEvent behind (toRlpBytes event)
  return { index := ← toUint (← elem ls 0), events, height := ← toUint (← elem ls 2) }

def decodeReceiptProofs (_rlp : Bytes) : Outcome (List ReceiptProof) := do
  let ls ← toList (toRlpItem behind _rlp)
  if (← toBytes (← elem ls 0)).length ≠ 0 then
    let receipts ← toList (← elem ls 0)
    receipts.mapM fun receipt => do decodeReceiptProof behind (← toBytes receipt)
  else return []

end Decode

/-- What is read of a string: a single byte 128 is taken for the head of an empty
string. -/
def reread (bs : Bytes) : Bytes := if bs = [0x80] then [] else bs

theorem reread_eq_self : reread bs = bs ↔ bs ≠ [0x80] := by
  unfold reread
  split
  · next h => simp [h]
  · next h => simp [h]

theorem encodeBytes_item (h : bs.length < 2 ^ 64) :
    ∃ head, encodeBytes bs = head ++ reread bs ∧ Item head (reread bs) := by
  by_cases hbs : bs = [0x80]
  · subst hbs
    exact ⟨[0x80], rfl, item_of_head (.inl rfl) (.short (Nat.zero_le 55))⟩
  · rw [encodeBytes_eq h hbs, reread_eq_self.2 hbs]
    exact encodeString_item h

theorem length_head_le (h : RLP.IsHead base n head) : head.length ≤ 9 := by
  cases h with
  | short => simp
  | long hk hk8 =>
    rw [List.length_cons, length_toBytes]
    omega

theorem length_encodeBytes_le (h : bs.length < 2 ^ 64) :
    (encodeBytes bs).length ≤ bs.length + 9 := by
  unfold encodeBytes
  split
  · omega
  · rw [encodeLength_eq h, List.length_append]
    have := length_head_le (RLP.head_isHead 128 h)
    omega

theorem shortest_eq_iff : shortest n = [0x80] ↔ n = -128 := by
  constructor
  · intro h
    rw [← signed_shortest n, h]
    decide
  · rintro rfl
    decide +kernel

theorem toInt_of_empty (hi : Item head []) (h : At (head ++ []) item) :
    toInt item = .error (.panic 0x32) := by
  rw [toInt, toBytes_of_at hi h]
  rfl

theorem at_toRlpItem (behind : Bytes → Bytes) (bs : Bytes) : At bs (toRlpItem behind bs) :=
  ⟨rfl, _, rfl⟩

theorem decodeBMCMessage_of_items {behind : Bytes → Bytes}
    (hhead : RLP.IsHead 0xc0 [h1 ++ src, h2 ++ dst, h3 ++ svc, h4 ++ sn, h5 ++ message].flatten.length
      head)
    (hlt : [h1 ++ src, h2 ++ dst, h3 ++ svc, h4 ++ sn, h5 ++ message].flatten.length < 2 ^ 64)
    (i1 : Item h1 src) (i2 : Item h2 dst) (i3 : Item h3 svc) (i4 : Item h4 sn) (i5 : Item h5 message)
    (hint : ∀ item, At (h4 ++ sn) item → toInt item = result) :
    decodeBMCMessage behind
        (head ++ [h1 ++ src, h2 ++ dst, h3 ++ svc, h4 ++ sn, h5 ++ message].flatten) =
      (do return { src, dst, svc, sn := ← result, message }) := by
  have hes : ∀ e ∈ [h1 ++ src, h2 ++ dst, h3 ++ svc, h4 ++ sn, h5 ++ message], Chunk e := by
    simp [i1.chunk, i2.chunk, i3.chunk, i4.chunk, i5.chunk]
  obtain ⟨ls, hls, hat⟩ := toList_of_at hhead hlt hes (at_toRlpItem behind _)
  obtain _ | ⟨a1, _ | ⟨a2, _ | ⟨a3, _ | ⟨a4, _ | ⟨a5, _ | _⟩⟩⟩⟩⟩ := hat
  rw [decodeBMCMessage, hls]
  simp only [ok_bind, elem, List.getElem?_cons_zero, List.getElem?_cons_succ, toBytes_of_at i1 a1,
    toBytes_of_at i2 a2, toBytes_of_at i3 a3, hint _ a4, toBytes_of_at i5 a5]

/-- The fields together leave room for their heads in memory. -/
def BMCMessage.inMemory (m : BMCMessage) : Prop :=
  m.src.length + m.dst.length + m.svc.length + m.message.length + 64 < 2 ^ 64

theorem decodeBMCMessage_encoded (behind : Bytes → Bytes) (m : BMCMessage) (hsn : Fits 16 m.sn)
    (hmem : m.inMemory) :
    ∃ bs, encodeBMCMessage m = .ok bs ∧ decodeBMCMessage behind bs =
      if m.sn = -128 then .error (.panic 0x32)
      else .ok { m with
        src := reread m.src, dst := reread m.dst, svc := reread m.svc, message := reread m.message } := by
  unfold BMCMessage.inMemory at hmem
  have hwidth : (shortest m.sn).length ≤ 16 := by
    rw [shortest, length_twos]
    exact (fits_iff_width_le (by decide)).1 hsn
  obtain ⟨h1, e1, i1⟩ := encodeBytes_item (show m.src.length < 2 ^ 64 by omega)
  obtain ⟨h2, e2, i2⟩ := encodeBytes_item (show m.dst.length < 2 ^ 64 by omega)
  obtain ⟨h3, e3, i3⟩ := encodeBytes_item (show m.svc.length < 2 ^ 64 by omega)
  obtain ⟨h4, e4, i4⟩ := encodeBytes_item (show (shortest m.sn).length < 2 ^ 64 by omega)
  obtain ⟨h5, e5, i5⟩ := encodeBytes_item (show m.message.length < 2 ^ 64 by omega)
  have l1 := length_encodeBytes_le (show m.src.length < 2 ^ 64 by omega)
  have l2 := length_encodeBytes_le (show m.dst.length < 2 ^ 64 by omega)
  have l3 := length_encodeBytes_le (show m.svc.length < 2 ^ 64 by omega)
  have l4 := length_encodeBytes_le (show (shortest m.sn).length < 2 ^ 64 by omega)
  have l5 := length_encodeBytes_le (show m.message.length < 2 ^ 64 by omega)
  have hpayload : encodeBytes m.src ++ encodeBytes m.dst ++ encodeBytes m.svc ++
      encodeBytes (shortest m.sn) ++ encodeBytes m.message =
      [h1 ++ reread m.src, h2 ++ reread m.dst, h3 ++ reread m.svc, h4 ++ reread (shortest m.sn),
        h5 ++ reread m.message].flatten := by
    simp [e1, e2, e3, e4, e5]
  have hlt : [h1 ++ reread m.src, h2 ++ reread m.dst, h3 ++ reread m.svc,
      h4 ++ reread (shortest m.sn), h5 ++ reread m.message].flatten.length + 1 < 2 ^ 64 := by
    rw [← hpayload]
    simp only [List.length_append]
    omega
  obtain ⟨head, hhead, hishead⟩ := addLength_isHead hlt
  refine ⟨head ++ [h1 ++ reread m.src, h2 ++ reread m.dst, h3 ++ reread m.svc,
    h4 ++ reread (shortest m.sn), h5 ++ reread m.message].flatten, ?_, ?_⟩
  · rw [encodeBMCMessage, encodeInt, intToStrictBytes_eq hsn]
    simp only [ok_bind, pure_bind, hpayload, hhead]
    rfl
  · by_cases hneg : m.sn = -128
    · have hempty : reread (shortest m.sn) = [] := by
        rw [reread, if_pos (shortest_eq_iff.2 hneg)]
      rw [hempty] at i4 hishead hlt ⊢
      rw [if_pos hneg, decodeBMCMessage_of_items hishead (by omega) i1 i2 i3 i4 i5
        fun item h => toInt_of_empty i4 h]
      rfl
    · have hself : reread (shortest m.sn) = shortest m.sn :=
        reread_eq_self.2 fun h => hneg (shortest_eq_iff.1 h)
      have hne : shortest m.sn ≠ [] := by
        intro h
        have := congrArg List.length h
        simp [shortest, width] at this
      rw [hself] at e4 i4 hishead hlt ⊢
      have hle : (h4 ++ shortest m.sn).length ≤ 33 := by
        rw [← e4]
        omega
      rw [if_neg hneg, decodeBMCMessage_of_items hishead (by omega) i1 i2 i3 i4 i5
        fun item h => toInt_of_at i4 h hne hle (by omega), signed_shortest]
      rfl

/-- A message is read back if and only if none of its fields is written as the
single byte 128. -/
theorem decodeBMCMessage_encodeBMCMessage (behind : Bytes → Bytes) (m : BMCMessage)
    (hsn : -2 ^ 127 ≤ m.sn ∧ m.sn ≤ 2 ^ 127 - 1) (hmem : m.inMemory) :
    (∃ bs, encodeBMCMessage m = .ok bs ∧ decodeBMCMessage behind bs = .ok m) ↔
      m.src ≠ [0x80] ∧ m.dst ≠ [0x80] ∧ m.svc ≠ [0x80] ∧ m.sn ≠ -128 ∧ m.message ≠ [0x80] := by
  have hfits : Fits 16 m.sn := by
    unfold Fits
    omega
  obtain ⟨bs, hencode, hdecode⟩ := decodeBMCMessage_encoded behind m hfits hmem
  simp only [← reread_eq_self]
  constructor
  · rintro ⟨bs', hencode', hdecode'⟩
    cases hencode.symm.trans hencode'
    rw [hdecode'] at hdecode
    split at hdecode
    · cases hdecode
    · next hneg =>
      obtain ⟨src, dst, svc, sn, message⟩ := m
      simp only [Except.ok.injEq, BMCMessage.mk.injEq] at hdecode
      obtain ⟨hsrc, hdst, hsvc, -, hmessage⟩ := hdecode
      exact ⟨hsrc.symm, hdst.symm, hsvc.symm, hneg, hmessage.symm⟩
  · rintro ⟨hsrc, hdst, hsvc, hneg, hmessage⟩
    refine ⟨bs, hencode, ?_⟩
    rw [hdecode, if_neg hneg, hsrc, hdst, hsvc, hmessage]

/-- A message with the serial number `sn` -/
def errorReply (sn : ℤ) : BMCMessage :=
  { src := utf8 "btp://0x61.bsc/0x03", dst := utf8 "btp://0x2.icon/cx01", svc := utf8 "bts", sn
    message := [0xc2, 0x0c, 0x80] }

theorem errorReply_read_back : ∃ bs, encodeBMCMessage (errorReply (-129)) = .ok bs ∧
    decodeBMCMessage (fun _ => []) bs = .ok (errorReply (-129)) :=
  (decodeBMCMessage_encodeBMCMessage (fun _ => []) (errorReply (-129)) (by decide +kernel)
    (by unfold BMCMessage.inMemory; decide +kernel)).2 (by decide +kernel)

/-- The reply to the message with the serial number 128 is not read. -/
theorem errorReply_not_read : ∃ bs, encodeBMCMessage (errorReply (-128)) = .ok bs ∧
    decodeBMCMessage (fun _ => []) bs = .error (.panic 0x32) :=
  ⟨_, rfl, by decide +kernel⟩

end IconBridge.Solidity.RLP
