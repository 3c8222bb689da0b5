import IconBridge.Lib.RLP
import IconBridge.Lib.TwosComplement
import IconBridge.Solidity.Basic

/-!
# `RLPDecode`

The decoder walks over memory with pointers and does not look where an array
ends. What stands behind an array is arbitrary; behind the used memory there are
zeros.
-/

namespace IconBridge.Solidity.RLP

open Lib

/-- `memPtr` is given by the memory from there on. -/
structure RLPItem where
  len : ℕ
  mem : Bytes

def readMem (n : ℕ) (mem : Bytes) : Bytes := (mem ++ List.replicate n 0).take n

def mload (mem : Bytes) : ℕ := ofBytes (readMem 32 mem)

/-- `byte(0, mload(memPtr))` -/
def byte0 (mem : Bytes) : ℕ := (mem.headD 0).toNat

/-- What a long head announces in `byteLen` bytes, and the head. -/
def longLength (mem : Bytes) (byteLen : ℕ) : ℕ :=
  mload (mem.drop 1) / 256 ^ (32 - byteLen) + (byteLen + 1)

/-- `_itemLength` -/
def itemLength (mem : Bytes) : ℕ :=
  let byte0 := byte0 mem
  if byte0 < 0x80 then 1
  else if byte0 < 0xb8 then byte0 - 0x80 + 1
  else if byte0 < 0xc0 then longLength mem (byte0 - 0xb7)
  else if byte0 < 0xf8 then byte0 - 0xc0 + 1
  else longLength mem (byte0 - 0xf7)

/-- `_payloadOffset` -/
def payloadOffset (mem : Bytes) : ℕ :=
  let byte0 := byte0 mem
  if byte0 < 0x80 then 0
  else if byte0 < 0xb8 ∨ (0xc0 ≤ byte0 ∧ byte0 < 0xf8) then 1
  else if byte0 < 0xc0 then byte0 - (0xb8 - 1) + 1
  else byte0 - (0xf8 - 1) + 1

def isList (item : RLPItem) : Bool := item.len ≠ 0 && 0xc0 ≤ byte0 item.mem

/-- The loop of `numItems` from a position on; every item has a length. -/
def numItems (item : RLPItem) : (rounds currPtr : ℕ) → ℕ
  | 0, _ => 0
  | rounds + 1, currPtr =>
    if currPtr < item.len then
      numItems item rounds (currPtr + itemLength (item.mem.drop currPtr)) + 1
    else 0

/-- The loop of `toList`. -/
def takeItems (mem : Bytes) : (items : ℕ) → List RLPItem
  | 0 => []
  | items + 1 =>
    let dataLen := itemLength mem
    ⟨dataLen, mem⟩ :: takeItems (mem.drop dataLen) items

def toList (item : RLPItem) : Outcome (List RLPItem) := do
  require (isList item) (.error "Must be a list")
  let offset := payloadOffset item.mem
  return takeItems (item.mem.drop offset) (numItems item item.len offset)

def toRlpBytes (item : RLPItem) : Bytes := readMem item.len item.mem

def toBytes (item : RLPItem) : Outcome Bytes := do
  require (0 < item.len) (.error "Invalid length")
  let offset := payloadOffset item.mem
  let len ← sub item.len offset
  return readMem len (item.mem.drop offset)

/-- Without a payload the divisor is `exp(256, 32)`, and the quotient is zero. -/
def toUint (item : RLPItem) : Outcome ℕ := do
  require (0 < item.len ∧ item.len ≤ 33) (.error "Invalid uint number")
  let offset := payloadOffset item.mem
  let len ← sub item.len offset
  let result := mload (item.mem.drop offset)
  return if len < 32 then result / 256 ^ (32 - len) else result

/-- The conversion to `int256` -/
def toInt256 (n : ℕ) : ℤ := Int.bmod n (2 ^ 256)

def toInt (item : RLPItem) : Outcome ℤ := do
  match ← toBytes item with
  | [] => .error (.panic 0x32)
  | b :: bs =>
    let value := toInt256 (← toUint item)
    if b &&& 0x80 = 0x80 then
      let power := 2 ^ ((bs.length + 1) * 8)
      require (power ≤ uint256Max) (.panic 0x11)
      let result := value - toInt256 power
      require (-2 ^ 255 ≤ result ∧ result < 2 ^ 255) (.panic 0x11)
      return result
    else return value

/-- An element of a memory array -/
def elem (ls : List RLPItem) (i : ℕ) : Outcome RLPItem :=
  match ls[i]? with
  | some item => .ok item
  | none => .error (.panic 0x32)

theorem readMem_append (h : bs.length = n) : readMem n (bs ++ rest) = bs := by
  rw [readMem, List.append_assoc, List.take_left' h]

@[simp] theorem length_readMem : (readMem n mem).length = n := by
  simp [readMem]

theorem readMem_add : readMem (j + k) mem = readMem j mem ++ readMem k (mem.drop j) := by
  have htake {n m} (mem : Bytes) (h : n ≤ m) : (mem ++ List.replicate m 0).take n = readMem n mem := by
    rw [readMem, List.take_append, List.take_append, List.take_replicate, List.take_replicate]
    congr 2
    omega
  have hdrop : (mem ++ List.replicate (j + k) 0).drop j =
      mem.drop j ++ List.replicate (j + k - (j - mem.length)) 0 := by
    rw [List.drop_append, List.drop_replicate]
  rw [readMem, List.take_add, htake mem (Nat.le_add_right j k), hdrop, htake _ (by omega)]

theorem mload_div (hk : k ≤ 32) : mload mem / 256 ^ (32 - k) = ofBytes (readMem k mem) := by
  have hsplit : readMem 32 mem = readMem k mem ++ readMem (32 - k) (mem.drop k) := by
    rw [← readMem_add, Nat.add_sub_cancel' hk]
  have hlow := ofBytes_lt (readMem (32 - k) (mem.drop k))
  rw [length_readMem] at hlow
  rw [mload, hsplit, ofBytes_append, length_readMem, Nat.mul_comm,
    Nat.mul_add_div (Nat.pow_pos (by decide)), Nat.div_eq_of_lt hlow, Nat.add_zero]

theorem longLength_eq (hk : k ≤ 32) (hn : n < 256 ^ k) :
    longLength (b :: (Lib.toBytes k n ++ rest)) k = n + (k + 1) := by
  rw [longLength, List.drop_one, List.tail_cons, mload_div hk, readMem_append length_toBytes,
    ofBytes_toBytes, Nat.mod_eq_of_lt hn]

theorem itemLength_of_head (hbase : base = 0x80 ∨ base = 0xc0) (hb : byte0 mem = base + n)
    (hn : n < 64) : itemLength mem = if n ≤ 55 then n + 1 else longLength mem (n - 55) := by
  have hlong : base + n - (base + 55) = n - 55 := by omega
  unfold itemLength
  rcases hbase with rfl | rfl <;> simp only [hb] <;> split_ifs <;> first | omega | rw [← hlong]

theorem payloadOffset_of_head (hbase : base = 0x80 ∨ base = 0xc0) (hb : byte0 mem = base + n)
    (hn : n < 64) : payloadOffset mem = if n ≤ 55 then 1 else n - 55 + 1 := by
  unfold payloadOffset
  rcases hbase with rfl | rfl <;> simp only [hb] <;> split_ifs <;> omega

/-- The decoder finds `payload` behind `head`, whatever follows. -/
structure Item (head payload : Bytes) : Prop where
  offset : ∀ rest, payloadOffset (head ++ payload ++ rest) = head.length
  length : ∀ rest, itemLength (head ++ payload ++ rest) = (head ++ payload).length
  pos : head ++ payload ≠ []

theorem item_of_lt (h : b < 0x80) : Item [] [b] := by
  have hb : b.toNat < 0x80 := UInt8.lt_iff_toNat_lt.1 h
  refine ⟨fun rest => ?_, fun rest => ?_, by simp⟩ <;>
    simp [payloadOffset, itemLength, byte0, hb]

theorem item_of_head (hbase : base = 0x80 ∨ base = 0xc0)
    (h : RLP.IsHead base payload.length head) : Item head payload := by
  cases h with
  | short hn =>
    have hb (rest : Bytes) : byte0 ([UInt8.ofNat (base + payload.length)] ++ payload ++ rest) =
        base + payload.length := by
      simp only [byte0, List.cons_append, List.headD_cons, UInt8.toNat_ofNat']
      omega
    refine ⟨fun rest => ?_, fun rest => ?_, by simp⟩
    · rw [payloadOffset_of_head hbase (hb rest) (by omega), if_pos hn]
      rfl
    · rw [itemLength_of_head hbase (hb rest) (by omega), if_pos hn]
      simp
  | @long k hk hk8 hn =>
    have hb (rest : Bytes) : byte0 (UInt8.ofNat (base + 55 + k) ::
        Lib.toBytes k payload.length ++ payload ++ rest) = base + (55 + k) := by
      simp only [byte0, List.cons_append, List.headD_cons, UInt8.toNat_ofNat']
      omega
    refine ⟨fun rest => ?_, fun rest => ?_, by simp⟩
    · rw [payloadOffset_of_head hbase (hb rest) (by omega), if_neg (by omega), List.length_cons,
        length_toBytes]
      omega
    · rw [itemLength_of_head hbase (hb rest) (by omega), if_neg (by omega), Nat.add_sub_cancel_left,
        List.cons_append, List.cons_append, List.append_assoc, longLength_eq (by omega) hn]
      simp only [List.length_cons, List.length_append, length_toBytes]
      omega

theorem encodeString_item (h : bs.length < 2 ^ 64) :
    ∃ head, RLP.encodeString bs = head ++ bs ∧ Item head bs := by
  have hlong := item_of_head (.inl rfl) (RLP.head_isHead 0x80 h)
  unfold RLP.encodeString
  split
  · next b =>
    split
    · next hb => exact ⟨[], rfl, item_of_lt hb⟩
    · exact ⟨_, rfl, hlong⟩
  · exact ⟨_, rfl, hlong⟩

/-- The pointer is at `e`. -/
def At (e : Bytes) (item : RLPItem) : Prop := item.len = e.length ∧ ∃ rest, item.mem = e ++ rest

theorem toRlpBytes_of_at (h : At e item) : toRlpBytes item = e := by
  obtain ⟨hlen, rest, hmem⟩ := h
  rw [toRlpBytes, hmem, readMem_append hlen.symm]

theorem sub_length (head payload : Bytes) :
    sub (head ++ payload).length head.length = .ok payload.length := by
  rw [sub_ok, List.length_append]
  omega

theorem drop_head (head payload rest : Bytes) :
    (head ++ payload ++ rest).drop head.length = payload ++ rest := by
  rw [List.append_assoc, List.drop_left]

theorem toBytes_of_at (hi : Item head payload) (h : At (head ++ payload) item) :
    toBytes item = .ok payload := by
  obtain ⟨hlen, rest, hmem⟩ := h
  have hpos := List.length_pos_of_ne_nil hi.pos
  simp only [toBytes, hmem, hlen, hi.offset, sub_length, hpos, decide_true, require_true, ok_bind,
    drop_head, readMem_append]
  rfl

theorem toUint_of_at (hi : Item head payload) (h : At (head ++ payload) item)
    (hle : (head ++ payload).length ≤ 33) (hword : payload.length ≤ 32) :
    toUint item = .ok (ofBytes payload) := by
  obtain ⟨hlen, rest, hmem⟩ := h
  have hpos := List.length_pos_of_ne_nil hi.pos
  have hvalue : (if payload.length < 32 then mload (payload ++ rest) / 256 ^ (32 - payload.length)
      else mload (payload ++ rest)) = ofBytes payload := by
    have hdiv : mload (payload ++ rest) / 256 ^ (32 - payload.length) = ofBytes payload := by
      rw [mload_div hword, readMem_append rfl]
    split
    · exact hdiv
    · next hfull =>
      rwa [show 32 - payload.length = 0 by omega, Nat.pow_zero, Nat.div_one] at hdiv
  simp only [toUint, hmem, hlen, hi.offset, sub_length, hpos, hle, and_self, decide_true,
    require_true, ok_bind, drop_head, hvalue]
  rfl

theorem sign_iff (b : UInt8) : b &&& 0x80 = 0x80 ↔ 0x80 ≤ b.toNat := by
  have hall : ∀ n < 256, UInt8.ofNat n &&& 0x80 = 0x80 ↔ 0x80 ≤ n := by decide +kernel
  have h := hall b.toNat b.toNat_lt
  rwa [UInt8.ofNat_toNat] at h

theorem toInt_of_at (hi : Item head payload) (h : At (head ++ payload) item)
    (hne : payload ≠ []) (hle : (head ++ payload).length ≤ 33) (hword : payload.length < 32) :
    toInt item = .ok (signed payload) := by
  have hlt := ofBytes_lt payload
  have hpow : 256 ^ payload.length ≤ 256 ^ 31 := Nat.pow_le_pow_right (by decide) (by omega)
  have hsmall {n : ℕ} (hn : n ≤ 256 ^ 31) : toInt256 n = n := by
    unfold toInt256
    apply Int.bmod_eq_of_le <;> omega
  rw [toInt, toBytes_of_at hi h, toUint_of_at hi h hle hword.le]
  obtain ⟨b, bs, rfl⟩ := List.exists_cons_of_ne_nil hne
  have hvalue := hsmall (hlt.le.trans hpow)
  have hpower : 2 ^ ((bs.length + 1) * 8) = 256 ^ (bs.length + 1) := by
    rw [pow_256, Nat.mul_comm]
  rw [List.length_cons] at hlt hpow
  simp only [ok_bind, sign_iff, hvalue, hpower, hsmall hpow]
  rw [signed_cons]
  split
  · next hneg =>
    have hrange : -2 ^ 255 ≤ (ofBytes (b :: bs) : ℤ) - (256 ^ (bs.length + 1) : ℕ) ∧
        (ofBytes (b :: bs) : ℤ) - (256 ^ (bs.length + 1) : ℕ) < 2 ^ 255 := by
      omega
    have hmax : 256 ^ (bs.length + 1) ≤ uint256Max := hpow.trans (by decide)
    simp only [hmax, hrange, and_self, decide_true, require_true, ok_bind]
    push_cast
    rfl
  · rw [sub_zero]
    rfl

/-- The decoder steps over `e`. -/
def Chunk (e : Bytes) : Prop := e ≠ [] ∧ ∀ rest, itemLength (e ++ rest) = e.length

theorem Item.chunk (hi : Item head payload) : Chunk (head ++ payload) := ⟨hi.pos, hi.length⟩

theorem encodeString_chunk (h : bs.length < 2 ^ 64) : Chunk (RLP.encodeString bs) := by
  obtain ⟨head, heq, hi⟩ := encodeString_item h
  exact heq ▸ hi.chunk

theorem length_le_flatten {es : List Bytes} (hes : ∀ e ∈ es, Chunk e) :
    es.length ≤ es.flatten.length := by
  induction es with
  | nil => rfl
  | cons e es ih =>
    obtain ⟨⟨hpos, -⟩, hes⟩ := List.forall_mem_cons.1 hes
    have := List.length_pos_of_ne_nil hpos
    have := ih hes
    simp only [List.length_cons, List.flatten_cons, List.length_append]
    omega

/-- The loop has passed `front`, and counts the chunks up to the end of the item. -/
theorem numItems_eq {es : List Bytes} {front : Bytes} (hes : ∀ e ∈ es, Chunk e)
    (hmem : item.mem = front ++ es.flatten ++ rest)
    (hlen : item.len = front.length + es.flatten.length) (hrounds : es.length ≤ rounds) :
    numItems item rounds front.length = es.length := by
  induction es generalizing front rounds with
  | nil =>
    cases rounds with
    | zero => rfl
    | succ rounds => rw [numItems, if_neg (by simp [hlen])]; rfl
  | cons e es ih =>
    obtain ⟨⟨hpos, hitem⟩, hes⟩ := List.forall_mem_cons.1 hes
    have hpos := List.length_pos_of_ne_nil hpos
    rw [List.flatten_cons] at hmem hlen
    rw [List.length_append] at hlen
    cases rounds with
    | zero => simp at hrounds
    | succ rounds =>
      have hnext : front.length + itemLength (item.mem.drop front.length) = (front ++ e).length := by
        rw [hmem, drop_head, List.append_assoc, hitem, List.length_append]
      have hmem' : item.mem = front ++ e ++ es.flatten ++ rest := by
        rw [hmem]
        simp only [List.append_assoc]
      rw [numItems, if_pos (by omega), hnext,
        ih hes hmem' (by rw [List.length_append]; omega) (Nat.le_of_succ_le_succ hrounds),
        List.length_cons]

theorem takeItems_at {es : List Bytes} (hes : ∀ e ∈ es, Chunk e) (rest : Bytes) :
    List.Forall₂ At es (takeItems (es.flatten ++ rest) es.length) := by
  induction es with
  | nil => exact .nil
  | cons e es ih =>
    obtain ⟨⟨-, hitem⟩, hes⟩ := List.forall_mem_cons.1 hes
    simp only [List.flatten_cons, List.append_assoc, List.length_cons, takeItems, hitem,
      List.drop_left]
    exact .cons ⟨rfl, _, rfl⟩ (ih hes)

theorem byte0_of_isHead (h : RLP.IsHead 0xc0 n head) (hn : n < 2 ^ 64) (rest : Bytes) :
    0xc0 ≤ byte0 (head ++ rest) := by
  obtain ⟨b, tail, rfl, hb, -⟩ := h.cons (by decide)
  exact hb

theorem toList_of_at {es : List Bytes} (hhead : RLP.IsHead 0xc0 es.flatten.length head)
    (hlt : es.flatten.length < 2 ^ 64) (hes : ∀ e ∈ es, Chunk e)
    (h : At (head ++ es.flatten) item) : ∃ ls, toList item = .ok ls ∧ List.Forall₂ At es ls := by
  have hi := item_of_head (.inr rfl) hhead
  obtain ⟨hlen, rest, hmem⟩ := h
  have hpos := List.length_pos_of_ne_nil hi.pos
  have hlist : isList item = true := by
    have hfirst := byte0_of_isHead hhead hlt (es.flatten ++ rest)
    rw [← List.append_assoc, ← hmem] at hfirst
    rw [isList, Bool.and_eq_true, decide_eq_true_eq, decide_eq_true_eq]
    exact ⟨by omega, hfirst⟩
  rw [List.length_append] at hlen
  have hcount : numItems item item.len head.length = es.length :=
    numItems_eq hes hmem hlen ((length_le_flatten hes).trans (by omega))
  refine ⟨_, ?_, takeItems_at hes rest⟩
  simp only [toList, hlist, require_true, ok_bind]
  rw [hmem, hi.offset, hcount, drop_head]
  rfl

end IconBridge.Solidity.RLP
