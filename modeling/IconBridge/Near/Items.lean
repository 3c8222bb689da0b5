import IconBridge.Near.RLP

/-!
# Lists in RLP

`Rlp` finds the items of a list by their position, and remembers where the last
one was. Slices are shorter than `2 ^ 32`, so positions in them do not overflow.
-/

namespace IconBridge.Near.RLP

open Lib List

structure PayloadInfo where
  headerLen : ℕ
  valueLen : ℕ
  deriving DecidableEq, Repr

def PayloadInfo.total (item : PayloadInfo) : ℕ := item.headerLen + item.valueLen

def calculatePayloadInfo (headerBytes : Bytes) (lenOfLen : ℕ) : Outcome PayloadInfo :=
  match headerBytes[1]? with
  | none => .error .rlpIsTooShort
  | some b =>
    if b = 0 then .error .rlpDataLenWithZeroPrefix
    else if headerBytes.length < 1 + lenOfLen then .error .rlpIsTooShort
    else do
      let valueLen ← decodeUsize ((headerBytes.drop 1).take lenOfLen)
      if valueLen ≤ 55 then .error .rlpInvalidIndirection else .ok ⟨1 + lenOfLen, valueLen⟩

/-- The null item is written `0xf8 0x00`; the test looks at the second byte
without asking for it. -/
def isNull : Bytes → Outcome Bool
  | [] => .ok true
  | [l] => if l = 0xf8 then .error .indexOutOfBounds else .ok false
  | l :: b :: _ => .ok (l == 0xf8 && b == 0)

/-- `PayloadInfo::from` -/
def payloadInfoFrom (headerBytes : Bytes) : Outcome PayloadInfo :=
  match headerBytes with
  | [] => .error .rlpIsTooShort
  | l :: _ =>
    if l.toNat ≤ 0x7f then .ok ⟨0, 1⟩
    else if l.toNat ≤ 0xb7 then .ok ⟨1, l.toNat - 0x80⟩
    else if l.toNat ≤ 0xbf then calculatePayloadInfo headerBytes (l.toNat - 0xb7)
    else if l.toNat ≤ 0xf7 then .ok ⟨1, l.toNat - 0xc0⟩
    else do
      if ← isNull headerBytes then return ⟨1, 1⟩
      calculatePayloadInfo headerBytes (l.toNat - 0xf7)

/-- `BasicDecoder::payload_info` -/
def payloadInfo (bytes : Bytes) : Outcome PayloadInfo := do
  let item ← payloadInfoFrom bytes
  require (item.total ≤ bytes.length) .rlpIsTooShort
  return item

def isList (bytes : Bytes) : Outcome Bool := do
  return !(← isNull bytes) && 0xc0 ≤ (bytes.headD 0).toNat

def consumeListPayload (bytes : Bytes) : Outcome (Bytes × ℕ) := do
  let item ← payloadInfo bytes
  require (item.headerLen + item.valueLen ≤ bytes.length) .rlpIsTooShort
  return ((bytes.drop item.headerLen).take item.valueLen, item.headerLen)

def consume (bytes : Bytes) (len : ℕ) : Outcome Bytes := do
  require (len ≤ bytes.length) .rlpIsTooShort
  return bytes.drop len

def consumeItems (bytes : Bytes) : (items : ℕ) → Outcome (Bytes × ℕ)
  | 0 => .ok (bytes, 0)
  | items + 1 => do
    let i ← payloadInfo bytes
    let result ← consume bytes i.total
    let (result, consumed) ← consumeItems result items
    return (result, i.total + consumed)

structure OffsetCache where
  index : ℕ
  offset : ℕ
  deriving DecidableEq, Repr

/-- Where the search for an item begins, what is to be skipped there, and what is
in front. Behind a remembered position everything is visible, also what follows
the list. -/
def startAt (bytes : Bytes) (cache : Option OffsetCache) (index : ℕ) : Outcome (Bytes × ℕ × ℕ) :=
  match cache.filter fun cache => cache.index ≤ index with
  | some cache => do return (← consume bytes cache.offset, index - cache.index, cache.offset)
  | none => do
    let (bytes, consumed) ← consumeListPayload bytes
    return (bytes, index, consumed)

/-- `at_with_offset`: the item, and what is remembered. -/
def atWithOffset (bytes : Bytes) (cache : Option OffsetCache) (index : ℕ) :
    Outcome (Bytes × OffsetCache) := do
  require (← isList bytes) .rlpExpectedToBeList
  let (rest, indexesToSkip, bytesConsumed) ← startAt bytes cache index
  let (rest, consumed) ← consumeItems rest indexesToSkip
  let found ← payloadInfo rest
  return (rest.take found.total, ⟨index, bytesConsumed + consumed⟩)

structure TransferableAsset where
  name : String
  amount : ℕ
  fees : ℕ
  deriving DecidableEq, Repr

/-- `insert_list_payload` -/
def listHead (len : ℕ) : Bytes :=
  if len ≤ 55 then [UInt8.ofNat (0xc0 + len)]
  else
    let size := minBytes (len % 2 ^ 32)
    UInt8.ofNat (0xf7 + size.length) :: size

def TransferableAsset.items (a : TransferableAsset) : List Bytes :=
  [encodeValue (utf8 a.name), encodeValue (unsignedBytes a.amount), encodeValue (unsignedBytes a.fees)]

def TransferableAsset.rlpAppend (a : TransferableAsset) : Bytes :=
  listHead a.items.flatten.length ++ a.items.flatten

theorem listHead_eq (h : n < 2 ^ 32) : listHead n = Lib.RLP.head 0xc0 n := by
  unfold listHead Lib.RLP.head
  split
  · rfl
  · simp only [Nat.mod_eq_of_lt h, length_minBytes]

theorem encodeValue_eq {bs : Bytes} (h : bs.length < 2 ^ 32) :
    encodeValue bs = Lib.RLP.encodeString bs := by
  unfold encodeValue
  rcases bs with _ | ⟨b, _ | ⟨b', bs⟩⟩
  · rfl
  · simp only [length_cons, length_nil, zero_add, Nat.one_ne_zero, if_false,
      show 1 ≤ 55 by decide, if_true, true_and, headD_cons, Lib.RLP.encodeString,
      Lib.RLP.head]
    rfl
  · have hpos : (b :: b' :: bs).length ≠ 0 := Nat.succ_ne_zero _
    have hone : ¬((b :: b' :: bs).length = 1 ∧ (b :: b' :: bs).headD 0 < 0x80) := by simp
    have hstring : Lib.RLP.encodeString (b :: b' :: bs) =
        Lib.RLP.head 0x80 (b :: b' :: bs).length ++ (b :: b' :: bs) := rfl
    rw [if_neg hpos, if_neg hone, hstring, Lib.RLP.head]
    split
    · rfl
    · simp only [Nat.mod_eq_of_lt h, length_minBytes]

theorem calculatePayloadInfo_minBytes (l : UInt8) (rest : Bytes) (hn : 55 < n) (hlt : n < 2 ^ 32) :
    calculatePayloadInfo (l :: (minBytes n ++ rest)) (byteLength n) = .ok ⟨byteLength n + 1, n⟩ := by
  obtain ⟨b, bs, hbs, hb⟩ := minBytes_cons (show n ≠ 0 by omega)
  have hsize := decodeUsize_minBytes (show n ≠ 0 by omega) hlt
  have hsecond : (l :: (minBytes n ++ rest))[1]? = some b := by simp [hbs]
  have hroom : ¬(l :: (minBytes n ++ rest)).length < 1 + byteLength n := by
    simp only [length_cons, length_append, length_minBytes]
    omega
  simp only [calculatePayloadInfo, hsecond, if_neg hb, if_neg hroom, drop_one, tail_cons,
    take_left' length_minBytes, hsize, ok_bind]
  rw [if_neg (by omega), Nat.add_comm]

theorem isNull_of_head (hlt : n < 2 ^ 32) (rest : Bytes) :
    isNull (Lib.RLP.head 0xc0 n ++ rest) = .ok false := by
  unfold Lib.RLP.head
  split
  · next hn =>
    have hne : UInt8.ofNat (0xc0 + n) ≠ 0xf8 := by
      intro heq
      have hl := UInt8.toNat_ofNat_of_lt' (show 0xc0 + n < 256 by omega)
      rw [heq] at hl
      simp at hl
      omega
    cases rest with
    | nil => rw [append_nil, isNull, if_neg hne]
    | cons b rest => rw [singleton_append, isNull, beq_false_of_ne hne, Bool.false_and]
  · next hn =>
    obtain ⟨b, bs, hbs, hb⟩ := minBytes_cons (show n ≠ 0 by omega)
    simp [hbs, isNull, hb]

theorem payloadInfoFrom_head (hbase : base = 0x80 ∨ base = 0xc0) (hlt : n < 2 ^ 32) (rest : Bytes) :
    payloadInfoFrom (Lib.RLP.head base n ++ rest) = .ok ⟨(Lib.RLP.head base n).length, n⟩ := by
  unfold Lib.RLP.head
  split
  · next hn =>
    have hl := UInt8.toNat_ofNat_of_lt' (show base + n < 256 by omega)
    rw [singleton_append, payloadInfoFrom, hl]
    obtain rfl | rfl := hbase
    · rw [if_neg (by omega), if_pos (by omega), Nat.add_sub_cancel_left]
      rfl
    · rw [if_neg (by omega), if_neg (by omega), if_neg (by omega), if_pos (by omega),
        Nat.add_sub_cancel_left]
      rfl
  · next hn =>
    have hk : byteLength n ≤ 4 := byteLength_le_iff.2 (by omega)
    have hpos : 0 < byteLength n := Lib.RLP.byteLength_pos (by omega)
    have hl := UInt8.toNat_ofNat_of_lt' (show base + 55 + byteLength n < 256 by omega)
    have hcalc := calculatePayloadInfo_minBytes (UInt8.ofNat (base + 55 + byteLength n)) rest
      (show 55 < n by omega) hlt
    rw [cons_append, payloadInfoFrom, hl, length_cons, length_minBytes]
    obtain rfl | rfl := hbase
    · rw [if_neg (by omega), if_neg (by omega), if_pos (by omega),
        show 0x80 + 55 + byteLength n - 0xb7 = byteLength n by omega, hcalc]
    · have hnull := isNull_of_head hlt rest
      rw [Lib.RLP.head, if_neg hn, cons_append] at hnull
      rw [if_neg (by omega), if_neg (by omega), if_neg (by omega), if_neg (by omega),
        show 0xc0 + 55 + byteLength n - 0xf7 = byteLength n by omega, hnull, hcalc]
      rfl

theorem payloadInfo_of_head (hbase : base = 0x80 ∨ base = 0xc0) (hlt : p.length < 2 ^ 32)
    (rest : Bytes) : payloadInfo (Lib.RLP.head base p.length ++ p ++ rest) =
      .ok ⟨(Lib.RLP.head base p.length).length, p.length⟩ := by
  have hroom : PayloadInfo.total ⟨(Lib.RLP.head base p.length).length, p.length⟩ ≤
      (Lib.RLP.head base p.length ++ p ++ rest).length := by
    simp [PayloadInfo.total]
  rw [payloadInfo, append_assoc, payloadInfoFrom_head hbase hlt, ok_bind,
    ← append_assoc, decide_eq_true hroom]
  rfl

/-- The reader steps over `e`. -/
def Steps (e : Bytes) : Prop := ∀ rest, ∃ info, payloadInfo (e ++ rest) = .ok info ∧ info.total = e.length

theorem steps_of_head (hbase : base = 0x80 ∨ base = 0xc0) (hlt : p.length < 2 ^ 32) :
    Steps (Lib.RLP.head base p.length ++ p) := fun rest =>
  ⟨_, payloadInfo_of_head hbase hlt rest, by simp [PayloadInfo.total]⟩

theorem encodeValue_steps {bs : Bytes} (h : bs.length < 2 ^ 32) : Steps (encodeValue bs) := by
  rw [encodeValue_eq h]
  unfold Lib.RLP.encodeString
  split
  · next b =>
    split
    · next hb =>
      intro rest
      have hlow : b.toNat ≤ 0x7f := Nat.le_of_lt_succ (UInt8.lt_iff_toNat_lt.1 hb)
      have hroom : PayloadInfo.total ⟨0, 1⟩ ≤ (b :: rest).length := by simp [PayloadInfo.total]
      refine ⟨⟨0, 1⟩, ?_, rfl⟩
      rw [singleton_append, payloadInfo, payloadInfoFrom, if_pos hlow, ok_bind,
        decide_eq_true hroom]
      rfl
    · exact steps_of_head (p := [b]) (.inl rfl) h
  · exact steps_of_head (p := bs) (.inl rfl) h

theorem consume_append (front rest : Bytes) : consume (front ++ rest) front.length = .ok rest := by
  have hroom : front.length ≤ (front ++ rest).length := by simp
  rw [consume, decide_eq_true hroom, drop_left]
  rfl

theorem consumeItems_flatten {es : List Bytes} (hes : ∀ e ∈ es, Steps e) (rest : Bytes) :
    consumeItems (es.flatten ++ rest) es.length = .ok (rest, es.flatten.length) := by
  induction es with
  | nil => rfl
  | cons e es ih =>
    obtain ⟨hstep, hsteps⟩ := forall_mem_cons.1 hes
    obtain ⟨info, hinfo, htotal⟩ := hstep (es.flatten ++ rest)
    rw [flatten_cons, append_assoc, length_cons, consumeItems, hinfo, ok_bind, htotal,
      consume_append, ok_bind, ih hsteps, length_append]
    rfl

theorem consumeListPayload_of_head {p : Bytes} (hlt : p.length < 2 ^ 32) :
    consumeListPayload (Lib.RLP.head 0xc0 p.length ++ p) =
      .ok (p, (Lib.RLP.head 0xc0 p.length).length) := by
  have hinfo := payloadInfo_of_head (.inr rfl) hlt []
  rw [append_nil] at hinfo
  have hroom : (Lib.RLP.head 0xc0 p.length).length + p.length ≤
      (Lib.RLP.head 0xc0 p.length ++ p).length := by simp
  rw [consumeListPayload, hinfo, ok_bind, decide_eq_true hroom, drop_left, take_length]
  rfl

theorem isList_of_head (hlt : n < 2 ^ 32) (rest : Bytes) :
    isList (Lib.RLP.head 0xc0 n ++ rest) = .ok true := by
  obtain ⟨b, tail, hhead, hlow, -⟩ :=
    (Lib.RLP.head_isHead 0xc0 (show n < 2 ^ 64 by omega)).cons (by decide)
  rw [isList, isNull_of_head hlt, hhead, cons_append, headD_cons]
  simp [hlow, pure, Except.pure]

theorem atWithOffset_of_start {mid back : List Bytes} (hlist : isList bytes = .ok true)
    (hstart : startAt bytes cache index = .ok ((mid ++ e :: back).flatten, mid.length, offset))
    (hmid : ∀ x ∈ mid, Steps x) (he : Steps e) :
    atWithOffset bytes cache index = .ok (e, ⟨index, offset + mid.flatten.length⟩) := by
  obtain ⟨info, hinfo, htotal⟩ := he back.flatten
  rw [flatten_append, flatten_cons] at hstart
  simp only [atWithOffset, hlist, ok_bind, require_true, hstart, consumeItems_flatten hmid, hinfo,
    htotal, take_left]
  rfl

theorem startAt_none {es : List Bytes} (hlt : es.flatten.length < 2 ^ 32) (index : ℕ) :
    startAt (Lib.RLP.head 0xc0 es.flatten.length ++ es.flatten) none index =
      .ok (es.flatten, index, (Lib.RLP.head 0xc0 es.flatten.length).length) := by
  simp only [startAt, Option.filter_none, consumeListPayload_of_head hlt, ok_bind]
  rfl

theorem startAt_some (front rest : Bytes) (h : i ≤ index) :
    startAt (front ++ rest) (some ⟨i, front.length⟩) index = .ok (rest, index - i, front.length) := by
  have hfilter : (some (⟨i, front.length⟩ : OffsetCache)).filter (fun c => c.index ≤ index) =
      some ⟨i, front.length⟩ := by
    simp [Option.filter, h]
  simp only [startAt, hfilter, consume_append, ok_bind]
  rfl

/-- Nothing is remembered, or the position of an item that is not behind `index`. -/
def Remembers (head : Bytes) (es : List Bytes) (index : ℕ) (cache : Option OffsetCache) : Prop :=
  ∀ c ∈ cache, c.index ≤ index ∧ c.offset = (head ++ (es.take c.index).flatten).length

theorem startAt_remembered {es : List Bytes} (hlt : es.flatten.length < 2 ^ 32)
    (hcache : Remembers (Lib.RLP.head 0xc0 es.flatten.length) es i cache) :
    ∃ j ≤ i, startAt (Lib.RLP.head 0xc0 es.flatten.length ++ es.flatten) cache i =
      .ok ((es.drop j).flatten, i - j,
        (Lib.RLP.head 0xc0 es.flatten.length ++ (es.take j).flatten).length) := by
  cases cache with
  | none =>
    refine ⟨0, Nat.zero_le i, ?_⟩
    rw [startAt_none hlt, take_zero, flatten_nil, append_nil]
    rfl
  | some c =>
    obtain ⟨index, offset⟩ := c
    obtain ⟨hle, hoffset⟩ := hcache _ rfl
    dsimp only at hle hoffset
    subst hoffset
    have hsplit : Lib.RLP.head 0xc0 es.flatten.length ++ es.flatten =
        Lib.RLP.head 0xc0 es.flatten.length ++ (es.take index).flatten ++ (es.drop index).flatten := by
      rw [append_assoc, ← flatten_append, take_append_drop]
    refine ⟨index, hle, ?_⟩
    rw [hsplit]
    exact startAt_some _ _ hle

theorem atWithOffset_item {es : List Bytes} (hlt : es.flatten.length < 2 ^ 32)
    (hes : ∀ e ∈ es, Steps e) (he : es[i]? = some e)
    (hcache : Remembers (Lib.RLP.head 0xc0 es.flatten.length) es i cache) :
    atWithOffset (Lib.RLP.head 0xc0 es.flatten.length ++ es.flatten) cache i =
      .ok (e, ⟨i, (Lib.RLP.head 0xc0 es.flatten.length ++ (es.take i).flatten).length⟩) := by
  obtain ⟨hi, rfl⟩ := List.getElem?_eq_some_iff.1 he
  obtain ⟨j, hj, hstart⟩ := startAt_remembered hlt hcache
  have hdrop : es.drop j = (es.drop j).take (i - j) ++ es[i] :: es.drop (i + 1) := by
    rw [← drop_eq_getElem_cons hi]
    conv_lhs => rw [← take_append_drop (i - j) (es.drop j)]
    rw [drop_drop, Nat.add_sub_cancel' hj]
  have htake : es.take i = es.take j ++ (es.drop j).take (i - j) := by
    rw [← take_add, Nat.add_sub_cancel' hj]
  have hlen : i - j = ((es.drop j).take (i - j)).length := by
    rw [length_take, length_drop]
    omega
  have hmid : ∀ x ∈ (es.drop j).take (i - j), Steps x := fun x hx =>
    hes x (mem_of_mem_drop (mem_of_mem_take hx))
  rw [hdrop] at hstart
  nth_rewrite 2 [hlen] at hstart
  rw [atWithOffset_of_start (isList_of_head hlt _) hstart hmid (hes _ (getElem_mem hi)), htake]
  simp only [flatten_append, length_append, Nat.add_assoc]

theorem unsignedBytes_eq_toBytes (v : ℕ) : unsignedBytes v = Lib.toBytes (min 16 (width v)) v := by
  unfold unsignedBytes
  split
  · next hv =>
    rw [hv]
    decide +kernel
  · exact lowBytes_noSign 16 v

theorem length_unsignedBytes_le (v : ℕ) : (unsignedBytes v).length ≤ 16 := by
  rw [unsignedBytes_eq_toBytes, length_toBytes]
  omega

theorem ofBytes_unsignedBytes (h : v < 2 ^ 128) : ofBytes (unsignedBytes v) = v := by
  have hlt : v < 256 ^ min 16 (width v) := by
    rcases Nat.le_total 16 (width v) with hle | hle
    · rw [Nat.min_eq_left hle]
      omega
    · rw [Nat.min_eq_right hle]
      exact lt_pow_width v
  rw [unsignedBytes_eq_toBytes, ofBytes_toBytes, Nat.mod_eq_of_lt hlt]

/-- The name leaves room for the heads and the amounts. -/
def TransferableAsset.inMemory (a : TransferableAsset) : Prop := (utf8 a.name).length + 64 < 2 ^ 32

instance : Decidable (TransferableAsset.inMemory a) := inferInstanceAs (Decidable (_ < _))

theorem length_encodeValue_le (bs : Bytes) : (encodeValue bs).length ≤ bs.length + 5 := by
  have hk : byteLength (bs.length % 2 ^ 32) ≤ 4 := byteLength_le_iff.2 (by omega)
  unfold encodeValue
  split_ifs
  · rw [length_singleton]
    omega
  · omega
  · rw [length_cons]
    omega
  · simp only [cons_append, length_cons, length_append, length_minBytes]
    omega

theorem TransferableAsset.length_items (a : TransferableAsset) (h : a.inMemory) :
    a.items.flatten.length < 2 ^ 32 := by
  unfold inMemory at h
  have h1 := length_encodeValue_le (utf8 a.name)
  have l2 := length_unsignedBytes_le a.amount
  have l3 := length_unsignedBytes_le a.fees
  have h2 := length_encodeValue_le (unsignedBytes a.amount)
  have h3 := length_encodeValue_le (unsignedBytes a.fees)
  simp only [items, flatten_cons, flatten_nil, append_nil, length_append]
  omega

theorem TransferableAsset.items_steps (a : TransferableAsset) (h : a.inMemory) :
    ∀ e ∈ a.items, Steps e := by
  unfold inMemory at h
  have l2 := length_unsignedBytes_le a.amount
  have l3 := length_unsignedBytes_le a.fees
  simp only [items, forall_mem_cons]
  exact ⟨encodeValue_steps (by omega), encodeValue_steps (by omega), encodeValue_steps (by omega),
    by simp⟩

theorem TransferableAsset.atWithOffset (a : TransferableAsset) (h : a.inMemory)
    (he : a.items[i]? = some e) (hcache : Remembers (listHead a.items.flatten.length) a.items i cache) :
    RLP.atWithOffset a.rlpAppend cache i =
      .ok (e, ⟨i, (listHead a.items.flatten.length ++ (a.items.take i).flatten).length⟩) := by
  have hlt := a.length_items h
  rw [listHead_eq hlt] at hcache ⊢
  rw [rlpAppend, listHead_eq hlt]
  exact atWithOffset_item hlt (a.items_steps h) he hcache

end IconBridge.Near.RLP
