import IconBridge.Lib.Bytes

/-!
# Lists of byte strings in RLP

The encoding puts a head with the length in front of a string or a list; a
single byte below `0x80` stands for itself. A reader takes one string after the
other off the front.
-/

namespace IconBridge.Lib.RLP

open List

/-- The head of a string (`base = 0x80`) or of a list (`base = 0xc0`). -/
def head (base length : ℕ) : Bytes :=
  if length ≤ 55 then [UInt8.ofNat (base + length)]
  else UInt8.ofNat (base + 55 + byteLength length) :: minBytes length

def encodeString : Bytes → Bytes
  | [b] => if b < 0x80 then [b] else head 0x80 1 ++ [b]
  | bs => head 0x80 bs.length ++ bs

def encodeList (items : List Bytes) : Bytes :=
  let payload := items.flatMap encodeString
  head 0xc0 payload.length ++ payload

def takeBytes (n : ℕ) (bs : Bytes) : Option (Bytes × Bytes) :=
  if n ≤ bs.length then some (bs.take n, bs.drop n) else none

def readBody (base : ℕ) (b : UInt8) (rest : Bytes) : Option (Bytes × Bytes) :=
  let n := b.toNat - base
  if n ≤ 55 then takeBytes n rest
  else do
    let (length, rest) ← takeBytes (n - 55) rest
    takeBytes (ofBytes length) rest

def readString : Bytes → Option (Bytes × Bytes)
  | [] => none
  | b :: rest =>
    if b.toNat < 0x80 then some ([b], rest)
    else if b.toNat < 0xc0 then readBody 0x80 b rest
    else none

def readList : Bytes → Option (Bytes × Bytes)
  | [] => none
  | b :: rest => if 0xc0 ≤ b.toNat then readBody 0xc0 b rest else none

def readStrings : ℕ → Bytes → Option (List Bytes × Bytes)
  | 0, bs => some ([], bs)
  | n + 1, bs => do
    let (s, rest) ← readString bs
    let (ss, rest) ← readStrings n rest
    return (s :: ss, rest)

theorem takeBytes_append (h : bs.length = n) : takeBytes n (bs ++ rest) = some (bs, rest) := by
  rw [takeBytes, if_pos (by simp [h]), take_left' h, drop_left' h]

theorem byteLength_le (h : n < 2 ^ 64) : byteLength n ≤ 8 := by
  have := bitLength_le h
  unfold byteLength
  omega

theorem byteLength_pos (h : n ≠ 0) : 0 < byteLength n := by
  have hbits : bitLength n ≠ 0 := by
    rw [bitLength, if_neg h]
    exact Nat.succ_ne_zero _
  unfold byteLength
  omega

/-- The heads that announce a length, also with more bytes for it than it needs. -/
inductive IsHead (base n : ℕ) : Bytes → Prop
  | short (hn : n ≤ 55) : IsHead base n [UInt8.ofNat (base + n)]
  | long (hk : 0 < k) (hk8 : k ≤ 8) (hn : n < 256 ^ k) :
    IsHead base n (UInt8.ofNat (base + 55 + k) :: toBytes k n)

theorem head_isHead (base : ℕ) (h : n < 2 ^ 64) : IsHead base n (head base n) := by
  unfold head
  split
  · next hn => exact .short hn
  · next hn =>
    exact .long (byteLength_pos (by omega)) (byteLength_le h) (lt_pow_byteLength n)

theorem IsHead.cons (h : IsHead base n bs) (hbase : base + 63 < 256) :
    ∃ b tail, bs = b :: tail ∧ base ≤ b.toNat ∧ b.toNat < base + 64 := by
  cases h with
  | short hn =>
    have hb := UInt8.toNat_ofNat_of_lt' (show base + n < 256 by omega)
    exact ⟨_, _, rfl, by omega, by omega⟩
  | @long k hk hk8 hn =>
    have hb := UInt8.toNat_ofNat_of_lt' (show base + 55 + k < 256 by omega)
    exact ⟨_, _, rfl, by omega, by omega⟩

theorem readBody_head (rest : Bytes) (hbase : base + 63 < 256) (hlen : bs.length < 2 ^ 64) :
    ∃ b tail, head base bs.length = b :: tail ∧ base ≤ b.toNat ∧ b.toNat < base + 64 ∧
      readBody base b (tail ++ bs ++ rest) = some (bs, rest) := by
  unfold head
  split
  · next hshort =>
    have hb := UInt8.toNat_ofNat_of_lt' (show base + bs.length < 256 by omega)
    refine ⟨_, _, rfl, by omega, by omega, ?_⟩
    rw [readBody, hb, Nat.add_sub_cancel_left, if_pos hshort, nil_append, takeBytes_append rfl]
  · next hlong =>
    have hle := byteLength_le hlen
    have hpos : 0 < byteLength bs.length := byteLength_pos (by omega)
    have hb := UInt8.toNat_ofNat_of_lt' (show base + 55 + byteLength bs.length < 256 by omega)
    refine ⟨_, _, rfl, by omega, by omega, ?_⟩
    have hn : base + 55 + byteLength bs.length - base = 55 + byteLength bs.length := by omega
    rw [readBody, hb, hn, if_neg (by omega), Nat.add_sub_cancel_left, append_assoc,
      takeBytes_append length_minBytes]
    simp only [Option.bind_eq_bind, Option.bind_some, ofBytes_minBytes, takeBytes_append]

theorem readString_head (bs : Bytes) (hlen : bs.length < 2 ^ 64) :
    readString (head 0x80 bs.length ++ bs ++ rest) = some (bs, rest) := by
  obtain ⟨b, tail, hhead, hlow, hhigh, hread⟩ :=
    readBody_head rest (show 0x80 + 63 < 256 by decide) hlen
  rw [hhead, cons_append, cons_append, readString, if_neg (by omega), if_pos (by omega),
    hread]

theorem readString_encodeString (hlen : bs.length < 2 ^ 64) :
    readString (encodeString bs ++ rest) = some (bs, rest) := by
  unfold encodeString
  split
  · next b =>
    split
    · next hb =>
      have hlow : b.toNat < 0x80 := UInt8.lt_iff_toNat_lt.1 hb
      rw [singleton_append, readString, if_pos hlow]
    · exact readString_head [b] hlen
  · exact readString_head bs hlen

theorem readList_encodeList {items : List Bytes}
    (hlen : (items.flatMap encodeString).length < 2 ^ 64) :
    readList (encodeList items) = some (items.flatMap encodeString, []) := by
  obtain ⟨b, tail, hhead, hlow, -, hread⟩ :=
    readBody_head [] (show 0xc0 + 63 < 256 by decide) hlen
  rw [append_nil] at hread
  rw [encodeList, hhead, cons_append, readList, if_pos hlow, hread]

theorem length_le_encodeString (bs : Bytes) : bs.length ≤ (encodeString bs).length := by
  unfold encodeString
  split
  · split <;> simp
  · simp

theorem readStrings_flatMap {items : List Bytes} (rest : Bytes) (hlen : ∀ bs ∈ items, bs.length < 2 ^ 64) :
    readStrings items.length (items.flatMap encodeString ++ rest) = some (items, rest) := by
  induction items with
  | nil => rfl
  | cons bs items ih =>
    rw [flatMap_cons, append_assoc, length_cons, readStrings,
      readString_encodeString (hlen bs mem_cons_self)]
    simp [ih fun b hb => hlen b (mem_cons_of_mem _ hb)]

theorem length_lt_of_mem {items : List Bytes} (hbs : bs ∈ items)
    (hlen : (items.flatMap encodeString).length < n) : bs.length < n := by
  have hpart : (encodeString bs).length ≤ (items.flatMap encodeString).length :=
    (sublist_flatten_of_mem (mem_map_of_mem hbs)).length_le
  have := length_le_encodeString bs
  omega

end IconBridge.Lib.RLP
