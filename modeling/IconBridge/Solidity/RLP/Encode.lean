import IconBridge.Lib.RLP
import IconBridge.Lib.TwosComplement
import IconBridge.Solidity.Basic

/-!
# `RLPEncode`

Byte strings and integers in the encoding of the message center. A `string` is
its bytes. Lengths in memory are below `2 ^ 64`, so the arithmetic on them does
not overflow.
-/

namespace IconBridge.Solidity.RLP

open Lib List

/-- The loop of `encodeLength` that counts the bytes of a length. -/
def countBytes (len : ℕ) : (rounds i : ℕ) → ℕ
  | 0, _ => 0
  | rounds + 1, i => if len / i ≠ 0 then countBytes len rounds (i * 256) + 1 else 0

def encodeLength (len offset : ℕ) : Bytes :=
  if len < 56 then [UInt8.ofNat (len + offset)]
  else
    -- a word has 32 bytes
    let lenLen := countBytes len 32 1
    UInt8.ofNat (lenLen + offset + 55) ::
      (List.range lenLen).map fun i => UInt8.ofNat (len / 256 ^ (lenLen - (i + 1)) % 256)

/-- A single byte up to 128 stands for itself, where RLP has up to 127. -/
def encodeBytes (self : Bytes) : Bytes :=
  if self.length = 1 ∧ (self.headD 0).toNat ≤ 128 then self
  else encodeLength self.length 128 ++ self

/-- `type(int8).max` and so on, for `k` bytes -/
def maxInt (k : ℕ) : ℤ := 2 ^ (8 * k - 1) - 1

/-- `type(uint8).max` and so on, for `k` bytes -/
def maxUint (k : ℕ) : ℕ := 2 ^ (8 * k) - 1

/-- The first of the types `int8` to `int120` that has `n`, or `int128`. -/
def intToStrictBytes (n : ℤ) : Outcome Bytes :=
  match (List.range' 1 15).find? fun k => decide (-maxInt k - 1 ≤ n ∧ n ≤ maxInt k) with
  | some k => .ok (twos k n)
  | none => do
    require (-maxInt 16 - 1 ≤ n ∧ n ≤ maxInt 16) (.error "outOfBounds: [-2^128-1, 2^128]")
    return twos 16 n

def encodeInt (self : ℤ) : Outcome Bytes := do
  return encodeBytes (← intToStrictBytes self)

/-- The largest integer of a type is written in the next one. -/
def encodeUintByLength (length : ℕ) : Outcome Bytes :=
  match (List.range' 1 15).find? fun k => decide (length < maxUint k) with
  | some k => .ok (Lib.toBytes k length)
  | none => do
    require (maxUint 15 ≤ length ∧ length < maxUint 16) (.error "outOfBounds: [0, 2^128]")
    return Lib.toBytes 16 length

/-- The loop of `bitLength`; a word has 256 bits. -/
def countBits : (rounds n : ℕ) → ℕ
  | 0, _ => 0
  | rounds + 1, n => if n ≠ 0 then countBits rounds (n / 2) + 1 else 0

def encodeUint (self : ℕ) : Outcome Bytes := do
  let nBytes := countBits 256 self / 8 + 1
  let uintBytes ← encodeUintByLength self
  let missing ← sub nBytes uintBytes.length
  return encodeBytes (if 0 < missing then 0 :: uintBytes else uintBytes)

/-- `RLPEncodeStruct.addLength` of a list, with the call for the long head in place -/
def addLength (length : ℕ) : Outcome Bytes :=
  if 55 < length then do
    let payLoadSize ← encodeUintByLength length
    return UInt8.ofNat (0xf7 + payLoadSize.length) :: payLoadSize
  else .ok [UInt8.ofNat (0xc0 + length)]

theorem countBytes_eq (hi : 0 < i) (h : len < i * 256 ^ rounds) :
    countBytes len rounds i = byteLength (len / i) := by
  induction rounds generalizing i with
  | zero => rw [Nat.div_eq_of_lt (by omega)]; rfl
  | succ rounds ih =>
    have hnext : len < i * 256 * 256 ^ rounds := by
      rw [Nat.pow_succ'] at h
      rwa [Nat.mul_assoc]
    rw [countBytes, ih (by omega) hnext, ← Nat.div_div_eq_div_mul]
    split
    · next hne => exact (byteLength_div hne).symm
    · next heq =>
      rw [not_not.1 heq]
      rfl

theorem map_range_eq_toBytes (k n : ℕ) :
    (List.range k).map (fun i => UInt8.ofNat (n / 256 ^ (k - (i + 1)) % 256)) = Lib.toBytes k n := by
  induction k generalizing n with
  | zero => rfl
  | succ k ih =>
    have hhigh : (List.range k).map (fun i => UInt8.ofNat (n / 256 ^ (k + 1 - (i + 1)) % 256)) =
        Lib.toBytes k (n / 256) := by
      rw [← ih]
      refine map_congr_left fun i hi => ?_
      have hk : k + 1 - (i + 1) = k - (i + 1) + 1 := by
        have := mem_range.1 hi
        omega
      rw [hk, Nat.pow_succ', Nat.div_div_eq_div_mul]
    rw [range_succ, map_append, hhigh, toBytes_add, pow_one]
    simp [Lib.toBytes, toDigits]

theorem encodeLength_eq (h : len < 2 ^ 64) : encodeLength len offset = RLP.head offset len := by
  unfold encodeLength RLP.head
  have hcount : countBytes len 32 1 = byteLength len := by
    rw [countBytes_eq (by decide) (by omega), Nat.div_one]
  split
  · rw [if_pos (by omega), Nat.add_comm]
  · have hfirst : byteLength len + offset + 55 = offset + 55 + byteLength len := by omega
    simp only [hcount, map_range_eq_toBytes, hfirst]
    rw [if_neg (by omega)]
    rfl

/-- One string is written in another way than RLP has it. -/
theorem encodeBytes_eq (h : bs.length < 2 ^ 64) (hne : bs ≠ [0x80]) :
    encodeBytes bs = RLP.encodeString bs := by
  unfold encodeBytes
  rw [encodeLength_eq h]
  rcases bs with _ | ⟨b, _ | ⟨b', bs⟩⟩
  · rfl
  · have hb : b.toNat ≠ 128 := fun hb => hne (congrArg (fun b => [b]) (UInt8.toNat_inj.1 hb))
    simp only [length_cons, length_nil, headD_cons, true_and, zero_add,
      RLP.encodeString, UInt8.lt_iff_toNat_lt, show UInt8.toNat 128 = 128 from rfl]
    split
    · next hle => rw [if_pos (show b.toNat < 128 by omega)]
    · next hgt => rw [if_neg (show ¬b.toNat < 128 by omega)]
  · rfl

theorem find_size {p : ℕ → Bool} (hp : ∀ k, 0 < k → (p k = true ↔ w ≤ k)) (hw : 0 < w)
    (hw16 : w ≤ 16) : (List.range' 1 15).find? p = if w < 16 then some w else none := by
  split
  · next hlt =>
    rw [find?_range'_eq_some]
    refine ⟨(hp w hw).2 le_rfl, mem_range'_1.2 ⟨hw, by omega⟩, fun k hk hkw => ?_⟩
    rw [Bool.not_eq_true', ← Bool.not_eq_true, hp k hk]
    omega
  · rw [find?_eq_none]
    intro k hk
    obtain ⟨hk, hk16⟩ := mem_range'_1.1 hk
    rw [hp k hk]
    omega

theorem fits_iff_maxInt (hk : 0 < k) : -maxInt k - 1 ≤ n ∧ n ≤ maxInt k ↔ Fits k n := by
  rw [fits_iff hk, maxInt]
  omega

theorem intToStrictBytes_eq (h : Fits 16 n) : intToStrictBytes n = .ok (shortest n) := by
  have hw : width n ≤ 16 := (fits_iff_width_le (by decide)).1 h
  have hfind := find_size (p := fun k => decide (-maxInt k - 1 ≤ n ∧ n ≤ maxInt k)) (w := width n)
    (fun k hk => by rw [decide_eq_true_eq, fits_iff_maxInt hk, fits_iff_width_le hk])
    (Nat.succ_pos _) hw
  rw [intToStrictBytes, hfind]
  split_ifs with hlt
  · rfl
  · have hw16 : width n = 16 := by omega
    rw [← fits_iff_maxInt (by decide)] at h
    rw [shortest, hw16]
    simp only [h, and_self, decide_true, require_true, ok_bind]
    rfl

theorem lt_maxUint_iff : n < maxUint k ↔ byteLength (n + 1) ≤ k := by
  rw [byteLength_le_iff, pow_256, maxUint]
  omega

theorem encodeUintByLength_eq (h : n + 1 < 256 ^ 16) :
    encodeUintByLength n = .ok (Lib.toBytes (byteLength (n + 1)) n) := by
  have hw : byteLength (n + 1) ≤ 16 := byteLength_le_iff.2 h
  have hfind := find_size (p := fun k => decide (n < maxUint k)) (w := byteLength (n + 1))
    (fun k _ => by rw [decide_eq_true_eq, lt_maxUint_iff])
    (RLP.byteLength_pos (Nat.succ_ne_zero n)) hw
  rw [encodeUintByLength, hfind]
  split_ifs with hlt
  · rfl
  · have hw16 : byteLength (n + 1) = 16 := by omega
    have hlow : maxUint 15 ≤ n := by
      rw [← not_lt, lt_maxUint_iff]
      omega
    rw [hw16]
    simp only [hlow, lt_maxUint_iff.2 hw, and_self, decide_true, require_true, ok_bind]
    rfl

theorem countBits_eq (h : n < 2 ^ rounds) : countBits rounds n = bitLength n := by
  induction rounds generalizing n with
  | zero =>
    obtain rfl : n = 0 := by omega
    rfl
  | succ rounds ih =>
    rw [countBits]
    split
    · next hn => rw [ih (by omega), bitLength_div hn]
    · next hn =>
      rw [not_not.1 hn]
      rfl

/-- The integer is written one byte too short if its top bit is set, unless all
of its bits are set: that was written one byte longer to begin with. -/
theorem width_sub_byteLength (v : ℕ) :
    byteLength (v + 1) ≤ width v ∧ width v ≤ byteLength (v + 1) + 1 := by
  have hfits : v < 2 ^ (8 * width v - 1) := by
    have := (fits_iff (Nat.succ_pos _)).1 (fits_width v)
    zify
    exact this.2
  have hhalf : 2 ^ (8 * width v - 1) < 256 ^ width v := by
    rw [pow_256]
    exact Nat.pow_lt_pow_right (by decide) (by unfold width; omega)
  have hbits : bitLength v ≤ 8 * byteLength (v + 1) := by
    rw [bitLength_le_iff, ← pow_256]
    have := lt_pow_byteLength (v + 1)
    omega
  refine ⟨byteLength_le_iff.2 (by omega), ?_⟩
  rw [width_natCast]
  omega

theorem encodeUint_eq (h : v + 1 < 256 ^ 16) : encodeUint v = .ok (encodeBytes (shortest v)) := by
  obtain ⟨hle, hge⟩ := width_sub_byteLength v
  have hsub : sub (width v) (byteLength (v + 1)) = .ok (width v - byteLength (v + 1)) :=
    sub_ok.2 ⟨hle, rfl⟩
  have hbits : countBits 256 v / 8 + 1 = width v := by
    rw [countBits_eq (by omega), width_natCast]
  have hv := lt_pow_byteLength (v + 1)
  simp only [encodeUint, encodeUintByLength_eq h, ok_bind, length_toBytes, hbits, hsub,
    shortest_natCast]
  split
  · next hmissing =>
    have hwidth : width v = 1 + byteLength (v + 1) := by omega
    rw [hwidth, toBytes_add, Nat.div_eq_of_lt (by omega), toBytes_zero]
    rfl
  · next hmissing =>
    rw [show width v = byteLength (v + 1) by omega]
    rfl

theorem addLength_isHead (h : n + 1 < 2 ^ 64) : ∃ bs, addLength n = .ok bs ∧ RLP.IsHead 0xc0 n bs := by
  unfold addLength
  split
  · have hlt : n < 256 ^ byteLength (n + 1) := by
      have := lt_pow_byteLength (n + 1)
      omega
    rw [encodeUintByLength_eq (by omega)]
    refine ⟨_, rfl, ?_⟩
    rw [length_toBytes]
    exact .long (RLP.byteLength_pos (Nat.succ_ne_zero n)) (RLP.byteLength_le h) hlt
  · next hn => exact ⟨_, rfl, .short (by omega)⟩

end IconBridge.Solidity.RLP
