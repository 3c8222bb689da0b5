import Mathlib.Algebra.Order.Ring.Int
import Mathlib.Algebra.Order.Group.Unbundled.Int
import IconBridge.Lib.Digits

/-!
# Integers as bytes

Big-endian bytes, of a fixed length or without leading zeros, and their reading
in two's complement.
-/

namespace IconBridge.Lib

open List

abbrev Bytes := List UInt8

def ofBytes (bs : Bytes) : ℕ := ofDigits 256 (bs.map UInt8.toNat)

def toBytes (k n : ℕ) : Bytes := (toDigits 256 k n).map UInt8.ofNat

@[simp] theorem length_toBytes : (toBytes k n).length = k := by
  simp [toBytes]

theorem toBytes_add : toBytes (j + k) n = toBytes j (n / 256 ^ k) ++ toBytes k n := by
  simp [toBytes, toDigits_add]

theorem toBytes_succ : toBytes (k + 1) n = UInt8.ofNat (n / 256 ^ k % 256) :: toBytes k n := by
  rw [Nat.add_comm, toBytes_add]
  simp [toBytes, toDigits]

theorem toBytes_zero : toBytes k 0 = List.replicate k 0 := by
  simp [toBytes, toDigits_zero]

@[simp] theorem ofBytes_nil : ofBytes [] = 0 := rfl

theorem ofBytes_toBytes : ofBytes (toBytes k n) = n % 256 ^ k := by
  have hmap : (toBytes k n).map UInt8.toNat = toDigits 256 k n := by
    rw [toBytes, map_map]
    refine (map_congr_left fun d hd => ?_).trans (map_id _)
    exact Nat.mod_eq_of_lt (toDigits_lt (by decide) hd)
  rw [ofBytes, hmap, ofDigits_toDigits]

theorem ofBytes_lt (bs : Bytes) : ofBytes bs < 256 ^ bs.length := by
  rw [ofBytes, ← length_map]
  refine ofDigits_lt fun d hd => ?_
  obtain ⟨b, -, rfl⟩ := mem_map.1 hd
  exact b.toNat_lt

theorem ofBytes_append (as bs : Bytes) :
    ofBytes (as ++ bs) = ofBytes as * 256 ^ bs.length + ofBytes bs := by
  rw [ofBytes, map_append, ofDigits_append, length_map, Nat.mul_comm]
  rfl

theorem ofBytes_cons (b : UInt8) (bs : Bytes) :
    ofBytes (b :: bs) = b.toNat * 256 ^ bs.length + ofBytes bs := by
  rw [← singleton_append, ofBytes_append]
  simp [ofBytes, ofDigits]

def bitLength (n : ℕ) : ℕ := if n = 0 then 0 else n.log2 + 1

theorem lt_two_pow_bitLength (n : ℕ) : n < 2 ^ bitLength n := by
  unfold bitLength
  split
  · next h => simp [h]
  · exact Nat.lt_log2_self

theorem bitLength_le (h : n < 2 ^ k) : bitLength n ≤ k := by
  unfold bitLength
  split
  · exact Nat.zero_le k
  · next hn => exact (Nat.log2_lt hn).2 h

theorem bitLength_le_iff : bitLength n ≤ k ↔ n < 2 ^ k :=
  ⟨fun h => (lt_two_pow_bitLength n).trans_le (Nat.pow_le_pow_right (by decide) h), bitLength_le⟩

theorem two_pow_le_of_bitLength (hn : n ≠ 0) : 2 ^ (bitLength n - 1) ≤ n := by
  rw [bitLength, if_neg hn]
  exact Nat.log2_self_le hn

def byteLength (n : ℕ) : ℕ := (bitLength n + 7) / 8

def minBytes (n : ℕ) : Bytes := toBytes (byteLength n) n

@[simp] theorem length_minBytes : (minBytes n).length = byteLength n := length_toBytes

theorem pow_256 (k : ℕ) : 256 ^ k = 2 ^ (8 * k) := by
  rw [Nat.pow_mul]

theorem lt_pow_byteLength (n : ℕ) : n < 256 ^ byteLength n := by
  rw [pow_256]
  refine (lt_two_pow_bitLength n).trans_le (Nat.pow_le_pow_right (by decide) ?_)
  unfold byteLength
  omega

theorem byteLength_le_iff : byteLength n ≤ k ↔ n < 256 ^ k := by
  rw [pow_256, ← bitLength_le_iff]
  unfold byteLength
  omega

theorem size_div {size : ℕ → ℕ} (hb : 0 < b) (hsize : ∀ n k, size n ≤ k ↔ n < b ^ k) (h : n ≠ 0) :
    size n = size (n / b) + 1 := by
  have hstep (k : ℕ) : size n ≤ k + 1 ↔ size (n / b) ≤ k := by
    rw [hsize, hsize, Nat.div_lt_iff_lt_mul hb, Nat.pow_succ]
  have hpos : ¬size n ≤ 0 := by
    rw [hsize, Nat.pow_zero]
    omega
  have hle := (hstep (size (n / b))).2 le_rfl
  have hge := (hstep (size n - 1)).1 (by omega)
  omega

theorem bitLength_div (h : n ≠ 0) : bitLength n = bitLength (n / 2) + 1 :=
  size_div (by decide) (fun _ _ => bitLength_le_iff) h

theorem byteLength_div (h : n ≠ 0) : byteLength n = byteLength (n / 256) + 1 :=
  size_div (by decide) (fun _ _ => byteLength_le_iff) h

theorem minBytes_cons (hn : n ≠ 0) : ∃ b bs, minBytes n = b :: bs ∧ b ≠ 0 := by
  obtain ⟨k, hk⟩ := Nat.exists_eq_succ_of_ne_zero
    (show byteLength n ≠ 0 by rw [byteLength_div hn]; exact Nat.succ_ne_zero _)
  have hlow : ¬n < 256 ^ k := by
    rw [← byteLength_le_iff]
    omega
  have hhigh : n < 256 ^ k * 256 := by
    rw [← Nat.pow_succ, ← byteLength_le_iff, hk]
  have hpow : 0 < 256 ^ k := Nat.pow_pos (by decide)
  have hpos : 0 < n / 256 ^ k := Nat.div_pos (by omega) hpow
  have hlt : n / 256 ^ k < 256 := by rwa [Nat.div_lt_iff_lt_mul hpow, Nat.mul_comm]
  refine ⟨_, _, by rw [minBytes, hk, toBytes_succ], fun h => ?_⟩
  have hzero := congrArg UInt8.toNat h
  simp only [UInt8.toNat_ofNat', UInt8.toNat_zero] at hzero
  omega

theorem ofBytes_minBytes (n : ℕ) : ofBytes (minBytes n) = n := by
  rw [minBytes, ofBytes_toBytes, Nat.mod_eq_of_lt (lt_pow_byteLength n)]

def signed (bs : Bytes) : ℤ := Int.bmod (ofBytes bs) (256 ^ bs.length)

theorem signed_of_lt (bs : Bytes) (h : 2 * ofBytes bs < 256 ^ bs.length) : signed bs = ofBytes bs := by
  unfold signed
  apply Int.bmod_eq_of_le <;> omega

theorem signed_of_le (bs : Bytes) (h : 256 ^ bs.length ≤ 2 * ofBytes bs) :
    signed bs = ofBytes bs - 256 ^ bs.length := by
  have hlt := ofBytes_lt bs
  have hmod : ((ofBytes bs : ℤ) % (256 ^ bs.length : ℕ)) = ofBytes bs :=
    Int.emod_eq_of_lt (by omega) (by exact_mod_cast hlt)
  rw [signed, Int.bmod_def, hmod, if_neg (by omega)]
  push_cast
  rfl

/-- Read as a signed integer, a shortest encoding is right unless it fills its
bytes to the last bit. -/
theorem signed_minBytes (n : ℕ) : signed (minBytes n) = n ↔ n = 0 ∨ bitLength n % 8 ≠ 0 := by
  have hlen := length_minBytes (n := n)
  have hval := ofBytes_minBytes n
  have hlt := lt_pow_byteLength n
  rcases eq_or_ne n 0 with rfl | hn
  · simp [minBytes, signed, byteLength, bitLength, toBytes, toDigits]
  by_cases hfull : bitLength n % 8 = 0
  · -- the top bit is set
    have hpow : 256 ^ byteLength n ≤ 2 * n := by
      have hbits : 8 * byteLength n = (bitLength n - 1) + 1 := by
        have hpos : 0 < bitLength n := by simp [bitLength, hn]
        unfold byteLength
        omega
      rw [pow_256, hbits, Nat.pow_succ']
      exact Nat.mul_le_mul_left 2 (two_pow_le_of_bitLength hn)
    have hneg := signed_of_le (minBytes n) (by rw [hlen, hval]; exact hpow)
    rw [hneg, hval, hlen]
    have hcast : (0 : ℤ) < 256 ^ byteLength n := Int.pow_pos (by decide)
    simp only [hn, hfull, false_or, ne_eq, not_true, iff_false]
    omega
  · have hpow : 2 * n < 256 ^ byteLength n := by
      have hbits : bitLength n + 1 ≤ 8 * byteLength n := by
        unfold byteLength
        omega
      rw [pow_256]
      calc 2 * n < 2 * 2 ^ bitLength n := Nat.mul_lt_mul_of_pos_left (lt_two_pow_bitLength n) (by decide)
        _ = 2 ^ (bitLength n + 1) := (Nat.pow_succ').symm
        _ ≤ 2 ^ (8 * byteLength n) := Nat.pow_le_pow_right (by decide) hbits
    have hpos := signed_of_lt (minBytes n) (by rw [hlen, hval]; exact hpow)
    rw [hpos, hval]
    simp [hfull]

def utf8 (str : String) : Bytes := str.toUTF8.data.toList

def ofUtf8 (bs : Bytes) : Option String := String.fromUTF8? ⟨bs.toArray⟩

theorem ofUtf8_utf8 (str : String) : ofUtf8 (utf8 str) = some str := by
  have hvalid : ByteArray.IsValidUTF8 ⟨(utf8 str).toArray⟩ := by
    simpa [utf8] using str.isValidUTF8
  rw [ofUtf8, String.fromUTF8?, dif_pos hvalid]
  rfl

theorem utf8_of_ofUtf8 (h : ofUtf8 bs = some str) : utf8 str = bs := by
  unfold ofUtf8 String.fromUTF8? at h
  split at h
  · cases h
    rfl
  · cases h

end IconBridge.Lib
