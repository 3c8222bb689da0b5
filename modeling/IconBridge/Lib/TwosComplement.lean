import Mathlib.Tactic.Zify
import IconBridge.Lib.Bytes

/-!
# Integers in two's complement

An integer in a given number of bytes, and in as few bytes as can hold it.
-/

namespace IconBridge.Lib

open List

def twos (k : ℕ) (n : ℤ) : Bytes := toBytes k (n % 256 ^ k).toNat

def Fits (k : ℕ) (n : ℤ) : Prop := -256 ^ k ≤ 2 * n ∧ 2 * n < 256 ^ k

instance : Decidable (Fits k n) := inferInstanceAs (Decidable (_ ∧ _))

@[simp] theorem length_twos : (twos k n).length = k := length_toBytes

theorem pow_256_pos (k : ℕ) : (0 : ℤ) < 256 ^ k := Int.pow_pos (by decide)

theorem ofBytes_twos : (ofBytes (twos k n) : ℤ) = n % 256 ^ k := by
  have hpos := pow_256_pos k
  have hnonneg := Int.emod_nonneg n hpos.ne'
  have hlt := Int.emod_lt_of_pos n hpos
  have hword : (n % 256 ^ k).toNat < 256 ^ k := by
    zify
    rwa [Int.toNat_of_nonneg hnonneg]
  rw [twos, ofBytes_toBytes, Nat.mod_eq_of_lt hword, Int.toNat_of_nonneg hnonneg]

theorem twos_natCast {n : ℕ} (h : n < 256 ^ k) : twos k n = toBytes k n := by
  rw [twos, Int.emod_eq_of_lt (Int.natCast_nonneg n) (by exact_mod_cast h), Int.toNat_natCast]

theorem Fits.mono (h : Fits j n) (hjk : j ≤ k) : Fits k n := by
  have hpow : (256 ^ j : ℤ) ≤ 256 ^ k := pow_le_pow_right₀ (by decide) hjk
  obtain ⟨hlow, hhigh⟩ := h
  constructor <;> omega

theorem signed_twos (h : Fits k n) : signed (twos k n) = n := by
  obtain ⟨hlow, hhigh⟩ := h
  rw [signed, ofBytes_twos, length_twos, Int.bmod_def]
  push_cast
  rw [Int.emod_emod_of_dvd _ (dvd_refl _)]
  have hpos := pow_256_pos k
  rcases lt_or_ge n 0 with hneg | hnonneg
  · have hmod : n % 256 ^ k = n + 256 ^ k := by
      rw [← Int.add_emod_right, Int.emod_eq_of_lt (by omega) (by omega)]
    rw [hmod, if_neg (by omega)]
    omega
  · rw [Int.emod_eq_of_lt hnonneg (by omega), if_pos (by omega)]

theorem signed_cons (b : UInt8) (bs : Bytes) :
    signed (b :: bs) = ofBytes (b :: bs) - if 0x80 ≤ b.toNat then 256 ^ (bs.length + 1) else 0 := by
  have hval : ofBytes (b :: bs) = b.toNat * 256 ^ bs.length + ofBytes bs := ofBytes_cons b bs
  have hlt := ofBytes_lt bs
  have hpow : 256 ^ (b :: bs).length = 256 * 256 ^ bs.length := by
    rw [length_cons, Nat.pow_succ']
  split
  · next hb =>
    have hmul : 0x80 * 256 ^ bs.length ≤ b.toNat * 256 ^ bs.length := Nat.mul_le_mul_right _ hb
    rw [signed_of_le _ (by omega), length_cons]
  · next hb =>
    have hmul : b.toNat * 256 ^ bs.length ≤ 0x7f * 256 ^ bs.length :=
      Nat.mul_le_mul_right _ (by omega)
    rw [signed_of_lt _ (by omega), sub_zero]

def width (n : ℤ) : ℕ := bitLength (if n < 0 then -n - 1 else n).toNat / 8 + 1

def shortest (n : ℤ) : Bytes := twos (width n) n

theorem fits_iff (hk : 0 < k) : Fits k n ↔ -2 ^ (8 * k - 1) ≤ n ∧ n < 2 ^ (8 * k - 1) := by
  have hpow : (256 ^ k : ℤ) = 2 * 2 ^ (8 * k - 1) := by
    have hnat : 256 ^ k = 2 * 2 ^ (8 * k - 1) := by
      rw [pow_256, ← Nat.pow_succ']
      congr 1
      omega
    exact_mod_cast hnat
  unfold Fits
  omega

theorem fits_iff_width_le (hk : 0 < k) : Fits k n ↔ width n ≤ k := by
  obtain ⟨m, hm⟩ : ∃ m, m = (if n < 0 then -n - 1 else n).toNat := ⟨_, rfl⟩
  have hbits : width n ≤ k ↔ bitLength m ≤ 8 * k - 1 := by
    rw [width, ← hm]
    omega
  rw [hbits, bitLength_le_iff, fits_iff hk]
  zify
  split at hm <;> omega

theorem fits_width (n : ℤ) : Fits (width n) n := (fits_iff_width_le (Nat.succ_pos _)).2 le_rfl

theorem signed_shortest (n : ℤ) : signed (shortest n) = n :=
  signed_twos (fits_width n)

/-- The loop that writes the bytes of `v` from the last place on, until `stop`
accepts what is left and the byte just written, or all places are used. -/
def lowBytes (stop : ℕ → UInt8 → Bool) : (places v : ℕ) → Bytes → Bytes
  | 0, _, bs => bs
  | places + 1, v, bs =>
    let b := UInt8.ofNat (v % 256)
    if stop (v / 256) b then b :: bs else lowBytes stop places (v / 256) (b :: bs)

theorem lowBytes_eq {stop : ℕ → UInt8 → Bool} {size : ℕ → ℕ}
    (hsize : ∀ v, size v = if stop (v / 256) (UInt8.ofNat (v % 256)) then 1 else size (v / 256) + 1)
    (places v : ℕ) (bs : Bytes) :
    lowBytes stop places v bs = toBytes (min places (size v)) v ++ bs := by
  induction places generalizing v bs with
  | zero => simp [lowBytes, toBytes, toDigits]
  | succ places ih =>
    have hlast (k : ℕ) : toBytes (k + 1) v = toBytes k (v / 256) ++ [UInt8.ofNat (v % 256)] := by
      simp [toBytes, toDigits]
    rw [lowBytes, hsize v]
    split
    · rw [Nat.min_eq_right (Nat.le_add_left 1 places), hlast 0]
      simp [toBytes, toDigits]
    · rw [ih, Nat.add_min_add_right, hlast, append_assoc]
      rfl

def noSign (v : ℕ) (b : UInt8) : Bool := v == 0 && b &&& 0x80 == 0

theorem noSign_iff (v : ℕ) : noSign (v / 256) (UInt8.ofNat (v % 256)) = true ↔ v < 128 := by
  have hall : ∀ n < 256, UInt8.ofNat n &&& 0x80 = 0 ↔ n < 128 := by decide +kernel
  have hbyte := hall (v % 256) (Nat.mod_lt v (by decide))
  rw [noSign, Bool.and_eq_true, beq_iff_eq, beq_iff_eq, hbyte]
  omega

theorem width_natCast (v : ℕ) : width v = bitLength v / 8 + 1 := by
  rw [width, if_neg (by omega), Int.toNat_natCast]

theorem width_div (n : ℤ) : width n = if Fits 1 n then 1 else width (n / 256) + 1 := by
  have hle {k : ℕ} (hk : 0 < k) : width n ≤ k + 1 ↔ width (n / 256) ≤ k := by
    rw [← fits_iff_width_le hk, ← fits_iff_width_le (Nat.succ_pos k), fits_iff hk,
      fits_iff (Nat.succ_pos k), show 8 * (k + 1) - 1 = 8 * k - 1 + 8 by omega, pow_add]
    omega
  split
  · next h => exact le_antisymm ((fits_iff_width_le one_pos).1 h) (Nat.succ_pos _)
  · next h =>
    obtain ⟨k, hk⟩ : ∃ k, width n = k + 1 := ⟨_, rfl⟩
    have hpos : 0 < k := by
      by_contra hzero
      exact h ((fits_iff_width_le one_pos).2 (by omega))
    refine le_antisymm ((hle (Nat.succ_pos _)).2 le_rfl) ?_
    have hsmall := (hle hpos).1 hk.le
    omega

theorem width_eq (v : ℕ) : width v =
    if noSign (v / 256) (UInt8.ofNat (v % 256)) then 1 else width (v / 256 : ℕ) + 1 := by
  have hfits : Fits 1 v ↔ noSign (v / 256) (UInt8.ofNat (v % 256)) = true := by
    rw [noSign_iff, Fits]
    omega
  rw [width_div, if_congr hfits rfl rfl]
  rfl

theorem lt_pow_width (v : ℕ) : v < 256 ^ width v := by
  rw [width_natCast, pow_256]
  exact (lt_two_pow_bitLength v).trans_le (Nat.pow_le_pow_right (by decide) (by omega))

theorem shortest_natCast (v : ℕ) : shortest v = toBytes (width v) v := twos_natCast (lt_pow_width v)

/-- Unsigned integers with a zero byte in front of a set top bit, if there is a
place for it -/
theorem lowBytes_noSign (places v : ℕ) :
    lowBytes noSign places v [] = toBytes (min places (width v)) v := by
  have hsize : ∀ v, (fun v : ℕ => width v) v =
      if noSign (v / 256) (UInt8.ofNat (v % 256)) then 1 else (fun v : ℕ => width v) (v / 256) + 1 :=
    width_eq
  rw [lowBytes_eq hsize, append_nil]

theorem lowBytes_noSign_eq_shortest {v : ℕ} (h : width v ≤ places) :
    lowBytes noSign places v [] = shortest v := by
  rw [lowBytes_noSign, Nat.min_eq_right h, shortest_natCast]

end IconBridge.Lib
