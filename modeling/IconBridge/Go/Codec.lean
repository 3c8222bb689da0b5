import IconBridge.Lib.RLP
import IconBridge.Lib.TwosComplement

/-!
# `codec.RLP`

The encoder of the relay. A slice is `none` when it is nil, and is then written
as an empty long list.
-/

namespace IconBridge.Go

open Lib List

def bytesForZero : Bytes := [0]

def uint64ToBytes (v : UInt64) : Bytes :=
  if v = 0 then bytesForZero else lowBytes noSign 9 v.toNat []

def sizeToBytes (v : ℕ) : Bytes :=
  if v = 0 then bytesForZero else lowBytes (fun v _ => v == 0) 8 v []

def nullSequence : Bytes := [0xf8, 0]

def writeBytes : Option Bytes → Bytes
  | none => nullSequence
  | some b =>
    if b.length = 0 then [0x80]
    else if b.length = 1 ∧ b.headD 0 < 0x80 then b
    else if b.length ≤ 55 then UInt8.ofNat (0x80 + b.length) :: b
    else
      let sz := sizeToBytes b.length
      UInt8.ofNat (0x80 + 55 + sz.length) :: sz ++ b

def writeList (b : Bytes) : Bytes :=
  if b.length = 0 then [0xc0]
  else if b.length ≤ 55 then UInt8.ofNat (0xc0 + b.length) :: b
  else
    let sz := sizeToBytes b.length
    UInt8.ofNat (0xc0 + 55 + sz.length) :: sz ++ b

/-- `WriteValue` of a `uint64` -/
def writeUint64 (v : UInt64) : Bytes := writeBytes (some (uint64ToBytes v))

/-- `WriteValue` of a string, which may have any bytes -/
def writeString (s : Bytes) : Bytes := writeBytes (some s)

/-- `encodeValue` of a struct: its fields in a list -/
def encodeStruct (fields : List Bytes) : Bytes := writeList fields.flatten

/-- `encodeValue` of a slice of other elements than bytes -/
def encodeSlice (encode : α → Bytes) : Option (List α) → Bytes
  | none => nullSequence
  | some xs => writeList (xs.map encode).flatten

inductive Failure
  /-- `bytes.ErrTooLarge` -/
  | tooLarge
  deriving DecidableEq, Repr

def maxInt : ℕ := 2 ^ 63 - 1

/-- `MarshalToBytes`: the outer buffer is the longest one, and refuses more bytes
than an `int` counts. -/
def marshalToBytes (encoded : Bytes) : Except Failure Bytes :=
  if encoded.length ≤ maxInt then .ok encoded else .error .tooLarge

theorem marshalToBytes_ok : marshalToBytes encoded = .ok bs ↔ encoded.length < 2 ^ 63 ∧ encoded = bs := by
  unfold marshalToBytes maxInt
  split
  · next h => simp only [Except.ok.injEq, show encoded.length < 2 ^ 63 by omega, true_and]
  · next h => simp only [reduceCtorEq, show ¬encoded.length < 2 ^ 63 by omega, false_and]

theorem uint64ToBytes_eq (v : UInt64) : uint64ToBytes v = shortest v.toNat := by
  unfold uint64ToBytes
  split
  · next h => rw [h]; decide +kernel
  · refine lowBytes_noSign_eq_shortest ?_
    have hbits : bitLength v.toNat ≤ 64 := bitLength_le v.toNat_lt
    rw [width_natCast]
    omega

theorem sizeToBytes_eq (hv : v ≠ 0) (h : v < 2 ^ 64) : sizeToBytes v = minBytes v := by
  have hsize (v : ℕ) : max 1 (byteLength v) =
      if (v / 256 == 0) = true then 1 else max 1 (byteLength (v / 256)) + 1 := by
    split
    · next hzero =>
      have : byteLength v ≤ 1 := byteLength_le_iff.2 (by rw [beq_iff_eq] at hzero; omega)
      omega
    · next hne =>
      rw [beq_iff_eq] at hne
      have hpos := RLP.byteLength_pos hne
      rw [byteLength_div (by omega)]
      omega
  have hpos := RLP.byteLength_pos hv
  have hle := RLP.byteLength_le h
  rw [sizeToBytes, if_neg hv, lowBytes_eq hsize, append_nil, minBytes]
  congr 1
  omega

theorem writeBytes_some (h : b.length < 2 ^ 64) : writeBytes (some b) = RLP.encodeString b := by
  have hlong : (if b.length ≤ 55 then UInt8.ofNat (0x80 + b.length) :: b
      else UInt8.ofNat (0x80 + 55 + (sizeToBytes b.length).length) :: sizeToBytes b.length ++ b) =
      RLP.head 0x80 b.length ++ b := by
    unfold RLP.head
    split
    · rfl
    · rw [sizeToBytes_eq (by omega) h, length_minBytes]
  rw [writeBytes]
  simp only [hlong]
  rcases b with _ | ⟨x, _ | ⟨y, b⟩⟩
  · rfl
  · simp only [length_cons, length_nil, headD_cons, true_and, zero_add,
      RLP.encodeString, one_ne_zero, if_false]
  · simp only [length_cons, RLP.encodeString, Nat.succ_ne_zero, if_false]
    rw [if_neg (by omega)]

theorem writeList_eq (h : b.length < 2 ^ 64) : writeList b = RLP.head 0xc0 b.length ++ b := by
  unfold writeList RLP.head
  rcases b with _ | ⟨x, b⟩
  · rfl
  · simp only [length_cons, Nat.succ_ne_zero, if_false]
    split
    · rfl
    · rw [sizeToBytes_eq (Nat.succ_ne_zero _) h, length_minBytes]

theorem length_le_writeBytes (b : Option Bytes) : (b.getD []).length ≤ (writeBytes b).length := by
  cases b with
  | none => exact Nat.zero_le _
  | some b =>
    simp only [Option.getD_some, writeBytes]
    split_ifs <;> simp <;> omega

theorem length_le_writeList (b : Bytes) : b.length ≤ (writeList b).length := by
  unfold writeList
  split_ifs <;> simp <;> omega

end IconBridge.Go
