import IconBridge.Lib.Bytes
import IconBridge.Java.Basic

/-!
# The messages of `Escrow` and `WrappedToken`

Both contracts write the message for Algorand and read the one that comes from
there in the same way.
-/

namespace IconBridge.Java

open Lib List

/-- `Character.digit` in base 16 -/
def hexDigit (c : Char) : Option ℕ :=
  if '0' ≤ c ∧ c ≤ '9' then some (c.toNat - 48)
  else if 'a' ≤ c ∧ c ≤ 'f' then some (c.toNat - 87)
  else if 'A' ≤ c ∧ c ≤ 'F' then some (c.toNat - 55)
  else none

/-- Nothing but a prefix and forty digits is an address. -/
def Address.fromString (str : String) : Option Address :=
  match str.toList with
  | 'c' :: 'x' :: digits => body true digits
  | 'h' :: 'x' :: digits => body false digits
  | _ => none
where
  body (isContract : Bool) (digits : List Char) : Option Address :=
    if digits.length = 40 then
      (digits.mapM hexDigit).map fun nibbles => ⟨isContract, BitVec.ofNat 160 (ofDigits 16 nibbles)⟩
    else none

namespace Token

def byteToHex (b : UInt8) : List Char :=
  [Nat.digitChar (b.toNat / 16 % 16), Nat.digitChar (b.toNat % 16)]

def byteArrayToHex (bs : Bytes) : String := String.ofList (bs.flatMap byteToHex)

theorem hexDigit_digitChar (h : n < 16) : hexDigit (Nat.digitChar n) = some n := by
  have hall : ∀ n < 16, hexDigit (Nat.digitChar n) = some n := by decide
  exact hall n h

theorem length_flatMap_byteToHex (bs : Bytes) : (bs.flatMap byteToHex).length = 2 * bs.length := by
  induction bs with
  | nil => rfl
  | cons b bs ih => rw [flatMap_cons, length_append, ih, length_cons, byteToHex,
      length_cons, length_singleton]; omega

theorem mapM_byteToHex (bs : Bytes) : (bs.flatMap byteToHex).mapM hexDigit =
    some (bs.flatMap fun b => [b.toNat / 16, b.toNat % 16]) := by
  induction bs with
  | nil => rfl
  | cons b bs ih =>
    have hb := b.toNat_lt
    have hhigh : b.toNat / 16 % 16 = b.toNat / 16 := Nat.mod_eq_of_lt (by omega)
    rw [flatMap_cons, mapM_append, ih]
    simp [byteToHex, hhigh, hexDigit_digitChar (show b.toNat / 16 < 16 by omega),
      hexDigit_digitChar (Nat.mod_lt b.toNat (by decide : 16 > 0))]

theorem ofDigits_nibbles (bs : Bytes) :
    ofDigits 16 (bs.flatMap fun b => [b.toNat / 16, b.toNat % 16]) = ofBytes bs := by
  induction bs using List.reverseRecOn with
  | nil => rfl
  | append_singleton bs b ih =>
    have hsplit : bs.flatMap (fun b => [b.toNat / 16, b.toNat % 16]) ++ [b.toNat / 16, b.toNat % 16] =
        (bs.flatMap (fun b => [b.toNat / 16, b.toNat % 16]) ++ [b.toNat / 16]) ++ [b.toNat % 16] := by
      simp
    rw [flatMap_append, flatMap_singleton, hsplit, ofDigits_concat, ofDigits_concat, ih]
    simp only [ofBytes, map_append, map_cons, map_nil, ofDigits_concat]
    omega

theorem fromString_byteArrayToHex {bs : Bytes} (h : bs.length = 20) (isContract : Bool) :
    Address.fromString ((if isContract then "cx" else "hx") ++ byteArrayToHex bs) =
      some ⟨isContract, BitVec.ofNat 160 (ofBytes bs)⟩ := by
  have hbody : Address.fromString.body isContract (bs.flatMap byteToHex) =
      some ⟨isContract, BitVec.ofNat 160 (ofBytes bs)⟩ := by
    rw [Address.fromString.body, if_pos (by rw [length_flatMap_byteToHex, h]), mapM_byteToHex,
      Option.map_some, ofDigits_nibbles]
  cases isContract <;>
    simpa [Address.fromString, byteArrayToHex] using hbody

def maxUint64 : ℤ := 18446744073709551615

/-- `BigInteger.toByteArray`: the shortest form in two's complement. -/
def toByteArray (n : ℤ) : Bytes :=
  let k := bitLength (if n < 0 then -n - 1 else n).toNat / 8 + 1
  toBytes k (n % 256 ^ k).toNat

def bigIntToByteArray (num : ℤ) : Bytes :=
  let bytes := toByteArray num
  if bytes.length ≤ 8 then List.replicate (8 - bytes.length) 0 ++ bytes
  else bytes.drop (bytes.length - 8)

theorem lt_pow_toByteArray (n : ℕ) : n < 256 ^ (bitLength n / 8 + 1) := by
  rw [pow_256]
  exact (lt_two_pow_bitLength n).trans_le (Nat.pow_le_pow_right (by decide) (by omega))

theorem toByteArray_natCast (n : ℕ) : toByteArray n = toBytes (bitLength n / 8 + 1) n := by
  have hlt := lt_pow_toByteArray n
  have hmod : ((n : ℤ) % 256 ^ (bitLength n / 8 + 1)).toNat = n := by
    rw [Int.emod_eq_of_lt (by omega) (by exact_mod_cast hlt), Int.toNat_natCast]
  rw [toByteArray, if_neg (by omega), Int.toNat_natCast]
  exact congrArg (toBytes _) hmod

theorem bigIntToByteArray_natCast (n : ℕ) : bigIntToByteArray n = toBytes 8 n := by
  have hlt := lt_pow_toByteArray n
  have hbytes := toByteArray_natCast n
  generalize bitLength n / 8 + 1 = k at hlt hbytes
  simp only [bigIntToByteArray, hbytes, length_toBytes]
  split
  · next hle =>
    have hsplit := toBytes_add (j := 8 - k) (k := k) (n := n)
    rw [Nat.sub_add_cancel hle, Nat.div_eq_of_lt hlt, toBytes_zero] at hsplit
    exact hsplit.symm
  · next hgt =>
    have hsplit := toBytes_add (j := k - 8) (k := 8) (n := n)
    rw [Nat.sub_add_cancel (by omega)] at hsplit
    rw [hsplit, drop_left' length_toBytes]

/-- How many of the eight bytes the loop counts from the end on. -/
def trailingZeroes (bytes : Bytes) : ℕ := ((bytes.take 8).reverse.takeWhile (· = 0)).length

/-- The bytes before the trailing zeros, behind a byte that is zero. -/
def byteArraytoBigInt (bytes : Bytes) : Outcome ℤ :=
  if bytes.length < 8 then .error (.other "ArrayIndexOutOfBoundsException")
  else .ok (ofBytes (0 :: bytes.take (8 - trailingZeroes bytes)))

theorem toBytes_eight (n : ℕ) : toBytes 8 n = toBytes 7 (n / 256) ++ [UInt8.ofNat (n % 256)] :=
  toBytes_add (j := 7) (k := 1)

theorem byteArraytoBigInt_toBytes (n : ℕ) :
    byteArraytoBigInt (toBytes 8 n) =
      .ok (ofBytes ((toBytes 8 n).take (8 - trailingZeroes (toBytes 8 n)))) := by
  rw [byteArraytoBigInt, if_neg (by simp), ofBytes_cons]
  simp

theorem trailingZeroes_toBytes (h : n % 256 ≠ 0) : trailingZeroes (toBytes 8 n) = 0 := by
  have hlast : UInt8.ofNat (n % 256) ≠ 0 := by
    intro heq
    have hmod := congrArg UInt8.toNat heq
    simp at hmod
    exact h hmod
  rw [trailingZeroes, take_of_length_le (by simp), toBytes_eight, reverse_append]
  simp [hlast]

theorem trailingZeroes_pos (h : n % 256 = 0) : 0 < trailingZeroes (toBytes 8 n) := by
  rw [trailingZeroes, take_of_length_le (by simp), toBytes_eight, reverse_append, h]
  simp

theorem ofBytes_take_le (bs : Bytes) (k : ℕ) : ofBytes (bs.take k) ≤ ofBytes bs := by
  have hsplit := ofBytes_append (bs.take k) (bs.drop k)
  rw [take_append_drop] at hsplit
  rw [hsplit]
  exact Nat.le_add_right_of_le (Nat.le_mul_of_pos_right _ (Nat.pow_pos (by decide)))

theorem ofBytes_take_lt {n : ℕ} (hn : n ≠ 0) (hlt : n < 2 ^ 64) (hk : k ≤ 7) :
    ofBytes ((toBytes 8 n).take k) < n := by
  have hseven : (toBytes 8 n).take k = (toBytes 7 (n / 256)).take k := by
    rw [toBytes_eight, take_append_of_le_length (by simpa using hk)]
  calc ofBytes ((toBytes 8 n).take k) ≤ ofBytes (toBytes 7 (n / 256)) := hseven ▸ ofBytes_take_le _ k
    _ = n / 256 := by
      rw [ofBytes_toBytes]
      exact Nat.mod_eq_of_lt (by omega)
    _ < n := Nat.div_lt_self (Nat.pos_of_ne_zero hn) (by decide)

/-- A number is read back if and only if it is zero or its last byte is not. -/
theorem conversion_round_trip (v : ℤ) (hv : 0 ≤ v ∧ v ≤ maxUint64) :
    (bigIntToByteArray v = toBytes 8 v.toNat ∧ byteArraytoBigInt (bigIntToByteArray v) = .ok v) ↔
      v = 0 ∨ v % 256 ≠ 0 := by
  obtain ⟨n, rfl⟩ := Int.eq_ofNat_of_zero_le hv.1
  have hlt : n < 2 ^ 64 := by
    have hle := hv.2
    unfold maxUint64 at hle
    omega
  rw [bigIntToByteArray_natCast, byteArraytoBigInt_toBytes]
  simp only [Int.toNat_natCast, true_and, Except.ok.injEq, Nat.cast_inj]
  rcases eq_or_ne n 0 with rfl | hn
  · simp only [Nat.cast_zero, true_or, iff_true]
    decide
  by_cases hmod : n % 256 = 0
  · have hpos := trailingZeroes_pos hmod
    have hless := ofBytes_take_lt hn hlt (show 8 - trailingZeroes (toBytes 8 n) ≤ 7 by omega)
    omega
  · rw [trailingZeroes_toBytes hmod, take_of_length_le (by simp), ofBytes_toBytes,
      Nat.mod_eq_of_lt (by simpa using hlt)]
    omega

theorem conversion_of_257 : bigIntToByteArray 257 = toBytes 8 257 ∧
    byteArraytoBigInt (bigIntToByteArray 257) = .ok 257 :=
  (conversion_round_trip 257 (by decide)).2 (by decide)

theorem conversion_of_256 : byteArraytoBigInt (bigIntToByteArray 256) = .ok 1 := by
  decide +kernel

/-- The counts of assets and accounts with the one asset and the one account,
then the amount and the account for the contract on Algorand. -/
def transferMessage (asaId : ℤ) (algoPubKey : Bytes) (amount : ℤ) : Bytes :=
  1 :: bigIntToByteArray asaId ++ 1 :: algoPubKey ++ bigIntToByteArray amount ++ algoPubKey

/-- The amount in a message; what is behind it is as long as the key before. -/
def messageAmount (message : Bytes) : ℕ :=
  ofBytes ((message.drop (10 + (message.length - 18) / 2)).take 8)

theorem length_bigIntToByteArray : (bigIntToByteArray n).length = 8 := by
  simp only [bigIntToByteArray]
  split
  · rw [length_append, length_replicate]
    omega
  · rw [length_drop]
    omega

theorem messageAmount_transferMessage {n : ℕ} (h : n < 2 ^ 64) :
    messageAmount (transferMessage asaId key n) = n := by
  have hlen : (transferMessage asaId key n).length = 18 + 2 * key.length := by
    simp [transferMessage, length_bigIntToByteArray]
    omega
  have hhead : (1 :: bigIntToByteArray asaId ++ 1 :: key).length = 10 + key.length := by
    simp [length_bigIntToByteArray]
    omega
  have hhalf : 10 + (18 + 2 * key.length - 18) / 2 = 10 + key.length := by omega
  rw [messageAmount, hlen, hhalf, transferMessage, append_assoc, drop_left' hhead,
    take_left' length_bigIntToByteArray, bigIntToByteArray_natCast, ofBytes_toBytes,
    Nat.mod_eq_of_lt (by simpa using h)]

/-- One call of `BMC.sendMessage` -/
structure Sent where
  target : String
  svc : String
  sn : ℤ
  message : Bytes
  deriving DecidableEq, Repr

def messageLength : ℕ := 29

/-- The amount that comes from Algorand and who gets it. -/
def readMessage (message : Bytes) : Outcome (ℕ × Address) := do
  require (message.length = messageLength) (.reverted 0 "Invalid message length")
  let isContract := message.getD 8 0 != 0
  let dst := Address.fromString
    ((if isContract then "cx" else "hx") ++ byteArrayToHex (message.drop 9))
  match dst with
  | none => .error (.other "IllegalArgumentException")
  | some dst => return (ofBytes (message.take 8), dst)

theorem readMessage_ok {message : Bytes} (h : message.length = 29) :
    readMessage message = .ok (ofBytes (message.take 8),
      ⟨message.getD 8 0 != 0, BitVec.ofNat 160 (ofBytes (message.drop 9))⟩) := by
  have hdst : (message.drop 9).length = 20 := by simp [h]
  simp only [readMessage, messageLength, h, decide_true, require_true, ok_bind,
    fromString_byteArrayToHex hdst]
  rfl

end Token

end IconBridge.Java
