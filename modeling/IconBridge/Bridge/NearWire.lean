import IconBridge.Near.Items
import IconBridge.Solidity.RLP.Transfer

/-!
# What NEAR reads of the bytes of an EVM chain

The encoder of Solidity writes heads and amounts in its own way. The reader on
NEAR accepts a length only without a leading zero, and an amount only in 16
bytes.
-/

namespace IconBridge.Bridge.NearWire

open Lib List
open Solidity.RLP (addLength encodeUint)

/-- The lengths that the encoder writes with a byte more than they need. -/
def AllOnes (n : ℕ) : Prop := ∃ k, 0 < k ∧ n + 1 = 256 ^ k

theorem byteLength_succ_eq_iff (hn : n ≠ 0) : byteLength (n + 1) = byteLength n ↔ ¬AllOnes n := by
  have hlow := lt_pow_byteLength n
  have hmono : byteLength n ≤ byteLength (n + 1) := by
    rw [byteLength_le_iff]
    have := lt_pow_byteLength (n + 1)
    omega
  have hge : byteLength (n + 1) ≤ byteLength n ↔ ¬AllOnes n := by
    rw [byteLength_le_iff]
    constructor
    · rintro hlt ⟨k, hk, heq⟩
      have hle : byteLength n ≤ k := byteLength_le_iff.2 (by omega)
      have := Nat.pow_le_pow_right (show 0 < 256 by decide) hle
      omega
    · intro hones
      by_contra hnlt
      exact hones ⟨byteLength n, RLP.byteLength_pos hn, by omega⟩
  rw [← hge]
  omega

theorem addLength_eq_head_iff (h : n < 2 ^ 64) :
    addLength n = .ok (RLP.head 0xc0 n) ↔ ¬AllOnes n := by
  unfold addLength RLP.head
  split
  · next hn =>
    rw [Solidity.RLP.encodeUintByLength_eq (by omega), ← byteLength_succ_eq_iff (show n ≠ 0 by omega),
      if_neg (by omega)]
    constructor
    · intro heq
      have hlen := congrArg (List.length ∘ List.tail) (Except.ok.inj heq)
      simpa using hlen
    · intro heq
      rw [heq]
      simp only [ok_bind, length_toBytes]
      rfl
  · next hn =>
    rw [if_pos (by omega)]
    refine iff_of_true rfl ?_
    rintro ⟨k, hk, heq⟩
    have := Nat.pow_le_pow_right (show 0 < 256 by decide) hk
    omega

theorem consumeListPayload_of_allOnes (hn : AllOnes n) (h : n + 9 < 2 ^ 32) (p : Bytes) :
    ∃ head, addLength n = .ok head ∧
      Near.RLP.consumeListPayload (head ++ p) = .error .rlpDataLenWithZeroPrefix := by
  obtain ⟨k, hk, heq⟩ := hn
  have hpow : 256 ^ 1 ≤ 256 ^ k := Nat.pow_le_pow_right (by decide) hk
  have hk4 : k < 4 := (Nat.pow_lt_pow_iff_right (show 1 < 256 by decide)).1 (by omega)
  have hlen : byteLength (n + 1) = k + 1 := by
    have hle : byteLength (n + 1) ≤ k + 1 := by
      rw [byteLength_le_iff, Nat.pow_succ]
      omega
    have hlt : ¬byteLength (n + 1) ≤ k := by
      rw [byteLength_le_iff]
      omega
    omega
  have hencode : addLength n = .ok (UInt8.ofNat (0xf7 + (k + 1)) :: 0 :: toBytes k n) := by
    rw [addLength, if_pos (by omega), Solidity.RLP.encodeUintByLength_eq (by omega), hlen,
      toBytes_succ, Nat.div_eq_of_lt (by omega)]
    simp only [ok_bind, length_cons, length_toBytes]
    rfl
  have hl := UInt8.toNat_ofNat_of_lt' (show 0xf7 + (k + 1) < 256 by omega)
  refine ⟨_, hencode, ?_⟩
  have hnull : Near.RLP.isNull (UInt8.ofNat (0xf7 + (k + 1)) :: 0 :: (toBytes k n ++ p)) =
      .ok false := by
    have hne : UInt8.ofNat (0xf7 + (k + 1)) ≠ 0xf8 := by
      intro heq
      rw [heq, show UInt8.toNat 0xf8 = 0xf8 from rfl] at hl
      omega
    rw [Near.RLP.isNull, beq_false_of_ne hne, Bool.false_and]
  rw [cons_append, cons_append, Near.RLP.consumeListPayload, Near.RLP.payloadInfo,
    Near.RLP.payloadInfoFrom, hl, if_neg (by omega), if_neg (by omega), if_neg (by omega),
    if_neg (by omega), hnull]
  rfl

/-- The reader on NEAR finds the payload behind the head that was written for it. -/
def Accepted (p : Bytes) : Prop :=
  ∃ head, addLength p.length = .ok head ∧
    Near.RLP.consumeListPayload (head ++ p) = .ok (p, head.length)

theorem accepted_iff (h : p.length + 9 < 2 ^ 32) : Accepted p ↔ ¬AllOnes p.length := by
  constructor
  · rintro ⟨head, hhead, haccept⟩ hones
    obtain ⟨head', hhead', hreject⟩ := consumeListPayload_of_allOnes hones h p
    cases hhead.symm.trans hhead'
    rw [hreject] at haccept
    cases haccept
  · intro hones
    exact ⟨_, (addLength_eq_head_iff (by omega)).2 hones,
      Near.RLP.consumeListPayload_of_head (by omega)⟩

/-- The head of a list is the canonical one, and is accepted on NEAR, if and only
if the length is not the largest one of so many bytes. -/
theorem listHead_canonical_iff (p : Bytes) (h : p.length < 2 ^ 64) :
    (addLength p.length = .ok (RLP.head 0xc0 p.length) ↔ ¬AllOnes p.length) ∧
    (p.length + 9 < 2 ^ 32 → (Accepted p ↔ ¬AllOnes p.length)) :=
  ⟨addLength_eq_head_iff h, accepted_iff⟩

theorem listHead_canonical_256 :
    addLength 256 = .ok (RLP.head 0xc0 256) ∧ Accepted (List.replicate 256 0) := by
  have hones : ¬AllOnes (List.replicate 256 (0 : UInt8)).length := by
    rw [length_replicate]
    rintro ⟨k, hk, heq⟩
    have hk2 : k < 2 := (Nat.pow_lt_pow_iff_right (show 1 < 256 by decide)).1 (by omega)
    obtain rfl : k = 1 := by omega
    omega
  have h := listHead_canonical_iff (List.replicate 256 0) (by rw [length_replicate]; decide)
  have haccept := (h.2 (by rw [length_replicate]; decide)).2 hones
  have hhead := h.1.2 hones
  rw [length_replicate] at hhead
  exact ⟨hhead, haccept⟩

def coin (name : String) (value : ℕ) : Solidity.RLP.Asset := ⟨utf8 name, value⟩

def sixCoins : Solidity.RLP.TransferCoin :=
  { sender := utf8 "0x5Aeda56215b167893e80B4fE645BA6d5Bab767DE"
    target := utf8 "hx7f8f6f5a4b3c2d1e0f9a8b7c6d5e4f3a2b1c0d9e"
    assets := [coin "btp-0x38.bsc-BNB" (20 * 10 ^ 18), coin "btp-0x38.bsc-ETH" (20 * 10 ^ 18),
      coin "btp-0x38.bsc-BTC" (20 * 10 ^ 18), coin "btp-0x38.bsc-BUS" (20 * 10 ^ 18),
      coin "btp-0x38.bsc-USD" (20 * 10 ^ 18), coin "btp-0x38.bsc-ICZ" (10 ^ 18)] }

theorem sixCoins_rejected :
    addLength 255 = .ok [0xf9, 0x00, 0xff] ∧ RLP.head 0xc0 255 = [0xf8, 0xff] ∧
    ∃ data, Solidity.RLP.encodeTransferCoinMsg sixCoins = .ok data ∧
      Near.RLP.atWithOffset data none 0 = .error .rlpDataLenWithZeroPrefix := by
  have hread : ((Solidity.RLP.encodeTransferCoinMsg sixCoins).toOption.map fun data =>
      Near.RLP.atWithOffset data none 0) = some (.error .rlpDataLenWithZeroPrefix) := by
    decide +kernel
  obtain ⟨data, hdata, hreject⟩ := Option.map_eq_some_iff.1 hread
  exact ⟨by decide +kernel, by decide +kernel, data, toOption_eq_some hdata, hreject⟩

def fieldBytes (a : Near.RLP.TransferableAsset) (i : ℕ) : Near.RLP.Outcome Bytes := do
  Near.RLP.decodeValue (← Near.RLP.atWithOffset a.rlpAppend none i).1

theorem fieldBytes_eq (a : Near.RLP.TransferableAsset) (h : a.inMemory)
    (he : a.items[i]? = some (Near.RLP.encodeValue (Near.RLP.unsignedBytes v))) :
    fieldBytes a i = .ok (Near.RLP.unsignedBytes v) := by
  have hle := Near.RLP.length_unsignedBytes_le v
  rw [fieldBytes, a.atWithOffset h he (by rintro _ ⟨⟩), ok_bind,
    Near.RLP.decodeValue_encodeValue (by omega)]

/-- Sixteen bytes hold the sign of what is below 2¹²⁷. -/
theorem width_le_iff {v : ℕ} : width v ≤ 16 ↔ v < 2 ^ 127 := by
  rw [← fits_iff_width_le (by decide), fits_iff (by decide)]
  omega

theorem unsignedBytes_eq_shortest_iff {v : ℕ} :
    Near.RLP.unsignedBytes v = shortest v ↔ v < 2 ^ 127 := by
  rw [← width_le_iff]
  constructor
  · intro heq
    have hle := Near.RLP.length_unsignedBytes_le v
    rwa [heq, shortest, length_twos] at hle
  · exact Near.RLP.unsignedBytes_eq

theorem signed_unsignedBytes_iff {v : ℕ} (hv : v < 2 ^ 128) :
    signed (Near.RLP.unsignedBytes v) = v ↔ v < 2 ^ 127 := by
  constructor
  · intro hsigned
    by_contra hlarge
    have hw : 16 ≤ width v := by
      have := mt width_le_iff.1 hlarge
      omega
    have hbytes := Near.RLP.unsignedBytes_eq_toBytes v
    rw [Nat.min_eq_left hw] at hbytes
    have hvalue := Near.RLP.ofBytes_unsignedBytes hv
    rw [signed_of_le _ (by rw [hvalue, hbytes, length_toBytes]; omega), hvalue, hbytes,
      length_toBytes] at hsigned
    omega
  · intro hsmall
    rw [unsignedBytes_eq_shortest_iff.2 hsmall, signed_shortest]

/-- The form that Solidity writes has a seventeenth byte from 2¹²⁷ on, and the
largest amount is not written at all. -/
theorem decodeU128_encodeUint_iff {v : ℕ} (hv : v < 2 ^ 128) :
    (∃ e, encodeUint v = .ok e ∧ Near.RLP.decodeU128 e = .ok v) ↔ v < 2 ^ 127 := by
  by_cases hmax : v = 2 ^ 128 - 1
  · have hrevert : encodeUint (2 ^ 128 - 1) = .error (.error "outOfBounds: [0, 2^128]") := by
      decide +kernel
    subst hmax
    rw [hrevert]
    refine iff_of_false ?_ (by omega)
    rintro ⟨e, ⟨⟩, -⟩
  · have hlen := Solidity.RLP.length_shortest_le_17 (show v < 2 ^ 128 - 1 by omega)
    have hread := Near.RLP.decodeU128_encodeValue (Near.RLP.shortest_ne_nil v)
      (show (shortest v).length < 2 ^ 32 by omega)
    rw [Near.RLP.encodeValue_eq (by omega), Solidity.RLP.ofBytes_shortest, shortest, length_twos,
      ← shortest] at hread
    rw [Solidity.RLP.encodeUint_shortest (by omega), ← width_le_iff]
    constructor
    · rintro ⟨e, ⟨⟩, hread'⟩
      by_contra hwide
      rw [hread, if_neg hwide] at hread'
      cases hread'
    · intro hwidth
      exact ⟨_, rfl, by rw [hread, if_pos hwidth]⟩

/-- An amount is written in the form that the other chains read, and read from the
form that they write, if and only if it is below 2¹²⁷. -/
theorem amounts_twosComplement (a : Near.RLP.TransferableAsset) (hamount : a.amount < 2 ^ 128)
    (hfees : a.fees < 2 ^ 128) (h : a.inMemory) :
    (fieldBytes a 1 = .ok (shortest a.amount) ↔ a.amount < 2 ^ 127) ∧
    (fieldBytes a 2 = .ok (shortest a.fees) ↔ a.fees < 2 ^ 127) ∧
    ((∃ bs, fieldBytes a 1 = .ok bs ∧ signed bs = a.amount) ↔ a.amount < 2 ^ 127) ∧
    ((∃ bs, fieldBytes a 2 = .ok bs ∧ signed bs = a.fees) ↔ a.fees < 2 ^ 127) ∧
    ((∃ e, encodeUint a.amount = .ok e ∧ Near.RLP.decodeU128 e = .ok a.amount) ↔
      a.amount < 2 ^ 127) := by
  rw [fieldBytes_eq (i := 1) a h rfl, fieldBytes_eq (i := 2) a h rfl]
  simp only [Except.ok.injEq, exists_eq_left', unsignedBytes_eq_shortest_iff,
    signed_unsignedBytes_iff hamount, signed_unsignedBytes_iff hfees,
    decodeU128_encodeUint_iff hamount, and_self]

def nearCoins (amount : ℕ) : Near.RLP.TransferableAsset := ⟨"btp-0x1.near-NEAR", amount, 0⟩

theorem largest_amount_read :
    fieldBytes (nearCoins (2 ^ 127 - 1)) 1 = .ok (shortest (2 ^ 127 - 1 : ℕ)) ∧
    ∃ e, encodeUint (2 ^ 127 - 1) = .ok e ∧ Near.RLP.decodeU128 e = .ok (2 ^ 127 - 1) :=
  have h := amounts_twosComplement (nearCoins (2 ^ 127 - 1)) (by decide) (by decide) (by decide +kernel)
  ⟨h.1.2 (by decide), h.2.2.2.2.2 (by decide)⟩

/-- The next amount is a negative number to the other chains, and what they write
for it is not read. -/
theorem next_amount_negative :
    fieldBytes (nearCoins (2 ^ 127)) 1 = .ok (0x80 :: List.replicate 15 0) ∧
    signed (0x80 :: List.replicate 15 0) = -2 ^ 127 ∧
    shortest (2 ^ 127 : ℕ) = 0x00 :: 0x80 :: List.replicate 15 0 ∧
    ∃ e, encodeUint (2 ^ 127) = .ok e ∧ Near.RLP.decodeU128 e = .error .rlpIsTooBig := by
  have hread : ((encodeUint (2 ^ 127)).toOption.map Near.RLP.decodeU128) =
      some (.error .rlpIsTooBig) := by
    decide +kernel
  obtain ⟨e, he, hreject⟩ := Option.map_eq_some_iff.1 hread
  exact ⟨by decide +kernel, by decide +kernel, by decide +kernel, e, toOption_eq_some he, hreject⟩

end IconBridge.Bridge.NearWire
