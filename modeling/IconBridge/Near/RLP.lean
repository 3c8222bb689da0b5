import IconBridge.Lib.Outcome
import IconBridge.Lib.RLP
import IconBridge.Lib.TwosComplement

/-!
# Serial numbers in RLP

`WrappedI128` is written as an unsigned integer of the width of the first type
that has it, and read as a signed integer of the width that its length suggests.
-/

namespace IconBridge.Near.RLP

open Lib List

/-- An index behind the end of a slice stops the program. -/
inductive DecoderError
  | rlpIsTooBig
  | rlpIsTooShort
  | rlpExpectedToBeList
  | rlpExpectedToBeData
  | rlpDataLenWithZeroPrefix
  | rlpInvalidIndirection
  | rlpInconsistentLengthAndData
  | indexOutOfBounds
  deriving DecidableEq, Repr

abbrev Outcome := Except DecoderError

/-- `BasicEncoder::encode_iter`; `insert_size` writes a `u32`. -/
def encodeValue (value : Bytes) : Bytes :=
  if value.length = 0 then [0x80]
  else if value.length ≤ 55 then
    if value.length = 1 ∧ value.headD 0 < 0x80 then value
    else UInt8.ofNat (0x80 + value.length) :: value
  else
    let size := minBytes (value.length % 2 ^ 32)
    UInt8.ofNat (0xb7 + size.length) :: size ++ value

/-- A `usize` has four bytes. -/
def decodeUsize (bytes : Bytes) : Outcome ℕ :=
  if bytes.length ≤ 4 then
    if bytes.headD 0 = 0 then .error .rlpInvalidIndirection else .ok (ofBytes bytes)
  else .error .rlpIsTooBig

/-- `BasicDecoder::decode_value` -/
def decodeValue (rlp : Bytes) : Outcome Bytes :=
  match rlp with
  | [] => .error .rlpIsTooShort
  | l :: bytes =>
    if l.toNat ≤ 0x7f then .ok [l]
    else if l.toNat ≤ 0xb7 then
      let len := l.toNat - 0x80
      if bytes.length < len then .error .rlpInconsistentLengthAndData
      else
        let d := bytes.take len
        if l = 0x81 ∧ d.headD 0 < 0x80 then .error .rlpInvalidIndirection else .ok d
    else if l.toNat ≤ 0xbf then
      let lenOfLen := l.toNat - 0xb7
      if bytes.length < lenOfLen then .error .rlpInconsistentLengthAndData
      else do
        let len ← decodeUsize (bytes.take lenOfLen)
        let value := bytes.drop lenOfLen
        if value.length < len then .error .rlpInconsistentLengthAndData else .ok (value.take len)
    else .error .rlpExpectedToBeData

/-- `impl_encodable_for_u`: the bytes that are handed to the encoder; the buffer
has 16 bytes for every type. -/
def unsignedBytes (v : ℕ) : Bytes := if v = 0 then [0] else lowBytes noSign 16 v []

def decodeU8 (rlp : Bytes) : Outcome ℕ := do
  match ← decodeValue rlp with
  | [] => .ok 0
  | [b] => .ok b.toNat
  | _ => .error .rlpIsTooBig

/-- `impl_decodable_for_u` -/
def decodeU128 (rlp : Bytes) : Outcome ℕ := do
  let bytes ← decodeValue rlp
  if bytes.length ≤ 1 then decodeU8 rlp
  else if bytes.length ≤ 16 then .ok (ofBytes bytes)
  else .error .rlpIsTooBig

/-- `i8::MIN ..= i8::MAX` and so on -/
def inSigned (bits : ℕ) (value : ℤ) : Prop := -2 ^ (bits - 1) ≤ value ∧ value ≤ 2 ^ (bits - 1) - 1

instance : Decidable (inSigned bits value) := inferInstanceAs (Decidable (_ ∧ _))

/-- `value as u8` and so on -/
def asUnsigned (bits : ℕ) (value : ℤ) : ℕ := (value % 2 ^ bits).toNat

/-- `value as i8` and so on -/
def asSigned (bits value : ℕ) : ℤ := Int.bmod value (2 ^ bits)

/-- The bytes that `rlp_append` hands to the encoder. -/
def payload (value : ℤ) : Bytes :=
  if inSigned 8 value then [UInt8.ofNat (asUnsigned 8 value)]
  else if inSigned 16 value then unsignedBytes (asUnsigned 16 value)
  else if inSigned 32 value then unsignedBytes (asUnsigned 32 value)
  else if inSigned 64 value then unsignedBytes (asUnsigned 64 value)
  else unsignedBytes (asUnsigned 128 value)

def rlpAppend (value : ℤ) : Bytes := encodeValue (payload value)

/-- The type that a length suggests -/
def signBits : (len : ℕ) → ℕ
  | 1 => 8
  | 2 => 16
  | 4 => 32
  | 8 => 64
  | _ => 128

def decode (rlp : Bytes) : Outcome ℤ := do
  let value ← decodeU128 rlp
  let bytes ← decodeValue rlp
  return asSigned (signBits bytes.length) value

theorem decodeUsize_minBytes (hn : n ≠ 0) (hlt : n < 2 ^ 32) : decodeUsize (minBytes n) = .ok n := by
  obtain ⟨b, bs, hbs, hb⟩ := minBytes_cons hn
  have hlen : (minBytes n).length ≤ 4 := by
    rw [length_minBytes, byteLength_le_iff]
    omega
  rw [decodeUsize, if_pos hlen, hbs, headD_cons, if_neg hb, ← hbs, ofBytes_minBytes]

theorem decodeValue_long {bs : Bytes} (h : 55 < bs.length) (hlt : bs.length < 2 ^ 32) :
    decodeValue (UInt8.ofNat (0xb7 + byteLength bs.length) :: minBytes bs.length ++ bs) = .ok bs := by
  have hk : byteLength bs.length ≤ 4 := byteLength_le_iff.2 (by omega)
  have hpos : 0 < byteLength bs.length := Lib.RLP.byteLength_pos (by omega)
  have hl := UInt8.toNat_ofNat_of_lt' (show 0xb7 + byteLength bs.length < 256 by omega)
  have hroom : ¬(minBytes bs.length ++ bs).length < byteLength bs.length := by
    rw [length_append, length_minBytes]
    omega
  simp only [cons_append, decodeValue, hl, Nat.add_sub_cancel_left, if_neg hroom,
    take_left' length_minBytes, drop_left' length_minBytes,
    decodeUsize_minBytes (show bs.length ≠ 0 by omega) hlt, ok_bind, lt_irrefl, if_false,
    take_length]
  rw [if_neg (by omega), if_neg (by omega), if_pos (by omega)]

theorem decodeValue_encodeValue {bs : Bytes} (hlt : bs.length < 2 ^ 32) :
    decodeValue (encodeValue bs) = .ok bs := by
  unfold encodeValue
  rcases bs with _ | ⟨b, bs⟩
  · decide
  have hpos : 0 < (b :: bs).length := Nat.succ_pos _
  rw [if_neg hpos.ne']
  by_cases h : (b :: bs).length ≤ 55
  · have hhead := UInt8.toNat_ofNat_of_lt' (show 0x80 + (b :: bs).length < 256 by omega)
    rw [if_pos h]
    split
    · next hone =>
      obtain ⟨hlen, hlow⟩ := hone
      obtain rfl : bs = [] := by simpa using hlen
      have : b.toNat < 128 := UInt8.lt_iff_toNat_lt.1 hlow
      rw [decodeValue, if_pos (by omega)]
    · next hlong =>
      have hone : UInt8.ofNat (0x80 + (b :: bs).length) = 0x81 → (b :: bs).length = 1 := by
        intro heq
        have hnat := congrArg UInt8.toNat heq
        rw [hhead, show UInt8.toNat 0x81 = 0x81 from rfl] at hnat
        omega
      simp only [decodeValue, hhead, Nat.add_sub_cancel_left, take_length]
      rw [if_neg (by omega), if_pos (by omega), if_neg (by omega),
        if_neg fun ⟨heq, hlow⟩ => hlong ⟨hone heq, hlow⟩]
  · simp only [if_neg h, Nat.mod_eq_of_lt hlt, length_minBytes]
    exact decodeValue_long (by omega) hlt

theorem decodeU128_encodeValue {bs : Bytes} (hne : bs ≠ []) (h : bs.length < 2 ^ 32) :
    decodeU128 (encodeValue bs) =
      if bs.length ≤ 16 then .ok (ofBytes bs) else .error .rlpIsTooBig := by
  have hvalue := decodeValue_encodeValue h
  rw [decodeU128, hvalue, ok_bind]
  split
  · next hone =>
    rcases bs with _ | ⟨b, _ | ⟨b', bs⟩⟩
    · exact absurd rfl hne
    · rw [decodeU8, hvalue]
      exact congrArg Except.ok (by simp [ofBytes, ofDigits])
    · simp at hone
  · rfl

theorem decode_encodeValue {bs : Bytes} (hne : bs ≠ []) (h : bs.length ≤ 16) :
    decode (encodeValue bs) = .ok (asSigned (signBits bs.length) (ofBytes bs)) := by
  rw [decode, decodeU128_encodeValue hne (by omega), if_pos h,
    decodeValue_encodeValue (show bs.length < 2 ^ 32 by omega)]
  rfl

/-- The lengths that are the width of a type -/
def wordLengths : List ℕ := [1, 2, 4, 8, 16]

theorem asSigned_of_word {bs : Bytes} (h : bs.length ∈ wordLengths) :
    asSigned (signBits bs.length) (ofBytes bs) = signed bs := by
  have hbits : ∀ k ∈ wordLengths, signBits k = 8 * k := by decide
  rw [hbits _ h, asSigned, signed, pow_256]

/-- Other lengths are read without sign. -/
theorem asSigned_of_not_word {bs : Bytes} (h : bs.length ∉ wordLengths) (hle : bs.length ≤ 16) :
    asSigned (signBits bs.length) (ofBytes bs) = ofBytes bs := by
  have hbits : ∀ k ≤ 16, k ∉ wordLengths → signBits k = 128 ∧ k ≤ 15 := by decide
  obtain ⟨hbits, hlen⟩ := hbits _ hle h
  have hlt := ofBytes_lt bs
  have hpow : 256 ^ bs.length ≤ 256 ^ 15 := Nat.pow_le_pow_right (by decide) hlen
  rw [hbits, asSigned]
  apply Int.bmod_eq_of_le <;> omega

theorem length_shortest_le (h : Fits 16 sn) : (shortest sn).length ≤ 16 := by
  rw [shortest, length_twos]
  exact (fits_iff_width_le (by decide)).1 h

theorem shortest_ne_nil (n : ℤ) : shortest n ≠ [] := by
  intro h
  have hlen := congrArg List.length h
  simp [shortest, width] at hlen

theorem inSigned_iff (hk : 0 < k) : inSigned (8 * k) value ↔ Fits k value := by
  rw [fits_iff hk, inSigned]
  omega

/-- The shortest form of a serial number is read without its sign, unless it has
the length of a type. -/
theorem decode_shortest (h : Fits 16 sn) :
    decode (encodeValue (shortest sn)) = .ok sn ↔ 0 ≤ sn ∨ width sn ∈ wordLengths := by
  rw [decode_encodeValue (shortest_ne_nil sn) (length_shortest_le h), Except.ok.injEq]
  have hlen : (shortest sn).length = width sn := length_twos
  by_cases hword : width sn ∈ wordLengths
  · rw [asSigned_of_word (hlen ▸ hword), signed_shortest]
    simp [hword]
  · rw [asSigned_of_not_word (hlen ▸ hword) (length_shortest_le h), shortest, ofBytes_twos]
    have hpos := pow_256_pos (width sn)
    obtain ⟨-, hhigh⟩ := fits_width sn
    simp only [hword, or_false]
    constructor
    · intro heq
      rw [← heq]
      exact Int.emod_nonneg _ hpos.ne'
    · intro hnonneg
      exact Int.emod_eq_of_lt hnonneg (by omega)

theorem unsignedBytes_eq {v : ℕ} (h : width v ≤ 16) : unsignedBytes v = shortest v := by
  unfold unsignedBytes
  split
  · next hv => rw [hv]; decide +kernel
  · exact lowBytes_noSign_eq_shortest h

theorem natCast_asUnsigned : (asUnsigned (8 * k) sn : ℤ) = sn % 256 ^ k := by
  have hpow : (2 ^ (8 * k) : ℤ) = 256 ^ k := by exact_mod_cast (pow_256 k).symm
  rw [asUnsigned, hpow, Int.toNat_of_nonneg (Int.emod_nonneg _ (pow_256_pos k).ne')]

theorem asUnsigned_of_nonneg (h : Fits k sn) (hsn : 0 ≤ sn) : (asUnsigned (8 * k) sn : ℤ) = sn := by
  obtain ⟨-, hhigh⟩ := h
  rw [natCast_asUnsigned, Int.emod_eq_of_lt hsn (by omega)]

theorem unsignedBytes_asUnsigned (sn : ℤ) (hk : k ≤ 15) :
    Fits 16 (asUnsigned (8 * k) sn) ∧
    unsignedBytes (asUnsigned (8 * k) sn) = shortest (asUnsigned (8 * k) sn) := by
  have hfits : Fits 16 (asUnsigned (8 * k) sn) := by
    have hlt : (asUnsigned (8 * k) sn : ℤ) < 256 ^ k :=
      natCast_asUnsigned ▸ Int.emod_lt_of_pos sn (pow_256_pos k)
    have hpow : (256 ^ k : ℤ) ≤ 256 ^ 15 := pow_le_pow_right₀ (by decide) hk
    unfold Fits
    omega
  exact ⟨hfits, unsignedBytes_eq ((fits_iff_width_le (by decide)).1 hfits)⟩

/-- What the encoder is handed: the shortest form, that of another integer, or 16
bytes. -/
theorem payload_cases (h : Fits 16 sn) :
    (-128 ≤ sn ∧ payload sn = shortest sn) ∨
    (sn < -128 ∧ -2 ^ 63 ≤ sn ∧ ∃ v : ℕ, Fits 16 v ∧ payload sn = shortest v) ∨
    (sn < -2 ^ 63 ∧ payload sn = twos 16 sn) := by
  by_cases h8 : inSigned 8 sn
  · have hw : width sn = 1 := by
      have hle := (fits_iff_width_le Nat.one_pos).1 ((inSigned_iff Nat.one_pos).1 h8)
      have hpos : 0 < width sn := Nat.succ_pos _
      omega
    refine .inl ⟨h8.1, ?_⟩
    have hlt : (sn % 256).toNat < 256 := by omega
    rw [payload, if_pos h8, shortest, hw, twos, asUnsigned]
    simp [toBytes, toDigits, Nat.mod_eq_of_lt hlt]
  -- the three middle branches differ in the width only
  have hbranch (k : ℕ) (hk : 0 < k) (hk8 : k ≤ 8) (hin : inSigned (8 * k) sn)
      (hpayload : payload sn = unsignedBytes (asUnsigned (8 * k) sn)) :
      (-128 ≤ sn ∧ payload sn = shortest sn) ∨
      (sn < -128 ∧ -2 ^ 63 ≤ sn ∧ ∃ v : ℕ, Fits 16 v ∧ payload sn = shortest v) := by
    have hfits := (inSigned_iff hk).1 hin
    obtain ⟨hfits16, hbytes⟩ := unsignedBytes_asUnsigned sn (show k ≤ 15 by omega)
    rcases lt_or_ge sn 0 with hneg | hnonneg
    · obtain ⟨hlow, -⟩ := (fits_iff (by decide)).1 (hfits.mono hk8)
      have : ¬-128 ≤ sn := fun hle => h8 ⟨hle, by omega⟩
      exact .inr ⟨by omega, hlow, _, hfits16, hpayload.trans hbytes⟩
    · refine .inl ⟨by omega, ?_⟩
      rw [hpayload, hbytes, asUnsigned_of_nonneg hfits hnonneg]
  by_cases h16 : inSigned 16 sn
  · exact (hbranch 2 (by decide) (by decide) h16 (by rw [payload, if_neg h8, if_pos h16])).imp_right .inl
  by_cases h32 : inSigned 32 sn
  · exact (hbranch 4 (by decide) (by decide) h32
      (by rw [payload, if_neg h8, if_neg h16, if_pos h32])).imp_right .inl
  by_cases h64 : inSigned 64 sn
  · exact (hbranch 8 (by decide) (by decide) h64
      (by rw [payload, if_neg h8, if_neg h16, if_neg h32, if_pos h64])).imp_right .inl
  have hpayload : payload sn = unsignedBytes (asUnsigned (8 * 16) sn) := by
    rw [payload, if_neg h8, if_neg h16, if_neg h32, if_neg h64]
  obtain ⟨hlow, hhigh⟩ := (fits_iff (by decide)).1 h
  rcases lt_or_ge sn 0 with hneg | hnonneg
  · have hlow64 : ¬-2 ^ 63 ≤ sn := fun hle => h64 ⟨hle, by omega⟩
    refine .inr (.inr ⟨by omega, ?_⟩)
    have hvalue : (asUnsigned (8 * 16) sn : ℤ) = sn + 256 ^ 16 := by
      rw [natCast_asUnsigned, ← Int.add_emod_right, Int.emod_eq_of_lt] <;> omega
    have hwidth : ¬width (asUnsigned (8 * 16) sn) ≤ 16 := by
      rw [← fits_iff_width_le (by decide), fits_iff (by decide)]
      omega
    rw [hpayload, unsignedBytes, if_neg (by omega), lowBytes_noSign, Nat.min_eq_left (by omega),
      twos, ← natCast_asUnsigned, Int.toNat_natCast]
  · refine .inl ⟨by omega, ?_⟩
    have hvalue := asUnsigned_of_nonneg h hnonneg
    rw [hpayload, unsignedBytes_eq, hvalue]
    rw [hvalue]
    exact (fits_iff_width_le (by decide)).1 h

/-- Below `i8` only what needs all 16 bytes is written in two's complement. -/
theorem payload_eq_shortest (h : Fits 16 sn) :
    payload sn = shortest sn ↔ -128 ≤ sn ∨ sn < -2 ^ 119 := by
  obtain ⟨hsn, heq⟩ | ⟨hsn, hlow, v, -, heq⟩ | ⟨hsn, heq⟩ := payload_cases h
  · simp [heq, hsn]
  · have hne : shortest v ≠ shortest sn := by
      intro hsame
      have := congrArg signed hsame
      rw [signed_shortest, signed_shortest] at this
      omega
    rw [heq]
    simp only [hne, false_iff]
    omega
  · have hwidth : twos 16 sn = shortest sn ↔ ¬Fits 15 sn := by
      have hle := (fits_iff_width_le (by decide)).1 h
      rw [fits_iff_width_le (by decide)]
      constructor
      · intro hsame
        have := congrArg List.length hsame
        rw [shortest, length_twos, length_twos] at this
        omega
      · intro hlt
        rw [shortest, show width sn = 16 by omega]
    rw [heq, hwidth, fits_iff (by decide)]
    omega

theorem decode_rlpAppend_succeeds (h : Fits 16 sn) : ∃ value, decode (rlpAppend sn) = .ok value := by
  obtain ⟨-, heq⟩ | ⟨-, -, v, hv, heq⟩ | ⟨-, heq⟩ := payload_cases h
  · exact ⟨_, by rw [rlpAppend, heq, decode_encodeValue (shortest_ne_nil sn) (length_shortest_le h)]⟩
  · exact ⟨_, by rw [rlpAppend, heq, decode_encodeValue (shortest_ne_nil _) (length_shortest_le hv)]⟩
  · have hlen : (twos 16 sn).length = 16 := length_twos
    have hne : twos 16 sn ≠ [] := ne_nil_of_length_pos (by omega)
    exact ⟨_, by rw [rlpAppend, heq, decode_encodeValue hne hlen.le]⟩

/-- What is written is read as another number if it is below `i8` and in `i64`. -/
theorem decode_rlpAppend (h : Fits 16 sn) :
    decode (rlpAppend sn) = .ok sn ↔ -128 ≤ sn ∨ sn < -2 ^ 63 := by
  obtain ⟨hsn, heq⟩ | ⟨hsn, hlow, v, hv, heq⟩ | ⟨hsn, heq⟩ := payload_cases h
  · have hword : 0 ≤ sn ∨ width sn ∈ wordLengths := by
      rcases lt_or_ge sn 0 with hneg | hnonneg
      · have hle : width sn ≤ 1 := (fits_iff_width_le Nat.one_pos).1 ((fits_iff Nat.one_pos).2 (by omega))
        have hpos : 0 < width sn := Nat.succ_pos _
        rw [show width sn = 1 by omega]
        exact .inr (by decide)
      · exact .inl hnonneg
    rw [rlpAppend, heq, decode_shortest h]
    simp [hword, hsn]
  · have hread := (decode_shortest hv).2 (.inl (Int.natCast_nonneg v))
    rw [rlpAppend, heq, hread, Except.ok.injEq]
    omega
  · have hlen : (twos 16 sn).length = 16 := length_twos
    have hne : twos 16 sn ≠ [] := ne_nil_of_length_pos (by omega)
    rw [rlpAppend, heq, decode_encodeValue hne hlen.le, asSigned_of_word (by rw [hlen]; decide),
      signed_twos h]
    exact iff_of_true rfl (.inr hsn)

/-- A serial number is written in the form that the other chains read, and read
back from it, if and only if it is not below `i8` or needs all 16 bytes. -/
theorem serialNumber_twosComplement (sn : ℤ) (hsn : -2 ^ 127 ≤ sn ∧ sn ≤ 2 ^ 127 - 1) :
    (payload sn = shortest sn ∧ decode (encodeValue (shortest sn)) = .ok sn ∧
      decode (rlpAppend sn) = .ok sn ↔ -128 ≤ sn ∨ sn < -2 ^ 119) ∧
    (decode (rlpAppend sn) = .ok sn ↔ -128 ≤ sn ∨ sn < -2 ^ 63) := by
  have h : Fits 16 sn := (fits_iff (by decide)).2 (by omega)
  refine ⟨⟨fun ⟨hpayload, _, _⟩ => (payload_eq_shortest h).1 hpayload, fun hcond => ?_⟩,
    decode_rlpAppend h⟩
  have hpayload := (payload_eq_shortest h).2 hcond
  have hread := (decode_rlpAppend h).2 (by omega)
  refine ⟨hpayload, ?_, hread⟩
  rwa [rlpAppend, hpayload] at hread

theorem errorReply_to_128 : payload (-128) = shortest (-128) ∧ decode (rlpAppend (-128)) = .ok (-128) :=
  have h := (serialNumber_twosComplement (-128) (by decide)).1.2 (by decide)
  ⟨h.1, h.2.2⟩

/-- The error reply to the serial number 129 carries 65407. -/
theorem errorReply_to_129 : payload (-129) = [0x00, 0xff, 0x7f] ∧ shortest (-129) = [0xff, 0x7f] ∧
    decode (rlpAppend (-129)) = .ok 65407 := by
  decide +kernel

/-- The shortest form of −32769 has three bytes. -/
example : decode (encodeValue (shortest (-32769))) = .ok 16744447 := by decide +kernel

end IconBridge.Near.RLP
