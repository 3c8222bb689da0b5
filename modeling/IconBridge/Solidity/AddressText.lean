import IconBridge.Lib.Bytes
import IconBridge.Solidity.Text

/-!
# The loops of `ParseAddress`

The reading loop takes the characters one by one, and keeps the first half of a
byte until it comes to the second. The writing loop goes byte by byte.
-/

namespace IconBridge.Solidity

open Lib List

structure ParseState where
  nibble : ℕ
  accountAddressBytes : Bytes

def isValidASCII (b : ℕ) : Bool :=
  !decide (b < 48) && !decide (57 < b ∧ b < 65) && !decide (70 < b ∧ b < 97) && !decide (102 < b)

def asciiOffset (b : ℕ) : ℕ := if b < 65 then 48 else if 70 < b then 87 else 55

def parseRound (accountBytes : List Char) (st : ParseState) (i : ℕ) : Outcome ParseState := do
  let c ← expect accountBytes[i + 2]? (.panic 0x32)
  let b := c.toNat
  require (isValidASCII b) (.error "Invalid address")
  if i % 2 = 0 then return { st with nibble := b - asciiOffset b }
  else
    let byte := UInt8.ofNat (16 * st.nibble + (b - asciiOffset b))
    return { st with accountAddressBytes := st.accountAddressBytes.set ((i - 1) / 2) byte }

def parseAddressLoops (account : String) : Outcome Address := do
  let accountBytes := account.toList
  require (accountBytes.length = 42 ∧ accountBytes[0]? = some '0' ∧ accountBytes[1]? = some 'x')
    (.error "Invalid address format")
  let st ← (List.range 40).foldlM (parseRound accountBytes) ⟨0, List.replicate 20 0⟩
  -- `mload(add(packed, 20))` begins in the length of `packed`
  let accountAddress := BitVec.ofNat 160 (20 * 256 ^ 20 + ofBytes st.accountAddressBytes)
  if accountAddress = 0 then
    (accountBytes.drop 2).forM fun c => require (c = '0') (.error "Invalid address")
  return accountAddress

def addressByte (account : Address) (i : ℕ) : ℕ := account.toNat / 2 ^ (8 * (19 - i)) % 256

/-- The loop of `_toChecksumString`, and of `_toAsciiString` without capitals. -/
def toChars (account : Address) (caps : ℕ → Bool) : List Char :=
  (List.range 20).flatMap fun i =>
    let b := addressByte account i
    let leftNibble := b / 16
    let rightNibble := b - 16 * leftNibble
    [hexChar leftNibble (caps (2 * i)), hexChar rightNibble (caps (2 * i + 1))]

abbrev Keccak256 := List Char → ℕ → UInt8

def toChecksumCapsFlags (keccak256 : Keccak256) : Checksum := fun account j =>
  let a := addressByte account (j / 2)
  let b := (keccak256 (toChars account fun _ => false) (j / 2)).toNat
  if j % 2 = 0 then 9 < a / 16 ∧ 7 < b / 16 else 9 < a % 16 ∧ 7 < b % 16

def toChecksumString (keccak256 : Keccak256) (account : Address) : String :=
  String.ofList ('0' :: 'x' :: toChars account (toChecksumCapsFlags keccak256 account))

theorem hexValue_eq (c : Char) : hexValue c = (do
    require (isValidASCII c.toNat) (.error "Invalid address")
    return c.toNat - asciiOffset c.toNat) := by
  have hvalid : isValidASCII c.toNat = !decide (c.toNat < 48 ∨ (57 < c.toNat ∧ c.toNat < 65) ∨
      (70 < c.toNat ∧ c.toNat < 97) ∨ 102 < c.toNat) := by
    simp only [isValidASCII, Bool.decide_or, Bool.not_or, Bool.and_assoc]
  simp only [hexValue, hvalid, asciiOffset]
  split
  · next h => simp only [h, decide_true]; rfl
  · next h =>
    simp only [h, decide_false, Bool.not_false, require_true, ok_bind]
    split_ifs <;> rfl

theorem hexValue_lt (h : hexValue c = .ok n) : n < 16 := by
  simp only [hexValue] at h
  split_ifs at h <;> cases h <;> omega

section Rounds

variable {account : List Char} {st : ParseState}

theorem parseRound_even (hc : account[2 * k + 2]? = some c) :
    parseRound account st (2 * k) = (hexValue c).map fun n => { st with nibble := n } := by
  rw [parseRound, hc, hexValue_eq]
  simp only [expect, ok_bind, Nat.mul_mod_right, if_true]
  cases isValidASCII c.toNat <;> rfl

theorem parseRound_odd (hc : account[2 * k + 1 + 2]? = some c) :
    parseRound account st (2 * k + 1) = (hexValue c).map fun n =>
      { st with accountAddressBytes :=
          st.accountAddressBytes.set k (UInt8.ofNat (16 * st.nibble + n)) } := by
  have hodd : (2 * k + 1) % 2 ≠ 0 := by omega
  have hplace : (2 * k + 1 - 1) / 2 = k := by omega
  rw [parseRound, hc, hexValue_eq]
  simp only [expect, ok_bind, if_neg hodd, hplace]
  cases isValidASCII c.toNat <;> rfl

end Rounds

def pack : List ℕ → Bytes
  | high :: low :: ns => UInt8.ofNat (16 * high + low) :: pack ns
  | _ => []

/-- From the byte `k` on, with the bytes in front of it in `done`. -/
theorem foldlM_parseRound (n : ℕ) {front ds : List Char} (hds : ds.length = 2 * n)
    (hfront : front.length = 2 * done.length + 2) (x : ℕ) :
    ((List.range' (2 * done.length) (2 * n)).foldlM (parseRound (front ++ ds))
      ⟨x, done ++ List.replicate n 0⟩).map ParseState.accountAddressBytes =
      (ds.mapM hexValue).map fun ns => done ++ pack ns := by
  induction n generalizing front ds done x with
  | zero =>
    obtain rfl := length_eq_zero_iff.1 hds
    rfl
  | succ n ih =>
    obtain _ | ⟨a, _ | ⟨b, ds⟩⟩ := ds
    · simp at hds
    · simp at hds
      omega
    have ha : (front ++ a :: b :: ds)[2 * done.length + 2]? = some a := by
      rw [← hfront]
      simp
    have hb : (front ++ a :: b :: ds)[2 * done.length + 1 + 2]? = some b := by
      rw [show 2 * done.length + 1 + 2 = front.length + 1 by omega]
      simp
    rw [show 2 * (n + 1) = 2 * n + 1 + 1 by omega, range'_succ, range'_succ,
      foldlM_cons, parseRound_even ha, mapM_cons, mapM_cons]
    cases hva : hexValue a with
    | error e => rfl
    | ok high =>
      simp only [Except.map, ok_bind, foldlM_cons, parseRound_odd hb]
      cases hvb : hexValue b with
      | error e => rfl
      | ok low =>
        have hfront' : (front ++ [a, b]).length =
            2 * (done ++ [UInt8.ofNat (16 * high + low)]).length + 2 := by
          simp only [length_append, length_cons, length_nil]
          omega
        have hnext := ih (by simpa [Nat.mul_add] using hds) hfront' high
        rw [append_assoc, length_append, length_singleton, Nat.mul_add] at hnext
        simp only [ok_bind, set_next]
        refine hnext.trans ?_
        cases ds.mapM hexValue with
        | error e => rfl
        | ok ns =>
          simp only [ok_bind, Except.map, append_assoc]
          rfl

theorem length_pack (n : ℕ) {ns : List ℕ} (hns : ns.length = 2 * n) : (pack ns).length = n := by
  induction n generalizing ns with
  | zero =>
    obtain rfl := length_eq_zero_iff.1 hns
    rfl
  | succ n ih =>
    obtain _ | ⟨high, _ | ⟨low, ns⟩⟩ := ns
    · simp at hns
    · simp at hns
      omega
    · rw [pack, length_cons, ih (by simpa [Nat.mul_add] using hns)]

theorem ofBytes_pack (n : ℕ) {ns : List ℕ} (hns : ns.length = 2 * n) (h : ∀ d ∈ ns, d < 16) :
    ofBytes (pack ns) = ofDigits 16 ns := by
  induction n generalizing ns with
  | zero =>
    obtain rfl := length_eq_zero_iff.1 hns
    rfl
  | succ n ih =>
    obtain _ | ⟨high, _ | ⟨low, ns⟩⟩ := ns
    · simp at hns
    · simp at hns
      omega
    · have hlen : ns.length = 2 * n := by simpa [Nat.mul_add] using hns
      obtain ⟨hhigh, hlow, hns⟩ : high < 16 ∧ low < 16 ∧ ∀ d ∈ ns, d < 16 := by simpa using h
      have hbyte : (UInt8.ofNat (16 * high + low)).toNat = 16 * high + low := by
        simp only [UInt8.toNat_ofNat']
        omega
      have hdigits := ofDigits_append (b := 16) [high, low] ns
      rw [cons_append, cons_append, nil_append, hlen, Nat.pow_mul] at hdigits
      rw [pack, ofBytes_cons, hbyte, length_pack n hlen, ih hlen hns, hdigits, Nat.mul_comm]
      simp [ofDigits]

theorem mapM_hexValue_lt {ds : List Char} (h : ds.mapM hexValue = .ok ns) :
    ns.length = ds.length ∧ ∀ n ∈ ns, n < 16 := by
  have hall := forall₂_of_mapM h
  refine ⟨hall.length_eq.symm, ?_⟩
  clear h
  induction hall with
  | nil => simp
  | cons hc _ ih => exact forall_mem_cons.2 ⟨hexValue_lt hc, ih⟩

theorem forM_require_zero (ds : List Char) :
    (ds.forM fun c => require (decide (c = '0')) (.error "Invalid address") : Outcome Unit) =
      require (ds.all (· == '0')) (.error "Invalid address") := by
  induction ds with
  | nil => rfl
  | cons c ds ih =>
    rw [List.forM, all_cons, ih]
    by_cases hc : c = '0'
    · rw [decide_eq_true hc, beq_iff_eq.2 hc]
      rfl
    · rw [decide_eq_false hc, beq_false_of_ne hc]
      rfl

theorem ofNat_length_word (n : ℕ) : BitVec.ofNat 160 (20 * 256 ^ 20 + n) = BitVec.ofNat 160 n := by
  apply BitVec.eq_of_toNat_eq
  simp only [BitVec.toNat_ofNat]
  omega

theorem foldlM_digits {digits : List Char} (hlen : digits.length = 40) :
    ((List.range 40).foldlM (parseRound ('0' :: 'x' :: digits)) ⟨0, List.replicate 20 0⟩).map
      ParseState.accountAddressBytes = (digits.mapM hexValue).map pack := by
  have hfront : ['0', 'x'].length = 2 * ([] : Bytes).length + 2 := rfl
  have hfold := foldlM_parseRound 20 hlen hfront 0
  rw [range_eq_range']
  exact hfold

theorem parseAddressLoops_eq (account : String) : parseAddressLoops account = parseAddress account := by
  rw [parseAddressLoops, parseAddress]
  split
  · next digits hdigits =>
    have hformat : (('0' :: 'x' :: digits).length = 42 ∧ ('0' :: 'x' :: digits)[0]? = some '0' ∧
        ('0' :: 'x' :: digits)[1]? = some 'x') ↔ digits.length = 40 := by simp
    simp only [hdigits, hformat]
    by_cases hlen : digits.length = 40
    · have hfold := foldlM_digits hlen
      simp only [hlen, decide_true, require_true, ok_bind, drop_succ_cons, drop_zero,
        forM_require_zero, ofNat_length_word]
      cases hst : (List.range 40).foldlM (parseRound ('0' :: 'x' :: digits))
          ⟨0, List.replicate 20 0⟩ with
      | error e =>
        rw [hst] at hfold
        cases hns : digits.mapM hexValue with
        | error e' =>
          rw [hns] at hfold
          cases hfold
          rfl
        | ok ns =>
          rw [hns] at hfold
          cases hfold
      | ok st =>
        rw [hst] at hfold
        cases hns : digits.mapM hexValue with
        | error e' =>
          rw [hns] at hfold
          cases hfold
        | ok ns =>
          rw [hns] at hfold
          obtain ⟨hnslen, hlt⟩ := mapM_hexValue_lt hns
          have hbytes : st.accountAddressBytes = pack ns := Except.ok.inj hfold
          simp only [ok_bind, hbytes, ofBytes_pack 20 (hnslen.trans hlen) hlt]
    · rw [decide_eq_false hlen]
      rfl
  · next hnot =>
    have hformat : ¬(account.toList.length = 42 ∧ account.toList[0]? = some '0' ∧
        account.toList[1]? = some 'x') := by
      rintro ⟨hlen, h0, h1⟩
      rcases hcs : account.toList with _ | ⟨a, _ | ⟨b, cs⟩⟩
      · simp [hcs] at hlen
      · simp [hcs] at hlen
      · rw [hcs] at h0 h1
        cases h0
        cases h1
        exact hnot _ hcs
    rw [decide_eq_false hformat]
    rfl

theorem halves_eq_toDigits (k n : ℕ) :
    ((List.range k).flatMap fun i =>
      [n / 2 ^ (8 * (k - 1 - i)) % 256 / 16,
        n / 2 ^ (8 * (k - 1 - i)) % 256 - 16 * (n / 2 ^ (8 * (k - 1 - i)) % 256 / 16)]) =
      toDigits 16 (2 * k) n := by
  induction k generalizing n with
  | zero => rfl
  | succ k ih =>
    have hhigh : ((List.range k).flatMap fun i =>
        [n / 2 ^ (8 * (k + 1 - 1 - i)) % 256 / 16,
          n / 2 ^ (8 * (k + 1 - 1 - i)) % 256 - 16 * (n / 2 ^ (8 * (k + 1 - 1 - i)) % 256 / 16)]) =
        toDigits 16 (2 * k) (n / 256) := by
      rw [← ih]
      refine flatMap_congr fun i hi => ?_
      have hk : 8 * (k + 1 - 1 - i) = 8 + 8 * (k - 1 - i) := by
        have := mem_range.1 hi
        omega
      rw [hk, Nat.pow_add, ← Nat.div_div_eq_div_mul]
    have hlast : k + 1 - 1 - k = 0 := by omega
    rw [range_succ, flatMap_append, hhigh, Nat.mul_add, toDigits_add]
    congr 1
    have hleft : n % 256 / 16 = n / 16 % 16 := by omega
    have hright : n % 256 - 16 * (n / 16 % 16) = n % 16 := by omega
    simp only [flatMap_cons, flatMap_nil, hlast, Nat.mul_zero, Nat.pow_zero, Nat.div_one,
      hleft, hright]
    rfl

theorem flatMap_pairs (f : ℕ → ℕ → α) (l r : ℕ → ℕ) (k : ℕ) :
    ((List.range k).flatMap fun i => [f (2 * i) (l i), f (2 * i + 1) (r i)]) =
      ((List.range k).flatMap fun i => [l i, r i]).mapIdx f := by
  induction k with
  | zero => rfl
  | succ k ih =>
    have hlen : ((List.range k).flatMap fun i => [l i, r i]).length = 2 * k := by
      simp [length_flatMap, Nat.mul_comm]
    rw [range_succ, flatMap_append, flatMap_append, mapIdx_append, ih, hlen]
    simp [Nat.add_comm]

theorem toChecksumString_eq (keccak256 : Keccak256) (account : Address) :
    toChecksumString keccak256 account = toString (toChecksumCapsFlags keccak256) account := by
  have hchars (caps : ℕ → Bool) : toChars account caps =
      (toDigits 16 40 account.toNat).mapIdx fun i nibble => hexChar nibble (caps i) := by
    rw [show 40 = 2 * 20 from rfl, ← halves_eq_toDigits, ← flatMap_pairs]
    rfl
  rw [toChecksumString, toString, addressDigits, hchars]

def hexDigits : List Char := "0123456789abcdefABCDEF".toList

theorem forall_hexDigits {P : Char → Prop} [DecidablePred P] (h : hexDigits.all (P ·)) :
    ∀ c ∈ hexDigits, P c := fun c hc => of_decide_eq_true (all_eq_true.1 h c hc)

theorem hexValue_ok_iff (c : Char) : (∃ n, hexValue c = .ok n) ↔ c ∈ hexDigits := by
  have hsmall : ∀ b < 103, (hexValue (Char.ofNat b)).toBool = true ↔ Char.ofNat b ∈ hexDigits := by
    decide +kernel
  by_cases hb : c.toNat < 103
  · have h := hsmall c.toNat hb
    rwa [Char.ofNat_toNat, toBool_ok] at h
  · have hreject : hexValue c = .error (.error "Invalid address") := by
      simp only [hexValue]
      rw [if_pos (by omega)]
    have hlow : ∀ d ∈ hexDigits, d.toNat < 103 := forall_hexDigits (by decide +kernel)
    rw [hreject]
    refine iff_of_false (by rintro ⟨n, ⟨⟩⟩) fun hmem => hb (hlow c hmem)

theorem mapM_hexValue_ok_iff (ds : List Char) :
    (∃ ns, ds.mapM hexValue = .ok ns) ↔ ∀ c ∈ ds, c ∈ hexDigits := by
  induction ds with
  | nil => exact iff_of_true ⟨[], rfl⟩ (by simp)
  | cons c ds ih =>
    rw [forall_mem_cons, ← ih, ← hexValue_ok_iff]
    simp only [mapM_cons, bind_ok, pure_ok]
    constructor
    · rintro ⟨_, n, hn, ns, hns, -⟩
      exact ⟨⟨n, hn⟩, ns, hns⟩
    · rintro ⟨⟨n, hn⟩, ns, hns⟩
      exact ⟨_, n, hn, ns, hns, rfl⟩

/-- A text of an address: `0x` and forty hexadecimal digits -/
def IsAddressText (account : String) : Prop :=
  ∃ digits, account.toList = '0' :: 'x' :: digits ∧ digits.length = 40 ∧ ∀ c ∈ digits, c ∈ hexDigits

/-- The second check of the characters refuses nothing: the value is zero only if
all the digits are. -/
theorem digits_of_zero {ns : List ℕ} {digits : List Char} (hlen : digits.length = 40)
    (hns : digits.mapM hexValue = .ok ns) (hzero : BitVec.ofNat 160 (ofDigits 16 ns) = 0) :
    digits.all (· == '0') := by
  obtain ⟨hnslen, hlt⟩ := mapM_hexValue_lt hns
  have hvalue : ofDigits 16 ns = 0 := by
    have hbound := ofDigits_lt hlt
    rw [hnslen, hlen] at hbound
    have hnat := congrArg BitVec.toNat hzero
    rw [BitVec.toNat_ofNat, Nat.mod_eq_of_lt (by omega)] at hnat
    exact hnat
  have hdigits := toDigits_ofDigits hlt
  rw [hvalue, toDigits_zero] at hdigits
  have hall := forall₂_of_mapM hns
  rw [← hdigits] at hall
  have hchar : ∀ c ∈ hexDigits, hexValue c = .ok 0 → c = '0' := forall_hexDigits (by decide +kernel)
  rw [all_eq_true]
  intro c hc
  obtain ⟨i, hi, rfl⟩ := getElem_of_mem hc
  have hvalue := hall.get hi (by rw [← hall.length_eq]; exact hi)
  rw [get_eq_getElem, get_eq_getElem, getElem_replicate] at hvalue
  exact beq_iff_eq.2 (hchar _ ((hexValue_ok_iff _).1 ⟨_, hvalue⟩) hvalue)

theorem parseAddress_ok_iff : parseAddress account = .ok a ↔
    ∃ digits ns, account.toList = '0' :: 'x' :: digits ∧ digits.length = 40 ∧
      digits.mapM hexValue = .ok ns ∧ a = BitVec.ofNat 160 (ofDigits 16 ns) := by
  unfold parseAddress
  split
  · next digits hdigits =>
    simp only [bind_ok, require_ok, decide_eq_true_eq]
    constructor
    · rintro ⟨_, hlen, ns, hns, h⟩
      refine ⟨digits, ns, hdigits, hlen, hns, ?_⟩
      split at h
      · obtain ⟨_, -, h⟩ := bind_ok.1 h
        exact (pure_ok.1 h).symm
      · exact (pure_ok.1 h).symm
    · rintro ⟨digits', ns, hdigits', hlen, hns, rfl⟩
      cases hdigits.symm.trans hdigits'
      refine ⟨(), hlen, ns, hns, ?_⟩
      split
      · next hzero =>
        rw [digits_of_zero hlen hns hzero, require_true]
        rfl
      · rfl
  · next hnot =>
    refine iff_of_false (by rintro ⟨⟩) ?_
    rintro ⟨digits, _, hdigits, -⟩
    exact hnot digits hdigits

theorem parseAddress_succeeds_iff (account : String) :
    (∃ a, parseAddress account = .ok a) ↔ IsAddressText account := by
  simp only [parseAddress_ok_iff, IsAddressText, ← mapM_hexValue_ok_iff]
  constructor
  · rintro ⟨_, digits, ns, htext, hlen, hns, -⟩
    exact ⟨digits, htext, hlen, ns, hns⟩
  · rintro ⟨digits, htext, hlen, ns, hns⟩
    exact ⟨_, digits, ns, htext, hlen, hns, rfl⟩

theorem hexValue_eq_iff (hc : hexValue c = .ok n) (hd : hexValue d = .ok m) :
    n = m ↔ c.toLower = d.toLower := by
  have hall : ∀ c ∈ hexDigits, hexDigits.all fun d => hexValue c = hexValue d ↔ c.toLower = d.toLower :=
    forall_hexDigits (by decide +kernel)
  have hiff := forall_hexDigits (hall c ((hexValue_ok_iff c).1 ⟨n, hc⟩)) d ((hexValue_ok_iff d).1 ⟨m, hd⟩)
  rw [← hiff, hc, hd, Except.ok.injEq]

theorem values_eq_iff {ds es : List Char} (hds : List.Forall₂ (fun c n => hexValue c = .ok n) ds ns)
    (hes : List.Forall₂ (fun c n => hexValue c = .ok n) es ms) :
    ns = ms ↔ ds.map Char.toLower = es.map Char.toLower := by
  induction hds generalizing es ms with
  | nil => cases hes <;> simp
  | cons hc _ ih =>
    cases hes with
    | nil => simp
    | cons hd hes =>
      rw [List.cons.injEq, map_cons, map_cons, List.cons.injEq, hexValue_eq_iff hc hd,
        ih hes]

theorem ofDigits_eq_iff {ns ms : List ℕ} (hns : ns.length = 40) (hms : ms.length = 40)
    (hns' : ∀ n ∈ ns, n < 16) (hms' : ∀ n ∈ ms, n < 16) :
    BitVec.ofNat 160 (ofDigits 16 ns) = BitVec.ofNat 160 (ofDigits 16 ms) ↔ ns = ms := by
  refine ⟨fun h => ?_, fun h => by rw [h]⟩
  have hn := ofDigits_lt hns'
  have hm := ofDigits_lt hms'
  rw [hns] at hn
  rw [hms] at hm
  have hnat := congrArg BitVec.toNat h
  rw [BitVec.toNat_ofNat, BitVec.toNat_ofNat, Nat.mod_eq_of_lt (by omega),
    Nat.mod_eq_of_lt (by omega)] at hnat
  rw [← toDigits_ofDigits hns', ← toDigits_ofDigits hms', hns, hms, hnat]

theorem parseAddress_eq_iff (hs : parseAddress s = .ok a) (ht : parseAddress t = .ok b) :
    a = b ↔ s.toList.map Char.toLower = t.toList.map Char.toLower := by
  obtain ⟨ds, ns, hstext, hslen, hns, rfl⟩ := parseAddress_ok_iff.1 hs
  obtain ⟨es, ms, httext, htlen, hms, rfl⟩ := parseAddress_ok_iff.1 ht
  obtain ⟨hnslen, hnslt⟩ := mapM_hexValue_lt hns
  obtain ⟨hmslen, hmslt⟩ := mapM_hexValue_lt hms
  rw [ofDigits_eq_iff (hnslen.trans hslen) (hmslen.trans htlen) hnslt hmslt,
    values_eq_iff (forall₂_of_mapM hns) (forall₂_of_mapM hms), hstext, httext]
  simp

end IconBridge.Solidity
