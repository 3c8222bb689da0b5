import IconBridge.Java.BMC.Wire
import IconBridge.Java.BTS.Wire
import IconBridge.Java.BTS.Service
import IconBridge.Solidity.RLP.Service
import IconBridge.Solidity.RLP.TokenService

/-!
# Bytes from one chain read on the other

Links as the message centers write them, and the requests of the token service
of ICON as the one in Solidity reads them.
-/

namespace IconBridge.Bridge

open Lib
open Solidity.RLP

variable {behind : Bytes → Bytes} {inner : Bytes}

/-- A link is read back, and it is written as ICON writes it. -/
def LinkRoundTrips (behind : Bytes → Bytes) (serviceType link : Bytes) : Prop :=
  ∃ message payload, propagateInternal serviceType link = .ok message ∧
    decodeBMCService behind message = .ok ⟨serviceType, payload⟩ ∧
    decodePropagateMessage behind payload = .ok link ∧
    payload = Java.BMC.writeLinkMessage (some link)

theorem byte0_encodeString (h : bs.length < 2 ^ 64) (rest : Bytes) :
    byte0 (Lib.RLP.encodeString bs ++ rest) < 0xc0 := by
  have hhead {n : ℕ} {head more : Bytes} (h : Lib.RLP.IsHead 0x80 n head) :
      byte0 (head ++ more) < 0xc0 := by
    obtain ⟨b, tail, rfl, -, hb⟩ := h.cons (by decide)
    exact hb
  unfold Lib.RLP.encodeString
  split
  · next b =>
    split
    · next hb =>
      have hlt := UInt8.lt_iff_toNat_lt.1 hb
      simp only [byte0, List.cons_append, List.headD_cons]
      exact lt_trans hlt (by decide)
    · rw [List.append_assoc]
      exact hhead (Lib.RLP.head_isHead 0x80 h)
  · rw [List.append_assoc]
    exact hhead (Lib.RLP.head_isHead 0x80 h)

theorem At.unique (h : At e item) (h' : At e' item) : e = e' :=
  (toRlpBytes_of_at h).symm.trans (toRlpBytes_of_at h')

theorem length_encodeString_le (h : bs.length < 2 ^ 64) :
    (Lib.RLP.encodeString bs).length ≤ bs.length + 9 := by
  have hhead := length_head_le (Lib.RLP.head_isHead 0x80 h)
  unfold Lib.RLP.encodeString
  split
  · split
    · simp
    · rw [List.length_append, List.length_singleton] at *
      omega
  · rw [List.length_append]
    omega

theorem nested_ne_writeLinkMessage (hmem : link.length + 128 < 2 ^ 64)
    (h : Nested (encodeBytes link) payload inner outer) :
    payload ≠ Java.BMC.writeLinkMessage (some link) := by
  intro heq
  have hlt : link.length < 2 ^ 64 := by omega
  have hlen := length_encodeBytes_le hlt
  have hlen' := length_encodeString_le hlt
  obtain ⟨head, hstring, hitem⟩ := encodeString_item hlt
  have hchunk : Chunk (Lib.RLP.encodeString link) := hstring ▸ hitem.chunk
  have hhead := Lib.RLP.head_isHead 0xc0 (show (Lib.RLP.encodeString link).length < 2 ^ 64 by omega)
  obtain ⟨entry, hls, hat⟩ := h.entry (fun _ => []) (by omega)
  obtain ⟨entry', hls', hat'⟩ := toList_singleton hhead (by omega) hchunk
    (at_toRlpItem (fun _ => []) (Java.BMC.writeLinkMessage (some link)))
  rw [heq, hls'] at hls
  cases hls
  -- the only item would be a list and a string
  have hlist := byte0_of_isHead h.innerHead (by omega) (encodeBytes link ++ [])
  have hword := byte0_encodeString hlt []
  rw [← At.unique hat hat', List.append_assoc] at hword
  omega

theorem decodePropagateMessage_propagated (behind : Bytes → Bytes) (hne : st ≠ [0x80])
    (hmem : st.length + link.length + 128 < 2 ^ 64) :
    ∃ message payload, propagateInternal st link = .ok message ∧
      decodeBMCService behind message = .ok ⟨st, payload⟩ ∧
      decodePropagateMessage behind payload = .ok (encodeBytes link) ∧
      payload ≠ Java.BMC.writeLinkMessage (some link) := by
  have hlen := length_encodeBytes_le (show link.length < 2 ^ 64 by omega)
  obtain ⟨message, payload, inner, outer, hmessage, hservice, hnested⟩ :=
    propagateInternal_read behind (show st.length + link.length + 96 < 2 ^ 64 by omega) hne
  exact ⟨message, payload, hmessage, hservice, hnested.decodePropagateMessage (by omega),
    nested_ne_writeLinkMessage (by omega) hnested⟩

/-- What is read is the link with the head that it has in RLP, and what is written is in one list
more than on ICON. -/
theorem link_never_round_trips (behind : Bytes → Bytes) (serviceType link : Bytes)
    (hst : serviceType = utf8 "Link" ∨ serviceType = utf8 "Unlink")
    (hmem : link.length + 256 < 2 ^ 64) :
    (∃ message payload, propagateInternal serviceType link = .ok message ∧
      decodeBMCService behind message = .ok ⟨serviceType, payload⟩ ∧
      decodePropagateMessage behind payload = .ok (encodeBytes link)) ∧
    ¬ LinkRoundTrips behind serviceType link := by
  have hlen : serviceType.length ≤ 6 ∧ serviceType ≠ [0x80] := by
    rcases hst with rfl | rfl <;> decide +kernel
  obtain ⟨message, payload, hmessage, hservice, hread, hne⟩ :=
    decodePropagateMessage_propagated behind hlen.2
      (show serviceType.length + link.length + 128 < 2 ^ 64 by omega)
  refine ⟨⟨message, payload, hmessage, hservice, hread⟩, ?_⟩
  rintro ⟨message', payload', hmessage', hservice', -, heq⟩
  cases hmessage.symm.trans hmessage'
  cases hservice.symm.trans hservice'
  exact hne heq

def sampleLink : Bytes := utf8 "btp://0x1.icon/cx01"

theorem sampleLink_lost : ¬ LinkRoundTrips (fun _ => []) (utf8 "Link") sampleLink :=
  (link_never_round_trips (fun _ => []) (utf8 "Link") sampleLink (.inl rfl) (by decide +kernel)).2

/-- The link is read with the byte 147 in front of it. -/
theorem sampleLink_read_with_head :
    (do
      let message ← propagateInternal (utf8 "Link") sampleLink
      let sm ← decodeBMCService (fun _ => []) message
      decodePropagateMessage (fun _ => []) sm.payload) = .ok (0x93 :: sampleLink) ∧
    ¬ LinkRoundTrips (fun _ => []) (utf8 "Link") sampleLink := by
  have hread : (do
      let message ← propagateInternal (utf8 "Link") sampleLink
      let sm ← decodeBMCService (fun _ => []) message
      decodePropagateMessage (fun _ => []) sm.payload) = .ok (0x93 :: sampleLink) := by
    decide +kernel
  refine ⟨hread, ?_⟩
  rintro ⟨message, payload, hmessage, hservice, hlink, -⟩
  rw [hmessage, ok_bind, hservice, ok_bind, hlink] at hread
  simp at hread

open Java.BTS (writeList writeString writeInteger uintCap)

section

variable {items : List Bytes}

theorem length_of_mem (hlen : (writeList items).length < 2 ^ 64) (he : e ∈ items) :
    e.length < 2 ^ 64 := by
  have hle := List.single_le_sum (l := items.map List.length) (by simp) e.length
    (List.mem_map_of_mem he)
  rw [writeList, List.length_append, List.length_flatten] at hlen
  omega

theorem length_of_encoded_mem (hlen : (writeList items).length < 2 ^ 64)
    (h : Lib.RLP.encodeString bs ∈ items) : bs.length < 2 ^ 64 :=
  (Lib.RLP.length_le_encodeString bs).trans_lt (length_of_mem hlen h)

theorem writeList_isHead (hlen : (writeList items).length < 2 ^ 64) :
    items.flatten.length < 2 ^ 64 ∧
      Lib.RLP.IsHead 0xc0 items.flatten.length (Lib.RLP.head 0xc0 items.flatten.length) := by
  have hlt : items.flatten.length < 2 ^ 64 := by
    rw [writeList, List.length_append] at hlen
    omega
  exact ⟨hlt, Lib.RLP.head_isHead 0xc0 hlt⟩

theorem toList_writeList (hlen : (writeList items).length < 2 ^ 64) (hitems : ∀ e ∈ items, Chunk e)
    (h : At (writeList items) item) : ∃ ls, toList item = .ok ls ∧ List.Forall₂ At items ls :=
  toList_of_at (writeList_isHead hlen).2 (writeList_isHead hlen).1 hitems h

theorem chunk_writeList (hlen : (writeList items).length < 2 ^ 64) : Chunk (writeList items) :=
  (item_of_head (.inr rfl) (writeList_isHead hlen).2).chunk

end

theorem toBytes_encodeString (h : bs.length < 2 ^ 64) (hat : At (Lib.RLP.encodeString bs) item) :
    toBytes item = .ok bs := by
  obtain ⟨head, heq, hitem⟩ := encodeString_item h
  exact toBytes_of_at hitem (heq ▸ hat)

theorem length_encodeString (h : bs.length ≤ 55) :
    (Lib.RLP.encodeString bs).length ≤ bs.length + 1 ∧
      (2 ≤ bs.length → (Lib.RLP.encodeString bs).length = bs.length + 1) := by
  unfold Lib.RLP.encodeString
  split
  · split <;> simp [Lib.RLP.head]
  · rw [List.length_append, Lib.RLP.head, if_pos h, List.length_singleton]
    omega

theorem length_toByteArray_le_iff (n : ℕ) : (Java.Token.toByteArray n).length ≤ 32 ↔ n < 2 ^ 255 := by
  rw [Java.Token.toByteArray_natCast, length_toBytes, ← bitLength_le_iff]
  omega

/-- Thirty-two bytes have no room for the sign of a larger integer. -/
theorem toUint_writeInteger {n : ℕ} (hn : n < 2 ^ 256) (h : At (writeInteger n) item) (m : ℕ) :
    toUint item = .ok m ↔ (n : ℤ) < 2 ^ 255 ∧ m = n := by
  have hbytes : (Java.Token.toByteArray n).length ≤ 33 := by
    rw [Java.Token.toByteArray_natCast, length_toBytes]
    have hbits := bitLength_le hn
    omega
  have hlen := length_encodeString (show (Java.Token.toByteArray n).length ≤ 55 by omega)
  have hfits := length_toByteArray_le_iff n
  unfold writeInteger at h
  have hcast : (n : ℤ) < 2 ^ 255 ↔ n < 2 ^ 255 := by exact_mod_cast Iff.rfl
  rw [hcast]
  by_cases hsmall : n < 2 ^ 255
  · obtain ⟨head, heq, hitem⟩ := encodeString_item
      (show (Java.Token.toByteArray n).length < 2 ^ 64 by omega)
    have hread := toUint_of_at hitem (show At _ item from heq ▸ h) (by rw [← heq]; omega)
      (hfits.2 hsmall)
    rw [hread, Java.Token.toByteArray_natCast, ofBytes_toBytes,
      Nat.mod_eq_of_lt (Java.Token.lt_pow_toByteArray n)]
    simp only [hsmall, true_and, Except.ok.injEq, eq_comm]
  · have hlong : item.len = 34 := by
      rw [h.1]
      have hle := hfits.not.2 hsmall
      have hexact := hlen.2 (by omega)
      omega
    have hrefused : toUint item = .error (.error "Invalid uint number") := by
      rw [toUint, hlong]
      rfl
    rw [hrefused]
    simp only [reduceCtorEq, hsmall, false_and]

theorem lt_of_le_uintCap {n : ℕ} (h : (n : ℤ) ≤ uintCap) : n < 2 ^ 256 := by
  unfold uintCap at h
  omega

theorem toUint_amount {v : ℤ} (hv : 0 ≤ v ∧ v ≤ uintCap) (h : At (writeInteger v) item) (m : ℕ) :
    toUint item = .ok m ↔ v < 2 ^ 255 ∧ m = v.toNat := by
  obtain ⟨n, rfl⟩ := Int.eq_ofNat_of_zero_le hv.1
  have hn := lt_of_le_uintCap hv.2
  rw [Int.toNat_natCast]
  exact toUint_writeInteger hn h m

theorem decodeServiceMessage_written {serviceType : Java.BTS.ServiceType} {n : ℕ} (hn : n < 6)
    (hcode : serviceType.code = n)
    (hlen : (Java.BTS.writeBTSMessage serviceType data).length < 2 ^ 64) :
    decodeServiceMessage behind (Java.BTS.writeBTSMessage serviceType data) = .ok ⟨n, data⟩ := by
  unfold Java.BTS.writeBTSMessage at hlen ⊢
  rw [hcode] at hlen ⊢
  have hdata : data.length < 2 ^ 64 := length_of_encoded_mem hlen (by simp)
  have hint : (Java.Token.toByteArray n).length < 2 ^ 64 :=
    length_of_encoded_mem hlen (by simp [writeInteger])
  obtain ⟨ls, hls, hat⟩ := toList_writeList hlen
    (by simpa [writeInteger] using ⟨encodeString_chunk hint, encodeString_chunk hdata⟩)
    (at_toRlpItem behind _)
  obtain _ | ⟨a1, _ | ⟨a2, _ | _⟩⟩ := hat
  have hread := (toUint_writeInteger (by omega) a1 n).2 ⟨by exact_mod_cast (by omega : n < 2 ^ 255), rfl⟩
  rw [decodeServiceMessage, hls]
  simp only [ok_bind, elem, List.getElem?_cons_zero, List.getElem?_cons_succ, hread,
    toBytes_encodeString hdata a2, hn, decide_true, require_true]
  rfl

theorem length_utf8_lt {strs : List String} (hlen : (writeList (strs.map writeString)).length < 2 ^ 64)
    (hstr : str ∈ strs) : (utf8 str).length < 2 ^ 64 :=
  length_of_encoded_mem hlen (List.mem_map_of_mem hstr)

theorem chunk_writeString {strs : List String}
    (hlen : (writeList (strs.map writeString)).length < 2 ^ 64) :
    ∀ e ∈ strs.map writeString, Chunk e := by
  intro e he
  obtain ⟨str, hstr, rfl⟩ := List.mem_map.1 he
  exact encodeString_chunk (length_utf8_lt hlen hstr)

theorem chunk_writeInteger {v : ℤ} (hv : 0 ≤ v ∧ v ≤ uintCap) : Chunk (writeInteger v) := by
  obtain ⟨n, rfl⟩ := Int.eq_ofNat_of_zero_le hv.1
  have hn := lt_of_le_uintCap hv.2
  refine encodeString_chunk ?_
  rw [Java.Token.toByteArray_natCast, length_toBytes]
  have hbits := bitLength_le hn
  omega

theorem decodeTokenLimitMsg_toBytes (r : Java.BTS.TokenLimitRequest)
    (hrange : ∀ v ∈ r.tokenLimit, 0 ≤ v ∧ v ≤ uintCap) (hlen : r.toBytes.length < 2 ^ 64) :
    decodeTokenLimitMsg behind r.toBytes =
        .ok ⟨r.coinName.map utf8, r.tokenLimit.map Int.toNat, utf8 r.net⟩ ↔
      ∀ v ∈ r.tokenLimit, v < 2 ^ 255 := by
  unfold Java.BTS.TokenLimitRequest.toBytes at hlen ⊢
  have hnames : (writeList (r.coinName.map writeString)).length < 2 ^ 64 := length_of_mem hlen (by simp)
  have hlimits : (writeList (r.tokenLimit.map writeInteger)).length < 2 ^ 64 :=
    length_of_mem hlen (by simp)
  have hnet : (utf8 r.net).length < 2 ^ 64 := length_of_encoded_mem hlen (by simp [writeString])
  have hints : ∀ e ∈ r.tokenLimit.map writeInteger, Chunk e := by
    intro e he
    obtain ⟨v, hv, rfl⟩ := List.mem_map.1 he
    exact chunk_writeInteger (hrange v hv)
  obtain ⟨ls, hls, hat⟩ := toList_writeList hlen
    (by simpa using ⟨chunk_writeList hnames, chunk_writeList hlimits, encodeString_chunk hnet⟩)
    (at_toRlpItem behind _)
  obtain _ | ⟨a1, _ | ⟨a2, _ | ⟨a3, _ | _⟩⟩⟩ := hat
  obtain ⟨ls1, hls1, hat1⟩ := toList_writeList hnames (chunk_writeString hnames) a1
  obtain ⟨ls2, hls2, hat2⟩ := toList_writeList hlimits hints a2
  have hread : ls1.mapM toBytes = .ok (r.coinName.map utf8) :=
    mapM_of_forall₂ (List.forall₂_map_left_iff.1 hat1) fun str hstr item h =>
      toBytes_encodeString (length_utf8_lt hnames hstr) h
  have hvalues {ms : List ℕ} : ls2.mapM toUint = .ok ms ↔
      (∀ v ∈ r.tokenLimit, v < 2 ^ 255) ∧ ms = r.tokenLimit.map Int.toNat :=
    mapM_ok_iff (List.forall₂_map_left_iff.1 hat2) fun v hv item h m =>
      toUint_amount (hrange v hv) h m
  rw [decodeTokenLimitMsg, hls]
  simp only [ok_bind, elem, List.getElem?_cons_zero, List.getElem?_cons_succ, hls1, hread, hls2,
    toBytes_encodeString hnet a3, bind_ok, hvalues, pure_ok]
  constructor
  · rintro ⟨ms, ⟨h, -⟩, -⟩
    exact h
  · exact fun h => ⟨_, ⟨h, rfl⟩, rfl⟩

theorem toAsset_write {a : Java.BTS.Asset} (hrange : 0 ≤ a.amount ∧ a.amount ≤ uintCap)
    (hlen : a.write.length < 2 ^ 64) (h : At a.write item) (b : Asset) :
    toAsset item = .ok b ↔ a.amount < 2 ^ 255 ∧ b = ⟨utf8 a.coinName, a.amount.toNat⟩ := by
  unfold Java.BTS.Asset.write at hlen h
  have hname : (utf8 a.coinName).length < 2 ^ 64 := length_of_encoded_mem hlen (by simp [writeString])
  obtain ⟨ls, hls, hat⟩ := toList_writeList hlen
    (by simpa using ⟨encodeString_chunk hname, chunk_writeInteger hrange⟩) h
  obtain _ | ⟨a1, _ | ⟨a2, _ | _⟩⟩ := hat
  rw [toAsset, hls]
  simp only [ok_bind, elem, List.getElem?_cons_zero, List.getElem?_cons_succ,
    toBytes_encodeString hname a1, bind_ok, toUint_amount hrange a2, pure_ok]
  constructor
  · rintro ⟨m, ⟨hlt, rfl⟩, rfl⟩
    exact ⟨hlt, rfl⟩
  · rintro ⟨hlt, rfl⟩
    exact ⟨_, ⟨hlt, rfl⟩, rfl⟩

theorem decodeTransferCoinMsg_toBytes (r : Java.BTS.TransferRequest)
    (hrange : ∀ a ∈ r.assets, 0 ≤ a.amount ∧ a.amount ≤ uintCap) (hlen : r.toBytes.length < 2 ^ 64) :
    decodeTransferCoinMsg behind r.toBytes =
        .ok ⟨utf8 r.sender, utf8 r.target,
          r.assets.map fun a => ⟨utf8 a.coinName, a.amount.toNat⟩⟩ ↔
      ∀ a ∈ r.assets, a.amount < 2 ^ 255 := by
  unfold Java.BTS.TransferRequest.toBytes at hlen ⊢
  have hassets : (writeList (r.assets.map Java.BTS.Asset.write)).length < 2 ^ 64 :=
    length_of_mem hlen (by simp)
  have hsender : (utf8 r.sender).length < 2 ^ 64 := length_of_encoded_mem hlen (by simp [writeString])
  have htarget : (utf8 r.target).length < 2 ^ 64 := length_of_encoded_mem hlen (by simp [writeString])
  have hasset : ∀ a ∈ r.assets, a.write.length < 2 ^ 64 := fun a ha =>
    length_of_mem hassets (List.mem_map_of_mem ha)
  have hchunks : ∀ e ∈ r.assets.map Java.BTS.Asset.write, Chunk e := by
    intro e he
    obtain ⟨a, ha, rfl⟩ := List.mem_map.1 he
    exact chunk_writeList (hasset a ha)
  obtain ⟨ls, hls, hat⟩ := toList_writeList hlen
    (by simpa using ⟨encodeString_chunk hsender, encodeString_chunk htarget, chunk_writeList hassets⟩) (at_toRlpItem behind _)
  obtain _ | ⟨a1, _ | ⟨a2, _ | ⟨a3, _ | _⟩⟩⟩ := hat
  obtain ⟨ls3, hls3, hat3⟩ := toList_writeList hassets hchunks a3
  have hvalues {bs : List Asset} : ls3.mapM toAsset = .ok bs ↔
      (∀ a ∈ r.assets, a.amount < 2 ^ 255) ∧
        bs = r.assets.map fun a => ⟨utf8 a.coinName, a.amount.toNat⟩ :=
    mapM_ok_iff (List.forall₂_map_left_iff.1 hat3) fun a ha item h b =>
      toAsset_write (hrange a ha) (hasset a ha) h b
  rw [decodeTransferCoinMsg, hls]
  simp only [ok_bind, elem, List.getElem?_cons_zero, List.getElem?_cons_succ, hls3,
    toBytes_encodeString hsender a1, toBytes_encodeString htarget a2, bind_ok, hvalues, pure_ok]
  constructor
  · rintro ⟨bs, ⟨h, -⟩, -⟩
    exact h
  · exact fun h => ⟨_, ⟨h, rfl⟩, rfl⟩

/-- Every limit that ICON accepts, and every amount, is read as it is if and only if all of them
are below the sign bit. -/
theorem limits_and_amounts_read (behind : Bytes → Bytes) (r : Java.BTS.TokenLimitRequest)
    (t : Java.BTS.TransferRequest) (hlimits : ∀ v ∈ r.tokenLimit, 0 ≤ v ∧ v ≤ uintCap)
    (hamounts : ∀ a ∈ t.assets, 0 ≤ a.amount ∧ a.amount ≤ uintCap)
    (hr : (Java.BTS.writeBTSMessage .changeTokenLimit r.toBytes).length < 2 ^ 64)
    (ht : (Java.BTS.writeBTSMessage .requestCoinTransfer t.toBytes).length < 2 ^ 64) :
    ((do
        let sm ← decodeServiceMessage behind (Java.BTS.writeBTSMessage .changeTokenLimit r.toBytes)
        decodeTokenLimitMsg behind sm.data) =
          .ok ⟨r.coinName.map utf8, r.tokenLimit.map Int.toNat, utf8 r.net⟩ ↔
      ∀ v ∈ r.tokenLimit, v < 2 ^ 255) ∧
    ((do
        let sm ← decodeServiceMessage behind (Java.BTS.writeBTSMessage .requestCoinTransfer t.toBytes)
        decodeTransferCoinMsg behind sm.data) =
          .ok ⟨utf8 t.sender, utf8 t.target,
            t.assets.map fun a => ⟨utf8 a.coinName, a.amount.toNat⟩⟩ ↔
      ∀ a ∈ t.assets, a.amount < 2 ^ 255) := by
  have hdata {serviceType : Java.BTS.ServiceType} {data : Bytes}
      (h : (Java.BTS.writeBTSMessage serviceType data).length < 2 ^ 64) : data.length < 2 ^ 64 :=
    length_of_encoded_mem h (by simp)
  constructor
  · rw [decodeServiceMessage_written (n := 4) (by decide) rfl hr, ok_bind]
    exact decodeTokenLimitMsg_toBytes r hlimits (hdata hr)
  · rw [decodeServiceMessage_written (n := 0) (by decide) rfl ht, ok_bind]
    exact decodeTransferCoinMsg_toBytes t hamounts (hdata ht)

def sampleLimit (v : ℤ) : Java.BTS.TokenLimitRequest :=
  { coinName := ["btp-0x1.icon-ICX"], tokenLimit := [v], net := "0x61.bsc" }

def sampleTransfer (v : ℤ) : Java.BTS.TransferRequest :=
  { sender := "hx01", target := "0x03", assets := [⟨"btp-0x1.icon-ICX", v⟩] }

theorem small_limits_read :
    ((do
        let sm ← decodeServiceMessage (fun _ => [])
          (Java.BTS.writeBTSMessage .changeTokenLimit (sampleLimit 128).toBytes)
        decodeTokenLimitMsg (fun _ => []) sm.data) =
      .ok ⟨[utf8 "btp-0x1.icon-ICX"], [128], utf8 "0x61.bsc"⟩) :=
  (limits_and_amounts_read (fun _ => []) (sampleLimit 128) (sampleTransfer 128) (by decide +kernel)
    (by decide +kernel) (by decide +kernel) (by decide +kernel)).1.2 (by decide +kernel)

/-- The largest integer of 256 bits is accepted on ICON and cannot be read in Solidity. -/
theorem largest_limit_refused :
    Java.BTS.checkUintLimit uintCap = .ok () ∧
    ((do
        let sm ← decodeServiceMessage (fun _ => [])
          (Java.BTS.writeBTSMessage .changeTokenLimit (sampleLimit uintCap).toBytes)
        decodeTokenLimitMsg (fun _ => []) sm.data) = .error (.error "Invalid uint number")) ∧
    ((do
        let sm ← decodeServiceMessage (fun _ => [])
          (Java.BTS.writeBTSMessage .requestCoinTransfer (sampleTransfer uintCap).toBytes)
        decodeTransferCoinMsg (fun _ => []) sm.data) = .error (.error "Invalid uint number")) := by
  decide +kernel

end IconBridge.Bridge
