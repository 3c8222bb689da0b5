import IconBridge.Solidity.RLP.Service
import IconBridge.Solidity.RLP.TokenService

/-!
# Service messages on their way out

What `RLPEncodeStruct` of the token service writes of a transfer, and that
`RLPDecodeStruct` reads it back.
-/

namespace IconBridge.Solidity.RLP

open Lib List

def encodeServiceMessage (_sm : ServiceMessage) : Outcome Bytes := do
  prependLength ((← encodeUint _sm.serviceType) ++ encodeBytes _sm.data)

def appendAsset (_rlp : Bytes) (asset : Asset) : Outcome Bytes := do
  let temp := encodeBytes asset.coinName ++ (← encodeUint asset.value)
  return _rlp ++ (← prependLength temp)

def encodeTransferCoinMsg (_data : TransferCoin) : Outcome Bytes := do
  let _rlp ← _data.assets.foldlM appendAsset []
  prependLength
    (encodeBytes _data.sender ++ encodeBytes _data.target ++ (← prependLength _rlp))

/-- The item that is written as `e` is read as `a`. -/
structure Reads (decode : RLPItem → Outcome α) (a : α) (e : Bytes) : Prop where
  chunk : Chunk e
  read : ∀ item, At e item → decode item = .ok a

theorem encodeBytes_reads (hlt : bs.length < 2 ^ 64) (hne : bs ≠ [0x80]) :
    Reads toBytes bs (encodeBytes bs) := by
  obtain ⟨head, heq, hitem⟩ := encodeBytes_item hlt
  rw [reread_eq_self.2 hne] at heq hitem
  rw [heq]
  exact ⟨hitem.chunk, fun item => toBytes_of_at hitem⟩

theorem length_shortest_le_17 {v : ℕ} (h : v < 2 ^ 128 - 1) : (shortest v).length ≤ 17 := by
  rw [shortest, length_twos, ← fits_iff_width_le (by decide), Fits]
  omega

theorem shortest_ne_128 (v : ℕ) : shortest v ≠ [0x80] := by
  intro heq
  have := shortest_eq_iff.1 heq
  omega

theorem ofBytes_shortest (v : ℕ) : ofBytes (shortest v) = v := by
  rw [shortest_natCast, ofBytes_toBytes, Nat.mod_eq_of_lt (lt_pow_width v)]

theorem encodeUint_shortest {v : ℕ} (h : v < 2 ^ 128 - 1) :
    encodeUint v = .ok (RLP.encodeString (shortest v)) := by
  have hlen := length_shortest_le_17 h
  rw [encodeUint_eq (by omega), encodeBytes_eq (by omega) (shortest_ne_128 v)]

theorem encodeUint_reads {v : ℕ} (h : v < 2 ^ 128 - 1) :
    ∃ e, encodeUint v = .ok e ∧ Reads toUint v e ∧ e.length ≤ 26 := by
  have hlen := length_shortest_le_17 h
  have hle := length_encodeBytes_le (show (shortest v).length < 2 ^ 64 by omega)
  obtain ⟨head, heq, hitem⟩ := encodeBytes_item (show (shortest v).length < 2 ^ 64 by omega)
  rw [reread_eq_self.2 (shortest_ne_128 v)] at heq hitem
  rw [heq] at hle
  refine ⟨_, encodeUint_eq (by omega), ?_, by rw [heq]; omega⟩
  rw [heq]
  refine ⟨hitem.chunk, fun item hat => ?_⟩
  rw [toUint_of_at hitem hat (by omega) (by omega), ofBytes_shortest]

theorem Reads.chunks {as : List α} (h : List.Forall₂ (Reads decode) as es) : ∀ e ∈ es, Chunk e := by
  induction h with
  | nil => simp
  | cons hread _ ih => exact forall_mem_cons.2 ⟨hread.chunk, ih⟩

theorem Reads.mapM {as : List α} (h : List.Forall₂ (Reads decode) as es)
    (hats : List.Forall₂ At es items) : items.mapM decode = .ok as := by
  induction h generalizing items with
  | nil =>
    cases hats
    rfl
  | cons hread _ ih =>
    obtain _ | ⟨hat, hats⟩ := hats
    rw [mapM_cons, hread.read _ hat, ih hats]
    rfl

theorem prependLength_list (es : List Bytes) (hes : ∀ e ∈ es, Chunk e)
    (hlt : es.flatten.length + 1 < 2 ^ 64) :
    ∃ e, prependLength es.flatten = .ok e ∧ Chunk e ∧
      (es.flatten.length < e.length ∧ e.length ≤ es.flatten.length + 9) ∧
      ∀ item, At e item → ∃ ls, toList item = .ok ls ∧ List.Forall₂ At es ls := by
  obtain ⟨head, heq, hhead⟩ := prependLength_ok hlt
  have hle := length_head_le hhead
  have hpos := isHead_length_pos hhead
  refine ⟨_, heq, (item_of_head (.inr rfl) hhead).chunk, ?_, fun item hat => ?_⟩
  · rw [length_append]
    omega
  · exact toList_of_at hhead (by omega) hes hat

/-- An asset that the encoder writes and the decoder tells apart. -/
structure Asset.Plain (asset : Asset) : Prop where
  name : asset.coinName ≠ [0x80]
  value : asset.value < 2 ^ 128 - 1

instance : Decidable (Asset.Plain asset) :=
  decidable_of_iff (asset.coinName ≠ [0x80] ∧ asset.value < 2 ^ 128 - 1)
    ⟨fun h => ⟨h.1, h.2⟩, fun h => ⟨h.name, h.value⟩⟩

theorem appendAsset_reads (rlp : Bytes) (hplain : asset.Plain)
    (hlt : asset.coinName.length + 64 < 2 ^ 64) :
    ∃ e, appendAsset rlp asset = .ok (rlp ++ e) ∧ Reads toAsset asset e ∧
      e.length ≤ asset.coinName.length + 64 := by
  have hname := encodeBytes_reads (show asset.coinName.length < 2 ^ 64 by omega) hplain.name
  have hlen := length_encodeBytes_le (show asset.coinName.length < 2 ^ 64 by omega)
  obtain ⟨u, hu, hvalue, hulen⟩ := encodeUint_reads hplain.value
  have hflat : encodeBytes asset.coinName ++ u = [encodeBytes asset.coinName, u].flatten := by simp
  have hroom : [encodeBytes asset.coinName, u].flatten.length ≤ asset.coinName.length + 35 := by
    rw [← hflat, length_append]
    omega
  obtain ⟨e, he, hchunk, hle, hlist⟩ := prependLength_list [encodeBytes asset.coinName, u]
    (by simp [hname.chunk, hvalue.chunk]) (by omega)
  refine ⟨e, ?_, ⟨hchunk, fun item hat => ?_⟩, by omega⟩
  · rw [appendAsset, hu]
    simp only [ok_bind, hflat, he]
    rfl
  · obtain ⟨ls, hls, hats⟩ := hlist item hat
    obtain _ | ⟨a1, _ | ⟨a2, _ | _⟩⟩ := hats
    simp only [toAsset, hls, ok_bind, elem, getElem?_cons_zero, getElem?_cons_succ,
      hname.read _ a1, hvalue.read _ a2]
    rfl

def room (assets : List Asset) : ℕ := (assets.map fun asset => asset.coinName.length + 64).sum

theorem appendAssets_reads (rlp : Bytes) (hplain : ∀ asset ∈ assets, asset.Plain)
    (hroom : room assets < 2 ^ 64) :
    ∃ es : List Bytes, assets.foldlM appendAsset rlp = .ok (rlp ++ es.flatten) ∧
      List.Forall₂ (Reads toAsset) assets es ∧ es.flatten.length ≤ room assets := by
  induction assets generalizing rlp with
  | nil => exact ⟨[], by simp [pure, Except.pure], .nil, le_rfl⟩
  | cons asset assets ih =>
    obtain ⟨hasset, hassets⟩ := forall_mem_cons.1 hplain
    have hsum : room (asset :: assets) = asset.coinName.length + 64 + room assets := by
      simp [room]
    obtain ⟨e, he, hread, hle⟩ := appendAsset_reads rlp hasset (by omega)
    obtain ⟨es, hes, hreads, hles⟩ := ih (rlp ++ e) hassets (by omega)
    refine ⟨e :: es, ?_, .cons hread hreads, ?_⟩
    · rw [foldlM_cons, he, ok_bind, hes, flatten_cons, append_assoc]
    · rw [flatten_cons, length_append]
      omega

def TransferCoin.inMemory (m : TransferCoin) : Prop :=
  m.sender.length + m.target.length + room m.assets + 128 < 2 ^ 64

instance : Decidable (TransferCoin.inMemory m) := inferInstanceAs (Decidable (_ < _))

/-- No string is the single byte 128, and every amount can be written. -/
structure TransferCoin.Plain (m : TransferCoin) : Prop where
  sender : m.sender ≠ [0x80]
  target : m.target ≠ [0x80]
  assets : ∀ asset ∈ m.assets, asset.Plain

theorem encodeTransferCoinMsg_read (behind : Bytes → Bytes) (hplain : m.Plain) (hmem : m.inMemory) :
    ∃ data, encodeTransferCoinMsg m = .ok data ∧ decodeTransferCoinMsg behind data = .ok m ∧
      data ≠ [0x80] ∧ data.length + 64 < 2 ^ 64 := by
  unfold TransferCoin.inMemory at hmem
  have hsender := encodeBytes_reads (show m.sender.length < 2 ^ 64 by omega) hplain.sender
  have htarget := encodeBytes_reads (show m.target.length < 2 ^ 64 by omega) hplain.target
  have hslen := length_encodeBytes_le (show m.sender.length < 2 ^ 64 by omega)
  have htlen := length_encodeBytes_le (show m.target.length < 2 ^ 64 by omega)
  obtain ⟨es, hes, hreads, hles⟩ := appendAssets_reads [] hplain.assets (by omega)
  obtain ⟨assets, hassets, hchunk, hle, hlist⟩ :=
    prependLength_list _ (Reads.chunks hreads) (by omega)
  have hflat : encodeBytes m.sender ++ encodeBytes m.target ++ assets =
      [encodeBytes m.sender, encodeBytes m.target, assets].flatten := by simp
  have hlen : [encodeBytes m.sender, encodeBytes m.target, assets].flatten.length =
      (encodeBytes m.sender).length + (encodeBytes m.target).length + assets.length := by
    simp [Nat.add_assoc]
  obtain ⟨data, hdata, hdchunk, hdle, hdlist⟩ :=
    prependLength_list [encodeBytes m.sender, encodeBytes m.target, assets]
      (by simp [hsender.chunk, htarget.chunk, hchunk]) (by omega)
  refine ⟨data, ?_, ?_, ?_, by omega⟩
  · rw [encodeTransferCoinMsg, hes, nil_append]
    simp only [ok_bind, hassets, hflat, hdata]
  · obtain ⟨ls, hls, hats⟩ := hdlist _ (at_toRlpItem behind data)
    obtain _ | ⟨a1, _ | ⟨a2, _ | ⟨a3, _ | _⟩⟩⟩ := hats
    obtain ⟨items, hitems, hats⟩ := hlist _ a3
    have hread := Reads.mapM hreads hats
    simp only [decodeTransferCoinMsg, hls, ok_bind, elem, getElem?_cons_zero,
      getElem?_cons_succ, hitems, hread, hsender.read _ a1, htarget.read _ a2]
    rfl
  · rintro rfl
    have hpos := length_pos_of_ne_nil hchunk.1
    rw [length_singleton] at hdle
    omega

theorem encodeServiceMessage_read (behind : Bytes → Bytes) (htype : t < 6)
    (hlt : data.length + 64 < 2 ^ 64) (hne : data ≠ [0x80]) :
    ∃ bs, encodeServiceMessage ⟨t, data⟩ = .ok bs ∧ decodeServiceMessage behind bs = .ok ⟨t, data⟩ := by
  obtain ⟨u, hu, huint, hulen⟩ := encodeUint_reads (show t < 2 ^ 128 - 1 by omega)
  have hdata := encodeBytes_reads (show data.length < 2 ^ 64 by omega) hne
  have hdlen := length_encodeBytes_le (show data.length < 2 ^ 64 by omega)
  have hflat : u ++ encodeBytes data = [u, encodeBytes data].flatten := by simp
  have hlen : [u, encodeBytes data].flatten.length = u.length + (encodeBytes data).length := by simp
  obtain ⟨bs, hbs, -, -, hlist⟩ := prependLength_list [u, encodeBytes data]
    (by simp [huint.chunk, hdata.chunk]) (by omega)
  refine ⟨bs, ?_, ?_⟩
  · simp only [encodeServiceMessage, hu, ok_bind, hflat, hbs]
  · obtain ⟨ls, hls, hats⟩ := hlist _ (at_toRlpItem behind bs)
    obtain _ | ⟨a1, _ | ⟨a2, _ | _⟩⟩ := hats
    simp only [decodeServiceMessage, hls, ok_bind, elem, getElem?_cons_zero,
      getElem?_cons_succ, huint.read _ a1, htype, decide_true, require_true, hdata.read _ a2]
    rfl

/-- What the token service reads of a service message that carries a transfer. -/
def readTransfer (behind : Bytes → Bytes) (bs : Bytes) : Outcome (ℕ × TransferCoin) := do
  let sm ← decodeServiceMessage behind bs
  return (sm.serviceType, ← decodeTransferCoinMsg behind sm.data)

/-- A transfer is read back, and its amounts are written in the shortest two's
complement form. -/
theorem transferCoin_round_trip (behind : Bytes → Bytes) (t : ℕ) (m : TransferCoin) (htype : t < 6)
    (hplain : m.Plain) (hmem : m.inMemory) :
    (∃ data bs, encodeTransferCoinMsg m = .ok data ∧ encodeServiceMessage ⟨t, data⟩ = .ok bs ∧
      readTransfer behind bs = .ok (t, m)) ∧
    ∀ v : ℕ, v < 2 ^ 128 - 1 → encodeUint v = .ok (RLP.encodeString (shortest v)) := by
  obtain ⟨data, hdata, hread, hne, hlt⟩ := encodeTransferCoinMsg_read behind hplain hmem
  obtain ⟨bs, hbs, hread'⟩ := encodeServiceMessage_read behind htype hlt hne
  refine ⟨⟨data, bs, hdata, hbs, ?_⟩, fun v hv => encodeUint_shortest hv⟩
  simp only [readTransfer, hread', ok_bind, hread]
  rfl

def sampleTransfer : TransferCoin :=
  { sender := utf8 "0x5Aeda56215b167893e80B4fE645BA6d5Bab767DE", target := utf8 "hx01"
    assets := [⟨utf8 "btp-0x38.bsc-BNB", 2 ^ 127⟩, ⟨utf8 "ICX", 255⟩] }

theorem sampleTransfer_round_trip :
    (∃ data bs, encodeTransferCoinMsg sampleTransfer = .ok data ∧
      encodeServiceMessage ⟨0, data⟩ = .ok bs ∧
      readTransfer (fun _ => []) bs = .ok (0, sampleTransfer)) ∧
    ∀ v : ℕ, v < 2 ^ 128 - 1 → encodeUint v = .ok (RLP.encodeString (shortest v)) :=
  transferCoin_round_trip (fun _ => []) 0 sampleTransfer (by decide)
    ⟨by decide +kernel, by decide +kernel, by decide +kernel⟩ (by decide +kernel)

end IconBridge.Solidity.RLP
