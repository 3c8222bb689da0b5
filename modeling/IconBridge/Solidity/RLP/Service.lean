import IconBridge.Solidity.RLP.Struct

/-!
# Messages between message centers

The payloads that `BMCManagement` writes, of which `Link` and `Unlink` have one
link and `Init` has a list of them, and what `RLPDecodeStruct` reads in them.
-/

namespace IconBridge.Solidity.RLP

open Lib

structure BMCService where
  serviceType : Bytes
  payload : Bytes
  deriving DecidableEq, Repr

/-- `abi.encodePacked(_rlp.length.addLength(false), _rlp)` -/
def prependLength (_rlp : Bytes) : Outcome Bytes := do
  return (← addLength _rlp.length) ++ _rlp

def encodeBMCService (_bs : BMCService) : Outcome Bytes :=
  prependLength (encodeBytes _bs.serviceType ++ _bs.payload)

/-- What `propagateInternal` sends to every connected link. -/
def propagateInternal (_serviceType _link : Bytes) : Outcome Bytes := do
  let _rlpBytes ← prependLength (encodeBytes _link)
  let _rlpBytes ← prependLength _rlpBytes
  encodeBMCService ⟨_serviceType, encodeBytes _rlpBytes⟩

def sendInternal (_serviceType : Bytes) (_links : List Bytes) : Outcome Bytes := do
  let _rlpBytes ← if _links = [] then .ok [0xc0] else prependLength (_links.map encodeBytes).flatten
  let _rlpBytes ← prependLength _rlpBytes
  encodeBMCService ⟨_serviceType, encodeBytes _rlpBytes⟩

section Decode

variable (behind : Bytes → Bytes)

def decodeBMCService (_rlp : Bytes) : Outcome BMCService := do
  let ls ← toList (toRlpItem behind _rlp)
  return { serviceType := ← toBytes (← elem ls 0), payload := ← toBytes (← elem ls 1) }

def decodePropagateMessage (_rlp : Bytes) : Outcome Bytes := do
  let ls ← toList (toRlpItem behind _rlp)
  toBytes (← elem ls 0)

def decodeInitMessage (_rlp : Bytes) : Outcome (List Bytes) := do
  let ls ← toList (toRlpItem behind _rlp)
  let rlpLinks ← toList (← elem ls 0)
  rlpLinks.mapM toBytes

end Decode

variable {behind : Bytes → Bytes} {inner outer : Bytes}

theorem prependLength_ok (h : bs.length + 1 < 2 ^ 64) :
    ∃ head, prependLength bs = .ok (head ++ bs) ∧ RLP.IsHead 0xc0 bs.length head := by
  obtain ⟨head, hhead, hishead⟩ := addLength_isHead h
  refine ⟨head, ?_, hishead⟩
  rw [prependLength, hhead]
  rfl

theorem toList_singleton (hhead : RLP.IsHead 0xc0 e.length head) (hlt : e.length < 2 ^ 64)
    (he : Chunk e) (h : At (head ++ e) item) : ∃ entry, toList item = .ok [entry] ∧ At e entry := by
  have hflat : [e].flatten = e := by simp
  rw [← hflat] at hhead hlt h
  obtain ⟨ls, hls, hat⟩ := toList_of_at hhead hlt (by simpa using he) h
  obtain _ | ⟨hentry, _ | _⟩ := hat
  exact ⟨_, hls, hentry⟩

theorem decodeBMCService_encodeBMCService (behind : Bytes → Bytes)
    (hst : st.length + payload.length + 32 < 2 ^ 64) (hne : st ≠ [0x80]) (hne' : payload ≠ [0x80]) :
    ∃ message, encodeBMCService ⟨st, encodeBytes payload⟩ = .ok message ∧
      decodeBMCService behind message = .ok ⟨st, payload⟩ := by
  obtain ⟨h1, e1, i1⟩ := encodeBytes_item (show st.length < 2 ^ 64 by omega)
  obtain ⟨h2, e2, i2⟩ := encodeBytes_item (show payload.length < 2 ^ 64 by omega)
  have l1 := length_encodeBytes_le (show st.length < 2 ^ 64 by omega)
  have l2 := length_encodeBytes_le (show payload.length < 2 ^ 64 by omega)
  rw [reread_eq_self.2 hne] at e1 i1
  rw [reread_eq_self.2 hne'] at e2 i2
  have hflat : encodeBytes st ++ encodeBytes payload = [h1 ++ st, h2 ++ payload].flatten := by
    simp [e1, e2]
  have hlt : [h1 ++ st, h2 ++ payload].flatten.length + 1 < 2 ^ 64 := by
    rw [← hflat, List.length_append]
    omega
  obtain ⟨head, hencode, hhead⟩ := prependLength_ok hlt
  refine ⟨_, by rw [encodeBMCService, hflat, hencode], ?_⟩
  obtain ⟨ls, hls, hat⟩ := toList_of_at hhead (by omega) (by simp [i1.chunk, i2.chunk])
    (at_toRlpItem behind _)
  obtain _ | ⟨a1, _ | ⟨a2, _ | _⟩⟩ := hat
  rw [decodeBMCService, hls]
  simp only [ok_bind, elem, List.getElem?_cons_zero, List.getElem?_cons_succ, toBytes_of_at i1 a1,
    toBytes_of_at i2 a2]
  rfl

/-- The payload is a list whose only item is the list of what is in `bs`. -/
structure Nested (bs payload : Bytes) (inner outer : Bytes) : Prop where
  eq : payload = outer ++ (inner ++ bs)
  innerHead : RLP.IsHead 0xc0 bs.length inner
  outerHead : RLP.IsHead 0xc0 (inner ++ bs).length outer

theorem prependLength_twice (h : bs.length + 32 < 2 ^ 64) :
    ∃ payload inner outer, (do prependLength (← prependLength bs)) = .ok payload ∧
      Nested bs payload inner outer := by
  obtain ⟨inner, hinner, hhead⟩ := prependLength_ok (show bs.length + 1 < 2 ^ 64 by omega)
  have hlen := length_head_le hhead
  have hlt : (inner ++ bs).length + 1 < 2 ^ 64 := by
    rw [List.length_append]
    omega
  obtain ⟨outer, houter, hhead'⟩ := prependLength_ok hlt
  refine ⟨_, inner, outer, ?_, rfl, hhead, hhead'⟩
  rw [hinner]
  exact houter

theorem Nested.length_le (h : Nested bs payload inner outer) : payload.length ≤ bs.length + 18 := by
  have h1 := length_head_le h.innerHead
  have h2 := length_head_le h.outerHead
  rw [h.eq, List.length_append, List.length_append]
  omega

theorem isHead_length_pos (h : RLP.IsHead base n head) : 0 < head.length := by
  cases h <;> simp

theorem Nested.ne_single (h : Nested bs payload inner outer) : payload ≠ [0x80] := by
  intro heq
  have h1 := isHead_length_pos h.innerHead
  have h2 := isHead_length_pos h.outerHead
  have hlen := congrArg List.length (h.eq.symm.trans heq)
  simp only [List.length_append, List.length_singleton] at hlen
  omega

theorem Nested.entry (h : Nested bs payload inner outer) (behind : Bytes → Bytes)
    (hlt : bs.length + 32 < 2 ^ 64) :
    ∃ entry, toList (toRlpItem behind payload) = .ok [entry] ∧ At (inner ++ bs) entry := by
  have hlen := length_head_le h.innerHead
  have hitem := item_of_head (.inr rfl) h.innerHead
  refine toList_singleton h.outerHead ?_ hitem.chunk (h.eq ▸ at_toRlpItem behind payload)
  rw [List.length_append]
  omega

/-- A list is read as if it was a string: what is returned is what is written in it. -/
theorem Nested.decodePropagateMessage (h : Nested bs payload inner outer)
    (hlt : bs.length + 32 < 2 ^ 64) : decodePropagateMessage behind payload = .ok bs := by
  obtain ⟨entry, hls, hat⟩ := h.entry behind hlt
  rw [RLP.decodePropagateMessage, hls]
  exact toBytes_of_at (item_of_head (.inr rfl) h.innerHead) hat

theorem propagateInternal_read (behind : Bytes → Bytes)
    (hmem : st.length + link.length + 96 < 2 ^ 64) (hne : st ≠ [0x80]) :
    ∃ message payload inner outer, propagateInternal st link = .ok message ∧
      decodeBMCService behind message = .ok ⟨st, payload⟩ ∧
      Nested (encodeBytes link) payload inner outer := by
  have hlink := length_encodeBytes_le (show link.length < 2 ^ 64 by omega)
  obtain ⟨payload, inner, outer, hpayload, hnested⟩ :=
    prependLength_twice (show (encodeBytes link).length + 32 < 2 ^ 64 by omega)
  have hlen := hnested.length_le
  obtain ⟨message, hencode, hdecode⟩ := decodeBMCService_encodeBMCService behind
    (show st.length + payload.length + 32 < 2 ^ 64 by omega) hne hnested.ne_single
  refine ⟨message, payload, inner, outer, ?_, hdecode, hnested⟩
  obtain ⟨bs, hbs, hbs'⟩ := bind_ok.1 hpayload
  rw [propagateInternal, hbs, ok_bind, hbs', ok_bind, hencode]

def LinksInMemory (links : List Bytes) : Prop :=
  (links.map fun l => l.length + 9).sum + 128 < 2 ^ 64

instance : Decidable (LinksInMemory links) := inferInstanceAs (Decidable (_ < _))

theorem LinksInMemory.length_lt (h : LinksInMemory links) (hl : l ∈ links) : l.length < 2 ^ 64 := by
  have hle := List.single_le_sum (l := links.map fun l => l.length + 9) (by simp) (l.length + 9)
    (List.mem_map.2 ⟨l, hl, rfl⟩)
  unfold LinksInMemory at h
  omega

theorem length_flatten_encodeBytes {links : List Bytes} (h : ∀ l ∈ links, l.length < 2 ^ 64) :
    (links.map encodeBytes).flatten.length ≤ (links.map fun l => l.length + 9).sum := by
  induction links with
  | nil => rfl
  | cons l links ih =>
    obtain ⟨hl, hlinks⟩ := List.forall_mem_cons.1 h
    have hle := length_encodeBytes_le hl
    have hrest := ih hlinks
    simp only [List.map_cons, List.flatten_cons, List.length_append, List.sum_cons]
    omega

theorem sendInternal_eq (st : Bytes) (links : List Bytes) :
    sendInternal st links = (do
      let payload ← (do prependLength (← prependLength (links.map encodeBytes).flatten))
      encodeBMCService ⟨st, encodeBytes payload⟩) := by
  unfold sendInternal
  split
  · next h =>
    subst h
    rfl
  · rw [bind_assoc]

theorem toBytes_encodeBytes (hlen : 2 ≤ bs.length) (hlt : bs.length < 2 ^ 64)
    (h : At (encodeBytes bs) item) : toBytes item = .ok bs := by
  have hne : bs ≠ [0x80] := by
    rintro rfl
    simp at hlen
  obtain ⟨head, heq, hitem⟩ := encodeBytes_item hlt
  rw [reread_eq_self.2 hne] at heq hitem
  exact toBytes_of_at hitem (heq ▸ h)

theorem Nested.decodeInitMessage (hlinks : ∀ l ∈ links, 2 ≤ l.length) (hmem : LinksInMemory links)
    (h : Nested (links.map encodeBytes).flatten payload inner outer) :
    decodeInitMessage behind payload = .ok links := by
  have hlt : ∀ l ∈ links, l.length < 2 ^ 64 := fun l hl => hmem.length_lt hl
  have hle := length_flatten_encodeBytes hlt
  unfold LinksInMemory at hmem
  have hchunks : ∀ e ∈ links.map encodeBytes, Chunk e := by
    intro e he
    obtain ⟨l, hl, rfl⟩ := List.mem_map.1 he
    obtain ⟨head, heq, hitem⟩ := encodeBytes_item (hlt l hl)
    exact heq ▸ hitem.chunk
  obtain ⟨entry, hentry, hat⟩ := h.entry behind (by omega)
  obtain ⟨ls, hls, hats⟩ := toList_of_at h.innerHead (by omega) hchunks hat
  have hread : ls.mapM toBytes = .ok (links.map id) :=
    mapM_of_forall₂ (List.forall₂_map_left_iff.1 hats) fun l hl item hitem =>
      toBytes_encodeBytes (hlinks l hl) (hlt l hl) hitem
  rw [RLP.decodeInitMessage, hentry]
  simp only [ok_bind, elem, List.getElem?_cons_zero, hls, hread, List.map_id]

/-- Any list of links is read back, also the empty one. -/
theorem init_round_trip (behind : Bytes → Bytes) (links : List Bytes)
    (hlinks : ∀ l ∈ links, 2 ≤ l.length) (hmem : LinksInMemory links) :
    ∃ message payload, sendInternal (utf8 "Init") links = .ok message ∧
      decodeBMCService behind message = .ok ⟨utf8 "Init", payload⟩ ∧
      decodeInitMessage behind payload = .ok links := by
  have hle := length_flatten_encodeBytes fun l hl => hmem.length_lt hl
  have htype : (utf8 "Init").length = 4 := by decide +kernel
  have hroom := hmem
  unfold LinksInMemory at hroom
  obtain ⟨payload, inner, outer, hpayload, hnested⟩ :=
    prependLength_twice (show (links.map encodeBytes).flatten.length + 32 < 2 ^ 64 by omega)
  have hlen := hnested.length_le
  obtain ⟨message, hencode, hdecode⟩ := decodeBMCService_encodeBMCService behind
    (show (utf8 "Init").length + payload.length + 32 < 2 ^ 64 by omega) (by decide +kernel)
    hnested.ne_single
  refine ⟨message, payload, ?_, hdecode, hnested.decodeInitMessage hlinks hmem⟩
  rw [sendInternal_eq, hpayload, ok_bind, hencode]

def sampleLinks : List Bytes := [utf8 "btp://0x1.icon/cx01", utf8 "btp://0x61.bsc/0x03"]

theorem init_two_links :
    ∃ message payload, sendInternal (utf8 "Init") sampleLinks = .ok message ∧
      decodeBMCService (fun _ => []) message = .ok ⟨utf8 "Init", payload⟩ ∧
      decodeInitMessage (fun _ => []) payload = .ok sampleLinks :=
  init_round_trip (fun _ => []) sampleLinks (by decide +kernel) (by decide +kernel)

end IconBridge.Solidity.RLP
