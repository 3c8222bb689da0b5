import IconBridge.Algorand.Relay

/-!
# What a group of calls refers to

A message for Algorand lists the assets and the accounts that its call needs
and then the body of the call. `Segment` appends what it reads to parameters
that the sender keeps for good, and `Send` attaches all of them to its group.
-/

namespace IconBridge.Algorand

open Lib Algorand.Relay List

/-- The count of the assets, the assets, the count of the accounts, the
accounts and the body. -/
structure Payload where
  assets : List ℕ
  accounts : List Key
  body : Bytes
  assets_length : assets.length < 256
  assets_lt : ∀ a ∈ assets, a < 2 ^ 64
  accounts_length : accounts.length < 256
  accounts_key : ∀ k ∈ accounts, k.length = 32

def Payload.bytes (p : Payload) : Bytes :=
  [UInt8.ofNat p.assets.length] ++ (p.assets.flatMap (toBytes 8) ++
    (UInt8.ofNat p.accounts.length :: (p.accounts.flatten ++ p.body)))

/-- The first asset is attached as often as there are assets. -/
def Payload.attached (p : Payload) : List ℕ :=
  List.replicate p.assets.length (p.assets.headD 0)

theorem mapM_range_ok {f : ℕ → Outcome β} {l : List β}
    (h : ∀ k (hk : k < l.length), f k = .ok (l.get ⟨k, hk⟩)) :
    (List.range l.length).mapM f = .ok l := by
  have hread : List.Forall₂ (fun b k => f k = .ok b) l (List.range l.length) := by
    rw [forall₂_iff_get]
    refine ⟨length_range.symm, fun k hk _ => ?_⟩
    simpa using h k hk
  simpa using mapM_of_forall₂ hread fun b _ k hk => hk

theorem length_flatMap_toBytes (assets : List ℕ) :
    (assets.flatMap (toBytes 8)).length = 8 * assets.length := by
  induction assets with
  | nil => rfl
  | cons a assets ih =>
    rw [flatMap_cons, length_append, ih, length_toBytes, length_cons]
    omega

theorem length_flatten_keys {keys : List Key} (h : ∀ k ∈ keys, k.length = 32) :
    keys.flatten.length = 32 * keys.length := by
  induction keys with
  | nil => rfl
  | cons k keys ih =>
    obtain ⟨hk, hkeys⟩ := forall_mem_cons.1 h
    rw [flatten_cons, length_append, ih hkeys, hk, length_cons]
    omega

variable {p : Payload}

theorem Payload.byteAt_assets : byteAt p.bytes 0 = .ok p.assets.length := by
  have hcount := byteAt_append [] (p.assets.flatMap (toBytes 8) ++
    (UInt8.ofNat p.accounts.length :: (p.accounts.flatten ++ p.body))) rfl
    (b := UInt8.ofNat p.assets.length)
  rw [UInt8.toNat_ofNat_of_lt' p.assets_length] at hcount
  exact hcount

theorem Payload.byteAt_accounts :
    byteAt p.bytes (1 + 8 * p.assets.length) = .ok p.accounts.length := by
  have hfront : ([UInt8.ofNat p.assets.length] ++ p.assets.flatMap (toBytes 8)).length =
      1 + 8 * p.assets.length := by
    rw [length_append, length_flatMap_toBytes, length_singleton]
  have hcount := byteAt_append _ (p.accounts.flatten ++ p.body) hfront
    (b := UInt8.ofNat p.accounts.length)
  rw [UInt8.toNat_ofNat_of_lt' p.accounts_length, append_assoc] at hcount
  exact hcount

theorem Payload.readAssets_eq : readAssets p.bytes p.assets.length = .ok p.attached := by
  have hlen : p.assets.length = p.attached.length := length_replicate.symm
  rw [hlen]
  refine mapM_range_ok fun k hk => ?_
  rw [← hlen] at hk
  cases hassets : p.assets with
  | nil =>
    rw [hassets] at hk
    cases hk
  | cons a assets =>
    have hslice : slice p.bytes 1 (1 + 8 * k + 8) =
        .ok ((p.assets.flatMap (toBytes 8) ++
          (UInt8.ofNat p.accounts.length :: (p.accounts.flatten ++ p.body))).take (8 * k + 8)) := by
      rw [Payload.bytes, Nat.add_assoc, slice_append length_singleton, if_pos]
      rw [length_append, length_flatMap_toBytes]
      omega
    have ha : a < 256 ^ 8 := p.assets_lt a (by simp [hassets])
    rw [hslice, ok_bind, take_take, min_eq_left (by omega), hassets, flatMap_cons,
      append_assoc, take_left' length_toBytes, ofBytes_toBytes, Nat.mod_eq_of_lt ha]
    simp [Payload.attached, hassets, pure_ok]

theorem Payload.readAddresses_eq :
    readAddresses p.bytes (1 + 8 * p.assets.length + 1) p.accounts.length = .ok p.accounts := by
  refine mapM_range_ok fun k hk => ?_
  -- what stands in front of the account, and what behind it
  have hsplit : p.bytes = ([UInt8.ofNat p.assets.length] ++ p.assets.flatMap (toBytes 8) ++
      [UInt8.ofNat p.accounts.length] ++ (p.accounts.take k).flatten) ++
      (p.accounts.get ⟨k, hk⟩ ++ ((p.accounts.drop (k + 1)).flatten ++ p.body)) := by
    have haccounts : p.accounts.flatten = (p.accounts.take k).flatten ++
        (p.accounts.get ⟨k, hk⟩ ++ (p.accounts.drop (k + 1)).flatten) := by
      rw [get_eq_getElem, ← flatten_cons, ← drop_eq_getElem_cons hk,
        ← flatten_append, take_append_drop]
    rw [Payload.bytes, haccounts]
    simp
  have hfront : ([UInt8.ofNat p.assets.length] ++ p.assets.flatMap (toBytes 8) ++
      [UInt8.ofNat p.accounts.length] ++ (p.accounts.take k).flatten).length =
      1 + 8 * p.assets.length + 1 + 32 * k := by
    rw [length_append, length_append, length_append, length_flatMap_toBytes,
      length_flatten_keys fun key hkey => p.accounts_key key (mem_of_mem_take hkey),
      length_take, min_eq_left hk.le]
    rfl
  have hkey : (p.accounts.get ⟨k, hk⟩).length = 32 := p.accounts_key _ (get_mem _ _)
  rw [hsplit, slice_append hfront, if_pos (by rw [length_append]; omega),
    take_left' hkey]

theorem Payload.slice_body :
    slice p.bytes (1 + 8 * p.assets.length + 1 + 32 * p.accounts.length) p.bytes.length =
      .ok p.body := by
  have hfront : ([UInt8.ofNat p.assets.length] ++ p.assets.flatMap (toBytes 8) ++
      [UInt8.ofNat p.accounts.length] ++ p.accounts.flatten).length =
      1 + 8 * p.assets.length + 1 + 32 * p.accounts.length := by
    rw [length_append, length_append, length_append, length_flatMap_toBytes,
      length_flatten_keys p.accounts_key]
    rfl
  have hsplit : p.bytes = ([UInt8.ofNat p.assets.length] ++ p.assets.flatMap (toBytes 8) ++
      [UInt8.ofNat p.accounts.length] ++ p.accounts.flatten) ++ p.body := by
    simp [Payload.bytes]
  rw [hsplit, length_append, hfront, slice_append hfront, if_pos le_rfl, take_length]

/-- One round over the events: the body is passed on as it is, and the accounts
are those of the message. -/
theorem segmentEvent_payload (event : Event) (hsvc : services svc = some appID)
    (hdecode : decodeRelayMessage event.message = .ok (svc, p.bytes)) :
    segmentEvent services x event =
      .ok ({ foreignAssets := x.1.foreignAssets ++ p.attached
             foreignAccounts := x.1.foreignAccounts ++ p.accounts },
        x.2 ++ [{ appID, svcName := svc, msg := p.body }]) := by
  rw [segmentEvent, hdecode]
  simp only [ok_bind, hsvc, p.byteAt_assets, p.readAssets_eq, p.byteAt_accounts, p.readAddresses_eq,
    p.slice_body]
  rfl

theorem segmentEvent_unknown (event : Event) (hsvc : services svc = none)
    (hdecode : decodeRelayMessage event.message = .ok (svc, p.bytes)) :
    segmentEvent services x event = .error (.error ("Unrecognized service " ++ svc)) := by
  rw [segmentEvent, hdecode]
  simp only [ok_bind, hsvc]

/-- The parameters and the calls that a loop over events has built, the events
they come from, and what stopped it. -/
structure Packing where
  params : CallParams
  svcs : List AbiFunc
  events : List Event := []
  error : Option GoError := none

/-- The loop over the events in `Segment`: what it appended to the parameters
stays there when an event is refused. -/
def pack (services : String → Option ℕ) : List Event → CallParams × List AbiFunc → Packing
  | [], x => { params := x.1, svcs := x.2 }
  | event :: events, x =>
    match segmentEvent services x event with
    | .error e => { params := x.1, svcs := x.2, error := some e }
    | .ok y =>
      let r := pack services events y
      { r with events := event :: r.events }

/-- A call of `Segment`: the events whose references were appended, and the
transaction it has returned. -/
structure Segmented where
  events : List Event
  tx : Option RelayTx

/-- The calls of `Segment` so far. `Send` leaves the sender as it is. -/
structure Sender where
  params : CallParams := {}
  calls : List Segmented := []

def Sender.segment (services : String → Option ℕ) (s : Sender) : List Receipt → Sender
  | [] => s
  | receipt :: receipts =>
    let r := pack services (packed 0 (receipt :: receipts)) (s.params, [])
    { params := r.params
      calls := s.calls ++ [{
        events := r.events
        tx := match r.error with
          | none => some { svcs := r.svcs, height := receipt.height }
          | some _ => none }] }

structure Submitted where
  events : List Event
  svcs : List AbiFunc
  params : CallParams

/-- `Send` of the transaction of the `i`-th call of `Segment`. A group without
calls is not submitted. -/
def Sender.send (s : Sender) (i : ℕ) : Option Submitted := do
  let call ← s.calls[i]?
  let tx ← call.tx
  if tx.svcs = [] then none
  else some { events := call.events, svcs := tx.svcs, params := s.params }

variable {services : String → Option ℕ} {payload : Event → Payload}

def Formed (payload : Event → Payload) (event : Event) : Prop :=
  ∃ svc, decodeRelayMessage event.message = .ok (svc, (payload event).bytes)

/-- The calls pass the bodies of the events, and they refer to what the events
list and to nothing else. -/
def Submitted.Exact (payload : Event → Payload) (g : Submitted) : Prop :=
  g.svcs.map AbiFunc.msg = g.events.map (fun e => (payload e).body) ∧
  g.params.foreignAssets = g.events.flatMap (fun e => (payload e).assets) ∧
  g.params.foreignAccounts = g.events.flatMap fun e => (payload e).accounts

/-- No other call of `Segment` has read a reference, and no event of the group
lists two different assets. -/
def Sender.Alone (payload : Event → Payload) (s : Sender) (i : ℕ) : Prop :=
  (∀ j call, j ≠ i → s.calls[j]? = some call → ∀ e ∈ call.events,
    (payload e).assets = [] ∧ (payload e).accounts = []) ∧
  ∀ call, s.calls[i]? = some call → ∀ e ∈ call.events,
    ∀ a ∈ (payload e).assets, ∀ b ∈ (payload e).assets, a = b

theorem pack_payloads (services : String → Option ℕ) {events : List Event}
    (h : ∀ e ∈ events, Formed payload e) :
    let r := pack services events x
    r.params.foreignAssets = x.1.foreignAssets ++ r.events.flatMap (fun e => (payload e).attached) ∧
    r.params.foreignAccounts =
      x.1.foreignAccounts ++ r.events.flatMap (fun e => (payload e).accounts) ∧
    r.svcs.map AbiFunc.msg = x.2.map AbiFunc.msg ++ r.events.map fun e => (payload e).body := by
  induction events generalizing x with
  | nil => simp [pack]
  | cons event events ih =>
    obtain ⟨⟨svc, hdecode⟩, hevents⟩ := forall_mem_cons.1 h
    cases hsvc : services svc with
    | none => simp [pack, segmentEvent_unknown event hsvc hdecode]
    | some appID =>
      obtain ⟨hassets, haccounts, hbodies⟩ :=
        ih (x := ({ foreignAssets := x.1.foreignAssets ++ (payload event).attached
                    foreignAccounts := x.1.foreignAccounts ++ (payload event).accounts },
          x.2 ++ [{ appID, svcName := svc, msg := (payload event).body }])) hevents
      simp only [pack, segmentEvent_payload event hsvc hdecode, hassets, haccounts, hbodies,
        flatMap_cons, map_cons, append_assoc, map_append, map_nil,
        singleton_append, and_self]

structure Sender.Tracked (payload : Event → Payload) (s : Sender) : Prop where
  assets : s.params.foreignAssets =
    s.calls.flatMap fun c => c.events.flatMap fun e => (payload e).attached
  accounts : s.params.foreignAccounts =
    s.calls.flatMap fun c => c.events.flatMap fun e => (payload e).accounts
  bodies : ∀ c ∈ s.calls, ∀ tx ∈ c.tx,
    tx.svcs.map AbiFunc.msg = c.events.map fun e => (payload e).body

theorem Sender.segment_tracked {s : Sender} {receipts : List Receipt} (h : s.Tracked payload)
    (hform : ∀ r ∈ receipts, ∀ e ∈ r.events, Formed payload e) :
    (s.segment services receipts).Tracked payload := by
  cases receipts with
  | nil => exact h
  | cons receipt receipts =>
    have hpacked : ∀ e ∈ packed 0 (receipt :: receipts), Formed payload e := by
      intro e he
      obtain ⟨r, hr, he⟩ := mem_flatMap.1 ((packed_isPrefix 0 _).subset he)
      exact hform r hr e he
    obtain ⟨hassets, haccounts, hbodies⟩ :=
      pack_payloads services (x := (s.params, [])) hpacked
    refine ⟨?_, ?_, ?_⟩
    · simpa [Sender.segment, h.assets] using hassets
    · simpa [Sender.segment, h.accounts] using haccounts
    · intro c hc tx htx
      rcases mem_append.1 hc with hc | hc
      · exact h.bodies c hc tx htx
      · cases mem_singleton.1 hc
        dsimp only at htx
        split at htx
        · cases htx
          simpa using hbodies
        · cases htx

theorem segments_tracked {segments : List (List Receipt)} {s : Sender} (h : s.Tracked payload)
    (hform : ∀ receipts ∈ segments, ∀ r ∈ receipts, ∀ e ∈ r.events, Formed payload e) :
    (segments.foldl (Sender.segment services) s).Tracked payload := by
  induction segments generalizing s with
  | nil => exact h
  | cons receipts segments ih =>
    obtain ⟨hreceipts, hsegments⟩ := forall_mem_cons.1 hform
    exact ih (Sender.segment_tracked h hreceipts) hsegments

theorem Payload.attached_eq_iff :
    p.attached = p.assets ↔ ∀ a ∈ p.assets, ∀ b ∈ p.assets, a = b := by
  rw [eq_comm, Payload.attached, eq_replicate_iff]
  cases hassets : p.assets with
  | nil => simp
  | cons a assets =>
    constructor
    · rintro ⟨-, h⟩ b hb b' hb'
      exact (h b hb).trans (h b' hb').symm
    · intro h
      exact ⟨rfl, fun b hb => h b hb a mem_cons_self⟩

theorem flatMap_inj_of_length {f g : α → List β} {l : List α}
    (h : ∀ a ∈ l, (f a).length = (g a).length) :
    l.flatMap f = l.flatMap g ↔ ∀ a ∈ l, f a = g a := by
  induction l with
  | nil => simp
  | cons a l ih =>
    obtain ⟨ha, hl⟩ := forall_mem_cons.1 h
    rw [flatMap_cons, flatMap_cons, forall_mem_cons, ← ih hl]
    exact ⟨fun heq => append_inj heq ha, fun heq => by rw [heq.1, heq.2]⟩

theorem append_eq_iff_of_length {front part back whole : List β}
    (h : part.length = whole.length) :
    front ++ (part ++ back) = whole ↔ front = [] ∧ back = [] ∧ part = whole := by
  constructor
  · intro heq
    have hlen : front.length + (part.length + back.length) = whole.length := by
      rw [← heq, length_append, length_append]
    have hfront : front = [] := length_eq_zero_iff.1 (by omega)
    have hback : back = [] := length_eq_zero_iff.1 (by omega)
    subst hfront hback
    exact ⟨rfl, rfl, by simpa using heq⟩
  · rintro ⟨rfl, rfl, rfl⟩
    simp

theorem flatMap_alone_iff (read listed : Event → List β) {calls : List Segmented} {i : ℕ}
    {call : Segmented} (hi : calls[i]? = some call)
    (hlen : ∀ e, (read e).length = (listed e).length) :
    calls.flatMap (fun c => c.events.flatMap read) = call.events.flatMap listed ↔
      (∀ j c, j ≠ i → calls[j]? = some c → ∀ e ∈ c.events, listed e = []) ∧
      ∀ e ∈ call.events, read e = listed e := by
  obtain ⟨hlt, hget⟩ := List.getElem?_eq_some_iff.1 hi
  have hsplit : calls = calls.take i ++ call :: calls.drop (i + 1) := by
    rw [← hget, ← drop_eq_getElem_cons hlt, take_append_drop]
  have hparts : (call.events.flatMap read).length = (call.events.flatMap listed).length := by
    simp only [length_flatMap, hlen]
  have hempty : ∀ e, read e = [] ↔ listed e = [] := fun e => by
    rw [← length_eq_zero_iff, hlen, length_eq_zero_iff]
  have hothers : (∀ j c, j ≠ i → calls[j]? = some c → ∀ e ∈ c.events, listed e = []) ↔
      (∀ c ∈ calls.take i, ∀ e ∈ c.events, read e = []) ∧
      ∀ c ∈ calls.drop (i + 1), ∀ e ∈ c.events, read e = [] := by
    simp only [hempty]
    constructor
    · refine fun h => ⟨fun c hc => ?_, fun c hc => ?_⟩
      · obtain ⟨j, hj, rfl⟩ := mem_take_iff_getElem.1 hc
        exact h j _ (by omega) (getElem?_eq_getElem _)
      · obtain ⟨j, hj, rfl⟩ := mem_drop_iff_getElem.1 hc
        exact h (i + 1 + j) _ (by omega) (getElem?_eq_getElem _)
    · rintro ⟨hfront, hback⟩ j c hne hc
      obtain ⟨hj, rfl⟩ := List.getElem?_eq_some_iff.1 hc
      rcases Nat.lt_or_gt_of_ne hne with hji | hji
      · exact hfront _ (mem_take_iff_getElem.2 ⟨j, by omega, rfl⟩)
      · refine hback _ (mem_drop_iff_getElem.2 ⟨j - (i + 1), by omega, ?_⟩)
        congr 1
        omega
  rw [hothers, ← flatMap_inj_of_length (fun e _ => hlen e)]
  conv_lhs => rw [hsplit]
  rw [flatMap_append, flatMap_cons, append_eq_iff_of_length hparts,
    flatMap_eq_nil_iff, flatMap_eq_nil_iff, and_assoc]
  simp only [flatMap_eq_nil_iff]

def samplePayload : ℕ → Payload
  | 1 => ⟨[5], [List.replicate 32 1], [9], by decide, by decide, by decide, by decide⟩
  | 2 => ⟨[], [], [8], by decide, by decide, by decide, by decide⟩
  | _ => ⟨[5, 6], [], [7], by decide, by decide, by decide, by decide⟩

def payloadEvent (n : ℕ) : Event where
  next := ""
  sequence := n
  message := RLP.encodeList [[], [], utf8 "escrow", [], (samplePayload n).bytes]

def payloadReceipts (n : ℕ) : List Receipt :=
  [{ index := 0, events := [payloadEvent n], height := n }]

theorem payloadReceipts_formed (hn : n = 1 ∨ n = 2 ∨ n = 3) :
    ∀ r ∈ payloadReceipts n, ∀ e ∈ r.events, Formed (fun e => samplePayload e.sequence) e := by
  intro r hr e he
  cases mem_singleton.1 hr
  cases mem_singleton.1 he
  refine ⟨"escrow", ?_⟩
  rcases hn with rfl | rfl | rfl <;> decide +kernel

end IconBridge.Algorand
