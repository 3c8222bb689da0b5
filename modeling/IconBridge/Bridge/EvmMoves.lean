import IconBridge.Bridge.TwoChains

/-!
# Moves of the EVM chain

What the EVM chain does with a message of ICON, and of its own accord, as calls
of its token service with the messages that they send.
-/

namespace IconBridge.Bridge

open Lib List
open Solidity.BMC (Send emitMessage resolveRoute toInt256)
open Solidity.BTS (Outgoing)

variable {p : Parties} {s s' t : Solidity.BMC.St EvmWorld Wire} {T : Terms} {next : String}

def evmRouting (s : Solidity.BMC.St EvmWorld Wire) :=
  (s.routes, s.getRouteDstFromNet, s.getLinkFromNet, s.getLinkFromReachableNet, s.bshServices)

def evmOutbox (p : Parties) (s : Solidity.BMC.St EvmWorld Wire) :=
  ({ routing := evmRouting s
     rx := (s.links p.iconName).rxSeq
     tx := (s.links p.iconName).txSeq
     sent := s.messages.map fun e => (e.next, e.seq, e.msg) } : Outbox _ String Wire)

/-- The message center knows its one link and its one service, and has numbered
what it sent. -/
structure EvmWired (p : Parties) (s : Solidity.BMC.St EvmWorld Wire) : Prop where
  routing : evmRouting s = evmRouting (evmStart p [] s.world.bts)
  numbered : (evmOutbox p s).Numbered p.iconName

theorem evmStart_wired : EvmWired p (evmStart p relays bts) := by
  refine ⟨rfl, rfl, ?_⟩
  simp [evmOutbox, evmStart, Outbox.contents]

def EvmPosts (p : Parties) (out : List Wire) (s s' : Solidity.BMC.St EvmWorld Wire) : Prop :=
  (evmOutbox p s).Posts p.iconName out (evmOutbox p s')

theorem EvmPosts.emit : EvmPosts p [w] s (emitMessage s p.iconName w) := by
  refine ⟨rfl, ?_, ?_, ?_⟩ <;> simp [evmOutbox, emitMessage, Solidity.BMC.setLink, number]

theorem EvmPosts.wired (hw : EvmWired p s) (h : EvmPosts p out s s') : EvmWired p s' :=
  ⟨h.routing.trans hw.routing, hw.numbered.posts h⟩

theorem EvmWired.resolveRoute (hw : EvmWired p s) (h : resolveRoute s net = .ok (link, dst)) :
    link = p.iconName ∧ dst = p.iconName := by
  have hrouting := hw.routing
  simp only [evmRouting, evmStart, Prod.mk.injEq] at hrouting
  obtain ⟨h1, h2, h3, h4, -⟩ := hrouting
  simp only [Solidity.BMC.resolveRoute, h1, h2, h3, h4] at h
  by_cases hnet : net = p.iconAddr.net
  · simp only [hnet, if_true, ne_eq, not_true_eq_false, if_false] at h
    rw [if_pos (by exact p.iconName_ne)] at h
    cases h
    exact ⟨rfl, rfl⟩
  · simp [hnet] at h

theorem sendMessages_posts {sends : List (Send Wire)} (hw : EvmWired p s)
    (h : sends.foldlM (Solidity.BMC.sendMessage (evmConfig p) addr) s = .ok s') :
    s'.world = s.world ∧ EvmPosts p
      (sends.map fun m => .btp p.evmName p.iconName m.svc (toInt256 m.sn) m.msg) s s' := by
  induction sends generalizing s with
  | nil =>
    cases h
    exact ⟨rfl, .refl⟩
  | cons m sends ih =>
    simp only [foldlM_cons, Solidity.BMC.sendMessage, bind_ok, pure_ok, Prod.exists] at h
    obtain ⟨t, ⟨_, -, link, dst, hroute, rfl⟩, h⟩ := h
    obtain ⟨rfl, rfl⟩ := hw.resolveRoute hroute
    have hemit := EvmPosts.emit (p := p) (s := s)
      (w := .btp p.evmName p.iconName m.svc (toInt256 m.sn) m.msg)
    obtain ⟨hworld, hposts⟩ := ih (hemit.wired hw) h
    exact ⟨hworld, hemit.trans hposts⟩

theorem evmCall_ok {f : EvmWorld → Solidity.BTS.St → Solidity.Outcome Solidity.BTS.St}
    (hw : EvmWired p s)
    (h : Solidity.BMC.callService (evmConfig p) s addr (fun reach w => evmCall (f w) reach w) =
      .ok s') :
    ∃ reach bts, f s.world { s.world.bts with reachable := reach } = .ok bts ∧
      s'.world = { s.world with bts } ∧
      ∀ out, bts.sent = s.world.bts.sent ++ out → EvmPosts p
        (out.map fun o => evmWire p (toInt256 o.sn) (ofServiceMessage o.msg)) s s' := by
  simp only [Solidity.BMC.callService, evmCall, bind_ok, pure_ok, Prod.exists, Prod.mk.injEq] at h
  obtain ⟨w, sends, ⟨bts, hbts, rfl, rfl⟩, h⟩ := h
  obtain ⟨hworld, hposts⟩ := sendMessages_posts (by exact ⟨hw.routing, hw.numbered⟩) h
  refine ⟨_, bts, hbts, hworld, fun out hout => ?_⟩
  rw [hout, drop_left, map_map] at hposts
  exact hposts

def evmWires (p : Parties) (out : List Outgoing) : List Wire :=
  out.map fun o => evmWire p (toInt256 o.sn) (ofServiceMessage o.msg)

/-- What the token service does with a message, or of its own, and what is sent.
No response is refused. -/
inductive EvmMove (p : Parties) (T : Terms) (b : Solidity.BTS.St) :
    Option Wire → List Wire → Solidity.BTS.St → Prop
  | idle : EvmMove p T b none [] b
  | acts (reachable : String → Bool) (tx : Solidity.BTS.Tx) (htx : T.evm tx) (houtside : tx.outside)
      (h : Solidity.BTS.step p.evm { b with reachable } tx = .ok b') (hsent : b'.sent = b.sent ++ out) :
      EvmMove p T b none (evmWires p out) b'
  | gathers (reachable : String → Bool) (fa svc : String)
      (h : Solidity.BTS.handleFeeGathering p.evm { b with reachable } p.evm.bmc fa svc = .ok b')
      (hsent : b'.sent = b.sent ++ out) : EvmMove p T b none (evmWires p out) b'
  | handles (reachable : String → Bool) (n : ℕ) (hn : 0 < n) (m : Java.BTS.BTSMessage)
      (hm : IconService m) (hw : T.toEvm (iconWire p n m)) (rs : List Solidity.BTS.Reaction)
      (h : Solidity.BTS.handleBTPMessage p.evm { b with reachable } p.evm.bmc p.iconAddr.net "bts" n
        (toServiceMessage m) rs = .ok b')
      (hsent : b'.sent = b.sent ++ out) :
      EvmMove p T b (some (iconWire p n m)) (evmWires p out) b'
  | refuses (n : ℕ) (hn : 0 < n) (m : Java.BTS.BTSMessage) (hm : IconService m)
      (happlied : m.serviceType ≠ .responseHandleService) (code : ℕ) (reason : String) :
      EvmMove p T b (some (iconWire p n m)) [evmError p n code reason] b
  | fails (reachable : String → Bool) (n : ℕ) (hn : 0 < n) (code : ℤ) (message : String)
      (rs : List Solidity.BTS.Reaction)
      (h : Solidity.BTS.handleBTPError p.evm { b with reachable } p.evm.bmc "bts" n code.natAbs message rs =
        .ok b')
      (hsent : b'.sent = b.sent ++ out) :
      EvmMove p T b (some (iconError p n code message)) (evmWires p out) b'
  | ignores (n : ℕ) (hn : 0 < n) (code : ℤ) (message : String) :
      EvmMove p T b (some (iconError p n code message)) [] b
  | skips (fa : String) (svcs : List String) : EvmMove p T b (some (iconGathering p fa svcs)) [] b

structure EvmDoes (p : Parties) (T : Terms) (m : Option Wire) (out : List Wire)
    (s s' : Solidity.BMC.St EvmWorld Wire) : Prop where
  posts : EvmPosts p out s s'
  move : EvmMove p T s.world.bts m out s'.world.bts

def evmDelivery (p : Parties) (s : Solidity.BMC.St EvmWorld Wire) (sn : ℕ)
    (m : Java.BTS.BTSMessage) : Solidity.Outcome (Solidity.BMC.St EvmWorld Wire) :=
  Solidity.BMC.callService (evmConfig p) s p.btsPeriphery fun reach w =>
    (evmConfig p).contracts.handleBTPMessage p.btsPeriphery reach w p.iconAddr.net "bts" sn
      (.service m)

theorem IconService.toServiceMessage (hm : IconService m) :
    ∃ m', Bridge.toServiceMessage m = some m' := by
  cases hm with
  | change _ hchange => cases hchange <;> exact ⟨_, rfl⟩
  | _ => exact ⟨_, rfl⟩

theorem EvmMove.serial_le {b b' : Solidity.BTS.St} (h : EvmMove p T b m out b') :
    b.serialNo ≤ b'.serialNo := by
  cases h with
  | acts _ _ _ houtside h =>
    obtain ⟨_, hfiles⟩ := Solidity.BTS.step_files houtside h
    exact hfiles.serial_le
  | gathers _ _ _ h =>
    obtain ⟨_, hfiles⟩ := Solidity.BTS.handleFeeGathering_files h
    exact hfiles.serial_le
  | handles _ n _ m hm _ _ h =>
    obtain ⟨m', hm'⟩ := hm.toServiceMessage
    rw [hm'] at h
    have hposts := (Solidity.BTS.handleBTPMessage_handles h).posts
    exact hposts.1
  | fails _ _ _ _ _ _ h =>
    obtain ⟨_, hfiles⟩ := Solidity.BTS.handleBTPError_files h
    exact hfiles.serial_le
  | idle | refuses | ignores | skips => exact le_rfl

theorem evmDelivery_does {n : ℕ} (hw : EvmWired p s) (hn : 0 < n) (hm : IconService m)
    (hterms : T.toEvm (iconWire p n m)) (h : evmDelivery p s n m = .ok s') :
    ∃ out, EvmDoes p T (some (iconWire p n m)) out s s' := by
  obtain ⟨reach, bts, hbts, hworld, hposts⟩ := evmCall_ok (f := fun w b =>
    Solidity.BTS.handleBTPMessage p.evm b p.evm.bmc p.iconAddr.net "bts" n (toServiceMessage m)
      w.reactions) hw h
  obtain rfl : s'.world.bts = bts := by rw [hworld]
  obtain ⟨m', hm'⟩ := hm.toServiceMessage
  obtain ⟨-, out, hout⟩ := (Solidity.BTS.handleBTPMessage_handles (hm' ▸ hbts)).posts
  exact ⟨_, hposts out hout, .handles reach n hn m hm hterms _ hbts hout⟩

theorem EvmWired.service (hw : EvmWired p s) : s.bshServices "bts" = p.btsPeriphery :=
  congrFun (congrArg (fun x => x.2.2.2.2) hw.routing) "bts"

/-- A service message is handled or, if the handler fails, answered with an
error. -/
theorem evmService_does {n : ℕ} (hw : EvmWired p s) (hn : 0 < n) (hm : IconService m)
    (hterms : T.toEvm (iconWire p n m))
    (hresponse : m.serviceType = .responseHandleService → ∃ t, evmDelivery p s n m = .ok t)
    (h : Solidity.BMC.handleService (evmConfig p) s p.iconName
      { src := p.iconName, dst := p.evmName, svc := "bts", sn := n, message := .service m } = .ok s') :
    ∃ out, EvmDoes p T (some (iconWire p n m)) out s s' := by
  obtain ⟨account, hsplit⟩ := p.split_icon
  simp only [Solidity.BMC.handleService, hw.service, if_neg p.periphery_ne, if_pos (Int.natCast_nonneg n),
    Solidity.BMC.deliverMessage, Parties.iconName, hsplit, ok_bind, bind_ok, Int.toNat_natCast] at h
  obtain ⟨_, -, h⟩ := h
  have hrefused (code : ℕ) (reason : String) (hfail : ∀ t, evmDelivery p s n m ≠ .ok t) :
      EvmDoes p T (some (iconWire p n m)) [evmError p n code reason] s
        (Solidity.BMC.sendError (evmConfig p) s p.iconName
          { src := p.iconName, dst := p.evmName, svc := "bts", sn := n, message := .service m }
          code reason) := by
    simp only [Solidity.BMC.sendError, if_pos (Int.natCast_pos.2 hn)]
    refine ⟨EvmPosts.emit, .refuses n hn m hm (fun hty => ?_) code reason⟩
    obtain ⟨t, ht⟩ := hresponse hty
    exact hfail t ht
  split at h
  · next t ht =>
    cases h
    exact evmDelivery_does hw hn hm hterms ht
  · next reason hfail =>
    cases h
    exact ⟨_, hrefused _ _ fun t ht => by cases hfail.symm.trans ht⟩
  · next e _ hfail =>
    cases h
    exact ⟨_, hrefused _ _ fun t ht => by cases hfail.symm.trans ht⟩

theorem evmError_does {n : ℕ} (hw : EvmWired p s) (hn : 0 < n)
    (h : Solidity.BMC.handleService (evmConfig p) s p.iconName
      { src := p.iconName, dst := p.evmName, svc := "bts", sn := -n,
        message := .error code message } = .ok s') :
    ∃ out, EvmDoes p T (some (iconError p n code message)) out s s' := by
  have hneg : ¬ (0 : ℤ) ≤ -n := by omega
  simp only [Solidity.BMC.handleService, hw.service, if_neg p.periphery_ne, if_neg hneg,
    Solidity.BMC.deliverError, bind_ok] at h
  obtain ⟨r, hr, sn, hsn, _, -, h⟩ := h
  cases hr
  obtain rfl : sn = n := by
    simp only [Solidity.BMC.negate] at hsn
    split at hsn
    · contradiction
    · cases hsn
      exact neg_neg _
  split at h
  · next t ht =>
    cases h
    obtain ⟨reach, bts, hbts, hworld, hposts⟩ := evmCall_ok (f := fun w b =>
      Solidity.BTS.handleBTPError p.evm b p.evm.bmc "bts" (n : ℤ).toNat code.natAbs message w.reactions)
      hw ht
    obtain rfl : s'.world.bts = bts := by rw [hworld]
    rw [Int.toNat_natCast] at hbts
    obtain ⟨out, hfiles⟩ := Solidity.BTS.handleBTPError_files hbts
    exact ⟨_, hposts out hfiles.sent, .fails reach n hn code message _ hbts hfiles.sent⟩
  · cases h
    exact ⟨[], by split <;> exact .refl, by split <;> exact .ignores n hn code message⟩
  · cases h
    exact ⟨[], by split <;> exact .refl, by split <;> exact .ignores n hn code message⟩

def EvmActs (p : Parties) (T : Terms) :
    Solidity.BMC.St EvmWorld Wire → Solidity.BMC.St EvmWorld Wire → Prop :=
  Relation.ReflTransGen fun s s' => ∃ out, EvmDoes p T none out s s'

theorem EvmActs.wired (hw : EvmWired p s) (h : EvmActs p T s s') : EvmWired p s' := by
  induction h with
  | refl => exact hw
  | tail _ hdoes ih =>
    obtain ⟨out, hdoes⟩ := hdoes
    exact hdoes.posts.wired ih

theorem EvmActs.rx (h : EvmActs p T s s') : (evmOutbox p s').rx = (evmOutbox p s).rx := by
  induction h with
  | refl => rfl
  | tail _ hdoes ih =>
    obtain ⟨out, hdoes⟩ := hdoes
    exact hdoes.posts.rx.trans ih

theorem evmAct_does (hw : EvmWired p s) (hterms : T.evm tx) (h : evmAct p s tx = .ok s') :
    ∃ out, EvmDoes p T none out s s' := by
  simp only [evmAct, bind_ok, require_ok] at h
  obtain ⟨_, houtside, h⟩ := h
  obtain ⟨reach, bts, hbts, hworld, hposts⟩ := evmCall_ok (f := fun _ b =>
    Solidity.BTS.step p.evm b tx) hw h
  obtain rfl : s'.world.bts = bts := by rw [hworld]
  have houtside : tx.outside := by simpa using houtside
  obtain ⟨out, hfiles⟩ := Solidity.BTS.step_files houtside hbts
  exact ⟨_, hposts out hfiles.sent, .acts reach tx hterms houtside hbts hfiles.sent⟩

theorem evmGatherFees_acts (hw : EvmWired p s)
    (h : Solidity.BMC.gatherFees (evmConfig p) fa s svc = .ok s') : EvmActs p T s s' := by
  simp only [Solidity.BMC.gatherFees] at h
  split at h
  · cases h
    exact .refl
  · simp only [bind_ok] at h
    obtain ⟨_, -, h⟩ := h
    split at h
    · next t ht =>
      cases h
      obtain ⟨reach, bts, hbts, hworld, hposts⟩ := evmCall_ok (f := fun _ b =>
        Solidity.BTS.handleFeeGathering p.evm b p.evm.bmc fa svc) hw ht
      obtain rfl : s'.world.bts = bts := by rw [hworld]
      obtain ⟨out, hfiles⟩ := Solidity.BTS.handleFeeGathering_files hbts
      exact .single ⟨_, hposts out hfiles.sent, .gathers reach fa svc hbts hfiles.sent⟩
    · cases h
      exact .refl

theorem evmInternal_acts (hw : EvmWired p s)
    (h : Solidity.BMC.handleInternal (evmConfig p) s p.iconName
      { src := p.iconName, dst := p.evmName, svc := "bmc", sn := 0,
        message := .internal "FeeGathering" (.feeGathering fa svcs) } = .ok s') :
    EvmActs p T s s' := by
  refine foldlM_ok (P := EvmActs p T s) (fun t svc t' _ ht hstep => ?_) .refl h
  exact ht.trans (evmGatherFees_acts (ht.wired hw) hstep)

def evmApplies (p : Parties) (s : Solidity.BMC.St EvmWorld Wire) : Wire → Bool
  | .btp _ _ _ sn (.service ⟨.responseHandleService, data⟩) =>
    (evmDelivery p s sn.toNat ⟨.responseHandleService, data⟩).toBool
  | _ => true

/-- A message of ICON. Fees are gathered before the message that asks for it is
counted. -/
theorem evmMessage_does (hw : EvmWired p s) (hfrom : FromIcon p w) (hterms : T.toEvm w)
    (happlies : evmApplies p s w) (hdecode : evmCodec.decodeBMCMessage w = .ok m)
    (h : Solidity.BMC.handleMessage (evmConfig p) s p.iconName m = .ok s') :
    ∃ t out, EvmActs p T s t ∧ EvmDoes p T (some w) out t s' := by
  cases hfrom with
  | service sn hsn m hm =>
    cases hdecode
    lift sn to ℕ using hsn.le
    have hresponse : m.serviceType = .responseHandleService → ∃ t, evmDelivery p s sn m = .ok t := by
      obtain ⟨ty, data⟩ := m
      rintro rfl
      exact toBool_ok.1 happlies
    obtain ⟨out, hdoes⟩ := evmService_does hw (Int.natCast_pos.1 hsn) hm hterms hresponse h
    exact ⟨s, out, .refl, hdoes⟩
  | error sn hsn code message =>
    cases hdecode
    lift sn to ℕ using hsn.le
    obtain ⟨out, hdoes⟩ := evmError_does hw (Int.natCast_pos.1 hsn) h
    exact ⟨s, out, .refl, hdoes⟩
  | feeGathering fa svcs =>
    cases hdecode
    exact ⟨s', [], evmInternal_acts hw h, .refl, .skips fa svcs⟩

def evmTaking (p : Parties) (s : Solidity.BMC.St EvmWorld Wire) (seq : ℕ) :
    Solidity.BMC.St EvmWorld Wire :=
  { s with received := s.received ++ [(p.iconName, seq)] }

structure EvmCounts (p : Parties) (n : ℕ) (s s' : Solidity.BMC.St EvmWorld Wire) : Prop where
  outbox : evmOutbox p s' = { evmOutbox p s with rx := (evmOutbox p s).rx + n }
  world : s'.world = s.world

theorem EvmCounts.wired (hw : EvmWired p s) (h : EvmCounts p n s s') : EvmWired p s' := by
  have hrouting : evmRouting s' = evmRouting s := congrArg Outbox.routing h.outbox
  refine ⟨?_, ?_⟩
  · rw [hrouting, h.world, hw.routing]
  · rw [h.outbox]
    exact ⟨hw.numbered.sent, hw.numbered.tx⟩

theorem FromIcon.addressed (h : FromIcon p w) :
    ∃ m, evmCodec.decodeBMCMessage w = .ok m ∧ m.dst = p.evmName := by
  cases h <;> exact ⟨_, rfl, rfl⟩

theorem evmEvent_does (hw : EvmWired p s) (hfrom : FromIcon p w) (hterms : T.toEvm w)
    (happlies : evmApplies p (evmTaking p s seq) w)
    (h : Solidity.BMC.processEvent (evmConfig p) p.iconName s ⟨next, seq, w⟩ = .ok s') :
    ∃ t out, EvmActs p T (evmTaking p s seq) t ∧ EvmDoes p T (some w) out t s' := by
  obtain ⟨m, hdecode, hdst⟩ := hfrom.addressed
  have hmessage :
      Solidity.BMC.handleMessage (evmConfig p) (evmTaking p s seq) p.iconName m = .ok s' := by
    unfold Solidity.BMC.processEvent at h
    rw [show (evmConfig p).codec.decodeBMCMessage w = .ok m from hdecode] at h
    dsimp only at h
    rwa [if_pos (by exact hdst)] at h
  have hw' : EvmWired p (evmTaking p s seq) := ⟨hw.routing, hw.numbered⟩
  exact evmMessage_does hw' hfrom hterms happlies hdecode hmessage

theorem evmReceive_does (hw : EvmWired p s) (hfrom : FromIcon p w) (hterms : T.toEvm w)
    (hseq : seq = (s.links p.iconName).rxSeq + 1) (happlies : evmApplies p (evmTaking p s seq) w)
    (h : Solidity.BMC.handleRelayMessage (evmConfig p) s relay p.iconName
      (.relay next seq height w) = .ok s') :
    EvmCounts p 0 s s' ∨ ∃ t u out, EvmActs p T (evmTaking p s seq) t ∧
      EvmDoes p T (some w) out t u ∧ EvmCounts p 1 u s' := by
  simp only [Solidity.BMC.handleRelayMessage, bind_ok, pure_ok, Prod.exists] at h
  obtain ⟨_, -, rps, hrps, u, n, rxHeight, hreceive, rfl⟩ := h
  cases hrps
  rcases Inbox.receive_next (by simp [Solidity.BMC.inbox, hseq]) hreceive with heq | ⟨v, hv, heq⟩
  · cases heq
    refine .inl ⟨?_, rfl⟩
    simp [evmOutbox, evmRouting, Solidity.BMC.updateLinkRxHeight, Solidity.BMC.updateRelayStats,
        Solidity.BMC.updateLinkRxSeq, Solidity.BMC.setLink]
  · cases heq
    obtain ⟨t, out, hacts, hdoes⟩ := evmEvent_does hw hfrom hterms happlies hv
    refine .inr ⟨t, u, out, hacts, hdoes, ?_, rfl⟩
    simp [evmOutbox, evmRouting, Solidity.BMC.updateLinkRxHeight, Solidity.BMC.updateRelayStats,
        Solidity.BMC.updateLinkRxSeq, Solidity.BMC.setLink]

end IconBridge.Bridge
