import IconBridge.Bridge.TwoChains
import IconBridge.Java.BMC.Dispatch

/-!
# Moves of ICON

What ICON does with a message of the EVM chain, and of its own accord, as calls
of its token service with the messages that they send. When a term of fee
gathering is over, it makes several moves.
-/

namespace IconBridge.Bridge

open Lib List
open Java.BMC (Link Send emitMessage resolveNext getLink_ok)
open Java.BTS (Outgoing)

variable {p : Parties} {s s' t : Java.BMC.St IconWorld Wire} {T : Terms}
  {next : String}

def iconLink (p : Parties) (s : Java.BMC.St IconWorld Wire) : Link :=
  (s.links.val p.evmAddr).getD {}

def iconRouting (s : Java.BMC.St IconWorld Wire) := (s.routes, s.services, s.links.keys)

def iconOutbox (p : Parties) (s : Java.BMC.St IconWorld Wire) :=
  ({ routing := iconRouting s
     rx := (iconLink p s).rxSeq
     tx := (iconLink p s).txSeq
     sent := s.messages.map fun e => (e.next, e.seq, e.msg) } : Outbox _ Java.BTPAddress Wire)

/-- The message center knows its one link and its one service, and has numbered
what it sent. -/
structure IconWired (p : Parties) (s : Java.BMC.St IconWorld Wire) : Prop where
  routing : iconRouting s = iconRouting (iconStart p .empty {} s.world.bts)
  numbered : (iconOutbox p s).Numbered p.evmAddr

theorem iconStart_wired : IconWired p (iconStart p relays properties bts) := by
  refine ⟨rfl, rfl, ?_⟩
  simp [iconOutbox, iconLink, iconStart, Outbox.contents]

theorem IconWired.keys (hw : IconWired p s) : s.links.keys = [p.evmAddr] :=
  congrArg (fun x => x.2.2) hw.routing

theorem IconWired.services (hw : IconWired p s) :
    s.services = Dict.empty.put "bts" p.icon.bts :=
  congrArg (fun x => x.2.1) hw.routing

def IconPosts (p : Parties) (out : List Wire) (s s' : Java.BMC.St IconWorld Wire) : Prop :=
  (iconOutbox p s).Posts p.evmAddr out (iconOutbox p s')

theorem IconPosts.emit (h : emitMessage s p.evmAddr w = .ok s') :
    s'.world = s.world ∧ IconPosts p [w] s s' := by
  simp only [emitMessage, bind_ok, pure_ok, getLink_ok] at h
  obtain ⟨l, hl, rfl⟩ := h
  refine ⟨rfl, ?_, ?_, ?_, ?_⟩ <;>
    simp [iconOutbox, iconRouting, iconLink, Java.BMC.putLink, Dict.put, hl, number]

theorem IconPosts.wired (hw : IconWired p s) (h : IconPosts p out s s') : IconWired p s' :=
  ⟨h.routing.trans hw.routing, hw.numbered.posts h⟩

theorem IconWired.resolveNext (hw : IconWired p s)
    (h : resolveNext (iconConfig p) s net = .ok link) : link = p.evmAddr := by
  have hroutes : s.routes = .empty := congrArg (fun x => x.1) hw.routing
  have hroute : Java.BMC.resolveRoute (iconConfig p) s net = none := by
    simp [Java.BMC.resolveRoute, hroutes, Dict.empty]
  have hfind {f : Java.BTPAddress → Bool} {key : Java.BTPAddress}
      (hkey : s.links.keys.find? f = some key) : key = p.evmAddr := by
    have hmem := mem_of_find?_eq_some hkey
    rw [hw.keys] at hmem
    exact mem_singleton.1 hmem
  simp only [Java.BMC.resolveNext, hroute] at h
  split at h
  · next key hkey =>
    cases h
    exact hfind hkey
  · split at h
    · next key hkey =>
      cases h
      exact hfind hkey
    · contradiction

theorem iconSends_posts {sends : List (Send Wire)} (hw : IconWired p s)
    (h : sends.foldlM (Java.BMC.sendMessage (iconConfig p) addr) s = .ok s') :
    s'.world = s.world ∧ IconPosts p
      (sends.map fun m => .btp p.iconName p.evmName m.svc m.sn m.msg) s s' := by
  induction sends generalizing s with
  | nil =>
    cases h
    exact ⟨rfl, .refl⟩
  | cons m sends ih =>
    simp only [foldlM_cons, bind_ok, Java.BMC.sendMessage] at h
    obtain ⟨t, ht, h⟩ := h
    split at ht
    · contradiction
    · simp only [bind_ok] at ht
      obtain ⟨_, -, _, -, link, hroute, ht⟩ := ht
      obtain rfl := hw.resolveNext hroute
      obtain ⟨hworld, hemit⟩ := IconPosts.emit ht
      obtain ⟨hworld', hposts⟩ := ih (hemit.wired hw) h
      exact ⟨hworld'.trans hworld, hemit.trans hposts⟩

theorem iconCall_ok {f : IconWorld → Java.BTS.St → Java.Outcome Java.BTS.St} (hw : IconWired p s)
    (h : Java.BMC.callService (iconConfig p) s addr (fun reach w => iconCall (f w) reach w) =
      .ok s') :
    ∃ reach bts, f s.world { s.world.bts with reachable := reach } = .ok bts ∧
      s'.world = { s.world with bts } ∧
      ∀ out, bts.sent = s.world.bts.sent ++ out → IconPosts p
        (out.map fun o => iconWire p o.sn o.msg) s s' := by
  simp only [Java.BMC.callService, mapError_ok, iconCall, bind_ok, pure_ok, Prod.exists,
    Prod.mk.injEq] at h
  obtain ⟨w, sends, ⟨bts, hbts, rfl, rfl⟩, h⟩ := h
  obtain ⟨hworld, hposts⟩ := iconSends_posts (by exact ⟨hw.routing, hw.numbered⟩) h
  refine ⟨_, bts, hbts, hworld, fun out hout => ?_⟩
  rw [hout, drop_left, map_map] at hposts
  exact hposts

theorem iconCall_silent {f : IconWorld → Java.BTS.St → Java.Outcome Java.BTS.St}
    (hf : f s.world { s.world.bts with reachable := Java.BMC.reaches (iconConfig p) s } = .ok bts)
    (hsent : bts.sent = s.world.bts.sent) :
    Java.BMC.callService (iconConfig p) s addr (fun reach w => iconCall (f w) reach w) =
      .ok { s with world := { s.world with bts } } := by
  simp only [Java.BMC.callService, iconCall, hf, ok_bind, hsent, drop_length]
  rfl

def iconWires (p : Parties) (out : List Outgoing) : List Wire :=
  out.map fun o => iconWire p o.sn o.msg

inductive IconMove (p : Parties) (T : Terms) (b : Java.BTS.St) :
    Option Wire → List Wire → Java.BTS.St → Prop
  | idle : IconMove p T b none [] b
  | acts (reachable : String → Bool) (tx : Java.BTS.Tx) (htx : T.icon tx) (houtside : tx.outside)
      (h : Java.BTS.step p.icon { b with reachable, links := [p.evmName] } tx = .ok b')
      (hsent : b'.sent = b.sent ++ out) : IconMove p T b none (iconWires p out) b'
  | gathers (reachable : String → Bool) (receivers : Java.BTS.Receivers) (fa : String)
      (h : Java.BTS.handleFeeGathering p.icon receivers { b with reachable } p.icon.bmc fa = .ok b')
      (hsent : b'.sent = b.sent ++ out) : IconMove p T b none (iconWires p out) b'
  | tells (fa : String) (svcs : List String) : IconMove p T b none [iconGathering p fa svcs] b
  | handles (reachable : String → Bool) (receivers : Java.BTS.Receivers) (sn : ℤ) (hsn : 0 < sn)
      (m : Java.BTS.BTSMessage) (hm : EvmService m) (hw : T.toIcon (evmWire p sn m))
      (h : Java.BTS.handleBTPMessage p.icon receivers { b with reachable } p.icon.bmc p.evmAddr.net
        "bts" sn (some m) = .ok b')
      (hsent : b'.sent = b.sent ++ out) :
      IconMove p T b (some (evmWire p sn m)) (iconWires p out) b'
  | refuses (sn : ℤ) (hsn : 0 < sn) (m : Java.BTS.BTSMessage) (hm : EvmService m)
      (happlied : ∀ r, m.data ≠ .response r) (code : ℤ) (message : String) :
      IconMove p T b (some (evmWire p sn m)) [iconError p sn code message] b
  | fails (reachable : String → Bool) (receivers : Java.BTS.Receivers) (sn : ℤ) (hsn : 0 < sn)
      (code : ℤ) (message : String)
      (h : Java.BTS.handleBTPError p.icon receivers { b with reachable } p.icon.bmc p.evmName sn
        code message = .ok b')
      (hsent : b'.sent = b.sent) : IconMove p T b (some (evmError p sn code message)) [] b'
  | ignores (reachable : String → Bool) (receivers : Java.BTS.Receivers) (sn : ℤ) (hsn : 0 < sn)
      (code : ℤ) (message : String)
      (hfail : ∀ b', Java.BTS.handleBTPError p.icon receivers { b with reachable } p.icon.bmc
        p.evmName sn code message ≠ .ok b') :
      IconMove p T b (some (evmError p sn code message)) [] b

structure IconDoes (p : Parties) (T : Terms) (m : Option Wire) (out : List Wire)
    (s s' : Java.BMC.St IconWorld Wire) : Prop where
  posts : IconPosts p out s s'
  move : IconMove p T s.world.bts m out s'.world.bts

def iconDelivery (p : Parties) (s : Java.BMC.St IconWorld Wire) (sn : ℤ)
    (m : Java.BTS.BTSMessage) : Java.Outcome (Java.BMC.St IconWorld Wire) :=
  Java.BMC.callService (iconConfig p) s p.icon.bts fun reach w =>
    (iconConfig p).contracts.handleBTPMessage p.icon.bts reach w p.evmAddr.net "bts" sn
      (some (.service m))

theorem IconMove.serial_le {b b' : Java.BTS.St} (h : IconMove p T b m out b') : b.sn ≤ b'.sn := by
  cases h with
  | acts _ _ _ houtside h =>
    obtain ⟨_, hasks⟩ := Java.BTS.step_asks houtside h
    exact hasks.serial
  | gathers _ _ _ h =>
    obtain ⟨_, -, hasks⟩ := Java.BTS.handleFeeGathering_asks h
    exact hasks.serial
  | handles _ _ _ _ _ _ _ h =>
    have hposts := (Java.BTS.handleBTPMessage_handles h).posts
    exact hposts.1.ge
  | fails _ _ _ _ _ _ h =>
    obtain hcloses | hcloses := Java.BTS.handleBTPError_closes h
    · exact hcloses.serial.ge
    · exact hcloses.serial.ge
  | idle | tells | refuses | ignores => exact le_rfl

theorem iconDelivery_does (hw : IconWired p s) (hsn : 0 < sn) (hm : EvmService m)
    (hterms : T.toIcon (evmWire p sn m)) (h : iconDelivery p s sn m = .ok s') :
    ∃ out, IconDoes p T (some (evmWire p sn m)) out s s' := by
  obtain ⟨reach, bts, hbts, hworld, hposts⟩ := iconCall_ok (f := fun w b =>
    Java.BTS.handleBTPMessage p.icon w.receivers b p.icon.bmc p.evmAddr.net "bts" sn (some m)) hw h
  obtain rfl : s'.world.bts = bts := by rw [hworld]
  obtain ⟨-, out, hout⟩ := (Java.BTS.handleBTPMessage_handles hbts).posts
  exact ⟨_, hposts out hout, .handles reach _ sn hsn m hm hterms hbts hout⟩

theorem iconService_does (hw : IconWired p s) (hsn : 0 < sn) (hm : EvmService m)
    (hterms : T.toIcon (evmWire p sn m))
    (hresponse : ∀ r, m.data = .response r → ∃ t, iconDelivery p s sn m = .ok t)
    (h : Java.BMC.handleService (iconConfig p) s p.evmAddr
      { src := some p.evmAddr, dst := some p.iconAddr, svc := some "bts", sn := some sn,
        payload := some (.service m) } "bts" = .ok s') :
    ∃ out, IconDoes p T (some (evmWire p sn m)) out s s' := by
  have hdeliver : Java.BMC.deliverMessage (iconConfig p) s
      { src := some p.evmAddr, dst := some p.iconAddr, svc := some "bts", sn := some sn,
        payload := some (.service m) } "bts" sn = iconDelivery p s sn m := by
    simp only [Java.BMC.deliverMessage, Java.BMC.getService, hw.services, Dict.val_put_self,
      Java.nonNull, ok_bind]
    rfl
  have hrefused {code : ℤ} {message : String} (hfail : ∀ t, iconDelivery p s sn m ≠ .ok t)
      (h : Java.BMC.sendError (iconConfig p) s p.evmAddr
        { src := some p.evmAddr, dst := some p.iconAddr, svc := some "bts", sn := some sn,
          payload := some (.service m) } code message = .ok s') :
      ∃ out, IconDoes p T (some (evmWire p sn m)) out s s' := by
    simp only [Java.BMC.sendError, Java.nonNull, ok_bind, if_pos hsn] at h
    obtain ⟨hworld, hposts⟩ := IconPosts.emit h
    refine ⟨_, hposts, ?_⟩
    rw [hworld]
    refine .refuses sn hsn m hm (fun r hr => ?_) _ _
    obtain ⟨t, ht⟩ := hresponse r hr
    exact hfail t ht
  simp only [Java.BMC.handleService, Java.nonNull, ok_bind, if_pos hsn.le, hdeliver] at h
  split at h
  · next t ht =>
    cases h
    exact iconDelivery_does hw hsn hm hterms ht
  all_goals
    next hfail =>
    exact hrefused (fun t ht => by cases hfail.symm.trans ht) h

theorem iconError_does (hw : IconWired p s) (hsn : 0 < sn) :
    ∃ out, IconDoes p T (some (evmError p sn code message)) out s
      (Java.BMC.handleErrorMessage (iconConfig p) s
        { src := some p.evmAddr, dst := some p.iconAddr, svc := some "bts", sn := some (-sn),
          payload := some (.error code message) } "bts" sn) := by
  have hdeliver : Java.BMC.deliverError (iconConfig p) s
      { src := some p.evmAddr, dst := some p.iconAddr, svc := some "bts", sn := some (-sn),
        payload := some (.error code message) } "bts" sn { code, msg := some message } =
      Java.BMC.callService (iconConfig p) s p.icon.bts fun reach w => iconCall (fun b =>
        Java.BTS.handleBTPError p.icon w.receivers b p.icon.bmc p.evmName sn code message) reach w := by
    simp only [Java.BMC.deliverError, Java.BMC.getService, hw.services, Dict.val_put_self,
      Java.nonNull, ok_bind]
    rfl
  -- a handler that fails leaves a report, which is none of the token service's state
  have hreported (errors : List Java.BMC.ErrorOnBTPError)
      (hfail : ∀ t, Java.BMC.callService (iconConfig p) s p.icon.bts (fun reach w => iconCall (fun b =>
        Java.BTS.handleBTPError p.icon w.receivers b p.icon.bmc p.evmName sn code message) reach w) ≠
          .ok t) :
      ∃ out, IconDoes p T (some (evmError p sn code message)) out s { s with errors } := by
    refine ⟨[], .refl, .ignores (Java.BMC.reaches (iconConfig p) s) s.world.receivers sn hsn code
      message fun b' hb' => ?_⟩
    have hsent := (Java.BTS.handleBTPError_closes hb').elim Java.BTS.Closes.sent Java.BTS.Closes.sent
    exact hfail _ (iconCall_silent (f := fun w b =>
      Java.BTS.handleBTPError p.icon w.receivers b p.icon.bmc p.evmName sn code message) hb' hsent)
  have hread : (iconConfig p).codec.errorMessage (some (.error code message)) =
      .ok { code, msg := some message } := rfl
  simp only [Java.BMC.handleErrorMessage, hread, hdeliver]
  split
  · next t ht =>
    obtain ⟨reach, bts, hbts, hworld, hposts⟩ := iconCall_ok (f := fun w b =>
      Java.BTS.handleBTPError p.icon w.receivers b p.icon.bmc p.evmName sn code message) hw ht
    obtain rfl : t.world.bts = bts := by rw [hworld]
    have hsent := (Java.BTS.handleBTPError_closes hbts).elim Java.BTS.Closes.sent Java.BTS.Closes.sent
    exact ⟨[], hposts [] (by rw [hsent, append_nil]), .fails reach _ sn hsn code message hbts hsent⟩
  all_goals
    next hfail => exact hreported _ fun t ht => by cases hfail.symm.trans ht

def IconActs (p : Parties) (T : Terms) :
    Java.BMC.St IconWorld Wire → Java.BMC.St IconWorld Wire → Prop :=
  Relation.ReflTransGen fun s s' => ∃ out, IconDoes p T none out s s'

theorem IconActs.wired (hw : IconWired p s) (h : IconActs p T s s') : IconWired p s' := by
  induction h with
  | refl => exact hw
  | tail _ hdoes ih =>
    obtain ⟨out, hdoes⟩ := hdoes
    exact hdoes.posts.wired ih

theorem iconActs_of_same (houtbox : iconOutbox p s' = iconOutbox p s) (hworld : s'.world = s.world) :
    IconActs p T s s' := by
  refine .single ⟨[], ?_, ?_⟩
  · rw [IconPosts, houtbox]
    exact .refl
  · rw [hworld]
    exact .idle

theorem iconAct_does (hw : IconWired p s) (hterms : T.icon tx) (h : iconAct p s tx = .ok s') :
    ∃ out, IconDoes p T none out s s' := by
  simp only [iconAct, bind_ok, require_ok] at h
  obtain ⟨_, houtside, h⟩ := h
  obtain ⟨reach, bts, hbts, hworld, hposts⟩ := iconCall_ok (f := fun _ b =>
    Java.BTS.step p.icon { b with links := s.links.keys.map Java.BTPAddress.toString } tx) hw h
  obtain rfl : s'.world.bts = bts := by rw [hworld]
  rw [hw.keys] at hbts
  have houtside : tx.outside := by simpa using houtside
  obtain ⟨out, hasks⟩ := Java.BTS.step_asks houtside hbts
  exact ⟨_, hposts out hasks.sent, .acts reach tx hterms houtside hbts hasks.sent⟩

theorem iconGatherFees_acts (fa : String) (svc : Option String) (hw : IconWired p s) :
    IconActs p T s (Java.BMC.gatherFees (iconConfig p) fa s svc) := by
  unfold Java.BMC.gatherFees
  split
  · exact .refl
  · split
    · next t ht =>
      obtain ⟨reach, bts, hbts, hworld, hposts⟩ := iconCall_ok (f := fun w b =>
        Java.BTS.handleFeeGathering p.icon w.receivers b p.icon.bmc fa) hw ht
      obtain rfl : t.world.bts = bts := by rw [hworld]
      obtain ⟨out, -, hasks⟩ := Java.BTS.handleFeeGathering_asks hbts
      exact .single ⟨_, hposts out hasks.sent, .gathers reach _ fa hbts hasks.sent⟩
    · exact .refl

theorem iconGatherFees_foldl_acts (fa : String) (svcs : List (Option String)) (hw : IconWired p s) :
    IconActs p T s (svcs.foldl (Java.BMC.gatherFees (iconConfig p) fa) s) := by
  induction svcs generalizing s with
  | nil => exact .refl
  | cons svc svcs ih =>
    have hone : IconActs p T s _ := iconGatherFees_acts fa svc hw
    exact hone.trans (ih (hone.wired hw))

theorem iconGatherFrom_acts (hw : IconWired p s)
    (h : Java.BMC.gatherFrom (iconConfig p) s feeAggregator = .ok s') : IconActs p T s s' := by
  simp only [Java.BMC.gatherFrom, Java.BMC.handleFeeGathering, bind_ok, pure_ok] at h
  obtain ⟨t, ⟨fa, -, _, -, svcs, -, _, -, rfl⟩, h⟩ := h
  have hgather : IconActs p T s _ := iconGatherFees_foldl_acts fa.toString svcs hw
  refine hgather.trans ?_
  simp only [Java.BMC.propagateInternal, (hgather.wired hw).keys, foldlM_cons, foldlM_nil,
    bind_ok, pure_ok, Java.BMC.sendInternal] at h
  obtain ⟨u, hu, rfl⟩ := h
  obtain ⟨hworld, hposts⟩ := IconPosts.emit hu
  refine .single ⟨_, hposts, ?_⟩
  rw [hworld]
  exact .tells _ _

theorem iconSendFeeGathering_acts (hw : IconWired p s)
    (h : Java.BMC.sendFeeGathering (iconConfig p) s sender = .ok s') : IconActs p T s s' := by
  simp only [Java.BMC.sendFeeGathering, bind_ok] at h
  obtain ⟨_, -, _, -, h⟩ := h
  split at h
  · contradiction
  · exact iconGatherFrom_acts hw h

theorem iconGatherOnTerm_acts (hw : IconWired p s)
    (h : Java.BMC.gatherOnTerm (iconConfig p) s height = .ok s') : IconActs p T s s' := by
  simp only [Java.BMC.gatherOnTerm] at h
  split at h
  · cases h
    exact .refl
  · split at h
    · simp only [bind_ok, pure_ok] at h
      obtain ⟨t, ht, rfl⟩ := h
      exact (iconGatherFrom_acts hw ht).trans (iconActs_of_same rfl rfl)
    · cases h
      exact .refl

theorem iconDistribute_acts :
    IconActs p T s (Java.BMC.distributeRelayerReward (iconConfig p) s height) := by
  unfold Java.BMC.distributeRelayerReward
  dsimp only
  split
  · split <;> exact iconActs_of_same rfl rfl
  · exact .refl

def iconApplies (p : Parties) (s : Java.BMC.St IconWorld Wire) : Wire → Bool
  | .btp _ _ _ sn (.service ⟨ty, .response r⟩) => (iconDelivery p s sn ⟨ty, .response r⟩).toBool
  | _ => true

theorem iconMessage_does (hw : IconWired p s) (hfrom : FromEvm p w) (hterms : T.toIcon w)
    (happlies : iconApplies p s w) (hdecode : (iconCodec p.icon.valueOf).btpMessage w = .ok m)
    (h : Java.BMC.handleMessage (iconConfig p) s p.evmAddr m = .ok s') :
    ∃ out, IconDoes p T (some w) out s s' := by
  cases hfrom with
  | service sn hsn m hm =>
    simp only [iconCodec, Parties.evmName, Parties.iconName, p.valueOf_evm, p.valueOf_icon, ok_bind,
      pure_ok] at hdecode
    subst hdecode
    refine iconService_does hw hsn hm hterms (fun r hr => ?_) h
    obtain ⟨ty, data⟩ := m
    obtain rfl : data = .response r := hr
    exact toBool_ok.1 happlies
  | error sn hsn code message =>
    simp only [iconCodec, Parties.evmName, Parties.iconName, p.valueOf_evm, p.valueOf_icon, ok_bind,
      pure_ok] at hdecode
    subst hdecode
    have hneg : ¬ 0 ≤ -sn := by omega
    simp only [Java.BMC.handleMessage, Java.nonNull, ok_bind, Java.BMC.handleService, if_neg hneg,
      neg_neg] at h
    rw [if_neg (by decide)] at h
    cases h
    exact iconError_does hw hsn

def iconTaking (p : Parties) (s : Java.BMC.St IconWorld Wire) (next : String) (seq : ℤ) (w : Wire) :
    Java.BMC.St IconWorld Wire :=
  { s with received := s.received ++ [(p.evmAddr, ⟨next, seq, w⟩)] }

structure IconCounts (p : Parties) (n : ℕ) (s s' : Java.BMC.St IconWorld Wire) : Prop where
  outbox : iconOutbox p s' = { iconOutbox p s with rx := (iconOutbox p s).rx + n }
  world : s'.world = s.world

theorem IconCounts.wired (hw : IconWired p s) (h : IconCounts p n s s') : IconWired p s' := by
  have hrouting : iconRouting s' = iconRouting s := congrArg Outbox.routing h.outbox
  refine ⟨?_, ?_⟩
  · rw [hrouting, h.world, hw.routing]
  · rw [h.outbox]
    exact ⟨hw.numbered.sent, hw.numbered.tx⟩

theorem FromEvm.addressed (h : FromEvm p w) :
    ∃ m, (iconCodec p.icon.valueOf).btpMessage w = .ok m ∧ m.dst = some p.iconAddr := by
  cases h <;> simp only [iconCodec, Parties.evmName, Parties.iconName, p.valueOf_evm,
    p.valueOf_icon, ok_bind] <;> exact ⟨_, rfl, rfl⟩

theorem iconEvent_does (hw : IconWired p s) (hfrom : FromEvm p w) (hterms : T.toIcon w)
    (happlies : iconApplies p (iconTaking p s next seq w) w)
    (h : Java.BMC.processEvent (iconConfig p) p.evmAddr s ⟨next, seq, w⟩ = .ok s') :
    ∃ out, IconDoes p T (some w) out (iconTaking p s next seq w) s' := by
  obtain ⟨m, hdecode, hdst⟩ := hfrom.addressed
  have hmessage : Java.BMC.handleMessage (iconConfig p) (iconTaking p s next seq w) p.evmAddr m =
      .ok s' := by
    unfold Java.BMC.processEvent at h
    rw [show (iconConfig p).codec.btpMessage w = .ok m from hdecode] at h
    dsimp only at h
    rwa [if_pos (by exact hdst)] at h
  have hw' : IconWired p (iconTaking p s next seq w) := ⟨hw.routing, hw.numbered⟩
  exact iconMessage_does hw' hfrom hterms happlies hdecode hmessage

theorem iconWriteBack_counts (hseq : seq = (iconOutbox p s).rx + n)
    (h : Java.BMC.writeBack s p.evmAddr relay seq height = .ok s') : IconCounts p n s s' := by
  simp only [Java.BMC.writeBack, bind_ok, pure_ok, getLink_ok] at h
  obtain ⟨l, hl, _, -, rfl⟩ := h
  refine ⟨?_, rfl⟩
  simp [iconOutbox, iconRouting, iconLink, Java.BMC.putLink, Dict.put, hl, hseq]

/-- The next message of the EVM chain is taken, or left for later; then fees may
be gathered. -/
theorem iconReceive_does (hw : IconWired p s) (hfrom : FromEvm p w) (hterms : T.toIcon w)
    (hseq : seq = (iconOutbox p s).rx + 1) (happlies : iconApplies p (iconTaking p s next seq w) w)
    (h : Java.BMC.handleRelayMessage (iconConfig p) s relay blockHeight p.evmName
      (.relay next seq height w) = .ok s') :
    ∃ t, (IconCounts p 0 s t ∨
        ∃ u out, IconDoes p T (some w) out (iconTaking p s next seq w) u ∧ IconCounts p 1 u t) ∧
      IconActs p T t s' := by
  have hprev : (iconConfig p).valueOf p.evmName = .ok p.evmAddr := p.valueOf_evm
  simp only [Java.BMC.handleRelayMessage, hprev, ok_bind, bind_ok, pure_ok, Prod.exists,
    getLink_ok] at h
  obtain ⟨l, hl, _, -, rps, hrps, u, n, rxHeight, hreceive, t, ht, v, hv, rfl⟩ := h
  cases hrps
  have hrx : l.rxSeq = (iconOutbox p s).rx := by simp [iconOutbox, iconLink, hl]
  have hafter (hw : IconWired p t) :
      IconActs p T t (Java.BMC.distributeRelayerReward (iconConfig p) v blockHeight) :=
    (iconGatherOnTerm_acts hw hv).trans iconDistribute_acts
  refine ⟨t, ?_⟩
  rcases Inbox.receive_next (by simp [Java.BMC.inbox, hseq, hrx]) hreceive with heq | ⟨x, hx, heq⟩
  · cases heq
    have hcounts : IconCounts p 0 s t := iconWriteBack_counts (by simp [hrx]) ht
    exact ⟨.inl hcounts, hafter (hcounts.wired hw)⟩
  · cases heq
    obtain ⟨out, hdoes⟩ := iconEvent_does hw hfrom hterms happlies hx
    have hw' : IconWired p (iconTaking p s next seq w) := ⟨hw.routing, hw.numbered⟩
    have hcounts : IconCounts p 1 u t := by
      refine iconWriteBack_counts ?_ ht
      rw [hdoes.posts.rx]
      exact congrArg (· + 1) hrx
    exact ⟨.inr ⟨u, out, hdoes, hcounts⟩, hafter (hcounts.wired (hdoes.posts.wired hw'))⟩

end IconBridge.Bridge
