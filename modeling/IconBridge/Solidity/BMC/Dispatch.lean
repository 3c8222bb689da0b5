import IconBridge.Solidity.BMC.Periphery

/-!
# Dispatch over any way to call a service

The functions of `BMCPeriphery` again, with the call of a service as a
parameter: what a called service can do to the message center is left open.
With calls that only send messages they are the functions of `Periphery`.

`Rule` collects what the handlers do themselves, so that a relation between
the states before and after a message is proved from its primitive writes.
-/

namespace IconBridge.Solidity.BMC

open Lib

variable {W B : Type}

inductive Request (B : Type)
  | message (src svc : String) (sn : Nat) (msg : B)
  | error (src svc : String) (sn code : Nat) (msg : String)
  | feeGathering (fa svc : String)

abbrev Caller (W B : Type) := St W B → Address → Request B → Outcome (St W B)

def Contracts.handle (k : Contracts W B) (addr : Address) (reach : String → Bool) (w : W) :
    Request B → Outcome (W × List (Send B))
  | .message src svc sn msg => k.handleBTPMessage addr reach w src svc sn msg
  | .error src svc sn code msg => k.handleBTPError addr reach w src svc sn code msg
  | .feeGathering fa svc => k.handleFeeGathering addr reach w fa svc

/-- A called service sends messages and does nothing else to the center. -/
def plainCall (c : Config W B) : Caller W B := fun s addr req =>
  callService c s addr fun reach w => c.contracts.handle addr reach w req

namespace Dispatch

def gatherFees (c : Config W B) (call : Caller W B) (fa : String) (s : St W B) (svc : String) :
    Outcome (St W B) :=
  let addr := s.bshServices svc
  if addr = 0 then .ok s
  else do
    require (c.contracts.isContract addr) .raw
    match call s addr (.feeGathering fa svc) with
    | .ok s => .ok s
    | .error _ => .ok s

def handleInternal (c : Config W B) (call : Caller W B) (s : St W B) (prev : String)
    (m : BMCMessage B) : Outcome (St W B) :=
  match c.codec.decodeBMCService m.message with
  | .error _ => .ok (sendError c s prev m bmcErr "ParseFailure")
  | .ok sm =>
    if sm.serviceType = "FeeGathering" then
      match c.codec.decodeGatherFeeMessage sm.payload with
      | .error _ => .ok (sendError c s prev m bmcErr "ParseFailure")
      | .ok g => g.svcs.foldlM (gatherFees c call g.fa) s
    else if sm.serviceType = "Link" then handleLink c s prev sm.payload
    else if sm.serviceType = "Unlink" then handleUnlink c s prev sm.payload
    else if sm.serviceType = "Init" then handleInit c s prev sm.payload
    else if sm.serviceType = "Sack" then .ok s
    else .error (.error "NotExistsInternalHandler")

def deliverMessage (c : Config W B) (call : Caller W B) (s : St W B) (prev : String)
    (m : BMCMessage B) (addr : Address) : Outcome (St W B) := do
  let (net, _) ← splitBTPAddress m.src
  require (c.contracts.isContract addr) .raw
  match call s addr (.message net m.svc m.sn.toNat m.message) with
  | .ok s => .ok s
  | .error (.error reason) => .ok (sendError c s prev m bshErr reason)
  | .error _ => .ok (sendError c s prev m bshErr "UnknownHandleBTPMessage")

def deliverError (c : Config W B) (call : Caller W B) (s : St W B) (m : BMCMessage B)
    (addr : Address) : Outcome (St W B) := do
  let r ← c.codec.decodeResponse m.message
  let sn ← negate m.sn
  require (c.contracts.isContract addr) .raw
  let report (svcErrCode : Nat) (svcErrMsg : String) : St W B :=
    if svcErrMsg = "" then s
    else { s with
      errors := s.errors ++ [{ svc := m.svc, sn, code := r.code, errMsg := r.message,
                               svcErrCode, svcErrMsg }] }
  match call s addr (.error m.src m.svc sn.toNat r.code r.message) with
  | .ok s => .ok s
  | .error (.error reason) => .ok (report bshErr reason)
  | .error _ => .ok (report unknownErr "UnknownHandleBTPError")

def handleService (c : Config W B) (call : Caller W B) (s : St W B) (prev : String)
    (m : BMCMessage B) : Outcome (St W B) :=
  let addr := s.bshServices m.svc
  if addr = 0 then .ok (sendError c s prev m bmcErr "NotExistsBSH")
  else if 0 ≤ m.sn then deliverMessage c call s prev m addr
  else deliverError c call s m addr

def handleMessage (c : Config W B) (call : Caller W B) (s : St W B) (prev : String)
    (m : BMCMessage B) : Outcome (St W B) :=
  if m.svc = "bmc" then handleInternal c call s prev m else handleService c call s prev m

def processEvent (c : Config W B) (call : Caller W B) (prev : String) (s : St W B)
    (ev : MessageEvent B) : Outcome (St W B) :=
  let s := { s with received := s.received ++ [(prev, ev.seq)] }
  match c.codec.decodeBMCMessage ev.message with
  | .error _ => .ok s
  | .ok m =>
    if m.dst = c.bmcBtpAddress then handleMessage c call s prev m
    else do
      let (net, _) ← splitBTPAddress m.dst
      match resolveRoute s net with
      | .ok (nextLink, _) => .ok (emitMessage s nextLink ev.message)
      | .error (.error reason) => .ok (sendError c s prev m bmcErr reason)
      | .error e => .error e

def inbox (c : Config W B) (call : Caller W B) (prev : String) :
    Inbox (St W B) (MessageEvent B) Revert where
  check ev := require (ev.nextBmc = c.bmcBtpAddress) (.error "Invalid Next BMC")
  seq ev := ev.seq
  gap := .error "InvalidSeqNumber"
  process := processEvent c call prev

/-- The counters are read before the loop and advanced after it. -/
def handleRelayMessage (c : Config W B) (call : Caller W B) (s : St W B) (sender : Address)
    (prev : String) (msg : B) : Outcome (St W B) := do
  require (sender ∈ (s.links prev).relays) (.error "Unauthorized")
  let linkRxSeq := (s.links prev).rxSeq
  let linkRxHeight := (s.links prev).rxHeight
  let rps ← c.codec.decodeReceiptProofs msg
  let (s, rxSeq, rxHeight) ← (inbox c call prev).receive (s, linkRxSeq, linkRxHeight)
    (rps.map fun rp => { height := rp.height, events := rp.events })
  let s := updateLinkRxSeq s prev (rxSeq - linkRxSeq)
  let s := updateRelayStats s sender 0 (rxSeq - linkRxSeq)
  return updateLinkRxHeight s prev (rxHeight - linkRxHeight)

theorem processEvent_plainCall (c : Config W B) (prev : String) :
    processEvent c (plainCall c) prev = BMC.processEvent c prev := rfl

theorem handleMessage_plainCall (c : Config W B) :
    handleMessage c (plainCall c) = BMC.handleMessage c := rfl

theorem handleRelayMessage_plainCall (c : Config W B) :
    handleRelayMessage c (plainCall c) = BMC.handleRelayMessage c := rfl

end Dispatch

def pushReachable (s : St W B) (prev net target : String) : St W B :=
  let l := s.links prev
  { setLink s prev { l with reachable := l.reachable ++ [target] } with
    getLinkFromReachableNet := Function.update s.getLinkFromReachableNet net (prev, target) }

def dropReachable (s : St W B) (prev net : String) (i : Nat) : St W B :=
  let l := s.links prev
  { setLink s prev
      { l with reachable := (l.reachable.set i (l.reachable.getLastD "")).dropLast } with
    getLinkFromReachableNet := Function.update s.getLinkFromReachableNet net ("", "") }

/-- A relation that every write of a handler of messages from `prev`
establishes. -/
structure Rule (prev : String) (call : Caller W B) (R : St W B → St W B → Prop) : Prop where
  refl : ∀ s, R s s
  trans : ∀ {s t u}, R s t → R t u → R s u
  emit : ∀ s next msg, R s (emitMessage s next msg)
  report : ∀ s errors, R s { s with errors }
  call : ∀ {s addr req s'}, call s addr req = .ok s' → R s s'
  push : ∀ s {target net a}, splitBTPAddress target = .ok (net, a) →
    R s (pushReachable s prev net target)
  drop : ∀ s {i target net a}, (s.links prev).reachable[i]? = some target →
    splitBTPAddress target = .ok (net, a) → R s (dropReachable s prev net i)

namespace Rule

variable {prev : String} {call : Caller W B} {R : St W B → St W B → Prop} {c : Config W B}
  {s s' : St W B} (hR : Rule prev call R)
include hR

theorem foldlM {f : St W B → α → Outcome (St W B)} {xs : List α}
    (hf : ∀ s x s', f s x = .ok s' → R s s') (h : xs.foldlM f s = .ok s') : R s s' :=
  foldlM_ok (P := R s) (fun _ x _ _ ht hx => hR.trans ht (hf _ x _ hx)) (hR.refl s) h

theorem sendError : R s (sendError c s prev m code message) := by
  unfold BMC.sendError
  split
  · exact hR.emit _ _ _
  · exact hR.refl s

theorem updateLinkReachable (h : updateLinkReachable s prev links = .ok s') : R s s' := by
  refine hR.foldlM (fun t target t' ht => ?_) h
  simp only [bind_ok, pure_ok, Prod.exists] at ht
  obtain ⟨net, a, hsplit, rfl⟩ := ht
  exact hR.push t hsplit

theorem deleteLinkReachable (h : deleteLinkReachable s prev i = .ok s') : R s s' := by
  unfold BMC.deleteLinkReachable at h
  dsimp only at h
  split at h
  · contradiction
  · next hi =>
    simp only [bind_ok, pure_ok, Prod.exists] at h
    obtain ⟨net, a, hsplit, rfl⟩ := h
    exact hR.drop s hi hsplit

theorem gatherFees (h : Dispatch.gatherFees c call fa s svc = .ok s') : R s s' := by
  unfold Dispatch.gatherFees at h
  dsimp only at h
  split at h
  · cases h; exact hR.refl s
  · simp only [bind_ok] at h
    obtain ⟨_, -, h⟩ := h
    split at h
    · next ht => cases h; exact hR.call ht
    · cases h; exact hR.refl s

theorem handleInternal (h : Dispatch.handleInternal c call s prev m = .ok s') : R s s' := by
  unfold Dispatch.handleInternal at h
  split at h
  · cases h; exact hR.sendError
  repeat' split at h
  · cases h; exact hR.sendError
  · exact hR.foldlM (fun _ _ _ => hR.gatherFees) h
  · simp only [handleLink, bind_ok] at h
    obtain ⟨target, -, h⟩ := h
    split at h
    · exact hR.updateLinkReachable h
    · cases h; exact hR.refl s
  · simp only [handleUnlink, bind_ok] at h
    obtain ⟨target, -, h⟩ := h
    split at h
    · refine hR.foldlM (fun t e t' ht => ?_) h
      split at ht
      · exact hR.deleteLinkReachable ht
      · cases ht; exact hR.refl t
    · cases h; exact hR.refl s
  · simp only [handleInit, bind_ok] at h
    obtain ⟨links, -, h⟩ := h
    exact hR.updateLinkReachable h
  · cases h; exact hR.refl s
  · contradiction

theorem deliverMessage (h : Dispatch.deliverMessage c call s prev m addr = .ok s') : R s s' := by
  simp only [Dispatch.deliverMessage, bind_ok, Prod.exists] at h
  obtain ⟨net, _, -, _, -, h⟩ := h
  split at h
  · next ht => cases h; exact hR.call ht
  · cases h; exact hR.sendError
  · cases h; exact hR.sendError

theorem deliverError (h : Dispatch.deliverError c call s m addr = .ok s') : R s s' := by
  simp only [Dispatch.deliverError, bind_ok] at h
  obtain ⟨r, -, sn, -, _, -, h⟩ := h
  split at h
  · next ht => cases h; exact hR.call ht
  all_goals
    cases h
    split
    · exact hR.refl s
    · exact hR.report s _

theorem handleMessage (h : Dispatch.handleMessage c call s prev m = .ok s') : R s s' := by
  unfold Dispatch.handleMessage at h
  split at h
  · exact hR.handleInternal h
  · unfold Dispatch.handleService at h
    dsimp only at h
    repeat' split at h
    · cases h; exact hR.sendError
    · exact hR.deliverMessage h
    · exact hR.deliverError h

theorem processEvent (h : Dispatch.processEvent c call prev s ev = .ok s') :
    R { s with received := s.received ++ [(prev, ev.seq)] } s' := by
  unfold Dispatch.processEvent at h
  dsimp only at h
  split at h
  · cases h; exact hR.refl _
  · split at h
    · exact hR.handleMessage h
    · simp only [bind_ok, Prod.exists] at h
      obtain ⟨net, _, -, h⟩ := h
      split at h
      · cases h; exact hR.emit _ _ _
      · cases h; exact hR.sendError
      · contradiction

end Rule

/-- A relation kept by sending and by writes of the world is kept by a service
that only sends. -/
theorem plainCall_rule {R : St W B → St W B → Prop} {c : Config W B} {s s' : St W B}
    (trans : ∀ {s t u}, R s t → R t u → R s u) (emit : ∀ s next msg, R s (emitMessage s next msg))
    (world : ∀ s w, R s { s with world := w }) (h : callService c s addr f = .ok s') : R s s' := by
  simp only [callService, bind_ok, Prod.exists] at h
  obtain ⟨w, sends, -, h⟩ := h
  refine foldlM_ok (P := R s) (fun t m t' _ ht hm => trans ht ?_) (world s w) h
  simp only [sendMessage, bind_ok, pure_ok, Prod.exists] at hm
  obtain ⟨_, -, next, dst, -, rfl⟩ := hm
  exact emit _ _ _

end IconBridge.Solidity.BMC
