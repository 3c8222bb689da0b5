import IconBridge.Lib.Dict
import IconBridge.Solidity.BMC.Routing

/-!
# Relay messages that are not refused

A revert while one event is handled undoes the whole relay message, and the
event stays the next one of its link. `Handled` names the messages that do not
revert: what is not read under a `try` has to be readable.
-/

namespace IconBridge.Solidity.BMC

open Lib Function List

variable {W B : Type} {c : Config W B} {e : InternalCodec B} {s s' t : St W B} {prev : String}

def Readable (addr : String) : Prop := ∃ net, NetOf addr net

/-- An internal message of a known type whose payload can be read. A target
that is listed twice cannot be unlinked. -/
def InternalHandled (c : Config W B) (prev : String) (s : St W B) (sm : BMCService B) : Prop :=
  (sm.serviceType ∈ ["FeeGathering", "Link", "Unlink", "Init", "Sack"]) ∧
  (sm.serviceType = "Link" →
    ∃ target, c.codec.decodePropagateMessage sm.payload = .ok target ∧ Readable target) ∧
  (sm.serviceType = "Unlink" →
    ∃ target, c.codec.decodePropagateMessage sm.payload = .ok target ∧
      (s.links prev).reachable.count target ≤ 1) ∧
  (sm.serviceType = "Init" →
    ∃ links, c.codec.decodeInitMessage sm.payload = .ok links ∧ ∀ l ∈ links, Readable l)

/-- A message for a service: who sent it, or the error it carries, can be
read. -/
def ServiceHandled (c : Config W B) (m : BMCMessage B) : Prop :=
  (0 ≤ m.sn → Readable m.src) ∧
  (m.sn < 0 → m.sn ≠ -2 ^ 255 ∧ ∃ r, c.codec.decodeResponse m.message = .ok r)

/-- A message that can be read at all: where it goes can be read, and what is
asked of this center or its services too. -/
def Handled (c : Config W B) (prev : String) (s : St W B) (ev : MessageEvent B) : Prop :=
  ∀ m, c.codec.decodeBMCMessage ev.message = .ok m →
    (m.dst ≠ c.bmcBtpAddress → Readable m.dst) ∧
    (m.dst = c.bmcBtpAddress → m.svc = "bmc" →
      ∀ sm, c.codec.decodeBMCService m.message = .ok sm → InternalHandled c prev s sm) ∧
    (m.dst = c.bmcBtpAddress → m.svc ≠ "bmc" → s.bshServices m.svc ≠ 0 → ServiceHandled c m)

/-- Every listed network can be read, and every registered service has code. -/
structure Sound (c : Config W B) (s : St W B) : Prop where
  reachable : ∀ l, ∀ target ∈ (s.links l).reachable, Readable target
  services : ∀ svc, s.bshServices svc ≠ 0 → c.contracts.isContract (s.bshServices svc) = true

theorem Sound.extends {P : String → Prop} (h : Sound c s) (he : Extends P s s') : Sound c s' := by
  refine ⟨fun l target ht => ?_, fun svc => ?_⟩
  · rcases he.reachable l target ht with ht | ht
    · exact h.reachable l target ht
    · exact ht
  · rw [he.services]
    exact h.services svc

theorem gatherFees_succeeds (h : Sound c s) (fa svc : String) :
    ∃ s', gatherFees c fa s svc = .ok s' ∧ Sound c s' := by
  unfold gatherFees
  dsimp only
  split
  · exact ⟨s, rfl, h⟩
  · next hne =>
    rw [h.services svc hne, require_true, ok_bind]
    split
    · next ht =>
      have hext : Extends (fun _ => False) _ _ := callService_extends ht
      exact ⟨_, rfl, h.extends hext⟩
    · exact ⟨s, rfl, h⟩

theorem gatherFees_all_succeed {svcs : List String} (h : Sound c s) :
    ∃ s', svcs.foldlM (gatherFees c fa) s = .ok s' := by
  induction svcs generalizing s with
  | nil => exact ⟨s, rfl⟩
  | cons svc svcs ih =>
    obtain ⟨t, ht, hsound⟩ := gatherFees_succeeds h fa svc
    rw [foldlM_cons, ht]
    exact ih hsound

theorem updateLinkReachable_succeeds {links : List String} (h : ∀ l ∈ links, Readable l) :
    ∃ s', updateLinkReachable s prev links = .ok s' := by
  induction links generalizing s with
  | nil => exact ⟨s, rfl⟩
  | cons l links ih =>
    obtain ⟨net, account, hsplit⟩ := h l mem_cons_self
    rw [updateLinkReachable, foldlM_cons, hsplit]
    exact ih fun k hk => h k (mem_cons_of_mem _ hk)

/-- The loop of `Unlink` from some entry on; what is in front did not match. -/
def unlinkFrom (s : St W B) (prev target : String) (front rest : List String) : Outcome (St W B) :=
  (rest.zipIdx front.length).foldlM (fun s e =>
    if target = e.1 then deleteLinkReachable s prev e.2 else .ok s) s

theorem unlinkFrom_of_not_mem (front : List String) (h : target ∉ rest) :
    unlinkFrom s prev target front rest = .ok s := by
  induction rest generalizing front with
  | nil => rfl
  | cons x rest ih =>
    have hx : target ≠ x := ne_of_not_mem_cons h
    rw [unlinkFrom, zipIdx_cons, foldlM_cons, if_neg hx]
    simpa [unlinkFrom] using ih (front ++ [x]) (not_mem_of_not_mem_cons h)

/-- An entry that is listed once is removed, and the loop does not revert. -/
theorem unlinkFrom_erases (front : List String) (hlist : (s.links prev).reachable = front ++ rest)
    (hread : ∀ x ∈ rest, Readable x) (hcount : rest.count target ≤ 1) :
    ∃ s', unlinkFrom s prev target front rest = .ok s' ∧
      (s'.links prev).isConnected = (s.links prev).isConnected ∧
      (s'.links prev).reachable.Perm (front ++ rest.erase target) := by
  induction rest generalizing front with
  | nil => exact ⟨s, rfl, rfl, by rw [hlist, erase_nil]⟩
  | cons x rest ih =>
    rw [unlinkFrom, zipIdx_cons, foldlM_cons]
    by_cases hx : target = x
    · subst hx
      obtain ⟨net, account, hsplit⟩ := hread target mem_cons_self
      have hentry : (s.links prev).reachable[front.length]? = some target := by
        rw [hlist, getElem?_append_right le_rfl, Nat.sub_self, getElem?_cons_zero]
      have hdrop : deleteLinkReachable s prev front.length =
          .ok (dropReachable s prev net front.length) := by
        simp only [deleteLinkReachable, hentry, hsplit]
        rfl
      rw [if_pos rfl, hdrop]
      -- nothing else matches, so the shifted indices are not used
      have hrest : target ∉ rest := by
        rw [count_cons_self] at hcount
        exact count_eq_zero.1 (by omega)
      refine ⟨dropReachable s prev net front.length, ?_, ?_, ?_⟩
      · simpa [unlinkFrom] using unlinkFrom_of_not_mem (front ++ [target]) hrest
      · simp [dropReachable, setLink]
      · rw [erase_cons_head]
        simpa only [dropReachable, setLink, update_self, hlist] using
          perm_of_last_moved front target rest ""
    · rw [if_neg hx, erase_cons_tail (by simpa using Ne.symm hx)]
      have hcount' : rest.count target ≤ 1 := by
        rwa [count_cons_of_ne (Ne.symm hx)] at hcount
      simpa [unlinkFrom] using ih (front ++ [x]) (by simpa using hlist)
        (fun y hy => hread y (mem_cons_of_mem _ hy)) hcount'

theorem handleInternal_succeeds (h : Sound c s)
    (hm : ∀ sm, c.codec.decodeBMCService m.message = .ok sm → InternalHandled c prev s sm) :
    ∃ s', handleInternal c s prev m = .ok s' := by
  unfold handleInternal
  split
  · exact ⟨_, rfl⟩
  next sm hsm =>
  obtain ⟨htype, hlink, hunlink, hinit⟩ := hm sm hsm
  by_cases hfee : sm.serviceType = "FeeGathering"
  · rw [if_pos hfee]
    split
    · exact ⟨_, rfl⟩
    · exact gatherFees_all_succeed h
  rw [if_neg hfee]
  by_cases htl : sm.serviceType = "Link"
  · obtain ⟨target, hdec, hread⟩ := hlink htl
    rw [if_pos htl, handleLink, hdec, ok_bind]
    dsimp only
    split
    · exact updateLinkReachable_succeeds (by simpa using hread)
    · exact ⟨s, rfl⟩
  rw [if_neg htl]
  by_cases htu : sm.serviceType = "Unlink"
  · obtain ⟨target, hdec, hcount⟩ := hunlink htu
    rw [if_pos htu, handleUnlink, hdec, ok_bind]
    dsimp only
    split
    · obtain ⟨s', hs', -⟩ := unlinkFrom_erases [] rfl (h.reachable prev) hcount
      exact ⟨s', hs'⟩
    · exact ⟨s, rfl⟩
  rw [if_neg htu]
  by_cases hti : sm.serviceType = "Init"
  · obtain ⟨links, hdec, hread⟩ := hinit hti
    rw [if_pos hti, handleInit, hdec]
    exact updateLinkReachable_succeeds hread
  · have hsack : sm.serviceType = "Sack" := by simpa [hfee, htl, htu, hti] using htype
    rw [if_neg hti, if_pos hsack]
    exact ⟨s, rfl⟩

theorem handleService_succeeds (h : Sound c s)
    (hm : s.bshServices m.svc ≠ 0 → ServiceHandled c m) : ∃ s', handleService c s prev m = .ok s' := by
  unfold handleService
  dsimp only
  split
  · exact ⟨_, rfl⟩
  next hne =>
  obtain ⟨hmessage, herror⟩ := hm hne
  split
  · next hsn =>
    obtain ⟨net, account, hsplit⟩ := hmessage hsn
    simp only [deliverMessage, hsplit, h.services _ hne, require_true, ok_bind]
    -- a failing handler is caught, whatever it fails with
    split <;> exact ⟨_, rfl⟩
  · next hsn =>
    obtain ⟨hleast, r, hr⟩ := herror (not_le.1 hsn)
    simp only [deliverError, hr, negate, if_neg hleast, h.services _ hne, require_true, ok_bind]
    split <;> exact ⟨_, rfl⟩

theorem resolveRoute_error (h : resolveRoute s net = .error x) : ∃ reason, x = .error reason := by
  unfold resolveRoute at h
  dsimp only at h
  repeat' split at h
  all_goals cases h
  exact ⟨_, rfl⟩

theorem processEvent_succeeds (h : Sound c s) (hev : Handled c prev s ev) :
    ∃ s', processEvent c prev s ev = .ok s' ∧ Sound c s' := by
  suffices hok : ∃ s', processEvent c prev s ev = .ok s' by
    obtain ⟨s', hs'⟩ := hok
    exact ⟨s', hs', h.extends (processEvent_extends (P := (· = prev)) rfl hs')⟩
  have hrec : Sound c { s with received := s.received ++ [(prev, ev.seq)] } := ⟨h.reachable, h.services⟩
  unfold processEvent
  dsimp only
  split
  · exact ⟨_, rfl⟩
  next m hm =>
  obtain ⟨hdst, hinternal, hservice⟩ := hev m hm
  split
  · next hhere =>
    unfold handleMessage
    split
    · next hbmc => exact handleInternal_succeeds hrec (hinternal hhere hbmc)
    · next hsvc => exact handleService_succeeds hrec (hservice hhere hsvc)
  · next helsewhere =>
    obtain ⟨net, account, hsplit⟩ := hdst helsewhere
    rw [hsplit, ok_bind]
    dsimp only
    split
    · exact ⟨_, rfl⟩
    · exact ⟨_, rfl⟩
    · next x hne hx =>
      obtain ⟨reason, rfl⟩ := resolveRoute_error hx
      exact (hne reason rfl).elim

theorem handleRelayMessage_succeeds (h : Sound c s) (hsender : sender ∈ (s.links prev).relays)
    (hmsg : c.codec.decodeReceiptProofs msg = .ok rps)
    (hcont : (inbox c prev).Continues (s.links prev).rxSeq (s.links prev).rxHeight
      (rps.map fun rp => { height := rp.height, events := rp.events }))
    (hmeets : (inbox c prev).Meets (Handled c prev)
      (s, (s.links prev).rxSeq, (s.links prev).rxHeight)
      (rps.map fun rp => { height := rp.height, events := rp.events })) :
    ∃ s', handleRelayMessage c s sender prev msg = .ok s' := by
  obtain ⟨⟨t, n, height⟩, ht, -⟩ := Inbox.receive_succeeds (I := Sound c) (A := Handled c prev)
    (fun _ _ hs hev => processEvent_succeeds hs hev) h hcont hmeets
  simp only [handleRelayMessage, decide_eq_true hsender, require_true, hmsg, ht, ok_bind]
  exact ⟨_, rfl⟩

def Listed (s : St W B) : Prop := ∀ l, ∀ target ∈ (s.links l).reachable, Readable target

theorem Listed.fresh (world : W) : Listed (Management.fresh world : Management W B).toSt :=
  fun _ _ ht => absurd ht not_mem_nil

theorem Listed.extends {P : String → Prop} (h : Listed s) (he : Extends P s s') : Listed s' :=
  fun l target ht => (he.reachable l target ht).elim (h l target) id

theorem Listed.of_links (h : Listed s) (hl : s'.links = update s.links name l)
    (hr : ∀ target ∈ l.reachable, target ∈ (s.links name).reachable) : Listed s' := by
  intro k target ht
  rw [hl, update_apply] at ht
  split at ht
  · exact h name target (hr target ht)
  · exact h k target ht

theorem step_listed (h : Listed s) (hstep : step c s tx = .ok s') : Listed s' := by
  cases tx with
  | handleRelayMessage sender prev msg => exact h.extends (handleRelayMessage_extends hstep).2
  | addRelay sender link addrs =>
    simp only [step, addRelay, bind_ok, pure_ok] at hstep
    obtain ⟨_, -, _, -, rfl⟩ := hstep
    exact h.of_links rfl fun _ => id
  | removeRelay sender link addr =>
    simp only [step, removeRelay, bind_ok, pure_ok] at hstep
    obtain ⟨_, -, _, -, rfl⟩ := hstep
    exact h.of_links rfl fun _ => id
  | service addr f => exact h.extends (P := fun _ => False) (callService_extends hstep)

theorem manage_listed {m m' : Management W B} (h : Listed m.toSt) (hm : manage c e m tx = .ok m') :
    Listed m'.toSt := by
  cases tx with
  | periphery tx =>
    simp only [manage, bind_ok, pure_ok] at hm
    obtain ⟨t, ht, rfl⟩ := hm
    exact step_listed h ht
  | addLink sender link =>
    simp only [manage, addLink, bind_ok, pure_ok, Prod.exists] at hm
    obtain ⟨_, -, net, account, -, _, -, t, hprop, u, hinit, rfl⟩ := hm
    have hnew : Listed (setLink m.toSt link { isConnected := true }) :=
      h.of_links rfl (by simp)
    have hprop' : Listed t := hnew.extends (P := fun _ => False) (propagateInternal_extends hprop)
    have hentry : Listed { t with getLinkFromNet := update t.getLinkFromNet net link } := hprop'
    exact hentry.extends (P := fun _ => False) (sendInternal_extends hinit)
  | removeLink sender link =>
    simp only [manage, removeLink, bind_ok, pure_ok, Prod.exists] at hm
    obtain ⟨_, -, _, -, net, account, -, t, hprop, rfl⟩ := hm
    have hgone : Listed { setLink m.toSt link {} with
        getLinkFromNet := update m.getLinkFromNet net "" } := h.of_links rfl (by simp)
    exact hgone.extends (P := fun _ => False) (propagateInternal_extends hprop)
  | setLinkRxHeight sender link height =>
    simp only [manage, setLinkRxHeight, bind_ok, pure_ok] at hm
    obtain ⟨_, -, _, -, _, -, rfl⟩ := hm
    exact h.of_links rfl fun _ => id
  | addRoute sender dst link =>
    simp only [manage, addRoute, bind_ok, pure_ok, Prod.exists] at hm
    obtain ⟨_, -, _, -, _, _, -, _, _, -, rfl⟩ := hm
    exact h
  | removeRoute sender dst =>
    simp only [manage, removeRoute, bind_ok, pure_ok, Prod.exists] at hm
    obtain ⟨_, -, _, -, _, _, -, rfl⟩ := hm
    exact h
  | addService sender svc addr =>
    simp only [manage, addService, bind_ok, pure_ok] at hm
    obtain ⟨_, -, _, -, _, -, rfl⟩ := hm
    exact h
  | removeService sender svc =>
    simp only [manage, removeService, bind_ok, pure_ok] at hm
    obtain ⟨_, -, _, -, rfl⟩ := hm
    exact h

inductive Letter
  | receipts (rps : List (ReceiptProof Letter))
  | message (m : BMCMessage Letter)
  | service (serviceType : String) (payload : Letter)
  | links (names : List String)
  | noise

def letterCodec : Codec Letter where
  decodeReceiptProofs
    | .receipts rps => .ok rps
    | _ => .error .raw
  decodeBMCMessage
    | .message m => .ok m
    | _ => .error .raw
  decodeBMCService
    | .service serviceType payload => .ok { serviceType, payload }
    | _ => .error .raw
  decodeGatherFeeMessage _ := .error .raw
  decodePropagateMessage
    | .links (name :: _) => .ok name
    | _ => .error .raw
  decodeInitMessage
    | .links names => .ok names
    | _ => .error .raw
  decodeResponse _ := .error .raw
  encodeBMCMessage m := .message m
  encodeResponse _ := .noise

def letterInternal : InternalCodec Letter where
  encodePropagate serviceType link := .service serviceType (.links [link])
  encodeLinks serviceType links := .service serviceType (.links links)

/-- The service behind address 5 reverts on everything. -/
def letterConfig : Config Unit Letter where
  bmcBtpAddress := "btp://0x61.bsc/0x01"
  bmcManagement := 2
  isOwner a := a = 1
  codec := letterCodec
  contracts :=
    { isContract := fun a => a = 5
      handleBTPMessage := fun _ _ _ _ _ _ _ => .error .raw
      handleBTPError := fun _ _ _ _ _ _ _ _ => .error .raw
      handleFeeGathering := fun _ _ _ _ _ => .error .raw }

def letterState : St Unit Letter :=
  (run (manage letterConfig letterInternal) (Management.fresh ())
    [.addLink 1 "btp://0x1.icon/cx02", .periphery (.addRelay 1 "btp://0x1.icon/cx02" [7]),
     .addService 1 "bts" 5]).toSt

def letterReceipt (letters : List Letter) : ReceiptProof Letter where
  index := 0
  height := 5
  events := letters.mapIdx fun i message => { nextBmc := "btp://0x61.bsc/0x01", seq := i + 1, message }

def letter (src svc : String) (sn : Int) (message : Letter) : Letter :=
  .message { src, dst := "btp://0x61.bsc/0x01", svc, sn, message }

end IconBridge.Solidity.BMC
