import IconBridge.Solidity.BMC.Acceptance

/-!
# Calls back into the message center

A service that pays native coin hands control to the receiver, who may call
every external function of `BMCPeriphery` before the service goes on. The
number of the last event is read before the events of a relay message are
dispatched and advanced after them, so a relay that gets control in between
sees the old number.
-/

namespace IconBridge.Solidity.BMC

open Lib Function List

variable {W B : Type} {c : Config W B} {s s' t : St W B} {next prev : String}

inductive Call (B : Type)
  | handleRelayMessage (prev : String) (msg : B)
  | sendMessage (m : Send B)

/-- What a called contract does: it finishes, or an account that runs code on
its behalf calls the message center and it goes on with what it then sees. -/
inductive Prog (W B : Type)
  | done (r : Outcome W)
  | call (w : W) (sender : Address) (f : Call B) (k : Outcome (St W B) → Prog W B)

abbrev Services (W B : Type) := Address → Request B → W → Prog W B

abbrev External (W B : Type) := St W B → Address → Call B → Outcome (St W B)

/-- A call that fails leaves the state it was made in. -/
def interpret (ext : External W B) : St W B → Prog W B → Outcome (St W B)
  | s, .done r => r.map fun world => { s with world }
  | s, .call world sender f k =>
    match ext { s with world } sender f with
    | .ok t => interpret ext t (k (.ok t))
    | .error x => interpret ext { s with world } (k (.error x))

/-- Calls nest up to a depth; a deeper one fails. -/
def external (c : Config W B) (services : Services W B) : Nat → External W B
  | 0, _, _, _ => .error .raw
  | depth + 1, s, sender, .handleRelayMessage prev msg =>
    Dispatch.handleRelayMessage c
      (fun s addr req => interpret (external c services depth) s (services addr req s.world))
      s sender prev msg
  | _ + 1, s, sender, .sendMessage m => sendMessage c sender s m

inductive OuterTx (W B : Type)
  | call (sender : Address) (f : Call B)
  /-- A call into some contract, which may call the message center. -/
  | contract (f : W → Prog W B)
  | addRelay (sender : Address) (link : String) (addrs : List Address)
  | removeRelay (sender : Address) (link : String) (addr : Address)

def outerStep (c : Config W B) (services : Services W B) (depth : Nat) (s : St W B) :
    OuterTx W B → Outcome (St W B)
  | .call sender f => external c services depth s sender f
  | .contract f => interpret (external c services depth) s (f s.world)
  | .addRelay sender link addrs => addRelay c s sender link addrs
  | .removeRelay sender link addr => removeRelay c s sender link addr

def Prog.ActsBy (A : Address → Prop) : Prog W B → Prop
  | .done _ => True
  | .call _ sender _ k => A sender ∧ ∀ r, (k r).ActsBy A

/-- None of these accounts is a relay of the link. -/
def Quiet (A : Address → Prop) (l : String) (s : St W B) : Prop :=
  ∀ a ∈ (s.links l).relays, ¬ A a

structure KeepsLink (l : String) (s s' : St W B) : Prop where
  rxSeq : (s'.links l).rxSeq = (s.links l).rxSeq
  relays : (s'.links l).relays = (s.links l).relays
  received : receivedOn s' l = receivedOn s l

/-- The receiving side of a link whose relays do not get control is kept. -/
def Calm (A : Address → Prop) (l : String) (s s' : St W B) : Prop :=
  Quiet A l s → KeepsLink l s s'

variable {A : Address → Prop} {l : String}

theorem KeepsLink.quiet (h : KeepsLink l s s') (hq : Quiet A l s) : Quiet A l s' := by
  unfold Quiet
  rwa [h.relays]

theorem Calm.trans (h1 : Calm A l s t) (h2 : Calm A l t s') : Calm A l s s' := by
  intro hq
  have hk1 := h1 hq
  have hk2 := h2 (hk1.quiet hq)
  exact ⟨hk2.rxSeq.trans hk1.rxSeq, hk2.relays.trans hk1.relays, hk2.received.trans hk1.received⟩

theorem Calm.of_links (hl : s'.links = update s.links name k)
    (hseq : k.rxSeq = (s.links name).rxSeq) (hrelays : k.relays = (s.links name).relays)
    (hr : s'.received = s.received) : Calm A l s s' := by
  intro _
  refine ⟨?_, ?_, by rw [receivedOn, hr]; rfl⟩ <;> rw [hl, update_apply] <;> split
  · next h => rw [hseq, h]
  · rfl
  · next h => rw [hrelays, h]
  · rfl

theorem emitMessage_calm : Calm A l s (emitMessage s next msg) := .of_links rfl rfl rfl rfl

theorem calm_rule {call : Caller W B} (prev : String)
    (hcall : ∀ s addr req s', call s addr req = .ok s' → Calm A l s s') :
    Rule prev call (Calm A l) where
  refl _ _ := ⟨rfl, rfl, rfl⟩
  trans := .trans
  emit _ _ _ := emitMessage_calm
  report _ _ _ := ⟨rfl, rfl, rfl⟩
  call := hcall _ _ _ _
  push := fun _ _ _ _ _ => .of_links rfl rfl rfl rfl
  drop := fun _ _ _ _ _ _ _ => .of_links rfl rfl rfl rfl

theorem interpret_calm {ext : External W B} {p : Prog W B}
    (hext : ∀ s a f s', A a → ext s a f = .ok s' → Calm A l s s')
    (hp : p.ActsBy A) (h : interpret ext s p = .ok s') : Calm A l s s' := by
  induction p generalizing s with
  | done r =>
    cases r with
    | error x => exact nomatch h
    | ok w =>
      cases h
      exact fun _ => ⟨rfl, rfl, rfl⟩
  | call w sender f k ih =>
    obtain ⟨hsender, hk⟩ := hp
    have hworld : Calm A l s { s with world := w } := fun _ => ⟨rfl, rfl, rfl⟩
    rw [interpret] at h
    split at h
    · next t ht => exact hworld.trans ((hext _ _ _ _ hsender ht).trans (ih _ (hk _) h))
    · exact hworld.trans (ih _ (hk _) h)

theorem processEvents_calm {call : Caller W B} {es : List (MessageEvent B)}
    (hcall : ∀ s addr req s', call s addr req = .ok s' → Calm A l s s') (hq : Quiet A l s)
    (h : es.foldlM (Dispatch.processEvent c call prev) s = .ok s') :
    (s'.links l).rxSeq = (s.links l).rxSeq ∧ (s'.links l).relays = (s.links l).relays ∧
      receivedOn s' l = receivedOn s l ++ if prev = l then es.map (·.seq) else [] := by
  induction es generalizing s with
  | nil =>
    cases h
    simp
  | cons ev es ih =>
    simp only [foldlM_cons, bind_ok] at h
    obtain ⟨t, ht, h⟩ := h
    have hev := (calm_rule prev hcall).processEvent ht hq
    obtain ⟨hseq, hrelays, hrec⟩ := ih (hev.quiet hq) h
    have hone : receivedOn { s with received := s.received ++ [(prev, ev.seq)] } l =
        receivedOn s l ++ if prev = l then [ev.seq] else [] := receivedOn_append rfl
    refine ⟨hseq.trans hev.rxSeq, hrelays.trans hev.relays, ?_⟩
    rw [hrec, hev.received, hone]
    split <;> simp

structure Receives (l : String) (s s' : St W B) : Prop where
  relays : (s'.links l).relays = (s.links l).relays
  counted : ∃ n, (s'.links l).rxSeq = (s.links l).rxSeq + n ∧
    receivedOn s' l = receivedOn s l ++ List.range' ((s.links l).rxSeq + 1) n

theorem KeepsLink.receives (h : KeepsLink l s s') : Receives l s s' :=
  ⟨h.relays, 0, h.rxSeq, by simpa using h.received⟩

theorem Receives.trans (h1 : Receives l s t) (h2 : Receives l t s') : Receives l s s' := by
  obtain ⟨hrel1, n, hseq1, hrec1⟩ := h1
  obtain ⟨hrel2, m, hseq2, hrec2⟩ := h2
  refine ⟨hrel2.trans hrel1, n + m, by rw [hseq2, hseq1, Nat.add_assoc], ?_⟩
  rw [hrec2, hrec1, hseq1, append_assoc, Nat.add_right_comm, range'_append_1]

/-- A relay message whose services are calm records the next events of its own
link and keeps every other. -/
theorem handleRelayMessage_receives {call : Caller W B}
    (hcall : ∀ s addr req s', call s addr req = .ok s' → Calm A l s s') (hq : Quiet A l s)
    (h : Dispatch.handleRelayMessage c call s sender prev msg = .ok s') :
    sender ∈ (s.links prev).relays ∧ Receives l s s' ∧ (prev ≠ l → KeepsLink l s s') := by
  simp only [Dispatch.handleRelayMessage, bind_ok, require_ok, pure_ok, Prod.exists,
    decide_eq_true_eq] at h
  obtain ⟨_, hsender, rps, -, t, rxSeq, rxHeight, hrecv, rfl⟩ := h
  obtain ⟨⟨es, hes, -, hfold, hn⟩, -⟩ := Inbox.receive_ok hrecv
  obtain ⟨hseq, hrelays, hrec⟩ := processEvents_calm hcall hq hfold
  dsimp only at hes hn hseq hrelays hrec
  refine ⟨hsender, ?_⟩
  by_cases hprev : prev = l
  · subst hprev
    refine ⟨⟨?_, es.length, ?_, ?_⟩, fun h => absurd rfl h⟩
    · simpa [updateLinkRxHeight, updateRelayStats, updateLinkRxSeq, setLink] using hrelays
    · simp only [updateLinkRxHeight, updateRelayStats, updateLinkRxSeq, setLink, update_self]
      omega
    · have hseqs : es.map (·.seq) = List.range' ((s.links prev).rxSeq + 1) es.length :=
        (hes.map_seq Int.toNat).trans (by simp)
      rw [if_pos rfl, hseqs] at hrec
      exact hrec
  · have hkeeps : KeepsLink l s (updateLinkRxHeight (updateRelayStats
        (updateLinkRxSeq t prev (rxSeq - (s.links prev).rxSeq)) sender 0
        (rxSeq - (s.links prev).rxSeq)) prev (rxHeight - (s.links prev).rxHeight)) := by
      rw [if_neg hprev, append_nil] at hrec
      refine ⟨?_, ?_, hrec⟩ <;>
        simp only [updateLinkRxHeight, updateRelayStats, updateLinkRxSeq, setLink,
          update_of_ne (Ne.symm hprev)]
      · exact hseq
      · exact hrelays
    exact ⟨hkeeps.receives, fun _ => hkeeps⟩

section
variable {services : Services W B} (hservices : ∀ addr req w, (services addr req w).ActsBy A)
include hservices

/-- An account that gets control while a service runs keeps the links it is no
relay of, however deep it calls. -/
theorem external_calm {f : Call B} (hsender : A sender)
    (h : external c services depth s sender f = .ok s') : Calm A l s s' := by
  induction depth generalizing s s' sender f with
  | zero => exact nomatch h
  | succ depth ih =>
    cases f with
    | sendMessage m =>
      simp only [external, sendMessage, bind_ok, pure_ok, Prod.exists] at h
      obtain ⟨_, -, next, dst, -, rfl⟩ := h
      exact emitMessage_calm
    | handleRelayMessage prev msg =>
      intro hq
      have hcall : ∀ s addr req s', interpret (external c services depth) s
          (services addr req s.world) = .ok s' → Calm A l s s' :=
        fun _ addr req _ => interpret_calm (fun _ _ _ _ ha => ih ha) (hservices addr req _)
      obtain ⟨hrelay, -, hkeeps⟩ := handleRelayMessage_receives hcall hq h
      refine hkeeps ?_
      rintro rfl
      exact hq sender hrelay hsender

theorem external_receives {f : Call B} (hq : Quiet A l s)
    (h : external c services depth s sender f = .ok s') : Receives l s s' := by
  cases depth with
  | zero => exact nomatch h
  | succ depth =>
    cases f with
    | sendMessage m =>
      simp only [external, sendMessage, bind_ok, pure_ok, Prod.exists] at h
      obtain ⟨_, -, next, dst, -, rfl⟩ := h
      exact (emitMessage_calm hq).receives
    | handleRelayMessage prev msg =>
      have hcall : ∀ s addr req s', interpret (external c services depth) s
          (services addr req s.world) = .ok s' → Calm A l s s' :=
        fun _ addr req _ => interpret_calm (fun _ _ _ _ ha => external_calm hservices ha)
          (hservices addr req _)
      exact (handleRelayMessage_receives hcall hq h).2.1

theorem interpret_receives {p : Prog W B} (hq : Quiet A l s)
    (h : interpret (external c services depth) s p = .ok s') : Receives l s s' := by
  induction p generalizing s with
  | done r =>
    cases r with
    | error x => exact nomatch h
    | ok w =>
      cases h
      exact KeepsLink.receives ⟨rfl, rfl, rfl⟩
  | call w sender f k ih =>
    have hworld : Receives l s { s with world := w } := KeepsLink.receives ⟨rfl, rfl, rfl⟩
    rw [interpret] at h
    split at h
    · next t ht =>
      have hfirst : Receives l { s with world := w } t := external_receives hservices hq ht
      have hq' : Quiet A l t := by
        unfold Quiet
        rw [hfirst.relays]
        exact hq
      exact hworld.trans (hfirst.trans (ih _ hq' h))
    · exact hworld.trans (ih _ hq h)

end

/-- Owners do not register accounts that get control as relays of the link. -/
def OuterTx.Registers (A : Address → Prop) (l : String) : OuterTx W B → Prop
  | .addRelay _ link addrs => link = l → ∀ a ∈ addrs, ¬ A a
  | _ => True

def InOrder (A : Address → Prop) (l : String) (s : St W B) : Prop :=
  Quiet A l s ∧ receivedOn s l = List.range' 1 (s.links l).rxSeq

theorem InOrder.receives (h : InOrder A l s) (hr : Receives l s s') : InOrder A l s' := by
  obtain ⟨hrelays, n, hseq, hrec⟩ := hr
  refine ⟨?_, ?_⟩
  · unfold Quiet
    rw [hrelays]
    exact h.1
  · rw [hrec, hseq, h.2, Nat.add_comm (s.links l).rxSeq 1, range'_append_1]

theorem InOrder.of_relays (h : InOrder A l s)
    (hl : s'.links = update s.links name { s.links name with relays := rs })
    (hr : s'.received = s.received) (hquiet : name = l → ∀ a ∈ rs, ¬ A a) : InOrder A l s' := by
  have hrec : receivedOn s' l = receivedOn s l := by rw [receivedOn, hr]; rfl
  unfold InOrder Quiet
  rw [hrec, hl, update_apply]
  split
  · next heq => subst heq; exact ⟨hquiet rfl, h.2⟩
  · exact h

theorem outerStep_inOrder {services : Services W B}
    (hservices : ∀ addr req w, (services addr req w).ActsBy A) (h : InOrder A l s) (htx : tx.Registers A l)
    (hstep : outerStep c services depth s tx = .ok s') : InOrder A l s' := by
  cases tx with
  | call sender f => exact h.receives (external_receives hservices h.1 hstep)
  | contract f => exact h.receives (interpret_receives hservices h.1 hstep)
  | addRelay sender link addrs =>
    simp only [outerStep, addRelay, bind_ok, pure_ok] at hstep
    obtain ⟨_, -, _, -, rfl⟩ := hstep
    exact h.of_relays rfl rfl htx
  | removeRelay sender link addr =>
    simp only [outerStep, removeRelay, bind_ok, pure_ok] at hstep
    obtain ⟨_, -, _, -, rfl⟩ := hstep
    refine h.of_relays rfl rfl ?_
    rintro rfl a ha
    exact h.1 a (mem_of_mem_filter ha)

/-- If no account that gets control while a service handles a message is ever a
relay of the link, then whatever is called back from within, no event of the
link is taken twice and `rxSeq` is the number of the last event taken. -/
theorem reentrancy_safe (c : Config W B) (services : Services W B) (depth : Nat)
    (A : Address → Prop) (hservices : ∀ addr req w, (services addr req w).ActsBy A)
    (s : St W B) (l : String) (txs : List (OuterTx W B))
    (hfresh : (s.links l).rxSeq = 0 ∧ receivedOn s l = [] ∧ Quiet A l s)
    (htxs : ∀ tx ∈ txs, tx.Registers A l) :
    let t := run (outerStep c services depth) s txs
    (receivedOn t l).Nodup ∧ receivedOn t l = List.range' 1 (t.links l).rxSeq ∧
    ∀ last, (∀ seq ∈ receivedOn t l, seq ≤ last) → (t.links l).rxSeq ≤ last := by
  intro t
  obtain ⟨hseq, hrec, hquiet⟩ := hfresh
  have hstart : InOrder A l s := ⟨hquiet, by rw [hrec, hseq]; rfl⟩
  have horder : InOrder A l t :=
    run_along (C := fun _ tx => tx.Registers A l)
      (fun _ _ _ hs htx hstep => outerStep_inOrder hservices hs htx hstep) hstart
      (along_of_mem htxs)
  refine ⟨by rw [horder.2]; exact nodup_range', horder.2, fun last hlast => ?_⟩
  rw [horder.2] at hlast
  rcases Nat.eq_zero_or_pos (t.links l).rxSeq with hzero | hpos
  · omega
  · exact hlast _ (mem_range'_1.2 ⟨hpos, by omega⟩)

def payConfig : Config Nat Letter where
  bmcBtpAddress := "btp://0x61.bsc/0x01"
  bmcManagement := 2
  isOwner a := a = 1
  codec := letterCodec
  contracts :=
    { isContract := fun a => a = 5
      handleBTPMessage := fun _ _ _ _ _ _ _ => .error .raw
      handleBTPError := fun _ _ _ _ _ _ _ _ => .error .raw
      handleFeeGathering := fun _ _ _ _ _ => .error .raw }

def transferLetter : Letter :=
  .receipts [letterReceipt [letter "btp://0x1.icon/cx02" "bts" 1 .noise]]

/-- The service pays account 9, whose code hands over the relay message once
more the first time it is paid. -/
def payServices : Services Nat Letter
  | _, .message _ _ _ _, paid =>
    if paid = 0 then
      .call (paid + 1) 9 (.handleRelayMessage "btp://0x1.icon/cx02" transferLetter) fun
        | .ok t => .done (.ok t.world)
        | .error _ => .done (.ok (paid + 1))
    else .done (.ok (paid + 1))
  | _, _, _ => .done (.error .raw)

theorem payServices_acts (addr : Address) (req : Request Letter) (paid : Nat) :
    (payServices addr req paid).ActsBy (· = 9) := by
  cases req with
  | message src svc sn msg =>
    rw [payServices]
    split
    · refine ⟨rfl, fun r => ?_⟩
      cases r <;> trivial
    · trivial
  | error => trivial
  | feeGathering => trivial

def payState (relays : List Address) : St Nat Letter where
  links := update (fun _ => {}) "btp://0x1.icon/cx02" { relays, isConnected := true }
  bshServices := update (fun _ => 0) "bts" 5
  world := 0

def payRun : List (OuterTx Nat Letter) :=
  [.call 7 (.handleRelayMessage "btp://0x1.icon/cx02" transferLetter)]

theorem payee_without_relay_paid_once :
    (receivedOn (run (outerStep payConfig payServices 1024) (payState [7]) payRun)
      "btp://0x1.icon/cx02").Nodup := by
  refine (reentrancy_safe payConfig payServices 1024 (· = 9) payServices_acts (payState [7])
    "btp://0x1.icon/cx02" payRun ⟨by decide +kernel, rfl, ?_⟩ ?_).1
  · intro a ha
    have ha7 : a = 7 := mem_singleton.1 ha
    subst ha7
    decide
  · intro tx htx
    rw [mem_singleton.1 htx]
    trivial

/-- The payee is a relay of the link: event 1 is dispatched twice, paid twice
and counted twice. -/
theorem payee_relay_paid_twice :
    receivedOn (run (outerStep payConfig payServices 1024) (payState [7, 9]) payRun)
      "btp://0x1.icon/cx02" = [1, 1] ∧
    ((run (outerStep payConfig payServices 1024) (payState [7, 9]) payRun).links
      "btp://0x1.icon/cx02").rxSeq = 2 ∧
    (run (outerStep payConfig payServices 1024) (payState [7, 9]) payRun).world = 2 := by
  decide +kernel

end IconBridge.Solidity.BMC
