import IconBridge.Solidity.BTS.Pending
import IconBridge.Solidity.BTS.Requests
import IconBridge.Java.BTS.Fees

/-!
# Who settles a request

Both services look up an answer by its serial number and do not look at the
network it comes from. Serial numbers are given out once, so a network that
answers only what it was asked settles only requests that went to it.
-/

namespace IconBridge

open Lib Function List

/-- A transaction with the network of the message behind it. The services are
told the network of a response; of a BTP error only the message center knows. -/
structure Sourced (Tx : Type) where
  src : String
  tx : Tx

namespace Solidity.BTS

variable {d : Deployment} {s s' : St} {onRoute : String → String → Prop}

def IsRequest (o : Outgoing) : Prop := o.msg.serviceType = .requestCoinTransfer

/-- Requests that were sent have numbers that were given out, and the record of
one names the network it was sent to. -/
structure Addressed (s : St) : Prop where
  range : ∀ o ∈ s.sent, IsRequest o → o.sn ≤ s.serialNo
  network : ∀ o ∈ s.sent, IsRequest o → ∀ p, s.requests o.sn = some p →
    ∃ account, splitBTPAddress p.target = .ok (o.target, account)

theorem Addressed.congr (h : desk s' = desk s) (hs : Addressed s) : Addressed s' := by
  simp only [desk, Prod.mk.injEq] at h
  obtain ⟨h1, h2, h3⟩ := h
  exact ⟨by rw [h2, h3]; exact hs.range, by rw [h1, h3]; exact hs.network⟩

theorem sendServiceMessage_addressed (hs : Addressed s)
    (h : sendServiceMessage d s u target es = .ok s') : Addressed s' := by
  simp only [sendServiceMessage, sendMessage, bind_ok, add_ok, pure_ok, Prod.exists] at h
  obtain ⟨net, account, hsplit, _, ⟨-, rfl⟩, _, ⟨_, -, rfl⟩, _, -, rfl⟩ := h
  refine ⟨fun o ho hreq => ?_, fun o ho hreq p hp => ?_⟩
  · rcases mem_append.1 ho with ho | ho
    · exact (hs.range o ho hreq).trans (Nat.le_succ _)
    · rw [mem_singleton.1 ho]
  · rcases mem_append.1 ho with ho | ho
    · -- an older request has an older number
      have hlt := hs.range o ho hreq
      simp only at hp
      rw [update_of_ne (by omega)] at hp
      exact hs.network o ho hreq p hp
    · obtain rfl := mem_singleton.1 ho
      simp only [update_self, Option.some.injEq] at hp
      subst hp
      exact ⟨account, hsplit⟩

theorem addressed_rule : Rule d fun s s' => Addressed s → Addressed s' where
  trans h1 h2 hs := h2 (h1 hs)
  keeps hdesk _ := Addressed.congr hdesk
  moves h := Addressed.congr h.desk
  deploys h := Addressed.congr (deployTradable_desk h)
  files _ h hs := sendServiceMessage_addressed hs h
  responds hty hs := by
    refine ⟨fun o ho hreq => ?_, fun o ho hreq => ?_⟩
    · rcases mem_append.1 ho with ho | ho
      · exact hs.range o ho hreq
      · rw [mem_singleton.1 ho] at hreq
        exact absurd hreq hty
    · rcases mem_append.1 ho with ho | ho
      · exact hs.network o ho hreq
      · rw [mem_singleton.1 ho] at hreq
        exact absurd hreq hty

theorem step_addressed (hs : Addressed s) (h : step d s tx = .ok s') : Addressed s' := by
  rcases addressed_rule.step h with hkeep | ⟨sn, code, -, -, t, ht, hreq, hser, hsent, -⟩
  · exact hkeep hs
  · obtain ⟨hrange, hnetwork⟩ := ht hs
    refine ⟨by rw [hser, hsent]; exact hrange, fun o ho hout p hp => ?_⟩
    rw [hsent] at ho
    rw [hreq, update_apply] at hp
    split at hp
    · contradiction
    · exact hnetwork o ho hout p hp

def Keeps (s s' : St) : Prop :=
  s.serialNo ≤ s'.serialNo ∧ ∀ n ≤ s.serialNo, s'.requests n = s.requests n

theorem Keeps.of_desk (h : desk s' = desk s) : Keeps s s' := by
  simp only [desk, Prod.mk.injEq] at h
  obtain ⟨h1, h2, -⟩ := h
  exact ⟨h2.ge, fun n _ => by rw [h1]⟩

theorem sendServiceMessage_keeps (h : sendServiceMessage d s u target es = .ok s') : Keeps s s' := by
  obtain ⟨p, -, -, -, hser, -, hreq, -⟩ := sendServiceMessage_ok h
  refine ⟨by omega, fun n hn => ?_⟩
  rw [hreq, update_of_ne (by omega)]

theorem keeps_rule : Rule d Keeps where
  trans h1 h2 := ⟨h1.1.trans h2.1, fun n hn => (h2.2 n (hn.trans h1.1)).trans (h1.2 n hn)⟩
  keeps hdesk _ := .of_desk hdesk
  moves h := .of_desk h.desk
  deploys h := .of_desk (deployTradable_desk h)
  files _ h := sendServiceMessage_keeps h
  responds _ := ⟨le_rfl, fun _ _ => rfl⟩

theorem step_removes (hn : Numbered s.serialNo s.requests) (h : step d s tx = .ok s')
    (hp : s.requests sn = some p) (hgone : s'.requests sn ≠ some p) :
    ∃ code, tx.response = some (sn, code) := by
  have hle := (hn sn (by simp [hp])).2
  rcases keeps_rule.step h with hkeep | ⟨n, code, hresponse, -, t, ht, hreq, -⟩
  · exact absurd ((hkeep.2 sn hle).trans hp) hgone
  · by_cases heq : sn = n
    · exact ⟨code, heq ▸ hresponse⟩
    · rw [hreq, update_of_ne heq, ht.2 sn hle] at hgone
      exact absurd hp hgone

/-- A response to request `sn` from network `net`, or a BTP error for it from a
message center on the route there. -/
inductive Answers (onRoute : String → String → Prop) (m : Sourced Tx) (sn : Nat) (net : String) : Prop
  | response (h : m.tx = .handleBTPMessage caller net svc sn msg rs)
  | error (h : m.tx = .handleBTPError caller svc sn code message rs) (hroute : onRoute m.src net)

/-- Who answers a request was sent one with that number, or is on the route to
whoever was. -/
def Honest (onRoute : String → String → Prop) (s : St) (m : Sourced Tx) : Prop :=
  ∀ sn code, m.tx.response = some (sn, code) →
    ∃ o ∈ s.sent, IsRequest o ∧ o.sn = sn ∧ Answers onRoute m sn o.target

def deliver (d : Deployment) (s : St) (m : Sourced Tx) : Outcome St := step d s m.tx

theorem settled_by_destination (hs : Addressed s) (hn : Numbered s.serialNo s.requests)
    (hhonest : Honest onRoute s m) (hp : s.requests sn = some p)
    (hgone : (exec (deliver d) s m).requests sn ≠ some p) :
    ∃ net account, splitBTPAddress p.target = .ok (net, account) ∧ Answers onRoute m sn net := by
  cases h : deliver d s m with
  | error e =>
    rw [exec_of_error h] at hgone
    exact absurd hp hgone
  | ok s' =>
    rw [exec_of_ok h] at hgone
    obtain ⟨code, hresponse⟩ := step_removes hn h hp hgone
    obtain ⟨o, ho, hreq, rfl, hanswers⟩ := hhonest sn code hresponse
    obtain ⟨account, hsplit⟩ := hs.network o ho hreq p hp
    exact ⟨o.target, account, hsplit, hanswers⟩

end Solidity.BTS

namespace Java.BTS

variable {d : Deployment} {s s' : St} {onRoute : String → String → Prop}

def IsRequest (o : Outgoing) : Prop := o.msg.serviceType = .requestCoinTransfer

structure Addressed (s : St) : Prop where
  range : ∀ o ∈ s.sent, IsRequest o → o.sn ≤ s.sn
  network : ∀ o ∈ s.sent, IsRequest o → ∀ t, s.transactions o.sn = some t →
    ∃ target : BTPAddress, t.target = target.toString ∧ target.net = o.target

theorem Files.addressed (hs : Addressed s) (h : Files owner target details s s') : Addressed s' := by
  refine ⟨fun o ho hreq => ?_, fun o ho hreq t ht => ?_⟩
  · rw [h.sn]
    rw [h.sent] at ho
    rcases mem_append.1 ho with ho | ho
    · exact (hs.range o ho hreq).trans (Int.le_add_one le_rfl)
    · rw [mem_singleton.1 ho]
  · rw [h.sent] at ho
    rw [h.transactions] at ht
    rcases mem_append.1 ho with ho | ho
    · have hlt := hs.range o ho hreq
      rw [update_of_ne (by omega)] at ht
      exact hs.network o ho hreq t ht
    · obtain rfl := mem_singleton.1 ho
      simp only [update_self, Option.some.injEq] at ht
      subst ht
      exact ⟨target, rfl, rfl⟩

theorem Quiet.addressed (hs : Addressed s) (h : Quiet s s') : Addressed s' := by
  obtain ⟨out, hsent, hother⟩ := h.sent
  have hold : ∀ o ∈ s'.sent, IsRequest o → o ∈ s.sent := by
    intro o ho hreq
    rw [hsent] at ho
    rcases mem_append.1 ho with ho | ho
    · exact ho
    · exact absurd hreq (hother o ho)
  refine ⟨fun o ho hreq => (hs.range o (hold o ho hreq) hreq).trans h.sn, fun o ho hreq t ht => ?_⟩
  rw [h.transactions] at ht
  exact hs.network o (hold o ho hreq) hreq t ht

theorem step_addressed (hs : Addressed s) (h : step d s tx = .ok s') : Addressed s' := by
  cases step_deed h with
  | quiet _ _ h => exact h.addressed hs
  | files _ _ _ _ h => exact h.addressed hs
  | settles n _ _ _ h =>
    refine ⟨by rw [h.sn, h.sent]; exact hs.range, fun o ho hreq t ht => ?_⟩
    rw [h.sent] at ho
    rw [h.transactions, update_apply] at ht
    split at ht
    · contradiction
    · exact hs.network o ho hreq t ht
  | paysFees _ _ _ _ _ _ hdesk =>
    obtain ⟨h1, h2, h3⟩ := hdesk
    exact ⟨by rw [h2, h3]; exact hs.range, by rw [h1, h3]; exact hs.network⟩
  | sendsFees _ _ _ _ _ _ h => exact h.addressed hs

theorem step_removes (hn : Numbered s) (h : step d s tx = .ok s')
    (ht : s.transactions sn = some t) (hgone : s'.transactions sn ≠ some t) :
    ∃ code, tx.response = some (sn, code) := by
  have hle := (hn.range sn (by simp [ht])).2
  have hfiles : ∀ {owner target details}, Files owner target details s s' → False := by
    intro owner target details h
    rw [h.transactions, update_of_ne (by omega)] at hgone
    exact hgone ht
  cases step_deed h with
  | quiet _ _ h =>
    rw [h.transactions] at hgone
    exact absurd ht hgone
  | files _ _ _ _ h => exact (hfiles h).elim
  | settles n code u htx h =>
    by_cases heq : sn = n
    · exact ⟨code, heq ▸ htx⟩
    · rw [h.transactions, update_of_ne heq] at hgone
      exact absurd ht hgone
  | paysFees _ _ _ _ _ _ hdesk =>
    rw [hdesk.1] at hgone
    exact absurd ht hgone
  | sendsFees _ _ _ _ _ _ h => exact (hfiles h).elim

inductive Answers (onRoute : String → String → Prop) (m : Sourced Tx) (sn : ℤ) (net : String) : Prop
  | response (h : m.tx = .handleBTPMessage r caller net svc sn msg)
  | error (h : m.tx = .handleBTPError r caller src sn code message) (hroute : onRoute m.src net)

def Honest (onRoute : String → String → Prop) (s : St) (m : Sourced Tx) : Prop :=
  ∀ sn code, m.tx.response = some (sn, code) →
    ∃ o ∈ s.sent, IsRequest o ∧ o.sn = sn ∧ Answers onRoute m sn o.target

def deliver (d : Deployment) (s : St) (m : Sourced Tx) : Outcome St := step d s m.tx

theorem settled_by_destination (hs : Addressed s) (hn : Numbered s)
    (hhonest : Honest onRoute s m) (ht : s.transactions sn = some t)
    (hgone : (exec (deliver d) s m).transactions sn ≠ some t) :
    ∃ target : BTPAddress, t.target = target.toString ∧ Answers onRoute m sn target.net := by
  cases h : deliver d s m with
  | error e =>
    rw [exec_of_error h] at hgone
    exact absurd ht hgone
  | ok s' =>
    rw [exec_of_ok h] at hgone
    obtain ⟨code, hresponse⟩ := step_removes hn h ht hgone
    obtain ⟨o, ho, hreq, rfl, hanswers⟩ := hhonest sn code hresponse
    obtain ⟨target, htarget, hnet⟩ := hs.network o ho hreq t ht
    exact ⟨target, htarget, hnet ▸ hanswers⟩

end Java.BTS

namespace Bridge

def evmPending : Solidity.BTS.St :=
  run (Solidity.BTS.deliver Solidity.BTS.sample)
    (Solidity.BTS.initialState "ETH" 100 0 Solidity.BTS.sampleAccounts (fun _ => none) fun _ _ => 0)
    [⟨"", .routes fun _ => true⟩,
     ⟨"", .user 3 (.transferNativeCoin "btp://0x1.icon/hx12" 100)⟩]

def iconPending : Java.BTS.St :=
  run (Java.BTS.deliver Java.BTS.sample) Java.BTS.feeState
    [⟨"", .network [] fun _ => true⟩,
     ⟨"", .transferNativeCoin Java.BTS.holder 100 "btp://0x38.bsc/0x05"⟩]

def evmAnswer (net : String) : Sourced Solidity.BTS.Tx :=
  ⟨net, .handleBTPMessage Solidity.BTS.sample.bmc net Solidity.BTS.serviceName 1 (some
    { serviceType := .responseHandleService
      data := .response { code := Solidity.BTS.rcOk, message := "" } }) []⟩

def iconAnswer (net : String) : Sourced Java.BTS.Tx :=
  ⟨net, .handleBTPMessage Java.BTS.noReceivers Java.BTS.sample.bmc net "bts" 1 (some
    { serviceType := .responseHandleService
      data := .response { code := Java.BTS.rcOk, message := none } })⟩

end Bridge

end IconBridge
