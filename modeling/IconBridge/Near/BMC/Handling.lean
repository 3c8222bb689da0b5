import IconBridge.Near.BMC.Center

/-!
# What handling a message does

A message is passed on, handed to a service, answered with an error, or tells
the message center what can be reached over its link.
-/

namespace IconBridge.Near.BMC

open Lib Function List
open Near.BTS (Outcome)

variable {B : Type} {c : Config B} {s s' t : St B} {source : BTPAddress}

/-- The second attempt goes to the source again, so a third one fails as the second did. -/
theorem sendMessageIn_ok (h : sendMessageIn c s source depth destination m = .ok s') :
    (∃ next, resolveRoute c s destination = .ok (some next) ∧ s' = s.promise (.emitMessage next m)) ∨
    resolveRoute c s destination = .ok none ∧
      ∃ e reply next, errorReply c e m = .ok reply ∧ resolveRoute c s source = .ok (some next) ∧
        s' = s.promise (.emitMessage next reply) := by
  induction depth generalizing destination m with
  | zero => cases h
  | succ depth ih =>
    simp only [sendMessageIn, bind_ok] at h
    obtain ⟨route, hroute, h⟩ := h
    cases route with
    | some next => exact .inl ⟨next, hroute, (pure_ok.1 h).symm⟩
    | none =>
      obtain ⟨reply, hreply, h⟩ := bind_ok.1 h
      rcases ih h with ⟨next, hnext, rfl⟩ | ⟨hnone, _, _, _, _, hnext, -⟩
      · exact .inr ⟨hroute, _, reply, next, hreply, hnext, rfl⟩
      · rw [hnone] at hnext
        cases hnext

theorem sendError_ok (h : sendError c s source e m = .ok s') :
    ∃ reply next, errorReply c e m = .ok reply ∧ s' = s.promise (.emitMessage next reply) := by
  obtain ⟨reply, hreply, h⟩ := bind_ok.1 h
  rcases sendMessageIn_ok h with ⟨next, -, rfl⟩ | ⟨hnone, _, _, _, _, hnext, -⟩
  · exact ⟨reply, next, hreply, rfl⟩
  · rw [hnone] at hnext
    cases hnext

theorem sendMessage_promise (h : sendMessage c s source destination m = .ok s') :
    ∃ next m', s' = s.promise (.emitMessage next m') := by
  rcases sendMessageIn_ok h with ⟨next, -, rfl⟩ | ⟨-, _, reply, next, -, -, rfl⟩
  · exact ⟨next, m, rfl⟩
  · exact ⟨next, reply, rfl⟩

def BmcServiceType.applied (reachable : List BTPAddress) : BmcServiceType → List BTPAddress
  | .init links => links.foldl (fun l a => l.insert a) reachable
  | .link a => reachable.insert a
  | .unlink a => reachable.filter (· ≠ a)
  | _ => reachable

/-- The addresses that can be reached over a link, and the networks that are routed over it.
A network is marked and forgotten with one of its addresses. -/
structure View where
  reachable : List BTPAddress
  marked : Set String

def View.hear (v : View) (m : BmcServiceType) : View where
  reachable := m.applied v.reachable
  marked := { network | match m with
    | .init links => network ∈ v.marked ∨ ∃ a ∈ links, a.networkAddress = .ok network
    | .link a => network ∈ v.marked ∨ a ∉ v.reachable ∧ a.networkAddress = .ok network
    | .unlink a => network ∈ v.marked ∧ ¬ (a ∈ v.reachable ∧ a.networkAddress = .ok network)
    | _ => network ∈ v.marked }

def St.marked (s : St B) (source : BTPAddress) : Set String :=
  { network | source ∈ (s.connections (.linkReachable network)).getD [] }

theorem getD_kept [DecidableEq α] (l : List α) : (if l = [] then none else some l).getD [] = l := by
  split <;> simp [*]

theorem addConnection_marked :
    (s.addConnection (.linkReachable network) source).marked source = insert network (s.marked source) := by
  ext n
  by_cases hn : n = network
  · subst hn
    simp [St.marked, St.addConnection]
  · simp [St.marked, St.addConnection, hn]

theorem removeConnection_marked :
    (s.removeConnection (.linkReachable network) source).marked source = s.marked source \ {network} := by
  ext n
  by_cases hn : n = network
  · subst hn
    simp only [St.marked, St.removeConnection, Set.mem_ofPred_eq, update_self, getD_kept]
    simp
  · simp [St.marked, St.removeConnection, hn]

/-- Only what is known of the networks behind links has changed. -/
def Rewires (s s' : St B) : Prop :=
  ∃ connections, s' = { s with connections } ∧
    ∀ network, connections (.link network) = s.connections (.link network)

theorem Rewires.refl (s : St B) : Rewires s s := ⟨_, rfl, fun _ => rfl⟩

theorem Rewires.trans (h : Rewires s t) (h' : Rewires t s') : Rewires s s' := by
  obtain ⟨_, rfl, hlink⟩ := h
  obtain ⟨_, rfl, hlink'⟩ := h'
  exact ⟨_, rfl, fun network => (hlink' network).trans (hlink network)⟩

theorem Rewires.addConnection : Rewires s (s.addConnection (.linkReachable network) source) :=
  ⟨_, rfl, fun _ => update_of_ne (by simp) _ _⟩

theorem Rewires.removeConnection : Rewires s (s.removeConnection (.linkReachable network) source) :=
  ⟨_, rfl, fun _ => update_of_ne (by simp) _ _⟩

/-- The link is told `m`: its record and the connections behind it are written. -/
def Hears (source : BTPAddress) (m : BmcServiceType) (s s' : St B) : Prop :=
  ∃ property t, s.links source = some property ∧ Rewires s t ∧
    s' = t.setLink source { property with reachable := m.applied property.reachable } ∧
    t.marked source = (View.hear ⟨property.reachable, s.marked source⟩ m).marked

theorem reach_ok {x x' : St B × Link} (h : reach source x a = .ok x') : ∃ network, a.networkAddress = .ok network ∧
    x' = (x.1.addConnection (.linkReachable network) source,
      { x.2 with reachable := x.2.reachable.insert a }) := by
  simp only [reach, networkOf, bind_ok, mapError_ok, pure_ok] at h
  obtain ⟨network, hnetwork, rfl⟩ := h
  exact ⟨network, hnetwork, rfl⟩

theorem reach_all {x x' : St B × Link} (h : links.foldlM (reach source) x = .ok x') :
    Rewires x.1 x'.1 ∧
      x'.2 = { x.2 with reachable := links.foldl (fun l a => l.insert a) x.2.reachable } ∧
      x'.1.marked source = (View.hear ⟨x.2.reachable, x.1.marked source⟩ (.init links)).marked := by
  induction links generalizing x with
  | nil =>
    cases h
    exact ⟨.refl _, rfl, by simp [View.hear]⟩
  | cons a links ih =>
    simp only [foldlM_cons, bind_ok] at h
    obtain ⟨y, hy, h⟩ := h
    obtain ⟨network, hnetwork, rfl⟩ := reach_ok hy
    obtain ⟨hwires, hproperty, hmarked⟩ := ih h
    refine ⟨.trans .addConnection hwires, hproperty, ?_⟩
    rw [hmarked, addConnection_marked]
    ext n
    simp [View.hear, hnetwork, or_assoc, or_left_comm, eq_comm (a := n)]

theorem handleInit_hears (h : handleInit s source links = .ok s') : Hears source (.init links) s s' := by
  unfold handleInit at h
  split at h
  · cases h
  · next property hlink =>
    simp only [bind_ok, pure_ok] at h
    obtain ⟨⟨t, property'⟩, hreach, rfl⟩ := h
    obtain ⟨hwires, rfl, hmarked⟩ := reach_all hreach
    exact ⟨property, t, hlink, hwires, rfl, hmarked⟩

theorem handleLink_hears (h : handleLink s source a = .ok s') : Hears source (.link a) s s' := by
  unfold handleLink at h
  split at h
  · cases h
  · next property hlink =>
    split at h
    · next hmem =>
      cases h
      refine ⟨property, s, hlink, .refl s, ?_, by simp [View.hear, hmem]⟩
      rw [BmcServiceType.applied, insert_of_mem hmem]
    · next hmem =>
      simp only [bind_ok, pure_ok] at h
      obtain ⟨_, hreach, rfl⟩ := h
      obtain ⟨network, hnetwork, rfl⟩ := reach_ok hreach
      refine ⟨property, _, hlink, .addConnection, rfl, ?_⟩
      rw [addConnection_marked]
      ext n
      simp [View.hear, hmem, hnetwork, or_comm, eq_comm (a := n)]

theorem handleUnlink_hears (h : handleUnlink s source a = .ok s') : Hears source (.unlink a) s s' := by
  unfold handleUnlink at h
  split at h
  · cases h
  · next property hlink =>
    split at h
    · next hmem =>
      cases h
      have hkept : property.reachable.filter (· ≠ a) = property.reachable :=
        filter_eq_self.2 fun b hb => decide_eq_true fun heq => hmem (heq ▸ hb)
      refine ⟨property, s, hlink, .refl s, ?_, by simp [View.hear, hmem]⟩
      rw [BmcServiceType.applied, hkept]
    · next hmem =>
      simp only [networkOf, bind_ok, mapError_ok, pure_ok] at h
      obtain ⟨network, hnetwork, rfl⟩ := h
      refine ⟨property, _, hlink, .removeConnection, rfl, ?_⟩
      rw [removeConnection_marked]
      ext n
      simp [View.hear, not_not.1 hmem, hnetwork, eq_comm (a := n)]

theorem handleFeeGathering_promises (h : handleFeeGathering s source feeAggregator services = .ok s') :
    ∃ ps, s' = { s with promises := s.promises ++ ps } ∧ ∀ p ∈ ps, ∀ next r, p ≠ .emitMessage next r := by
  unfold handleFeeGathering at h
  split at h
  · cases h
  cases h
  induction services generalizing s with
  | nil => exact ⟨[], by simp, nofun⟩
  | cons service services ih =>
    rw [foldl_cons]
    split
    · next account _ =>
      obtain ⟨ps, heq, hps⟩ := ih (s := s.promise (.handleFeeGathering account feeAggregator service))
      rw [heq]
      exact ⟨_, by simp [St.promise]; rfl, forall_mem_cons.2 ⟨by simp, hps⟩⟩
    · exact ih

def BtpMessage.tells (c : Config B) (m : BtpMessage B) : Option BmcServiceType :=
  if m.service = serviceName then (c.codec.bmcServiceMessage m.payload).toOption else none

def Unserved (c : Config B) (s : St B) (m : BtpMessage B) : Prop :=
  if m.service = serviceName then c.codec.bmcServiceMessage m.payload = .error .serviceNotExist
  else s.services m.service = none

/-- What becomes of a message for this network -/
inductive Handles (c : Config B) (s : St B) (source : BTPAddress) (m : BtpMessage B) (s' : St B) : Prop
  | told (t : BmcServiceType) (hu : ¬ Unserved c s m) (ht : m.tells c = some t)
      (h : Hears source t s s')
  | promised (ps : List (Promise B)) (hu : ¬ Unserved c s m)
      (ht : ∀ t ∈ m.tells c, ∀ v : View, v.hear t = v)
      (hps : ∀ p ∈ ps, ∀ next r, p ≠ .emitMessage next r)
      (h : s' = { s with promises := s.promises ++ ps })
  | refused (reply : BtpMessage B) (next : BTPAddress) (hu : Unserved c s m) (ht : m.tells c = none)
      (hreply : errorReply c (.bmc .serviceNotExist) m = .ok reply)
      (h : s' = s.promise (.emitMessage next reply))

theorem networkOf_ne : networkOf a ≠ .error .serviceNotExist := by
  unfold networkOf
  cases a.networkAddress <;> simp [Except.mapError]

theorem reach_ne {x : St B × Link} : reach source x a ≠ .error .serviceNotExist := by
  simp [reach, bind_error, networkOf_ne, pure, Except.pure]

theorem handleInternalServiceMessage_error
    (h : handleInternalServiceMessage c s source m = .error .serviceNotExist) :
    c.codec.bmcServiceMessage m.payload = .error .serviceNotExist := by
  rcases bind_error.1 h with h | ⟨t, -, h⟩
  · exact h
  · -- no handler fails with this error
    exfalso
    cases t <;> simp only [handleInit, handleLink, handleUnlink, handleFeeGathering] at h
    all_goals repeat' split at h
    all_goals simp [bind_error, networkOf_ne, reach_ne, pure, Except.pure, throw, throwThe,
      MonadExceptOf.throw] at h
    obtain ⟨_, _, h⟩ := foldlM_error h
    exact reach_ne h

theorem handleServiceMessage_handles (h : handleServiceMessage c s source m = .ok s') :
    Handles c s source m s' := by
  simp only [handleServiceMessage] at h
  split at h
  · next t hout =>
    cases h
    split at hout
    · next hm =>
      obtain ⟨t, ht, hout⟩ := bind_ok.1 hout
      have hu : ¬ Unserved c s m := by simp [Unserved, hm, ht]
      have htells : m.tells c = some t := by simp [BtpMessage.tells, hm, ht, Except.toOption]
      cases t with
      | init links => exact .told _ hu htells (handleInit_hears hout)
      | link a => exact .told _ hu htells (handleLink_hears hout)
      | unlink a => exact .told _ hu htells (handleUnlink_hears hout)
      | feeGathering feeAggregator services =>
        obtain ⟨ps, rfl, hps⟩ := handleFeeGathering_promises hout
        refine .promised ps hu (fun t ht v => ?_) hps rfl
        cases ht.symm.trans htells
        rfl
      | unknownType => simp at hout
    · next hm =>
      have htells : ∀ t ∈ m.tells c, ∀ v : View, v.hear t = v := by simp [BtpMessage.tells, hm]
      unfold handleExternalServiceMessage at hout
      split at hout
      · cases hout
      · next account hservice =>
        have hu : ¬ Unserved c s m := by simp [Unserved, hm, hservice]
        split at hout <;> cases hout <;> exact .promised [_] hu htells (by simp) rfl
  · next hout =>
    obtain ⟨reply, next, hreply, rfl⟩ := sendError_ok h
    split at hout
    · next hm =>
      have hdecode := handleInternalServiceMessage_error hout
      exact .refused reply next (by simp [Unserved, hm, hdecode])
        (by simp [BtpMessage.tells, hdecode, Except.toOption]) hreply rfl
    · next hm =>
      refine .refused reply next ?_ (by simp [BtpMessage.tells, hm]) hreply rfl
      unfold handleExternalServiceMessage at hout
      split at hout
      · next hservice => simp [Unserved, hm, hservice]
      · split at hout <;> cases hout
  · cases h

end IconBridge.Near.BMC
