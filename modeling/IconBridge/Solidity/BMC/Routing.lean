import IconBridge.Solidity.BMC.Delivery
import IconBridge.Solidity.BMC.Management

/-!
# Routing tables

`resolveRoute` reads four tables that owners and remote message centers write
independently. They agree as long as routes lead over connected links, no two
connected links share a network, and a link is removed after everything that
leads over it.
-/

namespace IconBridge.Solidity.BMC

open Lib Function List

variable {W B : Type} {c : Config W B} {e : InternalCodec B} {s s' t : St W B} {next prev : String}
  {P : String → Prop}

def NetOf (addr net : String) : Prop := ∃ account, splitBTPAddress addr = .ok (net, account)

theorem NetOf.ne_empty (h : NetOf addr net) : addr ≠ "" := by
  rintro rfl
  obtain ⟨account, h⟩ := h
  exact nomatch h

theorem NetOf.unique (h : NetOf addr net) (h' : NetOf addr net') : net = net' := by
  obtain ⟨account, h⟩ := h
  obtain ⟨account', h'⟩ := h'
  rw [h] at h'
  exact (Prod.mk.inj (Except.ok.inj h')).1

/-- Messages from the links in `P` add networks reachable over these links and
forget some; the rest of the tables is the owners'. -/
structure Extends (P : String → Prop) (s s' : St W B) : Prop where
  routes : s'.routes = s.routes
  routeDst : s'.getRouteDstFromNet = s.getRouteDstFromNet
  linkNet : s'.getLinkFromNet = s.getLinkFromNet
  services : s'.bshServices = s.bshServices
  connected : ∀ l, (s'.links l).isConnected = (s.links l).isConnected
  relays : ∀ l, (s'.links l).relays = (s.links l).relays
  reachableNet : ∀ net, s'.getLinkFromReachableNet net = s.getLinkFromReachableNet net ∨
    (s'.getLinkFromReachableNet net).2 = "" ∨
    (P (s'.getLinkFromReachableNet net).1 ∧ NetOf (s'.getLinkFromReachableNet net).2 net)
  reachable : ∀ l, ∀ target ∈ (s'.links l).reachable,
    target ∈ (s.links l).reachable ∨ ∃ net, NetOf target net

theorem Extends.refl (P : String → Prop) (s : St W B) : Extends P s s :=
  ⟨rfl, rfl, rfl, rfl, fun _ => rfl, fun _ => rfl, fun _ => .inl rfl, fun _ _ => .inl⟩

theorem Extends.trans (h1 : Extends P s t) (h2 : Extends P t s') : Extends P s s' where
  routes := h2.routes.trans h1.routes
  routeDst := h2.routeDst.trans h1.routeDst
  linkNet := h2.linkNet.trans h1.linkNet
  services := h2.services.trans h1.services
  connected l := (h2.connected l).trans (h1.connected l)
  relays l := (h2.relays l).trans (h1.relays l)
  reachableNet net := by
    rcases h2.reachableNet net with h | h
    · rw [h]; exact h1.reachableNet net
    · exact .inr h
  reachable l target ht := by
    rcases h2.reachable l target ht with h | h
    · exact h1.reachable l target h
    · exact .inr h

theorem Extends.of_links (hl : s'.links = update s.links name l)
    (hc : l.isConnected = (s.links name).isConnected) (hr : l.relays = (s.links name).relays)
    (ht : ∀ target ∈ l.reachable, target ∈ (s.links name).reachable ∨ ∃ net, NetOf target net)
    (hroutes : s'.routes = s.routes) (hdst : s'.getRouteDstFromNet = s.getRouteDstFromNet)
    (hnet : s'.getLinkFromNet = s.getLinkFromNet) (hsvc : s'.bshServices = s.bshServices)
    (hreach : ∀ net, s'.getLinkFromReachableNet net = s.getLinkFromReachableNet net ∨
      (s'.getLinkFromReachableNet net).2 = "" ∨
      (P (s'.getLinkFromReachableNet net).1 ∧ NetOf (s'.getLinkFromReachableNet net).2 net)) :
    Extends P s s' := by
  have hlink : ∀ k, (k = name ∧ s'.links k = l) ∨ s'.links k = s.links k := by
    intro k
    rw [hl, update_apply]
    split <;> simp [*]
  refine ⟨hroutes, hdst, hnet, hsvc, fun k => ?_, fun k => ?_, hreach, fun k target hk => ?_⟩
  all_goals rcases hlink k with ⟨rfl, h⟩ | h
  · rw [h, hc]
  · rw [h]
  · rw [h, hr]
  · rw [h]
  · exact ht target (h ▸ hk)
  · exact .inl (h ▸ hk)

theorem emitMessage_extends : Extends P s (emitMessage s next msg) :=
  .of_links rfl rfl rfl (fun _ => .inl) rfl rfl rfl rfl fun _ => .inl rfl

theorem sendMessage_extends (h : sendMessage c caller s m = .ok s') : Extends P s s' := by
  simp only [sendMessage, bind_ok, pure_ok, Prod.exists] at h
  obtain ⟨_, -, next, dst, -, rfl⟩ := h
  exact emitMessage_extends

theorem callService_extends (h : callService c s addr f = .ok s') : Extends P s s' :=
  plainCall_rule Extends.trans (fun _ _ _ => emitMessage_extends)
    (fun _ _ => ⟨rfl, rfl, rfl, rfl, fun _ => rfl, fun _ => rfl, fun _ => .inl rfl, fun _ _ => .inl⟩) h

theorem pushReachable_extends (hP : P prev) (h : NetOf target net) :
    Extends P s (pushReachable s prev net target) := by
  refine .of_links rfl rfl rfl (fun x hx => ?_) rfl rfl rfl rfl fun k => ?_
  · rcases mem_append.1 hx with hx | hx
    · exact .inl hx
    · rw [mem_singleton.1 hx]
      exact .inr ⟨net, h⟩
  · simp only [pushReachable, update_apply]
    split
    · next hk => subst hk; exact .inr (.inr ⟨hP, h⟩)
    · exact .inl rfl

theorem dropReachable_extends (hi : (s.links prev).reachable[i]? = some target) :
    Extends P s (dropReachable s prev net i) := by
  have hne : (s.links prev).reachable ≠ [] := by
    rintro h
    simp [h] at hi
  refine .of_links rfl rfl rfl (fun x hx => ?_) rfl rfl rfl rfl fun k => ?_
  · have hx := mem_of_mem_dropLast hx
    rcases mem_or_eq_of_mem_set hx with hx | hx
    · exact .inl hx
    · rw [hx, getLastD_eq_getLast?, getLast?_eq_some_getLast hne]
      exact .inl (getLast_mem hne)
  · simp only [dropReachable, update_apply]
    split
    · exact .inr (.inl rfl)
    · exact .inl rfl

theorem extends_rule (c : Config W B) (hP : P prev) : Rule prev (plainCall c) (Extends P) where
  refl := .refl P
  trans := .trans
  emit _ _ _ := emitMessage_extends
  report _ _ := ⟨rfl, rfl, rfl, rfl, fun _ => rfl, fun _ => rfl, fun _ => .inl rfl, fun _ _ => .inl⟩
  call := callService_extends
  push := fun _ _ _ _ h => pushReachable_extends hP ⟨_, h⟩
  drop := fun _ _ _ _ _ hi _ => dropReachable_extends hi

theorem processEvent_extends (hP : P prev) (h : processEvent c prev s ev = .ok s') :
    Extends P s s' := by
  refine Extends.trans ?_ ((extends_rule c hP).processEvent h)
  exact ⟨rfl, rfl, rfl, rfl, fun _ => rfl, fun _ => rfl, fun _ => .inl rfl, fun _ _ => .inl⟩

theorem handleRelayMessage_extends (h : handleRelayMessage c s sender prev msg = .ok s') :
    sender ∈ (s.links prev).relays ∧ Extends (· = prev) s s' := by
  simp only [handleRelayMessage, bind_ok, require_ok, pure_ok, Prod.exists, decide_eq_true_eq] at h
  obtain ⟨_, hsender, rps, -, t, rxSeq, rxHeight, hrecv, rfl⟩ := h
  obtain ⟨⟨es, -, -, hfold, -⟩, -⟩ := Inbox.receive_ok hrecv
  refine ⟨hsender, ?_⟩
  have hloop : Extends (· = prev) s t :=
    foldlM_ok (P := Extends (· = prev) s)
      (fun _ _ _ _ hu he => hu.trans (processEvent_extends rfl he)) (.refl _ s) hfold
  have hseq : ∀ {u : St W B} {n}, Extends (· = prev) u (updateLinkRxSeq u prev n) := fun {u n} =>
    .of_links rfl rfl rfl (fun _ => .inl) rfl rfl rfl rfl fun _ => .inl rfl
  have hstats : ∀ {u : St W B} {n m}, Extends (· = prev) u (updateRelayStats u sender n m) :=
    ⟨rfl, rfl, rfl, rfl, fun _ => rfl, fun _ => rfl, fun _ => .inl rfl, fun _ _ => .inl⟩
  have hheight : ∀ {u : St W B} {n}, Extends (· = prev) u (updateLinkRxHeight u prev n) := fun {u n} =>
    .of_links rfl rfl rfl (fun _ => .inl) rfl rfl rfl rfl fun _ => .inl rfl
  exact hloop.trans (hseq.trans (hstats.trans hheight))

def Connected (s : St W B) (link : String) : Prop := (s.links link).isConnected = true

instance (s : St W B) (link : String) : Decidable (Connected s link) :=
  inferInstanceAs (Decidable (_ = true))

/-- Every entry leads over a connected link to an address in the network it is
an entry for, and a connected link is the entry for its network. -/
structure Routed (s : St W B) : Prop where
  route : ∀ net, s.getRouteDstFromNet net ≠ "" → NetOf (s.getRouteDstFromNet net) net ∧
    s.routes (s.getRouteDstFromNet net) ≠ "" ∧ Connected s (s.routes (s.getRouteDstFromNet net))
  link : ∀ net, s.getLinkFromNet net ≠ "" →
    NetOf (s.getLinkFromNet net) net ∧ Connected s (s.getLinkFromNet net)
  reachable : ∀ net, (s.getLinkFromReachableNet net).2 ≠ "" →
    NetOf (s.getLinkFromReachableNet net).2 net ∧ Connected s (s.getLinkFromReachableNet net).1
  connected : ∀ l, Connected s l → ∃ net, NetOf l net ∧ s.getLinkFromNet net = l
  relays : ∀ l, (s.links l).relays ≠ [] → Connected s l

theorem Routed.fresh (world : W) : Routed (Management.fresh world : Management W B).toSt where
  route _ h := absurd rfl h
  link _ h := absurd rfl h
  reachable _ h := absurd rfl h
  connected _ h := nomatch h
  relays _ h := absurd rfl h

theorem Routed.extends (h : Routed s) (he : Extends P s s') (hP : ∀ l, P l → Connected s l) :
    Routed s' := by
  have hconn : ∀ {l}, Connected s l → Connected s' l := fun {l} hl => (he.connected l).trans hl
  refine ⟨?_, ?_, fun net hne => ?_, fun l hl => ?_, fun l hl => ?_⟩
  · rw [he.routes, he.routeDst]
    intro net hne
    obtain ⟨hnet, hroute, hl⟩ := h.route net hne
    exact ⟨hnet, hroute, hconn hl⟩
  · rw [he.linkNet]
    intro net hne
    obtain ⟨hnet, hl⟩ := h.link net hne
    exact ⟨hnet, hconn hl⟩
  · rcases he.reachableNet net with hr | hr | ⟨hprev, hnet⟩
    · rw [hr] at hne ⊢
      obtain ⟨hnet, hl⟩ := h.reachable net hne
      exact ⟨hnet, hconn hl⟩
    · exact absurd hr hne
    · exact ⟨hnet, hconn (hP _ hprev)⟩
  · rw [he.linkNet]
    exact h.connected l ((he.connected l).symm.trans hl)
  · rw [he.relays] at hl
    exact hconn (h.relays l hl)

theorem resolveRoute_ok (h : resolveRoute s net = .ok (next, dst)) :
    (s.getRouteDstFromNet net ≠ "" ∧ dst = s.getRouteDstFromNet net ∧ next = s.routes dst) ∨
    (s.getLinkFromNet net ≠ "" ∧ dst = s.getLinkFromNet net ∧ next = dst) ∨
    ((s.getLinkFromReachableNet net).2 ≠ "" ∧ s.getLinkFromReachableNet net = (next, dst)) := by
  unfold resolveRoute at h
  dsimp only at h
  split at h
  · next hne => cases h; exact .inl ⟨hne, rfl, rfl⟩
  · split at h
    · next hne => cases h; exact .inr (.inl ⟨hne, rfl, rfl⟩)
    · split at h
      · next hne => cases h; exact .inr (.inr ⟨hne, rfl⟩)
      · contradiction

theorem Routed.resolveRoute (h : Routed s) (hr : resolveRoute s net = .ok (next, dst)) :
    Connected s next ∧ NetOf dst net := by
  rcases resolveRoute_ok hr with ⟨hne, rfl, rfl⟩ | ⟨hne, rfl, rfl⟩ | ⟨hne, heq⟩
  · obtain ⟨hnet, -, hl⟩ := h.route net hne
    exact ⟨hl, hnet⟩
  · obtain ⟨hnet, hl⟩ := h.link net hne
    exact ⟨hl, hnet⟩
  · obtain ⟨hnet, hl⟩ := h.reachable net hne
    rw [heq] at hnet hl
    exact ⟨hl, hnet⟩

def HasRoute (s : St W B) (net : String) : Prop := ∃ dst, NetOf dst net ∧ s.routes dst ≠ ""

theorem Routed.resolveRoute_link (h : Routed s) (hl : Connected s l) (hnet : NetOf l net)
    (hroute : ¬ HasRoute s net) : BMC.resolveRoute s net = .ok (l, l) := by
  obtain ⟨net', hnet', hentry⟩ := h.connected l hl
  obtain rfl := hnet.unique hnet'
  have hno : s.getRouteDstFromNet net = "" := by
    by_contra hne
    obtain ⟨hdst, hr, -⟩ := h.route net hne
    exact hroute ⟨_, hdst, hr⟩
  simp [BMC.resolveRoute, hno, hentry, hnet.ne_empty]

def LeadsOver (s : St W B) (link : String) : Prop :=
  (∃ net, s.getRouteDstFromNet net ≠ "" ∧ s.routes (s.getRouteDstFromNet net) = link) ∨
  ∃ net, (s.getLinkFromReachableNet net).2 ≠ "" ∧ (s.getLinkFromReachableNet net).1 = link

def Orderly (s : Management W B) : ManagementTx W B → Prop
  | .addLink _ link => ∀ l net, Connected s.toSt l → NetOf l net → ¬ NetOf link net
  | .removeLink _ link => ¬ LeadsOver s.toSt link
  | .addRoute _ _ link => Connected s.toSt link
  | _ => True

theorem propagateInternal_extends (h : propagateInternal c e names s serviceType link = .ok s') :
    Extends P s s' := by
  refine foldlM_ok (P := Extends P s) (fun t name t' _ ht hname => ht.trans ?_) (.refl P s) h
  split at hname
  · simp only [sendTo, bind_ok, Prod.exists] at hname
    obtain ⟨net, _, -, hname⟩ := hname
    exact sendMessage_extends hname
  · cases hname; exact .refl P t

theorem sendInternal_extends (h : sendInternal c e s target serviceType links = .ok s') :
    Extends P s s' := by
  simp only [sendInternal, sendTo, bind_ok, Prod.exists] at h
  obtain ⟨net, _, -, h⟩ := h
  exact sendMessage_extends h

theorem Extends.with_linkNet (h : Extends P s s') (f : String → String) :
    Extends P { s with getLinkFromNet := f } { s' with getLinkFromNet := f } :=
  ⟨h.routes, h.routeDst, rfl, h.services, h.connected, h.relays, h.reachableNet, h.reachable⟩

theorem connected_setLink :
    Connected { setLink s link l with getLinkFromNet := f } k ↔
      if k = link then l.isConnected = true else Connected s k := by
  simp only [Connected, setLink, update_apply]
  split <;> rfl

section
variable {m m' : Management W B}

theorem addLink_routed (h : Routed m.toSt)
    (hnew : ∀ l net, Connected m.toSt l → NetOf l net → ¬ NetOf link net)
    (hadd : addLink c e m sender link = .ok m') : Routed m'.toSt := by
  simp only [addLink, bind_ok, pure_ok, Prod.exists] at hadd
  obtain ⟨_, -, net, account, hsplit, _, -, t, hprop, u, hinit, rfl⟩ := hadd
  have hnet : NetOf link net := ⟨account, hsplit⟩
  have hprop' : Extends (fun _ => False) _ t := propagateInternal_extends hprop
  have hfresh : Routed { setLink m.toSt link { isConnected := true } with
      getLinkFromNet := update m.getLinkFromNet net link } := by
    have hold : ∀ {l}, Connected m.toSt l → Connected
        { setLink m.toSt link { isConnected := true } with
          getLinkFromNet := update m.getLinkFromNet net link } l := fun {l} hl => by
      rw [connected_setLink]
      split
      · rfl
      · exact hl
    refine ⟨fun net' hne => ?_, fun net' => ?_, fun net' hne => ?_, fun l hl => ?_, fun l hl => ?_⟩
    · obtain ⟨hn, hr, hl⟩ := h.route net' hne
      exact ⟨hn, hr, hold hl⟩
    · simp only [update_apply]
      split
      · next heq =>
        intro _
        exact ⟨heq ▸ hnet, connected_setLink.2 (by rw [if_pos rfl])⟩
      · intro hne
        obtain ⟨hn, hl⟩ := h.link net' hne
        exact ⟨hn, hold hl⟩
    · obtain ⟨hn, hl⟩ := h.reachable net' hne
      exact ⟨hn, hold hl⟩
    · rw [connected_setLink] at hl
      split at hl
      · next heq =>
        subst heq
        exact ⟨net, hnet, update_self ..⟩
      · obtain ⟨net', hn, hentry⟩ := h.connected l hl
        refine ⟨net', hn, ?_⟩
        -- the networks differ, so the entry of `l` is not overwritten
        have hne : net' ≠ net := fun heq => hnew l net hl (heq ▸ hn) hnet
        exact (update_of_ne hne _ _).trans hentry
    · simp only [setLink, update_apply] at hl
      split at hl
      · exact absurd rfl hl
      · exact hold (h.relays l hl)
  have hlinkNet : t.getLinkFromNet = m.getLinkFromNet := hprop'.linkNet
  rw [hlinkNet] at hinit
  have hannounced := (hprop'.with_linkNet (update m.getLinkFromNet net link)).trans
    (sendInternal_extends hinit)
  exact hfresh.extends hannounced fun _ => False.elim

theorem removeLink_routed (h : Routed m.toSt) (hover : ¬ LeadsOver m.toSt link)
    (hrem : removeLink c e m sender link = .ok m') : Routed m'.toSt := by
  simp only [removeLink, bind_ok, require_ok, pure_ok, Prod.exists] at hrem
  obtain ⟨_, -, _, hlink, net, account, hsplit, t, hprop, rfl⟩ := hrem
  have hnet : NetOf link net := ⟨account, hsplit⟩
  refine Routed.extends (P := fun _ => False) ?_ (propagateInternal_extends hprop) fun _ => False.elim
  have hold : ∀ {l}, l ≠ link → Connected m.toSt l → Connected
      { setLink m.toSt link {} with
        getLinkFromNet := update m.getLinkFromNet net "" } l := fun {l} hne hl => by
    rwa [connected_setLink, if_neg hne]
  refine ⟨fun net' hne => ?_, fun net' => ?_, fun net' hne => ?_, fun l hl => ?_, fun l hl => ?_⟩
  · obtain ⟨hn, hr, hl⟩ := h.route net' hne
    exact ⟨hn, hr, hold (fun heq => hover (.inl ⟨net', hne, heq⟩)) hl⟩
  · simp only [update_apply]
    split
    · exact fun hne => absurd rfl hne
    · next hother =>
      intro hne
      obtain ⟨hn, hl⟩ := h.link net' hne
      exact ⟨hn, hold (fun heq => hother ((heq ▸ hn).unique hnet)) hl⟩
  · obtain ⟨hn, hl⟩ := h.reachable net' hne
    exact ⟨hn, hold (fun heq => hover (.inr ⟨net', hne, heq⟩)) hl⟩
  · rw [connected_setLink] at hl
    split at hl
    · contradiction
    · next hother =>
      obtain ⟨net', hn, hentry⟩ := h.connected l hl
      refine ⟨net', hn, ?_⟩
      -- the entry of the network of `link` is `link`
      have hne : net' ≠ net := by
        rintro rfl
        obtain ⟨net'', hn'', hentry''⟩ := h.connected link hlink
        rw [← hn''.unique hnet] at hentry
        exact hother (hentry.symm.trans hentry'')
      exact (update_of_ne hne _ _).trans hentry
  · simp only [setLink, update_apply] at hl
    split at hl
    · exact absurd rfl hl
    · next hother => exact hold hother (h.relays l hl)

theorem addRoute_routed (h : Routed m.toSt) (hlink : Connected m.toSt link)
    (hadd : addRoute c m sender dst link = .ok m') : Routed m'.toSt := by
  simp only [addRoute, bind_ok, require_ok, pure_ok, Prod.exists, decide_eq_true_eq] at hadd
  obtain ⟨_, -, _, hnone, net, account, hsplit, net', account', hsplit', rfl⟩ := hadd
  refine ⟨fun k => ?_, h.link, h.reachable, h.connected, h.relays⟩
  dsimp only
  by_cases hk : k = net
  · subst hk
    simp only [update_self]
    have hlinkNet : NetOf link net' := ⟨account', hsplit'⟩
    exact fun _ => ⟨⟨account, hsplit⟩, hlinkNet.ne_empty, hlink⟩
  · rw [update_of_ne hk]
    intro hne
    obtain ⟨hn, hr, hl⟩ := h.route k hne
    have hdst : m.getRouteDstFromNet k ≠ dst := fun heq => hr (heq ▸ hnone)
    rw [update_of_ne hdst]
    exact ⟨hn, hr, hl⟩

theorem removeRoute_routed (h : Routed m.toSt) (hrem : removeRoute c m sender dst = .ok m') :
    Routed m'.toSt := by
  simp only [removeRoute, bind_ok, require_ok, pure_ok, Prod.exists] at hrem
  obtain ⟨_, -, _, -, net, account, hsplit, rfl⟩ := hrem
  refine ⟨fun k => ?_, h.link, h.reachable, h.connected, h.relays⟩
  dsimp only
  by_cases hk : k = net
  · subst hk
    rw [update_self]
    exact fun hne => absurd rfl hne
  · rw [update_of_ne hk]
    intro hne
    obtain ⟨hn, hr, hl⟩ := h.route k hne
    have hdst : m.getRouteDstFromNet k ≠ dst := fun heq => hk ((heq ▸ hn).unique ⟨account, hsplit⟩)
    rw [update_of_ne hdst]
    exact ⟨hn, hr, hl⟩

theorem Routed.with_relays (h : Routed s) (hlink : Connected s name)
    (hlinks : s'.links = update s.links name { s.links name with relays := rs })
    (hroutes : s'.routes = s.routes) (hdst : s'.getRouteDstFromNet = s.getRouteDstFromNet)
    (hnet : s'.getLinkFromNet = s.getLinkFromNet)
    (hreach : s'.getLinkFromReachableNet = s.getLinkFromReachableNet) : Routed s' := by
  have hconn : ∀ l, Connected s' l ↔ Connected s l := by
    intro l
    simp only [Connected, hlinks, update_apply]
    split <;> simp [*]
  refine ⟨?_, ?_, ?_, ?_, fun l hl => ?_⟩
  · simpa only [hroutes, hdst, hconn] using h.route
  · simpa only [hnet, hconn] using h.link
  · simpa only [hreach, hconn] using h.reachable
  · simpa only [hnet, hconn] using h.connected
  · rw [hconn]
    by_cases heq : l = name
    · exact heq ▸ hlink
    · rw [hlinks, update_of_ne heq] at hl
      exact h.relays l hl

theorem step_routed (h : Routed s) (hstep : step c s tx = .ok s') : Routed s' := by
  cases tx with
  | handleRelayMessage sender prev msg =>
    obtain ⟨hsender, hext⟩ := handleRelayMessage_extends hstep
    refine h.extends hext ?_
    rintro l rfl
    exact h.relays l (ne_nil_of_mem hsender)
  | addRelay sender link addrs =>
    simp only [step, addRelay, bind_ok, require_ok, pure_ok] at hstep
    obtain ⟨_, -, _, hlink, rfl⟩ := hstep
    exact h.with_relays hlink rfl rfl rfl rfl rfl
  | removeRelay sender link addr =>
    simp only [step, removeRelay, bind_ok, require_ok, pure_ok, Bool.and_eq_true] at hstep
    obtain ⟨_, -, _, ⟨hlink, -⟩, rfl⟩ := hstep
    exact h.with_relays hlink rfl rfl rfl rfl rfl
  | service addr f => exact h.extends (P := fun _ => False) (callService_extends hstep) fun _ => False.elim

theorem manage_routed (h : Routed m.toSt) (hc : Orderly m tx) (hm : manage c e m tx = .ok m') :
    Routed m'.toSt := by
  cases tx with
  | periphery tx =>
    simp only [manage, bind_ok, pure_ok] at hm
    obtain ⟨t, ht, rfl⟩ := hm
    exact step_routed h ht
  | addLink sender link => exact addLink_routed h hc hm
  | removeLink sender link => exact removeLink_routed h hc hm
  | setLinkRxHeight sender link height =>
    simp only [manage, setLinkRxHeight, bind_ok, pure_ok] at hm
    obtain ⟨_, -, _, -, _, -, rfl⟩ := hm
    refine h.extends (P := fun _ => False) ?_ fun _ => False.elim
    exact .of_links rfl rfl rfl (fun _ => .inl) rfl rfl rfl rfl fun _ => .inl rfl
  | addRoute sender dst link => exact addRoute_routed h hc hm
  | removeRoute sender dst => exact removeRoute_routed h hm
  | addService sender svc addr =>
    simp only [manage, addService, bind_ok, pure_ok] at hm
    obtain ⟨_, -, _, -, _, -, rfl⟩ := hm
    exact ⟨h.route, h.link, h.reachable, h.connected, h.relays⟩
  | removeService sender svc =>
    simp only [manage, removeService, bind_ok, pure_ok] at hm
    obtain ⟨_, -, _, -, rfl⟩ := hm
    exact ⟨h.route, h.link, h.reachable, h.connected, h.relays⟩

end

/-- In every state that orderly owners and any messages lead to, a resolved
route starts with a connected link and ends in the network asked for, and the
network of a connected link is reached over that link unless it has a route. -/
theorem routes_consistent (c : Config W B) (e : InternalCodec B) (world : W)
    (txs : List (ManagementTx W B)) (h : Along (manage c e) Orderly (Management.fresh world) txs) :
    let t := (run (manage c e) (Management.fresh world) txs).toSt
    (∀ net next dst, resolveRoute t net = .ok (next, dst) → Connected t next ∧ NetOf dst net) ∧
    ∀ l net, Connected t l → NetOf l net → ¬ HasRoute t net → resolveRoute t net = .ok (l, l) := by
  intro t
  have hrouted : Routed t :=
    run_along (P := fun m => Routed m.toSt) (fun _ _ _ hm hc hstep => manage_routed hm hc hstep)
      (Routed.fresh world) h
  exact ⟨fun _ _ _ => hrouted.resolveRoute, fun _ _ => hrouted.resolveRoute_link⟩

def ownedConfig : Config Unit Packet := { packetConfig with isOwner := fun a => a = 1 }

def packetInternal : InternalCodec Packet where
  encodePropagate _ _ := .noise
  encodeLinks _ _ := .noise

def ownedState (txs : List (ManagementTx Unit Packet)) : St Unit Packet :=
  (run (manage ownedConfig packetInternal) (Management.fresh ()) txs).toSt

def routeRun : List (ManagementTx Unit Packet) :=
  [.addLink 1 "btp://0x1.icon/cx02",
   .addRoute 1 "btp://0x2.icon/cx03" "btp://0x1.icon/cx02"]

theorem routeRun_consistent :
    Connected (ownedState routeRun) "btp://0x1.icon/cx02" ∧
      NetOf "btp://0x2.icon/cx03" "0x2.icon" := by
  refine (routes_consistent ownedConfig packetInternal () routeRun ⟨?_, ?_, trivial⟩).1
    "0x2.icon" "btp://0x1.icon/cx02" "btp://0x2.icon/cx03" (by decide +kernel)
  · rintro l net hl
    exact nomatch hl
  · change Connected _ _
    decide +kernel

def staleRun : List (ManagementTx Unit Packet) :=
  routeRun ++ [.removeLink 1 "btp://0x1.icon/cx02"]

def twinRun : List (ManagementTx Unit Packet) :=
  [.addLink 1 "btp://0x1.icon/cx02", .addLink 1 "btp://0x1.icon/cx03"]

/-- A link is removed under a route, and two links share a network. -/
theorem routes_inconsistent :
    (resolveRoute (ownedState staleRun) "0x2.icon" =
        .ok ("btp://0x1.icon/cx02", "btp://0x2.icon/cx03") ∧
      ¬ Connected (ownedState staleRun) "btp://0x1.icon/cx02") ∧
    (Connected (ownedState twinRun) "btp://0x1.icon/cx02" ∧
      NetOf "btp://0x1.icon/cx02" "0x1.icon" ∧ ¬ HasRoute (ownedState twinRun) "0x1.icon" ∧
      resolveRoute (ownedState twinRun) "0x1.icon" =
        .ok ("btp://0x1.icon/cx03", "btp://0x1.icon/cx03")) := by
  refine ⟨⟨by decide +kernel, by decide +kernel⟩, by decide +kernel,
    ⟨"cx02", by decide +kernel⟩, ?_, by decide +kernel⟩
  rintro ⟨dst, -, hroute⟩
  exact hroute rfl

end IconBridge.Solidity.BMC
