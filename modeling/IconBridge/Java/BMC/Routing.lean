import IconBridge.Java.BMC.Sequencing

/-!
# Where messages go

A message of a service is addressed to the link it leaves over, whichever
network it was meant for. Links are told apart by their addresses, so several
can have the same network.
-/

namespace IconBridge.Java.BMC

open Lib List

variable {W B : Type} {c : Config W B} {s s' : St W B} {prev : BTPAddress}

/-- The network is that of a link: of the one its route leads to or, without a
route, of any. -/
def Direct (c : Config W B) (s : St W B) (net : String) : Prop :=
  match resolveRoute c s net with
  | some next => next.net = net
  | none => ∃ link ∈ s.links.keys, link.net = net

instance : Decidable (Direct c s net) :=
  match h : resolveRoute c s net with
  | some next => decidable_of_iff (next.net = net) (by rw [Direct, h])
  | none => decidable_of_iff (∃ link ∈ s.links.keys, link.net = net) (by rw [Direct, h])

/-- The next hop is registered, and its network is the one asked for exactly
when that network is the network of a link. -/
theorem resolveNext_ok (h : resolveNext c s net = .ok link) :
    link ∈ s.links.keys ∧ (link.net = net ↔ Direct c s net) := by
  simp only [resolveNext] at h
  split at h
  · next next hroute =>
    simp only [bind_ok, pure_ok, getLink_ok] at h
    obtain ⟨l, hl, rfl⟩ := h
    rw [Direct, hroute]
    exact ⟨(s.links.mem_keys next).2 (by simp [hl]), Iff.rfl⟩
  · next hroute =>
    rw [Direct, hroute]
    split at h
    · next key hkey =>
      cases h
      have hmem := mem_of_find?_eq_some hkey
      have hnet : link.net = net := by simpa using find?_some hkey
      exact ⟨hmem, fun _ => ⟨link, hmem, hnet⟩, fun _ => hnet⟩
    · next hnone =>
      have hother : ∀ key ∈ s.links.keys, key.net ≠ net := by
        simpa using find?_eq_none.1 hnone
      split at h
      · next key hkey =>
        cases h
        have hmem := mem_of_find?_eq_some hkey
        refine ⟨hmem, fun hnet => absurd hnet (hother _ hmem), ?_⟩
        rintro ⟨key, hkey, hnet⟩
        exact absurd hnet (hother key hkey)
      · contradiction

def BTPMessage.overLink (c : Config W B) (link : BTPAddress) (m : Send B) : BTPMessage B where
  src := some c.btpAddr
  dst := some link
  svc := some m.svc
  sn := some m.sn
  payload := some m.msg

/-- In every state that is reached, a message of a service goes out over a
registered link. It is addressed to the network it was sent to exactly when that
network is the network of the link. -/
theorem sendMessage_addressed (c : Config W B) (w : W) (txs : List (Tx W B)) (caller : Address)
    (m : Send B) (s' : St W B)
    (h : sendMessage c caller (run (step c) { world := w } txs) m = .ok s') :
    let s := run (step c) { world := w } txs
    ∃ link l, s.links.val link = some l ∧
      s'.links.val link = some { l with txSeq := l.txSeq + 1 } ∧
      s'.messages = s.messages ++
        [⟨link, l.txSeq + 1, c.codec.ofBTPMessage (.overLink c link m)⟩] ∧
      (link.net = m.target ↔ Direct c s m.target) := by
  intro s
  unfold sendMessage at h
  split at h
  · contradiction
  · simp only [bind_ok, emitMessage, getLink_ok, pure_ok] at h
    obtain ⟨_, -, _, -, link, hnext, l, hl, rfl⟩ := h
    exact ⟨link, l, hl, Dict.val_put_self, rfl, (resolveNext_ok hnext).2⟩

/-- The neighbour has announced a link of its own, and the service sends to the
neighbour and to the network behind it. -/
def announcedRun : List (Tx Unit Wire) := wireRun ++ [.admin relay (.addService "bts" relay)]

def announced : St Unit Wire := run (step wireConfig) { world := () } announcedRun

def messageTo (net : String) : Send Wire := { target := net, svc := "bts", sn := 1, msg := .other }

theorem neighbour_addressed :
    ∃ s' link, sendMessage wireConfig relay announced (messageTo "0x61.bsc") = .ok s' ∧
      (s'.messages.map Emitted.next).getLast? = some link ∧ link.net = "0x61.bsc" := by
  obtain ⟨s', hs'⟩ := toBool_ok.1 (show (sendMessage wireConfig relay announced
    (messageTo "0x61.bsc")).toBool = true by decide +kernel)
  obtain ⟨link, l, -, -, hmessages, hnet⟩ := sendMessage_addressed wireConfig () announcedRun relay
    (messageTo "0x61.bsc") s' hs'
  refine ⟨s', link, hs', by simp [hmessages], hnet.2 ?_⟩
  decide +kernel

/-- The message for the network behind the neighbour is addressed to the
neighbour. -/
theorem behind_neighbour_misaddressed :
    (sendMessage wireConfig relay announced (messageTo "0x1.near")).map
      (fun s => s.messages.getLast?.bind fun e => (wireCodec.btpMessage e.msg).toOption.bind
        fun m => m.dst.map BTPAddress.net) = .ok (some "0x61.bsc") := by
  decide +kernel

def DistinctNetworks (s : St W B) : Prop :=
  ∀ l ∈ s.links.keys, ∀ l' ∈ s.links.keys, l.net = l'.net → l = l'

theorem resolveNext_of_distinct (hs : DistinctNetworks s) (hl : l ∈ s.links.keys)
    (hroute : resolveRoute c s l.net = none) : resolveNext c s l.net = .ok l := by
  simp only [resolveNext, hroute]
  cases hfind : s.links.keys.find? fun key => key.net = l.net with
  | none =>
    have hother := find?_eq_none.1 hfind l hl
    simp at hother
  | some key =>
    have hnet : key.net = l.net := by simpa using find?_some hfind
    rw [hs key (mem_of_find?_eq_some hfind) l hl hnet]

/-- The links are the same ones, whatever was written to them. -/
def SameLinks (s s' : St W B) : Prop := s'.links.keys = s.links.keys

theorem sameLinks_putLink (l' : Link) (hl : s.links.val prev = some l) :
    SameLinks s (putLink s prev l') := by
  simp [SameLinks, putLink, Dict.put, hl]

theorem sameLinks_rule (prev : BTPAddress) : Rule prev (SameLinks (W := W) (B := B)) where
  refl _ := rfl
  trans h1 h2 := h2.trans h1
  emit h := by
    simp only [emitMessage, bind_ok, pure_ok, getLink_ok] at h
    obtain ⟨l, hl, rfl⟩ := h
    exact sameLinks_putLink _ hl
  world _ _ := rfl
  report _ _ := rfl
  put l' hl := sameLinks_putLink l' hl

theorem distributeRelayerReward_links :
    (distributeRelayerReward c s height).links = s.links := by
  unfold distributeRelayerReward
  dsimp only
  split
  · split <;> rfl
  · rfl

theorem handleRelayMessage_sameLinks {prev : String}
    (h : handleRelayMessage c s sender height prev msg = .ok s') : SameLinks s s' := by
  simp only [handleRelayMessage, bind_ok, pure_ok, Prod.exists] at h
  obtain ⟨prev, -, l, -, _, -, rps, -, t, rxSeq, rxHeight, ht, u, hu, v, hv, rfl⟩ := h
  obtain ⟨⟨es, -, -, hfold, -⟩, -⟩ := Inbox.receive_ok ht
  have hevents : SameLinks s t := by
    refine foldlM_ok (P := SameLinks s) (fun x e x' _ hx he => ?_) rfl hfold
    exact ((sameLinks_rule prev).processEvent he : _ = x.links.keys).trans hx
  have hwritten : SameLinks t u := by
    simp only [writeBack, bind_ok, pure_ok, getLink_ok] at hu
    obtain ⟨k, hk, _, -, rfl⟩ := hu
    exact sameLinks_putLink _ hk
  have hgathered : SameLinks u v := (sameLinks_rule prev).gatherOnTerm (fun _ _ => rfl) hv
  rw [SameLinks, distributeRelayerReward_links]
  exact hgathered.trans (hwritten.trans hevents)

def Tx.Adds (c : Config W B) (l : BTPAddress) : Tx W B → Prop
  | .admin _ (.addLink link) => c.valueOf link = .ok l
  | _ => False

theorem Tx.Adds.unique {tx : Tx W B} (h : tx.Adds c l) (h' : tx.Adds c l') : l = l' := by
  cases tx with
  | admin sender a =>
    cases a with
    | addLink link => exact Except.ok.inj (Eq.trans (Eq.symm h) h')
    | _ => exact h.elim
  | _ => exact h.elim

theorem addLink_keys (h : addLink c s link = .ok s') (hl : l ∈ s'.links.keys) :
    l ∈ s.links.keys ∨ c.valueOf link = .ok l := by
  simp only [addLink, bind_ok] at h
  obtain ⟨target, htarget, _, -, t, ht, h⟩ := h
  have hlinks : t.links.keys = s.links.keys := (sameLinks_rule target).propagateInternal ht
  have hput : s'.links.keys = (t.links.put target {}).keys := (sameLinks_rule target).emit h
  rw [hput, Dict.mem_keys, Dict.val_put] at hl
  split at hl
  · next heq => exact .inr (heq ▸ htarget)
  · rw [← Dict.mem_keys, hlinks] at hl
    exact .inl hl

theorem removeLink_keys (h : removeLink c s link = .ok s') (hl : l ∈ s'.links.keys) :
    l ∈ s.links.keys := by
  simp only [removeLink, bind_ok, pure_ok] at h
  obtain ⟨target, -, _, -, _, -, t, ht, rfl⟩ := h
  have hlinks : t.links.keys = s.links.keys := (sameLinks_rule target).propagateInternal ht
  rw [Dict.mem_keys, Dict.val_remove] at hl
  split at hl
  · contradiction
  · rw [← Dict.mem_keys, hlinks] at hl
    exact hl

theorem step_keys (h : step c s tx = .ok s') (hl : l ∈ s'.links.keys) :
    l ∈ s.links.keys ∨ tx.Adds c l := by
  have hsame (hlinks : SameLinks s s') : l ∈ s.links.keys ∨ tx.Adds c l := .inl (hlinks ▸ hl)
  cases tx with
  | handleRelayMessage => exact hsame (handleRelayMessage_sameLinks h)
  | service => exact hsame ((sameLinks_rule c.btpAddr).callService h)
  | sendFeeGathering =>
    simp only [step, sendFeeGathering, bind_ok] at h
    obtain ⟨_, -, _, -, h⟩ := h
    split at h
    · contradiction
    · exact hsame ((sameLinks_rule c.btpAddr).gatherFrom h)
  | distributeRelayerReward =>
    cases h
    exact hsame (congrArg Dict.keys distributeRelayerReward_links)
  | fallback =>
    cases h
    exact hsame rfl
  | admin sender a =>
    obtain ⟨_, -, h⟩ := bind_ok.1 h
    cases a with
    | addLink link => exact addLink_keys h hl
    | removeLink link => exact .inl (removeLink_keys h hl)
    | setLinkRxHeight link height =>
      simp only [administer, setLinkRxHeight, bind_ok, pure_ok, getLink_ok] at h
      obtain ⟨_, -, k, hk, rfl⟩ := h
      exact hsame (sameLinks_putLink _ hk)
    | setFeeAggregator =>
      cases h
      exact hsame rfl
    | _ =>
      simp only [administer, addService, removeService, addRoute, removeRoute, addRelay, removeRelay,
        setFeeGatheringTerm, bind_ok, pure_ok] at h
      obtain ⟨_, _, h⟩ := h
      first
        | obtain rfl := h
        | obtain ⟨_, -, rfl⟩ := h
        | obtain ⟨_, -, _, -, rfl⟩ := h
      exact hsame rfl

/-- A link is added only when no registered link has its network. -/
def NewNetwork (c : Config W B) (s : St W B) (tx : Tx W B) : Prop :=
  ∀ l, tx.Adds c l → ∀ l' ∈ s.links.keys, l'.net ≠ l.net

theorem step_distinctNetworks (hs : DistinctNetworks s) (hnew : NewNetwork c s tx)
    (h : step c s tx = .ok s') : DistinctNetworks s' := by
  intro l hl l' hl' hnet
  rcases step_keys h hl with hl | hadds <;> rcases step_keys h hl' with hl' | hadds'
  · exact hs l hl l' hl' hnet
  · exact absurd hnet (hnew l' hadds' l hl)
  · exact absurd hnet.symm (hnew l hadds l' hl')
  · exact hadds.unique hadds'

/-- If only links of new networks are added, no two links have the same network,
and a network without a route is reached over its own link. -/
theorem links_of_distinct_networks (c : Config W B) (w : W) (txs : List (Tx W B))
    (hnew : Along (step c) (NewNetwork c) { world := w } txs) :
    let s := run (step c) { world := w } txs
    (∀ l ∈ s.links.keys, ∀ l' ∈ s.links.keys, l.net = l'.net → l = l') ∧
    ∀ l ∈ s.links.keys, resolveRoute c s l.net = none → resolveNext c s l.net = .ok l := by
  intro s
  have hs : DistinctNetworks s := by
    refine run_along (fun _ _ _ hs hC h => step_distinctNetworks hs hC h) ?_ hnew
    intro l hl
    simp [Dict.empty] at hl
  exact ⟨hs, fun l hl hroute => resolveNext_of_distinct hs hl hroute⟩

def bscOther : BTPAddress := ⟨"btp", "0x61.bsc", "0x03"⟩

def linkConfig : Config Unit Wire :=
  { wireConfig with
    valueOf := fun str => ([bsc, bscOther, near].find? fun a => a.toString = str).elim
      (.error (.other "IllegalArgumentException")) .ok }

def addLinks (links : List BTPAddress) : List (Tx Unit Wire) :=
  links.map fun l => .admin relay (.addLink l.toString)

theorem two_networks_resolved :
    resolveNext linkConfig (run (step linkConfig) { world := () } (addLinks [bsc, near])) near.net =
      .ok near := by
  have hnew : Along (step linkConfig) (NewNetwork linkConfig) { world := () } (addLinks [bsc, near]) := by
    refine ⟨fun l _ l' hl' => by simp [Dict.empty] at hl', fun l hl l' hl' => ?_, trivial⟩
    have hkeys : (exec (step linkConfig) { world := () }
        (.admin relay (.addLink bsc.toString))).links.keys = [bsc] := by decide +kernel
    have hl : linkConfig.valueOf near.toString = .ok l := hl
    have hvalue : linkConfig.valueOf near.toString = .ok near := by decide +kernel
    rw [hkeys, mem_singleton] at hl'
    cases hvalue.symm.trans hl
    subst hl'
    decide
  exact (links_of_distinct_networks linkConfig () (addLinks [bsc, near]) hnew).2 near
    (by decide +kernel) (by decide +kernel)

/-- A second link of the same network is accepted, and not found. -/
theorem second_link_shadowed :
    (run (step linkConfig) { world := () } (addLinks [bsc, bscOther])).links.keys = [bsc, bscOther] ∧
    bsc.net = bscOther.net ∧
    resolveRoute linkConfig (run (step linkConfig) { world := () } (addLinks [bsc, bscOther]))
      bscOther.net = none ∧
    resolveNext linkConfig (run (step linkConfig) { world := () } (addLinks [bsc, bscOther]))
      bscOther.net = .ok bsc := by
  decide +kernel

end IconBridge.Java.BMC
