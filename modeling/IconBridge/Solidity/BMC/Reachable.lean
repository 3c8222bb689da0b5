import IconBridge.Solidity.BMC.Acceptance

/-!
# The list of what a link reaches

The neighbour tells which centers it has links to. `Link` looks whether the
address is listed already, `Init` appends without looking, and `Unlink` goes
over a copy of the list while it deletes from the list itself.
-/

namespace IconBridge.Solidity.BMC

open Lib Option List

variable {W B : Type} {c : Config W B} {s s' : St W B} {prev : String} {m : BMCMessage B}

inductive Notice
  | init (links : List String)
  | link (target : String)
  | unlink (target : String)
  deriving DecidableEq

/-- What the internal message tells about the links of its sender, if that is
what it is about and if it can be read. -/
def Config.notice (c : Config W B) (m : BMCMessage B) : Option Notice := do
  let sm ← (c.codec.decodeBMCService m.message).toOption
  if sm.serviceType = "Link" then
    return .link (← (c.codec.decodePropagateMessage sm.payload).toOption)
  else if sm.serviceType = "Unlink" then
    return .unlink (← (c.codec.decodePropagateMessage sm.payload).toOption)
  else if sm.serviceType = "Init" then
    return .init (← (c.codec.decodeInitMessage sm.payload).toOption)
  else none

def Notice.take (n : Notice) (s : St W B) (prev : String) : Outcome (St W B) :=
  match n with
  | .init links => updateLinkReachable s prev links
  | .link target =>
    if target ∈ (s.links prev).reachable then .ok s else updateLinkReachable s prev [target]
  | .unlink target => unlinkFrom s prev target [] (s.links prev).reachable

/-- An `Init` lists no address twice and none that is listed already. -/
def Notice.Fresh (n : Notice) (reachable : List String) : Prop :=
  match n with
  | .init links => links.Nodup ∧ ∀ l ∈ links, l ∉ reachable
  | .link _ | .unlink _ => True

instance (n : Notice) (reachable : List String) : Decidable (n.Fresh reachable) :=
  match n with
  | .init links => inferInstanceAs (Decidable (links.Nodup ∧ ∀ l ∈ links, l ∉ reachable))
  | .link _ | .unlink _ => .isTrue trivial

/-- The messages are notices, and every `Init` among them is fresh. -/
def FreshNotice (c : Config W B) (prev : String) (s : St W B) (m : BMCMessage B) : Prop :=
  ∃ n ∈ c.notice m, n.Fresh (s.links prev).reachable

instance (c : Config W B) (prev : String) (s : St W B) (m : BMCMessage B) :
    Decidable (FreshNotice c prev s m) :=
  inferInstanceAs (Decidable (∃ n ∈ c.notice m, n.Fresh (s.links prev).reachable))

theorem handleInternal_of_notice (hm : c.notice m = some n)
    (hconn : (s.links prev).isConnected = true) : handleInternal c s prev m = n.take s prev := by
  simp only [Config.notice, bind_eq_bind, bind_eq_some_iff] at hm
  obtain ⟨sm, hsm, hm⟩ := hm
  simp only [handleInternal, toOption_eq_some hsm]
  split at hm
  · next htype =>
    obtain ⟨target, hdec, hn⟩ := bind_eq_some_iff.1 hm
    cases hn
    rw [htype, if_neg (by decide), if_pos rfl, handleLink, toOption_eq_some hdec, ok_bind]
    simp only [hconn, true_and, ite_not, Notice.take]
  split at hm
  · next htype =>
    obtain ⟨target, hdec, hn⟩ := bind_eq_some_iff.1 hm
    cases hn
    rw [htype, if_neg (by decide), if_neg (by decide), if_pos rfl, handleUnlink,
      toOption_eq_some hdec, ok_bind]
    simp only [hconn, if_true, Notice.take]
    rfl
  split at hm
  · next htype =>
    obtain ⟨links, hdec, hn⟩ := bind_eq_some_iff.1 hm
    cases hn
    rw [htype, if_neg (by decide), if_neg (by decide), if_neg (by decide), if_pos rfl, handleInit,
      toOption_eq_some hdec, ok_bind]
    rfl
  · cases hm

structure Tidy (prev : String) (s : St W B) : Prop where
  connected : (s.links prev).isConnected = true
  nodup : (s.links prev).reachable.Nodup
  readable : ∀ l ∈ (s.links prev).reachable, Readable l

theorem updateLinkReachable_appends {links : List String}
    (h : updateLinkReachable s prev links = .ok s') :
    (s'.links prev).reachable = (s.links prev).reachable ++ links ∧
    (s'.links prev).isConnected = (s.links prev).isConnected ∧ ∀ l ∈ links, Readable l := by
  induction links generalizing s with
  | nil =>
    cases h
    exact ⟨(append_nil _).symm, rfl, by simp⟩
  | cons l links ih =>
    simp only [updateLinkReachable, foldlM_cons, bind_ok, pure_ok, Prod.exists] at h
    obtain ⟨t, ⟨net, account, hsplit, rfl⟩, h⟩ := h
    obtain ⟨hlist, hconn, hread⟩ := ih h
    refine ⟨?_, ?_, forall_mem_cons.2 ⟨⟨net, account, hsplit⟩, hread⟩⟩
    · simpa [setLink] using hlist
    · simpa [setLink] using hconn

theorem Tidy.update (h : Tidy prev s) (hs : updateLinkReachable s prev links = .ok s')
    (hnodup : links.Nodup) (hnew : ∀ l ∈ links, l ∉ (s.links prev).reachable) : Tidy prev s' := by
  obtain ⟨hlist, hconn, hread⟩ := updateLinkReachable_appends hs
  refine ⟨hconn.trans h.connected, ?_, ?_⟩
  · rw [hlist]
    exact h.nodup.append hnodup (disjoint_right.2 hnew)
  · rw [hlist]
    exact forall_mem_append.2 ⟨h.readable, hread⟩

theorem Tidy.unlink (h : Tidy prev s) (target : String) :
    ∃ s', (Notice.unlink target).take s prev = .ok s' ∧ Tidy prev s' ∧
      ∀ a, a ∈ (s'.links prev).reachable ↔ a ∈ (s.links prev).reachable ∧ a ≠ target := by
  obtain ⟨s', hs', hconn, hperm⟩ :=
    unlinkFrom_erases [] rfl h.readable (nodup_iff_count_le_one.1 h.nodup target)
  rw [nil_append] at hperm
  have hmem : ∀ a, a ∈ (s'.links prev).reachable ↔ a ∈ (s.links prev).reachable ∧ a ≠ target := by
    intro a
    rw [hperm.mem_iff, h.nodup.mem_erase_iff, and_comm]
  refine ⟨s', hs', ⟨hconn.trans h.connected, ?_, ?_⟩, hmem⟩
  · exact hperm.nodup_iff.2 (h.nodup.erase target)
  · intro l hl
    exact h.readable l ((hmem l).1 hl).1

theorem handleInternal_tidy (h : Tidy prev s) (hm : FreshNotice c prev s m)
    (hs : handleInternal c s prev m = .ok s') : Tidy prev s' := by
  obtain ⟨n, hn, hfresh⟩ := hm
  rw [handleInternal_of_notice hn h.connected] at hs
  cases n with
  | init links => exact h.update hs hfresh.1 hfresh.2
  | link target =>
    rw [Notice.take] at hs
    split at hs
    · cases hs
      exact h
    · next hnew => exact h.update hs (nodup_singleton target) (by simpa using hnew)
  | unlink target =>
    obtain ⟨t, ht, htidy, -⟩ := h.unlink target
    cases ht.symm.trans hs
    exact htidy

/-- While every `Init` is fresh the list has no address twice, and an `Unlink`
that comes next takes its address out and leaves the others. -/
theorem reachable_maintained (c : Config W B) (prev : String) (s : St W B)
    (ms : List (BMCMessage B)) (hconn : (s.links prev).isConnected = true)
    (hempty : (s.links prev).reachable = [])
    (hms : Along (handleInternal c · prev) (FreshNotice c prev) s ms) :
    let t := run (handleInternal c · prev) s ms
    (t.links prev).reachable.Nodup ∧
    ∀ m target, c.notice m = some (.unlink target) →
      ∃ t', handleInternal c t prev m = .ok t' ∧
        ∀ a, a ∈ (t'.links prev).reachable ↔ a ∈ (t.links prev).reachable ∧ a ≠ target := by
  have hstart : Tidy prev s := ⟨hconn, by simp [hempty], by simp [hempty]⟩
  have htidy : Tidy prev (run (handleInternal c · prev) s ms) :=
    run_along (fun _ _ _ ht hm hs => handleInternal_tidy ht hm hs) hstart hms
  refine ⟨htidy.nodup, fun m target hm => ?_⟩
  obtain ⟨t', ht', -, hmem⟩ := htidy.unlink target
  exact ⟨t', (handleInternal_of_notice hm htidy.connected).trans ht', hmem⟩

def noticeLetter (serviceType : String) (links : List String) : BMCMessage Letter where
  src := "btp://0x1.icon/cx02"
  dst := "btp://0x61.bsc/0x01"
  svc := "bmc"
  sn := 0
  message := .service serviceType (.links links)

def noticeLetters : List (BMCMessage Letter) :=
  [noticeLetter "Init" ["btp://0x2.near/a", "btp://0x3.bsc/b"],
   noticeLetter "Link" ["btp://0x2.near/a"],
   noticeLetter "Unlink" ["btp://0x3.bsc/b"],
   noticeLetter "Link" ["btp://0x4.hmny/d"]]

theorem notices_maintained :
    let t := run (handleInternal letterConfig · "btp://0x1.icon/cx02") letterState noticeLetters
    (t.links "btp://0x1.icon/cx02").reachable = ["btp://0x2.near/a", "btp://0x4.hmny/d"] ∧
    ∃ t', handleInternal letterConfig t "btp://0x1.icon/cx02"
        (noticeLetter "Unlink" ["btp://0x2.near/a"]) = .ok t' ∧
      "btp://0x4.hmny/d" ∈ (t'.links "btp://0x1.icon/cx02").reachable := by
  refine ⟨by decide +kernel, ?_⟩
  obtain ⟨t', ht', hmem⟩ := (reachable_maintained letterConfig "btp://0x1.icon/cx02" letterState
    noticeLetters (by decide +kernel) (by decide +kernel) (by decide +kernel)).2
    (noticeLetter "Unlink" ["btp://0x2.near/a"]) "btp://0x2.near/a" (by decide +kernel)
  exact ⟨t', ht', (hmem _).2 ⟨by decide +kernel, by decide⟩⟩

/-- An `Init` that names an address twice lists it twice. The `Unlink` of that
address then reverts: the second index it deletes is past the end. -/
theorem doubled_link_stuck :
    let t := run (handleInternal letterConfig · "btp://0x1.icon/cx02") letterState
      [noticeLetter "Init" ["btp://0x2.near/a", "btp://0x2.near/a"]]
    (letterState.links "btp://0x1.icon/cx02").isConnected = true ∧
    (letterState.links "btp://0x1.icon/cx02").reachable = [] ∧
    ¬ (t.links "btp://0x1.icon/cx02").reachable.Nodup ∧
    letterConfig.notice (noticeLetter "Unlink" ["btp://0x2.near/a"]) =
      some (.unlink "btp://0x2.near/a") ∧
    (match handleInternal letterConfig t "btp://0x1.icon/cx02"
        (noticeLetter "Unlink" ["btp://0x2.near/a"]) with
      | .ok _ => False
      | .error e => e = .panic 0x32) := by
  refine ⟨by decide +kernel, by decide +kernel, by decide +kernel, by decide +kernel, ?_⟩
  rfl

end IconBridge.Solidity.BMC
