import Mathlib.Data.List.ReduceOption
import IconBridge.Java.BMC.Dispatch

/-!
# What handling an event does to the links

Handling an event may send messages on the very link whose record is being
processed. Sending touches `txSeq` alone, and the rest is what the neighbour
announces about itself, a function of the events it has sent.
-/

namespace IconBridge.Java.BMC

open Lib List

variable {W B : Type} {c : Config W B} {s s' t : St W B} {next prev : BTPAddress}

structure Announced where
  reachable : List BTPAddress := []
  sackHeight : ℤ := 0
  sackSeq : Option ℤ := some 0
  deriving DecidableEq, Repr

def announcement (c : Config W B) (prev : BTPAddress) (ev : EventDataBTPMessage B) :
    Option (Internal × Option B) :=
  match c.codec.btpMessage ev.msg with
  | .error _ => none
  | .ok m =>
    if m.dst = some c.btpAddr ∧ m.svc = some "bmc" ∧ m.src = some prev then
      match c.codec.bmcMessage m.payload with
      | .error _ => none
      | .ok bm => (bm.type.bind Internal.fromString).map (·, bm.payload)
    else none

def Announced.update (codec : Codec B) (payload : Option B) (a : Announced) : Internal → Announced
  | .init =>
    match codec.initMessage payload with
    | .ok (some links) => { a with reachable := a.reachable ++ links.reduceOption }
    | _ => a
  | .link =>
    match codec.linkMessage payload with
    | .ok (some r) => { a with reachable := if r ∈ a.reachable then a.reachable else a.reachable ++ [r] }
    | _ => a
  | .unlink =>
    match codec.unlinkMessage payload with
    | .ok (some r) => { a with reachable := a.reachable.erase r }
    | _ => a
  | .feeGathering => a
  | .sack =>
    match codec.sackMessage payload with
    | .ok m => { a with sackHeight := m.height, sackSeq := m.seq }
    | _ => a

def learn (c : Config W B) (prev : BTPAddress) (a : Announced) (ev : EventDataBTPMessage B) :
    Announced :=
  match announcement c prev ev with
  | some (internal, payload) => a.update c.codec payload internal
  | none => a

def Link.announced (l : Link) : Announced where
  reachable := l.reachable
  sackHeight := l.sackHeight
  sackSeq := l.sackSeq

structure Incoming where
  rxSeq : ℕ
  rxHeight : ℤ
  announced : Announced

def Link.incoming (l : Link) : Incoming where
  rxSeq := l.rxSeq
  rxHeight := l.rxHeight
  announced := l.announced

def incoming (s : St W B) (l : BTPAddress) : Option Incoming := (s.links.val l).map Link.incoming

def receivedOn (s : St W B) (l : BTPAddress) : List (EventDataBTPMessage B) :=
  s.received.filterMap fun e => if e.1 = l then some e.2 else none

def sentTo (s : St W B) (l : BTPAddress) : List ℕ :=
  s.messages.filterMap fun e => if e.next = l then some e.seq else none

def txSeq (s : St W B) (l : BTPAddress) : ℕ := ((s.links.val l).map Link.txSeq).getD 0

def Numbered (s : St W B) (l : BTPAddress) : Prop := sentTo s l = List.range' 1 (txSeq s l)

structure Sends (s s' : St W B) : Prop where
  received : s'.received = s.received
  incoming : ∀ l, incoming s' l = incoming s l
  numbered : ∀ l, Numbered s l → Numbered s' l

theorem Sends.refl : Sends s s := ⟨rfl, fun _ => rfl, fun _ => id⟩

theorem Sends.trans (h1 : Sends s t) (h2 : Sends t s') : Sends s s' :=
  ⟨h2.received.trans h1.received, fun l => (h2.incoming l).trans (h1.incoming l),
    fun l h => h2.numbered l (h1.numbered l h)⟩

theorem Sends.of_eq (hl : s'.links = s.links) (hm : s'.messages = s.messages)
    (hr : s'.received = s.received) : Sends s s' := by
  refine ⟨hr, fun l => by simp only [BMC.incoming, hl], fun l h => ?_⟩
  rwa [Numbered, sentTo, txSeq, hl, hm]

theorem emitMessage_sends (h : emitMessage s next msg = .ok s') : Sends s s' := by
  simp only [emitMessage, bind_ok, pure_ok, getLink_ok] at h
  obtain ⟨k, hk, rfl⟩ := h
  refine ⟨rfl, fun l => ?_, fun l hl => ?_⟩
  · simp only [incoming, putLink, Dict.val_put]
    split
    · next heq => subst heq; rw [hk]; rfl
    · rfl
  · simp only [Numbered, sentTo, txSeq, putLink, Dict.val_put, filterMap_append] at hl ⊢
    rw [hl]
    rcases eq_or_ne next l with rfl | hne
    · simp [hk, range'_1_concat, Nat.add_comm]
    · simp [hne, hne.symm]

theorem sends_rule : SendRule (Sends (W := W) (B := B)) where
  refl _ := .refl
  trans := .trans
  emit := emitMessage_sends
  world _ _ := .of_eq rfl rfl rfl
  report _ _ := .of_eq rfl rfl rfl

theorem gatherOnTerm_sends (h : gatherOnTerm c s height = .ok s') : Sends s s' :=
  sends_rule.gatherOnTerm (fun _ _ => .of_eq rfl rfl rfl) h

theorem distributeRelayerReward_sends : Sends s (distributeRelayerReward c s height) := by
  unfold distributeRelayerReward
  dsimp only
  split
  · split <;> exact .of_eq rfl rfl rfl
  · exact .refl

def Incoming.hear (f : Announced → Announced) (i : Incoming) : Incoming :=
  { i with announced := f i.announced }

/-- The announcement of `prev` is changed by `f`, and messages may be sent. -/
structure Hears (prev : BTPAddress) (f : Announced → Announced) (s s' : St W B) : Prop where
  received : s'.received = s.received
  incoming : ∀ l, incoming s' l =
    if l = prev then (incoming s l).map (Incoming.hear f) else incoming s l
  numbered : ∀ l, Numbered s l → Numbered s' l

theorem Sends.hears {f : Announced → Announced} (h : Sends s s')
    (hf : ∀ k, s.links.val prev = some k → f k.announced = k.announced) : Hears prev f s s' := by
  refine ⟨h.received, fun l => ?_, h.numbered⟩
  rw [h.incoming l]
  split
  · next heq =>
    subst heq
    simp only [BMC.incoming, Option.map_map]
    refine Option.map_congr fun k hk => ?_
    simp [Incoming.hear, Link.incoming, hf k hk]
  · rfl

theorem numbered_putLink (hk : s.links.val prev = some k) (htx : k'.txSeq = k.txSeq)
    (hl : Numbered s l) : Numbered (putLink s prev k') l := by
  simp only [Numbered, sentTo, txSeq, putLink, Dict.val_put] at hl ⊢
  rw [hl]
  split
  · next heq => subst heq; simp [hk, htx]
  · rfl

theorem hears_putLink {f : Announced → Announced} (hk : s.links.val prev = some k)
    (hseq : k'.rxSeq = k.rxSeq) (hheight : k'.rxHeight = k.rxHeight) (htx : k'.txSeq = k.txSeq)
    (hf : k'.announced = f k.announced) : Hears prev f s (putLink s prev k') := by
  refine ⟨rfl, fun l => ?_, fun l => numbered_putLink hk htx⟩
  simp only [incoming, putLink, Dict.val_put]
  split
  · next heq => subst heq; simp [hk, Incoming.hear, Link.incoming, hseq, hheight, hf]
  · rfl

theorem mapM_nonNull_ok {xs : List (Option α)} (h : xs.mapM nonNull = .ok ys) :
    xs.reduceOption = ys := by
  induction xs generalizing ys with
  | nil => simpa [pure_ok] using h
  | cons x xs ih =>
    simp only [mapM_cons, bind_ok, pure_ok, nonNull_ok] at h
    obtain ⟨y, rfl, zs, hzs, rfl⟩ := h
    rw [reduceOption_cons_of_some, ih hzs]

theorem handleInit_hears (h : handleInit s prev links = .ok s')
    (hm : codec.initMessage payload = .ok links) :
    Hears prev (fun a => a.update codec payload .init) s s' := by
  unfold handleInit at h
  split at h
  · next hnone => cases h; exact Sends.refl.hears (by simp [hnone])
  · next k hk =>
    simp only [bind_ok, pure_ok, nonNull_ok] at h
    obtain ⟨links, rfl, ls, hls, rfl⟩ := h
    refine hears_putLink hk rfl rfl rfl ?_
    simp [Announced.update, hm, Link.announced, mapM_nonNull_ok hls]

theorem handleLink_hears (h : handleLink s prev link = .ok s')
    (hm : codec.linkMessage payload = .ok link) :
    Hears prev (fun a => a.update codec payload .link) s s' := by
  unfold handleLink at h
  split at h
  · next hnone => cases h; exact Sends.refl.hears (by simp [hnone])
  · next k hk =>
    simp only [bind_ok, nonNull_ok] at h
    obtain ⟨r, rfl, h⟩ := h
    split at h
    · next hr =>
      cases h
      refine Sends.refl.hears fun k' hk' => ?_
      obtain rfl : k = k' := Option.some.inj (hk.symm.trans hk')
      simp [Announced.update, hm, Link.announced, hr]
    · next hr =>
      cases h
      refine hears_putLink hk rfl rfl rfl ?_
      simp [Announced.update, hm, Link.announced, hr]

theorem handleUnlink_hears (hm : codec.unlinkMessage payload = .ok link) :
    Hears prev (fun a => a.update codec payload .unlink) s (handleUnlink s prev link) := by
  cases link with
  | none =>
    rw [show handleUnlink s prev none = s by unfold handleUnlink; split <;> simp_all]
    exact Sends.refl.hears fun k _ => by simp [Announced.update, hm]
  | some r =>
    unfold handleUnlink
    cases hk : s.links.val prev with
    | none => exact Sends.refl.hears (by simp [hk])
    | some k =>
      dsimp only
      split
      · refine hears_putLink hk rfl rfl rfl ?_
        simp [Announced.update, hm, Link.announced]
      · next hr =>
        refine Sends.refl.hears fun k' hk' => ?_
        obtain rfl : k = k' := Option.some.inj (hk.symm.trans hk')
        simp [Announced.update, hm, Link.announced, erase_of_not_mem hr]

theorem dispatchInternal_hears (h : dispatchInternal c s prev payload internal = .ok s') :
    Hears prev (fun a => a.update c.codec payload internal) s s' := by
  cases internal with
  | init =>
    obtain ⟨links, hm, h⟩ := bind_ok.1 h
    exact handleInit_hears h hm
  | link =>
    obtain ⟨link, hm, h⟩ := bind_ok.1 h
    exact handleLink_hears h hm
  | unlink =>
    obtain ⟨link, hm, h⟩ := bind_ok.1 h
    cases h
    exact handleUnlink_hears hm
  | feeGathering =>
    obtain ⟨m, -, h⟩ := bind_ok.1 h
    exact (sends_rule.handleFeeGathering h).hears fun _ _ => rfl
  | sack =>
    obtain ⟨m, hm, h⟩ := bind_ok.1 h
    simp only [handleSack, bind_ok, pure_ok, getLink_ok] at h
    obtain ⟨k, hk, rfl⟩ := h
    refine hears_putLink hk rfl rfl rfl ?_
    simp [Announced.update, hm, Link.announced]

theorem mapM_nonNull_ne_btp {xs : List (Option α)} : xs.mapM nonNull ≠ .error (.btp code m) := by
  induction xs with
  | nil => nofun
  | cons x xs ih =>
    intro h
    simp only [mapM_cons, bind_error] at h
    rcases h with h | ⟨_, -, h | ⟨_, -, h⟩⟩
    · exact nonNull_ne_btp h
    · exact ih h
    · cases h

/-- An exception that is caught comes from a message that announces nothing, or
from a link that is not there. -/
theorem dispatchInternal_caught
    (h : dispatchInternal c s prev payload internal = .error (.btp code m)) :
    Hears prev (fun a => a.update c.codec payload internal) s s := by
  refine Sends.refl.hears fun k hk => ?_
  cases internal with
  | init =>
    rcases bind_error.1 h with hm | ⟨links, -, h⟩
    · simp [Announced.update, hm]
    · simp only [handleInit, hk, bind_error] at h
      rcases h with h | ⟨_, -, h | ⟨_, -, h⟩⟩
      · exact absurd h nonNull_ne_btp
      · exact absurd h mapM_nonNull_ne_btp
      · cases h
  | link =>
    rcases bind_error.1 h with hm | ⟨link, -, h⟩
    · simp [Announced.update, hm]
    · simp only [handleLink, hk, bind_error] at h
      rcases h with h | ⟨_, -, h⟩
      · exact absurd h nonNull_ne_btp
      · split at h <;> cases h
  | unlink =>
    rcases bind_error.1 h with hm | ⟨link, -, h⟩
    · simp [Announced.update, hm]
    · cases h
  | feeGathering => rfl
  | sack =>
    rcases bind_error.1 h with hm | ⟨m, -, h⟩
    · simp [Announced.update, hm]
    · simp only [handleSack, getLink, hk] at h
      cases h

theorem handleInternal_hears (h : handleInternal c s prev m = .ok s')
    (hm : c.codec.btpMessage ev.msg = .ok m) (hdst : m.dst = some c.btpAddr)
    (hsvc : m.svc = some "bmc") : Hears prev (fun a => learn c prev a ev) s s' := by
  simp only [handleInternal, bind_ok, nonNull_ok] at h
  obtain ⟨bm, hbm, type, htype, h⟩ := h
  split at h
  · next hnone =>
    cases h
    refine Sends.refl.hears fun k _ => ?_
    have : announcement c prev ev = none := by simp [announcement, hm, hbm, htype, hnone]
    rw [learn, this]
  · next internal hint =>
    simp only [bind_ok, nonNull_ok, require_ok, decide_eq_true_eq] at h
    obtain ⟨src, hsrc, _, rfl, h⟩ := h
    have hann : announcement c prev ev = some (internal, bm.payload) := by
      simp [announcement, hm, hbm, htype, hint, hdst, hsvc, hsrc]
    simp only [learn, hann]
    unfold catchBTP at h
    split at h
    · next hcaught => cases h; exact dispatchInternal_caught hcaught
    · exact dispatchInternal_hears h

theorem learn_of_ne (hm : c.codec.btpMessage ev.msg = .ok m)
    (h : m.dst = some c.btpAddr → m.svc ≠ some "bmc") : learn c prev a ev = a := by
  have : announcement c prev ev = none := by
    simp only [announcement, hm]
    rw [if_neg fun h' => h h'.1 h'.2.1]
  rw [learn, this]

theorem processEvent_hears (h : processEvent c prev s ev = .ok s') :
    Hears prev (fun a => learn c prev a ev)
      { s with received := s.received ++ [(prev, ev)] } s' := by
  unfold processEvent at h
  dsimp only at h
  split at h
  · next hm =>
    cases h
    refine Sends.refl.hears fun k _ => ?_
    have : announcement c prev ev = none := by simp [announcement, hm]
    rw [learn, this]
  · next m hm =>
    split at h
    · next hdst =>
      simp only [handleMessage, bind_ok, nonNull_ok] at h
      obtain ⟨svc, hsvc, h⟩ := h
      split at h
      · next hbmc => exact handleInternal_hears h hm hdst (hbmc ▸ hsvc)
      · next hne =>
        refine (sends_rule.handleService h).hears fun k _ => learn_of_ne hm fun _ => ?_
        rw [hsvc]
        simpa using hne
    · next hdst =>
      simp only [bind_ok, nonNull_ok] at h
      obtain ⟨dst, -, h⟩ := h
      have hlearn : ∀ a, learn c prev a ev = a := fun a => learn_of_ne hm fun h => absurd h hdst
      split at h
      · next hf =>
        cases h
        simp only [forward, bind_ok] at hf
        obtain ⟨next, -, hf⟩ := hf
        exact (emitMessage_sends hf).hears fun k _ => hlearn _
      · exact (sends_rule.sendError h).hears fun k _ => hlearn _
      · cases h

end IconBridge.Java.BMC
