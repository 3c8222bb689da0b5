import IconBridge.Java.BMC.Sequencing

/-!
# Relay messages that are not refused

An exception that leaves the handling of one event undoes the whole relay
message. Services are called under a `catch` for everything, internal messages
under one for `BTPException` only, and some reads stand outside both.
-/

namespace IconBridge.Java.BMC

open Lib Option List

variable {W B : Type} {c : Config W B} {s s' : St W B} {next prev : BTPAddress}

/-- What was read meets `P`, or reading has thrown a `BTPException`. -/
def Tame (r : Outcome α) (P : α → Prop) : Prop :=
  match r with
  | .ok a => P a
  | .error (.btp _ _) => True
  | .error _ => False

/-- The payload can be read, and there is no `null` where it is used. -/
def InternalHandled (c : Config W B) (prev : BTPAddress) (payload : Option B) : Internal → Prop
  | .init => Tame (c.codec.initMessage payload) fun links => ∃ xs, links = some xs ∧ none ∉ xs
  | .link => Tame (c.codec.linkMessage payload) fun link => link ≠ none
  | .unlink => Tame (c.codec.unlinkMessage payload) fun _ => True
  | .feeGathering => Tame (c.codec.feeGatheringMessage payload) fun m =>
      ∃ fa, m.fa = some fa ∧ (prev.net = fa.net → m.svcs ≠ none)
  | .sack => Tame (c.codec.sackMessage payload) fun _ => True

/-- A message for this center names a service; for the center itself it can be
read and, if it is of a known type, comes from the neighbour. A message for
elsewhere has a destination. What may have to be answered has a serial
number. -/
def Handled (c : Config W B) (prev : BTPAddress) (ev : EventDataBTPMessage B) : Prop :=
  ∀ m, c.codec.btpMessage ev.msg = .ok m →
    (m.dst = some c.btpAddr → ∃ svc, m.svc = some svc ∧ (svc ≠ "bmc" → m.sn ≠ none) ∧
      (svc = "bmc" → ∃ bm type, c.codec.bmcMessage m.payload = .ok bm ∧ bm.type = some type ∧
        ∀ internal, Internal.fromString type = some internal →
          m.src = some prev ∧ InternalHandled c prev bm.payload internal)) ∧
    (m.dst ≠ some c.btpAddr → m.dst ≠ none ∧ m.sn ≠ none)

structure Stays (s s' : St W B) : Prop where
  links : ∀ l, (s.links.val l).isSome → (s'.links.val l).isSome
  relays : s'.relays = s.relays

theorem putLink_stays : Stays s (putLink s prev l) := by
  refine ⟨fun k hk => ?_, rfl⟩
  simp only [putLink, Dict.val_put]
  split
  · rfl
  · exact hk

theorem emitMessage_stays (h : emitMessage s next msg = .ok s') : Stays s s' := by
  simp only [emitMessage, bind_ok, pure_ok] at h
  obtain ⟨l, -, rfl⟩ := h
  exact ⟨putLink_stays.links, rfl⟩

theorem stays_rule (prev : BTPAddress) : Rule prev (Stays (W := W) (B := B)) where
  refl _ := ⟨fun _ => id, rfl⟩
  trans h1 h2 := ⟨fun l hl => h2.links l (h1.links l hl), h2.relays.trans h1.relays⟩
  emit := emitMessage_stays
  world _ _ := ⟨fun _ => id, rfl⟩
  report _ _ := ⟨fun _ => id, rfl⟩
  put _ _ := putLink_stays

theorem emitMessage_succeeds (msg : B) (h : (s.links.val next).isSome) :
    ∃ s', emitMessage s next msg = .ok s' := by
  obtain ⟨l, hl⟩ := isSome_iff_exists.1 h
  simp only [emitMessage, getLink, hl, ok_bind]
  exact ⟨_, rfl⟩

theorem sendError_succeeds (hlink : (s.links.val prev).isSome) (hsn : m.sn ≠ none) (code : ℤ)
    (message : String) : ∃ s', sendError c s prev m code message = .ok s' := by
  obtain ⟨sn, hsn⟩ := ne_none_iff_exists'.1 hsn
  simp only [sendError, hsn, nonNull, ok_bind]
  split
  · exact emitMessage_succeeds _ hlink
  · exact ⟨s, rfl⟩

theorem handleService_succeeds (hlink : (s.links.val prev).isSome) (hsn : m.sn ≠ none) (svc : String) :
    ∃ s', handleService c s prev m svc = .ok s' := by
  obtain ⟨sn, hsome⟩ := ne_none_iff_exists'.1 hsn
  simp only [handleService, hsome, nonNull, ok_bind]
  split
  · split
    · exact ⟨_, rfl⟩
    all_goals exact sendError_succeeds hlink hsn _ _
  · exact ⟨_, rfl⟩

theorem Tame.bind {r : Outcome α} {P : α → Prop} {f : α → Outcome (St W B)} (h : Tame r P)
    (hf : ∀ a, P a → ∃ s', catchBTP s (f a) = .ok s') : ∃ s', catchBTP s (r >>= f) = .ok s' := by
  unfold Tame at h
  split at h
  · exact hf _ h
  · exact ⟨s, rfl⟩
  · exact h.elim

theorem mapM_nonNull_succeeds {xs : List (Option α)} (h : none ∉ xs) :
    ∃ ys, xs.mapM nonNull = (.ok ys : Outcome (List α)) := by
  induction xs with
  | nil => exact ⟨[], rfl⟩
  | cons x xs ih =>
    obtain ⟨ys, hys⟩ := ih (not_mem_of_not_mem_cons h)
    obtain ⟨y, rfl⟩ := ne_none_iff_exists'.1 (ne_of_not_mem_cons h).symm
    exact ⟨y :: ys, by rw [mapM_cons, hys]; rfl⟩

theorem dispatchInternal_succeeds (hlink : s.links.val prev = some l)
    (h : InternalHandled c prev payload internal) :
    ∃ s', catchBTP s (dispatchInternal c s prev payload internal) = .ok s' := by
  cases internal with
  | init =>
    refine Tame.bind h ?_
    rintro _ ⟨xs, rfl, hxs⟩
    obtain ⟨ys, hys⟩ := mapM_nonNull_succeeds hxs
    simp only [handleInit, hlink, nonNull, ok_bind]
    rw [show xs.mapM nonNull = .ok ys from hys]
    exact ⟨_, rfl⟩
  | link =>
    refine Tame.bind h fun link hne => ?_
    obtain ⟨r, rfl⟩ := ne_none_iff_exists'.1 hne
    simp only [handleLink, hlink, nonNull, ok_bind]
    split <;> exact ⟨_, rfl⟩
  | unlink => exact Tame.bind h fun _ _ => ⟨_, rfl⟩
  | feeGathering =>
    refine Tame.bind h ?_
    rintro m ⟨fa, hfa, hsvcs⟩
    simp only [handleFeeGathering, hfa, nonNull, ok_bind]
    by_cases hnet : prev.net = fa.net
    · obtain ⟨svcs, hsvcs⟩ := ne_none_iff_exists'.1 (hsvcs hnet)
      simp only [hnet, decide_true, require_true, hsvcs, ok_bind]
      by_cases hlen : 1 ≤ svcs.length
      · rw [decide_eq_true hlen]
        exact ⟨_, rfl⟩
      · rw [decide_eq_false hlen]
        exact ⟨s, rfl⟩
    · rw [decide_eq_false hnet]
      exact ⟨s, rfl⟩
  | sack =>
    refine Tame.bind h fun m _ => ?_
    simp only [handleSack, getLink, hlink, ok_bind]
    exact ⟨_, rfl⟩

theorem handleMessage_succeeds (hlink : s.links.val prev = some l)
    (hm : ∃ svc, m.svc = some svc ∧ (svc ≠ "bmc" → m.sn ≠ none) ∧
      (svc = "bmc" → ∃ bm type, c.codec.bmcMessage m.payload = .ok bm ∧ bm.type = some type ∧
        ∀ internal, Internal.fromString type = some internal →
          m.src = some prev ∧ InternalHandled c prev bm.payload internal)) :
    ∃ s', handleMessage c s prev m = .ok s' := by
  obtain ⟨svc, hsvc, hservice, hinternal⟩ := hm
  simp only [handleMessage, hsvc, nonNull, ok_bind]
  split
  · next hbmc =>
    obtain ⟨bm, type, hbm, htype, hknown⟩ := hinternal hbmc
    simp only [handleInternal, hbm, htype, nonNull, ok_bind]
    split
    · exact ⟨s, rfl⟩
    · next internal hfrom =>
      obtain ⟨hsrc, hhandled⟩ := hknown internal hfrom
      simp only [hsrc, decide_true, require_true, ok_bind]
      exact dispatchInternal_succeeds hlink hhandled
  · next hbmc => exact handleService_succeeds (by rw [hlink]; rfl) (hservice hbmc) svc

theorem getLink_error (h : getLink s link = .error x) : x = notExistsLink := by
  unfold getLink at h
  split at h
  · contradiction
  · cases h; rfl

theorem forward_error (h : forward c s m dst = .error x) : ∃ code message, x = .btp code message := by
  simp only [forward, bind_error] at h
  rcases h with h | ⟨next, -, h⟩
  · unfold resolveNext at h
    repeat' split at h
    · simp only [bind_error] at h
      rcases h with h | ⟨l, -, h⟩
      · exact ⟨_, _, getLink_error h⟩
      · contradiction
    · contradiction
    · contradiction
    · cases h; exact ⟨_, _, rfl⟩
  · simp only [emitMessage, bind_error] at h
    rcases h with h | ⟨l, -, h⟩
    · exact ⟨_, _, getLink_error h⟩
    · contradiction

def Relayed (prev : BTPAddress) (sender : Address) (s : St W B) : Prop :=
  (s.links.val prev).isSome ∧ ((s.relays prev).val sender).isSome

theorem Relayed.stays (h : Relayed prev sender s) (hs : Stays s s') : Relayed prev sender s' :=
  ⟨hs.links prev h.1, by rw [hs.relays]; exact h.2⟩

theorem processEvent_succeeds (h : Relayed prev sender s) (hev : Handled c prev ev) :
    ∃ s', processEvent c prev s ev = .ok s' ∧ Relayed prev sender s' := by
  have hrec : Relayed prev sender { s with received := s.received ++ [(prev, ev)] } := h
  suffices hok : ∃ s', processEvent c prev s ev = .ok s' by
    obtain ⟨s', hs'⟩ := hok
    exact ⟨s', hs', hrec.stays ((stays_rule prev).processEvent hs')⟩
  obtain ⟨l, hl⟩ := isSome_iff_exists.1 h.1
  unfold processEvent
  dsimp only
  split
  · exact ⟨_, rfl⟩
  next m hm =>
  obtain ⟨hhere, helsewhere⟩ := hev m hm
  split
  · next hdst => exact handleMessage_succeeds hl (hhere hdst)
  · next hdst =>
    obtain ⟨hsome, hsn⟩ := helsewhere hdst
    obtain ⟨dst, hdst⟩ := ne_none_iff_exists'.1 hsome
    simp only [hdst, nonNull, ok_bind]
    split
    · exact ⟨_, rfl⟩
    · exact sendError_succeeds hrec.1 hsn _ _
    · next x hne hx =>
      obtain ⟨code, message, rfl⟩ := forward_error hx
      exact (hne code message rfl).elim

theorem propagateInternal_succeeds {internal : Internal} {payload : B} {keys : List BTPAddress}
    (h : ∀ l ∈ keys, (s.links.val l).isSome) :
    ∃ s', keys.foldlM (sendInternal c internal payload) s = .ok s' := by
  induction keys generalizing s with
  | nil => exact ⟨s, rfl⟩
  | cons l keys ih =>
    obtain ⟨t, ht⟩ : ∃ t, sendInternal c internal payload s l = .ok t :=
      emitMessage_succeeds _ (h l mem_cons_self)
    rw [foldlM_cons, ht]
    exact ih fun k hk => (emitMessage_stays ht).links k (h k (mem_cons_of_mem _ hk))

theorem gatherOnTerm_succeeds (c : Config W B) (s : St W B) (height : ℤ) :
    ∃ s', gatherOnTerm c s height = .ok s' := by
  unfold gatherOnTerm
  dsimp only
  split
  · exact ⟨s, rfl⟩
  next fa _ =>
  split
  · next hterm =>
    have hlen : 1 ≤ (s.services.keys.map some).length := by
      rw [length_map]
      exact length_pos_iff.2 hterm.1
    obtain ⟨t, ht⟩ : ∃ t, gatherFrom c s fa = .ok t := by
      simp only [gatherFrom, handleFeeGathering, nonNull, ok_bind, decide_true, require_true,
        decide_eq_true hlen]
      exact propagateInternal_succeeds fun l hl => (Dict.mem_keys _ l).1 hl
    rw [ht]
    exact ⟨_, rfl⟩
  · exact ⟨s, rfl⟩

theorem writeBack_succeeds (h : Relayed prev sender s) (rxSeq : ℕ) (rxHeight : ℤ) :
    ∃ s', writeBack s prev sender rxSeq rxHeight = .ok s' := by
  obtain ⟨l, hl⟩ := isSome_iff_exists.1 h.1
  obtain ⟨r, hr⟩ := isSome_iff_exists.1 h.2
  simp only [writeBack, getLink, hl, hr, nonNull, ok_bind]
  exact ⟨_, rfl⟩

def wireState : St Unit Wire :=
  run (step wireConfig) { world := () }
    [.admin relay (.addLink ""), .admin relay (.addRelay "" relay)]

def internalEvent (src : Option BTPAddress) (payload : Option Wire) : EventDataBTPMessage Wire :=
  { nextBmc := "btp://0x1.icon/cx01", seq := 1,
    msg := .btp { src, dst := some here, svc := some "bmc", sn := some 0, payload } }

end IconBridge.Java.BMC
