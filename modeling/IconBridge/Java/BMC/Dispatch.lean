import IconBridge.Java.BMC.MessageCenter

/-!
# What handlers write

A handler sends messages, lets a service change its world, reports an error
and, for an internal message, writes the link it came over. A relation that
holds across these writes holds across the handling of an event.
-/

namespace IconBridge.Java.BMC

open Lib

variable {W B : Type} {c : Config W B} {s s' : St W B} {R : St W B → St W B → Prop}

theorem getLink_ok : getLink s link = .ok l ↔ s.links.val link = some l := by
  unfold getLink
  split <;> simp_all

structure SendRule (R : St W B → St W B → Prop) : Prop where
  refl : ∀ s, R s s
  trans : ∀ {s t u}, R s t → R t u → R s u
  emit : ∀ {s next msg s'}, emitMessage s next msg = .ok s' → R s s'
  world : ∀ s w, R s { s with world := w }
  report : ∀ s errors, R s { s with errors }

namespace SendRule

variable (hR : SendRule R)
include hR

theorem foldlM {f : St W B → α → Outcome (St W B)} {xs : List α}
    (hf : ∀ s x s', f s x = .ok s' → R s s') (h : xs.foldlM f s = .ok s') : R s s' :=
  foldlM_ok (P := R s) (fun _ x _ _ ht hx => hR.trans ht (hf _ x _ hx)) (hR.refl s) h

theorem sendError (h : sendError c s prev m code message = .ok s') : R s s' := by
  simp only [BMC.sendError, bind_ok] at h
  obtain ⟨sn, -, h⟩ := h
  split at h
  · exact hR.emit h
  · cases h; exact hR.refl s

theorem propagateInternal (h : propagateInternal c s internal payload = .ok s') : R s s' :=
  hR.foldlM (fun _ _ _ => hR.emit) h

theorem sendMessage (h : sendMessage c caller s m = .ok s') : R s s' := by
  unfold BMC.sendMessage at h
  split at h
  · contradiction
  · simp only [bind_ok] at h
    obtain ⟨_, -, _, -, link, -, h⟩ := h
    exact hR.emit h

theorem callService (h : callService c s addr f = .ok s') : R s s' := by
  simp only [BMC.callService, mapError_ok, bind_ok, Prod.exists] at h
  obtain ⟨world, sends, -, h⟩ := h
  exact hR.trans (hR.world s world) (hR.foldlM (fun _ _ _ => hR.sendMessage) h)

theorem gatherFees : R s (gatherFees c fa s svc) := by
  unfold BMC.gatherFees
  split
  · exact hR.refl s
  · split
    · next h => exact hR.callService h
    · exact hR.refl s

theorem handleFeeGathering (h : handleFeeGathering c s prev m = .ok s') : R s s' := by
  simp only [BMC.handleFeeGathering, bind_ok, pure_ok] at h
  obtain ⟨fa, -, _, -, svcs, -, _, -, rfl⟩ := h
  induction svcs generalizing s with
  | nil => exact hR.refl s
  | cons svc svcs ih => exact hR.trans hR.gatherFees ih

theorem gatherFrom (h : gatherFrom c s fa = .ok s') : R s s' := by
  simp only [BMC.gatherFrom, bind_ok] at h
  obtain ⟨t, ht, h⟩ := h
  exact hR.trans (hR.handleFeeGathering ht) (hR.propagateInternal h)

theorem gatherOnTerm (hproperties : ∀ s properties, R s { s with properties })
    (h : gatherOnTerm c s height = .ok s') : R s s' := by
  simp only [BMC.gatherOnTerm] at h
  split at h
  · cases h; exact hR.refl s
  · split at h
    · simp only [bind_ok, pure_ok] at h
      obtain ⟨t, ht, rfl⟩ := h
      exact hR.trans (hR.gatherFrom ht) (hproperties t _)
    · cases h; exact hR.refl s

theorem deliverMessage (h : deliverMessage c s m svc sn = .ok s') : R s s' := by
  simp only [BMC.deliverMessage, bind_ok] at h
  obtain ⟨addr, -, src, -, h⟩ := h
  exact hR.callService h

theorem handleErrorMessage : R s (handleErrorMessage c s m svc sn) := by
  unfold BMC.handleErrorMessage
  split
  case h_4 =>
    split
    case h_1 h =>
      simp only [deliverError, bind_ok] at h
      obtain ⟨addr, -, src, -, h⟩ := h
      exact hR.callService h
    all_goals exact hR.report s _
  all_goals exact hR.report s _

theorem handleService (h : handleService c s prev m svc = .ok s') : R s s' := by
  simp only [BMC.handleService, bind_ok] at h
  obtain ⟨sn, -, h⟩ := h
  split at h
  · split at h
    · next ht => cases h; exact hR.deliverMessage ht
    all_goals exact hR.sendError h
  · cases h; exact hR.handleErrorMessage

end SendRule

structure Rule (prev : BTPAddress) (R : St W B → St W B → Prop) : Prop extends SendRule R where
  put : ∀ {s l} (l' : Link), s.links.val prev = some l → R s (putLink s prev l')

namespace Rule

variable (hR : Rule prev R)
include hR

theorem handleInit (h : handleInit s prev links = .ok s') : R s s' := by
  unfold BMC.handleInit at h
  split at h
  · cases h; exact hR.refl s
  · next hl =>
    simp only [bind_ok, pure_ok] at h
    obtain ⟨_, -, _, -, rfl⟩ := h
    exact hR.put _ hl

theorem handleLink (h : handleLink s prev link = .ok s') : R s s' := by
  unfold BMC.handleLink at h
  split at h
  · cases h; exact hR.refl s
  · next hl =>
    simp only [bind_ok] at h
    obtain ⟨r, -, h⟩ := h
    split at h
    · cases h; exact hR.refl s
    · cases h; exact hR.put _ hl

theorem handleUnlink : R s (handleUnlink s prev link) := by
  unfold BMC.handleUnlink
  split
  · next hl =>
    split
    · exact hR.put _ hl
    · exact hR.refl s
  · exact hR.refl s

theorem handleSack (h : handleSack s prev m = .ok s') : R s s' := by
  simp only [BMC.handleSack, bind_ok, pure_ok, getLink_ok] at h
  obtain ⟨l, hl, rfl⟩ := h
  exact hR.put _ hl

theorem dispatchInternal (h : dispatchInternal c s prev payload internal = .ok s') : R s s' := by
  cases internal <;> simp only [BMC.dispatchInternal, bind_ok, pure_ok] at h <;> obtain ⟨m, -, h⟩ := h
  case init => exact hR.handleInit h
  case link => exact hR.handleLink h
  case unlink => subst h; exact hR.handleUnlink
  case feeGathering => exact hR.handleFeeGathering h
  case sack => exact hR.handleSack h

theorem handleInternal (h : handleInternal c s prev m = .ok s') : R s s' := by
  simp only [BMC.handleInternal, bind_ok] at h
  obtain ⟨bm, -, type, -, h⟩ := h
  split at h
  · cases h; exact hR.refl s
  · simp only [bind_ok] at h
    obtain ⟨src, -, _, -, h⟩ := h
    unfold catchBTP at h
    split at h
    · cases h; exact hR.refl s
    · exact hR.dispatchInternal h

theorem handleMessage (h : handleMessage c s prev m = .ok s') : R s s' := by
  simp only [BMC.handleMessage, bind_ok] at h
  obtain ⟨svc, -, h⟩ := h
  split at h
  · exact hR.handleInternal h
  · exact hR.handleService h

theorem processEvent (h : processEvent c prev s ev = .ok s') :
    R { s with received := s.received ++ [(prev, ev)] } s' := by
  unfold BMC.processEvent at h
  dsimp only at h
  split at h
  · cases h; exact hR.refl _
  · split at h
    · exact hR.handleMessage h
    · simp only [bind_ok] at h
      obtain ⟨dst, -, h⟩ := h
      split at h
      · next hf =>
        cases h
        simp only [forward, bind_ok] at hf
        obtain ⟨next, -, hf⟩ := hf
        exact hR.emit hf
      · exact hR.sendError h
      · contradiction

end Rule

end IconBridge.Java.BMC
