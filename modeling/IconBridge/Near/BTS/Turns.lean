import IconBridge.Near.BTS.Withdrawal

/-!
# What a step does to the locked amounts

A transfer to another network locks the amount and files a request; the answer
releases the amount and removes the request. Two kinds of steps are astray: the
callback of a send that has failed releases the amount and leaves the request,
and an answer with an unknown code removes the request and leaves the amount.
-/

namespace IconBridge.Near.BTS

open Lib List

def St.locked (s : St) (k : Key) : ℕ := s.amount .locked k

def weigh (ids : String → Option TokenId) (a : AccountId) (assets : List TransferableAsset) (k : Key) :
    ℕ :=
  (assets.map fun x => if k.1 = a ∧ ids x.name = some k.2 then x.amount + x.fees else 0).sum

def Request.weight (ids : String → Option TokenId) (r : Request) : Key → ℕ :=
  weigh ids r.sender r.assets

theorem weigh_cons (h : ids x.name = some t) :
    weigh ids a (x :: xs) k = (if k = (a, t) then x.amount + x.fees else 0) + weigh ids a xs k := by
  obtain ⟨b, u⟩ := k
  simp only [weigh, map_cons, sum_cons, h, Option.some.injEq, Prod.mk.injEq, eq_comm (a := t)]

theorem weigh_congr (h : ∀ x ∈ assets, ids' x.name = ids x.name) :
    weigh ids' a assets = weigh ids a assets := by
  funext k
  refine congrArg List.sum (map_congr_left fun x hx => ?_)
  rw [h x hx]

def St.settlements (s : St) : List Movement := s.journal.filter Movement.isSettlement

variable {d : Deployment} {env : Env} {s s' t : St} {ms : List Movement} {ps : List Promise}
  {up down : Key → ℕ}

theorem Locks.known (h : Locks d a xs ys s s') : ∀ x ∈ xs, (s.tokenIds x.name).isSome := by
  obtain ⟨-, -, hfits⟩ := h
  induction hfits with
  | nil => simp
  | cons hxy _ ih => exact forall_mem_cons.2 ⟨by simp [hxy.1], ih⟩

theorem Locks.locked (h : Locks d a xs ys s s') (k : Key) :
    s'.locked k = s.locked k + weigh s.tokenIds a xs k := by
  have heffects : effects d (locks (ys.map fun y => ((a, y.1), y.2))) .locked k =
      weigh s.tokenIds a xs k := by
    obtain ⟨-, -, hfits⟩ := h
    induction hfits with
    | nil => rfl
    | cons hxy _ ih =>
      simp only [locks, map_cons, effects_cons, Movement.effect] at ih ⊢
      rw [weigh_cons hxy.1, ← hxy.2, ih]
      simp [entry]
  have hamount := h.books.amount .locked k
  simp only [St.locked]
  omega

theorem Locks.settlements (h : Locks d a xs ys s s') : s'.settlements = s.settlements := by
  have hnone : (locks (ys.map fun y => ((a, y.1), y.2))).filter Movement.isSettlement = [] := by
    refine filter_eq_nil_iff.2 fun m hm => ?_
    simp only [locks, map_map, mem_map] at hm
    obtain ⟨y, -, rfl⟩ := hm
    exact Bool.false_ne_true
  rw [St.settlements, h.books.journal, filter_append, hnone, append_nil]
  rfl

theorem settlement_locked {ids : String → Option TokenId} {e : Ending}
    (h : ∀ x ∈ xs, ids x.name = some (hashTokenId d x.name)) (k : Key) :
    effects d (xs.map (e.movement d a)) .locked k = -weigh ids a xs k := by
  induction xs with
  | nil => rfl
  | cons x xs ih =>
    obtain ⟨hx, hxs⟩ := forall_mem_cons.1 h
    rw [map_cons, effects_cons, ih hxs, weigh_cons hx]
    cases e <;> simp [Ending.movement, Movement.effect, entry] <;> split_ifs <;> simp <;> omega

theorem filter_settlement {r : Request} {e : Ending} :
    (r.settlement d e).filter Movement.isSettlement = r.settlement d e :=
  filter_eq_self.2 fun _ => settlement_isSettlement

/-- From `s` to `s'` the amounts `up` were locked and `down` released, with the
settlements `ms`. -/
structure Shifts (up down : Key → ℕ) (ms : List Movement) (s s' : St) : Prop where
  locked : ∀ k, s'.locked k + down k = s.locked k + up k
  settlements : s'.settlements = s.settlements ++ ms
  ids : ∀ name t, s.tokenIds name = some t → s'.tokenIds name = some t

theorem Posts.shifts (h : Posts d ms ps s s')
    (hids : ∀ name t, s.tokenIds name = some t → s'.tokenIds name = some t)
    (hlocked : ∀ k, effects d ms .locked k + down k = up k) :
    Shifts up down (ms.filter Movement.isSettlement) s s' := by
  refine ⟨fun k => ?_, by simp [St.settlements, h.journal], hids⟩
  have hamount := h.amount .locked k
  have hk := hlocked k
  simp only [St.locked]
  omega

inductive Turn (d : Deployment) (orderly : Prop) (s s' : St) : Prop
  | quiet (h : Shifts 0 0 [] s s') (hrequests : s'.requests = s.requests)
      (hserial : s'.serialNo = s.serialNo)
  | filed (r : Request) (hknown : ∀ x ∈ r.assets, (s.tokenIds x.name).isSome)
      (h : Shifts (r.weight s.tokenIds) 0 [] s s')
      (hrequests : s'.requests = Function.update s.requests (s.serialNo + 1) (some r))
      (hserial : s'.serialNo = s.serialNo + 1)
  | settled (n : ℤ) (r : Request) (e : Ending) (hr : s.requests n = some r)
      (h : Shifts 0 (r.weight s.tokenIds) (r.settlement d e) s s')
      (hrequests : s'.requests = Function.update s.requests n none) (hserial : s'.serialNo = s.serialNo)
  | stray (h : ¬orderly)

def Movement.Apart (m : Movement) : Prop := m.isSettlement = false ∧ ∀ d k, m.effect d .locked k = 0

theorem Books.quiet (h : Books d ms ps s s') (hms : ∀ m ∈ ms, m.Apart) : Shifts 0 0 [] s s' := by
  have hlocked : ∀ k, effects d ms .locked k = 0 := by
    refine fun k => sum_eq_zero fun v hv => ?_
    obtain ⟨m, hm, rfl⟩ := mem_map.1 hv
    exact (hms m hm).2 d k
  have hnone : ms.filter Movement.isSettlement = [] :=
    filter_eq_nil_iff.2 fun m hm => by simp [(hms m hm).1]
  have hshifts : Shifts 0 0 (ms.filter Movement.isSettlement) s s' :=
    h.toPosts.shifts h.ids fun k => by rw [hlocked]; rfl
  rwa [hnone] at hshifts

theorem Books.turn (h : Books d ms ps s s') (hms : ∀ m ∈ ms, m.Apart) : Turn d orderly s s' :=
  .quiet (h.quiet hms) h.requests h.serialNo

theorem Files.turn (h : Files d a xs ys s s') : Turn d orderly s s' := by
  obtain ⟨mid, receiver, p, -, hlocks, hsend⟩ := h
  refine .filed ⟨a, receiver, xs⟩ hlocks.known ⟨fun k => ?_, ?_, fun name t ht => ?_⟩ ?_ ?_
  · have hsent := hsend.amount .locked k
    have hfile : (mid.file ⟨a, receiver, xs⟩).amount .locked k = mid.amount .locked k := rfl
    have hlocked := hlocks.locked k
    rw [effects_nil, hfile] at hsent
    simp only [St.locked, Request.weight, Pi.zero_apply] at hlocked ⊢
    omega
  · rw [append_nil, ← hlocks.settlements]
    simp [St.settlements, hsend.journal, St.file]
  · exact hsend.ids name t (hlocks.ids ▸ ht)
  · rw [hsend.requests, St.file, hlocks.books.requests, hlocks.books.serialNo]
  · rw [hsend.serialNo, St.file, hlocks.books.serialNo]

def Answers (s : St) (n : ℤ) (code : ℕ) : Prop :=
  (endingOf code).isSome ∨ s.requests n = none

theorem Responds.turn (hs : Sound d s)
    (hknown : ∀ n r, s.requests n = some r → ∀ x ∈ r.assets, (s.tokenIds x.name).isSome)
    (h : Responds d s n code s') : Turn d (Answers s n code) s s' := by
  cases h with
  | unknown _ h => exact h ▸ Books.refl.turn nofun
  | settled r e ps t hr _ _ h h' =>
    subst h'
    have hids : ∀ x ∈ r.assets, s.tokenIds x.name = some (hashTokenId d x.name) := by
      intro x hx
      obtain ⟨id, hid⟩ := Option.isSome_iff_exists.1 (hknown n r hr x hx)
      rw [hid, hs.ids x.name id hid]
    have hshifts : Shifts 0 (r.weight s.tokenIds) _ s t := h.toPosts.shifts h.ids fun k => by
      rw [Request.settlement, settlement_locked hids, Request.weight]
      exact neg_add_cancel _
    rw [filter_settlement] at hshifts
    refine .settled n r e hr ⟨hshifts.locked, hshifts.settlements, hshifts.ids⟩ ?_ h.serialNo
    rw [St.discard, h.requests]
  | dropped r hr he h => exact .stray (by simp [Answers, he, hr])

/-- A response is one to a stored request only with a code that ends it. -/
def Call.Orderly (s : St) : Call → Prop
  | .handleBtpMessage _ _ n (.ok (.responseHandleService code _)) => Answers s n code
  | _ => True

def Receipt.Orderly (r : Receipt) : Prop :=
  match r.promise, r.result with
  | .sendServiceMessage _ _ (.requestTokenTransfer ..), some .failed => False
  | _, _ => True

/-- No request failed to reach the message center, and no answer leaves open how
the request ends. -/
def Act.Orderly (s : St) : Act → Prop
  | .call _ c => c.Orderly s
  | .execute _ _ => True
  | .callback i _ => ∀ r, s.receipts[i]? = some r → r.Orderly

theorem Turn.imp (h : Turn d orderly s s') (himp : orderly' → orderly) : Turn d orderly' s s' := by
  cases h with
  | quiet h hrequests hserial => exact .quiet h hrequests hserial
  | filed r hknown h hrequests hserial => exact .filed r hknown h hrequests hserial
  | settled n r e hr h hrequests hserial => exact .settled n r e hr h hrequests hserial
  | stray h => exact .stray (mt himp h)

theorem Call.Does.turn {c : Call} (hs : Sound d s)
    (hknown : ∀ n r, s.requests n = some r → ∀ x ∈ r.assets, (s.tokenIds x.name).isSome)
    (h : c.Does d env s s') : Turn d (c.Orderly s) s s' := by
  cases h with
  | idle h =>
    obtain ⟨ms, ps, h, hms, -⟩ := h
    refine h.turn fun m hm => ?_
    have hstill := hms m hm
    cases m with
    | reclaim | internalTransfer => exact ⟨rfl, fun _ _ => by simp [Movement.effect, entry]⟩
    | _ => exact hstill.elim
  | ftOnTransfer _ _ h | deposit _ _ h =>
    exact h.turn (by simp [Movement.Apart, Movement.isSettlement, Movement.effect, entry])
  | withdraw payment tokenId _ h =>
    subst h
    exact Books.turn (.promise trivial) fun m hm => absurd hm not_mem_nil
  | files h _ | gathers h => exact h.turn
  | answered h => exact h.turn hs hknown
  | failed h => exact (h.turn hs hknown).imp fun _ => .inl rfl

theorem entries_apart {p : Promise} (h : Receipt.Orderly ⟨p, some result⟩) :
    ∀ m ∈ p.entries d result, m.Apart := by
  cases p with
  | sendServiceMessage n net message =>
    cases message <;> cases result <;> first | exact h.elim | exact nofun
  | mint =>
    rcases result with (_ | _) | _ <;>
      simp [Promise.entries, Movement.Apart, Movement.isSettlement, Movement.effect, entry]
  | _ =>
    cases result <;>
      simp [Promise.entries, Movement.Apart, Movement.isSettlement, Movement.effect, entry]

theorem Act.Does.turn {act : Act} (hs : Sound d s)
    (hknown : ∀ n r, s.requests n = some r → ∀ x ∈ r.assets, (s.tokenIds x.name).isSome)
    (h : act.Does d s s') : Turn d (act.Orderly s) s s' := by
  cases h with
  | call env c h => exact h.turn hs hknown
  | execute p hr h =>
    subst h
    exact .quiet ⟨fun _ => rfl, (append_nil _).symm, fun _ _ => id⟩ rfl rfl
  | callback env p result ps hr _ hps h =>
    by_cases horderly : Receipt.Orderly ⟨p, some result⟩
    · have hquiet := h.quiet (entries_apart horderly)
      exact .quiet ⟨hquiet.locked, hquiet.settlements, hquiet.ids⟩ h.requests h.serialNo
    · exact .stray fun h => horderly (h _ hr)
  | panicked env p result e hr he h =>
    subst h
    exact .quiet ⟨fun _ => rfl, (append_nil _).symm, fun _ _ => id⟩ rfl rfl

end IconBridge.Near.BTS
