import IconBridge.Solidity.BTS.Effects

/-!
# What a transaction does to the books

The settlement loop posts the entries of its request one by one, with calls
back in between; removing the request from the table balances them. So a
transaction conserves the gaps, and lowers a slack only by what an incoming
request pays out.
-/

namespace IconBridge.Solidity.BTS

open Lib Function List

variable {d : Deployment}

theorem settleValue_effect (hk : Tame d k) (h : settleValue d s u c v code k = .ok s') :
    Effect d noGap (slackAt c (-v)) s s' := by
  unfold settleValue at h
  split at h
  · split at h
    · next t ht =>
      rw [← Except.ok.inj h]
      exact refund_effect hk ht
    · simp only [bind_ok, add_ok, pure_ok] at h
      obtain ⟨_, ⟨-, rfl⟩, rfl⟩ := h
      refine (setBalance_effect _ u c _).total (fun u' c' _ => by simp [gapAt]) fun _ c' => ?_
      simp only [slackAt]
      split <;> omega
  · split at h
    · next hw => exact tokenBurn_effect hw.2.1 h
    · rw [← Except.ok.inj h]
      refine Effect.refl.total (fun _ _ _ => rfl) fun _ c' => ?_
      simp only [slackAt, noSlack]
      split <;> omega

theorem handleResponseService_effect (hk : Tame d k)
    (h : handleResponseService d s u c v fee code k = .ok s') :
    Effect d (gapAt u c (-(v + fee))) (if u = d.btsCore then slackAt c (-v) else noSlack) s s' := by
  unfold handleResponseService at h
  split at h
  · next hu =>
    have hgap : ∀ u' c', u' ≠ d.btsCore → gapAt u c (-(v + fee)) u' c' = noGap u' c' := by
      intro u' c' hu'
      rw [gapAt, if_neg fun hc => hu' (hc.1.trans hu)]
    rw [if_pos hu]
    split at h
    · simp only [bind_ok, add_ok, pure_ok] at h
      obtain ⟨_, ⟨-, rfl⟩, rfl⟩ := h
      refine (aggregationFee_effect s c _).total hgap fun _ c' => ?_
      simp only [slackAt]
      split <;> omega
    · rw [← Except.ok.inj h]
      refine Effect.refl.total hgap fun _ c' => ?_
      simp only [slackAt, noSlack]
      split <;> omega
  · next hu =>
    simp only [bind_ok, add_ok, sub_ok, pure_ok] at h
    obtain ⟨_, ⟨-, rfl⟩, _, ⟨hle, rfl⟩, t, hvalue, _, ⟨-, rfl⟩, rfl⟩ := h
    refine (((setBalance_effect s u c _).trans (settleValue_effect hk hvalue)).trans
      (aggregationFee_effect t c _)).total ?_ ?_
    · intro u' c' _
      simp only [gapAt, noGap]
      split <;> omega
    · intro _ c'
      simp only [slackAt, noSlack, if_neg hu]
      split <;> omega

@[simp] theorem valueOf_nil : valueOf c [] = 0 := rfl

@[simp] theorem valueOf_append : valueOf c (es ++ fs) = valueOf c es + valueOf c fs := by
  simp [valueOf]

theorem valueOf_singleton : valueOf c [e] = if e.coinName = c then e.value else 0 := by
  simp [valueOf]

/-- After `n` rounds the loop has posted the first `n` entries of the request. -/
theorem settleLoop_effect (hp : s.requests sn = some p) (hsn : sn ≤ s.serialNo)
    (hn : n ≤ p.details.length) (h : settleLoop d s sn u code rs n = .ok s') :
    Effect d (fun u' c => if u' = u then -amountOf c (p.details.take n) else 0)
      (fun c => if u = d.btsCore then -valueOf c (p.details.take n) else 0) s s' := by
  induction n generalizing s' with
  | zero =>
    simp only [settleLoop, range_zero, foldlM_nil, pure_ok] at h
    subst h
    refine Effect.refl.total ?_ ?_ <;> simp
  | succ n ih =>
    simp only [settleLoop, range_succ, foldlM_append, foldlM_cons, foldlM_nil,
      bind_ok, pure_ok] at h
    obtain ⟨t, ht, _, hround, rfl⟩ := h
    have hloop := ih (by omega) ht
    have hlt : n < p.details.length := by omega
    -- the request is still the one the loop has started with
    rw [settleRound, hloop.kept sn hsn, hp, Option.bind_some, getElem?_eq_getElem hlt] at hround
    refine (hloop.trans (handleResponseService_effect (tame_react d _) hround)).total ?_ ?_
    · intro u' c _
      simp only [gapAt, take_add_one, getElem?_eq_getElem hlt, Option.toList_some,
        amountOf_append, amountOf_cons, amountOf_nil]
      by_cases hu' : u' = u <;> by_cases hc : c = p.details[n].coinName <;>
        simp [hu', hc, eq_comm (a := p.details[n].coinName)]
      omega
    · intro _ c
      simp only [take_add_one, getElem?_eq_getElem hlt, Option.toList_some,
        valueOf_append, valueOf_singleton]
      by_cases hu : u = d.btsCore <;> by_cases hc : c = p.details[n].coinName <;>
        simp [hu, hc, noSlack, slackAt, eq_comm (a := p.details[n].coinName)]

/-- Between transactions the gaps are conserved and the slacks move by at
least `h`; requests may be filed and removed. -/
structure Conserves (d : Deployment) (h : String → Int) (s s' : St) : Prop where
  registry : registry s' = registry s
  numbered : Numbered s'.serialNo s'.requests
  count : (s'.numOfPendingRequests : Int) - (live s'.serialNo s'.requests).card =
    s.numOfPendingRequests - (live s.serialNo s.requests).card
  gap : ∀ u c, u ≠ d.btsCore → gap s' u c = gap s u c
  slack : Distinct s → ∀ c, slack d s c + h c ≤ slack d s' c

theorem Effect.conserves (hn : Numbered s.serialNo s.requests) (he : Effect d noGap h s s') :
    Conserves d h s s' :=
  ⟨he.registry, he.numbered hn, he.count, fun u c hu => (he.gap u c hu).trans (add_zero _), he.slack⟩

theorem settle_conserves (hn : Numbered s.serialNo s.requests)
    (h : settle d s sn code message rs = .ok s') : Conserves d noSlack s s' := by
  obtain ⟨p, u, t, hp, hu, -, ht, hle, rfl⟩ := settle_ok h
  have hsn : sn ≤ s.serialNo := (hn sn (by simp [hp])).2
  have hloop := settleLoop_effect hp hsn le_rfl ht
  rw [take_length] at hloop
  have hpt : t.requests sn = some p := (hloop.kept sn hsn).trans hp
  have hlive : sn ∈ live t.serialNo t.requests :=
    mem_live.2 ⟨hsn.trans hloop.serial, by simp [hpt]⟩
  have hfrom : ∀ u', p.IsFrom u' ↔ u' = u := fun u' =>
    ⟨fun h' => Except.ok.inj (h'.symm.trans hu), fun h' => h' ▸ hu⟩
  refine ⟨hloop.registry, (hloop.numbered hn).remove sn, ?_, fun u' c hu' => ?_, fun hd c => ?_⟩
  · have hcard := card_live_remove hlive
    have hcount := hloop.count
    simp only
    omega
  · have hg := hloop.gap u' c hu'
    have hw := weight_remove (fun p => if p.IsFrom u' then amountOf c p.details else 0) hlive hpt
    simp only [hfrom] at hw
    simp only [BTS.gap, pendingLocked] at hg ⊢
    split at hg <;> simp_all only [if_true, if_false] <;> omega
  · have hs := hloop.slack hd c
    have hw := weight_remove (fun p => if p.IsFrom d.btsCore then valueOf c p.details else 0)
      hlive hpt
    simp only [hfrom, eq_comm (a := d.btsCore)] at hw
    simp only [BTS.slack, noSlack, owed, pendingFees, owedToUsers, held] at hs ⊢
    split at hw <;> simp_all only [if_true, if_false] <;> omega

theorem Reports.effect (hattempt : ∀ t, attempt = .ok t → Effect d noGap noSlack s t)
    (h : Reports s attempt ty src sn s') : Effect d noGap noSlack s s' := by
  cases h with
  | confirms t _ ht h => exact h ▸ (hattempt t ht).trans (control_effect t ..)
  | refuses _ h => exact h ▸ control_effect s ..

theorem requestLoop_effect (h : requestLoop d target s assets rs = .ok s') :
    Effect d noGap (paidOut s assets) s s' := by
  induction assets generalizing s rs with
  | nil =>
    simp only [requestLoop, Except.ok.injEq] at h
    subst h
    exact Effect.refl.total (fun _ _ _ => rfl) fun _ c => by simp [paidOut, assetsOf]
  | cons a assets ih =>
    simp only [requestLoop, bind_ok] at h
    obtain ⟨-, -, user, -, -, -, h⟩ := h
    split at h
    · next t ht =>
      have hm := mint_effect (tame_react d _) ht
      refine (hm.trans (ih h)).total (fun _ _ _ => rfl) fun _ c => ?_
      rw [paidOut_cons, paidOut_congr hm.registry]
    · contradiction

theorem valueOf_cons :
    valueOf c (e :: es) = (if e.coinName = c then e.value else 0) + valueOf c es := by
  simp [valueOf]

theorem chargedCoins_fees (fees : String → Nat) (names : List String) (c : String) :
    (chargedCoins fees names).2 c + valueOf c (chargedCoins fees names).1 = fees c := by
  induction names generalizing fees with
  | nil => simp [chargedCoins]
  | cons n names ih =>
    simp only [chargedCoins]
    split
    · have := ih (update fees n 0)
      simp only [valueOf_cons]
      by_cases hc : n = c
      · subst hc
        rw [update_self] at this
        simp only [if_true]
        omega
      · rw [update_of_ne (Ne.symm hc)] at this
        simp only [hc, if_false]
        omega
    · exact ih fees

theorem transferFees_effect (h : transferFees d s fa = .ok s') : Effect d noGap noSlack s s' := by
  have hcharge : Effect d noGap (fun c => valueOf c (chargedCoins s.aggregationFee s.coinsName).1) s
      { s with aggregationFee := (chargedCoins s.aggregationFee s.coinsName).2 } := by
    refine .of_table rfl ⟨rfl, rfl, rfl⟩ (fun _ _ _ => (add_zero _).symm) fun _ c => ?_
    have := chargedCoins_fees s.aggregationFee s.coinsName c
    simp only [held, owedToUsers]
    omega
  refine (hcharge.trans (sendServiceMessage_effect h)).total (fun u c hu => ?_) fun _ c => ?_
  · simp [hu]
  · simp

theorem handleFeeGathering_effect (h : handleFeeGathering d s sender fa svc = .ok s') :
    Effect d noGap noSlack s s' := by
  simp only [handleFeeGathering, bind_ok] at h
  obtain ⟨-, -, -, -, _, -, h⟩ := h
  exact transferFees_effect h

def Executes (d : Deployment) (s : St) (tx : Tx) (assets : List Asset) : Prop :=
  ∃ src svc sn sender target rs t,
    tx = .handleBTPMessage d.bmc src svc sn
      (some { serviceType := .requestCoinTransfer,
              data := .transferCoin { sender, target, assets } }) rs ∧
    handleRequestService d s target assets rs = .ok t

theorem handleBTPMessage_conserves (hn : Numbered s.serialNo s.requests)
    (h : handleBTPMessage d s sender src svc sn msg rs = .ok s') :
    Conserves d noSlack s s' ∨ ∃ assets,
      Executes d s (.handleBTPMessage sender src svc sn msg rs) assets ∧
        Conserves d (paidOut s assets) s s' := by
  obtain ⟨m, rfl⟩ := handleBTPMessage_some h
  obtain ⟨rfl, hreceives⟩ := handleBTPMessage_receives h
  clear h
  cases hreceives with
  | accepts tc t receiver ht h =>
    refine .inr ⟨tc.assets, ⟨src, svc, sn, tc.sender, tc.target, rs, t, rfl, ht⟩, ?_⟩
    simp only [handleRequestService, bind_ok] at ht
    obtain ⟨-, -, ht⟩ := ht
    subst h
    exact (((requestLoop_effect ht).trans (control_effect t ..)).total (fun _ _ _ => rfl)
      fun _ c => by simp).conserves hn
  | refuses _ _ h => exact .inl (h ▸ (control_effect s ..).conserves hn)
  | blacklist bm h =>
    refine .inl ((h.effect fun t ht => ?_).conserves hn)
    obtain ⟨_, rfl, -⟩ := BlacklistMessage.change_eq ht
    exact control_effect s ..
  | limit tl h =>
    refine .inl ((h.effect fun t ht => ?_).conserves hn)
    simp only [setTokenLimit, bind_ok, pure_ok] at ht
    obtain ⟨-, -, -, -, rfl⟩ := ht
    exact control_effect s ..
  | response r h => exact .inl (settle_conserves hn h)
  | unknown _ h => exact .inl (h ▸ (control_effect s ..).conserves hn)
  | disowned _ _ h => exact .inl (h ▸ (control_effect s ..).conserves hn)

theorem step_conserves (hn : Numbered s.serialNo s.requests) (hr : ¬tx.Registers)
    (h : step d s tx = .ok s') :
    Conserves d noSlack s s' ∨ ∃ assets, Executes d s tx assets ∧
      Conserves d (paidOut s assets) s s' := by
  cases tx with
  | user sender c => exact .inl ((call_effect d s s' sender c h).conserves hn)
  | handleBTPMessage sender src svc sn msg rs => exact handleBTPMessage_conserves hn h
  | handleBTPError sender svc sn code message rs =>
    simp only [step, handleBTPError, bind_ok] at h
    obtain ⟨-, -, -, -, -, -, h⟩ := h
    exact .inl (settle_conserves hn h)
  | handleFeeGathering sender fa svc => exact .inl ((handleFeeGathering_effect h).conserves hn)
  | routes reachable =>
    simp only [step, Except.ok.injEq] at h
    subst h
    exact .inl ((control_effect s ..).conserves hn)
  | register | setFeeRatio | updateCoinDb => exact absurd trivial hr

theorem step_registers (hr : tx.Registers) (h : step d s tx = .ok s') :
    s'.requests = s.requests ∧ s'.serialNo = s.serialNo ∧
      s'.numOfPendingRequests = s.numOfPendingRequests ∧ s'.balances = s.balances ∧
      s'.aggregationFee = s.aggregationFee ∧ s'.native = s.native := by
  obtain ⟨_, _, _, _, _, _, rfl | ⟨_, _, ht⟩, rfl⟩ := step_registers_eq hr h
  · exact ⟨rfl, rfl, rfl, rfl, rfl, rfl⟩
  · simp only [deployTradable, bind_ok, pure_ok] at ht
    obtain ⟨-, -, -, -, rfl⟩ := ht
    exact ⟨rfl, rfl, rfl, rfl, rfl, rfl⟩

end IconBridge.Solidity.BTS
