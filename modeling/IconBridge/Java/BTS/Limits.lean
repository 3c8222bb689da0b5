import IconBridge.Java.BTS.Requests

/-!
# Prices and limits

What a transaction does to the fees of the coins, to the limits, and to what is
known about the networks that were told of them.
-/

namespace IconBridge.Java.BTS

open Lib Function

variable {d : Deployment} {s s' : St}

def terms (s : St) := (s.coinDb, s.tokenLimit, s.tokenLimitTxn, s.tokenLimitStatus)

inductive Amends (d : Deployment) (s : St) : Tx → St → Prop
  | keeps (tx : Tx) (s' : St) (h : terms s' = terms s) : Amends d s tx s'
  | prices (tx : Tx) (s' : St) (name : String) (coin : Coin) (hratio : 0 ≤ coin.feeNumerator)
      (hfixed : 0 ≤ coin.fixedFee)
      (h : terms s' = (update s.coinDb name (some coin), s.tokenLimit, s.tokenLimitTxn,
        s.tokenLimitStatus)) : Amends d s tx s'
  | limits (sender : Address) (coinNames : List String) (tokenLimits : List ℤ) (nets : List String)
      (s' : St) (h : Sets d coinNames tokenLimits nets s s') :
      Amends d s (.setTokenLimit sender coinNames tokenLimits) s'
  | answered (r : Receivers) (caller : Address) (net svc : String) (sn : ℤ)
      (response : TransferResponse) (s' : St) (h : Acks net sn response s s') :
      Amends d s
        (.handleBTPMessage r caller net svc sn (some ⟨.changeTokenLimit, .response response⟩)) s'
  | failed (r : Receivers) (caller : Address) (src : String) (sn code : ℤ) (msg : String)
      (t : TokenLimitTransaction) (tokenLimitStatus : String → String → Bool)
      (ht : s.tokenLimitTxn sn = some t)
      (hstatus : ∀ n c, tokenLimitStatus n c =
        if n = src ∧ c ∈ t.coinName then false else s.tokenLimitStatus n c) :
      Amends d s (.handleBTPError r caller src sn code msg) { s with tokenLimitStatus }

theorem sendRequest_amends {tx : Tx} (h : sendRequest d t owner target coins = .ok s')
    (hterms : terms t = terms s) : Amends d s tx s' := by
  obtain ⟨_, _, ⟨_, _, _, rfl⟩, -, -, rfl⟩ := sendRequest_eq h
  exact .keeps _ _ hterms

theorem handleResponse_amends {tx : Tx} (h : handleResponse d r s sn response = .ok s') :
    Amends d s tx s' := by
  obtain ⟨-, rfl⟩ | ⟨_, _, -, -, ⟨_, _, _, _, rfl, -⟩, rfl⟩ := handleResponse_eq h
  · exact .keeps _ _ rfl
  · exact .keeps _ _ rfl

theorem Lists.amends {tx : Tx} (h : Lists s s') : Amends d s tx s' := by
  obtain ⟨_, rfl⟩ := h
  exact .keeps _ _ rfl

theorem sendBlacklist_amends {tx : Tx} (hlists : Lists s t)
    (h : sendBlacklist d t ty net address = .ok s') : Amends d s tx s' := by
  obtain ⟨_, rfl⟩ := hlists
  obtain ⟨-, rfl⟩ | rfl := sendBlacklist_eq h
  · exact .keeps _ _ rfl
  · exact .keeps _ _ rfl

theorem Receives.amends (h : Receives d r s src sn s' m) :
    Amends d s (.handleBTPMessage r caller src svc sn (some m)) s' := by
  cases h with
  | request request h =>
    obtain ⟨_, _, ⟨_, _, _, rfl⟩, rfl⟩ := handleRequest_eq h
    exact .keeps _ _ rfl
  | response response h => exact handleResponse_amends h
  | blacklist response h =>
    subst h
    obtain hlists | ⟨_, _, -, heq⟩ := handleBlacklist_eq d s sn response
    · exact hlists.amends
    · exact .keeps _ _ (heq ▸ rfl)
  | limit response h => exact .answered _ _ _ _ _ response _ (handleChangeTokenLimit_acks h)
  | unknown _ h => exact .keeps _ _ (h ▸ rfl)
  | disowned _ _ _ _ h => exact .keeps _ _ (h ▸ rfl)

theorem Fails.amends (h : Fails d r s src sn s') :
    Amends d s (.handleBTPError r caller src sn code msg) s' := by
  cases h with
  | request _ _ _ h => exact handleResponse_amends h
  | limit t _ ht h =>
    obtain ⟨status, hfold, hstatus⟩ := setTokenLimitStatus_eq s src false t.coinName
    rw [h, hfold]
    exact .failed _ _ _ _ _ _ t status ht hstatus
  | blacklist _ _ _ h => exact h ▸ undoBlacklist_lists.amends
  | nothing _ h => exact .keeps _ _ (h ▸ rfl)

theorem step_amends (h : step d s tx = .ok s') : Amends d s tx s' := by
  cases step_does h with
  | moves _ _ _ _ h =>
    obtain ⟨_, _, _, rfl⟩ := h
    exact .keeps _ _ rfl
  | asks _ _ _ _ _ _ _ _ hmoves h =>
    obtain ⟨_, _, _, rfl⟩ := hmoves
    exact sendRequest_amends h rfl
  | receives _ _ _ _ _ _ _ h => exact h.amends
  | fails _ _ _ _ _ _ _ h => exact h.amends
  | gathers _ _ _ _ h =>
    cases h with
    | pays _ _ _ h =>
      obtain ⟨_, _, _, rfl⟩ := h
      exact .keeps _ _ rfl
    | sends _ _ _ h => exact sendRequest_amends h rfl
  | prices _ _ _ _ h =>
    obtain ⟨_, _, _, _, _, name, coin, hratio, hfixed, rfl⟩ := h
    exact .prices _ _ name coin hratio hfixed rfl
  | limits _ _ _ nets _ h => exact .limits _ _ _ nets _ h
  | adds _ _ _ _ _ _ hlists h | removes _ _ _ _ _ _ hlists h =>
    exact sendBlacklist_amends hlists h
  | configures => exact .keeps _ _ rfl

structure Nonneg (s : St) : Prop where
  fees : ∀ c coin, s.coinDb c = some coin → 0 ≤ coin.feeNumerator ∧ 0 ≤ coin.fixedFee
  limits : ∀ c, 0 ≤ getTokenLimit s c

theorem step_nonneg (hs : Nonneg s) (h : step d s tx = .ok s') : Nonneg s' := by
  cases step_amends h with
  | keeps _ _ hterms =>
    simp only [terms, Prod.mk.injEq] at hterms
    refine ⟨hterms.1 ▸ hs.fees, fun c => ?_⟩
    have hc := hs.limits c
    rwa [getTokenLimit, ← hterms.2.1] at hc
  | prices _ _ name coin hratio hfixed hterms =>
    simp only [terms, Prod.mk.injEq] at hterms
    refine ⟨fun c k hk => ?_, fun c => ?_⟩
    · rw [hterms.1, update_apply] at hk
      split at hk
      · cases hk
        exact ⟨hratio, hfixed⟩
      · exact hs.fees c k hk
    · have hc := hs.limits c
      rwa [getTokenLimit, ← hterms.2.1] at hc
  | limits _ _ _ _ _ hsets =>
    refine ⟨fun c k hk => ?_, fun c => ?_⟩
    · obtain ⟨_, _, rfl⟩ := hsets.writes
      exact hs.fees c k hk
    · rw [getTokenLimit]
      obtain hkept | ⟨v, hpos, hnew⟩ := hsets.limits c
      · exact hkept ▸ hs.limits c
      · rwa [hnew, Option.getD_some]
  | answered _ _ _ _ _ _ _ hacks =>
    cases hacks with
    | closed _ h => exact h ▸ hs
    | opened _ _ _ _ _ _ h => exact h ▸ ⟨hs.fees, hs.limits⟩
  | failed => exact ⟨hs.fees, hs.limits⟩

theorem initialState_nonneg (hratio : 0 ≤ feeNumerator) (hfixed : 0 ≤ fixedFee) :
    Nonneg (initialState d feeNumerator fixedFee icx code irc2) := by
  refine ⟨fun c coin hcoin => ?_, fun c => ?_⟩
  · simp only [initialState, update_apply] at hcoin
    split at hcoin
    · cases hcoin
      exact ⟨hratio, hfixed⟩
    · contradiction
  · simp [getTokenLimit, initialState, uintCap]

theorem run_nonneg (hs : Nonneg s) (txs : List Tx) : Nonneg (run (step d) s txs) :=
  run_induct (fun _ _ _ => step_nonneg) hs

end IconBridge.Java.BTS
