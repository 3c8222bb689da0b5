import IconBridge.Java.BTS.Effects

/-!
# What a transaction does to the requests

A transaction files a request, settles one, gathers the fees or leaves the
requests alone.
-/

namespace IconBridge.Java.BTS

open Lib

variable {d : Deployment} {r : Receivers} {s s' : St}

structure Files (owner : Address) (target : BTPAddress) (details : List AssetTransferDetail)
    (s s' : St) : Prop where
  transactions : s'.transactions = Function.update s.transactions (s.sn + 1)
    (some { sender := owner, target := target.toString, assets := details })
  sn : s'.sn = s.sn + 1
  sent : s'.sent = s.sent ++ [{
    target := target.net
    sn := s.sn + 1
    msg := {
      serviceType := .requestCoinTransfer
      data := .transferRequest {
        sender := owner.toString
        target := target.contract
        assets := details.map AssetTransferDetail.toAsset } } }]

theorem sendRequest_files (h : sendRequest d s owner target coins = .ok s') :
    s'.feeBalances = s.feeBalances ∧ ∃ details, Files owner target details s s' ∧
      details.map AssetTransferDetail.whole = coins ∧ ∀ a ∈ details, (s.coinDb a.coinName).isSome := by
  obtain ⟨t, details, ⟨_, _, _, rfl⟩, hwhole, hcoins, rfl⟩ := sendRequest_eq h
  exact ⟨rfl, details, ⟨rfl, rfl, rfl⟩, hwhole, hcoins⟩

def Charges (δ : String → ℤ) (s s' : St) : Prop :=
  ∃ icx irc2 balances feeBalances, s' = { s with icx, irc2, balances, feeBalances } ∧
    ∀ c, feeBalances c = s.feeBalances c + δ c

theorem Charges.of_moves (h : Moves s s') : Charges 0 s s' := by
  obtain ⟨_, _, _, rfl⟩ := h
  exact ⟨_, _, _, _, rfl, fun c => (add_zero _).symm⟩

theorem Charges.trans (h1 : Charges δ s t) (h2 : Charges δ' t s') : Charges (δ + δ') s s' := by
  obtain ⟨_, _, _, _, rfl, hfirst⟩ := h1
  obtain ⟨_, _, _, fees, rfl, hthen⟩ := h2
  refine ⟨_, _, _, fees, rfl, fun c => ?_⟩
  rw [hthen, Pi.add_apply, ← add_assoc, ← hfirst]

theorem addFee_charges (h : Moves s t) : Charges (on c v) s (addFee t c v) := by
  obtain ⟨_, _, _, rfl⟩ := h
  refine ⟨_, _, _, _, rfl, fun x => ?_⟩
  simp only [on, Function.update_apply]
  split
  · next h => rw [h]
  · rw [add_zero]

theorem setBalance_moves : Moves s (setBalance s c owner b) := ⟨_, _, _, rfl⟩

theorem settle_charges (h : settle d owner s a = .ok s') : Charges (on a.coinName a.fee) s s' := by
  simp only [settle, bind_ok, pure_ok] at h
  obtain ⟨_, -, rfl⟩ := h
  exact addFee_charges setBalance_moves

theorem refundAsset_charges (h : refundAsset d r owner s a = .ok s') :
    Charges (on a.coinName a.fee) s s' := by
  simp only [refundAsset, bind_ok, pure_ok] at h
  obtain ⟨_, -, rfl⟩ := h
  unfold refund
  dsimp only
  generalize hpay : payBack d r _ _ _ _ = x
  obtain ⟨t, thrown⟩ := x
  have hpaid : Moves s t := setBalance_moves.trans (payBack_moves hpay)
  dsimp only
  split
  · exact addFee_charges (hpaid.trans setBalance_moves)
  · exact addFee_charges hpaid

def feesOf (assets : List AssetTransferDetail) : String → ℤ :=
  amountOf (assets.map fun a => (a.coinName, a.fee))

theorem foldlM_charges {f : St → AssetTransferDetail → Outcome St} {assets : List AssetTransferDetail}
    (hf : ∀ s a s', f s a = .ok s' → Charges (on a.coinName a.fee) s s')
    (h : assets.foldlM f s = .ok s') : Charges (feesOf assets) s s' := by
  induction assets generalizing s with
  | nil =>
    cases h
    exact .of_moves .refl
  | cons a assets ih =>
    simp only [List.foldlM_cons, bind_ok] at h
    obtain ⟨t, ht, h⟩ := h
    have hall := (hf s a t ht).trans (ih h)
    have hsum : feesOf (a :: assets) = on a.coinName a.fee + feesOf assets := by
      funext c
      simp [feesOf, amountOf]
    exact hsum ▸ hall

theorem settleAssets_charges (h : settleAssets d r s t code = .ok s') :
    Charges (feesOf t.assets) s s' := by
  unfold settleAssets at h
  split at h
  · simp only [bind_ok] at h
    obtain ⟨u, hu, h⟩ := h
    have hburn := Charges.of_moves (.foldlM (fun _ _ _ => burn_moves) h)
    simpa using (foldlM_charges (fun _ _ _ => settle_charges) hu).trans hburn
  · exact foldlM_charges (fun _ _ _ => refundAsset_charges) h

theorem handleResponse_eq (h : handleResponse d r s sn response = .ok s') :
    (s.transactions sn = none ∧ s' = s) ∨ ∃ t u, s.transactions sn = some t ∧
      t.assets.length ≤ batchLimitSize ∧ Charges (feesOf t.assets) s u ∧ s' = { u with
        transactions := Function.update u.transactions sn none
        events := u.events ++ [.transferEnd t.sender sn response.code response.message] } := by
  unfold handleResponse at h
  split at h
  · next hnone =>
    cases h
    exact .inl ⟨hnone, rfl⟩
  · next t ht =>
    simp only [bind_ok, require_ok, decide_eq_true_eq, pure_ok] at h
    obtain ⟨_, hsize, u, hu, rfl⟩ := h
    exact .inr ⟨t, u, ht, hsize, settleAssets_charges hu, rfl⟩

structure Settles (sn : ℤ) (t : TransferTransaction) (s s' : St) : Prop where
  pending : s.transactions sn = some t
  size : t.assets.length ≤ batchLimitSize
  transactions : s'.transactions = Function.update s.transactions sn none
  sn : s'.sn = s.sn
  sent : s'.sent = s.sent
  fees : ∀ c, s'.feeBalances c = s.feeBalances c + feesOf t.assets c

/-- The pending requests and the fees stay; what is sent are no requests. -/
structure Quiet (s s' : St) : Prop where
  transactions : s'.transactions = s.transactions
  fees : s'.feeBalances = s.feeBalances
  sn : s.sn ≤ s'.sn
  sent : ∃ out, s'.sent = s.sent ++ out ∧ ∀ o ∈ out, o.msg.serviceType ≠ .requestCoinTransfer

theorem Quiet.refl : Quiet s s := ⟨rfl, rfl, le_rfl, [], by simp⟩

theorem Quiet.of_moves (h : Moves s s') : Quiet s s' := by
  obtain ⟨_, _, _, rfl⟩ := h
  exact ⟨rfl, rfl, le_rfl, [], by simp⟩

theorem Quiet.of_lists (h : Lists s s') : Quiet s s' := by
  obtain ⟨_, rfl⟩ := h
  exact ⟨rfl, rfl, le_rfl, [], by simp⟩

theorem sendBlacklist_quiet (ht : Lists s t) (h : sendBlacklist d t ty net address = .ok s') :
    Quiet s s' := by
  obtain ⟨_, rfl⟩ := ht
  obtain ⟨-, rfl⟩ | rfl := sendBlacklist_eq h
  · exact ⟨rfl, rfl, le_rfl, [], by simp⟩
  · exact ⟨rfl, rfl, Int.le_add_one le_rfl, _, rfl, by simp⟩

def settledBy (s : St) (tx : Tx) : Option (TransferTransaction × ℤ) :=
  tx.response.bind fun x => (s.transactions x.1).map fun t => (t, x.2)

inductive Deed (d : Deployment) (s : St) (tx : Tx) (s' : St) : Prop
  | quiet (hnone : settledBy s tx = none) (hgather : tx.aggregator = none) (h : Quiet s s')
  | files (owner : Address) (target : BTPAddress) (details : List AssetTransferDetail)
      (howner : tx.requester = some owner) (h : Files owner target details s s')
      (hfees : s'.feeBalances = s.feeBalances) (hsize : details.length ≤ batchLimitSize)
      (hcoins : ∀ a ∈ details, (s.coinDb a.coinName).isSome)
  | settles (sn code : ℤ) (t : TransferTransaction) (htx : tx.response = some (sn, code))
      (h : Settles sn t s s')
  | paysFees (fa : String) (target : BTPAddress) (htx : tx.aggregator = some fa)
      (htarget : d.valueOf fa = .ok target) (hhere : target.net = d.net ∨ (clearFees d s).2 = [])
      (hfees : s'.feeBalances = (clearFees d s).1.feeBalances)
      (hdesk : s'.transactions = s.transactions ∧ s'.sn = s.sn ∧ s'.sent = s.sent)
  | sendsFees (fa : String) (target : BTPAddress) (details : List AssetTransferDetail)
      (htx : tx.aggregator = some fa) (htarget : d.valueOf fa = .ok target)
      (hthere : target.net ≠ d.net) (h : Files d.bts target details s s')
      (hfees : s'.feeBalances = (clearFees d s).1.feeBalances)
      (hwhole : details.map AssetTransferDetail.whole = (clearFees d s).2)
      (hcoins : ∀ a ∈ details, (s.coinDb a.coinName).isSome)

theorem handleResponse_deed {tx : Tx} (htx : tx.response = some (sn, code))
    (hgather : tx.aggregator = none) (h : handleResponse d r s sn response = .ok s') :
    Deed d s tx s' := by
  obtain ⟨hnone, rfl⟩ | ⟨t, _, ht, hsize, ⟨_, _, _, _, rfl, hfees⟩, rfl⟩ := handleResponse_eq h
  · exact .quiet (by simp [settledBy, htx, hnone]) hgather .refl
  · exact .settles sn code t htx ⟨ht, hsize, rfl, rfl, rfl, hfees⟩

theorem Receives.deed (h : Receives d r s src sn s' m) :
    Deed d s (.handleBTPMessage r caller src svc sn (some m)) s' := by
  cases h with
  | request request h =>
    obtain ⟨_, _, ⟨_, _, _, rfl⟩, rfl⟩ := handleRequest_eq h
    exact .quiet rfl rfl ⟨rfl, rfl, le_rfl, _, rfl, by simp⟩
  | response response h => exact handleResponse_deed rfl rfl h
  | blacklist response h =>
    subst h
    obtain hlists | ⟨_, _, -, heq⟩ := handleBlacklist_eq d s sn response
    · exact .quiet rfl rfl (.of_lists hlists)
    · exact .quiet rfl rfl (heq ▸ ⟨rfl, rfl, le_rfl, [], by simp⟩)
  | limit response h =>
    cases handleChangeTokenLimit_acks h with
    | closed _ h => exact .quiet rfl rfl (h ▸ .refl)
    | opened _ _ _ _ _ _ h => exact .quiet rfl rfl (h ▸ ⟨rfl, rfl, le_rfl, [], by simp⟩)
  | unknown data h => exact .quiet rfl rfl (h ▸ ⟨rfl, rfl, le_rfl, [], by simp⟩)
  | disowned ty data response hty h =>
    refine .quiet ?_ rfl (h ▸ ⟨rfl, rfl, le_rfl, _, rfl, by simp⟩)
    unfold settledBy Tx.response
    split
    · next heq =>
      cases heq
      exact absurd rfl hty.2.1
    · contradiction
    · rfl

theorem Fails.deed (h : Fails d r s src sn s') :
    Deed d s (.handleBTPError r caller src sn code msg) s' := by
  have hsettled (hnone : s.transactions sn = none) :
      settledBy s (.handleBTPError r caller src sn code msg) = none := by
    simp [settledBy, Tx.response, hnone]
  cases h with
  | request response hcode hpending h => exact handleResponse_deed rfl rfl h
  | limit t hnone ht h =>
    obtain ⟨_, hfold, -⟩ := setTokenLimitStatus_eq s src false t.coinName
    exact .quiet (hsettled hnone) rfl (h ▸ hfold ▸ ⟨rfl, rfl, le_rfl, [], by simp⟩)
  | blacklist b hnone hb h =>
    exact .quiet (hsettled hnone) rfl (h ▸ .of_lists undoBlacklist_lists)
  | nothing hnone h => exact .quiet (hsettled hnone) rfl (h ▸ .refl)

theorem step_deed (h : step d s tx = .ok s') : Deed d s tx s' := by
  have hquiet (hresponse : tx.response = none) : settledBy s tx = none := by
    rw [settledBy, hresponse, Option.bind_none]
  cases step_does h with
  | moves _ _ hresponse hgather h => exact .quiet (hquiet hresponse) hgather (.of_moves h)
  | asks _ _ t owner target coins howner hsize hmoves h =>
    obtain ⟨hfees, details, hfiles, hwhole, hcoins⟩ := sendRequest_files h
    obtain ⟨_, _, _, rfl⟩ := hmoves
    refine .files owner target details howner ⟨hfiles.transactions, hfiles.sn, hfiles.sent⟩ hfees ?_
      hcoins
    rwa [← List.length_map AssetTransferDetail.whole, hwhole]
  | receives _ _ _ _ _ _ _ h => exact h.deed
  | fails _ _ _ _ _ _ _ h => exact h.deed
  | gathers r caller fa _ h =>
    cases h with
    | pays target htarget hhere h =>
      obtain ⟨_, _, _, rfl⟩ := h
      exact .paysFees fa target rfl htarget hhere rfl ⟨rfl, rfl, rfl⟩
    | sends target htarget hthere h =>
      obtain ⟨hfees, details, hfiles, hwhole, hcoins⟩ := sendRequest_files h
      exact .sendsFees fa target details rfl htarget hthere
        ⟨hfiles.transactions, hfiles.sn, hfiles.sent⟩ hfees hwhole hcoins
  | prices _ _ hresponse hgather h =>
    obtain ⟨_, _, _, _, _, _, _, -, -, rfl⟩ := h
    exact .quiet (hquiet hresponse) hgather ⟨rfl, rfl, le_rfl, [], by simp⟩
  | limits _ _ _ _ _ h =>
    obtain ⟨_, _, rfl⟩ := h.writes
    exact .quiet rfl rfl ⟨rfl, rfl, Int.le_add_one le_rfl, _, rfl, by simp⟩
  | adds _ _ _ _ _ _ hlists h | removes _ _ _ _ _ _ hlists h =>
    exact .quiet rfl rfl (sendBlacklist_quiet hlists h)
  | configures _ _ _ _ hresponse hgather =>
    exact .quiet (hquiet hresponse) hgather ⟨rfl, rfl, le_rfl, [], by simp⟩

theorem step_transactions (h : step d s tx = .ok s') : s.sn ≤ s'.sn ∧
    ∀ k, (s'.transactions k).isSome → (s.transactions k).isSome ∨ s.sn < k ∧ k ≤ s'.sn := by
  have hfiles {owner target details} (h : Files owner target details s s') : s.sn ≤ s'.sn ∧
      ∀ k, (s'.transactions k).isSome → (s.transactions k).isSome ∨ s.sn < k ∧ k ≤ s'.sn := by
    rw [h.sn, h.transactions]
    refine ⟨Int.le_add_one le_rfl, fun k hk => ?_⟩
    rcases eq_or_ne k (s.sn + 1) with rfl | hne
    · exact .inr ⟨Int.lt_add_one_of_le le_rfl, le_rfl⟩
    · exact .inl (by rwa [Function.update_of_ne hne] at hk)
  cases step_deed h with
  | quiet _ _ h => exact ⟨h.sn, fun k hk => .inl (h.transactions ▸ hk)⟩
  | files _ _ _ _ h => exact hfiles h
  | settles sn code t _ h =>
    refine ⟨h.sn.ge, fun k hk => .inl ?_⟩
    rw [h.transactions, Function.update_apply] at hk
    split at hk
    · contradiction
    · exact hk
  | paysFees _ _ _ _ _ _ hdesk => exact ⟨hdesk.2.1.ge, fun k hk => .inl (hdesk.1 ▸ hk)⟩
  | sendsFees _ _ _ _ _ _ h => exact hfiles h

end IconBridge.Java.BTS
