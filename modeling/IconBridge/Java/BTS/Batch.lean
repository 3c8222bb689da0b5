import IconBridge.Java.BTS.Limits
import IconBridge.Java.BTS.Requests

/-!
# Batches

A batch asks for its entries with the fees taken off. The limit of a coin is
compared with each entry.
-/

namespace IconBridge.Java.BTS

open Lib List

variable {d : Deployment} {r : Receivers} {s s' : St}

def batchEntries (d : Deployment) (coinNames : List String) (values : List ℤ) (value : ℕ) :
    List (String × ℤ) :=
  (if 0 < value then [(d.name, (value : ℤ))] else []) ++ coinNames.zip values

def leftOf (d : Deployment) (s : St) (owner : Address) (a : String × ℤ) : ℤ :=
  a.2 - ((s.coinDb a.1).map fun coin => feeFor d coin owner a.2).getD 0

theorem leftOf_congr (h : s'.coinDb = s.coinDb) : leftOf d s' owner = leftOf d s owner := by
  funext a
  rw [leftOf, leftOf, h]

theorem feeFor_nonneg {coin : Coin} (hratio : 0 ≤ coin.feeNumerator) (hfixed : 0 ≤ coin.fixedFee)
    (ha : 0 ≤ amount) : 0 ≤ feeFor d coin owner amount := by
  have hratio' : 0 ≤ (if owner = d.bts then 0 else coin.feeNumerator) := by
    split
    · exact le_rfl
    · exact hratio
  unfold feeFor
  generalize (if owner = d.bts then 0 else coin.feeNumerator) = feeRatio at hratio' ⊢
  have hshare : 0 ≤ (amount * feeRatio).tdiv feeDenominator :=
    Int.tdiv_nonneg (Int.mul_nonneg ha hratio') (by decide)
  dsimp only
  split
  · exact Int.one_nonneg
  · exact Int.add_nonneg hshare hfixed

theorem leftOf_le (hs : Nonneg s) (ha : 0 ≤ a.2) : leftOf d s owner a ≤ a.2 := by
  unfold leftOf
  cases hcoin : s.coinDb a.1 with
  | none => simp
  | some coin =>
    obtain ⟨hratio, hfixed⟩ := hs.fees a.1 coin hcoin
    have hfee : 0 ≤ feeFor d coin owner a.2 := feeFor_nonneg hratio hfixed ha
    simp only [Option.map_some, Option.getD_some]
    omega

theorem lockAsset_asset (h : lockAsset d owner (s, ds) a = .ok (s', ds')) :
    ds'.map AssetTransferDetail.toAsset =
        ds.map AssetTransferDetail.toAsset ++ [⟨a.1, leftOf d s owner a⟩] ∧
      s'.coinDb = s.coinDb := by
  simp only [lockAsset, newAssetTransferDetail, bind_ok, pure_ok, Prod.mk.injEq] at h
  obtain ⟨detail, hdetail, t, ht, rfl, rfl⟩ := h
  obtain ⟨_, _, _, rfl⟩ := lock_moves ht
  refine ⟨?_, rfl⟩
  split at hdetail
  · contradiction
  · next coin hcoin =>
    split at hdetail
    · contradiction
    · cases hdetail
      simp [leftOf, hcoin]

theorem lockAssets_assets {coins : List (String × ℤ)}
    (h : coins.foldlM (lockAsset d owner) (s, ds) = .ok (s', ds')) :
    ds'.map AssetTransferDetail.toAsset =
      ds.map AssetTransferDetail.toAsset ++ coins.map fun a => ⟨a.1, leftOf d s owner a⟩ := by
  induction coins generalizing s ds with
  | nil =>
    cases h
    simp
  | cons a coins ih =>
    simp only [foldlM_cons, bind_ok, Prod.exists] at h
    obtain ⟨t, ds1, hlock, h⟩ := h
    obtain ⟨hds, hcoins⟩ := lockAsset_asset hlock
    rw [ih h, hds, leftOf_congr hcoins]
    simp

theorem sendRequest_sent (h : sendRequest d s owner target coins = .ok s') :
    ∃ m, s'.sent = s.sent ++ [m] ∧ m.msg.data = .transferRequest {
      sender := owner.toString, target := target.contract
      assets := coins.map fun a => ⟨a.1, leftOf d s owner a⟩ } := by
  simp only [sendRequest, sendMessage, bind_ok, pure_ok, Prod.exists] at h
  obtain ⟨t, details, ht, _, ⟨_, -, _, -, rfl⟩, rfl⟩ := h
  have hassets := lockAssets_assets ht
  obtain ⟨⟨_, _, _, rfl⟩, -⟩ := lockAssets_moves ht
  rw [map_nil, nil_append] at hassets
  exact ⟨_, rfl, by rw [hassets]⟩

theorem checkTokenLimit_ok (hrestriction : s.restriction = true)
    (h : checkTokenLimit s c v = .ok u) : v ≤ getTokenLimit s c := by
  rw [checkTokenLimit, if_pos hrestriction] at h
  exact of_decide_eq_true (require_ok.1 h)

/-- A batch asks for its entries with the fees taken off, and each entry keeps
within the limit of its coin. -/
theorem transferBatch_asks (hrestriction : s.restriction = true)
    (h : transferBatch d r s sender coinNames values value target = .ok s') :
    (∀ a ∈ batchEntries d coinNames values value, 0 < a.2 ∧ a.2 ≤ getTokenLimit s a.1) ∧
      ∃ m account, s'.sent = s.sent ++ [m] ∧ m.msg.data = .transferRequest {
        sender := sender.toString, target := account
        assets := (batchEntries d coinNames values value).map fun a => ⟨a.1, leftOf d s sender a⟩ } := by
  simp only [transferBatch, bind_ok] at h
  obtain ⟨t, ht, _, -, _, -, _, hattached, _, -, btp, -, _, -, _, -, _, hchecks, u, hu, h⟩ := h
  obtain ⟨_, _, _, rfl⟩ := attach_moves ht
  obtain ⟨_, _, _, rfl⟩ := Moves.foldlM (fun _ _ _ => transferFrom_moves) hu
  refine ⟨forall_mem_append.2 ⟨fun a ha => ?_, fun a ha => ?_⟩, ?_⟩
  · have hcheck := checkTokenLimit_ok hrestriction (forM_ok hattached a ha)
    refine ⟨?_, hcheck⟩
    split at ha
    · next hpos =>
      obtain rfl := mem_singleton.1 ha
      exact Int.natCast_pos.2 hpos
    · contradiction
  · have hcheck := forM_ok hchecks a ha
    simp only [checkBatchEntry, bind_ok, require_ok, decide_eq_true_eq] at hcheck
    obtain ⟨_, -, _, hpos, _, -, hcheck⟩ := hcheck
    exact ⟨hpos, checkTokenLimit_ok hrestriction hcheck⟩
  · obtain ⟨m, hsent, hdata⟩ := sendRequest_sent h
    exact ⟨m, _, hsent, hdata⟩

end IconBridge.Java.BTS
