import IconBridge.Java.BTS.Effects

/-!
# When the service holds what it owes

A transfer of a wrapped coin is booked twice: `tokenFallback` makes the tokens
usable for their sender while `lock` locks them. It lowers the cover of the coin
by its amount; no other transaction lowers the cover of a wrapped coin.
-/

namespace IconBridge.Java.BTS

open Lib List

variable {d : Deployment} {r : Receivers} {s s' : St}

@[simp] theorem amountOf_nil : amountOf [] c = 0 := rfl

@[simp] theorem amountOf_cons : amountOf (a :: as) c = on a.1 a.2 c + amountOf as c := by
  simp [amountOf]

theorem amountOf_filter {as : List (String × ℤ)} (hc : c ≠ n) :
    amountOf (as.filter fun a => a.1 ≠ n) c = amountOf as c := by
  induction as with
  | nil => rfl
  | cons a as ih =>
    rw [filter_cons, amountOf_cons]
    split
    · rw [amountOf_cons, ih]
    · next h =>
      rw [ih, on, if_neg, zero_add]
      rintro rfl
      simp [hc] at h

theorem sum_on_neg (as : List (String × ℤ)) (c : String) :
    (as.map fun a => on a.1 (-a.2) c).sum = -amountOf as c := by
  induction as with
  | nil => rfl
  | cons a as ih =>
    rw [map_cons, sum_cons, ih, amountOf_cons]
    simp only [on]
    split <;> omega

theorem newAssetTransferDetail_ok (h : newAssetTransferDetail d s owner a = .ok detail) :
    0 ≤ detail.amount := by
  unfold newAssetTransferDetail at h
  dsimp only at h
  split at h
  · contradiction
  · split at h
    · contradiction
    · cases h
      dsimp only
      omega

theorem lockAssets_effect {coins : List (String × ℤ)} (hs : Sound d s)
    (hds : ∀ a ∈ ds, 0 ≤ a.amount)
    (h : coins.foldlM (lockAsset d owner) (s, ds) = .ok (s', ds')) :
    Effect d (fun c => -amountOf coins c) s s' ∧ ∀ a ∈ ds', 0 ≤ a.amount := by
  induction coins generalizing s ds with
  | nil =>
    cases h
    exact ⟨.refl, hds⟩
  | cons a as ih =>
    simp only [foldlM_cons, lockAsset, bind_ok, pure_ok] at h
    obtain ⟨_, ⟨detail, hdetail, t, ht, rfl⟩, h⟩ := h
    have hlock := lock_effect hs.toRegistry ht
    have hdetails : ∀ x ∈ ds ++ [detail], 0 ≤ x.amount := by
      intro x hx
      rcases mem_append.1 hx with hx | hx
      · exact hds x hx
      · obtain rfl := mem_singleton.1 hx
        exact newAssetTransferDetail_ok hdetail
    obtain ⟨hrest, hds'⟩ := ih (hlock.sound hs) hdetails h
    refine ⟨(hlock.trans hrest).mono fun c _ => ?_, hds'⟩
    simp only [amountOf_cons, Pi.add_apply, on]
    split <;> omega

theorem Effect.of_transactions (h : books { s' with transactions := s.transactions } = books s)
    (hnew : ∀ sn t, s'.transactions sn = some t →
      s.transactions sn = some t ∨ ∀ a ∈ t.assets, 0 ≤ a.amount) : Effect d 0 s s' := by
  have heff : Effect d 0 s { s' with transactions := s.transactions } := .of_books h
  refine ⟨heff.coinNames, heff.coinAddresses, heff.coinAddressName, heff.coinDb, heff.code,
    heff.cover, heff.owed, fun hpos sn t ht => ?_, heff.allowance⟩
  rcases hnew sn t ht with h | h
  · exact hpos sn t h
  · exact h

theorem sendRequest_effect (hs : Sound d s) (h : sendRequest d s owner target coins = .ok s') :
    Effect d (fun c => -amountOf coins c) s s' := by
  simp only [sendRequest, bind_ok, pure_ok, Prod.exists] at h
  obtain ⟨t, details, ht, u, hu, rfl⟩ := h
  obtain ⟨hlock, hdetails⟩ := lockAssets_effect hs (by simp) ht
  have hsend := sendMessage_effect (d := d) hu
  have hrecord : Effect d 0 t u := by
    refine Effect.trans_zero ?_ hsend
    refine .of_transactions rfl fun sn x hx => ?_
    simp only [Function.update_apply] at hx
    split at hx
    · cases hx
      exact .inr hdetails
    · exact .inl hx
  refine Effect.mono (hlock.trans (hrecord.trans_zero ?_)) fun c _ => by simp
  exact .of_books rfl

theorem transferNativeCoin_effect (hs : Sound d s)
    (h : transferNativeCoin d s sender value target = .ok s') : Effect d 0 s s' := by
  simp only [transferNativeCoin, bind_ok] at h
  obtain ⟨t, ht, _, -, target, -, _, -, _, -, h⟩ := h
  have hattach := attach_effect ht
  refine (hattach.trans (sendRequest_effect (hattach.sound hs) h)).mono fun c hc => ?_
  simp [on, (hs.wrapped hc).1]

theorem transfer_effect (hs : Sound d s)
    (h : transfer d r s sender coinName value target = .ok s') :
    Effect d (on coinName (-value)) s s' := by
  simp only [transfer, bind_ok] at h
  obtain ⟨_, -, _, -, _, -, _, -, target, -, _, -, t, ht, h⟩ := h
  have hin := transferFrom_in_effect hs ht
  refine (hin.trans (sendRequest_effect (hin.sound hs) h)).mono fun c _ => ?_
  simp only [amountOf_cons, amountOf_nil, Pi.add_apply, Pi.zero_apply, on]
  split <;> omega

theorem transferBatch_effect (hs : Sound d s)
    (h : transferBatch d r s sender coinNames values value target = .ok s') :
    Effect d (fun c => -amountOf (coinNames.zip values) c) s s' := by
  simp only [transferBatch, bind_ok] at h
  obtain ⟨t, ht, _, -, _, -, _, -, _, -, target, -, _, -, _, -, _, -, u, hu, h⟩ := h
  have hattach := attach_effect ht
  have hin := Effect.foldlM (fun _ _ _ _ hs => transferFrom_in_effect hs) (hattach.sound hs) hu
  have hpaid := hattach.trans_zero hin
  refine (hpaid.trans (sendRequest_effect (hpaid.sound hs) h)).mono fun c hc => ?_
  have hne := (hs.wrapped hc).1
  split <;> simp [on, hne]

theorem reclaim_effect (hs : Sound d s) (h : reclaim d r s sender c value = .ok s') :
    Effect d 0 s s' := by
  simp only [reclaim, bind_ok, require_ok] at h
  obtain ⟨_, -, _, -, _, -, _, hreg, h⟩ := h
  have hset := setBalance_effect (u := sender)
    (b := if (s.balances c sender).refundable < value then
        { s.balances c sender with
          usable := (s.balances c sender).usable - (value - (s.balances c sender).refundable)
          refundable := 0 }
      else { s.balances c sender with refundable := (s.balances c sender).refundable - value })
    (hs.registered hreg)
  have hvalue : Effect d (on c value) s _ := hset.mono fun x _ => by
    simp only [on]
    split
    · split <;> simp only [Balance.sum] <;> omega
    · exact le_rfl
  split at h
  · next hname =>
    refine (hvalue.trans (payICX_effect h)).mono fun x hx => ?_
    simp [on, ← hname, (hs.wrapped hx).1]
  · refine (hvalue.trans (transferOut_effect (hvalue.sound hs) h)).mono fun x _ => ?_
    simp only [on, Pi.add_apply, Pi.zero_apply]
    split <;> omega

theorem refundAsset_effect (hs : Sound d s) (ha : 0 ≤ a.amount)
    (h : refundAsset d r owner s a = .ok s') : Effect d 0 s s' := by
  simp only [refundAsset, bind_ok, pure_ok, require_ok] at h
  obtain ⟨_, hreg, rfl⟩ := h
  exact refund_effect hs (hs.registered hreg) (by omega)

theorem settleAssets_effect {t : TransferTransaction} (hs : Sound d s)
    (hpos : ∀ a ∈ t.assets, 0 ≤ a.amount) (h : settleAssets d r s t code = .ok s') : Effect d 0 s s' := by
  unfold settleAssets at h
  split at h
  · simp only [bind_ok] at h
    obtain ⟨u, hu, h⟩ := h
    have hsettle := Effect.foldlM_sum (f := settle d t.sender)
      (fun _ _ _ _ hs => settle_effect hs.toRegistry) hs hu
    have hburn := Effect.foldlM_sum (f := burn d) (fun _ _ _ _ hs => burn_effect hs)
      (hsettle.sound hs) h
    have htokens : (t.assets.filter fun a => d.name ≠ a.coinName).map (fun a => (a.coinName, a.amount)) =
        (t.assets.map fun a => (a.coinName, a.amount)).filter fun a => a.1 ≠ d.name := by
      simp [filter_map, Function.comp_def, eq_comm]
    refine (hsettle.trans hburn).mono fun c hc => ?_
    rw [Pi.add_apply, sum_on_neg, htokens, amountOf_filter (hs.wrapped hc).1]
    simp [amountOf, Function.comp_def]
  · exact Effect.foldlM (fun _ a _ ha hs => refundAsset_effect hs (hpos a ha)) hs h

theorem handleResponse_effect (hs : Sound d s) (h : handleResponse d r s sn response = .ok s') :
    Effect d 0 s s' := by
  unfold handleResponse at h
  split at h
  · cases h; exact .refl
  · next t ht =>
    simp only [bind_ok, pure_ok] at h
    obtain ⟨_, -, u, hu, rfl⟩ := h
    refine (settleAssets_effect hs (hs.positive sn t ht) hu).trans_zero ?_
    refine .of_transactions rfl fun n x hx => .inl ?_
    simp only [Function.update_apply] at hx
    split at hx
    · contradiction
    · exact hx

theorem payNative_effect (h : payNative d r s target amount = .ok s') : Effect d 0 s s' := by
  cases amount with
  | none => cases h; exact .refl
  | some v => exact payICX_effect (mapError_ok.1 h)

theorem handleRequest_effect (hs : Sound d s) (h : handleRequest d r s request sender sn = .ok s') :
    Effect d 0 s s' := by
  unfold handleRequest at h
  split at h
  · contradiction
  · simp only [bind_ok, pure_ok] at h
    obtain ⟨_, -, p, -, t, ht, u, hu, v, hv, rfl⟩ := h
    have hnative := payNative_effect ht
    have hmint := Effect.foldlM (fun _ _ _ _ hs => mint_effect hs) (hnative.sound hs) hu
    refine ((hnative.trans_zero hmint).trans_zero (sendMessage_effect hv)).trans_zero ?_
    exact .of_books rfl

theorem amountOf_fees {names : List String} {fee : String → ℤ} (hnodup : names.Nodup) :
    amountOf (names.filterMap fun n => if 0 < fee n then some (n, fee n) else none) c =
      if c ∈ names ∧ 0 < fee c then fee c else 0 := by
  induction names with
  | nil => simp
  | cons n names ih =>
    obtain ⟨hn, hrest⟩ := nodup_cons.1 hnodup
    rw [filterMap_cons]
    rcases eq_or_ne c n with rfl | hne
    · by_cases hpos : 0 < fee c <;> simp [hpos, ih hrest, hn, on]
    · by_cases hpos : 0 < fee n <;> simp [hpos, ih hrest, hne, on]

theorem clearFees_effect (hs : Registry d s) (h : clearFees d s = (s', fees)) :
    Effect d (amountOf fees) s s' := by
  simp only [clearFees, Prod.mk.injEq] at h
  obtain ⟨rfl, rfl⟩ := h
  refine ⟨rfl, rfl, rfl, rfl, rfl, fun c _ => ?_, fun c hc hn => ?_, id, fun _ _ _ _ => rfl⟩
  · rw [amountOf_fees hs.nodup]
    simp only [cover, held, owed]
    split <;> omega
  · have hnames : c ∉ s.coinNames := by simp [hs.names, hc]
    simp [owed, hn, hnames]

theorem payFees_effect (hs : Sound d s) (h : payFees d r s fa fees = .ok s') :
    Effect d (fun c => -amountOf fees c) s s' := by
  simp only [payFees, bind_ok] at h
  obtain ⟨t, ht, h⟩ := h
  have hnative : Effect d 0 s t := by
    cases hfind : fees.find? fun a => a.1 = d.name with
    | none => rw [hfind] at ht; cases ht; exact .refl
    | some a => rw [hfind] at ht; exact payICX_effect ht
  have htokens := Effect.foldlM_sum (f := transferOut d r fa) (fun _ _ _ _ hs => transferOut_effect hs)
    (hnative.sound hs) h
  refine (hnative.trans htokens).mono fun c hc => ?_
  rw [Pi.add_apply, sum_on_neg, amountOf_filter (hs.wrapped hc).1, Pi.zero_apply, zero_add]

theorem handleFeeGathering_effect (hs : Sound d s) (h : handleFeeGathering d r s caller fa = .ok s') :
    Effect d 0 s s' := by
  simp only [handleFeeGathering, bind_ok] at h
  obtain ⟨_, -, target, -, h⟩ := h
  obtain ⟨t, fees, hclear⟩ : ∃ t fees, clearFees d s = (t, fees) := ⟨_, _, rfl⟩
  have heff := clearFees_effect hs.toRegistry hclear
  have hpaid : ∀ u, Effect d (fun c => -amountOf fees c) t u → Effect d 0 s u := fun u hu =>
    (heff.trans hu).mono fun c _ => by simp
  rw [hclear] at h
  dsimp only at h
  split at h
  · next hnone =>
    cases h
    exact heff.mono fun c _ => by simp [hnone]
  · split at h
    · split at h
      · contradiction
      · exact hpaid _ (payFees_effect (heff.sound hs) h)
    · exact hpaid _ (sendRequest_effect (heff.sound hs) h)

theorem Lists.effect (h : Lists s s') : Effect d 0 s s' := by
  obtain ⟨_, rfl⟩ := h
  exact .of_books rfl

theorem sendBlacklist_effect (hlists : Lists s t)
    (h : sendBlacklist d t ty net address = .ok s') : Effect d 0 s s' := by
  obtain ⟨_, rfl⟩ := hlists
  obtain ⟨-, rfl⟩ | rfl := sendBlacklist_eq h
  · exact .of_books rfl
  · exact .of_books rfl

theorem Receives.effect (hs : Sound d s) (h : Receives d r s src sn s' m) : Effect d 0 s s' := by
  cases h with
  | request request h => exact handleRequest_effect hs h
  | response response h => exact handleResponse_effect hs h
  | blacklist response h =>
    subst h
    obtain hlists | ⟨_, _, -, heq⟩ := handleBlacklist_eq d s sn response
    · exact hlists.effect
    · exact heq ▸ .of_books rfl
  | limit response h =>
    cases handleChangeTokenLimit_acks h with
    | closed _ h => exact h ▸ .refl
    | opened _ _ _ _ _ _ h => exact h ▸ .of_books rfl
  | unknown _ h => exact h ▸ .of_books rfl
  | disowned _ _ _ _ h => exact h ▸ .of_books rfl

theorem Fails.effect (hs : Sound d s) (h : Fails d r s src sn s') : Effect d 0 s s' := by
  cases h with
  | request _ _ _ h => exact handleResponse_effect hs h
  | limit t _ _ h =>
    obtain ⟨_, hfold, -⟩ := setTokenLimitStatus_eq s src false t.coinName
    exact h ▸ hfold ▸ .of_books rfl
  | blacklist _ _ _ h => exact h ▸ undoBlacklist_lists.effect
  | nothing _ h => exact h ▸ .refl

def Tx.demand : Tx → String → ℤ
  | .transfer _ _ coinName value _ => on coinName value
  | .transferBatch _ _ coinNames values _ _ => amountOf (coinNames.zip values)
  | _ => 0

def Tx.Registers : Tx → Prop
  | .register .. | .setFeeRatio .. => True
  | _ => False

theorem step_effect (hs : Sound d s) (hr : ¬tx.Registers) (h : step d s tx = .ok s') :
    Effect d (-tx.demand) s s' := by
  have hzero : ∀ {tx : Tx}, tx.demand = 0 → Effect d 0 s s' → Effect d (-tx.demand) s s' :=
    fun hd heff => heff.mono fun c _ => by simp [hd]
  cases tx with
  | transferNativeCoin => exact hzero rfl (transferNativeCoin_effect hs h)
  | transfer =>
    refine (transfer_effect hs h).mono fun c _ => ?_
    simp only [Tx.demand, Pi.neg_apply, on]
    split <;> omega
  | transferBatch => exact transferBatch_effect hs h
  | reclaim => exact hzero rfl (reclaim_effect hs h)
  | handleBTPMessage =>
    obtain ⟨m, rfl⟩ := handleBTPMessage_some h
    exact hzero rfl ((handleBTPMessage_receives h).effect hs)
  | handleBTPError => exact hzero rfl ((handleBTPError_fails h).effect hs)
  | handleFeeGathering => exact hzero rfl (handleFeeGathering_effect hs h)
  | register | setFeeRatio => exact absurd trivial hr
  | setTokenLimit =>
    obtain ⟨_, hsets⟩ := setTokenLimit_sets h
    obtain ⟨_, _, rfl⟩ := hsets.writes
    exact hzero rfl (.of_books rfl)
  | addBlacklistAddress =>
    simp only [step, addBlacklistAddress, bind_ok] at h
    obtain ⟨_, -, _, -, _, -, h⟩ := h
    exact hzero rfl (sendBlacklist_effect (editUsers_lists .addToBlacklist) h)
  | removeBlacklistAddress =>
    simp only [step, removeBlacklistAddress, bind_ok] at h
    obtain ⟨_, -, _, -, _, -, h⟩ := h
    exact hzero rfl (sendBlacklist_effect (editUsers_lists .removeFromBlacklist) h)
  | setRestriction =>
    simp only [step, bind_ok, pure_ok] at h
    obtain ⟨_, -, rfl⟩ := h
    exact hzero rfl (.of_books rfl)
  | tokenTransfer =>
    simp only [step, bind_ok, require_ok, decide_eq_true_eq] at h
    obtain ⟨_, hne, h⟩ := h
    exact (tokenTransfer_effect hs.toRegistry h).mono fun c _ => by simp [onToken, hne, Tx.demand]
  | tokenTransferFrom =>
    simp only [step, bind_ok, require_ok, decide_eq_true_eq] at h
    obtain ⟨_, hne, h⟩ := h
    exact (tokenTransferFrom_effect hs h).mono fun c _ => by simp [onToken, hne, Tx.demand]
  | tokenApprove =>
    simp only [step, bind_ok, pure_ok, require_ok, decide_eq_true_eq] at h
    obtain ⟨_, hne, rfl⟩ := h
    exact hzero rfl (tokenApprove_effect fun howner => absurd howner hne)
  | tokenFallback =>
    simp only [step, bind_ok, require_ok, decide_eq_true_eq] at h
    obtain ⟨_, hcaller, h⟩ := h
    -- a caller that the service has not deployed is not a wrapped coin
    refine (tokenFallback_effect hs.toRegistry h).2.mono fun c hc => ?_
    obtain ⟨-, a, ha, hcode⟩ := hs.wrapped hc
    rw [onToken, if_neg]
    · simp [Tx.demand]
    · intro heq
      obtain rfl := Option.some.inj (ha.symm.trans heq)
      exact hcaller hcode
  | network =>
    cases h
    exact hzero rfl (.of_books rfl)

/-- The invariant: of a name without a coin nothing is owed, of a wrapped coin
no more than is held. -/
structure Solvent (d : Deployment) (s : St) : Prop extends Sound d s where
  unknown : ∀ c, s.coinAddresses c = none → c ≠ d.name → owed s c = 0
  covered : ∀ c, Wrapped s c → owed s c ≤ held d s c

theorem Registry.fresh (hs : Registry d s) (h : (!isRegistered d s c) = true) :
    c ≠ d.name ∧ c ∉ s.coinNames ∧ s.coinAddresses c = none := by
  simp only [isRegistered, Bool.not_eq_true', Bool.or_eq_false_iff, decide_eq_false_iff_not] at h
  obtain ⟨hnames, hnative⟩ := h
  have hnone := mt (hs.names c).2 hnames
  exact ⟨Ne.symm hnative, hnames, by simpa using hnone⟩

theorem addCoin_registry (hs : Registry d s) (hname : (!isRegistered d s name) = true)
    (haddr : s.coinAddressName coin.address = none)
    (hcode : coin.coinType = .nativeWrapped → s.code coin.address = some .tradeable) :
    Registry d (addCoin s name coin) := by
  obtain ⟨hnative, hnames, hnone⟩ := hs.fresh hname
  constructor
  · rw [addCoin, ← cons_append]
    refine hs.nodup.append (nodup_singleton name) ?_
    simpa [hnative] using hnames
  · intro c
    rcases eq_or_ne c name with rfl | hne
    · simp [addCoin]
    · simp [addCoin, hne, hs.names]
  · intro c a
    have hold := hs.name c a
    simp only [addCoin, Function.update_apply]
    split <;> split
    · next hc ha => simp [hc, ha]
    · next hc ha => rw [← hold, hc, hnone]; simp [Ne.symm ha]
    · next hc ha => rw [hold, ha, haddr]; simp [Ne.symm hc]
    · exact hold
  · intro c k hk hc
    simp only [addCoin, Function.update_apply] at hk ⊢
    split at hk
    · next heq => cases hk; simp [heq]
    · next hne => rw [if_neg hne]; exact hs.address c k hk hc
  · intro k hk
    simp only [addCoin, Function.update_of_ne hnative.symm] at hk
    exact hs.native k hk
  · intro c k hk hty
    simp only [addCoin, Function.update_apply] at hk
    split at hk
    · cases hk; exact hcode hty
    · exact hs.code c k hk hty

theorem addCoin_sound (hs : Sound d s) (hname : (!isRegistered d s name) = true)
    (haddr : s.coinAddressName coin.address = none)
    (hcode : coin.coinType = .nativeWrapped → s.code coin.address = some .tradeable) :
    Sound d (addCoin s name coin) :=
  ⟨addCoin_registry hs.toRegistry hname haddr hcode, hs.positive, hs.allowance⟩

theorem deployIRC2_sound (hs : Sound d s)
    (h : deployIRC2 s deployed name symbol decimals = .ok s') :
    Sound d s' ∧ s' = { setIRC2 s deployed {} with code := s'.code } ∧
      s'.code deployed = some .tradeable := by
  simp only [deployIRC2, bind_ok, pure_ok] at h
  obtain ⟨_, -, _, -, _, -, _, -, rfl⟩ := h
  refine ⟨⟨⟨hs.nodup, hs.names, hs.name, hs.address, hs.native, fun c k hk hty => ?_⟩, hs.positive,
    fun a ha x hx => ?_⟩, rfl, by simp⟩
  · simp only [Function.update_apply]
    split
    · rfl
    · exact hs.code c k hk hty
  · simp only [setIRC2, Function.update_apply] at ha ⊢
    split at ha
    · next heq => simp [heq]
    · next hne => rw [if_neg hne]; exact hs.allowance a ha x hx

theorem addCoin_solvent (hs : Solvent d s) (hname : (!isRegistered d s name) = true)
    (haddr : s.coinAddressName coin.address = none)
    (hcode : coin.coinType = .nativeWrapped → s.code coin.address = some .tradeable ∧
      0 ≤ (s.irc2 coin.address).balances d.bts) : Solvent d (addCoin s name coin) := by
  obtain ⟨hnative, -, hnone⟩ := hs.fresh hname
  have howed : ∀ c, owed (addCoin s name coin) c = owed s c := fun _ => rfl
  refine ⟨addCoin_sound hs.toSound hname haddr fun hty => (hcode hty).1, fun c hc hn => ?_,
    fun c hc => ?_⟩
  · rw [howed]
    simp only [addCoin, Function.update_apply] at hc
    split at hc
    · contradiction
    · exact hs.unknown c hc hn
  · obtain ⟨k, hk, hty⟩ := hc
    rw [howed]
    simp only [addCoin, Function.update_apply] at hk
    split at hk
    · next heq =>
      cases hk
      subst heq
      simpa [held, addCoin, hs.unknown c hnone hnative] using (hcode hty).2
    · next hne => simpa [held, addCoin, hne] using hs.covered c ⟨k, hk, hty⟩

theorem deployIRC2_solvent (hs : Solvent d s) (hfresh : s.coinAddressName deployed = none)
    (h : deployIRC2 s deployed name symbol decimals = .ok s') : Solvent d s' := by
  obtain ⟨hsound, heq, -⟩ := deployIRC2_sound hs.toSound h
  rw [heq] at hsound ⊢
  refine ⟨hsound, hs.unknown, fun c hc => ?_⟩
  have hw : Wrapped s c := hc
  obtain ⟨-, a, ha, -⟩ := hs.wrapped hw
  have hne : a ≠ deployed := by
    rintro rfl
    simp [(hs.name c a).1 ha] at hfresh
  simpa [held, owed, setIRC2, ha, hne] using hs.covered c hw

/-- Addresses of new contracts are not those of registered coins. -/
def Tx.Fresh (s : St) : Tx → Prop
  | .register _ _ _ _ _ _ _ deployed => s.coinAddressName deployed = none
  | _ => True

theorem register_ok (h : register d s sender name symbol decimals feeNumerator fixedFee addr deployed =
      .ok s') :
    (!isRegistered d s name) = true ∧
    ((∃ t, deployIRC2 s deployed name symbol decimals = .ok t ∧
        s' = addCoin t name { address := deployed, feeNumerator, fixedFee, coinType := .nativeWrapped }) ∨
      ∃ a, s.coinAddressName a = none ∧
        s' = addCoin s name { address := a, feeNumerator, fixedFee, coinType := .nonNativeToken }) := by
  simp only [register, bind_ok, require_ok] at h
  obtain ⟨_, -, _, hname, _, -, h⟩ := h
  refine ⟨hname, ?_⟩
  split at h
  · simp only [bind_ok, pure_ok] at h
    obtain ⟨t, ht, rfl⟩ := h
    exact .inl ⟨t, ht, rfl⟩
  · simp only [bind_ok, pure_ok, require_ok, Option.isNone_iff_eq_none] at h
    obtain ⟨_, haddr, rfl⟩ := h
    exact .inr ⟨_, haddr, rfl⟩

theorem register_sound (hs : Sound d s) (hfresh : s.coinAddressName deployed = none)
    (h : register d s sender name symbol decimals feeNumerator fixedFee addr deployed = .ok s') :
    Sound d s' ∧ (Solvent d s → Solvent d s') := by
  obtain ⟨hname, ⟨t, ht, rfl⟩ | ⟨a, haddr, rfl⟩⟩ := register_ok h
  · obtain ⟨hst, heq, hcode⟩ := deployIRC2_sound hs ht
    have hsolvent := fun hs => deployIRC2_solvent (d := d) hs hfresh ht
    rw [heq] at hst hcode hsolvent ⊢
    refine ⟨addCoin_sound hst hname hfresh fun _ => hcode, fun hs => ?_⟩
    exact addCoin_solvent (hsolvent hs) hname hfresh fun _ => ⟨hcode, by simp [setIRC2]⟩
  · refine ⟨addCoin_sound hs hname haddr (by simp), fun hs => ?_⟩
    exact addCoin_solvent hs hname haddr (by simp)

theorem setFeeRatio_ok (h : setFeeRatio d s sender name feeNumerator fixedFee = .ok s') :
    s' = { s with coinDb := s'.coinDb } ∧ ∀ c k, s'.coinDb c = some k →
      ∃ k', s.coinDb c = some k' ∧ k'.address = k.address ∧ k'.coinType = k.coinType := by
  simp only [setFeeRatio, bind_ok] at h
  obtain ⟨_, -, _, -, _, -, h⟩ := h
  split at h
  · contradiction
  · next coin hcoin =>
    cases h
    refine ⟨rfl, fun c k hk => ?_⟩
    simp only [Function.update_apply] at hk
    split at hk
    · next heq => cases hk; exact ⟨coin, heq ▸ hcoin, rfl, rfl⟩
    · exact ⟨k, hk, rfl, rfl⟩

theorem setFeeRatio_sound (hs : Sound d s)
    (h : setFeeRatio d s sender name feeNumerator fixedFee = .ok s') :
    Sound d s' ∧ (Solvent d s → Solvent d s') := by
  obtain ⟨heq, hold⟩ := setFeeRatio_ok h
  rw [heq]
  have hsound : Sound d { s with coinDb := s'.coinDb } := by
    refine ⟨⟨hs.nodup, hs.names, hs.name, fun c k hk hn => ?_, fun k hk => ?_, fun c k hk hty => ?_⟩,
      hs.positive, hs.allowance⟩
    · obtain ⟨k', hk', ha, -⟩ := hold c k hk
      exact ha ▸ hs.address c k' hk' hn
    · obtain ⟨k', hk', -, hty⟩ := hold d.name k hk
      exact hty ▸ hs.native k' hk'
    · obtain ⟨k', hk', ha, hty'⟩ := hold c k hk
      exact ha ▸ hs.code c k' hk' (hty'.trans hty)
  refine ⟨hsound, fun hs => ⟨hsound, hs.unknown, ?_⟩⟩
  rintro c ⟨k, hk, hty⟩
  obtain ⟨k', hk', -, hty'⟩ := hold c k hk
  exact hs.covered c ⟨k', hk', hty'.trans hty⟩

theorem step_registers_sound (hs : Sound d s) (hfresh : tx.Fresh s) (hr : tx.Registers)
    (h : step d s tx = .ok s') : Sound d s' ∧ (Solvent d s → Solvent d s') := by
  cases tx with
  | register => exact register_sound hs hfresh h
  | setFeeRatio => exact setFeeRatio_sound hs h
  | _ => exact hr.elim

theorem step_sound (hs : Sound d s) (hfresh : tx.Fresh s) (h : step d s tx = .ok s') :
    Sound d s' := by
  by_cases hr : tx.Registers
  · exact (step_registers_sound hs hfresh hr h).1
  · exact (step_effect hs hr h).sound hs

/-- A transaction that takes from the cover of a wrapped coin finds enough of
it. -/
def Tx.Covered (d : Deployment) (s : St) (tx : Tx) : Prop :=
  ∀ c, Wrapped s c → 0 < tx.demand c → tx.demand c ≤ cover d s c

theorem step_solvent (hs : Solvent d s) (hfresh : tx.Fresh s) (hcovered : tx.Covered d s)
    (h : step d s tx = .ok s') : Solvent d s' := by
  by_cases hr : tx.Registers
  · exact (step_registers_sound hs.toSound hfresh hr h).2 hs
  · have heff := step_effect hs.toSound hr h
    refine ⟨heff.sound hs.toSound, fun c hc hn => ?_, fun c hc => ?_⟩
    · rw [heff.coinAddresses] at hc
      exact (heff.owed c hc hn).trans (hs.unknown c hc hn)
    · have hw := heff.wrapped.1 hc
      have hold := hs.covered c hw
      have hdemand := hcovered c hw
      have hnew := heff.cover c hw
      simp only [cover, Pi.neg_apply] at hdemand hnew
      omega

theorem initialState_solvent (hcode : ∀ a, code a ≠ some .tradeable) :
    Solvent d (initialState d feeNumerator fixedFee icx code irc2) := by
  have hnative : ∀ c k, (initialState d feeNumerator fixedFee icx code irc2).coinDb c = some k →
      c = d.name ∧ k.coinType = .native := by
    intro c k hk
    simp only [initialState, Function.update_apply] at hk
    split at hk
    · next heq => cases hk; exact ⟨heq, rfl⟩
    · contradiction
  refine ⟨⟨⟨by simp [initialState], by simp [initialState], by simp [initialState],
    fun c k hk hn => absurd (hnative c k hk).1 hn, fun k hk => (hnative d.name k hk).2, ?_⟩,
    nofun, fun a ha => absurd ha (hcode a)⟩, fun c _ _ => ?_, ?_⟩
  · intro c k hk hty
    simp [(hnative c k hk).2] at hty
  · simp [owed, initialState, Balance.sum, total_zero]
  · rintro c ⟨k, hk, hty⟩
    simp [(hnative c k hk).2] at hty

/-- In every run in which transfers of wrapped coins are covered, every wrapped
coin is. -/
theorem solvent_of_covered (d : Deployment) (feeNumerator fixedFee : ℤ) (icx : Address → ℤ)
    (code : Address → Option Code) (irc2 : Address → IRC2) (txs : List Tx)
    (hcode : ∀ a, code a ≠ some .tradeable)
    (hcovered : Along (step d) (fun s tx => tx.Fresh s ∧ tx.Covered d s)
      (initialState d feeNumerator fixedFee icx code irc2) txs) :
    let s := run (step d) (initialState d feeNumerator fixedFee icx code irc2) txs
    ∀ c, Wrapped s c → owed s c ≤ held d s c := by
  have hrun := run_along (fun _ _ _ hs hc => step_solvent hs hc.1 hc.2)
    (initialState_solvent hcode) hcovered
  exact hrun.covered

def holder : Address := ⟨false, 3⟩

def sample : Deployment where
  bts := ⟨true, 1⟩
  isContract := rfl
  bmc := ⟨true, 2⟩
  net := "0x1.icon"
  name := "ICX"
  isOwner a := a = ⟨false, 4⟩
  valueOf _ := .ok { protocol := "btp", net := "0x38.bsc", contract := "0x05" }
  fromString str := if str = "cx1" then some ⟨true, 1⟩ else some holder
  lowercase str := str

def sampleState : St := initialState sample 0 0 (fun _ => 0) (fun _ => none) fun _ => {}

def noReceivers : Receivers where
  token _ _ _ := false
  icx _ _ := false

def incoming (target : String) (amount : ℤ) : Tx :=
  .handleBTPMessage noReceivers sample.bmc "0x38.bsc" "bts" 1 (some
    { serviceType := .requestCoinTransfer
      data := .transferRequest
        { sender := "0x05", target, assets := [{ coinName := "BNB", amount }] } })

def registerBNB : Tx := .register ⟨false, 4⟩ "BNB" "BNB" 18 0 0 none ⟨true, 9⟩

def receiveAndReturn : List Tx :=
  [.network [] fun _ => true, registerBNB, incoming "hx3" 10,
   .tokenApprove ⟨true, 9⟩ holder sample.bts 10,
   .transfer noReceivers holder "BNB" 10 "btp://0x38.bsc/0x05"]

/-- The tokens that are held once are usable and locked. -/
theorem receiveAndReturn_insolvent :
    let s := run (step sample) sampleState receiveAndReturn
    Wrapped s "BNB" ∧ held sample s "BNB" = 10 ∧ owed s "BNB" = 20 := by
  intro s
  have hbalances : s.balances "BNB" = Function.update
      (Function.update (fun _ => ({} : Balance)) holder { usable := 10 }) holder
      { usable := 10, locked := 10 } := rfl
  refine ⟨⟨⟨⟨true, 9⟩, 0, 0, .nativeWrapped⟩, by decide +kernel, rfl⟩, by decide +kernel, ?_⟩
  have hsums : (fun u => (s.balances "BNB" u).sum) = Function.update (fun _ => (0 : ℤ)) holder 20 := by
    funext u
    rw [hbalances, Function.update_idem, Function.update_apply, Function.update_apply]
    split <;> rfl
  have htotal := total_update (fun _ => (0 : ℤ)) holder 20
  have hfee : s.feeBalances "BNB" = 0 := by decide +kernel
  rw [owed, hsums, hfee]
  simpa [total_zero] using htotal

/-- The service is sent tokens of its own first, which cover the transfer. -/
def coveredReturn : List Tx :=
  [.network [] fun _ => true, registerBNB, incoming "cx1" 10, incoming "hx3" 10,
   .tokenApprove ⟨true, 9⟩ holder sample.bts 10,
   .transfer noReceivers holder "BNB" 10 "btp://0x38.bsc/0x05"]

theorem coveredReturn_solvent :
    let s := run (step sample) sampleState coveredReturn
    Wrapped s "BNB" ∧ held sample s "BNB" = 20 ∧ owed s "BNB" ≤ 20 := by
  have hfree : ∀ {s : St} {tx : Tx}, tx.demand = 0 → tx.Covered sample s := by
    intro s tx hzero c _ hpos
    simp [hzero] at hpos
  have hcover : ∀ s : St, held sample s "BNB" = 10 → s.balances "BNB" = (fun _ => {}) →
      s.feeBalances "BNB" = 0 →
      (Tx.transfer noReceivers holder "BNB" 10 "btp://0x38.bsc/0x05").Covered sample s := by
    intro s hheld hbalances hfee c _ hpos
    have hc : c = "BNB" := by
      by_contra hne
      simp [Tx.demand, on, hne] at hpos
    subst hc
    simp [cover, hheld, owed, hbalances, hfee, Balance.sum, total_zero, Tx.demand, on]
  have hwrapped : Wrapped (run (step sample) sampleState coveredReturn) "BNB" :=
    ⟨⟨⟨true, 9⟩, 0, 0, .nativeWrapped⟩, by decide +kernel, rfl⟩
  have hheld : held sample (run (step sample) sampleState coveredReturn) "BNB" = 20 := by
    decide +kernel
  refine ⟨hwrapped, hheld, ?_⟩
  rw [← hheld]
  refine solvent_of_covered sample 0 0 (fun _ => 0) (fun _ => none) (fun _ => {}) coveredReturn
    (by simp) ⟨⟨trivial, hfree rfl⟩, ⟨rfl, hfree rfl⟩, ⟨trivial, hfree rfl⟩, ⟨trivial, hfree rfl⟩,
      ⟨trivial, hfree rfl⟩, ⟨trivial, hcover _ ?_ rfl ?_⟩, trivial⟩ "BNB" hwrapped
  · decide +kernel
  · decide +kernel

end IconBridge.Java.BTS
