import IconBridge.Java.BTS.Messages

/-!
# What a call writes

Moving coins writes accounts and nothing else, and a request what is filed and
sent besides. Changes of lists and limits write neither accounts nor requests.
Of each function it is said once what it writes.
-/

namespace IconBridge.Java.BTS

open Lib Function List

variable {d : Deployment} {r : Receivers} {s s' t : St}

def Moves (s s' : St) : Prop := ∃ icx irc2 balances, s' = { s with icx, irc2, balances }

theorem Moves.refl : Moves s s := ⟨_, _, _, rfl⟩

theorem Moves.trans (h : Moves s t) (h' : Moves t s') : Moves s s' := by
  obtain ⟨_, _, _, rfl⟩ := h
  exact h'

theorem Moves.foldlM {f : St → α → Outcome St} {xs : List α}
    (hf : ∀ s x s', f s x = .ok s' → Moves s s') (h : xs.foldlM f s = .ok s') : Moves s s' :=
  foldlM_ok (P := Moves s) (fun _ _ _ _ ht hx => ht.trans (hf _ _ _ hx)) .refl h

theorem tokenFallback_moves (h : tokenFallback d s token sender v = .ok s') : Moves s s' := by
  simp only [tokenFallback, bind_ok] at h
  obtain ⟨_, -, _, -, h⟩ := h
  split at h
  · contradiction
  · simp only [bind_ok, pure_ok] at h
    obtain ⟨_, -, _, -, rfl⟩ := h
    exact ⟨_, _, _, rfl⟩

theorem fallback_moves (h : fallback d r s token sender target v = .ok s') : Moves s s' := by
  unfold fallback at h
  split at h
  · split at h
    · exact tokenFallback_moves h
    · simp only [bind_ok, pure_ok] at h
      obtain ⟨_, -, rfl⟩ := h
      exact .refl
  · cases h
    exact .refl

theorem setIRC2_moves : Moves s (setIRC2 s token k) := ⟨_, _, _, rfl⟩

theorem tokenTransfer_moves (h : tokenTransfer d r s token sender target v = .ok s') :
    Moves s s' := by
  simp only [tokenTransfer, bind_ok] at h
  obtain ⟨_, -, k, -, h⟩ := h
  exact setIRC2_moves.trans (fallback_moves h)

theorem tokenTransferFrom_moves
    (h : tokenTransferFrom d r s token caller sender target v = .ok s') : Moves s s' := by
  simp only [tokenTransferFrom, bind_ok] at h
  obtain ⟨_, -, k, -, h⟩ := h
  exact setIRC2_moves.trans (fallback_moves h)

theorem transferFrom_moves (h : transferFrom d r s sender target c v = .ok s') : Moves s s' := by
  simp only [transferFrom, bind_ok] at h
  obtain ⟨coin, -, h⟩ := h
  split at h
  · simp only [bind_ok, mapError_ok] at h
    obtain ⟨token, -, h⟩ := h
    exact tokenTransferFrom_moves h
  · cases h
    exact .refl

/-- Coins leave the service by their contract; ICX does not leave this way. -/
inductive Leaves (d : Deployment) (r : Receivers) (s : St) (target : Address) (c : String) (v : ℤ) :
    St → Option Exc → Prop
  | native (k : Coin) (hk : s.coinDb c = some k) (hty : k.coinType = .native) :
    Leaves d r s target c v s none
  | wrapped (k : Coin) (token : Address) (s' : St) (hk : s.coinDb c = some k)
    (hty : k.coinType = .nativeWrapped) (htoken : s.coinAddresses c = some token)
    (h : tokenTransferFrom d r (tokenApprove s token d.bts d.bts v) token d.bts d.bts target v =
      .ok s') : Leaves d r s target c v s' none
  | approved (token : Address) (e : Exc) :
    Leaves d r s target c v (tokenApprove s token d.bts d.bts v) (some e)
  | foreign (token : Address) (s' : St) (htoken : s.coinAddresses c = some token)
    (h : tokenTransfer d r s token d.bts target v = .ok s') : Leaves d r s target c v s' none
  | failed (e : Exc) : Leaves d r s target c v s (some e)

theorem sendOut_leaves (h : sendOut d r s target c v = (s', e)) : Leaves d r s target c v s' e := by
  unfold sendOut at h
  split at h
  · next hty =>
    cases h
    obtain ⟨k, hk, hty⟩ := Option.map_eq_some_iff.1 hty
    exact .native k hk hty
  · next token hty htoken =>
    obtain ⟨k, hk, hty⟩ := Option.map_eq_some_iff.1 hty
    dsimp only at h
    split at h
    · next t ht =>
      cases h
      have hcoin : (tokenApprove s token d.bts d.bts v).coinDb c = some k := hk
      have haddr : (tokenApprove s token d.bts d.bts v).coinAddresses c = some token := htoken
      simp only [transferFrom, hcoin, haddr, hty, nonNull, ok_bind, if_true, mapError_ok] at ht
      exact .wrapped k token _ hk hty htoken ht
    · cases h
      exact .approved token _
  · next token _ htoken =>
    split at h
    · next t ht =>
      cases h
      exact .foreign token _ htoken ht
    · cases h
      exact .failed _
  · cases h
    exact .failed _
  · cases h
    exact .failed _

theorem sendOut_moves (h : sendOut d r s target c v = (s', e)) : Moves s s' := by
  cases sendOut_leaves h with
  | native | failed => exact .refl
  | wrapped _ _ _ _ _ _ hmove => exact setIRC2_moves.trans (tokenTransferFrom_moves hmove)
  | approved => exact setIRC2_moves
  | foreign _ _ _ hmove => exact tokenTransfer_moves hmove

theorem transferOut_moves (h : transferOut d r target s a = .ok s') : Moves s s' := by
  unfold transferOut at h
  split at h
  · next ht =>
    cases h
    exact sendOut_moves ht
  · contradiction

theorem payICX_moves (h : payICX d r s target v = .ok s') : Moves s s' := by
  simp only [payICX, bind_ok, pure_ok] at h
  obtain ⟨_, -, _, -, rfl⟩ := h
  exact ⟨_, _, _, rfl⟩

theorem attach_moves (h : attach d s sender v = .ok s') : Moves s s' := by
  simp only [attach, bind_ok, pure_ok] at h
  obtain ⟨_, -, rfl⟩ := h
  exact ⟨_, _, _, rfl⟩

theorem payNative_moves (h : payNative d r s target amount = .ok s') : Moves s s' := by
  cases amount with
  | none =>
    cases h
    exact .refl
  | some v =>
    rw [payNative, mapError_ok] at h
    exact payICX_moves h

theorem payBack_moves (h : payBack d r s c owner v = (s', e)) : Moves s s' := by
  unfold payBack at h
  split at h
  · split at h
    · next ht =>
      cases h
      exact payICX_moves ht
    · cases h
      exact .refl
  · exact sendOut_moves h

theorem mint_moves (h : mint d r target s a = .ok s') : Moves s s' := by
  simp only [mint, bind_ok] at h
  obtain ⟨coin, -, h⟩ := h
  split at h
  · simp only [bind_ok, pure_ok] at h
    obtain ⟨k, -, rfl⟩ := h
    exact setIRC2_moves
  · split at h
    · contradiction
    · rw [mapError_ok] at h
      exact tokenTransfer_moves h

theorem burn_moves (h : burn d s a = .ok s') : Moves s s' := by
  simp only [burn, bind_ok] at h
  obtain ⟨coin, -, h⟩ := h
  split at h
  · simp only [bind_ok, pure_ok] at h
    obtain ⟨k, -, rfl⟩ := h
    exact setIRC2_moves
  · cases h
    exact .refl

theorem lock_moves (h : lock s owner a = .ok s') : Moves s s' := by
  simp only [lock, bind_ok] at h
  obtain ⟨coin, -, h⟩ := h
  split at h
  · simp only [bind_ok, pure_ok] at h
    obtain ⟨_, -, rfl⟩ := h
    exact ⟨_, _, _, rfl⟩
  · cases h
    exact ⟨_, _, _, rfl⟩

theorem payFees_moves (h : payFees d r s fa fees = .ok s') : Moves s s' := by
  simp only [payFees, bind_ok] at h
  obtain ⟨t, ht, h⟩ := h
  have hnative : Moves s t := by
    cases hfind : fees.find? fun a => a.1 = d.name with
    | none =>
      rw [hfind] at ht
      cases ht
      exact .refl
    | some a =>
      rw [hfind] at ht
      exact payICX_moves ht
  exact hnative.trans (.foldlM (fun _ _ _ => transferOut_moves) h)

def AssetTransferDetail.whole (a : AssetTransferDetail) : String × ℤ :=
  (a.coinName, a.amount + a.fee)

theorem newAssetTransferDetail_whole (h : newAssetTransferDetail d s owner a = .ok detail) :
    detail.whole = a ∧ (s.coinDb detail.coinName).isSome := by
  unfold newAssetTransferDetail at h
  dsimp only at h
  split at h
  · contradiction
  · next coin hcoin =>
    split at h
    · contradiction
    · cases h
      simp [AssetTransferDetail.whole, hcoin]

theorem lockAssets_moves {coins : List (String × ℤ)}
    (h : coins.foldlM (lockAsset d owner) (s, ds) = .ok (s', ds')) :
    Moves s s' ∧ ∃ es, ds' = ds ++ es ∧ es.map AssetTransferDetail.whole = coins ∧
      ∀ a ∈ es, (s.coinDb a.coinName).isSome := by
  induction coins generalizing s ds with
  | nil =>
    cases h
    exact ⟨.refl, [], by simp⟩
  | cons a coins ih =>
    simp only [foldlM_cons, lockAsset, bind_ok, pure_ok] at h
    obtain ⟨_, ⟨detail, hdetail, t, ht, rfl⟩, h⟩ := h
    obtain ⟨hmoves, es, hes, hwhole, hcoins⟩ := ih h
    obtain ⟨hnew, hcoin⟩ := newAssetTransferDetail_whole hdetail
    have hlock := lock_moves ht
    refine ⟨hlock.trans hmoves, detail :: es, by simp [hes], by simp [hwhole, hnew], ?_⟩
    obtain ⟨_, _, _, rfl⟩ := hlock
    exact forall_mem_cons.2 ⟨hcoin, hcoins⟩

theorem sendMessage_eq (h : sendMessage s net ty sn data = .ok s') :
    s' = { s with sent := s.sent ++ [⟨net, sn, ⟨ty, data⟩⟩] } := by
  simp only [sendMessage, bind_ok, pure_ok] at h
  obtain ⟨_, -, _, -, rfl⟩ := h
  rfl

theorem sendRequest_eq (h : sendRequest d s owner target coins = .ok s') :
    ∃ t details, Moves s t ∧ details.map AssetTransferDetail.whole = coins ∧
      (∀ a ∈ details, (s.coinDb a.coinName).isSome) ∧
      s' = { t with
        sn := t.sn + 1
        transactions := update t.transactions (t.sn + 1)
          (some { sender := owner, target := target.toString, assets := details })
        sent := t.sent ++ [⟨target.net, t.sn + 1, ⟨.requestCoinTransfer, .transferRequest
          { sender := owner.toString, target := target.contract,
            assets := details.map AssetTransferDetail.toAsset }⟩⟩]
        events := t.events ++ [.transferStart owner target.toString (t.sn + 1) details] } := by
  simp only [sendRequest, bind_ok, pure_ok, Prod.exists] at h
  obtain ⟨t, details, ht, u, hu, rfl⟩ := h
  obtain ⟨hmoves, _, rfl, hwhole, hcoins⟩ := lockAssets_moves ht
  obtain rfl := sendMessage_eq hu
  exact ⟨t, _, hmoves, hwhole, hcoins, rfl⟩

theorem handleRequest_eq (h : handleRequest d r s request src sn = .ok s') :
    ∃ t target, Moves s t ∧ s' = { t with
      sent := t.sent ++ [⟨src, sn, ⟨.responseHandleService, .response ⟨rcOk, some "Transfer Success"⟩⟩⟩]
      events := t.events ++ [.transferReceived src target sn request.assets] } := by
  unfold handleRequest at h
  split at h
  · contradiction
  · next target _ =>
    simp only [bind_ok, pure_ok] at h
    obtain ⟨_, -, p, -, t, ht, u, hu, w, hw, rfl⟩ := h
    obtain rfl := sendMessage_eq hw
    exact ⟨u, target, (payNative_moves ht).trans (.foldlM (fun _ _ _ => mint_moves) hu), rfl⟩

/-- The fees are taken out, and paid out here or sent as a request of the service
itself. -/
inductive Gathers (d : Deployment) (s : St) (fa : String) (s' : St) : Prop
  | pays (target : BTPAddress) (htarget : d.valueOf fa = .ok target)
      (hhere : target.net = d.net ∨ (clearFees d s).2 = []) (h : Moves (clearFees d s).1 s')
  | sends (target : BTPAddress) (htarget : d.valueOf fa = .ok target) (hthere : target.net ≠ d.net)
      (h : sendRequest d (clearFees d s).1 d.bts target (clearFees d s).2 = .ok s')

theorem handleFeeGathering_gathers (h : handleFeeGathering d r s caller fa = .ok s') :
    Gathers d s fa s' := by
  simp only [handleFeeGathering, bind_ok] at h
  obtain ⟨_, -, target, htarget, h⟩ := h
  split at h
  · next hnone =>
    cases h
    exact .pays target htarget (.inr hnone) .refl
  · split at h
    · next hnet =>
      split at h
      · contradiction
      · exact .pays target htarget (.inl hnet) (payFees_moves h)
    · next hnet => exact .sends target htarget hnet h

def Lists (s s' : St) : Prop := ∃ blacklist, s' = { s with blacklist }

theorem Lists.refl : Lists s s := ⟨_, rfl⟩

theorem Lists.foldl {f : σ → α → σ} {g : σ → St} {x : σ} {xs : List α}
    (hf : ∀ x a, Lists (g x) (g (f x a))) : Lists (g x) (g (xs.foldl f x)) := by
  induction xs generalizing x with
  | nil => exact .refl
  | cons a xs ih =>
    obtain ⟨_, hfirst⟩ := hf x a
    obtain ⟨blacklist, hrest⟩ := ih (x := f x a)
    exact ⟨blacklist, hrest.trans (by rw [hfirst])⟩

/-- `addToBlacklist` or `removeFromBlacklist` -/
def edit (d : Deployment) : BlacklistService → String → St → String → St
  | .addToBlacklist => addToBlacklist d
  | .removeFromBlacklist => removeFromBlacklist d

theorem edit_lists (ty : BlacklistService) : Lists s (edit d ty net s user) := by
  cases ty
  all_goals
    simp only [edit, addToBlacklist, removeFromBlacklist]
    split <;> exact ⟨_, rfl⟩

theorem undoBlacklist_lists : Lists s (undoBlacklist d s b) := by
  unfold undoBlacklist
  split
  · exact .foldl (g := id) fun _ _ => edit_lists .removeFromBlacklist
  · exact .foldl (g := id) fun _ _ => edit_lists .addToBlacklist

/-- One round of `addBlacklistAddress` or `removeBlacklistAddress` -/
def editUser (d : Deployment) :
    BlacklistService → String → St × List String → String → St × List String
  | .addToBlacklist => blacklistUser d
  | .removeFromBlacklist => unlistUser d

theorem editUsers_lists (ty : BlacklistService) {addresses : List String} :
    Lists s (addresses.foldl (editUser d ty net) (s, before)).1 := by
  refine Lists.foldl (g := Prod.fst) fun x addr => ?_
  cases ty
  all_goals
    simp only [editUser, blacklistUser, unlistUser]
    split
  · exact edit_lists .addToBlacklist
  · exact .refl
  · exact edit_lists .removeFromBlacklist
  · exact .refl

theorem handleBlacklist_eq (d : Deployment) (s : St) (sn : ℤ) (response : TransferResponse) :
    Lists s (handleBlacklist d s sn response) ∨
    ∃ sn' event, (event = .addedToBlacklist sn' response.message ∨
        event = .removedFromBlacklist sn' response.message) ∧
      handleBlacklist d s sn response = { s with
        blacklistTxn := update s.blacklistTxn sn none
        events := s.events ++ [event] } := by
  unfold handleBlacklist
  split
  · exact .inl .refl
  · next t _ =>
    split
    · refine .inr ⟨sn, _, ?_, rfl⟩
      cases t.serviceType <;> simp
    · exact .inl undoBlacklist_lists

theorem sendBlacklist_eq (h : sendBlacklist d s ty net address = .ok s') :
    (address = [] ∨ d.net = net) ∧ s' = s ∨
      s' = { s with
        sn := s.sn + 1
        blacklistTxn := update s.blacklistTxn (s.sn + 1) (some ⟨ty, address, net⟩)
        sent := s.sent ++ [⟨net, s.sn + 1, ⟨.blacklistMessage, .blacklist ⟨ty, address, net⟩⟩⟩] } := by
  unfold sendBlacklist at h
  split at h
  · next hnone =>
    cases h
    exact .inl ⟨hnone, rfl⟩
  · exact .inr (sendMessage_eq h)

theorem setTokenLimitStatus_eq (s : St) (net : String) (status : Bool) (coinNames : List String) :
    ∃ tokenLimitStatus,
      coinNames.foldl (setTokenLimitStatus net status) s = { s with tokenLimitStatus } ∧
      ∀ n c, tokenLimitStatus n c =
        if n = net ∧ c ∈ coinNames then status else s.tokenLimitStatus n c := by
  induction coinNames generalizing s with
  | nil => exact ⟨_, rfl, by simp⟩
  | cons coinName coinNames ih =>
    obtain ⟨tokenLimitStatus, hfold, hstatus⟩ := ih (setTokenLimitStatus net status s coinName)
    refine ⟨tokenLimitStatus, hfold, fun n c => ?_⟩
    rw [hstatus]
    by_cases hn : n = net
    · subst hn
      by_cases hc : c = coinName <;> simp [setTokenLimitStatus, hc]
    · simp [setTokenLimitStatus, hn]

theorem limitCoins_eq {entries : List (String × ℤ)} (h : entries.foldlM (limitCoin d) s = .ok s') :
    ∃ tokenLimit tokenLimitStatus, s' = { s with tokenLimit, tokenLimitStatus } ∧
      (∀ c, tokenLimit c = s.tokenLimit c ∨ ∃ v, 0 ≤ v ∧ tokenLimit c = some v) ∧
      ∀ n, ∀ c ∉ entries.map Prod.fst, tokenLimitStatus n c = s.tokenLimitStatus n c := by
  induction entries generalizing s with
  | nil =>
    cases h
    exact ⟨_, _, rfl, fun _ => .inl rfl, fun _ _ _ => rfl⟩
  | cons a entries ih =>
    simp only [foldlM_cons, limitCoin, bind_ok, require_ok, pure_ok, decide_eq_true_eq] at h
    obtain ⟨_, ⟨_, -, _, hpos, rfl⟩, h⟩ := h
    obtain ⟨tokenLimit, tokenLimitStatus, rfl, hlimit, hstatus⟩ := ih h
    refine ⟨tokenLimit, tokenLimitStatus, rfl, fun c => ?_, fun n c hc => ?_⟩
    · have hnew := hlimit c
      simp only [setTokenLimitStatus, update_apply] at hnew
      split at hnew
      · exact .inr (hnew.elim (fun heq => ⟨_, hpos, heq⟩) id)
      · exact hnew
    · rw [map_cons, mem_cons, not_or] at hc
      rw [hstatus n c hc.2]
      by_cases hn : n = d.net
      · simp [setTokenLimitStatus, hn, hc.1]
      · simp [setTokenLimitStatus, hn]

theorem announceLimits_eq {nets : List String}
    (h : nets.foldlM (announceLimit coinNames tokenLimits sn) s = .ok s') :
    ∃ tokenLimitStatus, s' = { s with
        tokenLimitStatus
        sent := s.sent ++ nets.map fun net =>
          ⟨net, sn, ⟨.changeTokenLimit, .tokenLimit ⟨coinNames, tokenLimits, net⟩⟩⟩ } ∧
      ∀ n c, tokenLimitStatus n c =
        if n ∈ nets ∧ c ∈ coinNames then false else s.tokenLimitStatus n c := by
  induction nets generalizing s with
  | nil =>
    cases h
    exact ⟨_, by rw [map_nil, append_nil], by simp⟩
  | cons net nets ih =>
    simp only [foldlM_cons, announceLimit, bind_ok] at h
    obtain ⟨t, ht, h⟩ := h
    obtain rfl := sendMessage_eq ht
    obtain ⟨first, hfold, hfirst⟩ := setTokenLimitStatus_eq s net false coinNames
    rw [hfold] at h
    obtain ⟨tokenLimitStatus, rfl, hstatus⟩ := ih h
    refine ⟨tokenLimitStatus, by simp, fun n c => ?_⟩
    rw [hstatus]
    dsimp only
    rw [hfirst]
    by_cases hn : n = net <;> by_cases hc : c ∈ coinNames <;> simp [hn, hc]

/-- What a call of `setTokenLimit` writes, with the networks of the links. -/
structure Sets (d : Deployment) (coinNames : List String) (tokenLimits : List ℤ)
    (nets : List String) (s s' : St) : Prop where
  coins : coinNames ≠ []
  links : linkNets d s = .ok nets
  writes : ∃ tokenLimit tokenLimitStatus, s' = { s with
    tokenLimit
    tokenLimitStatus
    sn := s.sn + 1
    sent := s.sent ++ nets.map fun net =>
      ⟨net, s.sn + 1, ⟨.changeTokenLimit, .tokenLimit ⟨coinNames, tokenLimits, net⟩⟩⟩
    tokenLimitTxn := update s.tokenLimitTxn (s.sn + 1)
      (some { coinName := coinNames, tokenLimit := tokenLimits, net := nets.map some }) }
  limits : ∀ c, s'.tokenLimit c = s.tokenLimit c ∨ ∃ v, 0 ≤ v ∧ s'.tokenLimit c = some v
  told : ∀ n ∈ nets, ∀ c ∈ coinNames, s'.tokenLimitStatus n c = false
  others : ∀ n, ∀ c ∉ coinNames, s'.tokenLimitStatus n c = s.tokenLimitStatus n c

theorem setTokenLimit_sets (h : setTokenLimit d s sender coinNames tokenLimits = .ok s') :
    ∃ nets, Sets d coinNames tokenLimits nets s s' := by
  simp only [setTokenLimit, bind_ok, require_ok, pure_ok, decide_eq_true_eq] at h
  obtain ⟨_, -, _, hlength, _, hpos, _, -, t, ht, nets, hnets, u, hu, rfl⟩ := h
  obtain ⟨tokenLimit, first, rfl, hlimit, hfirst⟩ := limitCoins_eq ht
  obtain ⟨tokenLimitStatus, rfl, hstatus⟩ := announceLimits_eq hu
  rw [map_fst_zip hlength.le] at hfirst
  refine ⟨nets, ne_nil_of_length_pos hpos, hnets, ⟨tokenLimit, tokenLimitStatus, rfl⟩, hlimit,
    fun n hn c hc => ?_, fun n c hc => ?_⟩
  · exact (hstatus n c).trans (if_pos ⟨hn, hc⟩)
  · exact ((hstatus n c).trans (if_neg fun hboth => hc hboth.2)).trans (hfirst n c hc)

/-- What the answer of a network to such a call writes. -/
inductive Acks (net : String) (sn : ℤ) (response : TransferResponse) (s s' : St) : Prop
  | closed (hrecord : s.tokenLimitTxn sn = none) (h : s' = s)
  | opened (t : TokenLimitTransaction) (nets : List (Option String))
      (tokenLimitStatus : String → String → Bool) (hrecord : s.tokenLimitTxn sn = some t)
      (hnets : removeFromArray t.net net = .ok nets)
      (hstatus : ∀ n c, tokenLimitStatus n c =
        if n = net ∧ c ∈ t.coinName then true else s.tokenLimitStatus n c)
      (h : s' = { s with
        tokenLimitStatus
        tokenLimitTxn := update s.tokenLimitTxn sn
          (if nets = [] then none else some { t with net := nets })
        events := s.events ++ [.tokenLimitSet sn response.message] })

theorem handleChangeTokenLimit_acks (h : handleChangeTokenLimit s net sn response = .ok s') :
    Acks net sn response s s' := by
  unfold handleChangeTokenLimit at h
  split at h
  · next hrecord =>
    cases h
    exact .closed hrecord rfl
  · next t hrecord =>
    simp only [bind_ok, pure_ok] at h
    obtain ⟨_, -, nets, hnets, rfl⟩ := h
    obtain ⟨status, hfold, hstatus⟩ := setTokenLimitStatus_eq s net true t.coinName
    exact .opened t nets status hrecord hnets hstatus (by rw [hfold])

inductive Receives (d : Deployment) (r : Receivers) (s : St) (src : String) (sn : ℤ) (s' : St) :
    BTSMessage → Prop
  | request (request : TransferRequest) (h : handleRequest d r s request src sn = .ok s') :
    Receives d r s src sn s' ⟨.requestCoinTransfer, .transferRequest request⟩
  | response (response : TransferResponse) (h : handleResponse d r s sn response = .ok s') :
    Receives d r s src sn s' ⟨.responseHandleService, .response response⟩
  | blacklist (response : TransferResponse) (h : s' = handleBlacklist d s sn response) :
    Receives d r s src sn s' ⟨.blacklistMessage, .response response⟩
  | limit (response : TransferResponse) (h : handleChangeTokenLimit s src sn response = .ok s') :
    Receives d r s src sn s' ⟨.changeTokenLimit, .response response⟩
  | unknown (data : Data) (h : s' = { s with events := s.events ++ [.unknownResponse src sn] }) :
    Receives d r s src sn s' ⟨.unknownType, data⟩
  | disowned (ty : ServiceType) (data : Data) (response : TransferResponse)
    (hty : ty ≠ .requestCoinTransfer ∧ ty ≠ .responseHandleService ∧ ty ≠ .blacklistMessage ∧
      ty ≠ .changeTokenLimit)
    (h : s' = { s with sent := s.sent ++ [⟨src, sn, ⟨.unknownType, .response response⟩⟩] }) :
    Receives d r s src sn s' ⟨ty, data⟩

theorem handleBTPMessage_some (h : handleBTPMessage d r s caller src svc sn msg = .ok s') :
    ∃ m, msg = some m := by
  cases msg with
  | none =>
    simp only [handleBTPMessage, bind_ok] at h
    obtain ⟨_, -, _, -, h⟩ := h
    contradiction
  | some m => exact ⟨m, rfl⟩

theorem handleBTPMessage_receives
    (h : handleBTPMessage d r s caller src svc sn (some m) = .ok s') : Receives d r s src sn s' m := by
  simp only [handleBTPMessage, bind_ok] at h
  obtain ⟨_, -, _, -, h⟩ := h
  obtain ⟨ty, data⟩ := m
  dsimp only at h
  split at h
  · exact .request _ h
  · exact .response _ h
  · exact .blacklist _ (Except.ok.inj h).symm
  · exact .limit _ h
  · exact .unknown _ (Except.ok.inj h).symm
  · exact .disowned _ _ _ (by simp) (sendMessage_eq h)
  · exact .disowned _ _ _ (by simp) (sendMessage_eq h)
  · contradiction

inductive Fails (d : Deployment) (r : Receivers) (s : St) (src : String) (sn : ℤ) (s' : St) : Prop
  | request (response : TransferResponse) (hcode : response.code = rcErr)
    (hpending : (s.transactions sn).isSome) (h : handleResponse d r s sn response = .ok s')
  | limit (t : TokenLimitTransaction) (hnone : s.transactions sn = none)
    (ht : s.tokenLimitTxn sn = some t) (h : s' = t.coinName.foldl (setTokenLimitStatus src false) s)
  | blacklist (b : BlacklistTransaction) (hnone : s.transactions sn = none)
    (hb : s.blacklistTxn sn = some b) (h : s' = undoBlacklist d s b)
  | nothing (hnone : s.transactions sn = none) (h : s' = s)

theorem handleBTPError_fails (h : handleBTPError d r s caller src sn code msg = .ok s') :
    Fails d r s src sn s' := by
  simp only [handleBTPError, bind_ok] at h
  obtain ⟨_, -, h⟩ := h
  split at h
  · next hpending => exact .request _ rfl hpending h
  · next hnone =>
    rw [Option.not_isSome_iff_eq_none] at hnone
    split at h
    · next t ht => exact .limit t hnone ht (pure_ok.1 h).symm
    · next b _ hb => exact .blacklist b hnone hb (pure_ok.1 h).symm
    · exact .nothing hnone (pure_ok.1 h).symm

theorem requireFee_ok (h : requireFee feeNumerator fixedFee = .ok u) :
    0 ≤ feeNumerator ∧ 0 ≤ fixedFee := by
  simp only [requireFee, bind_ok, require_ok, Bool.and_eq_true, decide_eq_true_eq] at h
  obtain ⟨_, ⟨hratio, -⟩, hfixed⟩ := h
  exact ⟨hratio, hfixed⟩

def Prices (s s' : St) : Prop :=
  ∃ irc2 code coinNames coinAddresses coinAddressName name, ∃ coin : Coin,
    0 ≤ coin.feeNumerator ∧ 0 ≤ coin.fixedFee ∧
    s' = { s with
      irc2, code, coinNames, coinAddresses, coinAddressName
      coinDb := update s.coinDb name (some coin) }

theorem register_prices
    (h : register d s sender name symbol decimals feeNumerator fixedFee addr deployed = .ok s') :
    Prices s s' := by
  simp only [register, bind_ok] at h
  obtain ⟨_, -, _, -, _, hfee, h⟩ := h
  obtain ⟨hratio, hfixed⟩ := requireFee_ok hfee
  split at h
  · simp only [deployIRC2, bind_ok, pure_ok] at h
    obtain ⟨_, ⟨_, -, _, -, _, -, _, -, rfl⟩, rfl⟩ := h
    exact ⟨_, _, _, _, _, name, _, hratio, hfixed, rfl⟩
  · simp only [bind_ok, pure_ok] at h
    obtain ⟨_, -, rfl⟩ := h
    exact ⟨_, _, _, _, _, name, _, hratio, hfixed, rfl⟩

theorem setFeeRatio_prices (h : setFeeRatio d s sender name feeNumerator fixedFee = .ok s') :
    Prices s s' := by
  simp only [setFeeRatio, bind_ok] at h
  obtain ⟨_, -, _, hfee, _, -, h⟩ := h
  obtain ⟨hratio, hfixed⟩ := requireFee_ok hfee
  split at h
  · contradiction
  · cases h
    exact ⟨_, _, _, _, _, name, _, hratio, hfixed, rfl⟩

def Tx.requester : Tx → Option Address
  | .transferNativeCoin sender .. | .transfer _ sender .. | .transferBatch _ sender .. => some sender
  | _ => none

def Tx.response : Tx → Option (ℤ × ℤ)
  | .handleBTPMessage _ _ _ _ sn (some ⟨.responseHandleService, .response r⟩) => some (sn, r.code)
  | .handleBTPError _ _ _ sn _ _ => some (sn, rcErr)
  | _ => none

def Tx.aggregator : Tx → Option String
  | .handleFeeGathering _ _ fa => some fa
  | _ => none

inductive Does (d : Deployment) (s : St) : Tx → St → Prop
  | moves (tx : Tx) (s' : St) (hresponse : tx.response = none) (hgather : tx.aggregator = none)
      (h : Moves s s') : Does d s tx s'
  | asks (tx : Tx) (s' t : St) (owner : Address) (target : BTPAddress) (coins : List (String × ℤ))
      (howner : tx.requester = some owner) (hsize : coins.length ≤ batchLimitSize)
      (hmoves : Moves s t) (h : sendRequest d t owner target coins = .ok s') : Does d s tx s'
  | receives (r : Receivers) (caller : Address) (src svc : String) (sn : ℤ) (m : BTSMessage)
      (s' : St) (h : Receives d r s src sn s' m) :
      Does d s (.handleBTPMessage r caller src svc sn (some m)) s'
  | fails (r : Receivers) (caller : Address) (src : String) (sn code : ℤ) (msg : String) (s' : St)
      (h : Fails d r s src sn s') : Does d s (.handleBTPError r caller src sn code msg) s'
  | gathers (r : Receivers) (caller : Address) (fa : String) (s' : St) (h : Gathers d s fa s') :
      Does d s (.handleFeeGathering r caller fa) s'
  | prices (tx : Tx) (s' : St) (hresponse : tx.response = none) (hgather : tx.aggregator = none)
      (h : Prices s s') : Does d s tx s'
  | limits (sender : Address) (coinNames : List String) (tokenLimits : List ℤ) (nets : List String)
      (s' : St) (h : Sets d coinNames tokenLimits nets s s') :
      Does d s (.setTokenLimit sender coinNames tokenLimits) s'
  | adds (sender : Address) (net : String) (addresses added : List String) (s' t : St)
      (hlists : Lists s t) (h : sendBlacklist d t .addToBlacklist net added = .ok s') :
      Does d s (.addBlacklistAddress sender net addresses) s'
  | removes (sender : Address) (net : String) (addresses removed : List String) (s' t : St)
      (hlists : Lists s t) (h : sendBlacklist d t .removeFromBlacklist net removed = .ok s') :
      Does d s (.removeBlacklistAddress sender net addresses) s'
  | configures (tx : Tx) (restriction : Bool) (links : List String) (reachable : String → Bool)
      (hresponse : tx.response = none) (hgather : tx.aggregator = none) :
      Does d s tx { s with restriction, links, reachable }

theorem step_does (h : step d s tx = .ok s') : Does d s tx s' := by
  cases tx with
  | transferNativeCoin =>
    simp only [step, transferNativeCoin, bind_ok] at h
    obtain ⟨t, ht, _, -, _, -, _, -, _, -, h⟩ := h
    exact .asks _ _ t _ _ _ rfl (by simp [batchLimitSize]) (attach_moves ht) h
  | transfer =>
    simp only [step, transfer, bind_ok] at h
    obtain ⟨_, -, _, -, _, -, _, -, _, -, _, -, t, ht, h⟩ := h
    exact .asks _ _ t _ _ _ rfl (by simp [batchLimitSize]) (transferFrom_moves ht) h
  | transferBatch =>
    simp only [step, transferBatch, bind_ok, require_ok, decide_eq_true_eq] at h
    obtain ⟨t, ht, _, -, _, hlen, _, -, _, hsize, btp, -, _, -, _, -, _, -, u, hu, h⟩ := h
    refine .asks _ _ u _ _ _ rfl ?_
      ((attach_moves ht).trans (.foldlM (fun _ _ _ => transferFrom_moves) hu)) h
    rw [length_append, length_zip, ← hlen, Nat.min_self, Nat.add_comm]
    exact hsize
  | reclaim r sender coinName value =>
    simp only [step, reclaim, bind_ok] at h
    obtain ⟨_, -, _, -, _, -, _, -, h⟩ := h
    have hset : ∀ b, Moves s (setBalance s coinName sender b) := fun b => ⟨_, _, _, rfl⟩
    refine .moves _ _ rfl rfl ?_
    split at h
    · exact (hset _).trans (payICX_moves h)
    · exact (hset _).trans (transferOut_moves h)
  | handleBTPMessage =>
    obtain ⟨m, rfl⟩ := handleBTPMessage_some h
    exact .receives _ _ _ _ _ m _ (handleBTPMessage_receives h)
  | handleBTPError => exact .fails _ _ _ _ _ _ _ (handleBTPError_fails h)
  | handleFeeGathering => exact .gathers _ _ _ _ (handleFeeGathering_gathers h)
  | register => exact .prices _ _ rfl rfl (register_prices h)
  | setFeeRatio => exact .prices _ _ rfl rfl (setFeeRatio_prices h)
  | setTokenLimit =>
    obtain ⟨nets, hsets⟩ := setTokenLimit_sets h
    exact .limits _ _ _ nets _ hsets
  | addBlacklistAddress =>
    simp only [step, addBlacklistAddress, bind_ok] at h
    obtain ⟨_, -, _, -, _, -, h⟩ := h
    exact .adds _ _ _ _ _ _ (editUsers_lists .addToBlacklist) h
  | removeBlacklistAddress =>
    simp only [step, removeBlacklistAddress, bind_ok] at h
    obtain ⟨_, -, _, -, _, -, h⟩ := h
    exact .removes _ _ _ _ _ _ (editUsers_lists .removeFromBlacklist) h
  | setRestriction =>
    simp only [step, bind_ok, pure_ok] at h
    obtain ⟨_, -, rfl⟩ := h
    exact .configures _ _ _ _ rfl rfl
  | tokenTransfer =>
    simp only [step, bind_ok] at h
    obtain ⟨_, -, h⟩ := h
    exact .moves _ _ rfl rfl (tokenTransfer_moves h)
  | tokenTransferFrom =>
    simp only [step, bind_ok] at h
    obtain ⟨_, -, h⟩ := h
    exact .moves _ _ rfl rfl (tokenTransferFrom_moves h)
  | tokenApprove =>
    simp only [step, bind_ok, pure_ok] at h
    obtain ⟨_, -, rfl⟩ := h
    exact .moves _ _ rfl rfl setIRC2_moves
  | tokenFallback =>
    simp only [step, bind_ok] at h
    obtain ⟨_, -, h⟩ := h
    exact .moves _ _ rfl rfl (tokenFallback_moves h)
  | network =>
    cases h
    exact .configures _ _ _ _ rfl rfl

end IconBridge.Java.BTS
