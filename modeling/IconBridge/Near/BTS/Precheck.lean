import IconBridge.Lib.Portions
import IconBridge.Near.BTS.Withdrawal

/-!
# The check before a transfer

Every asset of a request from another network is checked before the first one is
transferred, each against the balances at that moment. What the assets take
together is checked only as they are transferred.
-/

namespace IconBridge.Near.BTS

open Lib List

variable {d : Deployment} {s s' : St} {a : AccountId} {tokenId : TokenId} {token : Token}
  {asset : TransferableAsset} {tokens : List (TokenId × Token × TransferableAsset)}

/-- What the service can hand to an account -/
def room (d : Deployment) (s : St) (a : AccountId) (t : TokenId) : ℕ :=
  min (s.amount .deposit (d.account, t)) (u128Max - s.amount .deposit (a, t))

/-- What a request transfers of the tokens of this network -/
def transfers (d : Deployment) (tokens : List (TokenId × Token × TransferableAsset)) : List (TokenId × ℕ) :=
  (tokens.filter (·.2.1.network = d.network)).map fun x => (x.1, x.2.2.amount)

theorem verifyInternalTransfer_ok (h : verifyInternalTransfer d s a tokenId v b = .ok (.ok ())) :
    d.account ≠ a ∧ v ≤ b.deposit ∧ s.amount .deposit (a, tokenId) + v ≤ u128Max := by
  simp only [verifyInternalTransfer, assertSenderIsNotReceiver, bind_ok, ensure_ok, pure_ok,
    decide_eq_true_eq] at h
  obtain ⟨_, hne, _, hsub, _, hadd, -⟩ := h
  obtain ⟨hsub, -⟩ := sub_ok.1 hsub
  obtain ⟨hadd, -⟩ := add_ok.1 hadd
  exact ⟨hne, hsub, hadd⟩

/-- An asset passes the check. -/
structure Passes (d : Deployment) (s : St) (a : AccountId) (x : TokenId × Token × TransferableAsset) :
    Prop where
  other : d.account ≠ a
  known : (s.balances (d.account, x.1)).isSome
  fits : s.amount .deposit (a, x.1) + x.2.2.amount ≤ u128Max
  covered : x.2.1.network = d.network → x.2.2.amount ≤ s.amount .deposit (d.account, x.1)

theorem isTokenTransferable_ok (h : isTokenTransferable d s a tokenId token asset = .ok (.ok ())) :
    Passes d s a (tokenId, token, asset) := by
  unfold isTokenTransferable at h
  split at h
  · cases h
  · simp only [bind_ok, unwrap_ok] at h
    obtain ⟨own, hown, h⟩ := h
    split at h
    · cases h
    · split at h
      · next hforeign =>
        simp only [bind_ok] at h
        obtain ⟨verdict, -, h⟩ := h
        cases verdict with
        | error e => cases h
        | ok _ =>
          dsimp only at h
          split at h
          · cases h
          · obtain ⟨hne, -, hfits⟩ := verifyInternalTransfer_ok h
            exact ⟨hne, by simp [hown], hfits, fun hn => absurd hn hforeign⟩
      · obtain ⟨hne, hle, hfits⟩ := verifyInternalTransfer_ok h
        exact ⟨hne, by simp [hown], hfits, fun _ => by rwa [amount_of_some hown]⟩

theorem isTokensTransferable_ok (h : isTokensTransferable d s a tokens = .ok (.ok ())) :
    ∀ x ∈ tokens, Passes d s a x := by
  induction tokens with
  | nil => simp
  | cons x tokens ih =>
    simp only [isTokensTransferable, bind_ok] at h
    obtain ⟨verdict, hverdict, h⟩ := h
    cases verdict with
    | error e => cases h
    | ok _ => exact forall_mem_cons.2 ⟨isTokenTransferable_ok hverdict, ih h⟩

theorem internalTransfer_iff (hne : d.account ≠ a) (hown : (s.balances (d.account, tokenId)).isSome)
    (hfits : s.amount .deposit (a, tokenId) ≤ u128Max) :
    (∃ s', internalTransfer d s a tokenId v = .ok s') ↔ v ≤ room d s a tokenId := by
  obtain ⟨own, hown⟩ := Option.isSome_iff_exists.1 hown
  rw [room, le_min_iff, Nat.le_sub_iff_add_le' hfits, amount_of_some hown]
  simp only [internalTransfer, assertSenderIsNotReceiver, assertHaveSufficientDeposit, bind_ok, ensure_ok,
    unwrap_ok, add_ok, sub_ok, pure_ok, hown]
  simpa [St.amount, AccountBalance.amount] using fun _ _ => hne

theorem internalTransfer_amount (h : internalTransfer d s a tokenId v = .ok s') (hne : d.account ≠ a)
    (u : TokenId) :
    s'.amount .deposit (d.account, u) + (if tokenId = u then v else 0) = s.amount .deposit (d.account, u) ∧
      s'.amount .deposit (a, u) = s.amount .deposit (a, u) + if tokenId = u then v else 0 := by
  have hbooks := internalTransfer_books h
  have hown := hbooks.amount .deposit (d.account, u)
  have hother := hbooks.amount .deposit (a, u)
  simp only [effects_cons, effects_nil, Movement.effect, entry, Pi.sub_apply, Prod.mk.injEq, hne, hne.symm,
    true_and, false_and, if_false, eq_comm (a := u)] at hown hother
  split_ifs at hown hother ⊢ <;> omega

theorem receiveAssets_iff (hne : d.account ≠ a) (hx : ∀ x ∈ tokens,
      (s.balances (d.account, x.1)).isSome ∧ s.amount .deposit (a, x.1) ≤ u128Max) :
    (∃ s', tokens.foldlM (receiveAsset d a) s = .ok s') ↔
      (∀ x ∈ tokens, x.2.1.network ≠ d.network → x.2.1.uri.isSome) ∧
        ∀ t, portion (transfers d tokens) t ≤ room d s a t := by
  induction tokens generalizing s with
  | nil => simp [transfers, portion, pure_ok]
  | cons x tokens ih =>
    obtain ⟨⟨hown, hfits⟩, hrest⟩ := forall_mem_cons.1 hx
    rw [forall_mem_cons, foldlM_cons]
    by_cases hnet : x.2.1.network = d.network
    · have hreceive : receiveAsset d a s x = internalTransfer d s a x.1 x.2.2.amount :=
        if_neg (not_not.2 hnet)
      have htransfers : transfers d (x :: tokens) = (x.1, x.2.2.amount) :: transfers d tokens := by
        simp [transfers, hnet]
      simp only [htransfers, portion_cons, hreceive]
      by_cases hroom : x.2.2.amount ≤ room d s a x.1
      · obtain ⟨t, ht⟩ := (internalTransfer_iff hne hown hfits).2 hroom
        have hamount := internalTransfer_amount ht hne
        rw [ht, ok_bind, ih fun y hy => ⟨(internalTransfer_books ht).keeps.balances _ (hrest y hy).1, ?_⟩]
        · refine and_congr (by simp [hnet]) (forall_congr' fun u => ?_)
          obtain ⟨h1, h2⟩ := hamount u
          unfold room at *
          split_ifs at h1 h2 ⊢ with hu
          · subst hu
            omega
          · omega
        · obtain ⟨-, h2⟩ := hamount y.1
          have hy := (hrest y hy).2
          unfold room at hroom
          split_ifs at h2 with hu
          · rw [hu] at hroom
            omega
          · omega
      · refine iff_of_false ?_ ?_
        · rintro ⟨s', h⟩
          obtain ⟨t, ht, -⟩ := bind_ok.1 h
          exact hroom ((internalTransfer_iff hne hown hfits).1 ⟨t, ht⟩)
        · rintro ⟨-, h⟩
          have hfirst := h x.1
          rw [if_pos rfl] at hfirst
          exact hroom (le_trans (Nat.le_add_right ..) hfirst)
    · have hreceive : receiveAsset d a s x = mint s x.1 x.2.2.amount x.2.1 a := if_pos hnet
      have htransfers : transfers d (x :: tokens) = transfers d tokens := by simp [transfers, hnet]
      rw [hreceive, htransfers]
      cases huri : x.2.1.uri with
      | none => simp [mint, huri, unwrap, hnet, bind_ok]
      | some uri =>
        have hmint : mint s x.1 x.2.2.amount x.2.1 a = .ok (s.promise (.mint uri x.2.2.amount x.1 a)) := by
          rw [mint, huri]
          rfl
        rw [hmint, ok_bind]
        rw [ih (s := s.promise _) hrest]
        refine and_congr ?_ Iff.rfl
        simp

/-- The check says that the transfers succeed exactly if tokens of other networks have
a contract and those that are named more than once are there for all. -/
theorem checked_transfers_succeed_iff (h : isTokensTransferable d s a tokens = .ok (.ok ())) :
    (∃ s', tokens.foldlM (receiveAsset d a) s = .ok s') ↔
      (∀ x ∈ tokens, x.2.1.network ≠ d.network → x.2.1.uri.isSome) ∧
        RepeatsWithin (room d s a) (transfers d tokens) := by
  have hpasses := isTokensTransferable_ok h
  cases tokens with
  | nil => simp [RepeatsWithin, transfers, pure_ok]
  | cons x tokens =>
    rw [receiveAssets_iff (hpasses x mem_cons_self).other fun y hy =>
      ⟨(hpasses y hy).known, Nat.le_of_add_right_le (hpasses y hy).fits⟩]
    refine and_congr_right fun _ => portion_le_iff (fun _ => Nat.zero_le _) fun e he => ?_
    obtain ⟨y, hy, rfl⟩ := mem_map.1 he
    obtain ⟨hy, hnet⟩ := mem_filter.1 hy
    have hpass := hpasses y hy
    exact le_min (hpass.covered (of_decide_eq_true hnet)) (Nat.le_sub_of_add_le' hpass.fits)

/-- The service has 100 of its token: those that Alice has sent away. -/
def hundredHeld : St := run (step sample) (initialState sample)
  [aliceDeposits, .call alice (.transfer near.name ⟨"0x1.icon", "hx12"⟩ 100),
   .call { predecessor := "bmc.near" } (.handleBtpMessage ⟨"0x1.icon", "cx12"⟩ "bts" 1
     (.ok (.responseHandleService rcOk "")))]

theorem two_fifties_succeed :
    ∃ s', [(17, near, (⟨near.name, 50, 0⟩ : TransferableAsset)), (17, near, ⟨near.name, 50, 0⟩)].foldlM
      (receiveAsset sample "bob.near") hundredHeld = .ok s' :=
  (checked_transfers_succeed_iff (by decide +kernel)).2 (by decide +kernel)

/-- Each of two equal assets is there, but not both. The call panics instead of
answering the request. -/
theorem two_sixties_panic :
    isTokensTransferable sample hundredHeld "bob.near"
      [(17, near, ⟨near.name, 60, 0⟩), (17, near, ⟨near.name, 60, 0⟩)] = .ok (.ok ()) ∧
    (handleTokenTransfer sample hundredHeld "bob.near"
      [⟨near.name, 60, 0⟩, ⟨near.name, 60, 0⟩]).isOk = false := by
  decide +kernel

end IconBridge.Near.BTS
