import IconBridge.Solidity.BTS.Writes

/-!
# What a call does to the books

Two balances are kept of a state: for every user and coin the *gap* between
the locked balance and what the recorded requests account for, and for every
coin the *slack* between what `BTSCore` holds and what it owes. An `Effect`
says by how much a call moves them. Effects compose, so a call is described by
the entries its parts post, and a receiver that calls back posts none.
-/

namespace IconBridge.Solidity.BTS

open Lib Function List

def amountOf (c : String) (es : List AssetTransferDetail) : Nat :=
  (es.map fun e => if e.coinName = c then e.value + e.fee else 0).sum

def valueOf (c : String) (es : List AssetTransferDetail) : Nat :=
  (es.map fun e => if e.coinName = c then e.value else 0).sum

def PendingTransferCoin.IsFrom (p : PendingTransferCoin) (u : Address) : Prop :=
  parseAddress p.sender = .ok u

instance (p : PendingTransferCoin) (u : Address) : Decidable (p.IsFrom u) :=
  inferInstanceAs (Decidable (parseAddress p.sender = .ok u))

def pendingLocked (s : St) (u : Address) (c : String) : Nat :=
  weight (fun p => if p.IsFrom u then amountOf c p.details else 0) s.serialNo s.requests

def pendingFees (d : Deployment) (s : St) (c : String) : Nat :=
  weight (fun p => if p.IsFrom d.btsCore then valueOf c p.details else 0) s.serialNo s.requests

def held (d : Deployment) (s : St) (c : String) : Nat :=
  if c = s.nativeCoinName then s.native d.btsCore
  else if s.coins c = 0 then 0
  else s.erc20 (s.coins c) d.btsCore

def owedToUsers (s : St) (c : String) : Nat :=
  total fun u => (s.balances u c).lockedBalance + (s.balances u c).refundableBalance

def owed (d : Deployment) (s : St) (c : String) : Nat :=
  owedToUsers s c + s.aggregationFee c + pendingFees d s c

def gap (s : St) (u : Address) (c : String) : Int :=
  (s.balances u c).lockedBalance - pendingLocked s u c

def slack (d : Deployment) (s : St) (c : String) : Int :=
  held d s c - owed d s c

/-- The registration of coins, which no transfer or settlement touches. -/
def registry (s : St) :=
  (s.nativeCoinName, s.coinsName, s.coins, s.coinDetails, s.coinsAddress, s.code)

/-- No two coins live at one address, the address of the native coin and the
zero address hold no contract, and the native coin was registered first. -/
structure Distinct (s : St) : Prop where
  zero : s.code 0 = none
  native : s.code (s.coins s.nativeCoinName) = none
  first : s.coinsName.head? = some s.nativeCoinName
  inj : ∀ c c', c ≠ s.nativeCoinName → c' ≠ s.nativeCoinName → s.coins c ≠ 0 →
    s.coins c = s.coins c' → c = c'

theorem Distinct.congr (h : registry s' = registry s) (hd : Distinct s) : Distinct s' := by
  simp only [registry, Prod.mk.injEq] at h
  obtain ⟨h1, h2, h3, -, -, h6⟩ := h
  exact ⟨h6 ▸ hd.zero, by rw [h6, h3, h1]; exact hd.native, by rw [h2, h1]; exact hd.first,
    by rw [h3, h1]; exact hd.inj⟩

theorem Distinct.isSome (hd : Distinct s) (h : (s.code (s.coins c)).isSome) :
    s.coins c ≠ 0 ∧ c ≠ s.nativeCoinName := by
  constructor
  · intro h0
    rw [h0, hd.zero] at h
    contradiction
  · rintro rfl
    rw [hd.native] at h
    contradiction

/-- From `s` to `s'` new requests may be filed and none is removed, the gaps
move by exactly `g` and the slacks by at least `h`. -/
structure Effect (d : Deployment) (g : Address → String → Int) (h : String → Int) (s s' : St) :
    Prop where
  registry : registry s' = registry s
  serial : s.serialNo ≤ s'.serialNo
  kept : ∀ n ≤ s.serialNo, s'.requests n = s.requests n
  numbered : Numbered s.serialNo s.requests → Numbered s'.serialNo s'.requests
  count : (s'.numOfPendingRequests : Int) - (live s'.serialNo s'.requests).card =
    s.numOfPendingRequests - (live s.serialNo s.requests).card
  gap : ∀ u c, u ≠ d.btsCore → gap s' u c = gap s u c + g u c
  slack : Distinct s → ∀ c, slack d s c + h c ≤ slack d s' c

abbrev noGap : Address → String → Int := fun _ _ => 0
abbrev noSlack : String → Int := fun _ => 0

def gapAt (u : Address) (c : String) (v : Int) : Address → String → Int :=
  fun u' c' => if u' = u ∧ c' = c then v else 0

def slackAt (c : String) (v : Int) : String → Int :=
  fun c' => if c' = c then v else 0

theorem Effect.refl : Effect d noGap noSlack s s where
  registry := rfl
  serial := le_rfl
  kept _ _ := rfl
  numbered := id
  count := rfl
  gap _ _ _ := (add_zero _).symm
  slack _ _ := (add_zero _).le

theorem Effect.trans (h1 : Effect d g h s t) (h2 : Effect d g' h' t r) :
    Effect d (fun u c => g u c + g' u c) (fun c => h c + h' c) s r where
  registry := h2.registry.trans h1.registry
  serial := h1.serial.trans h2.serial
  kept n hn := (h2.kept n (hn.trans h1.serial)).trans (h1.kept n hn)
  numbered hn := h2.numbered (h1.numbered hn)
  count := h2.count.trans h1.count
  gap u c hu := by rw [h2.gap u c hu, h1.gap u c hu, add_assoc]
  slack hd c := by
    have hs := h1.slack hd c
    have ht := h2.slack (hd.congr h1.registry) c
    omega

theorem Effect.total (h1 : Effect d g h s s')
    (hg : ∀ u c, u ≠ d.btsCore → g' u c = g u c) (hh : Distinct s → ∀ c, h' c ≤ h c) :
    Effect d g' h' s s' where
  registry := h1.registry
  serial := h1.serial
  kept := h1.kept
  numbered := h1.numbered
  count := h1.count
  gap u c hu := by rw [h1.gap u c hu, hg u c hu]
  slack hd c := by
    have hs := h1.slack hd c
    have hle := hh hd c
    omega

def Tame (d : Deployment) (k : Receiver) : Prop :=
  ∀ s s', k s = .ok s' → Effect d noGap noSlack s s'

section Entries

variable {d : Deployment}

theorem Effect.of_table (hreg : BTS.registry s' = BTS.registry s)
    (htab : s'.requests = s.requests ∧ s'.serialNo = s.serialNo ∧
      s'.numOfPendingRequests = s.numOfPendingRequests)
    (hg : ∀ u c, u ≠ d.btsCore →
      ((s'.balances u c).lockedBalance : Int) = (s.balances u c).lockedBalance + g u c)
    (hh : Distinct s → ∀ c,
      (held d s c : Int) + h c + owedToUsers s' c + s'.aggregationFee c ≤
        held d s' c + owedToUsers s c + s.aggregationFee c) : Effect d g h s s' := by
  obtain ⟨hreq, hser, hnum⟩ := htab
  refine ⟨hreg, hser.ge, fun n _ => by rw [hreq], fun hn => by rwa [hser, hreq],
    by rw [hnum, hser, hreq], fun u c hu => ?_, fun hd c => ?_⟩
  · have := hg u c hu
    simp only [BTS.gap, pendingLocked, hser, hreq]
    omega
  · have := hh hd c
    simp only [BTS.slack, owed, pendingFees, hser, hreq]
    omega

theorem Effect.of_accounts {f : Ledger} {tokens allowances : Address → Ledger}
    {supply : Address → Nat}
    (hh : Distinct s → ∀ c, (held d s c : Int) + h c ≤
      held d { s with native := f, erc20 := tokens, allowance := allowances, totalSupply := supply } c) :
    Effect d noGap h s
      { s with native := f, erc20 := tokens, allowance := allowances, totalSupply := supply } := by
  refine .of_table rfl ⟨rfl, rfl, rfl⟩ (fun _ _ _ => (add_zero _).symm) fun hd c => ?_
  have := hh hd c
  simp only [owedToUsers]
  omega

theorem owedToUsers_setBalance :
    owedToUsers (setBalance s u c b) c' + (if c' = c then
      (s.balances u c).lockedBalance + (s.balances u c).refundableBalance else 0) =
    owedToUsers s c' + (if c' = c then b.lockedBalance + b.refundableBalance else 0) := by
  split
  · next h =>
    subst h
    have := total_update (fun a => (s.balances a c').lockedBalance +
      (s.balances a c').refundableBalance) u (b.lockedBalance + b.refundableBalance)
    rw [owedToUsers, owedToUsers, ← this]
    congr 2
    funext a
    by_cases ha : a = u <;> simp [setBalance, ha]
  · next h =>
    simp only [owedToUsers, add_zero]
    congr 1
    funext a
    by_cases ha : a = u <;> simp [setBalance, ha, h]

theorem balances_setBalance :
    (setBalance s u c b).balances u' c' = if u' = u ∧ c' = c then b else s.balances u' c' := by
  by_cases hu : u' = u <;> by_cases hc : c' = c <;> simp [setBalance, hu, hc]

/-- Writing a balance moves the gap of its owner by the change of the locked
part and the slack of the coin against the change of the whole. -/
theorem setBalance_effect (s : St) (u : Address) (c : String) (b : Balance) :
    Effect d
      (gapAt u c (b.lockedBalance - (s.balances u c).lockedBalance))
      (slackAt c ((s.balances u c).lockedBalance + (s.balances u c).refundableBalance -
        b.lockedBalance - b.refundableBalance))
      s (setBalance s u c b) := by
  refine .of_table rfl ⟨rfl, rfl, rfl⟩ (fun u' c' _ => ?_) fun _ c' => ?_
  · rw [balances_setBalance, gapAt]
    split
    · next h => rw [h.1, h.2]; omega
    · omega
  · have hsum := @owedToUsers_setBalance s u c b c'
    have hheld : held d (setBalance s u c b) c' = held d s c' := rfl
    have hfees : (setBalance s u c b).aggregationFee = s.aggregationFee := rfl
    rw [hheld, hfees, slackAt]
    split <;> simp_all only [if_true, if_false] <;> omega

theorem aggregationFee_effect (s : St) (c : String) (v : Nat) :
    Effect d noGap (slackAt c (s.aggregationFee c - v)) s
      { s with aggregationFee := update s.aggregationFee c v } := by
  refine .of_table rfl ⟨rfl, rfl, rfl⟩ (fun _ _ _ => (add_zero _).symm) fun _ c' => ?_
  by_cases h : c' = c
  · subst h
    simp only [slackAt, if_true, update_self, held, owedToUsers]
    omega
  · simp only [slackAt, if_neg h, update_of_ne h, held, owedToUsers]
    omega

theorem control_effect (s : St) (entered : Bool) (blacklist : Address → Bool)
    (tokenLimit : String → Nat) (reachable : String → Bool) (sent : List Outgoing)
    (events : List Event) : Effect d noGap noSlack s
      { s with entered, blacklist, tokenLimit, reachable, sent, events } :=
  .of_table rfl ⟨rfl, rfl, rfl⟩ (fun _ _ _ => (add_zero _).symm) fun _ c => by
    simp only [noSlack, held, owedToUsers]
    omega

theorem deposit_effect (hu : u ≠ d.btsCore) (h : deposit d s u v = .ok s') :
    Effect d noGap (slackAt s.nativeCoinName v) s s' := by
  simp only [deposit, bind_ok, require_ok, pure_ok] at h
  obtain ⟨-, -, rfl⟩ := h
  refine .of_accounts fun _ c => ?_
  simp only [held, slackAt]
  split
  · rw [move_dst hu]; omega
  · omega

theorem Effect.of_token {t : Address} {f : Ledger} {allowances : Address → Ledger}
    {supply : Address → Nat}
    (hh : Distinct s → ∀ c,
      if c ≠ s.nativeCoinName ∧ s.coins c = t ∧ t ≠ 0 then
        (s.erc20 t d.btsCore : Int) + h c ≤ f d.btsCore
      else h c ≤ 0) :
    Effect d noGap h s { s with
      erc20 := update s.erc20 t f, allowance := allowances, totalSupply := supply } := by
  refine .of_accounts fun hd c => ?_
  have := hh hd c
  by_cases hn : c = s.nativeCoinName
  · simp_all [held]
  by_cases hz : s.coins c = 0
  · by_cases ht : s.coins c = t <;> simp_all [held]
  by_cases ht : s.coins c = t
  · subst ht
    simp_all [held]
  · simp_all [held]

theorem move_core_le (hu : u ≠ d.btsCore) : f d.btsCore ≤ move f u r v d.btsCore := by
  by_cases hr : r = d.btsCore
  · subst hr; rw [move_dst hu]; omega
  · rw [move_apply_of_ne hu.symm (Ne.symm hr)]

theorem tokenTransfer_ok (h : tokenTransfer s t u r v = .ok s') :
    (s.code t).isSome ∧ v ≤ s.erc20 t u ∧ s' = setHolders s t (move (s.erc20 t) u r v) := by
  unfold tokenTransfer at h
  split at h
  · contradiction
  · next code hcode =>
    simp only [bind_ok, require_ok, pure_ok, decide_eq_true_eq] at h
    obtain ⟨-, -, -, hle, rfl⟩ := h
    exact ⟨by simp [hcode], hle, rfl⟩

theorem tokenTransfer_effect (hu : u ≠ d.btsCore) (h : tokenTransfer s t u r v = .ok s') :
    Effect d noGap noSlack s s' := by
  obtain ⟨-, -, rfl⟩ := tokenTransfer_ok h
  refine .of_token fun _ c => ?_
  have := move_core_le (f := s.erc20 t) (r := r) (v := v) hu
  split <;> simp only [noSlack] <;> omega

theorem tokenTransferFrom_effect (hu : u ≠ d.btsCore)
    (h : tokenTransferFrom d s (s.coins c) u v = .ok s') : Effect d noGap (slackAt c v) s s' := by
  simp only [tokenTransferFrom, bind_ok, require_ok] at h
  obtain ⟨-, hcode, -, -, h⟩ := h
  obtain ⟨-, -, rfl⟩ := tokenTransfer_ok h
  refine .of_token fun hd c' => ?_
  have hmove : move (s.erc20 (s.coins c)) u d.btsCore v d.btsCore =
    s.erc20 (s.coins c) d.btsCore + v := move_dst hu
  rw [hmove, slackAt]
  split
  · split <;> omega
  · next hne =>
    -- nothing can be pulled in the name of the native or an unknown coin
    rw [if_neg]
    rintro rfl
    have hsome := hd.isSome hcode
    exact hne ⟨hsome.2, rfl, hsome.1⟩

theorem tokenPayment_effect (hk : Tame d k) (hc : c ≠ s.nativeCoinName)
    (h : tokenPayment d s (s.coins c) r v k = .ok s') : Effect d noGap (slackAt c (-v)) s s' := by
  simp only [tokenPayment, bind_ok] at h
  obtain ⟨t, ht, h⟩ := h
  obtain ⟨hcode, hle, rfl⟩ := tokenTransfer_ok ht
  have hsent : Effect d noGap (slackAt c (-v)) s
      (setHolders s (s.coins c) (move (s.erc20 (s.coins c)) d.btsCore r v)) := by
    refine .of_token fun hd c' => ?_
    have hleft : (s.erc20 (s.coins c) d.btsCore : Int) - v ≤
        move (s.erc20 (s.coins c)) d.btsCore r v d.btsCore := by
      by_cases hr : r = d.btsCore
      · rw [hr, move_self hle]; omega
      · rw [move_src (Ne.symm hr)]; omega
    rw [slackAt]
    split
    · next hne =>
      rw [if_pos (hd.inj c c' hc hne.1 hne.2.2 hne.2.1.symm).symm]
      omega
    · split <;> omega
  split at h
  · refine (hsent.trans (hk _ _ h)).total ?_ ?_ <;> simp
  · rw [← Except.ok.inj h]
    exact hsent

theorem paymentTransfer_effect (hk : Tame d k) (h : paymentTransfer d s r v k = .ok s') :
    Effect d noGap (slackAt s.nativeCoinName (-v)) s s' := by
  simp only [paymentTransfer, bind_ok, require_ok, Bool.and_eq_true, decide_eq_true_eq] at h
  obtain ⟨-, ⟨hr, hle⟩, h⟩ := h
  split at h
  · next t ht =>
    obtain rfl := Except.ok.inj h
    have hsent : Effect d noGap (slackAt s.nativeCoinName (-v)) s
        { s with native := move s.native d.btsCore r v } := by
      refine .of_accounts fun _ c => ?_
      simp only [held, slackAt]
      split
      · rw [move_src (Ne.symm hr)]; omega
      · omega
    refine (hsent.trans (hk _ _ ht)).total ?_ ?_ <;> simp
  · contradiction

theorem refund_effect (hk : Tame d k) (h : refund d s r c v k = .ok s') :
    Effect d noGap (slackAt c (-v)) s s' := by
  unfold refund at h
  split at h
  · next hc => exact hc ▸ paymentTransfer_effect hk h
  · next hc => exact tokenPayment_effect hk hc h

theorem tokenBurn_effect (hc : c ≠ s.nativeCoinName)
    (h : tokenBurn s (s.coins c) d.btsCore v = .ok s') : Effect d noGap (slackAt c (-v)) s s' := by
  simp only [tokenBurn, bind_ok, require_ok, pure_ok, decide_eq_true_eq] at h
  obtain ⟨-, hcode, -, -, -, hle, rfl⟩ := h
  refine .of_token fun hd c' => ?_
  rw [slackAt, update_self]
  split
  · next hne =>
    rw [if_pos (hd.inj c c' hc hne.1 hne.2.2 hne.2.1.symm).symm]
    omega
  · split <;> omega

def assetsOf (c : String) (assets : List Asset) : Nat :=
  (assets.map fun a => if a.coinName = c then a.value else 0).sum

def Wrapped (s : St) (c : String) : Prop :=
  (s.coinDetails c).coinType = .nativeWrapped ∧ c ≠ s.nativeCoinName

instance (s : St) (c : String) : Decidable (Wrapped s c) :=
  inferInstanceAs (Decidable (_ ∧ _))

/-- What paying an incoming request takes from the slack of a coin: nothing
from a wrapped coin, which is minted. -/
def paidOut (s : St) (assets : List Asset) (c : String) : Int :=
  if Wrapped s c then 0 else -assetsOf c assets

theorem paidOut_cons : paidOut s (a :: assets) c = paidOut s [a] c + paidOut s assets c := by
  simp only [paidOut, assetsOf, map_cons, map_nil, sum_cons, sum_nil]
  split <;> omega

theorem paidOut_congr (h : BTS.registry s' = BTS.registry s) : paidOut s' = paidOut s := by
  simp only [BTS.registry, Prod.mk.injEq] at h
  funext assets c
  have hw : Wrapped s' c ↔ Wrapped s c := by rw [Wrapped, Wrapped, h.1, h.2.2.2.1]
  simp only [paidOut, hw]

theorem mint_effect (hk : Tame d k) (h : mint d s r c v k = .ok s') :
    Effect d noGap (paidOut s [{ coinName := c, value := v }]) s s' := by
  have hpaid : ¬Wrapped s c → slackAt c (-v) = paidOut s [{ coinName := c, value := v }] := by
    intro hw
    funext c'
    by_cases hc : c' = c
    · simp [slackAt, paidOut, assetsOf, hc, hw]
    · simp [slackAt, paidOut, assetsOf, hc, Ne.symm hc]
  unfold mint at h
  split at h
  · next hc =>
    rw [← hpaid fun hw => hw.2 hc, hc]
    exact paymentTransfer_effect hk h
  · next hc =>
    split at h
    · next hw =>
      simp only [tokenMint, bind_ok, require_ok, pure_ok, add_ok] at h
      obtain ⟨-, -, -, -, _, ⟨-, rfl⟩, rfl⟩ := h
      have hzero : ∀ c', paidOut s [{ coinName := c, value := v }] c' ≤ 0 := by
        intro c'
        simp only [paidOut]
        split <;> omega
      refine .of_token fun _ c' => ?_
      have := hzero c'
      by_cases hr : r = d.btsCore
      · subst hr
        rw [update_self]
        split <;> omega
      · rw [update_of_ne (Ne.symm hr)]
        split <;> omega
    · next hw =>
      rw [← hpaid fun hw' => absurd hw'.1 (by simp [hw])]
      exact tokenPayment_effect hk hc h
    · next hw =>
      rw [← hpaid fun hw' => absurd hw'.1 (by simp [hw]), ← Except.ok.inj h]
      refine Effect.refl.total (fun _ _ _ => rfl) fun _ c' => ?_
      rw [slackAt]
      split <;> simp

theorem lockBalance_effect (h : lockBalance s u c v = .ok s') :
    Effect d (gapAt u c v) (slackAt c (-v)) s s' := by
  simp only [lockBalance, bind_ok, add_ok, pure_ok] at h
  obtain ⟨_, ⟨-, rfl⟩, rfl⟩ := h
  refine (setBalance_effect s u c _).total ?_ ?_
  · intro u' c' _
    simp only [gapAt]
    split <;> omega
  · intro _ c'
    simp only [slackAt]
    split <;> omega

theorem sendServiceMessage_ok (h : sendServiceMessage d s u target es = .ok s') :
    ∃ p : PendingTransferCoin, p.IsFrom u ∧ p.details = es ∧
      BTS.registry s' = BTS.registry s ∧ s'.serialNo = s.serialNo + 1 ∧
      s'.numOfPendingRequests = s.numOfPendingRequests + 1 ∧
      s'.requests = update s.requests (s.serialNo + 1) (some p) ∧
      s'.balances = s.balances ∧ s'.aggregationFee = s.aggregationFee ∧
      s'.native = s.native ∧ s'.erc20 = s.erc20 := by
  obtain ⟨_, _, -, rfl⟩ := sendServiceMessage_eq h
  exact ⟨{ sender := toString d.caps u, target, details := es }, parseAddress_toString d.caps u,
    rfl, rfl, rfl, rfl, rfl, rfl, rfl, rfl, rfl⟩

theorem sendServiceMessage_effect (h : sendServiceMessage d s u target es = .ok s') :
    Effect d (fun u' c => if u' = u then -amountOf c es else 0)
      (fun c => if u = d.btsCore then -valueOf c es else 0) s s' := by
  obtain ⟨p, hp, rfl, hreg, hser, hnum, hreq, hbal, hfee, hnat, herc⟩ := sendServiceMessage_ok h
  have hfrom : ∀ u', p.IsFrom u' ↔ u' = u := fun u' =>
    ⟨fun h' => Except.ok.inj (h'.symm.trans hp), fun h' => h' ▸ hp⟩
  have hheld : held d s' = held d s := by
    simp only [BTS.registry, Prod.mk.injEq] at hreg
    funext c
    simp only [held, hreg, hnat, herc]
  refine ⟨hreg, by omega, fun n hn => ?_, fun hn => ?_, ?_, fun u' c _ => ?_, fun _ c => ?_⟩
  · rw [hreq, update_of_ne (by omega)]
  · rw [hser, hreq]; exact hn.file p
  · rw [hser, hreq, hnum, card_live_file]; omega
  · simp only [gap, pendingLocked, hser, hreq, hbal, weight_file, hfrom]
    split <;> omega
  · simp only [slack, owed, owedToUsers, pendingFees, hser, hreq, hbal, hfee, hheld, weight_file,
      hfrom, eq_comm (a := d.btsCore)]
    split <;> omega

@[simp] theorem amountOf_nil : amountOf c [] = 0 := rfl

@[simp] theorem amountOf_cons :
    amountOf c (e :: es) = (if e.coinName = c then e.value + e.fee else 0) + amountOf c es := by
  simp [amountOf]

@[simp] theorem amountOf_append : amountOf c (es ++ fs) = amountOf c es + amountOf c fs := by
  simp [amountOf]

theorem sendSingle_effect (hu : u ≠ d.btsCore) (h : sendSingle d s u target c v charge = .ok s') :
    Effect d noGap (slackAt c (-v)) s s' := by
  simp only [sendSingle, bind_ok, require_ok, decide_eq_true_eq] at h
  obtain ⟨-, hlt, t, ht, h⟩ := h
  refine ((lockBalance_effect ht).trans (sendServiceMessage_effect h)).total ?_ ?_
  · intro u' c' _
    simp only [gapAt, amountOf_cons, amountOf_nil]
    by_cases hu' : u' = u <;> by_cases hc' : c' = c <;> simp [noGap, hu', hc', eq_comm (a := c)]
    omega
  · simp [hu]

theorem transferNativeCoin_effect (hu : u ≠ d.btsCore)
    (h : transferNativeCoin d s u target v = .ok s') : Effect d noGap noSlack s s' := by
  simp only [transferNativeCoin, bind_ok] at h
  obtain ⟨t, ht, _, -, charge, -, h⟩ := h
  have hin := deposit_effect hu ht
  split at h
  · contradiction
  · next c cs hcoins =>
    refine (hin.trans (sendSingle_effect hu h)).total (fun _ _ _ => rfl) fun hd c' => ?_
    -- the native coin is the first of `coinsName`
    have hfirst := (hd.congr hin.registry).first
    have hname : t.nativeCoinName = s.nativeCoinName := congrArg Prod.fst hin.registry
    rw [hcoins, head?_cons, Option.some.injEq, hname] at hfirst
    simp only [slackAt, noSlack, hfirst]
    split <;> omega

theorem transfer_effect (hu : u ≠ d.btsCore) (h : transfer d s u c v target = .ok s') :
    Effect d noGap noSlack s s' := by
  simp only [transfer, bind_ok, require_ok] at h
  obtain ⟨-, -, -, -, -, -, charge, -, t, ht, h⟩ := h
  refine ((tokenTransferFrom_effect hu ht).trans (sendSingle_effect hu h)).total
    (fun _ _ _ => rfl) fun _ c' => ?_
  simp only [slackAt, noSlack]
  split <;> omega

def batchGap (u : Address) (es : List AssetTransferDetail) : Address → String → Int :=
  fun u' c => if u' = u then amountOf c es else 0

theorem batchRound_effect (hu : u ≠ d.btsCore) (h : batchRound d s u c v = .ok (s', e)) :
    Effect d (batchGap u [e]) noSlack s s' := by
  simp only [batchRound, bind_ok, require_ok, sub_ok, pure_ok, Prod.mk.injEq] at h
  obtain ⟨-, -, -, -, -, -, t, ht, charge, -, amount, ⟨hle, rfl⟩, _, hlock, rfl, rfl⟩ := h
  refine ((tokenTransferFrom_effect hu ht).trans (lockBalance_effect hlock)).total ?_ ?_
  · intro u' c' _
    simp only [batchGap, gapAt, amountOf_cons, amountOf_nil]
    by_cases hu' : u' = u <;> by_cases hc' : c' = c <;> simp [hu', hc', eq_comm (a := c)]
    omega
  · intro _ c'
    simp only [slackAt, noSlack]
    split <;> omega

theorem batchLoop_effect (hu : u ≠ d.btsCore) (h : batchLoop d u s xs = .ok (s', es)) :
    Effect d (batchGap u es) noSlack s s' := by
  induction xs generalizing s es with
  | nil =>
    simp only [batchLoop, Except.ok.injEq, Prod.mk.injEq] at h
    obtain ⟨rfl, rfl⟩ := h
    exact Effect.refl.total (fun u' _ _ => by simp [batchGap]) fun _ _ => le_rfl
  | cons x xs ih =>
    simp only [batchLoop, bind_ok, pure_ok, Prod.exists, Prod.mk.injEq] at h
    obtain ⟨t, e, hround, t', es', hrest, rfl, rfl⟩ := h
    refine ((batchRound_effect hu hround).trans (ih hrest)).total (fun u' c _ => ?_) fun _ _ => le_rfl
    simp only [batchGap, amountOf_cons, amountOf_nil]
    split <;> omega

theorem batchNative_effect (h : batchNative s u v = .ok (s', es)) :
    Effect d (batchGap u es) (slackAt s.nativeCoinName (-v)) s s' := by
  unfold batchNative at h
  split at h
  · next hv =>
    simp only [Except.ok.injEq, Prod.mk.injEq] at h
    obtain ⟨rfl, rfl⟩ := h
    refine Effect.refl.total (fun u' _ _ => by simp [batchGap]) fun _ c => ?_
    simp [slackAt, hv]
  · simp only [bind_ok, sub_ok, pure_ok, Prod.mk.injEq] at h
    obtain ⟨_, -, charge, -, amount, ⟨hle, rfl⟩, t, hlock, rfl, rfl⟩ := h
    have hname : t.nativeCoinName = s.nativeCoinName :=
      congrArg Prod.fst (lockBalance_effect (d := d) hlock).registry
    refine (lockBalance_effect hlock).total (fun u' c' _ => ?_) fun _ _ => le_rfl
    simp only [batchGap, gapAt, amountOf_cons, amountOf_nil, hname]
    by_cases hu' : u' = u <;> by_cases hc' : c' = s.nativeCoinName <;>
      simp [hu', hc', eq_comm (a := s.nativeCoinName)]
    omega

theorem transferBatch_effect (hu : u ≠ d.btsCore)
    (h : transferBatch d s u names values target v = .ok s') : Effect d noGap noSlack s s' := by
  simp only [transferBatch, bind_ok, require_ok, Prod.exists] at h
  obtain ⟨t, hin, -, -, -, -, -, -, t1, es, hloop, t2, last, hlast, h⟩ := h
  have h1 := deposit_effect hu hin
  have h2 := batchLoop_effect hu hloop
  have hname : t1.nativeCoinName = s.nativeCoinName :=
    congrArg Prod.fst (h1.trans h2).registry
  refine (((h1.trans h2).trans (batchNative_effect hlast)).trans
    (sendServiceMessage_effect h)).total ?_ ?_
  · intro u' c _
    simp only [batchGap, amountOf_append]
    split <;> push_cast <;> omega
  · intro _ c
    simp only [slackAt, hname, if_neg hu]
    split <;> omega

theorem reclaim_effect (hk : Tame d k) (h : reclaim d s u c v k = .ok s') :
    Effect d noGap noSlack s s' := by
  simp only [reclaim, bind_ok, require_ok, pure_ok, decide_eq_true_eq] at h
  obtain ⟨-, -, -, hle, t, ht, rfl⟩ := h
  have h1 : Effect d noGap (slackAt c v) s _ :=
    ((control_effect s true ..).trans (setBalance_effect { s with entered := true } u c
      { s.balances u c with
        refundableBalance := (s.balances u c).refundableBalance - v })).total
      (fun _ _ _ => by simp [gapAt]) fun _ c' => by
        simp only [slackAt, noSlack]
        split <;> omega
  refine ((h1.trans (refund_effect hk ht)).trans (control_effect t false ..)).total
    (fun _ _ _ => rfl) fun _ c' => ?_
  simp only [slackAt, noSlack]
  split <;> omega

theorem pay_effect (hu : u ≠ d.btsCore) (h : pay d s u r v = .ok s') :
    Effect d noGap noSlack s s' := by
  simp only [pay, bind_ok, require_ok, pure_ok] at h
  obtain ⟨-, -, rfl⟩ := h
  refine .of_accounts fun _ c => ?_
  have := move_core_le (f := s.native) (r := r) (v := v) hu
  simp only [held, noSlack]
  split <;> omega

mutual

theorem call_effect (d : Deployment) (s s' : St) (u : Address) :
    (c : Call) → call d s u c = .ok s' → Effect d noGap noSlack s s'
  | .transferNativeCoin .., h => by
    simp only [call, bind_ok, require_ok, decide_eq_true_eq] at h
    obtain ⟨-, hu, h⟩ := h
    exact transferNativeCoin_effect hu h
  | .transfer .., h => by
    simp only [call, bind_ok, require_ok, decide_eq_true_eq] at h
    obtain ⟨-, hu, h⟩ := h
    exact transfer_effect hu h
  | .transferBatch .., h => by
    simp only [call, bind_ok, require_ok, decide_eq_true_eq] at h
    obtain ⟨-, hu, h⟩ := h
    exact transferBatch_effect hu h
  | .reclaim _ _ reaction, h => by
    simp only [call, bind_ok, require_ok] at h
    obtain ⟨-, -, h⟩ := h
    exact reclaim_effect (fun s s' => react_effect d s s' reaction) h
  | .approve .., h => by
    simp only [call, bind_ok, require_ok, pure_ok] at h
    obtain ⟨-, -, rfl⟩ := h
    exact .of_accounts fun _ c => by simp [held]
  | .tokenTransfer .., h => by
    simp only [call, bind_ok, require_ok, decide_eq_true_eq] at h
    obtain ⟨-, hu, h⟩ := h
    exact tokenTransfer_effect hu h
  | .pay .., h => by
    simp only [call, bind_ok, require_ok, decide_eq_true_eq] at h
    obtain ⟨-, hu, h⟩ := h
    exact pay_effect hu h

theorem react_effect (d : Deployment) (s s' : St) :
    (r : Reaction) → react d s r = .ok s' → Effect d noGap noSlack s s'
  | .revert, h => by simp [react] at h
  | .accept, h => by
    simp only [react, Except.ok.injEq] at h
    exact h ▸ .refl
  | .call u c next, h => by
    simp only [react] at h
    split at h
    · next t ht => exact (call_effect d s t u c ht).trans (react_effect d t s' next h)
    · exact react_effect d s s' next h

end

theorem tame_react (d : Deployment) (r : Reaction) : Tame d fun s => react d s r :=
  fun s s' => react_effect d s s' r

end Entries

end IconBridge.Solidity.BTS
