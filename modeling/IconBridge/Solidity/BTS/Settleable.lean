import IconBridge.Solidity.BTS.Requests
import IconBridge.Solidity.BTS.Solvency

/-!
# Recorded requests can be settled

A settlement checks its arithmetic in every round. The locks cover what is
unlocked, and what the service holds of a coin bounds every counter of the
coin, so no check fails. What can fail is the bound on the number of coins: no
user's request exceeds it, but a fee gathering names every coin with fees.
-/

namespace IconBridge.Solidity.BTS

open Lib Function List

variable {d : Deployment} {s s' : St}

/-- Every recorded request is from an account, and those of users are short. -/
def Recorded (d : Deployment) (s : St) : Prop :=
  ∀ n p, s.requests n = some p →
    ∃ u, p.IsFrom u ∧ (u ≠ d.btsCore → p.details.length ≤ maxBatchSize)

theorem step_recorded (hs : Recorded d s) (h : step d s tx = .ok s') : Recorded d s' :=
  step_each (each_rule fun u _ _ hlen => ⟨u, parseAddress_toString d.caps u, hlen⟩) hs h

/-- There is no more of a coin than a word holds; the supply of a token that
`BTSCore` has deployed is what its holders have. -/
structure Words (s : St) : Prop where
  native : total s.native ≤ uint256Max
  erc20 : ∀ t, total (s.erc20 t) ≤ uint256Max
  supply : ∀ t, s.code t = some .tradable → total (s.erc20 t) = s.totalSupply t

theorem total_move {f : Ledger} (h : v ≤ f a) : total (move f a b v) = total f := by
  have hsrc := total_update f a (f a - v)
  have hdst := total_update (update f a (f a - v)) b (update f a (f a - v) b + v)
  simp only [move]
  omega

theorem Words.congr (h : purse s' = purse s) (hw : Words s) : Words s' := by
  simp only [purse, Prod.mk.injEq] at h
  obtain ⟨h1, h2, h3, h4⟩ := h
  exact ⟨h1 ▸ hw.native, h2 ▸ hw.erc20, by rw [h2, h3, h4]; exact hw.supply⟩

theorem Words.setToken {f : Ledger} {supply : Address → Nat} (hw : Words s)
    (hle : total f ≤ uint256Max) (hsupply : s.code t = some .tradable → total f = supply t)
    (hother : ∀ x, x ≠ t → supply x = s.totalSupply x) :
    Words { setHolders s t f with totalSupply := supply } := by
  refine ⟨hw.native, fun x => ?_, fun x hx => ?_⟩
  · simp only [setHolders, update_apply]
    split
    · exact hle
    · exact hw.erc20 x
  · by_cases heq : x = t
    · subst heq
      simpa [setHolders] using hsupply hx
    · simpa [setHolders, heq, hother x heq] using hw.supply x hx

theorem Moves.words (h : Moves s s') (hw : Words s) : Words s' := by
  cases h with
  | native u receiver v hcover =>
    refine ⟨?_, hw.erc20, hw.supply⟩
    simpa [total_move hcover] using hw.native
  | token token u receiver v hcover =>
    have htotal := total_move (b := receiver) hcover
    exact hw.setToken (htotal.le.trans (hw.erc20 token))
      (fun hcode => htotal.trans (hw.supply token hcode)) fun _ _ => rfl
  | @mint token account v _ h =>
    simp only [tokenMint, bind_ok, require_ok, decide_eq_true_eq, add_ok, pure_ok] at h
    obtain ⟨_, hcode, _, -, _, ⟨hle, rfl⟩, rfl⟩ := h
    have htotal := total_update (s.erc20 token) account (s.erc20 token account + v)
    have hsupply := hw.supply token hcode
    refine hw.setToken (by omega) (fun _ => ?_) fun x hx => by simp [hx]
    rw [update_self]
    omega
  | @burn token account v _ h =>
    simp only [tokenBurn, bind_ok, require_ok, decide_eq_true_eq, pure_ok] at h
    obtain ⟨_, hcode, _, -, _, hle, rfl⟩ := h
    have htotal := total_update (s.erc20 token) account (s.erc20 token account - v)
    have hsupply := hw.supply token hcode
    have hword := hw.erc20 token
    refine hw.setToken (by omega) (fun _ => ?_) fun x hx => by simp [hx]
    rw [update_self]
    omega

theorem words_rule : Rule d fun s s' => Words s → Words s' where
  trans h1 h2 hs := h2 (h1 hs)
  keeps _ hpurse := Words.congr hpurse
  moves := Moves.words
  deploys {s s' deployed _} h hw := by
    simp only [deployTradable, bind_ok, pure_ok] at h
    obtain ⟨_, -, _, -, rfl⟩ := h
    refine ⟨hw.native, fun x => ?_, fun x hx => ?_⟩
    · simp only [update_apply]
      split
      · simp [total_zero]
      · exact hw.erc20 x
    · by_cases heq : x = deployed
      · subst heq
        simp [total_zero]
      · simp only [update_of_ne heq] at hx ⊢
        exact hw.supply x hx
  files _ h := by
    obtain ⟨_, _, -, rfl⟩ := sendServiceMessage_eq h
    exact Words.congr rfl
  responds _ := Words.congr rfl

theorem Words.held_le (hw : Words s) : held d s c ≤ uint256Max := by
  unfold held
  split
  · exact (Lib.le_total _ _).trans hw.native
  · split
    · exact Nat.zero_le _
    · exact (Lib.le_total _ _).trans (hw.erc20 _)

theorem add_succeeds (h : a + b ≤ uint256Max) : add a b = .ok (a + b) := if_pos h

theorem sub_succeeds (h : b ≤ a) : sub a b = .ok (a - b) := if_pos h

def Coded (s : St) : Prop := ∀ c, Wrapped s c → s.code (s.coins c) = some .tradable

theorem tokenBurn_succeeds (hcore : d.btsCore ≠ 0) (hd : Distinct s) (hcoded : Coded s)
    (hw : Wrapped s c) (hle : v ≤ held d s c) : ∃ s', tokenBurn s (s.coins c) d.btsCore v = .ok s' := by
  have hcode := hcoded c hw
  have hheld : held d s c = s.erc20 (s.coins c) d.btsCore := by
    rw [held, if_neg hw.2, if_neg (hd.isSome (by simp [hcode])).1]
  rw [hheld] at hle
  rw [tokenBurn, decide_eq_true hcode, decide_eq_true hcore, decide_eq_true hle]
  exact ⟨_, rfl⟩

/-- Off the lock, the value of an entry finds its way: what cannot be refunded
becomes refundable, and there is enough to burn. -/
theorem settleValue_succeeds (hcore : d.btsCore ≠ 0) (hd : Distinct s) (hcoded : Coded s)
    (hw : Words s) (hcover : owed d s c + v ≤ held d s c) (k : Receiver) :
    ∃ s', settleValue d s u c v code k = .ok s' := by
  unfold settleValue
  split
  · split
    · exact ⟨_, rfl⟩
    · have howed := balance_le_owed (d := d) (s := s) (u := u) (c := c)
      have hheld := hw.held_le (d := d) (c := c)
      dsimp only
      rw [add_succeeds (by omega)]
      exact ⟨_, rfl⟩
  · split
    · next hwrapped => exact tokenBurn_succeeds hcore hd hcoded ⟨hwrapped.2.2, hwrapped.2.1⟩ (by omega)
    · exact ⟨s, rfl⟩

theorem Coded.congr (h : registry s' = registry s) (hs : Coded s) : Coded s' := by
  simp only [registry, Prod.mk.injEq] at h
  obtain ⟨h1, -, h3, h4, -, h6⟩ := h
  intro c hw
  rw [Wrapped, h4, h1] at hw
  rw [h6, h3]
  exact hs c hw

theorem handleResponseService_succeeds (hcore : d.btsCore ≠ 0) (hd : Distinct s) (hcoded : Coded s)
    (hw : Words s) (hu : u ≠ d.btsCore) (hcover : owed d s c ≤ held d s c)
    (hlocked : v + fee ≤ (s.balances u c).lockedBalance) (r : Reaction) :
    ∃ s', handleResponseService d s u c v fee code (fun t => react d t r) = .ok s' := by
  have howed := balance_le_owed (d := d) (s := s) (u := u) (c := c)
  have hheld := hw.held_le (d := d) (c := c)
  rw [handleResponseService, if_neg hu, add_succeeds (by omega)]
  simp only [ok_bind]
  rw [sub_succeeds hlocked]
  simp only [ok_bind]
  generalize hb : ({ s.balances u c with
    lockedBalance := (s.balances u c).lockedBalance - (v + fee) } : Balance) = b
  -- what was locked is no longer owed
  have hset := setBalance_effect (d := d) s u c b
  have hslack := hset.slack hd c
  simp only [slackAt, if_true, slack, ← hb] at hslack
  rw [hb] at hslack
  have hsetWords : Words (setBalance s u c b) := ⟨hw.native, hw.erc20, hw.supply⟩
  obtain ⟨t, ht⟩ : ∃ t, settleValue d (setBalance s u c b) u c v code (fun t => react d t r) = .ok t :=
    settleValue_succeeds hcore (hd.congr hset.registry) (hcoded.congr hset.registry) hsetWords
      (by omega) _
  rw [ht]
  simp only [ok_bind]
  -- and the fee is still there after the value has left
  have hvalue := settleValue_effect (tame_react d r) ht
  have hslack' := hvalue.slack (hd.congr hset.registry) c
  simp only [slackAt, if_true, slack] at hslack'
  have hwords : Words t :=
    words_rule.calls.settleValue (fun t t' => words_rule.calls.react t t' r) ht hsetWords
  have hheld' := hwords.held_le (d := d) (c := c)
  have hfees : t.aggregationFee c ≤ owed d t c := by
    simp only [owed]
    omega
  rw [add_succeeds (by omega)]
  exact ⟨_, rfl⟩

structure Healthy (d : Deployment) (s : St) : Prop extends Solvent d s where
  recorded : Recorded d s
  words : Words s
  coded : Coded s

theorem valueOf_take_le (hn : es[n]? = some e) :
    valueOf e.coinName (es.take n) + e.value ≤ valueOf e.coinName es := by
  simpa [valueOf] using sum_take_le (fun x => if x.coinName = e.coinName then x.value else 0) hn

/-- The fees that are put back were taken from what the service holds. -/
theorem Healthy.fees_fit (hi : Healthy d s) (hp : s.requests sn = some p) (hu : p.IsFrom d.btsCore)
    (hcover : owed d s e.coinName ≤ held d s e.coinName) (hn : p.details[n]? = some e)
    (ht : settleLoop d s sn d.btsCore code rs n = .ok t) :
    t.aggregationFee e.coinName + e.value ≤ uint256Max := by
  have hsn := hi.balanced.numbered sn (by simp [hp])
  have hlen : n < p.details.length := (List.getElem?_eq_some_iff.1 hn).1
  have hloop := settleLoop_effect hp hsn.2 hlen.le ht
  have hslack := hloop.slack hi.filed.distinct e.coinName
  -- the gathering is still recorded with all its entries
  have hpending : valueOf e.coinName p.details ≤ pendingFees d t e.coinName := by
    have hpt : t.requests sn = some p := (hloop.kept sn hsn.2).trans hp
    exact (if_pos hu).ge.trans (le_weight
      (fun p => if p.IsFrom d.btsCore then valueOf e.coinName p.details else 0)
      (mem_live.2 ⟨hsn.2.trans hloop.serial, by simp [hpt]⟩) hpt)
  have hrest := valueOf_take_le hn
  have hword := (words_rule.calls.settleLoop ht hi.words).held_le (d := d) (c := e.coinName)
  simp only [slack, if_true, owed] at hslack hcover
  omega

theorem Healthy.round_succeeds (hi : Healthy d s) (hcore : d.btsCore ≠ 0)
    (hp : s.requests sn = some p) (hu : p.IsFrom u)
    (hcover : owed d s e.coinName ≤ held d s e.coinName) (hn : p.details[n]? = some e)
    (ht : settleLoop d s sn u code rs n = .ok t) (r : Reaction) :
    ∃ t', handleResponseService d t u e.coinName e.value e.fee code (fun t => react d t r) =
      .ok t' := by
  by_cases hself : u = d.btsCore
  · subst hself
    rw [handleResponseService, if_pos rfl]
    split
    · rw [add_succeeds (hi.fees_fit hp hu hcover hn ht)]
      exact ⟨_, rfl⟩
    · exact ⟨t, rfl⟩
  · have hsn := hi.balanced.numbered sn (by simp [hp])
    have hlen : n < p.details.length := (List.getElem?_eq_some_iff.1 hn).1
    have hloop := settleLoop_effect hp hsn.2 hlen.le ht
    have hslack := hloop.slack hi.filed.distinct e.coinName
    simp only [slack, if_neg hself] at hslack
    exact handleResponseService_succeeds hcore (hi.filed.distinct.congr hloop.registry)
      (hi.coded.congr hloop.registry) (words_rule.calls.settleLoop ht hi.words) hself (by omega)
      (hi.balanced.covers hp hu hself ht hn) r

theorem Healthy.settleLoop_succeeds (hi : Healthy d s) (hcore : d.btsCore ≠ 0)
    (hp : s.requests sn = some p) (hu : p.IsFrom u)
    (hcover : ∀ e ∈ p.details, owed d s e.coinName ≤ held d s e.coinName)
    (hn : n ≤ p.details.length) : ∃ t, settleLoop d s sn u code rs n = .ok t := by
  induction n with
  | zero => exact ⟨s, rfl⟩
  | succ n ih =>
    obtain ⟨t, ht⟩ := ih (by omega)
    have hsn := hi.balanced.numbered sn (by simp [hp])
    have hentry : p.details[n]? = some p.details[n] := getElem?_eq_getElem hn
    have hpt : t.requests sn = some p :=
      ((settleLoop_effect hp hsn.2 (Nat.le_of_succ_le hn) ht).kept sn hsn.2).trans hp
    obtain ⟨t', ht'⟩ := hi.round_succeeds hcore hp hu
      (hcover p.details[n] (getElem_mem hn)) hentry ht (rs.getD n .accept)
    refine ⟨t', ?_⟩
    rw [settleLoop, range_succ, foldlM_append]
    rw [settleLoop] at ht
    rw [ht, ok_bind, foldlM_cons, settleRound, hpt, Option.bind_some, hentry]
    dsimp only
    rw [ht']
    rfl

theorem Healthy.settle_succeeds (hi : Healthy d s) (hcore : d.btsCore ≠ 0)
    (hp : s.requests sn = some p) (hlen : p.details.length ≤ maxBatchSize)
    (hcover : ∀ e ∈ p.details, owed d s e.coinName ≤ held d s e.coinName) :
    ∃ s', settle d s sn code message rs = .ok s' ∧ s'.requests sn = none := by
  obtain ⟨u, hu, -⟩ := hi.recorded sn p hp
  have hsn := hi.balanced.numbered sn (by simp [hp])
  obtain ⟨t, ht⟩ : ∃ t, settleLoop d s sn u code rs p.details.length = .ok t :=
    hi.settleLoop_succeeds hcore hp hu hcover le_rfl
  have hloop := settleLoop_effect hp hsn.2 le_rfl ht
  -- the request is counted until the loop has ended
  have hcount : 1 ≤ t.numOfPendingRequests := by
    have hpt : t.requests sn = some p := (hloop.kept sn hsn.2).trans hp
    have hlive : sn ∈ live t.serialNo t.requests :=
      mem_live.2 ⟨hsn.2.trans hloop.serial, by simp [hpt]⟩
    have hcard := Finset.card_pos.2 ⟨sn, hlive⟩
    have heq := hloop.count
    have hold := hi.balanced.count
    omega
  rw [settle, hp]
  dsimp only
  rw [show parseAddress p.sender = .ok u from hu, ok_bind, decide_eq_true hlen, require_true, ok_bind,
    ht, ok_bind, sub_succeeds hcount, ok_bind]
  exact ⟨_, rfl, by simp⟩

theorem addCoin_coded (hs : Coded s) (hcode : coin.coinType = .nativeWrapped →
    s.code coin.addr = some .tradable) : Coded (addCoin s name coin) := by
  rintro c ⟨hty, hn⟩
  simp only [addCoin, update_apply] at hty ⊢
  split at hty
  · next heq =>
    rw [if_pos heq]
    exact hcode hty
  · next hne =>
    rw [if_neg hne]
    exact hs c ⟨hty, hn⟩

theorem deployTradable_coded (hs : Coded s) (h : deployTradable s deployed decimals = .ok s') :
    Coded s' ∧ s'.code deployed = some .tradable := by
  simp only [deployTradable, bind_ok, pure_ok] at h
  obtain ⟨_, -, _, -, rfl⟩ := h
  refine ⟨fun c hw => ?_, by simp⟩
  simp only [update_apply]
  split
  · rfl
  · exact hs c hw

theorem step_coded (hn : Numbered s.serialNo s.requests) (hs : Coded s)
    (h : step d s tx = .ok s') : Coded s' := by
  by_cases hr : tx.Registers
  · cases tx with
    | register sender name decimals feeNumerator fixedFee addr deployed =>
      simp only [step, register, bind_ok] at h
      obtain ⟨_, -, _, -, _, -, _, -, _, -, h⟩ := h
      split at h
      · simp only [bind_ok, pure_ok] at h
        obtain ⟨t, ht, rfl⟩ := h
        obtain ⟨hcoded, hcode⟩ := deployTradable_coded hs ht
        exact addCoin_coded hcoded fun _ => hcode
      · simp only [pure_ok] at h
        subst h
        exact addCoin_coded hs (by simp)
    | setFeeRatio sender name feeNumerator fixedFee =>
      simp only [step, setFeeRatio, bind_ok, pure_ok] at h
      obtain ⟨_, -, _, -, _, -, _, -, rfl⟩ := h
      rintro c ⟨hty, hne⟩
      refine hs c ⟨?_, hne⟩
      by_cases hc : c = name
      · subst hc
        simpa using hty
      · simpa [hc] using hty
    | updateCoinDb sender =>
      simp only [step, updateCoinDb, bind_ok, pure_ok] at h
      obtain ⟨_, -, rfl⟩ := h
      rintro c ⟨hty, hne⟩
      simp only [update_of_ne hne] at hty ⊢
      exact hs c ⟨hty, hne⟩
    | user | handleBTPMessage | handleBTPError | handleFeeGathering | routes => exact hr.elim
  · rcases step_conserves hn hr h with hc | ⟨_, -, hc⟩
    · exact hs.congr hc.registry
    · exact hs.congr hc.registry

theorem step_words (hw : Words s) (h : step d s tx = .ok s') : Words s' := by
  rcases words_rule.step h with hkeep | ⟨sn, code, -, -, t, ht, -, -, -, hpurse⟩
  · exact hkeep hw
  · exact (ht hw).congr hpurse

theorem step_healthy (hi : Healthy d s) (hk : tx.KeepsApart s) (h : step d s tx = .ok s') :
    Healthy d s' :=
  ⟨step_solvent hi.toSolvent hk h, step_recorded hi.recorded h, step_words hi.words h,
    step_coded hi.balanced.numbered hi.coded h⟩

/-- A chain before the service is deployed: amounts fit a word, and no contract
is one that `BTSCore` has deployed. -/
structure Genesis (native : Ledger) (code : Address → Option Code) (erc20 : Address → Ledger) :
    Prop where
  zero : code 0 = none
  nativeCoin : code nativeCoinAddress = none
  foreign : ∀ a, code a ≠ some .tradable
  native : total native ≤ uint256Max
  erc20 : ∀ t, total (erc20 t) ≤ uint256Max

theorem initialState_healthy (hg : Genesis native code erc20) :
    Healthy d (initialState name fn ff native code erc20) := by
  refine ⟨initialState_solvent hg.zero hg.nativeCoin, nofun,
    ⟨hg.native, hg.erc20, fun t ht => absurd ht (hg.foreign t)⟩, ?_⟩
  rintro c ⟨hty, hne⟩
  have hname : c ≠ name := hne
  simp [initialState, hname] at hty

/-- Every answer to a request, and every BTP error for it, settles it. -/
def Settleable (d : Deployment) (s : St) (sn : Nat) : Prop :=
  ∀ rs,
    (∀ src code message, code = rcOk ∨ code = rcErr →
      ∃ s', step d s (.handleBTPMessage d.bmc src serviceName sn (some
          { serviceType := .responseHandleService, data := .response { code, message } }) rs) = .ok s' ∧
        s'.requests sn = none) ∧
    ∀ code message,
      ∃ s', step d s (.handleBTPError d.bmc serviceName sn code message rs) = .ok s' ∧
        s'.requests sn = none

theorem Healthy.settleable (hi : Healthy d s) (hcore : d.btsCore ≠ 0) (hp : s.requests sn = some p)
    (hlen : p.details.length ≤ maxBatchSize)
    (hcover : ∀ e ∈ p.details, ¬Wrapped s e.coinName → owed d s e.coinName ≤ held d s e.coinName) :
    Settleable d s sn := by
  have hheld : ∀ e ∈ p.details, owed d s e.coinName ≤ held d s e.coinName := by
    intro e he
    by_cases hw : Wrapped s e.coinName
    · exact hi.wrapped e.coinName hw
    · exact hcover e he hw
  refine fun rs => ⟨fun src code message hcode => ?_, fun code message => ?_⟩
  · obtain ⟨s', hs', hnone⟩ : ∃ s', settle d s sn code message rs = .ok s' ∧ s'.requests sn = none :=
      hi.settle_succeeds hcore hp hlen hheld
    have hword : code ≤ uint256Max := by
      rcases hcode with rfl | rfl <;> decide
    refine ⟨s', ?_, hnone⟩
    simp only [step, handleBTPMessage, decodeServiceMessage, decodeResponse, hp, decide_true,
      require_true, ok_bind, Option.isSome_some, decide_eq_true hword]
    exact hs'
  · obtain ⟨s', hs', hnone⟩ : ∃ s', settle d s sn rcErr
        ("errCode: " ++ ", errMsg: " ++ Nat.repr code ++ message) rs = .ok s' ∧
          s'.requests sn = none := hi.settle_succeeds hcore hp hlen hheld
    refine ⟨s', ?_, hnone⟩
    simp only [step, handleBTPError, hp, decide_true, require_true, ok_bind, Option.isSome_some]
    exact hs'

theorem not_settleable (hp : s.requests sn = some p) (hlen : maxBatchSize < p.details.length) :
    ¬Settleable d s sn := by
  intro h
  obtain ⟨s', hs', -⟩ := (h []).2 0 ""
  simp only [step, handleBTPError, bind_ok] at hs'
  obtain ⟨_, -, _, -, _, -, hs'⟩ := hs'
  obtain ⟨q, _, _, hq, -, hsize, -⟩ := settle_ok hs'
  obtain rfl := Option.some.inj (hp.symm.trans hq)
  omega

def coinOf (i : Nat) : String := "T" ++ Nat.repr i
def tokenOf (i : Nat) : Address := BitVec.ofNat 160 (100 + i)

def manyTokens : St :=
  initialState "ETH" 100 0 sampleAccounts
    (fun a => if 100 ≤ a ∧ a < 115 then some .foreign else none) fun _ => sampleAccounts

def answerOk (sn : Nat) : Tx :=
  .handleBTPMessage sample.bmc "0x1.icon" serviceName sn (some
    { serviceType := .responseHandleService, data := .response { code := rcOk, message := "" } }) []

/-- A batch of all tokens and a transfer of the native coin are carried out;
then the fees are gathered. -/
def gatherMany : List Tx :=
  .routes (fun _ => true) ::
  (List.range 15).map (fun i => .register 4 (coinOf i) 18 0 1 (tokenOf i) 0) ++
  (List.range 15).map (fun i => .user 3 (.approve (tokenOf i) 10)) ++
  [.user 3 (.transferBatch ((List.range 15).map coinOf) (List.replicate 15 10) "btp://0x1.icon/hx12" 0),
   answerOk 1,
   .user 3 (.transferNativeCoin "btp://0x1.icon/hx12" 100),
   answerOk 2,
   .handleFeeGathering sample.bmc "btp://0x1.icon/hx12" serviceName]

def manyGathered : St := run (step sample) manyTokens gatherMany

theorem manyGathered_pending : (manyGathered.requests 3).map (·.details.length) = some 16 := by
  decide +kernel

end IconBridge.Solidity.BTS
