import IconBridge.Solidity.BTS.Pending

/-!
# Batches

`transfer` and `transferBatch` charge, lock and file a request in the same way,
but their guards differ: one asks for more than the fee, the other one for more
than nothing. The limit of a coin is compared with each entry of a batch.
-/

namespace IconBridge.Solidity.BTS

open Lib List

variable {d : Deployment} {s s' : St}

def feeOf (s : St) (c : String) (v : ℕ) : ℕ :=
  v * (s.coinDetails c).feeNumerator / feeDenominator + (s.coinDetails c).fixedFee

theorem chargeAmt_ok : chargeAmt s c v = .ok charge ↔
    v * (s.coinDetails c).feeNumerator ≤ uint256Max ∧ feeOf s c v ≤ uint256Max ∧
      charge = feeOf s c v := by
  simp only [chargeAmt, bind_ok, mul_ok, add_ok, feeOf]
  constructor
  · rintro ⟨_, ⟨hproduct, rfl⟩, hsum, rfl⟩
    exact ⟨hproduct, hsum, rfl⟩
  · rintro ⟨hproduct, hsum, rfl⟩
    exact ⟨_, ⟨hproduct, rfl⟩, hsum, rfl⟩

theorem move_zero (f : Ledger) (a b : Address) : move f a b 0 = f := by
  simp [move]

theorem tokenTransfer_ok_iff : tokenTransfer s token u receiver v = .ok s' ↔
    (∃ code, s.code token = some code ∧ ¬(code = .tradable ∧ receiver = 0)) ∧ v ≤ s.erc20 token u ∧
      s' = setHolders s token (move (s.erc20 token) u receiver v) := by
  unfold tokenTransfer
  split
  · next hcode => simp [hcode]
  · next code hcode =>
    simp only [bind_ok, require_ok, pure_ok, Bool.not_eq_true', Bool.and_eq_false_iff,
      decide_eq_false_iff_not, decide_eq_true_eq, hcode, Option.some.injEq, exists_eq_left',
      not_and_or, exists_const]
    constructor
    · rintro ⟨hreceiver, hv, rfl⟩
      exact ⟨hreceiver, hv, rfl⟩
    · rintro ⟨hreceiver, hv, rfl⟩
      exact ⟨hreceiver, hv, rfl⟩

def drawn (d : Deployment) (s : St) (token u : Address) (v : ℕ) : St :=
  let approved := s.allowance token u
  let left := if approved = uint256Max then approved else approved - v
  setHolders { s with
    allowance := Function.update s.allowance token (Function.update (s.allowance token) u left) }
    token (move (s.erc20 token) u d.btsCore v)

theorem tokenTransferFrom_ok_iff : tokenTransferFrom d s token u v = .ok s' ↔
    (s.allowance token u = uint256Max ∨ v ≤ s.allowance token u) ∧
    (∃ code, s.code token = some code ∧ ¬(code = .tradable ∧ d.btsCore = 0)) ∧
    v ≤ s.erc20 token u ∧ s' = drawn d s token u v := by
  simp only [tokenTransferFrom, bind_ok, require_ok, tokenTransfer_ok_iff, Bool.or_eq_true,
    decide_eq_true_eq]
  constructor
  · rintro ⟨_, -, _, happroved, hcode, hbalance, rfl⟩
    exact ⟨happroved, hcode, hbalance, rfl⟩
  · rintro ⟨happroved, hcode, hbalance, rfl⟩
    have hsome : (s.code token).isSome := by
      obtain ⟨code, hcode, -⟩ := hcode
      rw [hcode]
      rfl
    exact ⟨(), hsome, (), happroved, hcode, hbalance, rfl⟩

theorem tokenTransferFrom_coinDetails (h : tokenTransferFrom d s token u v = .ok s') :
    s'.coinDetails = s.coinDetails := by
  obtain ⟨-, -, -, rfl⟩ := tokenTransferFrom_ok_iff.1 h
  rfl

/-- What both paths do, apart from their guards on the value. -/
def lodge (d : Deployment) (s : St) (u : Address) (c : String) (v : ℕ) (target : String) :
    Outcome St := do
  checkTransferRestrictions s c u v
  let charge ← chargeAmt s c v
  let s ← tokenTransferFrom d s (s.coins c) u v
  let s ← lockBalance s u c v
  sendServiceMessage d s u target [{ coinName := c, value := v - charge, fee := charge }]

theorem transfer_ok_iff (hcoin : s.coins c ≠ 0) (hnative : c ≠ s.nativeCoinName) :
    transfer d s u c v target = .ok s' ↔ feeOf s c v < v ∧ lodge d s u c v target = .ok s' := by
  simp only [transfer, sendSingle, lodge, hcoin, hnative, ne_eq, not_false_eq_true, decide_true,
    require_true, ok_bind, bind_ok, require_ok, decide_eq_true_eq, chargeAmt_ok]
  constructor
  · rintro ⟨_, hlimit, charge, ⟨hproduct, hsum, rfl⟩, t, ht, _, hlt, t', ht', h⟩
    exact ⟨hlt, _, hlimit, _, ⟨hproduct, hsum, rfl⟩, t, ht, t', ht', h⟩
  · rintro ⟨hlt, _, hlimit, charge, ⟨hproduct, hsum, rfl⟩, t, ht, t', ht', h⟩
    exact ⟨_, hlimit, _, ⟨hproduct, hsum, rfl⟩, t, ht, (), hlt, t', ht', h⟩

theorem transferBatch_singleton (d : Deployment) (s : St) (u : Address) (c : String) (v : ℕ)
    (target : String) : transferBatch d s u [c] [v] target 0 = (do
      let (s, e) ← batchRound d s u c v
      sendServiceMessage d s u target [e]) := by
  simp [transferBatch, deposit, move_zero, batchLoop, batchNative, maxBatchSize]

theorem transferBatch_ok_iff (hcoin : s.coins c ≠ 0) :
    transferBatch d s u [c] [v] target 0 = .ok s' ↔
      0 < v ∧ feeOf s c v ≤ v ∧ lodge d s u c v target = .ok s' := by
  rw [transferBatch_singleton]
  simp only [batchRound, lodge, hcoin, ne_eq, not_false_eq_true, decide_true, require_true, ok_bind,
    bind_ok, require_ok, decide_eq_true_eq, chargeAmt_ok, pure_ok, sub_ok]
  constructor
  · rintro ⟨_, ⟨_, hpos, _, hlimit, t, ht, charge, ⟨hproduct, hsum, rfl⟩, _, ⟨hle, rfl⟩, t', ht',
      rfl⟩, h⟩
    rw [feeOf, tokenTransferFrom_coinDetails ht] at hsum hle h
    rw [tokenTransferFrom_coinDetails ht] at hproduct
    exact ⟨hpos, hle, _, hlimit, _, ⟨hproduct, hsum, rfl⟩, t, ht, t', ht', h⟩
  · rintro ⟨hpos, hle, _, hlimit, charge, ⟨hproduct, hsum, rfl⟩, t, ht, t', ht', h⟩
    have hdetails := tokenTransferFrom_coinDetails ht
    refine ⟨_, ⟨(), hpos, _, hlimit, t, ht, _, ⟨?_, ?_, rfl⟩, _, ⟨?_, rfl⟩, t', ht', rfl⟩, ?_⟩
    · rwa [hdetails]
    · rwa [feeOf, hdetails]
    · rwa [feeOf, hdetails]
    · rwa [feeOf, hdetails]

/-- Every guard but those on the value and the fee accepts the transfer. -/
structure Admits (d : Deployment) (s : St) (u : Address) (c : String) (v : ℕ) (target : String) :
    Prop where
  allowed : s.blacklist u = false
  limit : v ≤ s.tokenLimit c
  product : v * (s.coinDetails c).feeNumerator ≤ uint256Max
  fee : feeOf s c v ≤ uint256Max
  approved : s.allowance (s.coins c) u = uint256Max ∨ v ≤ s.allowance (s.coins c) u
  token : ∃ code, s.code (s.coins c) = some code ∧ ¬(code = .tradable ∧ d.btsCore = 0)
  balance : v ≤ s.erc20 (s.coins c) u
  lock : (s.balances u c).lockedBalance + v ≤ uint256Max
  route : ∃ net account, splitBTPAddress target = .ok (net, account) ∧ s.reachable net = true
  serial : s.serialNo + 1 ≤ uint256Max
  pending : s.numOfPendingRequests + 1 ≤ uint256Max

theorem checkTransferRestrictions_ok :
    checkTransferRestrictions s c u v = .ok x ↔ s.blacklist u = false ∧ v ≤ s.tokenLimit c := by
  simp [checkTransferRestrictions, bind_ok, require_ok]

theorem sendServiceMessage_succeeds : (∃ s', sendServiceMessage d s u target es = .ok s') ↔
    (∃ net account, splitBTPAddress target = .ok (net, account) ∧ s.reachable net = true) ∧
      s.serialNo + 1 ≤ uint256Max ∧ s.numOfPendingRequests + 1 ≤ uint256Max := by
  simp only [sendServiceMessage, sendMessage, bind_ok, require_ok, add_ok, pure_ok]
  constructor
  · rintro ⟨_, ⟨net, account⟩, hsplit, _, ⟨hserial, rfl⟩, _, ⟨_, hroute, rfl⟩, _, ⟨hpending, rfl⟩, rfl⟩
    exact ⟨⟨net, account, hsplit, hroute⟩, hserial, hpending⟩
  · rintro ⟨⟨net, account, hsplit, hroute⟩, hserial, hpending⟩
    exact ⟨_, (net, account), hsplit, _, ⟨hserial, rfl⟩, _, ⟨(), hroute, rfl⟩, _, ⟨hpending, rfl⟩, rfl⟩

theorem lodge_succeeds : (∃ s', lodge d s u c v target = .ok s') ↔ Admits d s u c v target := by
  simp only [lodge, bind_ok, checkTransferRestrictions_ok, chargeAmt_ok, tokenTransferFrom_ok_iff,
    lockBalance, add_ok, pure_ok]
  constructor
  · rintro ⟨s', _, ⟨hallowed, hlimit⟩, _, ⟨hproduct, hfee, rfl⟩, _, ⟨happroved, htoken, hbalance, rfl⟩,
      _, ⟨_, ⟨hlock, rfl⟩, rfl⟩, h⟩
    obtain ⟨hroute, hserial, hpending⟩ := sendServiceMessage_succeeds.1 ⟨s', h⟩
    exact ⟨hallowed, hlimit, hproduct, hfee, happroved, htoken, hbalance, hlock, hroute, hserial,
      hpending⟩
  · intro h
    have hsend : ∃ s', sendServiceMessage d (setBalance (drawn d s (s.coins c) u v) u c
        { s.balances u c with lockedBalance := (s.balances u c).lockedBalance + v }) u target
        [{ coinName := c, value := v - feeOf s c v, fee := feeOf s c v }] = .ok s' :=
      sendServiceMessage_succeeds.2 ⟨h.route, h.serial, h.pending⟩
    obtain ⟨s', hsend⟩ := hsend
    exact ⟨s', (), ⟨h.allowed, h.limit⟩, _, ⟨h.product, h.fee, rfl⟩, _,
      ⟨h.approved, h.token, h.balance, rfl⟩, _, ⟨_, ⟨h.lock, rfl⟩, rfl⟩, hsend⟩

/-- A batch of one token does what the transfer of the token does, if and only if
it is not accepted with a value that is all fee. -/
theorem singleBatch_eq_transfer_iff (d : Deployment) (s : St) (u : Address) (c : String) (v : ℕ)
    (target : String) (hcoin : s.coins c ≠ 0) (hnative : c ≠ s.nativeCoinName) :
    (∀ s', transferBatch d s u [c] [v] target 0 = .ok s' ↔ transfer d s u c v target = .ok s') ↔
      ¬(0 < v ∧ feeOf s c v = v ∧ Admits d s u c v target) := by
  simp only [transferBatch_ok_iff hcoin, transfer_ok_iff hcoin hnative]
  constructor
  · rintro hsame ⟨hpos, hfee, hadmits⟩
    obtain ⟨s', hs'⟩ := lodge_succeeds.2 hadmits
    obtain ⟨hlt, -⟩ := (hsame s').1 ⟨hpos, hfee.le, hs'⟩
    omega
  · intro hnot s'
    constructor
    · rintro ⟨hpos, hle, hs'⟩
      refine ⟨lt_of_le_of_ne hle fun hfee => hnot ⟨hpos, hfee, ?_⟩, hs'⟩
      exact lodge_succeeds.1 ⟨s', hs'⟩
    · rintro ⟨hlt, hs'⟩
      exact ⟨by omega, hlt.le, hs'⟩

def fixedFeeToken : St :=
  run (step sample)
    (initialState "ETH" 100 0 sampleAccounts (fun a => if a = 7 then some .foreign else none)
      fun a => if a = 7 then sampleAccounts else fun _ => 0)
    [.routes fun _ => true,
     .register 4 "TKN" 18 0 10 7 0,
     .user 3 (.approve 7 1000)]

theorem fixedFeeToken_eleven :
    ∃ s', transferBatch sample fixedFeeToken 3 ["TKN"] [11] "btp://0x1.icon/hx12" 0 = .ok s' ∧
      transfer sample fixedFeeToken 3 "TKN" 11 "btp://0x1.icon/hx12" = .ok s' := by
  obtain ⟨s', hs'⟩ : ∃ s', transferBatch sample fixedFeeToken 3 ["TKN"] [11] "btp://0x1.icon/hx12" 0 =
    .ok s' := toBool_ok.1 (by decide +kernel)
  have hfee : feeOf fixedFeeToken "TKN" 11 ≠ 11 := by decide +kernel
  have hsame := (singleBatch_eq_transfer_iff sample fixedFeeToken 3 "TKN" 11 "btp://0x1.icon/hx12"
    (by decide +kernel) (by decide +kernel)).2 fun h => hfee h.2.1
  exact ⟨s', hs', (hsame s').1 hs'⟩

/-- A batch whose value is all fee files a request for nothing, and the fee is
kept when the request is answered; the transfer is refused. -/
theorem feeOnly_batch_accepted :
    (transfer sample fixedFeeToken 3 "TKN" 10 "btp://0x1.icon/hx12").isOk = false ∧
      (transferBatch sample fixedFeeToken 3 ["TKN"] [10] "btp://0x1.icon/hx12" 0).toOption.map
          (fun s => s.requests 1) =
        some (some { sender := toString sample.caps 3, target := "btp://0x1.icon/hx12",
                     details := [{ coinName := "TKN", value := 0, fee := 10 }] }) := by
  decide +kernel

def attachedEntry (s : St) (msgValue : ℕ) : List (String × ℕ) :=
  if msgValue = 0 then [] else [(s.nativeCoinName, msgValue)]

/-- The coins of a batch, the native coin last, and what is taken of them. -/
def batchEntries (s : St) (coinNames : List String) (values : List ℕ) (msgValue : ℕ) :
    List (String × ℕ) :=
  coinNames.zip values ++ attachedEntry s msgValue

def detailOf (s : St) (a : String × ℕ) : AssetTransferDetail :=
  { coinName := a.1, value := a.2 - feeOf s a.1 a.2, fee := feeOf s a.1 a.2 }

def settings (s : St) := (s.tokenLimit, s.coinDetails, s.nativeCoinName, s.sent)

theorem detailOf_congr (h : settings s' = settings s) : detailOf s' = detailOf s := by
  simp only [settings, Prod.mk.injEq] at h
  funext a
  simp only [detailOf, feeOf, h.2.1]

theorem batchRound_detail (h : batchRound d s u c v = .ok (s', e)) :
    v ≤ s.tokenLimit c ∧ e = detailOf s (c, v) ∧ settings s' = settings s := by
  simp only [batchRound, bind_ok, checkTransferRestrictions_ok, tokenTransferFrom_ok_iff,
    chargeAmt_ok, sub_ok, lockBalance, pure_ok, Prod.mk.injEq] at h
  obtain ⟨_, -, _, -, _, ⟨-, hlimit⟩, t, ⟨-, -, -, rfl⟩, _, ⟨-, -, rfl⟩, _, ⟨-, rfl⟩, _,
    ⟨_, -, rfl⟩, rfl, rfl⟩ := h
  exact ⟨hlimit, rfl, rfl⟩

theorem batchLoop_details {entries : List (String × ℕ)}
    (h : batchLoop d u s entries = .ok (s', es)) :
    (∀ a ∈ entries, a.2 ≤ s.tokenLimit a.1) ∧ es = entries.map (detailOf s) ∧
      settings s' = settings s := by
  induction entries generalizing s es with
  | nil =>
    cases h
    exact ⟨by simp, rfl, rfl⟩
  | cons a entries ih =>
    simp only [batchLoop, bind_ok, pure_ok, Prod.exists, Prod.mk.injEq] at h
    obtain ⟨t, e, hround, _, es, hloop, rfl, rfl⟩ := h
    obtain ⟨hlimit, rfl, ht⟩ := batchRound_detail hround
    obtain ⟨hlimits, rfl, hs'⟩ := ih hloop
    have htokenLimit : t.tokenLimit = s.tokenLimit := congrArg (fun x => x.1) ht
    rw [htokenLimit] at hlimits
    rw [detailOf_congr ht]
    exact ⟨forall_mem_cons.2 ⟨hlimit, hlimits⟩, rfl, hs'.trans ht⟩

theorem batchNative_details (h : batchNative s u msgValue = .ok (s', es)) :
    (∀ a ∈ attachedEntry s msgValue, a.2 ≤ s.tokenLimit a.1) ∧
      es = (attachedEntry s msgValue).map (detailOf s) ∧ settings s' = settings s := by
  unfold batchNative at h
  split at h
  · next hzero =>
    cases h
    simp [attachedEntry, hzero]
  · next hzero =>
    simp only [bind_ok, checkTransferRestrictions_ok, chargeAmt_ok, sub_ok, lockBalance, pure_ok,
      Prod.mk.injEq] at h
    obtain ⟨_, ⟨-, hlimit⟩, _, ⟨-, -, rfl⟩, _, ⟨-, rfl⟩, _, ⟨_, -, rfl⟩, rfl, rfl⟩ := h
    rw [attachedEntry, if_neg hzero]
    exact ⟨by simpa using hlimit, rfl, rfl⟩

theorem sendServiceMessage_sent (h : sendServiceMessage d s u target es = .ok s') :
    ∃ m account, s'.sent = s.sent ++ [m] ∧ m.msg.data = .transferCoin {
      sender := toString d.caps u, target := account
      assets := es.map fun e => { coinName := e.coinName, value := e.value } } := by
  simp only [sendServiceMessage, sendMessage, bind_ok, pure_ok] at h
  obtain ⟨_, -, _, -, _, ⟨_, -, rfl⟩, _, -, rfl⟩ := h
  exact ⟨_, _, rfl, rfl⟩

/-- A batch asks for its entries with the fees taken off, and each entry keeps
within the limit of its coin. -/
theorem transferBatch_asks (h : transferBatch d s u coinNames values target msgValue = .ok s') :
    (∀ a ∈ batchEntries s coinNames values msgValue, a.2 ≤ s.tokenLimit a.1) ∧
      ∃ m account, s'.sent = s.sent ++ [m] ∧ m.msg.data = .transferCoin {
        sender := toString d.caps u, target := account
        assets := (batchEntries s coinNames values msgValue).map fun a =>
          { coinName := a.1, value := a.2 - feeOf s a.1 a.2 } } := by
  simp only [transferBatch, deposit, bind_ok, pure_ok, Prod.exists] at h
  obtain ⟨_, ⟨_, -, rfl⟩, _, -, _, -, _, -, t, es, hloop, t', last, hnative, h⟩ := h
  obtain ⟨hlimits, rfl, ht⟩ := batchLoop_details hloop
  obtain ⟨hlimit, rfl, ht'⟩ := batchNative_details hnative
  have hentry : attachedEntry t msgValue = attachedEntry s msgValue := by
    simp only [settings, Prod.mk.injEq] at ht
    simp only [attachedEntry, ht.2.2.1]
  have htokenLimit : t.tokenLimit = s.tokenLimit := congrArg (fun x => x.1) ht
  have hsent : t'.sent = s.sent := congrArg (fun x => x.2.2.2) (ht'.trans ht)
  rw [hentry, htokenLimit] at hlimit
  rw [detailOf_congr ht, hentry, ← map_append] at h
  obtain ⟨m, account, hm, hdata⟩ := sendServiceMessage_sent h
  rw [hsent] at hm
  rw [map_map] at hdata
  exact ⟨forall_mem_append.2 ⟨hlimits, hlimit⟩, m, account, hm, hdata⟩

end IconBridge.Solidity.BTS
