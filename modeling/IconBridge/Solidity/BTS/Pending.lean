import IconBridge.Solidity.BTS.Settlement

/-!
# Pending requests account for every lock

Whatever users, owners and the message center do, and however receivers of
payments call back, the locked balances are what the recorded requests add up
to. In the middle of a settlement the locked balance of the requester still
covers the entries that are left.
-/

namespace IconBridge.Solidity.BTS

open Lib List

variable {d : Deployment}

structure Balanced (d : Deployment) (s : St) : Prop where
  numbered : Numbered s.serialNo s.requests
  count : s.numOfPendingRequests = (live s.serialNo s.requests).card
  locked : ∀ u c, u ≠ d.btsCore → (s.balances u c).lockedBalance = pendingLocked s u c

theorem initialState_balanced : Balanced d (initialState name fn ff native code erc20) where
  numbered _ h := by simp [initialState] at h
  count := by simp [initialState, live]
  locked _ _ _ := (weight_empty _).symm

theorem Conserves.balanced (hb : Balanced d s) (hc : Conserves d h s s') : Balanced d s' where
  numbered := hc.numbered
  count := by
    have := hc.count
    have := hb.count
    omega
  locked u c hu := by
    have hg := hc.gap u c hu
    have hl := hb.locked u c hu
    simp only [BTS.gap] at hg
    omega

theorem step_balanced (hb : Balanced d s) (h : step d s tx = .ok s') : Balanced d s' := by
  by_cases hr : tx.Registers
  · obtain ⟨hreq, hser, hnum, hbal, -, -⟩ := step_registers hr h
    exact ⟨by rw [hser, hreq]; exact hb.numbered, by rw [hnum, hser, hreq]; exact hb.count,
      fun u c hu => by
        rw [pendingLocked, hbal, hser, hreq]
        exact hb.locked u c hu⟩
  · rcases step_conserves hb.numbered hr h with hc | ⟨_, -, hc⟩
    · exact hc.balanced hb
    · exact hc.balanced hb

theorem run_balanced (hb : Balanced d s) : Balanced d (run (step d) s txs) :=
  run_induct (fun _ _ _ => step_balanced) hb

theorem sum_take_le {xs : List α} (g : α → Nat) (hn : xs[n]? = some x) :
    ((xs.take n).map g).sum + g x ≤ (xs.map g).sum := by
  obtain ⟨hlt, rfl⟩ := List.getElem?_eq_some_iff.1 hn
  have hsplit : xs = xs.take n ++ (xs[n] :: xs.drop (n + 1)) := by
    rw [cons_getElem_drop_succ, take_append_drop]
  have := congrArg (fun l => (l.map g).sum) hsplit
  simp only [map_append, map_cons, sum_append, sum_cons] at this
  omega

theorem amountOf_take_le (hn : es[n]? = some e) :
    amountOf e.coinName (es.take n) + (e.value + e.fee) ≤ amountOf e.coinName es := by
  simpa [amountOf] using
    sum_take_le (fun x => if x.coinName = e.coinName then x.value + x.fee else 0) hn

/-- After any number of rounds the requester still has locked what the next
entry unlocks: the request is pending until the loop has ended. -/
theorem Balanced.covers (hb : Balanced d s) (hp : s.requests sn = some p) (hu : p.IsFrom u)
    (hcore : u ≠ d.btsCore) (h : settleLoop d s sn u code rs n = .ok s')
    (hn : p.details[n]? = some e) :
    e.value + e.fee ≤ (s'.balances u e.coinName).lockedBalance := by
  have hsn := hb.numbered sn (by simp [hp])
  have hlen : n < p.details.length := (List.getElem?_eq_some_iff.1 hn).1
  have hloop := settleLoop_effect hp hsn.2 hlen.le h
  have hgap := hloop.gap u e.coinName hcore
  have hpending : amountOf e.coinName p.details ≤ pendingLocked s' u e.coinName := by
    have hp' : s'.requests sn = some p := (hloop.kept sn hsn.2).trans hp
    exact (if_pos hu).ge.trans (le_weight
      (fun p => if p.IsFrom u then amountOf e.coinName p.details else 0)
      (mem_live.2 ⟨hsn.2.trans hloop.serial, by simp [hp']⟩) hp')
  have hrest := amountOf_take_le hn
  have hlocked := hb.locked u e.coinName hcore
  simp only [gap, if_true] at hgap
  omega

/-- In every state between transactions the counter is the number of recorded
requests, their serial numbers were given out, and every user has locked
exactly what the requests from it carry, fees included. So no settlement
unlocks more than is locked. -/
theorem pending_requests_account_for_locks (d : Deployment) (name : String) (feeNumerator fixedFee : Nat)
    (native : Ledger) (code : Address → Option Code) (erc20 : Address → Ledger) (txs : List Tx) :
    let s := run (step d) (initialState name feeNumerator fixedFee native code erc20) txs
    s.numOfPendingRequests = Set.ncard {n | (s.requests n).isSome} ∧
    (∀ n, (s.requests n).isSome → 1 ≤ n ∧ n ≤ s.serialNo) ∧
    (∀ u c, u ≠ d.btsCore → (s.balances u c).lockedBalance =
      ∑ n ∈ Finset.Icc 1 s.serialNo, (s.requests n).elim 0 fun p =>
        if p.IsFrom u then amountOf c p.details else 0) ∧
    ∀ sn p u code rs n e s', s.requests sn = some p → p.IsFrom u → u ≠ d.btsCore →
      settleLoop d s sn u code rs n = .ok s' → p.details[n]? = some e →
      e.value + e.fee ≤ (s'.balances u e.coinName).lockedBalance := by
  intro s
  have hb : Balanced d s := run_balanced initialState_balanced
  refine ⟨hb.count.trans hb.numbered.ncard.symm, hb.numbered, fun u c hu => ?_,
    fun _ _ _ _ _ _ _ _ hp hu hcore h hn => hb.covers hp hu hcore h hn⟩
  rw [hb.locked u c hu]
  exact hb.numbered.weight_eq _

def sample : Deployment where
  btsCore := 1
  bmc := 2
  isOwner := fun a => a = 4
  caps := fun _ _ => false

def sampleAccounts : Ledger := fun a => if a = 3 then 1000 else 0

/-- The receiver of the refund of request 1 starts request 2 with a part of it. -/
def refundThenTransfer : List Tx :=
  [.routes fun _ => true,
   .user 3 (.transferNativeCoin "btp://0x1.icon/hx12" 100),
   .handleBTPMessage 2 "0x1.icon" serviceName 1
     (some { serviceType := .responseHandleService, data := .response { code := 1, message := "" } })
     [.call 3 (.transferNativeCoin "btp://0x1.icon/hx12" 50) .accept]]

theorem refundThenTransfer_locks :
    let s := run (step sample)
      (initialState "ETH" 100 0 sampleAccounts (fun _ => none) fun _ _ => 0) refundThenTransfer
    (s.balances 3 "ETH").lockedBalance = 50 ∧ Set.ncard {n | (s.requests n).isSome} = 1 := by
  have hcount := (pending_requests_account_for_locks sample "ETH" 100 0 sampleAccounts
    (fun _ => none) (fun _ _ => 0) refundThenTransfer).1
  refine ⟨by decide +kernel, hcount.symm.trans ?_⟩
  decide +kernel

end IconBridge.Solidity.BTS
