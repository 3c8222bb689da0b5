import Mathlib.Data.Int.ConditionallyCompleteOrder
import Mathlib.Data.Int.Interval
import IconBridge.Lib.Table
import IconBridge.Java.BTS.Requests
import IconBridge.Java.BTS.Solvency

/-!
# What becomes of fees

The fees of a request are charged when the request is settled, whether it was
carried out or not. Gathering takes the fees out and pays them, or files a
request of the service itself. When such a request fails, `refund` pays the
service its own coins and puts only the fixed fee back.
-/

namespace IconBridge.Java.BTS

open Lib

variable {d : Deployment} {s s' : St}

structure Numbered (s : St) : Prop where
  nonneg : 0 ≤ s.sn
  range : ∀ n, (s.transactions n).isSome → 1 ≤ n ∧ n ≤ s.sn

theorem Files.numbered (hn : Numbered s) (h : Files owner target details s s') : Numbered s' := by
  obtain ⟨hnonneg, hrange⟩ := hn
  refine ⟨by rw [h.sn]; omega, fun n hsome => ?_⟩
  rw [h.transactions] at hsome
  rw [h.sn]
  by_cases heq : n = s.sn + 1
  · omega
  · rw [Function.update_of_ne heq] at hsome
    have := hrange n hsome
    omega

theorem Deed.numbered (hn : Numbered s) (h : Deed d s tx s') : Numbered s' := by
  cases h with
  | quiet _ _ h =>
    refine ⟨hn.nonneg.trans h.sn, fun n hsome => ?_⟩
    rw [h.transactions] at hsome
    exact (hn.range n hsome).imp_right fun hle => hle.trans h.sn
  | files _ _ _ _ h => exact h.numbered hn
  | settles sn _ _ _ h =>
    refine ⟨h.sn ▸ hn.nonneg, fun n hsome => ?_⟩
    rw [h.transactions] at hsome
    rw [h.sn]
    by_cases heq : n = sn
    · simp [heq] at hsome
    · rw [Function.update_of_ne heq] at hsome
      exact hn.range n hsome
  | paysFees _ _ _ _ _ _ hdesk =>
    obtain ⟨h1, h2, -⟩ := hdesk
    exact ⟨h2 ▸ hn.nonneg, by rw [h1, h2]; exact hn.range⟩
  | sendsFees _ _ _ _ _ _ h => exact h.numbered hn

def gathered (d : Deployment) (c : String) (t : TransferTransaction) : ℤ :=
  if t.sender = d.bts then amountOf (t.assets.map AssetTransferDetail.whole) c else 0

noncomputable def pendingFees (d : Deployment) (s : St) (c : String) : ℤ :=
  sumOver (gathered d c) (Finset.Icc 1 s.sn) s.transactions

theorem Files.pendingFees_eq (hn : Numbered s) (h : Files owner target details s s') :
    pendingFees d s' c = pendingFees d s c +
      if owner = d.bts then amountOf (details.map AssetTransferDetail.whole) c else 0 := by
  have hkeys : Finset.Icc 1 (s.sn + 1) = insert (s.sn + 1) (Finset.Icc 1 s.sn) := by
    ext n
    have := hn.nonneg
    simp only [Finset.mem_insert, Finset.mem_Icc]
    omega
  rw [pendingFees, h.sn, h.transactions, hkeys, sumOver_insert _ (by simp)]
  rfl

theorem Settles.pendingFees_add (hn : Numbered s) (h : Settles n t s s') :
    pendingFees d s' c + gathered d c t = pendingFees d s c := by
  have hkey : n ∈ Finset.Icc 1 s.sn := Finset.mem_Icc.2 (hn.range n (by simp [h.pending]))
  calc pendingFees d s' c + gathered d c t
    _ = sumOver (gathered d c) (Finset.Icc 1 s.sn) (Function.update s.transactions n none) +
        (s.transactions n).elim 0 (gathered d c) := by
      rw [pendingFees, h.sn, h.transactions, h.pending, Option.elim_some]
    _ = pendingFees d s c := sumOver_remove _ hkey

theorem Quiet.pendingFees_eq (hn : Numbered s) (h : Quiet s s') :
    pendingFees d s' c = pendingFees d s c := by
  rw [pendingFees, h.transactions]
  refine sumOver_subset _ (Finset.Icc_subset_Icc_right h.sn) fun n _ hnot => ?_
  rw [← Option.not_isSome_iff_eq_none]
  exact fun hsome => hnot (Finset.mem_Icc.2 (hn.range n hsome))

/-- The fees that a transaction charges: those of the user's request it settles. -/
def chargedBy (d : Deployment) (c : String) (s : St) (tx : Tx) : ℤ :=
  match settledBy s tx with
  | some (t, _) => if t.sender = d.bts then 0 else feesOf t.assets c
  | none => 0

def transferred (assets : List AssetTransferDetail) : String → ℤ :=
  amountOf (assets.map fun a => (a.coinName, a.amount))

/-- The fees that an aggregator gets: by a gathering that was carried out there,
or from a payment here. -/
def paidBy (d : Deployment) (c : String) (s : St) (tx : Tx) : ℤ :=
  match settledBy s tx, tx.aggregator with
  | some (t, code), _ => if t.sender = d.bts ∧ code = rcOk then transferred t.assets c else 0
  | none, some fa =>
    match d.valueOf fa with
    | .ok target => if target.net = d.net then amountOf (clearFees d s).2 c else 0
    | .error _ => 0
  | none, none => 0

/-- The service sends no transactions, and no gathering fails. -/
def Tx.FeesArrive (d : Deployment) (s : St) (tx : Tx) : Prop :=
  tx.requester ≠ some d.bts ∧
    ∀ t code, settledBy s tx = some (t, code) → t.sender = d.bts → code = rcOk

theorem amountOf_whole (assets : List AssetTransferDetail) (c : String) :
    amountOf (assets.map AssetTransferDetail.whole) c = transferred assets c + feesOf assets c := by
  induction assets with
  | nil => rfl
  | cons a assets ih =>
    simp only [transferred, feesOf, AssetTransferDetail.whole, List.map_cons, amountOf_cons, on] at ih ⊢
    rw [ih]
    split <;> omega

theorem clearFees_conserves (hs : Registry d s) :
    (clearFees d s).1.feeBalances c + amountOf (clearFees d s).2 c = s.feeBalances c := by
  simp only [clearFees, amountOf_fees hs.nodup]
  split <;> omega

theorem chargedBy_of_response (hresponse : tx.response = some (sn, code))
    (ht : s.transactions sn = some t) :
    chargedBy d c s tx = if t.sender = d.bts then 0 else feesOf t.assets c := by
  simp [chargedBy, settledBy, hresponse, ht]

theorem paidBy_of_response (hresponse : tx.response = some (sn, code))
    (ht : s.transactions sn = some t) : paidBy d c s tx =
      if t.sender = d.bts ∧ code = rcOk then transferred t.assets c else 0 := by
  simp [paidBy, settledBy, hresponse, ht]

theorem settledBy_of_requester {tx : Tx} (h : tx.requester = some owner) :
    settledBy s tx = none ∧ tx.aggregator = none := by
  cases tx <;> simp_all [Tx.requester, settledBy, Tx.response, Tx.aggregator]

theorem settledBy_of_aggregator {tx : Tx} (h : tx.aggregator = some fa) : settledBy s tx = none := by
  cases tx <;> simp_all [settledBy, Tx.response, Tx.aggregator]

theorem step_fees (hs : Registry d s) (hn : Numbered s) (harrive : tx.FeesArrive d s)
    (h : step d s tx = .ok s') :
    s'.feeBalances c + pendingFees d s' c + paidBy d c s tx =
      s.feeBalances c + pendingFees d s c + chargedBy d c s tx := by
  cases step_deed h with
  | quiet hnone hgather h =>
    simp [chargedBy, paidBy, hnone, hgather, h.fees, h.pendingFees_eq hn]
  | files owner target details howner h hfees =>
    obtain ⟨hnone, hgather⟩ := settledBy_of_requester (s := s) howner
    have hne : owner ≠ d.bts := fun heq => harrive.1 (heq ▸ howner)
    simp [chargedBy, paidBy, hnone, hgather, hfees, h.pendingFees_eq hn, hne]
  | settles sn code t htx h =>
    have hpending := h.pendingFees_add (d := d) (c := c) hn
    have hwhole := amountOf_whole t.assets c
    rw [chargedBy_of_response htx h.pending, paidBy_of_response htx h.pending, h.fees]
    rw [gathered] at hpending
    by_cases hself : t.sender = d.bts
    · have hok := harrive.2 t code (by simp [settledBy, htx, h.pending]) hself
      simp only [hself, hok, and_self, if_true] at hpending ⊢
      omega
    · simp only [hself, false_and, if_false] at hpending ⊢
      omega
  | paysFees fa target htx htarget hhere hfees hdesk =>
    have hnone := settledBy_of_aggregator (s := s) htx
    have hclear := clearFees_conserves (c := c) hs
    have hpaid : paidBy d c s tx = amountOf (clearFees d s).2 c := by
      simp only [paidBy, hnone, htx, htarget]
      split
      · rfl
      · next hnet => simp [hhere.resolve_left hnet]
    have hpending : pendingFees d s' c = pendingFees d s c := by
      rw [pendingFees, hdesk.1, hdesk.2.1, pendingFees]
    rw [hfees, hpaid, hpending]
    simp only [chargedBy, hnone]
    omega
  | sendsFees fa target details htx htarget hthere h hfees hwhole =>
    have hnone := settledBy_of_aggregator (s := s) htx
    have hclear := clearFees_conserves (c := c) hs
    have hpaid : paidBy d c s tx = 0 := by
      simp [paidBy, hnone, htx, htarget, hthere]
    rw [hfees, hpaid, h.pendingFees_eq hn, if_pos rfl, hwhole]
    simp only [chargedBy, hnone]
    omega

/-- In every run in which the service's own requests are carried out, the fees
at hand and on their way are those charged and not yet paid to an aggregator. -/
theorem fees_conserved (d : Deployment) (feeNumerator fixedFee : ℤ) (icx : Address → ℤ)
    (code : Address → Option Code) (irc2 : Address → IRC2) (txs : List Tx)
    (hcode : ∀ a, code a ≠ some .tradeable)
    (harrive : Along (step d) (fun s tx => tx.Fresh s ∧ tx.FeesArrive d s)
      (initialState d feeNumerator fixedFee icx code irc2) txs) (c : String) :
    let s := run (step d) (initialState d feeNumerator fixedFee icx code irc2) txs
    s.feeBalances c + pendingFees d s c =
      tally (step d) (chargedBy d c) (initialState d feeNumerator fixedFee icx code irc2) txs -
        tally (step d) (paidBy d c) (initialState d feeNumerator fixedFee icx code irc2) txs := by
  intro s
  have hstart : pendingFees d (initialState d feeNumerator fixedFee icx code irc2) c = 0 :=
    sumOver_empty _
  have htally := tally_along (μ := fun s => s.feeBalances c + pendingFees d s c)
    (P := fun s => Sound d s ∧ Numbered s) (f := chargedBy d c) (g := paidBy d c)
    (fun s tx s' ⟨hs, hn⟩ ⟨hfresh, harrive⟩ h =>
      ⟨⟨step_sound hs hfresh h, (step_deed h).numbered hn⟩, step_fees hs.toRegistry hn harrive h⟩)
    ⟨(initialState_solvent hcode).toSound, le_rfl, nofun⟩ harrive
  have hzero : (initialState d feeNumerator fixedFee icx code irc2).feeBalances c = 0 := rfl
  rw [hstart, hzero, zero_add, zero_add] at htally
  exact eq_sub_of_add_eq htally

/-- A fee of one percent on ICX, and a user with ICX to transfer. -/
def feeState : St :=
  initialState sample 100 0 (fun a => if a = holder then 10000 else 0) (fun _ => none) fun _ => {}

def respond (sn code : ℤ) : Tx :=
  .handleBTPMessage noReceivers sample.bmc "0x38.bsc" "bts" sn
    (some { serviceType := .responseHandleService, data := .response { code, message := none } })

/-- A transfer is carried out, its fee is gathered and the gathering answered. -/
def gatherOnce (code : ℤ) : List Tx :=
  [.network [] fun _ => true, .transferNativeCoin holder 10000 "btp://0x38.bsc/0x05", respond 1 rcOk,
   .handleFeeGathering noReceivers sample.bmc "btp://0x38.bsc/0x05", respond 2 code]

theorem gatherOnce_conserved :
    let s := run (step sample) feeState (gatherOnce rcOk)
    s.feeBalances "ICX" + pendingFees sample s "ICX" = 0 ∧
      tally (step sample) (chargedBy sample "ICX") feeState (gatherOnce rcOk) = 100 ∧
      tally (step sample) (paidBy sample "ICX") feeState (gatherOnce rcOk) = 100 := by
  have hcharged : tally (step sample) (chargedBy sample "ICX") feeState (gatherOnce rcOk) = 100 := by
    decide +kernel
  have hpaid : tally (step sample) (paidBy sample "ICX") feeState (gatherOnce rcOk) = 100 := by
    decide +kernel
  refine ⟨?_, hcharged, hpaid⟩
  refine (fees_conserved sample 100 0 (fun a => if a = holder then 10000 else 0) (fun _ => none)
    (fun _ => {}) (gatherOnce rcOk) nofun ⟨⟨trivial, nofun, nofun⟩, ⟨trivial, by decide, nofun⟩,
      ⟨trivial, nofun, ?_⟩, ⟨trivial, nofun, nofun⟩, ⟨trivial, nofun, ?_⟩, trivial⟩ "ICX").trans ?_
  · intro t code hsettled _
    cases hsettled
    rfl
  · intro t code hsettled _
    cases hsettled
    rfl
  · exact hcharged ▸ hpaid ▸ rfl

/-- The fees of a gathering that is answered with an error are gone. -/
theorem failed_gathering_loses_fees :
    let s := run (step sample) feeState (gatherOnce rcErr)
    s.feeBalances "ICX" + pendingFees sample s "ICX" = 0 ∧
      tally (step sample) (chargedBy sample "ICX") feeState (gatherOnce rcErr) = 100 ∧
      tally (step sample) (paidBy sample "ICX") feeState (gatherOnce rcErr) = 0 := by
  decide +kernel

end IconBridge.Java.BTS
