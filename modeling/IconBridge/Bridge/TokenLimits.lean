import Mathlib.Data.Int.ConditionallyCompleteOrder
import IconBridge.Lib.Portions
import IconBridge.Java.BTS.Batch
import IconBridge.Java.BTS.Solvency
import IconBridge.Solidity.BTS.Batch

/-!
# The limit of a coin and what a request asks for

Both services compare the limit of a coin with each entry of a batch. What the
request asks for keeps within the limit as long as no coin is named twice.
-/

namespace IconBridge.Bridge

open Lib List

def iconAsked (request : Java.BTS.TransferRequest) : List (String × ℤ) :=
  request.assets.map fun a => (a.coinName, a.amount)

def evmAsked (request : Solidity.BTS.TransferCoin) : List (String × ℕ) :=
  request.assets.map fun a => (a.coinName, a.value)

def iconCharged (d : Java.BTS.Deployment) (s : Java.BTS.St) (sender : Java.Address)
    (coinNames : List String) (values : List ℤ) (value : ℕ) : List (String × ℤ) :=
  (Java.BTS.batchEntries d coinNames values value).map fun a =>
    (a.1, Java.BTS.leftOf d s sender a)

def evmCharged (s : Solidity.BTS.St) (coinNames : List String) (values : List ℕ) (msgValue : ℕ) :
    List (String × ℕ) :=
  (Solidity.BTS.batchEntries s coinNames values msgValue).map fun a =>
    (a.1, a.2 - Solidity.BTS.feeOf s a.1 a.2)

theorem iconBatch_within_iff {d : Java.BTS.Deployment} {s s' : Java.BTS.St} (hs : Java.BTS.Nonneg s)
    (hrestriction : s.restriction = true)
    (h : Java.BTS.transferBatch d r s sender coinNames values value target = .ok s') :
    ∃ m request, s'.sent = s.sent ++ [m] ∧ m.msg.data = .transferRequest request ∧
      ((∀ c, portion (iconAsked request) c ≤ Java.BTS.getTokenLimit s c) ↔
        RepeatsWithin (Java.BTS.getTokenLimit s) (iconCharged d s sender coinNames values value)) := by
  obtain ⟨hlimits, m, account, hsent, hdata⟩ := Java.BTS.transferBatch_asks hrestriction h
  refine ⟨m, _, hsent, hdata, ?_⟩
  rw [iconAsked, map_map]
  change (∀ c, portion (iconCharged d s sender coinNames values value) c ≤ _) ↔ _
  refine portion_le_iff hs.limits fun e he => ?_
  obtain ⟨a, ha, rfl⟩ := mem_map.1 he
  obtain ⟨hpos, hlimit⟩ := hlimits a ha
  exact (Java.BTS.leftOf_le hs hpos.le).trans hlimit

theorem evmBatch_within_iff {d : Solidity.BTS.Deployment} {s s' : Solidity.BTS.St}
    (h : Solidity.BTS.transferBatch d s u coinNames values target msgValue = .ok s') :
    ∃ m request, s'.sent = s.sent ++ [m] ∧ m.msg.data = .transferCoin request ∧
      ((∀ c, portion (evmAsked request) c ≤ s.tokenLimit c) ↔
        RepeatsWithin s.tokenLimit (evmCharged s coinNames values msgValue)) := by
  obtain ⟨hlimits, m, account, hsent, hdata⟩ := Solidity.BTS.transferBatch_asks h
  refine ⟨m, _, hsent, hdata, ?_⟩
  rw [evmAsked, map_map]
  change (∀ c, portion (evmCharged s coinNames values msgValue) c ≤ _) ↔ _
  refine portion_le_iff (fun _ => Nat.zero_le _) fun e he => ?_
  obtain ⟨a, ha, rfl⟩ := mem_map.1 he
  exact (Nat.sub_le ..).trans (hlimits a ha)

/-- On both chains, an accepted batch asks for no more of any coin than its
limit, if and only if this is so for the coins that the batch names more than
once. -/
theorem batch_within_limits_iff (coinNames : List String) (target : String) :
    (∀ (d : Java.BTS.Deployment) (feeNumerator fixedFee : ℤ) (icx : Java.Address → ℤ)
        (code : Java.Address → Option Java.BTS.Code) (irc2 : Java.Address → Java.IRC2)
        (txs : List Java.BTS.Tx) (r : Java.BTS.Receivers) (sender : Java.Address)
        (values : List ℤ) (value : ℕ) (s' : Java.BTS.St), 0 ≤ feeNumerator → 0 ≤ fixedFee →
      let s := run (Java.BTS.step d)
        (Java.BTS.initialState d feeNumerator fixedFee icx code irc2) txs
      s.restriction = true →
      Java.BTS.transferBatch d r s sender coinNames values value target = .ok s' →
      ∃ m request, s'.sent = s.sent ++ [m] ∧ m.msg.data = .transferRequest request ∧
        ((∀ c, portion (iconAsked request) c ≤ Java.BTS.getTokenLimit s c) ↔
          RepeatsWithin (Java.BTS.getTokenLimit s)
            (iconCharged d s sender coinNames values value))) ∧
    (∀ (d : Solidity.BTS.Deployment) (s s' : Solidity.BTS.St) (u : Solidity.Address)
        (values : List ℕ) (msgValue : ℕ),
      Solidity.BTS.transferBatch d s u coinNames values target msgValue = .ok s' →
      ∃ m request, s'.sent = s.sent ++ [m] ∧ m.msg.data = .transferCoin request ∧
        ((∀ c, portion (evmAsked request) c ≤ s.tokenLimit c) ↔
          RepeatsWithin s.tokenLimit (evmCharged s coinNames values msgValue))) := by
  constructor
  · intro d feeNumerator fixedFee icx code irc2 txs r sender values value s' hratio hfixed s
      hrestriction h
    exact iconBatch_within_iff
      (Java.BTS.run_nonneg (Java.BTS.initialState_nonneg hratio hfixed) txs) hrestriction h
  · intro d s s' u values msgValue h
    exact evmBatch_within_iff h

def iconLimited : Java.BTS.St :=
  run (Java.BTS.step Java.BTS.sample)
    (Java.BTS.initialState Java.BTS.sample 0 0 (fun _ => 0)
      (fun a => if a = ⟨true, 7⟩ then some .foreign else none)
      fun a => if a = ⟨true, 7⟩ then { balances := fun u => if u = ⟨false, 3⟩ then 1000 else 0 }
        else {})
    [.network [] fun _ => true,
     .register ⟨false, 4⟩ "TKN" "TKN" 18 0 0 (some ⟨true, 7⟩) ⟨true, 8⟩,
     .setTokenLimit ⟨false, 4⟩ ["TKN"] [100],
     .tokenTransfer ⟨fun _ _ _ => true, fun _ _ => true⟩ ⟨true, 7⟩ ⟨false, 3⟩ ⟨true, 1⟩ 1000]

def evmLimited : Solidity.BTS.St :=
  run (Solidity.BTS.step Solidity.BTS.sample) Solidity.BTS.fixedFeeToken
    [.handleBTPMessage 2 "0x1.icon" Solidity.BTS.serviceName 1
      (some { serviceType := .changeTokenLimit
              data := .tokenLimit { coinName := ["TKN"], tokenLimit := [100], net := "0x38.bsc" } })
      []]

def iconBatch (values : List ℤ) : Java.Outcome Java.BTS.St :=
  Java.BTS.transferBatch Java.BTS.sample ⟨fun _ _ _ => true, fun _ _ => true⟩ iconLimited ⟨false, 3⟩
    ["TKN", "TKN"] values 0 "btp://0x38.bsc/0x05"

def evmBatch (values : List ℕ) : Solidity.Outcome Solidity.BTS.St :=
  Solidity.BTS.transferBatch Solidity.BTS.sample evmLimited 3 ["TKN", "TKN"] values
    "btp://0x1.icon/hx12" 0

theorem repeated_coin_within_limit :
    (∃ s' m request, iconBatch [40, 60] = .ok s' ∧ s'.sent = iconLimited.sent ++ [m] ∧
      m.msg.data = .transferRequest request ∧
      ∀ c, portion (iconAsked request) c ≤ Java.BTS.getTokenLimit iconLimited c) ∧
    (∃ s' m request, evmBatch [40, 60] = .ok s' ∧ s'.sent = evmLimited.sent ++ [m] ∧
      m.msg.data = .transferCoin request ∧
      ∀ c, portion (evmAsked request) c ≤ evmLimited.tokenLimit c) := by
  constructor
  · obtain ⟨s', hs'⟩ : ∃ s', iconBatch [40, 60] = .ok s' := toBool_ok.1 (by decide +kernel)
    obtain ⟨m, request, hsent, hdata, hiff⟩ := (batch_within_limits_iff ["TKN", "TKN"]
      "btp://0x38.bsc/0x05").1 Java.BTS.sample 0 0 (fun _ => 0) _ _ _ _ ⟨false, 3⟩ [40, 60] 0 s'
      le_rfl le_rfl (by decide +kernel) hs'
    exact ⟨s', m, request, hs', hsent, hdata, hiff.2 (by decide +kernel)⟩
  · obtain ⟨s', hs'⟩ : ∃ s', evmBatch [40, 60] = .ok s' := toBool_ok.1 (by decide +kernel)
    obtain ⟨m, request, hsent, hdata, hiff⟩ := (batch_within_limits_iff ["TKN", "TKN"]
      "btp://0x1.icon/hx12").2 Solidity.BTS.sample evmLimited s' 3 [40, 60] 0 hs'
    exact ⟨s', m, request, hs', hsent, hdata, hiff.2 (by decide +kernel)⟩

def iconLast (s : Java.BTS.St) (c : String) : Option ℤ :=
  s.sent.getLast?.bind fun m =>
    match m.msg.data with
    | .transferRequest request => some (portion (iconAsked request) c)
    | _ => none

def evmLast (s : Solidity.BTS.St) (c : String) : Option ℕ :=
  s.sent.getLast?.bind fun m =>
    match m.msg.data with
    | .transferCoin request => some (portion (evmAsked request) c)
    | _ => none

theorem repeated_coin_over_limit :
    (Java.BTS.getTokenLimit iconLimited "TKN" = 100 ∧
      (iconBatch [100, 100]).toOption.map (iconLast · "TKN") = some (some 200)) ∧
    (evmLimited.tokenLimit "TKN" = 100 ∧
      (evmBatch [100, 100]).toOption.map (evmLast · "TKN") = some (some 180)) := by
  decide +kernel

end IconBridge.Bridge
