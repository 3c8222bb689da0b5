import IconBridge.Algorand.Relay
import IconBridge.Go.Segment
import IconBridge.Lib.Greedy

/-!
# Parts of a message

`Segment` of every sender packs receipts as long as they fit. The new message is
the whole one before the loop, and the loop replaces its receipts only where it
stops at one that does not fit.
-/

namespace IconBridge.Go

open Lib

inductive Sender
  | icon
  | bsc
  | near

/-- The options of the sender for NEAR have no limit. -/
def Sender.limit (txDataSizeLimit : UInt64) : Sender → UInt64
  | .icon => if txDataSizeLimit = 0 then 382691 else txDataSizeLimit
  | .bsc => sizeLimit txDataSizeLimit
  | .near => 65536

def Sender.segment (sender : Sender) (txDataSizeLimit : UInt64) (receipts : List Receipt) :
    Except Failure (Option (Bytes × List Receipt)) :=
  if receipts.length = 0 then .ok none
  else do
    let (packed, rest) ← packReceipts (sender.limit txDataSizeLimit) 0 receipts
    let message ← marshalToBytes (encodeRelayMessage packed)
    return some (message, rest.getD receipts)

theorem Sender.segment_bsc : Sender.bsc.segment = Go.segment := rfl

theorem leftover_getD {rest : Option (List α)} (h : rest ≠ some []) :
    rest.getD all = leftover all (rest.getD []) := by
  rcases rest with _ | _ | ⟨x, l⟩
  · rfl
  · exact absurd rfl h
  · rfl

theorem Sender.segment_splits {sender : Sender} {receipts : List Receipt}
    (hmemory : totalSize (r :: receipts) < 2 ^ 64)
    (h : sender.segment txDataSizeLimit (r :: receipts) = .ok (some (message, left))) :
    Splits (totalSize · ≤ (sender.limit txDataSizeLimit).toNat)
        (fun taken => message = encodeRelayMessage (taken.map rlpReceipt)) (r :: receipts) left ↔
      totalSize [r] ≤ (sender.limit txDataSizeLimit).toNat ∧
        (sender.limit txDataSizeLimit).toNat < totalSize (r :: receipts) := by
  rw [segment, if_neg (by simp)] at h
  simp only [bind_ok, marshalToBytes_ok, pure_ok, Prod.exists, Option.some.injEq, Prod.mk.injEq] at h
  obtain ⟨packed, rest, hpack, _, ⟨-, rfl⟩, rfl, rfl⟩ := h
  obtain ⟨taken, rfl, -, hrest, hgreedy⟩ := packReceipts_ok hpack
  simp only [UInt64.toNat_zero, zero_add] at hgreedy
  rw [leftover_getD hrest, ← not_le]
  exact (hgreedy hmemory).splits_iff (fun _ _ => totalSize_le) rfl

def calls (receipts : List Algorand.Receipt) : List Algorand.Event :=
  receipts.flatMap Algorand.Receipt.events

theorem calls_cons (r : Algorand.Receipt) (l : List Algorand.Receipt) :
    calls (r :: l) = r.events ++ calls l := List.flatMap_cons

theorem segmentLoop_greedy {services : String → Option ℕ} {all receipts : List Algorand.Receipt}
    {x y : Algorand.CallParams × List Algorand.AbiFunc}
    (h : Algorand.segmentLoop services all receipts x = .ok (y, left)) :
    ∃ taken rest, left = leftover all rest ∧
      (calls taken).foldlM (Algorand.segmentEvent services) x = .ok y ∧
      Greedy (fun l => x.2.length + (calls l).length < Algorand.atomicTxnLimit) receipts taken rest := by
  induction receipts generalizing x with
  | nil =>
    cases h
    exact ⟨[], [], rfl, rfl, .nil⟩
  | cons r receipts ih =>
    have hone : calls [r] = r.events := by simp [calls]
    rw [Algorand.segmentLoop] at h
    split at h
    · next hfull =>
      cases h
      exact ⟨[], r :: receipts, rfl, rfl, .stop (by rwa [hone, not_lt])⟩
    · next hfits =>
      simp only [bind_ok] at h
      obtain ⟨z, hz, h⟩ := h
      obtain ⟨taken, rest, hleft, hcalls, hgreedy⟩ := ih h
      refine ⟨r :: taken, rest, hleft, ?_, hgreedy.cons (by rwa [hone, ← not_le]) fun l => ?_⟩
      · rw [calls_cons, List.foldlM_append, hz]
        exact hcalls
      · rw [calls_cons, List.length_append, Algorand.Relay.segmentEvents_length hz, Nat.add_assoc]

/-- `Segment` splits the receipts, as it should, if the first one fits and not all of
them do. Otherwise the new message has all of them. -/
theorem segment_splits_iff (sender : Sender) (txDataSizeLimit : UInt64)
    (services : String → Option ℕ) (params : Algorand.CallParams) :
    (∀ r receipts message left, totalSize (r :: receipts) < 2 ^ 64 →
      sender.segment txDataSizeLimit (r :: receipts) = .ok (some (message, left)) →
      (Splits (totalSize · ≤ (sender.limit txDataSizeLimit).toNat)
          (fun taken => message = encodeRelayMessage (taken.map rlpReceipt)) (r :: receipts) left ↔
        totalSize [r] ≤ (sender.limit txDataSizeLimit).toNat ∧
          (sender.limit txDataSizeLimit).toNat < totalSize (r :: receipts))) ∧
    ∀ r receipts params' tx left,
      Algorand.segment services params (r :: receipts) = .ok (params', some (tx, left)) →
      (Splits (fun taken => (calls taken).length < Algorand.atomicTxnLimit)
          (fun taken => (calls taken).foldlM (Algorand.segmentEvent services) (params, []) =
            .ok (params', tx.svcs)) (r :: receipts) left ↔
        (calls [r]).length < Algorand.atomicTxnLimit ∧
          Algorand.atomicTxnLimit ≤ (calls (r :: receipts)).length) := by
  refine ⟨fun r receipts message left => Sender.segment_splits, fun r receipts params' tx left h => ?_⟩
  simp only [Algorand.segment, bind_ok, pure_ok, Prod.exists] at h
  obtain ⟨_, svcs, left, hloop, h⟩ := h
  cases h
  obtain ⟨taken, rest, rfl, hcalls, hgreedy⟩ := segmentLoop_greedy hloop
  simp only [List.length_nil, zero_add] at hgreedy
  rw [← not_lt]
  refine hgreedy.splits_iff (fun l l' => ?_) hcalls
  rw [calls, List.flatMap_append, List.length_append]
  exact (Nat.le_add_right ..).trans_lt

theorem sampleReceipts_split : ∃ message left,
    Sender.bsc.segment 50 sampleReceipts = .ok (some (message, left)) ∧
    Splits (totalSize · ≤ 50) (fun taken => message = encodeRelayMessage (taken.map rlpReceipt))
      sampleReceipts left :=
  ⟨_, _, rfl, ((segment_splits_iff .bsc 50 (fun _ => none) {}).1 _ _ _ _ (by decide +kernel) rfl).2
    (by decide +kernel)⟩

/-- Both receipts are in the message, and both are left; or none is in it. -/
theorem sampleReceipts_not_split :
    Sender.bsc.segment 0 sampleReceipts =
      .ok (some (encodeRelayMessage (sampleReceipts.map rlpReceipt), sampleReceipts)) ∧
    Sender.bsc.segment 1 sampleReceipts = .ok (some (encodeRelayMessage [], sampleReceipts)) :=
  ⟨rfl, rfl⟩

end IconBridge.Go
