import IconBridge.Java.BMC.Sequencing

/-!
# Bonds and rewards of relayers

Relayers bond coins with the message center and share what it has beyond bonds
and unclaimed rewards. A contract that is paid gets control before the payment
returns, and may call these functions again.
-/

namespace IconBridge.Java.BMC

open Lib Option List

variable {W B : Type}

/-- `Context.transfer`: the receiver has the coins when it gets control. -/
def transfer (c : Config W B) (react : St W B → Outcome (St W B)) (s : St W B) (target : Address)
    (value : ℤ) : Outcome (St W B) := do
  require (value ≤ s.balance) (.other "OutOfBalance")
  if target.toString = c.btpAddr.contract then return s
  else if target.isContract then react { s with balance := s.balance - value }
  else return { s with balance := s.balance - value }

def registerRelayer (s : St W B) (caller : Address) (height index value : ℤ) :
    Outcome (St W B) := do
  require (s.relayers.val caller).isNone (unknown "already registered relayer")
  let properties := s.relayersProperties
  require (properties.relayerMinBond ≤ value)
    (unknown s!"require bond at least {properties.relayerMinBond} icx")
  return { s with
    balance := s.balance + value
    relayers := s.relayers.put caller
      { addr := caller, since := height, sinceExtra := index, bond := value, reward := 0 }
    relayersProperties := { properties with bond := properties.bond + value } }

/-- The properties are read before the payments and written after them. -/
def removeRelayerAndRefund (c : Config W B) (onBond onReward : St W B → Outcome (St W B))
    (s : St W B) (addr refund : Address) : Outcome (St W B) :=
  match s.relayers.val addr with
  | none => .error (unknown "not found registered relayer")
  | some relayer => do
    let properties := s.relayersProperties
    let s ← transfer c onBond { s with relayers := s.relayers.remove addr } refund relayer.bond
    let properties := { properties with bond := properties.bond - relayer.bond }
    if 0 < relayer.reward then
      let s ← transfer c onReward s refund relayer.reward
      let properties := { properties with distributed := properties.distributed - relayer.reward }
      return { s with relayersProperties := properties }
    else return { s with relayersProperties := properties }

def unregisterRelayer (c : Config W B) (onBond onReward : St W B → Outcome (St W B)) (s : St W B)
    (caller : Address) : Outcome (St W B) :=
  removeRelayerAndRefund c onBond onReward s caller caller

def removeRelayer (c : Config W B) (onBond onReward : St W B → Outcome (St W B)) (s : St W B)
    (caller addr refund : Address) : Outcome (St W B) := do
  requireOwnerAccess c caller
  removeRelayerAndRefund c onBond onReward s addr refund

def claimRelayerReward (c : Config W B) (onReward : St W B → Outcome (St W B)) (s : St W B)
    (caller : Address) : Outcome (St W B) :=
  match s.relayers.val caller with
  | none => .error (unknown "not found registered relayer")
  | some relayer => do
    require (0 < relayer.reward) (unknown "reward is not remained")
    let properties := s.relayersProperties
    let s := { s with
      relayers := s.relayers.put caller { relayer with reward := 0 }
      relayersProperties :=
        { properties with distributed := properties.distributed - relayer.reward } }
    transfer c onReward s caller relayer.reward

/-- What the ranked relayers get of a budget: some share of it each. -/
structure Rewards where
  amount : (budget : ℤ) → (ranked : List Relayer) → Relayer → ℤ
  nonneg : ∀ budget ranked r, r ∈ ranked → 0 ≤ amount budget ranked r
  sum_le : ∀ (budget : ℤ) (ranked : List Relayer), 0 < budget →
    (ranked.map (amount budget ranked)).sum ≤ budget

/-- `distributeRelayerReward` with any rewards in place of the shares that it
computes. -/
def distributeWith (amount : (budget : ℤ) → (ranked : List Relayer) → Relayer → ℤ) (s : St W B)
    (height : ℤ) : St W B :=
  let p := s.relayersProperties
  if p.nextRewardDistribution ≤ height then
    let due := p.nextRewardDistribution + p.relayerTerm
    let next :=
      if due ≤ height then skipTerms p.relayerTerm height (height - due).toNat due else due
    let p := { p with nextRewardDistribution := next }
    let current := s.balance - p.bond
    if p.distributed < current then
      let budget := current - p.distributed
      let ranked := (getValuesBySinceAndSortAsc s.relayers (next - p.relayerTerm * 2)).take
        p.relayerRewardRank
      let paid := ranked.foldl (Payout.pay (amount budget ranked))
        { relayers := s.relayers, carryover := budget, sumOfReward := 0 }
      let p := { p with distributed := p.distributed + paid.sumOfReward, carryover := paid.carryover }
      { s with relayers := paid.relayers, relayersProperties := p }
    else { s with relayersProperties := p }
  else s

theorem distributeRelayerReward_eq (c : Config W B) (s : St W B) (height : ℤ) :
    distributeRelayerReward c s height = distributeWith
      (fun budget ranked r => c.share budget r.bond (ranked.map Relayer.bond).sum) s height := rfl

mutual

inductive RelayerCall
  | registerRelayer (height index : ℤ) (value : ℕ)
  | unregisterRelayer (onBond onReward : Reaction)
  | removeRelayer (addr refund : Address) (onBond onReward : Reaction)
  | claimRelayerReward (onReward : Reaction)
  | distributeRelayerReward (height : ℤ) (rewards : Rewards)
  /-- A plain deposit. -/
  | fallback (value : ℕ)

/-- What a contract does when it is paid; it, or another one that it calls, may
call the message center. -/
inductive Reaction
  | revert
  | accept
  | call (sender : Address) (f : RelayerCall) (next : Reaction)

end

mutual

def relayerCall (c : Config W B) (s : St W B) (sender : Address) : RelayerCall → Outcome (St W B)
  | .registerRelayer height index value => registerRelayer s sender height index value
  | .unregisterRelayer onBond onReward =>
    unregisterRelayer c (fun s => react c s onBond) (fun s => react c s onReward) s sender
  | .removeRelayer addr refund onBond onReward =>
    removeRelayer c (fun s => react c s onBond) (fun s => react c s onReward) s sender addr refund
  | .claimRelayerReward onReward => claimRelayerReward c (fun s => react c s onReward) s sender
  | .distributeRelayerReward height rewards => .ok (distributeWith rewards.amount s height)
  | .fallback value => .ok { s with balance := s.balance + value }

/-- A call that fails leaves no trace, and the contract goes on. -/
def react (c : Config W B) (s : St W B) : Reaction → Outcome (St W B)
  | .revert => .error (.reverted 0 "")
  | .accept => .ok s
  | .call sender f next =>
    match relayerCall c s sender f with
    | .ok t => react c t next
    | .error _ => react c s next

end

structure RelayerTx where
  sender : Address
  call : RelayerCall

def relayerStep (c : Config W B) (s : St W B) (tx : RelayerTx) : Outcome (St W B) :=
  relayerCall c s tx.sender tx.call

def Reaction.onlyDeposits : Reaction → Bool
  | .revert | .accept => true
  | .call _ (.fallback _) next => next.onlyDeposits
  | .call _ _ _ => false

mutual

/-- Nobody who is paid for a removed relayer calls back, except for deposits. -/
def RelayerCall.orderly : RelayerCall → Bool
  | .unregisterRelayer onBond onReward => onBond.onlyDeposits && onReward.onlyDeposits
  | .removeRelayer _ _ onBond onReward => onBond.onlyDeposits && onReward.onlyDeposits
  | .claimRelayerReward onReward => onReward.orderly
  | .registerRelayer .. | .distributeRelayerReward .. | .fallback .. => true

def Reaction.orderly : Reaction → Bool
  | .revert | .accept => true
  | .call _ f next => f.orderly && next.orderly

end

theorem sweep_perm (v : Relayer) (xs : List Relayer) :
    ((sweep v xs).1 :: (sweep v xs).2).Perm (v :: xs) := by
  induction xs generalizing v with
  | nil => exact .refl _
  | cons x xs ih =>
    unfold sweep
    split
    · exact (List.Perm.swap ..).trans ((ih x).cons v)
    · exact (List.Perm.swap ..).trans (((ih v).cons x).trans (List.Perm.swap ..))

theorem sortPasses_perm (n : ℕ) (xs : List Relayer) : (sortPasses n xs).Perm xs := by
  induction n generalizing xs with
  | zero => cases xs <;> exact .refl _
  | succ n ih =>
    cases xs with
    | nil => exact .refl _
    | cons v xs => exact ((ih _).cons _).trans (sweep_perm v xs)

variable {c : Config W B} {s s' t : St W B}

/-- A relayer is stored under its own address, with amounts that are not negative. -/
structure WellKept (relayers : Dict Address Relayer) : Prop where
  addr : ∀ a r, relayers.val a = some r → r.addr = a
  bond : ∀ a r, relayers.val a = some r → 0 ≤ r.bond
  reward : ∀ a r, relayers.val a = some r → 0 ≤ r.reward

theorem WellKept.put {relayers : Dict Address Relayer} (hk : WellKept relayers)
    (haddr : r.addr = a) (hbond : 0 ≤ r.bond) (hreward : 0 ≤ r.reward) :
    WellKept (relayers.put a r) := by
  constructor <;>
  · intro a' r' hr'
    rw [Dict.val_put] at hr'
    split at hr'
    · next heq =>
      cases hr'
      simp only [heq, haddr, hbond, hreward]
    · first
        | exact hk.addr a' r' hr'
        | exact hk.bond a' r' hr'
        | exact hk.reward a' r' hr'

theorem WellKept.remove {relayers : Dict Address Relayer} (hk : WellKept relayers) :
    WellKept (relayers.remove a) := by
  have hval {a' r'} (hr' : (relayers.remove a).val a' = some r') : relayers.val a' = some r' := by
    rw [Dict.val_remove] at hr'
    split at hr'
    · contradiction
    · exact hr'
  exact ⟨fun a' r' hr' => hk.addr a' r' (hval hr'), fun a' r' hr' => hk.bond a' r' (hval hr'),
    fun a' r' hr' => hk.reward a' r' (hval hr')⟩

theorem values_spec {relayers : Dict Address Relayer} (hk : WellKept relayers) :
    ((relayers.keys.filterMap relayers.val).map Relayer.addr) = relayers.keys ∧
    ∀ r ∈ relayers.keys.filterMap relayers.val, relayers.val r.addr = some r := by
  constructor
  · have hkeys : ∀ k ∈ relayers.keys, (relayers.val k).map Relayer.addr = some k := by
      intro k hmem
      rw [relayers.mem_keys, isSome_iff_exists] at hmem
      obtain ⟨r, hr⟩ := hmem
      rw [hr, map_some, hk.addr k r hr]
    rw [map_filterMap, filterMap_congr hkeys, filterMap_some]
  · intro r hr
    obtain ⟨k, -, hval⟩ := mem_filterMap.1 hr
    rwa [hk.addr k r hval]

theorem ranked_spec {relayers : Dict Address Relayer} (hk : WellKept relayers) (since : ℤ) (n : ℕ) :
    (((getValuesBySinceAndSortAsc relayers since).take n).map Relayer.addr).Nodup ∧
    ∀ r ∈ (getValuesBySinceAndSortAsc relayers since).take n, relayers.val r.addr = some r := by
  obtain ⟨haddrs, hval⟩ := values_spec hk
  have hperm := sortPasses_perm
    ((relayers.keys.filterMap relayers.val).filter fun r => r.since < since).length
    ((relayers.keys.filterMap relayers.val).filter fun r => r.since < since)
  constructor
  · have hall : ((relayers.keys.filterMap relayers.val).map Relayer.addr).Nodup := by
      rw [haddrs]
      exact relayers.nodup
    have hsorted := (hperm.map Relayer.addr).nodup_iff.2
      (hall.sublist (filter_sublist.map Relayer.addr))
    exact hsorted.sublist ((take_sublist n _).map _)
  · intro r hr
    have hr := hperm.mem_iff.1 (mem_of_mem_take hr)
    exact hval r (mem_of_mem_filter hr)

theorem pay_foldl {amount : Relayer → ℤ} {ranked : List Relayer} {p : Payout}
    (hk : WellKept p.relayers) (hnodup : (ranked.map Relayer.addr).Nodup)
    (hval : ∀ r ∈ ranked, p.relayers.val r.addr = some r) (hpos : ∀ r ∈ ranked, 0 ≤ amount r) :
    WellKept (ranked.foldl (Payout.pay amount) p).relayers ∧
    (ranked.foldl (Payout.pay amount) p).relayers.sum Relayer.bond = p.relayers.sum Relayer.bond ∧
    (ranked.foldl (Payout.pay amount) p).relayers.sum Relayer.reward =
      p.relayers.sum Relayer.reward + (ranked.map amount).sum ∧
    (ranked.foldl (Payout.pay amount) p).sumOfReward = p.sumOfReward + (ranked.map amount).sum := by
  induction ranked generalizing p with
  | nil => simp [hk]
  | cons r ranked ih =>
    obtain ⟨hr, hval⟩ := forall_mem_cons.1 hval
    obtain ⟨hrpos, hpos⟩ := forall_mem_cons.1 hpos
    rw [map_cons, nodup_cons] at hnodup
    have hk' : WellKept (Payout.pay amount p r).relayers :=
      hk.put rfl (hk.bond _ r hr) (add_nonneg (hk.reward _ r hr) hrpos)
    have hval' : ∀ x ∈ ranked, (Payout.pay amount p r).relayers.val x.addr = some x := by
      intro x hx
      have hne : x.addr ≠ r.addr := fun heq => hnodup.1 (heq ▸ mem_map_of_mem hx)
      simp only [Payout.pay, Dict.val_put, if_neg hne]
      exact hval x hx
    obtain ⟨hkept, hbond, hreward, hsum⟩ := ih hk' hnodup.2 hval' hpos
    have hput (f : Relayer → ℤ) : (Payout.pay amount p r).relayers.sum f + f r =
        p.relayers.sum f + f { r with reward := r.reward + amount r } := by
      have h := Dict.sum_put (d := p.relayers) (k := r.addr) (f := f)
        (v := { r with reward := r.reward + amount r })
      rwa [hr, elim_some] at h
    have hb := hput Relayer.bond
    have hw := hput Relayer.reward
    have hs : (Payout.pay amount p r).sumOfReward = p.sumOfReward + amount r := rfl
    rw [foldl_cons, map_cons, sum_cons]
    refine ⟨hkept, ?_, ?_, ?_⟩
    · rw [hbond]
      exact add_right_cancel hb
    · rw [hreward]
      dsimp only at hw
      omega
    · rw [hsum, hs, add_assoc]

/-- The aggregates are the sums over the relayers, and the coins are there. -/
structure Accounted (s : St W B) : Prop where
  bond : s.relayersProperties.bond = s.relayers.sum Relayer.bond
  distributed : s.relayersProperties.distributed = s.relayers.sum Relayer.reward
  balance : s.relayersProperties.bond + s.relayersProperties.distributed ≤ s.balance
  kept : WellKept s.relayers

theorem Accounted.deposit (hs : Accounted s) (h : s.balance ≤ b) :
    Accounted { s with balance := b } :=
  ⟨hs.bond, hs.distributed, hs.balance.trans h, hs.kept⟩

theorem registerRelayer_accounted (hs : Accounted s) (hvalue : 0 ≤ value)
    (h : registerRelayer s caller height index value = .ok s') : Accounted s' := by
  simp only [registerRelayer, bind_ok, require_ok, pure_ok, isNone_iff_eq_none] at h
  obtain ⟨_, hnone, _, -, rfl⟩ := h
  have hput (f : Relayer → ℤ) (r : Relayer) :
      (s.relayers.put caller r).sum f = s.relayers.sum f + f r := by
    have h := Dict.sum_put (d := s.relayers) (k := caller) (f := f) (v := r)
    rwa [hnone, elim_none, add_zero] at h
  refine ⟨?_, ?_, ?_, hs.kept.put rfl hvalue le_rfl⟩
  · rw [hput, hs.bond]
  · rw [hput, ← hs.distributed, add_zero]
  · have := hs.balance
    dsimp only
    omega

theorem Accounted.pay {ranked : List Relayer} {amount : Relayer → ℤ} (hs : Accounted s)
    (hnodup : (ranked.map Relayer.addr).Nodup)
    (hval : ∀ r ∈ ranked, s.relayers.val r.addr = some r) (hpos : ∀ r ∈ ranked, 0 ≤ amount r)
    (hle : (ranked.map amount).sum ≤
      s.balance - s.relayersProperties.bond - s.relayersProperties.distributed)
    (budget next carryover : ℤ) :
    Accounted { s with
      relayers := (ranked.foldl (Payout.pay amount) ⟨s.relayers, budget, 0⟩).relayers
      relayersProperties := { s.relayersProperties with
        nextRewardDistribution := next
        distributed := s.relayersProperties.distributed +
          (ranked.foldl (Payout.pay amount) ⟨s.relayers, budget, 0⟩).sumOfReward
        carryover } } := by
  obtain ⟨hkept, hbond, hreward, hsum⟩ :=
    pay_foldl (p := ⟨s.relayers, budget, 0⟩) hs.kept hnodup hval hpos
  refine ⟨?_, ?_, ?_, hkept⟩
  · rw [hbond]
    exact hs.bond
  · rw [hreward, hsum, ← hs.distributed, zero_add]
  · rw [hsum, zero_add]
    dsimp only
    omega

theorem distributeWith_accounted (hs : Accounted s) (rewards : Rewards) (height : ℤ) :
    Accounted (distributeWith rewards.amount s height) := by
  unfold distributeWith
  dsimp only
  split
  · split
    · next hbudget =>
      obtain ⟨hnodup, hval⟩ := ranked_spec hs.kept _ s.relayersProperties.relayerRewardRank
      exact hs.pay hnodup hval (rewards.nonneg _ _) (rewards.sum_le _ _ (by omega)) _ _ _
    · exact ⟨hs.bond, hs.distributed, hs.balance, hs.kept⟩
  · exact hs

theorem react_onlyDeposits (c : Config W B) (s t : St W B) :
    (r : Reaction) → r.onlyDeposits → react c s r = .ok t →
    ∃ b, s.balance ≤ b ∧ t = { s with balance := b }
  | .revert, _, h => by simp [react] at h
  | .accept, _, h => by
    simp only [react, Except.ok.injEq] at h
    exact ⟨s.balance, le_rfl, h.symm⟩
  | .call _ (.fallback value) next, hr, h => by
    simp only [react, relayerCall] at h
    obtain ⟨b, hb, rfl⟩ := react_onlyDeposits c _ t next hr h
    exact ⟨b, (Int.le_add_of_nonneg_right (Int.natCast_nonneg value)).trans hb, rfl⟩
  | .call _ (.registerRelayer ..) _, hr, _ => by simp [Reaction.onlyDeposits] at hr
  | .call _ (.unregisterRelayer ..) _, hr, _ => by simp [Reaction.onlyDeposits] at hr
  | .call _ (.removeRelayer ..) _, hr, _ => by simp [Reaction.onlyDeposits] at hr
  | .call _ (.claimRelayerReward ..) _, hr, _ => by simp [Reaction.onlyDeposits] at hr
  | .call _ (.distributeRelayerReward ..) _, hr, _ => by simp [Reaction.onlyDeposits] at hr

theorem transfer_onlyDeposits {r : Reaction} (hr : r.onlyDeposits)
    (h : transfer c (fun s => react c s r) s target value = .ok t) :
    ∃ b, min s.balance (s.balance - value) ≤ b ∧ t = { s with balance := b } := by
  simp only [transfer, bind_ok] at h
  obtain ⟨_, -, h⟩ := h
  split at h
  · cases h
    exact ⟨s.balance, min_le_left _ _, rfl⟩
  · split at h
    · obtain ⟨b, hb, rfl⟩ := react_onlyDeposits c _ t r hr h
      exact ⟨b, (min_le_right _ _).trans hb, rfl⟩
    · cases h
      exact ⟨s.balance - value, min_le_right _ _, rfl⟩

theorem removeRelayerAndRefund_accounted {onBond onReward : Reaction} (hs : Accounted s)
    (hb : onBond.onlyDeposits) (hr : onReward.onlyDeposits)
    (h : removeRelayerAndRefund c (fun s => react c s onBond) (fun s => react c s onReward) s addr
      refund = .ok s') : Accounted s' := by
  unfold removeRelayerAndRefund at h
  split at h
  · contradiction
  · next relayer hrelayer =>
    have hsum (f : Relayer → ℤ) : (s.relayers.remove addr).sum f + f relayer = s.relayers.sum f := by
      have h := Dict.sum_remove (d := s.relayers) (k := addr) (f := f)
      rwa [hrelayer, elim_some] at h
    have hbond := hsum Relayer.bond
    have hreward := hsum Relayer.reward
    rw [← hs.bond] at hbond
    rw [← hs.distributed] at hreward
    have hcovered := hs.balance
    have hbondPos := hs.kept.bond addr relayer hrelayer
    have hrewardPos := hs.kept.reward addr relayer hrelayer
    simp only [bind_ok] at h
    obtain ⟨t, ht, h⟩ := h
    obtain ⟨b, hle, rfl⟩ := transfer_onlyDeposits hb ht
    dsimp only at hle
    split at h
    · simp only [bind_ok, pure_ok] at h
      obtain ⟨u, hu, rfl⟩ := h
      obtain ⟨b', hle', rfl⟩ := transfer_onlyDeposits hr hu
      dsimp only at hle'
      refine ⟨?_, ?_, ?_, hs.kept.remove⟩ <;> dsimp only <;> omega
    · cases h
      refine ⟨?_, ?_, ?_, hs.kept.remove⟩ <;> dsimp only <;> omega

/-- The record is settled before the receiver gets control. -/
theorem claimRelayerReward_accounted {react : St W B → Outcome (St W B)} (hs : Accounted s)
    (hreact : ∀ t t', Accounted t → react t = .ok t' → Accounted t')
    (h : claimRelayerReward c react s caller = .ok s') : Accounted s' := by
  unfold claimRelayerReward at h
  split at h
  · contradiction
  · next relayer hrelayer =>
    simp only [bind_ok, require_ok, decide_eq_true_eq] at h
    obtain ⟨_, hpos, h⟩ := h
    have hsum (f : Relayer → ℤ) : (s.relayers.put caller { relayer with reward := 0 }).sum f +
        f relayer = s.relayers.sum f + f { relayer with reward := 0 } := by
      have h := Dict.sum_put (d := s.relayers) (k := caller) (f := f)
        (v := { relayer with reward := 0 })
      rwa [hrelayer, elim_some] at h
    have hbond := hsum Relayer.bond
    have hreward := hsum Relayer.reward
    rw [← hs.bond] at hbond
    rw [← hs.distributed] at hreward
    dsimp only at hbond hreward
    have hcovered := hs.balance
    have hkept : WellKept (s.relayers.put caller { relayer with reward := 0 }) :=
      hs.kept.put (hs.kept.addr _ relayer hrelayer) (hs.kept.bond _ relayer hrelayer) le_rfl
    have hafter (b : ℤ) (hle : s.balance - relayer.reward ≤ b) : Accounted { s with
        balance := b
        relayers := s.relayers.put caller { relayer with reward := 0 }
        relayersProperties := { s.relayersProperties with
          distributed := s.relayersProperties.distributed - relayer.reward } } := by
      refine ⟨?_, ?_, ?_, hkept⟩ <;> dsimp only <;> omega
    simp only [transfer, bind_ok] at h
    obtain ⟨_, -, h⟩ := h
    split at h
    · cases h
      exact hafter s.balance (by omega)
    · split at h
      · exact hreact _ s' (hafter _ le_rfl) h
      · cases h
        exact hafter _ le_rfl

mutual

theorem relayerCall_accounted (c : Config W B) (s s' : St W B) (sender : Address)
    (hs : Accounted s) : (f : RelayerCall) → f.orderly → relayerCall c s sender f = .ok s' →
    Accounted s'
  | .registerRelayer _ _ value, _, h => by
    rw [relayerCall] at h
    exact registerRelayer_accounted hs (Int.natCast_nonneg value) h
  | .unregisterRelayer _ _, hf, h => by
    rw [RelayerCall.orderly, Bool.and_eq_true] at hf
    rw [relayerCall] at h
    exact removeRelayerAndRefund_accounted hs hf.1 hf.2 h
  | .removeRelayer _ _ _ _, hf, h => by
    rw [RelayerCall.orderly, Bool.and_eq_true] at hf
    simp only [relayerCall, removeRelayer, bind_ok] at h
    obtain ⟨_, -, h⟩ := h
    exact removeRelayerAndRefund_accounted hs hf.1 hf.2 h
  | .claimRelayerReward onReward, hf, h => by
    rw [RelayerCall.orderly] at hf
    rw [relayerCall] at h
    exact claimRelayerReward_accounted hs
      (fun t t' ht => react_accounted c t t' ht onReward hf) h
  | .distributeRelayerReward height rewards, _, h => by
    rw [relayerCall] at h
    cases h
    exact distributeWith_accounted hs rewards height
  | .fallback value, _, h => by
    rw [relayerCall] at h
    cases h
    exact hs.deposit (Int.le_add_of_nonneg_right (Int.natCast_nonneg value))

theorem react_accounted (c : Config W B) (s s' : St W B) (hs : Accounted s) :
    (r : Reaction) → r.orderly → react c s r = .ok s' → Accounted s'
  | .revert, _, h => by simp [react] at h
  | .accept, _, h => by
    simp only [react, Except.ok.injEq] at h
    exact h ▸ hs
  | .call sender f next, hr, h => by
    rw [Reaction.orderly, Bool.and_eq_true] at hr
    rw [react] at h
    split at h
    · next t ht =>
      exact react_accounted c t s' (relayerCall_accounted c s t sender hs f hr.1 ht) next hr.2 h
    · exact react_accounted c s s' hs next hr.2 h

end

theorem relayers_accounted (c : Config W B) (w : W) (txs : List RelayerTx)
    (horderly : ∀ tx ∈ txs, tx.call.orderly) :
    let s := run (relayerStep c) { world := w } txs
    s.relayersProperties.bond = s.relayers.sum Relayer.bond ∧
    s.relayersProperties.distributed = s.relayers.sum Relayer.reward ∧
    s.relayersProperties.bond + s.relayersProperties.distributed ≤ s.balance := by
  intro s
  have hs : Accounted s := by
    refine run_along (fun s tx s' hs hC h => relayerCall_accounted c s s' tx.sender hs tx.call hC h)
      ?_ (along_of_mem horderly)
    exact ⟨rfl, rfl, le_rfl, by constructor <;> simp [Dict.empty]⟩
  exact ⟨hs.bond, hs.distributed, hs.balance⟩

def relayerContract : Address := ⟨true, 1⟩

def bondReturned (onBond : Reaction) : List RelayerTx :=
  [⟨relayerContract, .registerRelayer 1 0 100⟩, ⟨relayerContract, .unregisterRelayer onBond .accept⟩]

theorem bondReturned_accounted :
    let s := run (relayerStep wireConfig) { world := () }
      (bondReturned (.call relayerContract (.fallback 7) .accept))
    s.balance = 7 ∧ s.relayersProperties.bond = s.relayers.sum Relayer.bond ∧
    s.relayersProperties.distributed = s.relayers.sum Relayer.reward ∧
    s.relayersProperties.bond + s.relayersProperties.distributed ≤ s.balance :=
  ⟨by decide +kernel, relayers_accounted wireConfig () _ (by decide +kernel)⟩

/-- The relayer registers again while it is paid: the message center holds its
bond, and has no record of it. -/
theorem registered_while_paid :
    let s := run (relayerStep wireConfig) { world := () }
      (bondReturned (.call relayerContract (.registerRelayer 1 1 100) .accept))
    s.relayersProperties.bond = 0 ∧ s.relayers.sum Relayer.bond = 100 ∧ s.balance = 100 := by
  decide +kernel

end IconBridge.Java.BMC
