import IconBridge.Java.BTS.Fees
import IconBridge.Java.BTS.Payment

/-!
# Pending requests can be settled

The coins of a pending request stay registered and a refund never fails, so an
error settles every request of at most fifteen coins. Success also burns what
was transferred of wrapped coins, so the service has to hold it. No user's
request is longer; a fee gathering names every coin with fees.
-/

namespace IconBridge.Java.BTS

open Lib List

variable {d : Deployment} {r : Receivers} {s s' : St}

def Recorded (d : Deployment) (s : St) : Prop :=
  ∀ sn t, s.transactions sn = some t →
    (t.sender ≠ d.bts → t.assets.length ≤ batchLimitSize) ∧
      ∀ a ∈ t.assets, (s.coinDb a.coinName).isSome

theorem step_coinDb (hs : Sound d s) (h : step d s tx = .ok s') (hc : (s.coinDb c).isSome) :
    (s'.coinDb c).isSome := by
  by_cases hr : tx.Registers
  · cases tx with
    | register =>
      obtain ⟨-, ⟨t, ht, rfl⟩ | ⟨a, -, rfl⟩⟩ := register_ok h
      · obtain ⟨-, heq, -⟩ := deployIRC2_sound hs ht
        rw [heq]
        simp only [addCoin, Function.update_apply]
        split
        · rfl
        · exact hc
      · simp only [addCoin, Function.update_apply]
        split
        · rfl
        · exact hc
    | setFeeRatio =>
      simp only [step, setFeeRatio, bind_ok] at h
      obtain ⟨_, -, _, -, _, -, h⟩ := h
      split at h
      · contradiction
      · cases h
        simp only [Function.update_apply]
        split
        · rfl
        · exact hc
    | _ => exact hr.elim
  · rw [(step_effect hs hr h).coinDb]
    exact hc

theorem Files.recorded (hold : ∀ sn t, s.transactions sn = some t →
      (t.sender ≠ d.bts → t.assets.length ≤ batchLimitSize) ∧
        ∀ a ∈ t.assets, (s'.coinDb a.coinName).isSome)
    (h : Files owner target details s s') (hsize : owner ≠ d.bts → details.length ≤ batchLimitSize)
    (hcoins : ∀ a ∈ details, (s'.coinDb a.coinName).isSome) : Recorded d s' := by
  intro n t ht
  rw [h.transactions, Function.update_apply] at ht
  split at ht
  · cases ht
    exact ⟨hsize, hcoins⟩
  · exact hold n t ht

theorem step_recorded (hs : Sound d s) (hrec : Recorded d s) (h : step d s tx = .ok s') :
    Recorded d s' := by
  have hcoin : ∀ c, (s.coinDb c).isSome → (s'.coinDb c).isSome := fun c => step_coinDb hs h
  have hold : ∀ sn t, s.transactions sn = some t →
      (t.sender ≠ d.bts → t.assets.length ≤ batchLimitSize) ∧
        ∀ a ∈ t.assets, (s'.coinDb a.coinName).isSome := fun sn t ht =>
    ⟨(hrec sn t ht).1, fun a ha => hcoin _ ((hrec sn t ht).2 a ha)⟩
  cases step_deed h with
  | quiet _ _ h =>
    intro sn t ht
    exact hold sn t (h.transactions ▸ ht)
  | files owner target details _ h _ hsize hcoins =>
    exact h.recorded hold (fun _ => hsize) fun a ha => hcoin _ (hcoins a ha)
  | settles n _ _ _ h =>
    intro sn t ht
    rw [h.transactions, Function.update_apply] at ht
    split at ht
    · contradiction
    · exact hold sn t ht
  | paysFees _ _ _ _ _ _ hdesk =>
    intro sn t ht
    exact hold sn t (hdesk.1 ▸ ht)
  | sendsFees _ target details _ _ _ h _ _ hcoins =>
    exact h.recorded hold (fun hne => absurd rfl hne) fun a ha => hcoin _ (hcoins a ha)

theorem Registry.isRegistered_of_coinDb (hs : Registry d s) (h : (s.coinDb c).isSome) :
    isRegistered d s c = true := by
  obtain ⟨k, hk⟩ := Option.isSome_iff_exists.1 h
  by_cases hc : c = d.name
  · simp [isRegistered, hc]
  · have haddr := hs.address c k hk hc
    simp [isRegistered, (hs.names c).2 (by simp [haddr])]

theorem rounds_succeed {f : St → AssetTransferDetail → Outcome St} {assets : List AssetTransferDetail}
    (hf : ∀ s a, isRegistered d s a.coinName → ∃ s', f s a = .ok s' ∧ s'.coinNames = s.coinNames)
    (h : ∀ a ∈ assets, isRegistered d s a.coinName) :
    ∃ s', assets.foldlM f s = .ok s' := by
  induction assets generalizing s with
  | nil => exact ⟨s, rfl⟩
  | cons a assets ih =>
    obtain ⟨t, ht, hnames⟩ := hf s a (h a mem_cons_self)
    rw [foldlM_cons, ht, ok_bind]
    refine ih fun b hb => ?_
    rw [isRegistered, hnames]
    exact h b (mem_cons_of_mem _ hb)

theorem settle_succeeds (owner : Address) (h : isRegistered d s a.coinName) :
    ∃ s', settle d owner s a = .ok s' ∧ s'.coinNames = s.coinNames := by
  rw [settle, h]
  exact ⟨_, rfl, rfl⟩

theorem refundAsset_succeeds (owner : Address) (h : isRegistered d s a.coinName) :
    ∃ s', refundAsset d r owner s a = .ok s' ∧ s'.coinNames = s.coinNames := by
  have hok : refundAsset d r owner s a =
      .ok (refund d r s a.coinName owner (a.amount + a.fee) a.fee) := by
    rw [refundAsset, h]
    rfl
  obtain ⟨_, _, _, _, heq, -⟩ := refundAsset_charges hok
  exact ⟨_, hok, heq ▸ rfl⟩

theorem amountOf_nonneg {as : List (String × ℤ)} (h : ∀ a ∈ as, 0 ≤ a.2) (c : String) :
    0 ≤ amountOf as c := by
  refine sum_nonneg fun v hv => ?_
  obtain ⟨a, ha, rfl⟩ := mem_map.1 hv
  have := h a ha
  simp only [on]
  split <;> omega

theorem held_eq_holding (hc : c ≠ d.name) : held d s c = holding d s d.bts c := by
  rw [holding, if_neg hc, held]

theorem burn_succeeds (hs : Sound d s) (hcoin : (s.coinDb a.1).isSome) (hpos : 0 ≤ a.2)
    (hheld : Wrapped s a.1 → a.2 ≤ held d s a.1) :
    ∃ s', burn d s a = .ok s' ∧ ∀ c, Wrapped s c → held d s' c = held d s c - on a.1 a.2 c := by
  obtain ⟨k, hk⟩ := Option.isSome_iff_exists.1 hcoin
  by_cases hty : k.coinType = .nativeWrapped
  · have hw : Wrapped s a.1 := ⟨k, hk, hty⟩
    obtain ⟨hname, -⟩ := hs.wrapped hw
    have haddr := hs.address a.1 k hk hname
    have hle : a.2 ≤ (s.irc2 k.address).balances d.bts := by
      simpa [held, haddr] using hheld hw
    have hzero : d.bts ≠ zeroAddress := fun heq => by
      have := d.isContract
      simp [heq, zeroAddress] at this
    obtain ⟨t, ht⟩ : ∃ t, (s.irc2 k.address).burn d.bts a.2 = .ok t := by
      rw [IRC2.burn, decide_eq_true hzero, decide_eq_true hpos, decide_eq_true hle]
      exact ⟨_, rfl⟩
    have hburn : burn d s a = .ok (setIRC2 s k.address t) := by
      rw [burn, hk]
      simp only [nonNull, ok_bind, hty, if_true, ht]
      rfl
    refine ⟨_, hburn, fun c hc => ?_⟩
    obtain ⟨hcname, -⟩ := hs.wrapped hc
    rw [held_eq_holding hcname, held_eq_holding hcname, holding_setIRC2 hs.toRegistry haddr,
      (IRC2.burn_ok ht).2]
    simp only [if_true, on]
    split <;> omega
  · have hburn : burn d s a = .ok s := by
      rw [burn, hk]
      simp only [nonNull, ok_bind, hty, if_false]
      rfl
    refine ⟨s, hburn, fun c hc => ?_⟩
    rw [on_of_wrapped hk hty hc, sub_zero]

theorem burns_succeed {tokens : List (String × ℤ)} (hs : Sound d s)
    (hcoins : ∀ a ∈ tokens, (s.coinDb a.1).isSome) (hpos : ∀ a ∈ tokens, 0 ≤ a.2)
    (hheld : ∀ c, Wrapped s c → amountOf tokens c ≤ held d s c) :
    ∃ s', tokens.foldlM (burn d) s = .ok s' := by
  induction tokens generalizing s with
  | nil => exact ⟨s, rfl⟩
  | cons a tokens ih =>
    have hrest : ∀ b ∈ tokens, 0 ≤ b.2 := fun b hb => hpos b (mem_cons_of_mem _ hb)
    have hfirst : Wrapped s a.1 → a.2 ≤ held d s a.1 := by
      intro hw
      have hsum := hheld a.1 hw
      have hnonneg := amountOf_nonneg hrest a.1
      simp only [amountOf_cons, on, if_true] at hsum
      omega
    obtain ⟨t, ht, hafter⟩ := burn_succeeds hs (hcoins a mem_cons_self)
      (hpos a mem_cons_self) hfirst
    have heff := burn_effect hs ht
    rw [foldlM_cons, ht, ok_bind]
    refine ih (heff.sound hs) (fun b hb => ?_) hrest fun c hc => ?_
    · rw [heff.coinDb]
      exact hcoins b (mem_cons_of_mem _ hb)
    · have hw := heff.wrapped.1 hc
      have hsum := hheld c hw
      rw [hafter c hw]
      rw [amountOf_cons] at hsum
      omega

theorem settle_keeps (h : settle d owner s a = .ok s') :
    s'.irc2 = s.irc2 ∧ s'.coinAddresses = s.coinAddresses ∧ s'.coinDb = s.coinDb := by
  simp only [settle, bind_ok, pure_ok] at h
  obtain ⟨_, -, rfl⟩ := h
  exact ⟨rfl, rfl, rfl⟩

theorem settles_keep {assets : List AssetTransferDetail} (h : assets.foldlM (settle d owner) s = .ok s') :
    s'.irc2 = s.irc2 ∧ s'.coinAddresses = s.coinAddresses ∧ s'.coinDb = s.coinDb := by
  refine foldlM_ok (P := fun t => t.irc2 = s.irc2 ∧ t.coinAddresses = s.coinAddresses ∧
    t.coinDb = s.coinDb) (fun t a t' _ ht hsettle => ?_) ⟨rfl, rfl, rfl⟩ h
  obtain ⟨h1, h2, h3⟩ := settle_keeps hsettle
  exact ⟨h1.trans ht.1, h2.trans ht.2.1, h3.trans ht.2.2⟩

def tokensOf (d : Deployment) (assets : List AssetTransferDetail) : List (String × ℤ) :=
  (assets.filter fun a => d.name ≠ a.coinName).map fun a => (a.coinName, a.amount)

theorem settleAssets_succeeds (hs : Sound d s) (hrec : Recorded d s)
    (ht : s.transactions sn = some t)
    (hheld : code = rcOk → ∀ c, Wrapped s c → amountOf (tokensOf d t.assets) c ≤ held d s c) :
    ∃ s', settleAssets d r s t code = .ok s' := by
  have hcoins := (hrec sn t ht).2
  have hregistered : ∀ a ∈ t.assets, isRegistered d s a.coinName := fun a ha =>
    hs.isRegistered_of_coinDb (hcoins a ha)
  have hmem : ∀ x ∈ tokensOf d t.assets, ∃ a ∈ t.assets, x = (a.coinName, a.amount) := by
    intro x hx
    obtain ⟨a, ha, rfl⟩ := mem_map.1 hx
    exact ⟨a, (mem_filter.1 ha).1, rfl⟩
  unfold settleAssets
  split
  · next hok =>
    obtain ⟨u, hu⟩ := rounds_succeed (fun s a => settle_succeeds t.sender) hregistered
    rw [hu, ok_bind]
    obtain ⟨hirc2, haddresses, hdb⟩ := settles_keep hu
    have heff := Effect.foldlM_sum (fun _ _ _ _ hv hsettle => settle_effect hv.toRegistry hsettle) hs hu
    have hw : ∀ c, Wrapped u c ↔ Wrapped s c := fun c => by rw [Wrapped, hdb, Wrapped]
    refine burns_succeed (heff.sound hs) (fun x hx => ?_) (fun x hx => ?_) fun c hc => ?_
    · obtain ⟨a, ha, rfl⟩ := hmem x hx
      rw [hdb]
      exact hcoins a ha
    · obtain ⟨a, ha, rfl⟩ := hmem x hx
      exact hs.positive sn t ht a ha
    · rw [held, haddresses, hirc2]
      exact hheld hok c ((hw c).1 hc)
  · exact rounds_succeed (fun s a => refundAsset_succeeds t.sender) hregistered

theorem handleResponse_succeeds (r : Receivers) (response : TransferResponse) (hs : Sound d s)
    (hrec : Recorded d s) (ht : s.transactions sn = some t) (hsize : t.assets.length ≤ batchLimitSize)
    (hheld : response.code = rcOk →
      ∀ c, Wrapped s c → amountOf (tokensOf d t.assets) c ≤ held d s c) :
    ∃ s', handleResponse d r s sn response = .ok s' ∧ s'.transactions sn = none := by
  obtain ⟨u, hu⟩ : ∃ u, settleAssets d r s t response.code = .ok u :=
    settleAssets_succeeds hs hrec ht hheld
  have hok : handleResponse d r s sn response = .ok { u with
      transactions := Function.update u.transactions sn none
      events := u.events ++ [.transferEnd t.sender sn response.code response.message] } := by
    rw [handleResponse, ht]
    dsimp only
    rw [decide_eq_true hsize, require_true, ok_bind, hu]
    rfl
  exact ⟨_, hok, by simp⟩

def answered (d : Deployment) (r : Receivers) (src : String) (sn code : ℤ) (message : Option String) :
    Tx :=
  .handleBTPMessage r d.bmc src "bts" sn (some
    { serviceType := .responseHandleService, data := .response { code, message } })

def Refundable (d : Deployment) (s : St) (sn : ℤ) : Prop :=
  (∀ r src message, ∃ s', step d s (answered d r src sn rcErr message) = .ok s' ∧
    s'.transactions sn = none) ∧
  ∀ r src code message, ∃ s', step d s (.handleBTPError r d.bmc src sn code message) = .ok s' ∧
    s'.transactions sn = none

def Completable (d : Deployment) (s : St) (sn : ℤ) : Prop :=
  ∀ r src message, ∃ s', step d s (answered d r src sn rcOk message) = .ok s' ∧
    s'.transactions sn = none

theorem refundable (hs : Sound d s) (hrec : Recorded d s) (ht : s.transactions sn = some t)
    (hsize : t.assets.length ≤ batchLimitSize) : Refundable d s sn := by
  refine ⟨fun r src message => ?_, fun r src code message => ?_⟩
  · obtain ⟨s', h, hnone⟩ := handleResponse_succeeds r { code := rcErr, message } hs hrec ht
      hsize (by simp [rcErr, rcOk])
    refine ⟨s', ?_, hnone⟩
    simpa [answered, step, handleBTPMessage] using h
  · obtain ⟨s', h, hnone⟩ := handleResponse_succeeds r
      { code := rcErr, message := some ("BTPError [code:" ++ toString code ++ ",msg:" ++ message) }
      hs hrec ht hsize (by simp [rcErr, rcOk])
    refine ⟨s', ?_, hnone⟩
    simpa [step, handleBTPError, ht] using h

theorem completable (hs : Sound d s) (hrec : Recorded d s) (ht : s.transactions sn = some t)
    (hsize : t.assets.length ≤ batchLimitSize)
    (hheld : ∀ c, Wrapped s c → amountOf (tokensOf d t.assets) c ≤ held d s c) :
    Completable d s sn := by
  intro r src message
  obtain ⟨s', h, hnone⟩ := handleResponse_succeeds r { code := rcOk, message } hs hrec ht hsize
    fun _ => hheld
  refine ⟨s', ?_, hnone⟩
  simpa [answered, step, handleBTPMessage] using h

theorem not_settleable (ht : s.transactions sn = some t) (hsize : batchLimitSize < t.assets.length) :
    ¬Refundable d s sn ∧ ¬Completable d s sn := by
  have hstuck : ∀ r response, handleResponse d r s sn response =
      .error (unknown "Exceed Batch Limit Size") := by
    intro r response
    rw [handleResponse, ht]
    dsimp only
    rw [decide_eq_false (by omega)]
    rfl
  constructor
  · intro h
    obtain ⟨s', hs', -⟩ := h.1 noReceivers "" none
    simp [answered, step, handleBTPMessage, hstuck] at hs'
  · intro h
    obtain ⟨s', hs', -⟩ := h noReceivers "" none
    simp [answered, step, handleBTPMessage, hstuck] at hs'

def coinOf (i : ℕ) : String := "T" ++ Nat.repr i
def tokenOf (i : ℕ) : Address := ⟨true, BitVec.ofNat 160 (100 + i)⟩

def incomingMany : Tx :=
  .handleBTPMessage noReceivers sample.bmc "0x38.bsc" "bts" 1 (some
    { serviceType := .requestCoinTransfer
      data := .transferRequest
        { sender := "0x05", target := "hx3", assets := (List.range 15).map fun i => ⟨coinOf i, 10⟩ } })

/-- A batch of all wrapped coins and a transfer of the native coin are carried
out; then the fees are gathered. -/
def gatherMany : List Tx :=
  .network [] (fun _ => true) ::
  (List.range 15).map (fun i => .register ⟨false, 4⟩ (coinOf i) "T" 18 5000 0 none (tokenOf i)) ++
  incomingMany ::
  (List.range 15).map (fun i => .tokenApprove (tokenOf i) holder sample.bts 10) ++
  [.transferBatch noReceivers holder ((List.range 15).map coinOf) (List.replicate 15 10) 0
     "btp://0x38.bsc/0x05",
   answered sample noReceivers "0x38.bsc" 1 rcOk none,
   .transferNativeCoin holder 100 "btp://0x38.bsc/0x05",
   answered sample noReceivers "0x38.bsc" 2 rcOk none,
   .handleFeeGathering noReceivers sample.bmc "btp://0x38.bsc/0x05"]

def manyGathered : St := run (step sample) feeState gatherMany

theorem manyGathered_pending : (manyGathered.transactions 3).map (·.assets.length) = some 16 := by
  decide +kernel

end IconBridge.Java.BTS
