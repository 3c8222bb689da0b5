import IconBridge.Solidity.BTS.Pending

/-!
# Solvency

`BTSCore` holds of every wrapped coin at least what it owes, and only an
incoming request that is paid out lowers what it holds of the other coins
beyond what it owes. Both need that no two coins share an address. `register`
takes a coin whose name is empty for an address without a coin, and does not
look at the address it deploys to, so the results are for runs that never use
either.
-/

namespace IconBridge.Solidity.BTS

open Lib Function List

variable {d : Deployment}

structure Filed (s : St) : Prop where
  zero : s.code 0 = none
  noNative : s.code nativeCoinAddress = none
  native : s.coins s.nativeCoinName = nativeCoinAddress
  first : s.coinsName.head? = some s.nativeCoinName
  known : ∀ c ∈ s.coinsName, c ≠ s.nativeCoinName → s.coins c ≠ 0
  listed : ∀ c, c ≠ s.nativeCoinName → s.coins c ≠ 0 → c ∈ s.coinsName
  named : ∀ c, c ≠ s.nativeCoinName → s.coins c ≠ 0 → c ≠ ""
  filed : ∀ c, c ≠ s.nativeCoinName → s.coins c ≠ 0 → s.coinsAddress (s.coins c) = c
  details : ∀ c, c ≠ s.nativeCoinName → s.coins c ≠ 0 → (s.coinDetails c).addr = s.coins c

theorem Filed.distinct (h : Filed s) : Distinct s where
  zero := h.zero
  native := by rw [h.native]; exact h.noNative
  first := h.first
  inj c c' hc hc' h0 heq := by
    rw [← h.filed c hc h0, heq, h.filed c' hc' (heq ▸ h0)]

theorem Filed.congr (heq : registry s' = registry s) (h : Filed s) : Filed s' := by
  simp only [registry, Prod.mk.injEq] at heq
  obtain ⟨h1, h2, h3, h4, h5, h6⟩ := heq
  constructor <;> simp only [h1, h2, h3, h4, h5, h6]
  exacts [h.zero, h.noNative, h.native, h.first, h.known, h.listed, h.named, h.filed, h.details]

theorem initialState_filed (hzero : code 0 = none) (hnative : code nativeCoinAddress = none) :
    Filed (initialState name fn ff native code erc20) := by
  have hcoins : ∀ c, c ≠ name →
      (initialState name fn ff native code erc20).coins c = 0 := fun c hc => by
    simp [initialState, hc]
  have hnone : ∀ c, c ≠ name → (initialState name fn ff native code erc20).coins c ≠ 0 → False :=
    fun c hc h => h (hcoins c hc)
  exact ⟨hzero, hnative, by simp [initialState], rfl,
    fun c hc hne => absurd (mem_singleton.1 hc) hne,
    fun c hc h => (hnone c hc h).elim, fun c hc h => (hnone c hc h).elim,
    fun c hc h => (hnone c hc h).elim, fun c hc h => (hnone c hc h).elim⟩

/-- The condition on a transaction under which coins keep separate addresses:
a coin is registered under a name, and a new contract is not deployed where a
coin is registered already. -/
def Tx.KeepsApart (s : St) : Tx → Prop
  | .register _ name _ _ _ addr deployed => name ≠ "" ∧ (addr = 0 → ∀ c, s.coins c ≠ deployed)
  | _ => True

theorem Filed.addCoin (h : Filed s) (hname : name ≠ s.nativeCoinName) (hempty : name ≠ "")
    (haddr : coin.addr ≠ 0) (hfree : ∀ c, c ≠ s.nativeCoinName → s.coins c ≠ coin.addr) :
    Filed (addCoin s name coin) := by
  have hcoins : ∀ c, (BTS.addCoin s name coin).coins c = if c = name then coin.addr else s.coins c :=
    fun c => update_apply ..
  constructor
  · exact h.zero
  · exact h.noNative
  · rw [hcoins]
    exact (if_neg (Ne.symm hname)).trans h.native
  · have := h.first
    rcases hl : s.coinsName with _ | ⟨c, cs⟩
    · simp [hl] at this
    · simpa [BTS.addCoin, hl] using this
  · intro c hc hne
    rw [hcoins]
    split
    · exact haddr
    · next hcn => exact h.known c (by simpa [BTS.addCoin, hcn] using hc) hne
  · intro c hne h0
    rw [hcoins] at h0
    simp only [BTS.addCoin, mem_append, mem_singleton]
    split at h0
    · next hcn => exact .inr hcn
    · exact .inl (h.listed c hne h0)
  · intro c hne h0
    rw [hcoins] at h0
    split at h0
    · next hcn => exact hcn ▸ hempty
    · exact h.named c hne h0
  · intro c hne h0
    rw [hcoins] at h0 ⊢
    simp only [BTS.addCoin]
    split at h0
    · next hcn => rw [if_pos hcn, update_self, hcn]
    · next hcn =>
      rw [if_neg hcn, update_of_ne (hfree c hne)]
      exact h.filed c hne h0
  · intro c hne h0
    rw [hcoins] at h0 ⊢
    simp only [BTS.addCoin]
    split at h0
    · next hcn => rw [if_pos hcn, hcn, update_self]
    · next hcn =>
      rw [if_neg hcn, update_of_ne hcn]
      exact h.details c hne h0

theorem Filed.deployTradable (h : Filed s) (hfree : ∀ c, s.coins c ≠ deployed)
    (hs : deployTradable s deployed decimals = .ok s') : Filed s' := by
  simp only [BTS.deployTradable, bind_ok, require_ok, pure_ok, Bool.and_eq_true,
    decide_eq_true_eq] at hs
  obtain ⟨-, -, -, ⟨h0, -⟩, rfl⟩ := hs
  have hnative : nativeCoinAddress ≠ deployed := h.native ▸ hfree s.nativeCoinName
  exact ⟨(update_of_ne (Ne.symm h0) ..).trans h.zero,
    (update_of_ne hnative ..).trans h.noNative, h.native, h.first, h.known, h.listed,
    h.named, h.filed, h.details⟩

/-- The last writer of an address in the loop of `updateCoinDb`. -/
theorem foldl_update_eq {names : List String} {addr : String → Address} {f : Address → String}
    (hinj : ∀ n ∈ names, addr n = addr c → n = c) (hc : c ∈ names ∨ f (addr c) = c) :
    names.foldl (fun f n => update f (addr n) n) f (addr c) = c := by
  induction names generalizing f with
  | nil => simpa using hc
  | cons n names ih =>
    refine ih (fun m hm => hinj m (mem_cons_of_mem _ hm)) ?_
    beta_reduce
    by_cases ha : addr n = addr c
    · right
      rw [ha, update_self]
      exact hinj n mem_cons_self ha
    · rw [update_of_ne (Ne.symm ha)]
      rcases hc with hc | hc
      · rcases mem_cons.1 hc with rfl | hc
        · exact absurd rfl ha
        · exact .inl hc
      · exact .inr hc

theorem step_filed (h : Filed s) (hk : tx.KeepsApart s) (hr : tx.Registers)
    (hs : step d s tx = .ok s') : Filed s' ∧ s'.nativeCoinName = s.nativeCoinName ∧
      ∀ c, c = s.nativeCoinName ∨ s.coins c ≠ 0 →
        held d s' c = held d s c ∧ (Wrapped s' c ↔ Wrapped s c) ∧ (s'.coins c ≠ 0 ↔ s.coins c ≠ 0) := by
  cases tx with
  | register sender name decimals feeNumerator fixedFee addr deployed =>
    simp only [step, register, bind_ok, require_ok, decide_eq_true_eq] at hs
    obtain ⟨-, -, -, hname, -, hnew, -, hempty, -, -, hs⟩ := hs
    obtain ⟨hne, hdep⟩ := hk
    have hother : ∀ c, c = s.nativeCoinName ∨ s.coins c ≠ 0 → c ≠ name := by
      rintro c (rfl | h0) rfl
      · exact hname rfl
      · exact h0 hnew
    split at hs
    · next ha =>
      simp only [bind_ok, pure_ok] at hs
      obtain ⟨t, ht, rfl⟩ := hs
      have hft := h.deployTradable (hdep ha) ht
      simp only [deployTradable, bind_ok, require_ok, pure_ok, Bool.and_eq_true,
        decide_eq_true_eq] at ht
      obtain ⟨-, -, -, ⟨h0, -⟩, rfl⟩ := ht
      refine ⟨hft.addCoin hname hne h0 fun c _ => hdep ha c, rfl, fun c hc => ?_⟩
      simp [held, addCoin, Wrapped, hother c hc, hdep ha c]
    · next ha =>
      simp only [pure_ok] at hs
      subst hs
      refine ⟨h.addCoin hname hne ha fun c hc heq => ?_, rfl, fun c hc => ?_⟩
      · -- an address that is on file has a name
        have hfile := h.filed c hc (heq ▸ ha)
        rw [heq, hempty] at hfile
        exact h.named c hc (heq ▸ ha) hfile.symm
      · simp [held, addCoin, Wrapped, hother c hc]
  | setFeeRatio sender name feeNumerator fixedFee =>
    simp only [step, setFeeRatio, bind_ok, pure_ok] at hs
    obtain ⟨-, -, -, -, -, -, -, -, rfl⟩ := hs
    refine ⟨⟨h.zero, h.noNative, h.native, h.first, h.known, h.listed, h.named, h.filed,
      fun c hc h0 => ?_⟩, rfl, fun c _ => ⟨rfl, ?_, Iff.rfl⟩⟩
    · have := h.details c hc h0
      by_cases hcn : c = name
      · subst hcn; simpa using this
      · simpa [hcn] using this
    · by_cases hcn : c = name
      · subst hcn; simp [Wrapped]
      · simp [Wrapped, hcn]
  | updateCoinDb sender =>
    simp only [step, updateCoinDb, bind_ok, pure_ok] at hs
    obtain ⟨-, -, rfl⟩ := hs
    have hcoins : update s.coins s.nativeCoinName nativeCoinAddress = s.coins := by
      rw [← h.native, update_eq_self]
    have hdetails : ∀ c, c ≠ s.nativeCoinName → s.coins c ≠ 0 →
        (update s.coinDetails s.nativeCoinName
          { s.coinDetails s.nativeCoinName with addr := nativeCoinAddress } c).addr = s.coins c :=
      fun c hc h0 => by rw [update_of_ne hc]; exact h.details c hc h0
    refine ⟨?_, rfl, fun c _ => ⟨by simp only [held, hcoins], ?_, by simp only [hcoins]⟩⟩
    · rw [hcoins]
      refine ⟨h.zero, h.noNative, h.native, h.first, h.known, h.listed, h.named, fun c hc h0 => ?_,
        hdetails⟩
      rw [← hdetails c hc h0]
      refine foldl_update_eq (fun n hn ha => ?_) (.inl ?_)
      · simp only [mem_filter, decide_eq_true_eq] at hn
        have hn0 := h.known n hn.1 hn.2
        rw [hdetails n hn.2 hn0, hdetails c hc h0] at ha
        exact h.distinct.inj n c hn.2 hc hn0 ha
      · simpa [hc] using h.listed c hc h0
    · by_cases hcn : c = s.nativeCoinName <;> simp [Wrapped, hcn]
  | user | handleBTPMessage | handleBTPError | handleFeeGathering | routes => exact hr.elim

theorem step_registers_owed (hr : tx.Registers) (hs : step d s tx = .ok s') :
    owed d s' = owed d s := by
  obtain ⟨hreq, hser, -, hbal, hfee, -⟩ := step_registers hr hs
  funext c
  simp only [owed, owedToUsers, pendingFees, hreq, hser, hbal, hfee]

/-- The invariant: of an unknown coin nothing is owed, of a wrapped coin no
more than is held. -/
structure Solvent (d : Deployment) (s : St) : Prop where
  balanced : Balanced d s
  filed : Filed s
  unknown : ∀ c, c ≠ s.nativeCoinName → s.coins c = 0 → owed d s c = 0
  wrapped : ∀ c, Wrapped s c → owed d s c ≤ held d s c

theorem requestLoop_valid (h : requestLoop d target s assets rs = .ok s') (ha : a ∈ assets) :
    isValidCoin s a.coinName := by
  induction assets generalizing s rs with
  | nil => simp at ha
  | cons b assets ih =>
    simp only [requestLoop, bind_ok, require_ok] at h
    obtain ⟨-, hvalid, user, -, -, -, h⟩ := h
    split at h
    · next t ht =>
      have hreg := (mint_effect (tame_react d _) ht).registry
      simp only [registry, Prod.mk.injEq] at hreg
      rcases mem_cons.1 ha with rfl | ha
      · exact hvalid
      · have := ih h ha
        rwa [isValidCoin, hreg.1, hreg.2.2.1] at this
    · contradiction

theorem Executes.assetsOf_unknown (he : Executes d s tx assets) (hn : c ≠ s.nativeCoinName)
    (h0 : s.coins c = 0) : assetsOf c assets = 0 := by
  obtain ⟨_, _, _, _, target, rs, t, -, ht⟩ := he
  simp only [handleRequestService, bind_ok] at ht
  obtain ⟨-, -, ht⟩ := ht
  simp only [assetsOf, sum_eq_zero_iff, mem_map]
  rintro _ ⟨a, ha, rfl⟩
  have hvalid := requestLoop_valid ht ha
  rw [if_neg]
  rintro rfl
  simp [isValidCoin, h0, hn] at hvalid

theorem step_solvent (hi : Solvent d s) (hk : tx.KeepsApart s) (hs : step d s tx = .ok s') :
    Solvent d s' := by
  by_cases hr : tx.Registers
  · have howed := step_registers_owed hr hs
    obtain ⟨hfiled, hname, hheld⟩ := step_filed hi.filed hk hr hs
    have hold : ∀ c, c ≠ s.nativeCoinName → s.coins c = 0 → owed d s' c = 0 :=
      fun c hn h0 => (congrFun howed c).trans (hi.unknown c hn h0)
    refine ⟨step_balanced hi.balanced hs, hfiled, fun c hn h0 => ?_, fun c hw => ?_⟩
    · rw [hname] at hn
      by_cases hc : s.coins c = 0
      · exact hold c hn hc
      · exact absurd h0 ((hheld c (.inr hc)).2.2.2 hc)
    · by_cases hc : s.coins c = 0
      · have hn : c ≠ s.nativeCoinName := hname ▸ hw.2
        rw [hold c hn hc]
        exact Nat.zero_le _
      · obtain ⟨hh, hiff, -⟩ := hheld c (.inr hc)
        rw [hh, howed]
        exact hi.wrapped c (hiff.1 hw)
  · have hkeep : ∀ {h}, Conserves d h s s' → (∀ c, c ≠ s.nativeCoinName →
        s.coins c = 0 ∨ Wrapped s c → h c = 0) → Solvent d s' := by
      intro h hc hzero
      have hslack := hc.slack hi.filed.distinct
      have hreg := hc.registry
      simp only [registry, Prod.mk.injEq] at hreg
      refine ⟨hc.balanced hi.balanced, hi.filed.congr hc.registry, fun c hn h0 => ?_, fun c hw => ?_⟩
      · rw [hreg.1] at hn
        have h0s : s.coins c = 0 := hreg.2.2.1 ▸ h0
        have hs' := hslack c
        have hsum := hi.unknown c hn h0s
        have hz := hzero c hn (.inl h0s)
        simp only [slack, held, hreg.1, hreg.2.2.1, if_neg hn, if_pos h0s] at hs'
        omega
      · have hws : Wrapped s c := by rwa [Wrapped, hreg.1, hreg.2.2.2.1] at hw
        have hs' := hslack c
        have hsum := hi.wrapped c hws
        have hz := hzero c hws.2 (.inr hws)
        simp only [slack] at hs'
        omega
    rcases step_conserves hi.balanced.numbered hr hs with hc | ⟨assets, he, hc⟩
    · exact hkeep hc fun _ _ _ => rfl
    · refine hkeep hc fun c hn hcase => ?_
      rw [paidOut]
      split
      · rfl
      · next hw => simp [he.assetsOf_unknown hn (hcase.resolve_right hw)]

/-- Only a request that is carried out lowers the slack of a coin, and by no
more than it asks for. -/
theorem step_slack (hi : Solvent d s) (hk : tx.KeepsApart s)
    (hc : c = s.nativeCoinName ∨ s.coins c ≠ 0) (hs : step d s tx = .ok s') :
    slack d s c ≤ slack d s' c ∨
      ∃ assets, Executes d s tx assets ∧ slack d s c - assetsOf c assets ≤ slack d s' c := by
  by_cases hr : tx.Registers
  · left
    obtain ⟨-, -, hheld⟩ := step_filed hi.filed hk hr hs
    rw [slack, slack, (hheld c hc).1, step_registers_owed hr hs]
  · rcases step_conserves hi.balanced.numbered hr hs with hcons | ⟨assets, he, hcons⟩
    · left
      have := hcons.slack hi.filed.distinct c
      simp only [noSlack] at this
      omega
    · refine .inr ⟨assets, he, ?_⟩
      have := hcons.slack hi.filed.distinct c
      simp only [paidOut] at this
      split at this <;> omega

theorem initialState_solvent (hzero : code 0 = none) (hnative : code nativeCoinAddress = none) :
    Solvent d (initialState name fn ff native code erc20) := by
  have howed : ∀ c, owed d (initialState name fn ff native code erc20) c = 0 := fun c => by
    simp [owed, owedToUsers, pendingFees, initialState, weight_empty, total_zero]
  exact ⟨initialState_balanced, initialState_filed hzero hnative, fun c _ _ => howed c,
    fun c _ => howed c ▸ Nat.zero_le _⟩

theorem balance_le_owed :
    (s.balances u c).lockedBalance + (s.balances u c).refundableBalance ≤ owed d s c := by
  have := le_total (fun u => (s.balances u c).lockedBalance + (s.balances u c).refundableBalance) u
  simp only [owed, owedToUsers]
  omega

def incoming (target coinName : String) (value : Nat) : Message :=
  some { serviceType := .requestCoinTransfer,
         data := .transferCoin { sender := "hx12", target, assets := [{ coinName, value }] } }

/-- A wrapped coin without a name leaves `coinsAddress` empty, so its contract
is registered a second time, as a token from elsewhere. A request for that
token is then paid with the locked tokens of the wrapped coin. -/
def sharedAddress : List Tx :=
  [.routes fun _ => true,
   .register 4 "" 18 0 0 0 9,
   .register 4 "X" 18 0 0 9 0,
   .handleBTPMessage 2 "0x1.icon" serviceName 1
     (incoming "0x0000000000000000000000000000000000000003" "" 100) [],
   .user 3 (.approve 9 100),
   .user 3 (.transfer "" 100 "btp://0x1.icon/hx12"),
   .handleBTPMessage 2 "0x1.icon" serviceName 2
     (incoming "0x0000000000000000000000000000000000000005" "X" 100) []]

end IconBridge.Solidity.BTS
