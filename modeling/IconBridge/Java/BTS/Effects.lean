import Mathlib.Data.FinEnum
import IconBridge.Lib.Ledger
import IconBridge.Java.BTS.Writes

/-!
# What a call does to the cover of wrapped coins

The cover of a coin is what the service holds of it beyond what it owes. An
`Effect` says by how much a call raises the cover of every wrapped coin, at
least. Effects compose, so a call is described by the effects of its parts; the
`tokenFallback` that a token contract calls in the middle is one of them.
-/

namespace IconBridge.Java

def Address.equivProd : Address ≃ Bool × BitVec 160 where
  toFun a := (a.isContract, a.body)
  invFun p := ⟨p.1, p.2⟩

instance : Fintype Address := Fintype.ofEquiv _ Address.equivProd.symm

namespace BTS

open Lib List Option

variable {d : Deployment} {r : Receivers} {s s' t : St} {δ δ' : String → ℤ}

def Balance.sum (b : Balance) : ℤ := b.usable + b.locked + b.refundable

def owed (s : St) (c : String) : ℤ :=
  total (fun u => (s.balances c u).sum) + s.feeBalances c

def held (d : Deployment) (s : St) (c : String) : ℤ :=
  ((s.coinAddresses c).map fun a => (s.irc2 a).balances d.bts).getD 0

def cover (d : Deployment) (s : St) (c : String) : ℤ := held d s c - owed s c

def Wrapped (s : St) (c : String) : Prop :=
  ∃ k, s.coinDb c = some k ∧ k.coinType = .nativeWrapped

/-- Names and addresses of coins are in one-to-one correspondence, and wrapped
coins are the contracts that the service has deployed. -/
structure Registry (d : Deployment) (s : St) : Prop where
  nodup : (d.name :: s.coinNames).Nodup
  names : ∀ c, c ∈ s.coinNames ↔ (s.coinAddresses c).isSome
  name : ∀ c a, s.coinAddresses c = some a ↔ s.coinAddressName a = some c
  address : ∀ c k, s.coinDb c = some k → c ≠ d.name → s.coinAddresses c = some k.address
  native : ∀ k, s.coinDb d.name = some k → k.coinType = .native
  code : ∀ c k, s.coinDb c = some k → k.coinType = .nativeWrapped → s.code k.address = some .tradeable

/-- Pending requests carry amounts, and only the service spends its tokens. -/
structure Sound (d : Deployment) (s : St) : Prop extends Registry d s where
  positive : ∀ sn t, s.transactions sn = some t → ∀ a ∈ t.assets, 0 ≤ a.amount
  allowance : ∀ a, s.code a = some .tradeable → ∀ x ≠ d.bts, (s.irc2 a).allowances d.bts x ≤ 0

theorem Registry.wrapped (h : Registry d s) (hw : Wrapped s c) :
    c ≠ d.name ∧ ∃ a, s.coinAddresses c = some a ∧ s.code a = some .tradeable := by
  obtain ⟨k, hk, hty⟩ := hw
  have hne : c ≠ d.name := by
    rintro rfl
    simp [h.native k hk] at hty
  exact ⟨hne, k.address, h.address c k hk hne, h.code c k hk hty⟩

/-- The coins are kept and the cover of each wrapped one rises by at least `δ`.
A name without a coin is owed nothing new. -/
structure Effect (d : Deployment) (δ : String → ℤ) (s s' : St) : Prop where
  coinNames : s'.coinNames = s.coinNames
  coinAddresses : s'.coinAddresses = s.coinAddresses
  coinAddressName : s'.coinAddressName = s.coinAddressName
  coinDb : s'.coinDb = s.coinDb
  code : s'.code = s.code
  cover : ∀ c, Wrapped s c → cover d s c + δ c ≤ cover d s' c
  owed : ∀ c, s.coinAddresses c = none → c ≠ d.name → owed s' c = owed s c
  positive : (∀ sn t, s.transactions sn = some t → ∀ a ∈ t.assets, 0 ≤ a.amount) →
    ∀ sn t, s'.transactions sn = some t → ∀ a ∈ t.assets, 0 ≤ a.amount
  allowance : ∀ a, s.code a = some .tradeable →
    ∀ x ≠ d.bts, (s'.irc2 a).allowances d.bts x = (s.irc2 a).allowances d.bts x

theorem Effect.registry (h : Effect d δ s s') (hs : Registry d s) : Registry d s' where
  nodup := by rw [h.coinNames]; exact hs.nodup
  names := by rw [h.coinNames, h.coinAddresses]; exact hs.names
  name := by rw [h.coinAddresses, h.coinAddressName]; exact hs.name
  address := by rw [h.coinDb, h.coinAddresses]; exact hs.address
  native := by rw [h.coinDb]; exact hs.native
  code := by rw [h.coinDb, h.code]; exact hs.code

theorem Effect.sound (h : Effect d δ s s') (hs : Sound d s) : Sound d s' where
  toRegistry := h.registry hs.toRegistry
  positive := h.positive hs.positive
  allowance a ha x hx := by
    rw [h.code] at ha
    rw [h.allowance a ha x hx]
    exact hs.allowance a ha x hx

theorem Effect.wrapped (h : Effect d δ s s') : Wrapped s' c ↔ Wrapped s c := by
  rw [Wrapped, h.coinDb, Wrapped]

theorem Effect.refl : Effect d 0 s s :=
  ⟨rfl, rfl, rfl, rfl, rfl, fun _ _ => by simp, fun _ _ _ => rfl, id, fun _ _ _ _ => rfl⟩

theorem Effect.trans (h1 : Effect d δ s t) (h2 : Effect d δ' t s') : Effect d (δ + δ') s s' where
  coinNames := h2.coinNames.trans h1.coinNames
  coinAddresses := h2.coinAddresses.trans h1.coinAddresses
  coinAddressName := h2.coinAddressName.trans h1.coinAddressName
  coinDb := h2.coinDb.trans h1.coinDb
  code := h2.code.trans h1.code
  cover c hc := by
    have h1c := h1.cover c hc
    have h2c := h2.cover c (h1.wrapped.2 hc)
    simp only [Pi.add_apply]
    omega
  owed c hc hn := (h2.owed c (h1.coinAddresses ▸ hc) hn).trans (h1.owed c hc hn)
  positive h := h2.positive (h1.positive h)
  allowance a ha x hx := (h2.allowance a (h1.code ▸ ha) x hx).trans (h1.allowance a ha x hx)

theorem Effect.mono (h : Effect d δ s s') (hδ : ∀ c, Wrapped s c → δ' c ≤ δ c) :
    Effect d δ' s s' :=
  { h with cover := fun c hc => (Int.add_le_add_left (hδ c hc) _).trans (h.cover c hc) }

theorem Effect.trans_zero (h1 : Effect d 0 s t) (h2 : Effect d 0 t s') : Effect d 0 s s' := by
  simpa using h1.trans h2

def books (s : St) :=
  (s.coinNames, s.coinAddresses, s.coinAddressName, s.coinDb, s.code, s.balances, s.feeBalances,
    s.irc2, s.transactions)

theorem Effect.of_books (h : books s' = books s) : Effect d 0 s s' := by
  simp only [books, Prod.mk.injEq] at h
  obtain ⟨h1, h2, h3, h4, h5, h6, h7, h8, h9⟩ := h
  refine ⟨h1, h2, h3, h4, h5, fun c _ => ?_, fun c _ _ => ?_, fun h => h9 ▸ h, fun a _ x _ => by rw [h8]⟩
  · simp [BTS.cover, held, BTS.owed, h2, h6, h7, h8]
  · rw [BTS.owed, h6, h7, BTS.owed]

/-- The loop rule: the entries of all rounds are posted. -/
theorem Effect.foldlM_sum {f : St → α → Outcome St} {xs : List α} {δ : α → String → ℤ}
    (hf : ∀ s x s', x ∈ xs → Sound d s → f s x = .ok s' → Effect d (δ x) s s') (hs : Sound d s)
    (h : xs.foldlM f s = .ok s') : Effect d (fun c => (xs.map (δ · c)).sum) s s' := by
  induction xs generalizing s with
  | nil =>
    cases h
    exact .refl
  | cons x xs ih =>
    simp only [foldlM_cons, bind_ok] at h
    obtain ⟨t, ht, h⟩ := h
    have hx := hf s x t mem_cons_self hs ht
    have hxs := ih (fun s y s' hy => hf s y s' (mem_cons_of_mem _ hy)) (hx.sound hs) h
    exact (hx.trans hxs).mono fun c _ => by simp

theorem Effect.foldlM {f : St → α → Outcome St} {xs : List α}
    (hf : ∀ s x s', x ∈ xs → Sound d s → f s x = .ok s' → Effect d 0 s s') (hs : Sound d s)
    (h : xs.foldlM f s = .ok s') : Effect d 0 s s' :=
  (Effect.foldlM_sum hf hs h).mono fun c _ => by simp

def on (c : String) (v : ℤ) : String → ℤ := fun x => if x = c then v else 0

theorem on_of_wrapped (hk : s.coinDb c = some k) (hty : k.coinType ≠ .nativeWrapped)
    (hw : Wrapped s x) : on c v x = 0 := by
  refine if_neg ?_
  rintro rfl
  obtain ⟨k', hk', hty'⟩ := hw
  obtain rfl : k = k' := Option.some.inj (hk.symm.trans hk')
  exact hty hty'

theorem owed_setBalance : owed (setBalance s c u b) x =
    owed s x + on c (b.sum - (s.balances c u).sum) x := by
  simp only [owed, setBalance, on]
  split
  · next heq =>
    subst heq
    have hcomp : (fun v => (Function.update (s.balances x) u b v).sum) =
        Function.update (fun v => (s.balances x v).sum) u b.sum := by
      funext v
      exact Function.apply_update (fun _ => Balance.sum) (s.balances x) u b v
    have htotal := total_update (fun v => (s.balances x v).sum) u b.sum
    rw [Function.update_self, hcomp]
    omega
  · next hne => simp [hne]

theorem setBalance_effect (hc : (s.coinAddresses c).isSome ∨ c = d.name) :
    Effect d (on c ((s.balances c u).sum - b.sum)) s (setBalance s c u b) := by
  refine ⟨rfl, rfl, rfl, rfl, rfl, fun x _ => ?_, fun x hx hn => ?_, id, fun _ _ _ _ => rfl⟩
  · have hheld : held d (setBalance s c u b) x = held d s x := rfl
    rw [cover, cover, hheld, owed_setBalance]
    simp only [on]
    split <;> omega
  · rw [owed_setBalance, on, if_neg, add_zero]
    rintro rfl
    rcases hc with hc | rfl
    · simp [hx] at hc
    · exact hn rfl

theorem addFee_effect (hc : (s.coinAddresses c).isSome ∨ c = d.name) :
    Effect d (on c (-v)) s (addFee s c v) := by
  have howed : ∀ x, owed (addFee s c v) x = owed s x + on c v x := by
    intro x
    simp only [owed, addFee, on, Function.update_apply]
    split
    · next heq => subst heq; omega
    · omega
  refine ⟨rfl, rfl, rfl, rfl, rfl, fun x _ => ?_, fun x hx hn => ?_, id, fun _ _ _ _ => rfl⟩
  · have hheld : held d (addFee s c v) x = held d s x := rfl
    rw [cover, cover, hheld, howed]
    simp only [on]
    split <;> omega
  · rw [howed, on, if_neg, add_zero]
    rintro rfl
    rcases hc with hc | rfl
    · simp [hx] at hc
    · exact hn rfl

def onToken (s : St) (token : Address) (v : ℤ) : String → ℤ :=
  fun c => if s.coinAddresses c = some token then v else 0

theorem Registry.onToken (hs : Registry d s) (hc : s.coinAddresses c = some token) :
    onToken s token v = on c v := by
  funext x
  simp only [BTS.onToken, on]
  refine if_congr ⟨fun hx => ?_, fun hx => hx ▸ hc⟩ rfl rfl
  exact Option.some.inj (((hs.name x token).1 hx).symm.trans ((hs.name c token).1 hc))

theorem setIRC2_effect (hall : s.code token = some .tradeable →
      ∀ x ≠ d.bts, k.allowances d.bts x = (s.irc2 token).allowances d.bts x) :
    Effect d (onToken s token (k.balances d.bts - (s.irc2 token).balances d.bts)) s
      (setIRC2 s token k) := by
  refine ⟨rfl, rfl, rfl, rfl, rfl, fun c _ => ?_, fun _ _ _ => rfl, id, fun a ha x hx => ?_⟩
  · have howed : owed (setIRC2 s token k) c = owed s c := rfl
    rw [cover, cover, howed]
    simp only [held, setIRC2, onToken]
    cases s.coinAddresses c with
    | none => simp
    | some a =>
      simp only [map_some, getD_some, Option.some.injEq, Function.update_apply]
      split
      · next heq => subst heq; omega
      · omega
  · simp only [setIRC2, Function.update_apply]
    split
    · next heq => subst heq; exact hall ha x hx
    · rfl

theorem tokenFallback_effect (hs : Registry d s) (h : tokenFallback d s token sender v = .ok s') :
    d.bts ≠ sender ∧ Effect d (onToken s token (-v)) s s' := by
  simp only [tokenFallback, bind_ok] at h
  obtain ⟨_, -, _, -, h⟩ := h
  split at h
  · contradiction
  · next c hname =>
    simp only [bind_ok, pure_ok, require_ok, decide_eq_true_eq] at h
    obtain ⟨_, hne, _, hsome, rfl⟩ := h
    refine ⟨hne, ?_⟩
    rw [hs.onToken ((hs.name c token).2 hname)]
    have heff := setBalance_effect (d := d) (s := s) (u := sender) (.inl hsome)
      (b := { s.balances c sender with usable := (s.balances c sender).usable + v })
    refine heff.mono fun x _ => le_of_eq ?_
    simp only [on, Balance.sum]
    split <;> omega

theorem fallback_bts : fallback d r s token sender d.bts v = tokenFallback d s token sender v := by
  simp [fallback, d.isContract]

theorem fallback_other (hne : target ≠ d.bts)
    (h : fallback d r s token sender target v = .ok s') : s' = s := by
  simp only [fallback, if_neg hne] at h
  split at h
  · simp only [bind_ok, pure_ok] at h
    obtain ⟨_, -, rfl⟩ := h
    rfl
  · cases h
    rfl

theorem fallback_effect (hs : Registry d s) (h : fallback d r s token sender target v = .ok s') :
    Effect d (onToken s token (if target = d.bts then -v else 0)) s s' := by
  split
  · next heq =>
    rw [heq, fallback_bts] at h
    exact (tokenFallback_effect hs h).2
  · next hne =>
    rw [fallback_other hne h]
    exact Effect.refl.mono fun c _ => by simp [onToken]

/-- A transfer into the service leaves the cover, one out of it takes from it. -/
theorem moved_effect (hs : Registry d s)
    (hbal : k.balances d.bts = (s.irc2 token).balances d.bts - (if d.bts = sender then v else 0)
      + (if d.bts = target then v else 0))
    (hall : s.code token = some .tradeable →
      ∀ x ≠ d.bts, k.allowances d.bts x = (s.irc2 token).allowances d.bts x)
    (h : fallback d r (setIRC2 s token k) token sender target v = .ok s') :
    Effect d (onToken s token (if sender = d.bts then -v else 0)) s s' := by
  have hset := setIRC2_effect (d := d) hall
  have hs' : Registry d (setIRC2 s token k) := ⟨hs.nodup, hs.names, hs.name, hs.address, hs.native, hs.code⟩
  refine (hset.trans (fallback_effect hs' h)).mono fun c _ => le_of_eq ?_
  simp only [Pi.add_apply, onToken, setIRC2, hbal, eq_comm (a := d.bts)]
  repeat' split
  all_goals omega

theorem tokenTransfer_effect (hs : Registry d s)
    (h : tokenTransfer d r s token sender target v = .ok s') :
    Effect d (onToken s token (if sender = d.bts then -v else 0)) s s' := by
  simp only [tokenTransfer, bind_ok] at h
  obtain ⟨_, -, k, hk, h⟩ := h
  obtain ⟨hall, -, -, hbal⟩ := IRC2.transfer_ok hk
  exact moved_effect hs (hbal d.bts) (fun _ x _ => by rw [hall]) h

theorem tokenTransferFrom_effect (hs : Sound d s)
    (h : tokenTransferFrom d r s token caller sender target v = .ok s') :
    Effect d (onToken s token (if sender = d.bts ∧ caller = d.bts then -v else 0)) s s' := by
  simp only [tokenTransferFrom, IRC2.transferFrom, bind_ok, require_ok, decide_eq_true_eq] at h
  obtain ⟨_, -, k, ⟨_, hcover, hk⟩, h⟩ := h
  obtain ⟨hall, hv, -, hbal⟩ := IRC2.transfer_ok hk
  have hzero : s.code token = some .tradeable → sender = d.bts → caller ≠ d.bts →
      v = 0 ∧ (s.irc2 token).allowances d.bts caller = 0 := by
    rintro hcode rfl hne
    have := hs.allowance token hcode caller hne
    omega
  have heff := moved_effect hs.toRegistry (hbal d.bts) (fun hcode x hx => ?_) h
  · refine heff.mono fun c hw => ?_
    obtain ⟨-, a, ha, hcode⟩ := hs.wrapped hw
    simp only [onToken]
    split
    · next heq =>
      obtain rfl : a = token := Option.some.inj (ha.symm.trans heq)
      have := hzero hcode
      split <;> split <;> simp_all
    · exact le_rfl
  · rw [hall, IRC2.approve_apply]
    split
    · next heq =>
      obtain ⟨rfl, rfl⟩ := heq
      have := hzero hcode rfl hx
      omega
    · rfl

theorem tokenTransferFrom_bts (hs : Registry d s)
    (h : tokenTransferFrom d r s token caller sender d.bts v = .ok s') : sender ≠ d.bts := by
  simp only [tokenTransferFrom, bind_ok, fallback_bts] at h
  obtain ⟨_, -, k, -, h⟩ := h
  have hs' : Registry d (setIRC2 s token k) := ⟨hs.nodup, hs.names, hs.name, hs.address, hs.native, hs.code⟩
  exact (tokenFallback_effect hs' h).1.symm

theorem transferFrom_in_effect (hs : Sound d s)
    (h : transferFrom d r s sender d.bts coinName v = .ok s') : Effect d 0 s s' := by
  simp only [transferFrom, bind_ok, nonNull_ok] at h
  obtain ⟨coin, -, h⟩ := h
  split at h
  · simp only [bind_ok, nonNull_ok, mapError_ok] at h
    obtain ⟨token, -, h⟩ := h
    have hne := tokenTransferFrom_bts hs.toRegistry h
    exact (tokenTransferFrom_effect hs h).mono fun c _ => by simp [onToken, hne]
  · cases h; exact .refl

theorem tokenApprove_effect (h : owner = d.bts → spender = d.bts) :
    Effect d 0 s (tokenApprove s token owner spender v) := by
  refine (setIRC2_effect fun _ x hx => ?_).mono fun c _ => by simp [onToken]
  rw [IRC2.approve_apply, if_neg]
  rintro ⟨howner, rfl⟩
  exact hx (h howner.symm)

/-- What leaves the service leaves its cover; what cannot leave changes nothing. -/
theorem sendOut_effect (hs : Sound d s) (h : sendOut d r s target c v = (s', e)) :
    Effect d (if e.isSome then 0 else on c (-v)) s s' := by
  cases sendOut_leaves h with
  | native k hk hty =>
    exact Effect.refl.mono fun x hx => (on_of_wrapped hk (by simp [hty]) hx).le
  | wrapped k token _ hk hty htoken hmove =>
    have happrove : Effect d 0 s (tokenApprove s token d.bts d.bts v) :=
      tokenApprove_effect fun _ => rfl
    have hs' := happrove.sound hs
    have haddr : (tokenApprove s token d.bts d.bts v).coinAddresses c = some token := htoken
    have heff := tokenTransferFrom_effect hs' hmove
    rw [hs'.onToken haddr] at heff
    simpa using happrove.trans heff
  | approved => exact tokenApprove_effect fun _ => rfl
  | foreign token _ htoken hmove =>
    have heff := tokenTransfer_effect hs.toRegistry hmove
    rw [hs.onToken htoken] at heff
    simpa using heff
  | failed => exact .refl

theorem transferOut_effect (hs : Sound d s) (h : transferOut d r target s a = .ok s') :
    Effect d (on a.1 (-a.2)) s s' := by
  unfold transferOut at h
  split at h
  · next ht =>
    cases h
    simpa using sendOut_effect hs ht
  · contradiction

theorem Registry.of_coinDb (hs : Registry d s) (hk : s.coinDb c = some k)
    (hty : k.coinType = .nativeWrapped) : s.coinAddresses c = some k.address := by
  obtain ⟨hne, -⟩ := hs.wrapped ⟨k, hk, hty⟩
  exact hs.address c k hk hne

theorem mint_effect (hs : Sound d s) (h : mint d r target s a = .ok s') : Effect d 0 s s' := by
  simp only [mint, bind_ok, nonNull_ok] at h
  obtain ⟨coin, hcoin, h⟩ := h
  split at h
  · next hty =>
    simp only [bind_ok, pure_ok, mapError_ok] at h
    obtain ⟨k, hk, rfl⟩ := h
    obtain ⟨hall, hpos, hbal⟩ := IRC2.mint_ok hk
    refine (setIRC2_effect fun _ x _ => by rw [hall]).mono fun c _ => ?_
    simp only [onToken, hbal, Pi.zero_apply]
    repeat' split
    all_goals omega
  · next hty =>
    split at h
    · contradiction
    · next token htoken =>
      rw [mapError_ok] at h
      have heff := tokenTransfer_effect hs.toRegistry h
      rw [hs.onToken htoken] at heff
      exact heff.mono fun c hc => (on_of_wrapped hcoin hty hc).ge

theorem burn_effect (hs : Sound d s) (h : burn d s a = .ok s') : Effect d (on a.1 (-a.2)) s s' := by
  simp only [burn, bind_ok, nonNull_ok] at h
  obtain ⟨coin, hcoin, h⟩ := h
  split at h
  · next hty =>
    simp only [bind_ok, pure_ok, mapError_ok] at h
    obtain ⟨k, hk, rfl⟩ := h
    obtain ⟨hall, hbal⟩ := IRC2.burn_ok hk
    have heff : Effect d (onToken s coin.address
        (k.balances d.bts - (s.irc2 coin.address).balances d.bts)) s (setIRC2 s coin.address k) :=
      setIRC2_effect fun _ x _ => by rw [hall]
    rw [hs.onToken (hs.of_coinDb hcoin hty)] at heff
    refine heff.mono fun c _ => le_of_eq ?_
    simp [on, hbal]
  · next hty =>
    cases h
    exact Effect.refl.mono fun c hc => (on_of_wrapped hcoin hty hc).le

theorem payICX_effect (h : payICX d r s target v = .ok s') : Effect d 0 s s' := by
  simp only [payICX, bind_ok, pure_ok] at h
  obtain ⟨_, -, _, -, rfl⟩ := h
  exact .of_books rfl

theorem attach_effect (h : attach d s sender value = .ok s') : Effect d 0 s s' := by
  simp only [attach, bind_ok, pure_ok] at h
  obtain ⟨_, -, rfl⟩ := h
  exact .of_books rfl

theorem sendMessage_effect (h : sendMessage s net ty sn data = .ok s') : Effect d 0 s s' := by
  simp only [sendMessage, bind_ok, pure_ok] at h
  obtain ⟨_, -, _, -, rfl⟩ := h
  exact .of_books rfl

def amountOf (as : List (String × ℤ)) (c : String) : ℤ :=
  (as.map fun a => on a.1 a.2 c).sum

theorem Registry.registered (hs : Registry d s) (h : isRegistered d s c = true) :
    (s.coinAddresses c).isSome ∨ c = d.name := by
  simp only [isRegistered, Bool.or_eq_true, decide_eq_true_eq] at h
  exact h.imp (hs.names c).1 Eq.symm

theorem Registry.known (hs : Registry d s) (h : s.coinDb c = some k) :
    (s.coinAddresses c).isSome ∨ c = d.name := by
  rcases eq_or_ne c d.name with heq | hne
  · exact .inr heq
  · exact .inl (by rw [hs.address c k h hne]; rfl)

theorem lock_effect (hs : Registry d s) (h : lock s owner a = .ok s') :
    Effect d (on a.1 (-a.2)) s s' := by
  simp only [lock, bind_ok, nonNull_ok] at h
  obtain ⟨coin, hcoin, h⟩ := h
  have hset := fun b => setBalance_effect (u := owner) (b := b) (hs.known hcoin)
  split at h
  · next hty =>
    simp only [bind_ok, pure_ok] at h
    obtain ⟨_, -, rfl⟩ := h
    have hne : coin.coinType ≠ .nativeWrapped := by simp [hty]
    exact (hset _).mono fun c hc =>
      ((on_of_wrapped hcoin hne hc).trans (on_of_wrapped hcoin hne hc).symm).le
  · cases h
    refine (hset _).mono fun c _ => ?_
    simp only [on, Balance.sum]
    split <;> omega

theorem unlock_effect (hc : (s.coinAddresses c).isSome ∨ c = d.name) :
    Effect d (on c v) s (unlock s c u v) := by
  refine (setBalance_effect hc).mono fun x _ => ?_
  simp only [on, Balance.sum]
  split <;> omega

theorem settle_effect (hs : Registry d s) (h : settle d owner s a = .ok s') :
    Effect d (on a.coinName a.amount) s s' := by
  simp only [settle, bind_ok, pure_ok, require_ok] at h
  obtain ⟨_, hreg, rfl⟩ := h
  have hc := hs.registered hreg
  refine ((unlock_effect (u := owner) hc).trans (addFee_effect hc)).mono fun x _ => ?_
  simp only [on, Pi.add_apply]
  split <;> omega

theorem sendOut_failed (h : sendOut d r s target c v = (s', some e)) : s'.balances = s.balances := by
  cases sendOut_leaves h with
  | approved | failed => rfl

theorem payBack_failed (h : payBack d r s c owner v = (s', some e)) : s'.balances = s.balances := by
  unfold payBack at h
  split at h
  · split at h
    · cases h
    · cases h
      rfl
  · exact sendOut_failed h

theorem payBack_effect (hs : Sound d s) (h : payBack d r s c owner v = (s', e)) :
    Effect d (if e.isSome then 0 else on c (-v)) s s' := by
  unfold payBack at h
  split at h
  · next hname =>
    have hzero : ∀ x, Wrapped s x → on c (-v) x = 0 := fun x hx =>
      if_neg (hname ▸ (hs.wrapped hx).1)
    split at h
    · next t ht =>
      cases h
      exact (payICX_effect ht).mono fun x hx => (hzero x hx).le
    · cases h
      exact .refl
  · exact sendOut_effect hs h

/-- What was locked is paid back or kept for the owner, or it was the service's
own; the fee is kept. -/
theorem refund_effect (hs : Sound d s) (hc : (s.coinAddresses c).isSome ∨ c = d.name)
    (hv : 0 ≤ locked - fee) : Effect d 0 s (refund d r s c owner locked fee) := by
  unfold refund
  dsimp only
  have hunlock := unlock_effect (u := owner) (v := locked) hc
  obtain ⟨t, e, hpay⟩ : ∃ t e, payBack d r (unlock s c owner locked) c owner (locked - fee) = (t, e) :=
    ⟨_, _, rfl⟩
  have hpaid := hunlock.trans (payBack_effect (hunlock.sound hs) hpay)
  have hct : (t.coinAddresses c).isSome ∨ c = d.name := by rwa [hpaid.coinAddresses]
  rw [hpay]
  dsimp only
  split
  · next hkept =>
    -- the receiver did not take it, so the owner can reclaim it
    obtain ⟨e, rfl⟩ := isSome_iff_exists.1 hkept.1
    have hset := setBalance_effect (u := owner) hct
      (b := { (unlock s c owner locked).balances c owner with
        refundable := ((unlock s c owner locked).balances c owner).refundable + (locked - fee) })
    have hall := (hpaid.trans hset).trans (addFee_effect (v := fee) (by rwa [hset.coinAddresses]))
    refine hall.mono fun x _ => ?_
    rw [payBack_failed hpay]
    simp only [Pi.add_apply, Pi.zero_apply, isSome_some, if_true, on, Balance.sum]
    split <;> omega
  · refine (hpaid.trans (addFee_effect (v := fee) hct)).mono fun x _ => ?_
    cases e <;> simp only [isSome_none, isSome_some, Bool.false_eq_true, if_true,
      if_false, Pi.add_apply, Pi.zero_apply, on] <;> split <;> omega

end BTS

end IconBridge.Java
