import IconBridge.Java.BTS.Solvency

/-!
# What an incoming request pays

The loop of `handleRequest` collects tokens in a list and the native coin in
one variable, which a later asset overwrites. Tokens are paid in full, however
often a coin is named; the native coin is when it is named once.
-/

namespace IconBridge.Java.BTS

open Lib List

variable {d : Deployment} {r : Receivers} {s s' : St}

def holding (d : Deployment) (s : St) (a : Address) (c : String) : ℤ :=
  if c = d.name then s.icx a
  else ((s.coinAddresses c).map fun token => (s.irc2 token).balances a).getD 0

theorem Registry.native_address (hs : Registry d s) : s.coinAddresses d.name = none := by
  have hnotMem : d.name ∉ s.coinNames := (nodup_cons.1 hs.nodup).1
  simpa [hs.names] using hnotMem

theorem holding_setIRC2 (hs : Registry d s) (hc : s.coinAddresses c = some token) :
    holding d (setIRC2 s token k) a x =
      holding d s a x + on c (k.balances a - (s.irc2 token).balances a) x := by
  rw [← hs.onToken hc]
  by_cases hx : x = d.name
  · simp [holding, onToken, hx, setIRC2, hs.native_address]
  · simp only [holding, if_neg hx, onToken, setIRC2]
    cases s.coinAddresses x with
    | none => simp
    | some t =>
      by_cases ht : t = token
      · simp [ht]
      · simp [ht]

/-- The service does not send tokens to itself: `tokenFallback` rejects them. -/
theorem tokenTransfer_out (hs : Registry d s)
    (h : tokenTransfer d r s token d.bts target v = .ok s') :
    target ≠ d.bts ∧ ∃ k, (s.irc2 token).transfer d.bts target v = .ok k ∧ s' = setIRC2 s token k := by
  simp only [tokenTransfer, bind_ok] at h
  obtain ⟨_, -, k, hk, h⟩ := h
  have hne : target ≠ d.bts := by
    rintro rfl
    rw [fallback_bts] at h
    have hs' : Registry d (setIRC2 s token k) :=
      ⟨hs.nodup, hs.names, hs.name, hs.address, hs.native, hs.code⟩
    exact (tokenFallback_effect hs' h).1 rfl
  exact ⟨hne, k, hk, fallback_other hne h⟩

theorem payICX_pays (hne : target ≠ d.bts) (h : payICX d r s target v = .ok s') (c : String) :
    holding d s' target c = holding d s target c + on d.name v c := by
  simp only [payICX, bind_ok, pure_ok] at h
  obtain ⟨_, -, _, -, rfl⟩ := h
  by_cases hc : c = d.name
  · simp [holding, on, hc, hne]
  · simp [holding, on, hc]

theorem payNative_pays (hne : amount.isSome → target ≠ d.bts)
    (h : payNative d r s target amount = .ok s') (c : String) :
    holding d s' target c = holding d s target c + on d.name (amount.getD 0) c := by
  cases amount with
  | none =>
    cases h
    simp [on]
  | some v =>
    rw [payNative, mapError_ok] at h
    exact payICX_pays (hne rfl) h c

theorem mint_pays (hs : Sound d s) (hname : a.1 ≠ d.name) (h : mint d r target s a = .ok s')
    (c : String) : holding d s' target c = holding d s target c + on a.1 a.2 c := by
  simp only [mint, bind_ok, nonNull_ok] at h
  obtain ⟨coin, hcoin, h⟩ := h
  split at h
  · simp only [bind_ok, pure_ok, mapError_ok] at h
    obtain ⟨k, hk, rfl⟩ := h
    obtain ⟨-, -, hbal⟩ := IRC2.mint_ok hk
    rw [holding_setIRC2 hs.toRegistry (hs.address a.1 coin hcoin hname), hbal]
    simp
  · split at h
    · contradiction
    · next token htoken =>
      rw [mapError_ok] at h
      obtain ⟨hne, k, hk, rfl⟩ := tokenTransfer_out hs.toRegistry h
      obtain ⟨-, -, -, hbal⟩ := IRC2.transfer_ok hk
      rw [holding_setIRC2 hs.toRegistry htoken, hbal]
      simp [hne]

theorem mints_pay {tokens : List (String × ℤ)} (hs : Sound d s)
    (hnames : ∀ a ∈ tokens, a.1 ≠ d.name) (h : tokens.foldlM (mint d r target) s = .ok s')
    (c : String) : holding d s' target c = holding d s target c + amountOf tokens c := by
  induction tokens generalizing s with
  | nil =>
    cases h
    simp
  | cons a tokens ih =>
    simp only [foldlM_cons, bind_ok] at h
    obtain ⟨t, ht, h⟩ := h
    have hrest := ih ((mint_effect hs ht).sound hs)
      (fun b hb => hnames b (mem_cons_of_mem _ hb)) h
    rw [hrest, mint_pays hs (hnames a mem_cons_self) ht c, amountOf_cons]
    omega

def asked (assets : List Asset) : String → ℤ :=
  amountOf (assets.map fun a => (a.coinName, a.amount))

def nativeAssets (d : Deployment) (assets : List Asset) : List Asset :=
  assets.filter fun a => a.coinName = d.name

/-- The tokens add up; of the native coin the last amount is left. -/
theorem addAssets_ok {assets : List Asset} (hs : Registry d s)
    (h : assets.foldlM (addAsset d s sender target) p = .ok p') :
    p'.tokens = p.tokens ++ (assets.filter fun a => a.coinName ≠ d.name).map
        (fun a => (a.coinName, a.amount)) ∧
      p'.native = ((nativeAssets d assets).getLast?.map Asset.amount).or p.native := by
  induction assets generalizing p with
  | nil =>
    cases h
    simp [nativeAssets]
  | cons a assets ih =>
    simp only [foldlM_cons, addAsset, bind_ok, require_ok, Bool.or_eq_true,
      decide_eq_true_eq] at h
    obtain ⟨q, ⟨_, -, _, hname, _, -, hq⟩, h⟩ := h
    obtain ⟨htokens, hnative⟩ := ih h
    have hmem : a.coinName ∈ s.coinNames ↔ a.coinName ≠ d.name := by
      refine ⟨fun hin heq => (nodup_cons.1 hs.nodup).1 (heq ▸ hin), fun hne => ?_⟩
      exact hname.resolve_right (Ne.symm hne)
    split at hq
    · next hin =>
      cases hq
      have hne := hmem.1 hin
      simp_all [nativeAssets]
    · next hin =>
      cases hq
      have heq : a.coinName = d.name := not_not.1 (mt hmem.2 hin)
      refine ⟨by simp [htokens, heq], ?_⟩
      rw [hnative]
      simp only [nativeAssets, filter_cons, heq, decide_true, if_true, getLast?_cons]
      cases (assets.filter fun a => a.coinName = d.name).getLast? <;> rfl

theorem asked_split (d : Deployment) (assets : List Asset) (c : String) :
    asked assets c = amountOf ((assets.filter fun a => a.coinName ≠ d.name).map
        fun a => (a.coinName, a.amount)) c + asked (nativeAssets d assets) c := by
  induction assets with
  | nil => rfl
  | cons a assets ih =>
    simp only [asked, nativeAssets, map_cons, amountOf_cons, filter_cons] at ih ⊢
    by_cases h : a.coinName = d.name
    · simp only [h, decide_true, ne_eq, not_true_eq_false, decide_false, if_true, map_cons,
        amountOf_cons, ih]
      simp only [Bool.false_eq_true, if_false]
      omega
    · simp only [h, ne_eq, not_false_eq_true, decide_true, decide_false, if_true, map_cons,
        amountOf_cons, ih]
      simp only [Bool.false_eq_true, if_false]
      omega

theorem asked_native (h : (nativeAssets d assets).length ≤ 1) (c : String) :
    asked (nativeAssets d assets) c =
      on d.name (((nativeAssets d assets).getLast?.map Asset.amount).getD 0) c := by
  match hassets : nativeAssets d assets with
  | [] => simp [asked, on]
  | [a] =>
    have hname : a.coinName = d.name := by
      have hmem : a ∈ nativeAssets d assets := by simp [hassets]
      simpa [nativeAssets] using (mem_filter.1 hmem).2
    simp [asked, hname]
  | _ :: _ :: _ => simp [hassets] at h

theorem handleRequest_pays (hs : Sound d s) (h : handleRequest d r s request sender sn = .ok s')
    (htarget : d.fromString request.target = some target)
    (honce : (nativeAssets d request.assets).length ≤ 1)
    (hself : target = d.bts → nativeAssets d request.assets = []) (c : String) :
    holding d s' target c = holding d s target c + asked request.assets c := by
  simp only [handleRequest, htarget, sendMessage, bind_ok, pure_ok] at h
  obtain ⟨_, -, p, hp, t, ht, u, hu, _, ⟨-, -, -, -, rfl⟩, rfl⟩ := h
  obtain ⟨htokens, hnative⟩ := addAssets_ok hs.toRegistry hp
  rw [nil_append] at htokens
  rw [Option.or_none] at hnative
  have hnames : ∀ a ∈ p.tokens, a.1 ≠ d.name := by
    intro a ha
    rw [htokens] at ha
    obtain ⟨b, hb, rfl⟩ := mem_map.1 ha
    simpa using (mem_filter.1 hb).2
  have hne : p.native.isSome → target ≠ d.bts := by
    rintro hsome heq
    simp [hnative, hself heq] at hsome
  calc holding d u target c
      = holding d t target c + amountOf p.tokens c :=
        mints_pay ((payNative_effect ht).sound hs) hnames hu c
    _ = holding d s target c + on d.name (p.native.getD 0) c + amountOf p.tokens c := by
        rw [payNative_pays hne ht c]
    _ = holding d s target c + asked request.assets c := by
        rw [asked_split d request.assets c, ← htokens, asked_native honce, ← hnative]
        omega

def fundedState : St :=
  initialState sample 0 0 (fun a => if a = sample.bts then 100 else 0) (fun _ => none) fun _ => {}

def requestOf (assets : List Asset) : TransferRequest :=
  { sender := "0x05", target := "hx3", assets }

end IconBridge.Java.BTS
