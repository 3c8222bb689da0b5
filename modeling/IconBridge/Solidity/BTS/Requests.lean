import IconBridge.Solidity.BTS.Writes

/-!
# What a transaction does to requests and accounts

Between two settlements there are few kinds of change: coins move, a request of
a user or a fee gathering is filed, a response is sent. A relation that admits
these and composes relates the states before and after every call, whatever the
receivers of payments call back.
-/

namespace IconBridge.Solidity.BTS

open Lib Function

def desk (s : St) := (s.requests, s.serialNo, s.sent)

def purse (s : St) := (s.native, s.erc20, s.totalSupply, s.code)

inductive Moves (s : St) : St → Prop
  | native (u receiver : Address) (v : Nat) (hcover : v ≤ s.native u) :
      Moves s { s with native := move s.native u receiver v }
  | token (token u receiver : Address) (v : Nat) (hcover : v ≤ s.erc20 token u) :
      Moves s (setHolders s token (move (s.erc20 token) u receiver v))
  | mint (h : tokenMint s token account v = .ok s') : Moves s s'
  | burn (h : tokenBurn s token account v = .ok s') : Moves s s'

structure Rule (d : Deployment) (R : St → St → Prop) : Prop where
  trans : ∀ {s t s'}, R s t → R t s' → R s s'
  keeps : ∀ {s s'}, desk s' = desk s → purse s' = purse s → R s s'
  moves : ∀ {s s'}, Moves s s' → R s s'
  deploys : ∀ {s s' deployed decimals}, deployTradable s deployed decimals = .ok s' → R s s'
  files : ∀ {s s' u target es}, (u ≠ d.btsCore → es.length ≤ maxBatchSize) →
    sendServiceMessage d s u target es = .ok s' → R s s'
  responds : ∀ {s ty target sn r}, ty ≠ .requestCoinTransfer →
    R s { s with sent := s.sent ++ [⟨target, sn, ⟨ty, .response r⟩⟩] }

/-- What a call of an account does, and what receivers of payments call back:
coins move and requests are filed. -/
structure Calls (d : Deployment) (R : St → St → Prop) : Prop where
  trans : ∀ {s t s'}, R s t → R t s' → R s s'
  keeps : ∀ {s s'}, desk s' = desk s → purse s' = purse s → s'.events = s.events →
    s'.blacklist = s.blacklist → R s s'
  moves : ∀ {s s'}, Moves s s' → R s s'
  files : ∀ {s s' u target es}, u ≠ d.btsCore → es.length ≤ maxBatchSize →
    sendServiceMessage d s u target es = .ok s' → R s s'

theorem Rule.calls (hR : Rule d R) : Calls d R :=
  ⟨hR.trans, fun hdesk hpurse _ _ => hR.keeps hdesk hpurse, hR.moves,
    fun _ hlen => hR.files fun _ => hlen⟩

theorem Moves.eq (h : Moves s s') :
    ∃ native erc20 totalSupply, s' = { s with native, erc20, totalSupply } := by
  cases h with
  | native => exact ⟨_, _, _, rfl⟩
  | token => exact ⟨_, _, _, rfl⟩
  | mint h =>
    simp only [tokenMint, bind_ok, pure_ok] at h
    obtain ⟨_, -, _, -, _, -, rfl⟩ := h
    exact ⟨_, _, _, rfl⟩
  | burn h =>
    simp only [tokenBurn, bind_ok, pure_ok] at h
    obtain ⟨_, -, _, -, _, -, rfl⟩ := h
    exact ⟨_, _, _, rfl⟩

theorem Moves.desk (h : Moves s s') : desk s' = desk s := by
  obtain ⟨_, _, _, rfl⟩ := h.eq
  rfl

theorem deployTradable_desk (h : deployTradable s deployed decimals = .ok s') : desk s' = desk s := by
  simp only [deployTradable, bind_ok, pure_ok] at h
  obtain ⟨_, -, _, -, rfl⟩ := h
  rfl

variable {d : Deployment} {R : St → St → Prop} {k : Receiver} {s s' : St}

theorem Calls.refl (hR : Calls d R) (s : St) : R s s := hR.keeps rfl rfl rfl rfl

theorem Calls.tokenTransfer (hR : Calls d R) (h : tokenTransfer s token u receiver v = .ok s') :
    R s s' := by
  unfold BTS.tokenTransfer at h
  split at h
  · contradiction
  · simp only [bind_ok, require_ok, decide_eq_true_eq, pure_ok] at h
    obtain ⟨_, -, _, hcover, rfl⟩ := h
    exact hR.moves (.token token u receiver v hcover)

theorem Calls.tokenTransferFrom (hR : Calls d R)
    (h : tokenTransferFrom d s token holder v = .ok s') : R s s' := by
  simp only [BTS.tokenTransferFrom, bind_ok] at h
  obtain ⟨_, -, _, -, h⟩ := h
  refine hR.trans ?_ (hR.tokenTransfer h)
  exact hR.keeps rfl rfl rfl rfl

theorem Calls.deposit (hR : Calls d R) (h : deposit d s u v = .ok s') : R s s' := by
  simp only [BTS.deposit, bind_ok, require_ok, decide_eq_true_eq, pure_ok] at h
  obtain ⟨_, hcover, rfl⟩ := h
  exact hR.moves (.native u d.btsCore v hcover)

theorem Calls.lockBalance (hR : Calls d R) (h : lockBalance s u c v = .ok s') : R s s' := by
  simp only [BTS.lockBalance, bind_ok, pure_ok] at h
  obtain ⟨_, -, rfl⟩ := h
  exact hR.keeps rfl rfl rfl rfl

theorem Calls.paymentTransfer (hR : Calls d R) (hk : ∀ t t', k t = .ok t' → R t t')
    (h : paymentTransfer d s receiver amount k = .ok s') : R s s' := by
  simp only [BTS.paymentTransfer, bind_ok, require_ok, Bool.and_eq_true, decide_eq_true_eq] at h
  obtain ⟨_, ⟨-, hcover⟩, h⟩ := h
  split at h
  · next t ht =>
    cases h
    exact hR.trans (hR.moves (.native d.btsCore receiver amount hcover)) (hk _ _ ht)
  · contradiction

theorem Calls.tokenPayment (hR : Calls d R) (hk : ∀ t t', k t = .ok t' → R t t')
    (h : tokenPayment d s token receiver v k = .ok s') : R s s' := by
  simp only [BTS.tokenPayment, bind_ok] at h
  obtain ⟨t, ht, h⟩ := h
  have hmoved := hR.tokenTransfer ht
  split at h
  · exact hR.trans hmoved (hk _ _ h)
  · cases h
    exact hmoved

theorem Calls.refund (hR : Calls d R) (hk : ∀ t t', k t = .ok t' → R t t')
    (h : refund d s receiver c v k = .ok s') : R s s' := by
  unfold BTS.refund at h
  split at h
  · exact hR.paymentTransfer hk h
  · exact hR.tokenPayment hk h

theorem Calls.mint (hR : Calls d R) (hk : ∀ t t', k t = .ok t' → R t t')
    (h : mint d s receiver c v k = .ok s') : R s s' := by
  unfold BTS.mint at h
  split at h
  · exact hR.paymentTransfer hk h
  · split at h
    · exact hR.moves (.mint h)
    · exact hR.tokenPayment hk h
    · cases h
      exact hR.refl s

theorem Calls.sendSingle (hR : Calls d R) (hu : u ≠ d.btsCore)
    (h : sendSingle d s u target c v charge = .ok s') : R s s' := by
  simp only [BTS.sendSingle, bind_ok] at h
  obtain ⟨_, -, t, ht, h⟩ := h
  exact hR.trans (hR.lockBalance ht) (hR.files hu (by simp [maxBatchSize]) h)

theorem Calls.transferNativeCoin (hR : Calls d R) (hu : u ≠ d.btsCore)
    (h : transferNativeCoin d s u target v = .ok s') : R s s' := by
  simp only [BTS.transferNativeCoin, bind_ok] at h
  obtain ⟨t, ht, _, -, charge, -, h⟩ := h
  split at h
  · contradiction
  · exact hR.trans (hR.deposit ht) (hR.sendSingle hu h)

theorem Calls.transfer (hR : Calls d R) (hu : u ≠ d.btsCore)
    (h : transfer d s u c v target = .ok s') : R s s' := by
  simp only [BTS.transfer, bind_ok] at h
  obtain ⟨_, -, _, -, _, -, charge, -, t, ht, h⟩ := h
  exact hR.trans (hR.tokenTransferFrom ht) (hR.sendSingle hu h)

theorem Calls.batchLoop (hR : Calls d R) (h : batchLoop d u s xs = .ok (s', es)) :
    R s s' ∧ es.length = xs.length := by
  induction xs generalizing s es with
  | nil =>
    cases h
    exact ⟨hR.refl _, rfl⟩
  | cons x xs ih =>
    simp only [BTS.batchLoop, batchRound, bind_ok, pure_ok, Prod.exists, Prod.mk.injEq] at h
    obtain ⟨t, e, ⟨_, -, _, -, _, -, t1, ht1, _, -, _, -, t2, ht2, rfl, rfl⟩, t', es', hrest, rfl, rfl⟩ := h
    obtain ⟨hmoved, hlen⟩ := ih hrest
    have hround := hR.trans (hR.tokenTransferFrom ht1) (hR.lockBalance ht2)
    exact ⟨hR.trans hround hmoved, by simp [hlen]⟩

theorem Calls.batchNative (hR : Calls d R) (h : batchNative s u v = .ok (s', es)) :
    R s s' ∧ es.length = if v = 0 then 0 else 1 := by
  unfold BTS.batchNative at h
  split at h
  · next hv =>
    cases h
    exact ⟨hR.refl s, (if_pos hv).symm⟩
  · next hv =>
    simp only [bind_ok, pure_ok, Prod.mk.injEq] at h
    obtain ⟨_, -, _, -, _, -, t, ht, rfl, rfl⟩ := h
    exact ⟨hR.lockBalance ht, (if_neg hv).symm⟩

theorem Calls.transferBatch (hR : Calls d R) (hu : u ≠ d.btsCore)
    (h : transferBatch d s u names values target v = .ok s') : R s s' := by
  simp only [BTS.transferBatch, bind_ok, require_ok, decide_eq_true_eq, Prod.exists] at h
  obtain ⟨t, ht, _, hlen, _, -, _, hsize, t1, es, hloop, t2, last, hlast, h⟩ := h
  obtain ⟨hmoved, hes⟩ := hR.batchLoop hloop
  obtain ⟨hlocked, hnative⟩ := hR.batchNative hlast
  refine hR.trans (hR.trans (hR.deposit ht) (hR.trans hmoved hlocked)) (hR.files hu ?_ h)
  rw [List.length_append, hes, hnative, List.length_zip, ← hlen, Nat.min_self]
  split <;> simp_all

theorem Calls.reclaim (hR : Calls d R) (hk : ∀ t t', k t = .ok t' → R t t')
    (h : reclaim d s u c v k = .ok s') : R s s' := by
  simp only [BTS.reclaim, bind_ok, pure_ok] at h
  obtain ⟨_, -, _, -, t, ht, rfl⟩ := h
  refine hR.trans (hR.trans ?_ (hR.refund hk ht)) ?_
  · exact hR.keeps rfl rfl rfl rfl
  · exact hR.keeps rfl rfl rfl rfl

mutual

theorem Calls.call (hR : Calls d R) (s s' : St) (u : Address) :
    (c : Call) → call d s u c = .ok s' → R s s'
  | .transferNativeCoin .., h => by
    simp only [BTS.call, bind_ok, require_ok, decide_eq_true_eq] at h
    obtain ⟨_, hu, h⟩ := h
    exact hR.transferNativeCoin hu h
  | .transfer .., h => by
    simp only [BTS.call, bind_ok, require_ok, decide_eq_true_eq] at h
    obtain ⟨_, hu, h⟩ := h
    exact hR.transfer hu h
  | .transferBatch .., h => by
    simp only [BTS.call, bind_ok, require_ok, decide_eq_true_eq] at h
    obtain ⟨_, hu, h⟩ := h
    exact hR.transferBatch hu h
  | .reclaim _ _ reaction, h => by
    simp only [BTS.call, bind_ok] at h
    obtain ⟨_, -, h⟩ := h
    exact hR.reclaim (fun t t' => Calls.react hR t t' reaction) h
  | .approve .., h => by
    simp only [BTS.call, bind_ok, pure_ok] at h
    obtain ⟨_, -, rfl⟩ := h
    exact hR.keeps rfl rfl rfl rfl
  | .tokenTransfer .., h => by
    simp only [BTS.call, bind_ok] at h
    obtain ⟨_, -, h⟩ := h
    exact hR.tokenTransfer h
  | .pay .., h => by
    simp only [BTS.call, pay, bind_ok, require_ok, Bool.and_eq_true, decide_eq_true_eq, pure_ok] at h
    obtain ⟨_, -, _, ⟨-, hcover⟩, rfl⟩ := h
    exact hR.moves (.native _ _ _ hcover)

theorem Calls.react (hR : Calls d R) (s s' : St) :
    (r : Reaction) → react d s r = .ok s' → R s s'
  | .revert, h => by simp [BTS.react] at h
  | .accept, h => by
    simp only [BTS.react, Except.ok.injEq] at h
    exact h ▸ hR.refl s
  | .call u c next, h => by
    simp only [BTS.react] at h
    split at h
    · next t ht => exact hR.trans (Calls.call hR s t u c ht) (Calls.react hR t s' next h)
    · exact Calls.react hR s s' next h

end

theorem Calls.settleValue (hR : Calls d R) (hk : ∀ t t', k t = .ok t' → R t t')
    (h : settleValue d s u c v code k = .ok s') : R s s' := by
  unfold BTS.settleValue at h
  split at h
  · split at h
    · next t ht =>
      cases h
      exact hR.refund hk ht
    · simp only [bind_ok, pure_ok] at h
      obtain ⟨_, -, rfl⟩ := h
      exact hR.keeps rfl rfl rfl rfl
  · split at h
    · exact hR.moves (.burn h)
    · cases h
      exact hR.keeps rfl rfl rfl rfl

theorem Calls.handleResponseService (hR : Calls d R) (hk : ∀ t t', k t = .ok t' → R t t')
    (h : handleResponseService d s u c v fee code k = .ok s') : R s s' := by
  unfold BTS.handleResponseService at h
  split at h
  · split at h
    · simp only [bind_ok, pure_ok] at h
      obtain ⟨_, -, rfl⟩ := h
      exact hR.keeps rfl rfl rfl rfl
    · cases h
      exact hR.keeps rfl rfl rfl rfl
  · simp only [bind_ok, pure_ok] at h
    obtain ⟨_, -, _, -, t, ht, _, -, rfl⟩ := h
    refine hR.trans (hR.trans ?_ (hR.settleValue hk ht)) ?_
    · exact hR.keeps rfl rfl rfl rfl
    · exact hR.keeps rfl rfl rfl rfl

theorem Calls.settleLoop (hR : Calls d R) (h : settleLoop d s sn u code rs n = .ok s') : R s s' := by
  refine foldlM_ok (P := R s) (fun t i t' _ ht hround => hR.trans ht ?_) (hR.refl s) h
  unfold settleRound at hround
  split at hround
  · exact hR.handleResponseService (fun t t' => hR.react t t' _) hround
  · contradiction

theorem Calls.requestLoop (hR : Calls d R) (h : requestLoop d target s assets rs = .ok s') :
    R s s' := by
  induction assets generalizing s rs with
  | nil =>
    cases h
    exact hR.keeps rfl rfl rfl rfl
  | cons a assets ih =>
    simp only [BTS.requestLoop, bind_ok] at h
    obtain ⟨_, -, user, -, _, -, h⟩ := h
    split at h
    · next t ht => exact hR.trans (hR.mint (fun t t' => hR.react t t' _) ht) (ih h)
    · contradiction

def Tx.response : Tx → Option (Nat × Nat)
  | .handleBTPMessage _ _ _ sn (some ⟨.responseHandleService, .response r⟩) _ => some (sn, r.code)
  | .handleBTPError _ _ sn _ _ _ => some (sn, rcErr)
  | _ => none

structure Settles (R : St → St → Prop) (sn : Nat) (s s' : St) : Prop where
  pending : (s.requests sn).isSome
  removed : ∃ t, R s t ∧ s'.requests = update t.requests sn none ∧
    s'.serialNo = t.serialNo ∧ s'.sent = t.sent ∧ purse s' = purse t

theorem Rule.settle (hR : Rule d R) (h : settle d s sn code message rs = .ok s') :
    Settles R sn s s' := by
  obtain ⟨p, _, t, hp, -, -, ht, -, rfl⟩ := settle_ok h
  exact ⟨by simp [hp], t, hR.calls.settleLoop ht, rfl, rfl, rfl, rfl⟩

theorem Reports.rule (hR : Rule d R) (hty : ty ≠ .requestCoinTransfer)
    (hattempt : ∀ t, attempt = .ok t → R s t) (h : Reports s attempt ty src sn s') : R s s' := by
  cases h with
  | confirms t _ ht h => exact h ▸ hR.trans (hattempt t ht) (hR.responds hty)
  | refuses _ h => exact h ▸ hR.responds hty

theorem Receives.rule (hR : Rule d R) (h : Receives d s src sn rs s' m) :
    R s s' ∨ ∃ r, m = ⟨.responseHandleService, .response r⟩ ∧ Settles R sn s s' := by
  cases h with
  | accepts tc t receiver ht h =>
    subst h
    simp only [handleRequestService, bind_ok] at ht
    obtain ⟨_, -, ht⟩ := ht
    refine .inl (hR.trans (hR.calls.requestLoop ht) (hR.trans (hR.responds ?_) (hR.keeps rfl rfl)))
    exact ServiceType.noConfusion
  | refuses _ _ h => exact .inl (h ▸ hR.responds (by simp))
  | blacklist bm h =>
    refine .inl (h.rule hR (by simp) fun t ht => ?_)
    obtain ⟨_, rfl, -⟩ := BlacklistMessage.change_eq ht
    exact hR.keeps rfl rfl
  | limit tl h =>
    refine .inl (h.rule hR (by simp) fun t ht => ?_)
    simp only [setTokenLimit, bind_ok, pure_ok] at ht
    obtain ⟨_, -, _, -, rfl⟩ := ht
    exact hR.keeps rfl rfl
  | response r h => exact .inr ⟨r, rfl, hR.settle h⟩
  | unknown _ h => exact .inl (h ▸ hR.keeps rfl rfl)
  | disowned _ _ h => exact .inl (h ▸ hR.responds (by simp))

theorem Rule.registers (hR : Rule d R) (h : step d s tx = .ok s') (hr : tx.Registers) : R s s' := by
  obtain ⟨_, _, _, _, _, _, rfl | ⟨_, _, ht⟩, rfl⟩ := step_registers_eq hr h
  · exact hR.keeps rfl rfl
  · refine hR.trans (hR.deploys ht) ?_
    exact hR.keeps rfl rfl

theorem Rule.step (hR : Rule d R) (h : step d s tx = .ok s') :
    R s s' ∨ ∃ sn code, tx.response = some (sn, code) ∧ Settles R sn s s' := by
  cases tx with
  | user sender c => exact .inl (hR.calls.call s s' sender c h)
  | handleBTPMessage sender src svc sn msg rs =>
    obtain ⟨m, rfl⟩ := handleBTPMessage_some h
    rcases (handleBTPMessage_receives h).2.rule hR with hs | ⟨r, rfl, hs⟩
    · exact .inl hs
    · exact .inr ⟨sn, r.code, rfl, hs⟩
  | handleBTPError sender svc sn code message rs =>
    simp only [BTS.step, handleBTPError, bind_ok] at h
    obtain ⟨_, -, _, -, _, -, h⟩ := h
    exact .inr ⟨sn, rcErr, rfl, hR.settle h⟩
  | handleFeeGathering sender fa svc =>
    simp only [BTS.step, handleFeeGathering, bind_ok] at h
    obtain ⟨_, -, _, -, _, -, h⟩ := h
    refine .inl (hR.trans ?_ (hR.files (fun hne => absurd rfl hne) h))
    exact hR.keeps rfl rfl
  | register | setFeeRatio | updateCoinDb => exact .inl (hR.registers h trivial)
  | routes =>
    cases h
    exact .inl (hR.keeps rfl rfl)

section Each

variable {P : PendingTransferCoin → Prop}

def Each (P : PendingTransferCoin → Prop) (s : St) : Prop := ∀ n p, s.requests n = some p → P p

theorem Each.congr (h : s'.requests = s.requests) (hs : Each P s) : Each P s' := by
  intro n p hp
  exact hs n p (h ▸ hp)

theorem Each.remove (hs : Each P s) (h : s'.requests = update s.requests sn none) :
    Each P s' := by
  intro n p hp
  rw [h, update_apply] at hp
  split at hp
  · contradiction
  · exact hs n p hp

theorem each_rule (hP : ∀ u target es, (u ≠ d.btsCore → es.length ≤ maxBatchSize) →
    P { sender := toString d.caps u, target, details := es }) :
    Rule d fun s s' => Each P s → Each P s' where
  trans h1 h2 hs := h2 (h1 hs)
  keeps hdesk _ := Each.congr (congrArg Prod.fst hdesk)
  moves h := Each.congr (congrArg Prod.fst h.desk)
  deploys h := Each.congr (congrArg Prod.fst (deployTradable_desk h))
  files {s _ u target es} hlen h hs n q hq := by
    obtain ⟨_, _, -, rfl⟩ := sendServiceMessage_eq h
    dsimp only at hq
    by_cases hn : n = s.serialNo + 1
    · rw [hn, update_self, Option.some.injEq] at hq
      exact hq ▸ hP u target es hlen
    · rw [update_of_ne hn] at hq
      exact hs n q hq
  responds _ := Each.congr rfl

theorem step_each (hR : Rule d fun s s' => Each P s → Each P s') (hs : Each P s)
    (h : step d s tx = .ok s') : Each P s' := by
  rcases hR.step h with hkeep | ⟨sn, code, -, -, t, ht, hreq, -, -⟩
  · exact hkeep hs
  · exact (ht hs).remove hreq

end Each

/-- The requests that `s` knows are as they were, or gone. -/
def Frozen (s s' : St) : Prop :=
  s.serialNo ≤ s'.serialNo ∧ ∀ n ≤ s.serialNo, s'.requests n = s.requests n ∨ s'.requests n = none

theorem Frozen.of_desk (h : desk s' = desk s) : Frozen s s' := by
  simp only [desk, Prod.mk.injEq] at h
  exact ⟨h.2.1.ge, fun n _ => .inl (congrFun h.1 n)⟩

theorem Frozen.trans (h : Frozen s t) (h' : Frozen t s') : Frozen s s' := by
  refine ⟨h.1.trans h'.1, fun n hn => ?_⟩
  rcases h'.2 n (hn.trans h.1) with heq | hnone
  · rw [heq]
    exact h.2 n hn
  · exact .inr hnone

theorem frozen_rule : Rule d Frozen where
  trans := Frozen.trans
  keeps h _ := .of_desk h
  moves h := .of_desk h.desk
  deploys h := .of_desk (deployTradable_desk h)
  files _ h := by
    obtain ⟨_, _, -, rfl⟩ := sendServiceMessage_eq h
    exact ⟨Nat.le_succ _, fun n hn => .inl (update_of_ne (Nat.lt_succ_of_le hn).ne _ _)⟩
  responds _ := ⟨le_rfl, fun _ _ => .inl rfl⟩

/-- Serial numbers are never used again: the record of a request stays as it was filed until it
is removed, and is not written again. -/
theorem requests_settled_for_good (d : Deployment) (s : St) (txs : List Tx) :
    let s' := run (step d) s txs
    s.serialNo ≤ s'.serialNo ∧
      ∀ n ≤ s.serialNo, s'.requests n = s.requests n ∨ s'.requests n = none := by
  refine run_induct (P := Frozen s) (fun s₁ tx s₂ hs h => hs.trans ?_) ⟨le_rfl, fun _ _ => .inl rfl⟩
  rcases frozen_rule.step h with h | ⟨sn, code, -, -, t, ht, hreq, hserial, -⟩
  · exact h
  · refine ht.trans ⟨hserial.ge, fun n _ => ?_⟩
    rw [hreq, update_apply]
    split
    · exact .inr rfl
    · exact .inl rfl

end IconBridge.Solidity.BTS
