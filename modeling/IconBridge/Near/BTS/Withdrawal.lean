import Mathlib.Algebra.Order.BigOperators.Group.List
import Mathlib.Algebra.Order.Ring.Nat
import IconBridge.Lib.Table
import IconBridge.Near.BTS.Journal

/-!
# Withdrawals

`withdraw` checks the deposit and starts a transfer; only the callback debits
the deposit. While the transfer is on its way the same deposit can be withdrawn
or sent away again, and the callback of the second withdrawal panics after the
tokens have left. When every call leaves enough for the withdrawals that are on
their way, no account is paid more than it was credited.
-/

namespace IconBridge.Near.BTS

open Lib List

def share (k : Key) (v : ℕ) (l : Key) : ℕ := if l = k then v else 0

/-- What a movement puts into deposits. The settlement of a request credits only
the service itself. -/
def Movement.credited (d : Deployment) : Movement → Key → ℕ
  | .deposit k v => share k v
  | .reclaim k v => share k v
  | .mint t v => share (d.account, t) v
  | .internalTransfer a t v => share (a, t) v
  | .finalize k v fees => share (d.account, k.2) (v + fees)
  | .rollback k _ fees => share (d.account, k.2) fees
  | _ => 0

def Movement.lockedUp : Movement → Key → ℕ
  | .lock k v => share k v
  | _ => 0

def Movement.withdrawn : Movement → Key → ℕ
  | .withdraw k v => share k v
  | _ => 0

def Movement.spent (d : Deployment) : Movement → Key → ℕ
  | .burn t v => share (d.account, t) v
  | .internalTransfer _ t v => share (d.account, t) v
  | _ => 0

theorem entry_deposit : entry .deposit k v .deposit l = share k v l := by
  simp only [entry, share, true_and]
  split <;> rfl

theorem entry_other (h : p ≠ .deposit) : entry p k v .deposit l = 0 := by
  simp [entry, h.symm]

theorem Movement.effect_deposit (m : Movement) (k : Key) :
    m.effect d .deposit k = m.credited d k - m.lockedUp k - m.withdrawn k - m.spent d k := by
  cases m <;>
    simp [Movement.effect, Movement.credited, Movement.lockedUp, Movement.withdrawn,
      Movement.spent, entry_deposit, entry_other]

def St.total (s : St) (f : Movement → Key → ℕ) (k : Key) : ℕ :=
  (s.journal.map fun m => f m k).sum

def St.credited (d : Deployment) (s : St) : Key → ℕ := s.total (·.credited d)
def St.lockedUp (s : St) : Key → ℕ := s.total Movement.lockedUp

theorem effects_deposit (ms : List Movement) (k : Key) :
    effects d ms .deposit k + (ms.map fun m => m.lockedUp k).sum +
        (ms.map fun m => m.withdrawn k).sum + (ms.map fun m => m.spent d k).sum =
      (ms.map fun m => m.credited d k).sum := by
  induction ms with
  | nil => rfl
  | cons m ms ih =>
    simp only [effects_cons, map_cons, sum_cons, m.effect_deposit]
    omega

/-- What withdrawals that have not failed may still take from a deposit -/
def Receipt.outstanding (r : Receipt) : Key → ℕ :=
  match r.promise with
  | .withdraw _ a v _ t => if r.result = some .failed then 0 else share (a, t) v
  | _ => 0

def Receipt.paid (r : Receipt) : Key → ℕ :=
  match r.promise, r.result with
  | .withdraw _ a v _ t, some (.successful _) => share (a, t) v
  | _, _ => 0

def St.outstanding (s : St) (k : Key) : ℕ := (s.receipts.map fun r => r.outstanding k).sum
def St.undebited (s : St) (k : Key) : ℕ := (s.receipts.map fun r => r.paid k).sum

theorem Receipt.paid_le (r : Receipt) (k : Key) : r.paid k ≤ r.outstanding k := by
  obtain ⟨p, result⟩ := r
  cases p with
  | withdraw _ a v _ t => rcases result with _ | _ | _ <;> simp [Receipt.paid, Receipt.outstanding]
  | _ => simp [Receipt.paid]

theorem undebited_le (s : St) (k : Key) : s.undebited k ≤ s.outstanding k :=
  sum_le_sum fun r _ => r.paid_le k

theorem Receipt.none_of_not_withdrawal {p : Promise} {result : Option PromiseResult}
    (h : p.isWithdrawal = false) :
    Receipt.outstanding ⟨p, result⟩ k = 0 ∧ Receipt.paid ⟨p, result⟩ k = 0 := by
  cases p with
  | withdraw => contradiction
  | _ => exact ⟨rfl, rfl⟩

/-- Balances follow the journal; what was paid is debited or about to be; and
the deposit covers the withdrawals that are on their way. -/
structure Backed (d : Deployment) (s : St) : Prop where
  sound : Sound d s
  accounted : ∀ p k, (s.amount p k : ℤ) = effects d s.journal p k
  paid : ∀ k, s.transferred k = s.total Movement.withdrawn k + s.undebited k
  covered : ∀ k, s.outstanding k ≤ s.amount .deposit k
  own : ∀ t, s.outstanding (d.account, t) = 0

theorem initialState_backed : Backed d (initialState d) where
  sound := initialState_sound
  accounted p k := by
    simp only [initialState, St.amount, amount_update]
    split <;> cases p <;> rfl
  paid _ := rfl
  covered _ := Nat.zero_le _
  own _ := rfl

theorem Backed.transferred_le (hs : Backed d s) (k : Key) :
    s.transferred k + s.lockedUp k ≤ s.credited d k := by
  have hdeposit := hs.accounted .deposit k
  have htotals := effects_deposit (d := d) s.journal k
  have hpaid := hs.paid k
  have hcovered := hs.covered k
  have hundebited := undebited_le s k
  simp only [St.credited, St.lockedUp, St.total] at hpaid ⊢
  omega

variable {d : Deployment} {env : Env} {s s' : St} {ms : List Movement} {ps : List Promise}

theorem Posts.receipt_sums (h : Posts d ms ps s s') (hps : Plain ps) (k : Key) :
    s'.outstanding k = s.outstanding k ∧ s'.undebited k = s.undebited k := by
  have hout : (ps.map fun p => Receipt.outstanding ⟨p, none⟩ k).sum = 0 :=
    sum_eq_zero (by
      intro x hx
      obtain ⟨p, hp, rfl⟩ := mem_map.1 hx
      exact (Receipt.none_of_not_withdrawal (hps p hp)).1)
  have hpaid : (ps.map fun p => Receipt.paid ⟨p, none⟩ k).sum = 0 :=
    sum_eq_zero (by
      intro x hx
      obtain ⟨p, hp, rfl⟩ := mem_map.1 hx
      exact (Receipt.none_of_not_withdrawal (hps p hp)).2)
  simp [St.outstanding, St.undebited, h.receipts, Function.comp_def, hout, hpaid]

/-- Movements other than withdrawals keep the invariant when they leave enough. -/
theorem Backed.posts (hs : Backed d s) (h : Posts d ms ps s s') (hps : Plain ps)
    (hnone : ∀ m ∈ ms, ∀ k, m.withdrawn k = 0)
    (hcover : ∀ k, (s.outstanding k : ℤ) ≤ s.amount .deposit k + effects d ms .deposit k) :
    Backed d s' where
  sound := h.sound hs.sound
  accounted p k := by rw [h.amount, hs.accounted, h.journal, effects_append]
  paid k := by
    have hsum : (ms.map fun m => m.withdrawn k).sum = 0 :=
      sum_eq_zero (by
        intro x hx
        obtain ⟨m, hm, rfl⟩ := mem_map.1 hx
        exact hnone m hm k)
    rw [h.transferred, hs.paid, (h.receipt_sums hps k).2]
    simp [St.total, h.journal, hsum]
  covered k := by
    have hk := hcover k
    rw [← h.amount] at hk
    rw [(h.receipt_sums hps k).1]
    exact_mod_cast hk
  own t := by rw [(h.receipt_sums hps _).1, hs.own]

def Movement.Routine (d : Deployment) : Movement → Prop
  | .withdraw _ _ => False
  | .lock k _ => k.1 = d.account
  | _ => True

theorem Movement.Routine.withdrawn_eq {m : Movement} (h : m.Routine d) (k : Key) :
    m.withdrawn k = 0 := by
  cases m with
  | withdraw => exact h.elim
  | _ => rfl

theorem Movement.Routine.effect_nonneg {m : Movement} (h : m.Routine d) (hk : k.1 ≠ d.account) :
    0 ≤ m.effect d .deposit k := by
  rw [m.effect_deposit]
  have hown : ∀ t v, share (d.account, t) v k = 0 := by
    intro t v
    refine if_neg ?_
    rintro rfl
    exact hk rfl
  cases m with
  | withdraw => exact h.elim
  | lock l v =>
    have hl : k ≠ l := by
      rintro rfl
      exact hk h
    simp [Movement.credited, Movement.lockedUp, Movement.withdrawn, Movement.spent, share, hl]
  | _ =>
    simp [Movement.credited, Movement.lockedUp, Movement.withdrawn, Movement.spent, hown]

theorem Backed.routine (hs : Backed d s) (h : Posts d ms ps s s') (hps : Plain ps)
    (hms : ∀ m ∈ ms, m.Routine d) : Backed d s' := by
  refine hs.posts h hps (fun m hm => (hms m hm).withdrawn_eq) fun k => ?_
  by_cases hk : k.1 = d.account
  · -- the service has no withdrawals to cover
    obtain ⟨a, t⟩ := k
    obtain rfl : a = d.account := hk
    rw [hs.own, ← h.amount]
    exact_mod_cast Nat.zero_le _
  · have hnonneg : 0 ≤ effects d ms .deposit k :=
      sum_nonneg (by
        intro x hx
        obtain ⟨m, hm, rfl⟩ := mem_map.1 hx
        exact (hms m hm).effect_nonneg hk)
    have hcovered := hs.covered k
    omega

def took (l : List (Key × ℕ)) (k : Key) : ℕ := (l.map fun x => share x.1 x.2 k).sum

theorem effects_locks (l : List (Key × ℕ)) (k : Key) :
    effects d (locks l) .deposit k = -took l k := by
  induction l with
  | nil => rfl
  | cons x l ih =>
    simp only [locks, took, map_cons, effects_cons, sum_cons] at ih ⊢
    rw [ih, Movement.effect_deposit]
    simp only [Movement.credited, Movement.lockedUp, Movement.withdrawn, Movement.spent,
      Pi.zero_apply]
    omega

theorem took_eq_zero (h : ∀ x ∈ l, x.1 ≠ k) : took l k = 0 := by
  refine sum_eq_zero fun v hv => ?_
  obtain ⟨x, hx, rfl⟩ := mem_map.1 hv
  exact if_neg (h x hx).symm

/-- A deposit from which a call takes covers that on top of the withdrawals that
are on their way; and the service does not withdraw from itself. -/
def Act.Covered (d : Deployment) (s : St) : Act → Prop
  | .call env c =>
    (∀ x ∈ c.takes env s,
      s.outstanding x.1 + took (c.takes env s) x.1 ≤ s.amount .deposit x.1) ∧
    ∀ name v, c = .withdraw name v → env.predecessor ≠ d.account
  | _ => True

theorem covered_all (hs : Backed d s)
    (h : ∀ x ∈ l, s.outstanding x.1 + took l x.1 ≤ s.amount .deposit x.1) (k : Key) :
    s.outstanding k + took l k ≤ s.amount .deposit k := by
  by_cases hk : ∃ x ∈ l, x.1 = k
  · obtain ⟨x, hx, rfl⟩ := hk
    exact h x hx
  · rw [took_eq_zero fun x hx heq => hk ⟨x, hx, heq⟩]
    exact hs.covered k

theorem Backed.locks (hs : Backed d s) (h : Posts d (locks l) ps s s') (hps : Plain ps)
    (hcover : ∀ x ∈ l, s.outstanding x.1 + took l x.1 ≤ s.amount .deposit x.1) :
    Backed d s' := by
  refine hs.posts h hps (fun m hm k => ?_) fun k => ?_
  · obtain ⟨x, -, rfl⟩ := mem_map.1 hm
    rfl
  · have hk := covered_all hs hcover k
    rw [effects_locks]
    omega

theorem Backed.withdraw (hs : Backed d s) (hne : a ≠ d.account)
    (hcover : s.outstanding (a, tokenId) + v ≤ s.amount .deposit (a, tokenId)) :
    Backed d (s.promise (.withdraw payment a v name tokenId)) := by
  have hout : ∀ k, (s.promise (.withdraw payment a v name tokenId)).outstanding k =
      s.outstanding k + share (a, tokenId) v k := by
    intro k
    simp [St.outstanding, St.promise, Receipt.outstanding]
  have hsound := (Books.promise (d := d) (s := s)
    (p := .withdraw payment a v name tokenId) trivial).sound hs.sound
  refine ⟨hsound, hs.accounted, fun k => ?_, fun k => ?_,
    fun t => ?_⟩
  · have hpaid : (s.promise (.withdraw payment a v name tokenId)).undebited k = s.undebited k := by
      simp [St.undebited, St.promise, Receipt.paid]
    rw [hpaid]
    exact hs.paid k
  · rw [hout]
    by_cases hk : k = (a, tokenId)
    · rw [hk, share, if_pos rfl]
      exact hcover
    · rw [share, if_neg hk]
      exact hs.covered k
  · rw [hout, hs.own, share, if_neg (by simp [hne.symm])]

theorem Backed.responds (hs : Backed d s) (h : Responds d s n code s') : Backed d s' := by
  obtain ⟨ms, ps, hposts, hms, hps⟩ := h.posts
  refine hs.routine hposts hps fun m hm => ?_
  have hsettlement := hms m hm
  cases m with
  | finalize | rollback => trivial
  | _ => contradiction

theorem Call.Does.backed {c : Call} (hs : Backed d s) (hcover : (Act.call env c).Covered d s)
    (h : c.Does d env s s') : Backed d s' := by
  obtain ⟨htakes, hown⟩ := hcover
  cases h with
  | idle h =>
    obtain ⟨ms, ps, hbooks, hms, hps⟩ := h
    refine hs.routine hbooks.toPosts hps fun m hm => ?_
    have hstill := hms m hm
    cases m with
    | reclaim | internalTransfer => trivial
    | _ => exact hstill.elim
  | ftOnTransfer _ _ h => exact hs.routine h.toPosts .nil (by simp [Movement.Routine])
  | deposit _ _ h => exact hs.routine h.toPosts .nil (by simp [Movement.Routine])
  | withdraw payment tokenId hid h =>
    rw [h]
    refine hs.withdraw (hown _ _ rfl) ?_
    simpa [Call.takes, hid, took, share] using htakes
  | files h heq =>
    obtain ⟨p, hp, hposts⟩ := h.posts
    rw [heq] at hposts
    exact hs.locks hposts (.one hp) htakes
  | gathers h =>
    obtain ⟨p, hp, hposts⟩ := h.posts
    refine hs.routine hposts (.one hp) fun m hm => ?_
    simp only [BTS.locks, map_map, mem_map] at hm
    obtain ⟨y, -, rfl⟩ := hm
    rfl
  | answered h => exact hs.responds h
  | failed h => exact hs.responds h

theorem Promise.pay_apply (p : Promise) (result : PromiseResult) (f : Key → ℕ) (k : Key) :
    p.pay result f k = f k + Receipt.paid { promise := p, result := some result } k := by
  cases p with
  | withdraw payment a v name t =>
    cases result with
    | successful x =>
      simp only [Promise.pay, Receipt.paid, share, Function.update_apply]
      split
      · next h => rw [h]
      · rfl
    | failed => rfl
  | _ => rfl

theorem Receipt.outstanding_le (p : Promise) (result : Option PromiseResult) (k : Key) :
    Receipt.outstanding { promise := p, result } k ≤ Receipt.outstanding { promise := p } k := by
  cases p with
  | withdraw payment a v name t =>
    simp only [Receipt.outstanding]
    split
    · exact Nat.zero_le _
    · exact le_rfl
  | _ => exact le_rfl

theorem Receipt.unpaid (p : Promise) (k : Key) : Receipt.paid { promise := p } k = 0 := by
  cases p <;> rfl

theorem execute_backed (hs : Backed d s) (hr : s.receipts[i]? = some { promise := p }) :
    Backed d { s with
      receipts := s.receipts.set i { promise := p, result := some result }
      transferred := p.pay result s.transferred } := by
  have hout : ∀ k, ((s.receipts.set i { promise := p, result := some result }).map
      (·.outstanding k)).sum ≤ s.outstanding k := by
    intro k
    have hset := sum_set (fun r => r.outstanding k) hr (y := { promise := p, result := some result })
    have hle := Receipt.outstanding_le p (some result) k
    simp only [St.outstanding]
    omega
  refine ⟨(Act.Does.execute p hr rfl).sound hs.sound, hs.accounted, fun k => ?_,
    fun k => (hout k).trans (hs.covered k), fun t => ?_⟩
  · have hset := sum_set (fun r => r.paid k) hr (y := { promise := p, result := some result })
    rw [Receipt.unpaid, zero_add] at hset
    have hpaid := hs.paid k
    simp only [Promise.pay_apply, St.total, St.undebited] at hpaid ⊢
    omega
  · exact Nat.le_zero.1 ((hout _).trans (hs.own t).le)

theorem drop_outstanding (hr : s.receipts[i]? = some r) (k : Key) :
    r.outstanding k + (s.drop i).outstanding k = s.outstanding k :=
  sum_eraseIdx (fun r => r.outstanding k) hr

theorem drop_undebited (hr : s.receipts[i]? = some r) (k : Key) :
    r.paid k + (s.drop i).undebited k = s.undebited k :=
  sum_eraseIdx (fun r => r.paid k) hr

theorem Backed.drop (hs : Backed d s) (hr : s.receipts[i]? = some r) (hpaid : ∀ k, r.paid k = 0) :
    Backed d (s.drop i) := by
  have hout : ∀ k, (s.drop i).outstanding k ≤ s.outstanding k := by
    intro k
    rw [← drop_outstanding hr]
    exact Nat.le_add_left ..
  refine ⟨hs.sound.drop i, hs.accounted, fun k => ?_,
    fun k => (hout k).trans (hs.covered k), fun t => Nat.le_zero.1 ((hout _).trans (hs.own t).le)⟩
  have hundebited := drop_undebited hr k
  rw [hpaid, zero_add] at hundebited
  rw [hundebited]
  exact hs.paid k

theorem Backed.debit (hs : Backed d s)
    (hr : s.receipts[i]? = some ⟨.withdraw payment a v name tokenId, some (.successful x)⟩)
    (h : Posts d [.withdraw (a, tokenId) v] ps (s.drop i) s') (hps : Plain ps) : Backed d s' where
  sound := h.sound (hs.sound.drop i)
  accounted p k := by
    have hdrop : (s.drop i).amount p k = s.amount p k := rfl
    rw [h.amount, h.journal, effects_append, hdrop, hs.accounted]
    rfl
  paid k := by
    have hundebited := drop_undebited hr k
    have hpaid := hs.paid k
    have htotal : s'.total Movement.withdrawn k =
        s.total Movement.withdrawn k + share (a, tokenId) v k := by
      simp [St.total, h.journal, St.drop, Movement.withdrawn]
    have htransferred : s'.transferred k = s.transferred k := congrFun h.transferred k
    rw [(h.receipt_sums hps k).2, htransferred, htotal]
    simp only [Receipt.paid] at hundebited
    omega
  covered k := by
    have hout := drop_outstanding hr k
    have hamount := h.amount .deposit k
    have hcovered := hs.covered k
    have hdrop : (s.drop i).amount .deposit k = s.amount .deposit k := rfl
    simp only [effects_cons, effects_nil, Movement.effect_deposit, Movement.credited,
      Movement.lockedUp, Movement.withdrawn, Movement.spent, Pi.zero_apply, hdrop] at hamount
    rw [(h.receipt_sums hps k).1]
    simp [Receipt.outstanding] at hout
    omega
  own t := by
    have hout := drop_outstanding hr (d.account, t)
    have hown := hs.own t
    rw [(h.receipt_sums hps _).1]
    omega

theorem onWithdraw_error (h : onWithdraw s a v tokenId (.successful x) = .error e)
    (hle : v ≤ s.amount .deposit (a, tokenId)) : v = 0 := by
  cases hb : s.balances (a, tokenId) with
  | none =>
    simp only [St.amount, hb, Option.getD_none, AccountBalance.amount] at hle
    exact Nat.le_zero.1 hle
  | some b =>
    simp only [St.amount, hb, Option.getD_some, AccountBalance.amount] at hle
    simp [onWithdraw, hb, unwrap, sub, hle, pure, Except.pure] at h

theorem Backed.callback (hs : Backed d s) (hr : s.receipts[i]? = some ⟨p, some result⟩)
    (h : Posts d (p.entries d result) ps (s.drop i) s') (hps : Plain ps) : Backed d s' := by
  cases p with
  | withdraw payment a v name tokenId =>
    cases result with
    | successful x => exact hs.debit hr h hps
    | failed => exact (hs.drop hr fun _ => rfl).routine h hps nofun
  | mint uri v tokenId a =>
    refine (hs.drop hr fun _ => rfl).routine h hps ?_
    rcases result with (_ | _) | _ <;> simp [Promise.entries, Movement.Routine]
  | burn uri v tokenId =>
    refine (hs.drop hr fun _ => rfl).routine h hps ?_
    cases result <;> simp [Promise.entries, Movement.Routine]
  | register token tokenId => exact (hs.drop hr fun _ => rfl).routine h hps nofun
  | sendServiceMessage n net message =>
    refine (hs.drop hr fun _ => rfl).routine h hps ?_
    cases message <;> cases result <;> simp [Promise.entries, Ending.movement, Movement.Routine]

theorem Backed.panicked (hs : Backed d s) (hr : s.receipts[i]? = some ⟨p, some result⟩)
    (he : p.callback d env (s.drop i) result = .error e) : Backed d (s.drop i) := by
  refine hs.drop hr fun k => ?_
  cases p with
  | withdraw payment a v name tokenId =>
    cases result with
    | failed => rfl
    | successful x =>
      -- the deposit covers a withdrawal that was paid, so only a missing balance panics
      have hout := drop_outstanding hr (a, tokenId)
      simp only [Receipt.outstanding, reduceCtorEq, Option.some.injEq, if_false, share, if_true] at hout
      have hcovered := hs.covered (a, tokenId)
      obtain rfl := onWithdraw_error (x := x) he (by show v ≤ s.amount .deposit (a, tokenId); omega)
      simp [Receipt.paid, share]
  | _ => rfl

theorem Act.Does.backed {act : Act} (hs : Backed d s) (hcover : act.Covered d s)
    (h : act.Does d s s') : Backed d s' := by
  cases h with
  | call env c h => exact h.backed hs hcover
  | execute p hr h => exact h ▸ execute_backed hs hr
  | callback env p result ps hr _ hps h => exact hs.callback hr h.toPosts hps
  | panicked env p result e hr he h => exact h ▸ hs.panicked hr he

theorem step_backed (hs : Backed d s) (hcover : act.Covered d s) (h : step d s act = .ok s') :
    Backed d s' := (step_does hs.sound h).backed hs hcover

/-- In every run in which each call leaves enough for the withdrawals that are on
their way, an account is never paid more than was credited to its deposit less
what it has sent away. -/
theorem withdrawals_covered (d : Deployment) (acts : List Act)
    (hcover : Along (step d) (fun s act => act.Covered d s) (initialState d) acts)
    (a : AccountId) (tokenId : TokenId) :
    let s := run (step d) (initialState d) acts
    s.transferred (a, tokenId) + s.lockedUp (a, tokenId) ≤ s.credited d (a, tokenId) :=
  (run_along (fun _ _ _ hs hc h => step_backed hs hc h) initialState_backed hcover).transferred_le _

def near : Token where
  name := "btp-0x1.near-NEAR"
  uri := none
  network := "0x1.near"
  feeNumerator := 100
  fixedFee := 0
  extras := false
  tokenLimit := none

def sample : Deployment where
  account := "bts.near"
  name := "bts"
  bmc := "bmc.near"
  network := "0x1.near"
  nativeCoin := near
  sha256 := String.length
  accountError := fun _ => none
  storageByteCost := 10 ^ 19

def alice : Env where
  predecessor := "alice.near"
  attachedDeposit := 10 ^ 18
  accountBalance := 10 ^ 24

def serviceCall : Env := { predecessor := "bts.near" }

def aliceDeposits : Act := .call { alice with attachedDeposit := 100 } .deposit

def withdrawThenTransfer : List Act :=
  [aliceDeposits, .call alice (.withdraw near.name 60), .execute 0 (.successful none),
   .callback 0 { predecessor := "bts.near" },
   .call alice (.transfer near.name ⟨"0x1.icon", "hx12"⟩ 40)]

def withdrawnThenTransferred : St := run (step sample) (initialState sample) withdrawThenTransfer

theorem withdrawThenTransfer_covered :
    withdrawnThenTransferred.transferred ("alice.near", 17) = 60 ∧
    withdrawnThenTransferred.lockedUp ("alice.near", 17) = 40 ∧
    withdrawnThenTransferred.transferred ("alice.near", 17) +
        withdrawnThenTransferred.lockedUp ("alice.near", 17) ≤
      withdrawnThenTransferred.credited sample ("alice.near", 17) := by
  refine ⟨by decide +kernel, by decide +kernel,
    withdrawals_covered sample withdrawThenTransfer ?_ "alice.near" 17⟩
  refine ⟨⟨nofun, nofun⟩, ⟨?_, fun _ _ _ => by decide⟩, trivial, trivial, ⟨?_, nofun⟩, trivial⟩
  · decide +kernel
  · decide +kernel

def withdrawTwice : List Act :=
  [aliceDeposits, .call alice (.withdraw near.name 100), .call alice (.withdraw near.name 100),
   .execute 0 (.successful none), .execute 1 (.successful none)]

theorem withdrawTwice_overdraws :
    let s := run (step sample) (initialState sample) withdrawTwice
    s.transferred ("alice.near", 17) = 200 ∧ s.lockedUp ("alice.near", 17) = 0 ∧
      s.credited sample ("alice.near", 17) = 100 := by
  decide +kernel

end IconBridge.Near.BTS
