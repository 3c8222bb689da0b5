import Mathlib.Topology.Algebra.InfiniteSum.Group
import Mathlib.Topology.Algebra.Ring.Basic
import IconBridge.Near.BTS.Withdrawal

/-!
# Conservation

Deposits and mints bring tokens into the service, withdrawals and burns take them
out. Nothing else changes what all accounts have together.
-/

namespace IconBridge.Near.BTS

open Lib List

variable {d : Deployment} {s s' : St} {t : TokenId}

def pooled (t : TokenId) : (Pocket → Key → ℤ) →+ (AccountId → ℤ) where
  toFun e a := e .deposit (a, t) + e .locked (a, t) + e .refundable (a, t)
  map_zero' := rfl
  map_add' e e' := by
    funext a
    simp only [Pi.add_apply]
    ring

def St.holdings (s : St) (t : TokenId) : AccountId → ℤ := pooled t fun p k => s.amount p k

theorem entry_hasSum (t : TokenId) (p : Pocket) (k : Key) (v : ℕ) :
    HasSum (pooled t (entry p k v)) (worth t k.2 v) := by
  have hsingle : pooled t (entry p k v) = fun a => if a = k.1 then worth t k.2 v else 0 := by
    funext a
    have hk : (a, t) = k ↔ a = k.1 ∧ k.2 = t := by rw [Prod.ext_iff, eq_comm (a := t)]
    cases p <;> simp [pooled, entry, worth, hk, ite_and]
  rw [hsingle]
  exact hasSum_ite_eq k.1 _

theorem Movement.hasSum (m : Movement) : HasSum (pooled t (m.effect d)) (m.net t) := by
  -- A movement inside the service takes from one pocket what it puts into another.
  have hmoved {p q : Pocket} {k l : Key} {v : ℕ} (h : k.2 = l.2) :
      HasSum (pooled t (entry p k v - entry q l v)) 0 := by
    have hsub := (entry_hasSum t p k v).sub (entry_hasSum t q l v)
    rw [h, sub_self] at hsub
    rwa [map_sub]
  cases m with
  | deposit k v => exact entry_hasSum t _ k v
  | mint u v => exact entry_hasSum t _ (d.account, u) v
  | withdraw k v =>
    rw [effect, map_neg]
    exact (entry_hasSum t _ k v).neg
  | burn u v =>
    rw [effect, map_neg]
    exact (entry_hasSum t _ (d.account, u) v).neg
  | reclaim k v | lock k v | internalTransfer a u v | finalize k v fees => exact hmoved rfl
  | rollback k v fees =>
    have hsum := ((entry_hasSum t .refundable k v).add
      (entry_hasSum t .deposit (d.account, k.2) fees)).sub (entry_hasSum t .locked k (v + fees))
    have hzero : worth t k.2 v + worth t k.2 fees - worth t k.2 (v + fees) = 0 := by
      unfold worth
      split <;> simp
    rw [hzero] at hsum
    rwa [effect, map_sub, map_add]

theorem effects_hasSum (ms : List Movement) : HasSum (pooled t (effects d ms)) (nets t ms) := by
  induction ms with
  | nil => exact hasSum_zero
  | cons m ms ih =>
    have hcons : effects d (m :: ms) = m.effect d + effects d ms := by
      funext p k
      exact effects_cons
    rw [hcons, map_add, nets, map_cons, sum_cons]
    exact m.hasSum.add ih

theorem Posts.hasSum (h : Posts d ms ps s s') (hs : HasSum (s.holdings t) x) :
    HasSum (s'.holdings t) (x + nets t ms) := by
  have hholdings : s'.holdings t = s.holdings t + pooled t (effects d ms) := by
    rw [St.holdings, St.holdings, ← map_add]
    congr 1
    funext p k
    exact h.amount p k
  rw [hholdings]
  exact hs.add (effects_hasSum ms)

def Promise.inflow (t : TokenId) : Promise → PromiseResult → ℤ
  | .mint _ v u _, .successful (some _) => worth t u v
  | .withdraw _ _ v _ u, .successful _ => -worth t u v
  | .burn _ v u, .successful _ => -worth t u v
  | _, _ => 0

def Act.inflow (d : Deployment) (s : St) (t : TokenId) : Act → ℤ
  | .call env c => c.inflow d env s t
  | .execute _ _ => 0
  | .callback i env =>
    match s.receipts[i]? with
    | some ⟨p, some result⟩ =>
      if (p.callback d env (s.drop i) result).isOk then p.inflow t result else 0
    | _ => 0

theorem entries_inflow (p : Promise) (result : PromiseResult) :
    nets t (p.entries d result) = p.inflow t result := by
  cases p with
  | mint => rcases result with (_ | _) | _ <;> simp [Promise.entries, Promise.inflow, nets, Movement.net]
  | sendServiceMessage _ _ message =>
    have hrolled (a : AccountId) (assets : List TransferableAsset) :
        nets t (assets.map (Ending.rolledBack.movement d a)) = 0 :=
      nets_eq_zero (forall_mem_map.2 fun _ _ => rfl)
    cases message <;> cases result <;> first | rfl | exact hrolled _ _
  | _ => cases result <;> simp [Promise.entries, Promise.inflow, nets, Movement.net]

theorem step_hasSum {act : Act} (hs : Sound d s) (hx : HasSum (s.holdings t) x)
    (h : step d s act = .ok s') : HasSum (s'.holdings t) (x + act.inflow d s t) := by
  have hdoes := step_does hs h
  clear h
  cases hdoes with
  | call env c h =>
    obtain ⟨ms, ps, hposts, hnets⟩ := h.posts
    rw [Act.inflow, ← hnets]
    exact hposts.hasSum hx
  | execute p hr h =>
    subst h
    rw [Act.inflow, add_zero]
    exact hx
  | @callback i env p result ps hr hok _ hbooks =>
    have hinflow : Act.inflow d s t (.callback i env) = nets t (p.entries d result) := by
      simp only [Act.inflow, hr, hok, entries_inflow]
      rfl
    rw [hinflow]
    exact hbooks.hasSum (s := s.drop _) hx
  | @panicked i env p result e hr he h =>
    subst h
    have hinflow : Act.inflow d s t (.callback i env) = 0 := by
      simp only [Act.inflow, hr, he]
      rfl
    rw [hinflow, add_zero]
    exact hx

theorem run_summable (acts : List Act) :
    Summable ((run (step d) (initialState d) acts).holdings t) := by
  refine (run_induct (P := fun s => Sound d s ∧ Summable (s.holdings t)) ?_ ⟨initialState_sound, ?_⟩).2
  · rintro s act s' ⟨hs, x, hx⟩ h
    exact ⟨step_sound hs h, _, step_hasSum hs hx h⟩
  · have hnone : (fun p k => ((initialState d).amount p k : ℤ)) = 0 := by
      funext p k
      simp only [St.amount, initialState, amount_update]
      cases p <;> split <;> rfl
    rw [St.holdings, hnone, map_zero]
    exact summable_zero

/-- What all accounts have of a token changes by deposits, and by mints, burns and
withdrawals that succeed; and by nothing else. -/
theorem ledger_conserved (d : Deployment) (acts : List Act) (act : Act) (t : TokenId)
    (h : step d (run (step d) (initialState d) acts) act = .ok s') :
    ∃ total, HasSum ((run (step d) (initialState d) acts).holdings t) total ∧
      HasSum (s'.holdings t) (total + act.inflow d (run (step d) (initialState d) acts) t) := by
  obtain ⟨total, htotal⟩ := run_summable (d := d) (t := t) acts
  exact ⟨total, htotal, step_hasSum (run_sound acts) htotal h⟩

/-- The 60 that Alice gets leave the ledger when the callback runs. -/
theorem withdrawal_leaves_ledger :
    let s := run (step sample) (initialState sample) (withdrawThenTransfer.take 3)
    ∃ s' total, step sample s (.callback 0 serviceCall) = .ok s' ∧ HasSum (s.holdings 17) total ∧
      HasSum (s'.holdings 17) (total + -60) := by
  intro s
  obtain ⟨s', hs'⟩ : ∃ s', step sample s (.callback 0 serviceCall) = .ok s' :=
    toBool_ok.1 (by decide +kernel)
  have hinflow : Act.inflow sample s 17 (.callback 0 serviceCall) = -60 := by decide +kernel
  obtain ⟨total, hbefore, hafter⟩ := ledger_conserved sample _ _ 17 hs'
  exact ⟨s', total, hs', hbefore, hinflow ▸ hafter⟩

end IconBridge.Near.BTS
