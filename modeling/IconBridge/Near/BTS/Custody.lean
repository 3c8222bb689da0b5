import IconBridge.Near.BTS.Withdrawal

/-!
# Nobody else takes from a deposit

Whatever others call, and in whatever order promises are executed, the deposit of an
account falls only by the withdrawals that the account itself has started.
-/

namespace IconBridge.Near.BTS

open Lib List

variable {d : Deployment} {env : Env} {s s' : St} {k : Key}

/-- From `s` to `s'` the deposit falls by no more than the withdrawals on their way do. -/
def Spares (k : Key) (s s' : St) : Prop :=
  s.amount .deposit k + s'.outstanding k ≤ s'.amount .deposit k + s.outstanding k

def Act.caller : Act → Option AccountId
  | .call env _ => some env.predecessor
  | _ => none

theorem Posts.spares (h : Posts d ms ps s s') (hps : Plain ps)
    (heffect : 0 ≤ effects d ms .deposit k) : Spares k s s' := by
  have hamount := h.amount .deposit k
  rw [Spares, (h.receipt_sums hps k).1]
  omega

theorem effects_nonneg (hk : k.1 ≠ d.account) (hms : ∀ m ∈ ms, m.Routine d) :
    0 ≤ effects d ms .deposit k :=
  sum_nonneg (forall_mem_map.2 fun m hm => (hms m hm).effect_nonneg hk)

theorem Posts.locks_spares (h : Posts d (locks l) ps s s') (hps : Plain ps)
    (hl : ∀ x ∈ l, x.1 ≠ k) : Spares k s s' :=
  h.spares hps (by simp [effects_locks, took_eq_zero hl])

theorem Responds.spares (hk : k.1 ≠ d.account) (h : Responds d s n code s') : Spares k s s' := by
  obtain ⟨ms, ps, hposts, hms, hps⟩ := h.posts
  refine hposts.spares hps (effects_nonneg hk fun m hm => ?_)
  have hsettlement := hms m hm
  cases m with
  | finalize | rollback => trivial
  | _ => contradiction

theorem Call.Does.spares {c : Call} (hk : k.1 ≠ d.account) (hcaller : env.predecessor ≠ k.1)
    (h : c.Does d env s s') : Spares k s s' := by
  have hkey (a : AccountId) (ha : a ≠ k.1) (t : TokenId) : (a, t) ≠ k := by
    rintro rfl
    exact ha rfl
  cases h with
  | idle h =>
    obtain ⟨ms, ps, hbooks, hms, hps⟩ := h
    refine hbooks.toPosts.spares hps (effects_nonneg hk fun m hm => ?_)
    have hstill := hms m hm
    cases m with
    | reclaim | internalTransfer => trivial
    | _ => exact hstill.elim
  | ftOnTransfer _ _ h | deposit _ _ h =>
    exact h.toPosts.spares .nil (effects_nonneg hk (by simp [Movement.Routine]))
  | withdraw payment tokenId _ h =>
    -- the withdrawal is another account's
    subst h
    simp [Spares, St.promise, St.amount, St.outstanding, Receipt.outstanding, share,
      (hkey _ hcaller tokenId).symm]
  | files h =>
    obtain ⟨p, hp, hposts⟩ := h.posts
    exact hposts.locks_spares (.one hp) (forall_mem_map.2 fun y _ => hkey _ hcaller y.1)
  | gathers h =>
    obtain ⟨p, hp, hposts⟩ := h.posts
    exact hposts.locks_spares (.one hp) (forall_mem_map.2 fun y _ => hkey _ hk.symm y.1)
  | answered h | failed h => exact h.spares hk

theorem callback_spares (hk : k.1 ≠ d.account) (hr : s.receipts[i]? = some ⟨p, some result⟩)
    (h : Posts d (p.entries d result) ps (s.drop i) s') (hps : Plain ps) : Spares k s s' := by
  have hdrop := drop_outstanding hr k
  have hout := (h.receipt_sums hps k).1
  have hamount : (s'.amount .deposit k : ℤ) = s.amount .deposit k + _ := h.amount .deposit k
  have hnonneg {ms} (hms : ∀ m ∈ ms, m.Routine d) :
      -(Receipt.outstanding ⟨p, some result⟩ k : ℤ) ≤ effects d ms .deposit k :=
    (Int.neg_nonpos_of_nonneg (Int.natCast_nonneg _)).trans (effects_nonneg hk hms)
  have hentries : -(Receipt.outstanding ⟨p, some result⟩ k : ℤ) ≤
      effects d (p.entries d result) .deposit k := by
    unfold Promise.entries
    split
    · simp [Receipt.outstanding, Movement.effect, entry_deposit]
    · exact hnonneg (by simp [Movement.Routine])
    · exact hnonneg (by simp [Movement.Routine])
    · exact hnonneg (by simp [Ending.movement, Movement.Routine])
    · exact hnonneg (by simp)
  rw [Spares]
  omega

theorem step_spares {act : Act} (hs : Sound d s) (hk : k.1 ≠ d.account) (hact : act.caller ≠ some k.1)
    (h : step d s act = .ok s') : Spares k s s' := by
  have hdoes := step_does hs h
  clear h
  cases hdoes with
  | call env c h => exact h.spares hk fun heq => hact (congrArg some heq)
  | @execute i result p hr h =>
    subst h
    have hset := sum_set (fun r => r.outstanding k) hr (y := { promise := p, result := some result })
    have hle := Receipt.outstanding_le p (some result) k
    refine Nat.add_le_add_left ?_ _
    simp only [St.outstanding]
    omega
  | callback env p result ps hr _ hps h => exact callback_spares hk hr h.toPosts hps
  | panicked env p result e hr _ h =>
    subst h
    have hdrop := drop_outstanding hr k
    refine Nat.add_le_add_left ?_ _
    omega

/-- While an account calls nothing, its deposit falls at most by the withdrawals that were on
their way. -/
theorem deposits_safe (d : Deployment) (acts later : List Act) (a : AccountId) (t : TokenId)
    (ha : a ≠ d.account) (hlater : ∀ act ∈ later, act.caller ≠ some a) :
    let s := run (step d) (initialState d) acts
    let s' := run (step d) s later
    s.amount .deposit (a, t) + s'.outstanding (a, t) ≤
      s'.amount .deposit (a, t) + s.outstanding (a, t) := by
  intro s
  refine (run_along (P := fun s' => Sound d s' ∧ Spares (a, t) s s') (fun s₁ act s₂ hs hact h => ?_)
    ⟨run_sound acts, le_rfl⟩ (along_of_mem hlater)).2
  have hspares : Spares (a, t) s₁ s₂ := step_spares hs.1 ha hact h
  have hbefore := hs.2
  refine ⟨step_sound hs.1 h, ?_⟩
  unfold Spares at *
  omega

def bobDeposits : Act := .call { alice with predecessor := "bob.near" } .deposit

theorem alice_deposit_safe :
    let s := run (step sample) (initialState sample) [aliceDeposits]
    let s' := run (step sample) s [bobDeposits]
    s.amount .deposit ("alice.near", 17) = 100 ∧
      s.amount .deposit ("alice.near", 17) + s'.outstanding ("alice.near", 17) ≤
        s'.amount .deposit ("alice.near", 17) + s.outstanding ("alice.near", 17) :=
  ⟨by decide +kernel,
    deposits_safe sample [aliceDeposits] [bobDeposits] "alice.near" 17 (by decide) (by decide)⟩

end IconBridge.Near.BTS
