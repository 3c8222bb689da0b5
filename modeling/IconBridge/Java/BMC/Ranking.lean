import IconBridge.Java.BMC.Relayers

/-!
# The ranking of relayers

`sortAsc` brings an array into the order of `compare`. The relayers that share a
reward are the first ones of the eligible relayers in that order.
-/

namespace IconBridge.Java.BMC

open Lib List

def Relayer.Before (a b : Relayer) : Prop := a.compare b ≠ .gt

theorem Relayer.before_iff {a b : Relayer} : a.Before b ↔ b.bond < a.bond ∨ a.bond = b.bond ∧
    (a.since < b.since ∨ a.since = b.since ∧ a.sinceExtra ≤ b.sinceExtra) := by
  unfold Before compare
  rcases lt_trichotomy b.bond a.bond with h | h | h
  · simp [compare_lt_iff_lt.2 h, h]
  · rcases lt_trichotomy a.since b.since with h' | h' | h'
    · simp [h, compare_lt_iff_lt.2 h', h']
    · simp [h, h', compare_gt_iff_gt]
    · simp [h, compare_gt_iff_gt.2 h', h'.ne', h'.le]
  · simp [compare_gt_iff_gt.2 h, h.ne, h.le]

theorem Relayer.Before.trans {a b c : Relayer} (hab : a.Before b) (hbc : b.Before c) : a.Before c := by
  rw [before_iff] at *
  omega

theorem Relayer.before_total (a b : Relayer) : a.Before b ∨ b.Before a := by
  rw [before_iff, before_iff]
  omega

theorem sweep_least (v : Relayer) (xs : List Relayer) :
    ∀ x ∈ v :: xs, (sweep v xs).1.Before x := by
  induction xs generalizing v with
  | nil =>
    intro x hx
    rw [mem_singleton.1 hx]
    exact (v.before_total v).elim id id
  | cons y ys ih =>
    unfold sweep
    split
    · next hgt =>
      have hyv : y.Before v := (y.before_total v).resolve_right (not_not.2 hgt)
      exact forall_mem_cons.2 ⟨(ih y y mem_cons_self).trans hyv, ih y⟩
    · next hvy =>
      obtain ⟨hv, hys⟩ := forall_mem_cons.1 (ih v)
      exact forall_mem_cons.2 ⟨hv, forall_mem_cons.2 ⟨hv.trans hvy, hys⟩⟩

theorem sortPasses_sorted (n : ℕ) (xs : List Relayer) (h : xs.length ≤ n) :
    (sortPasses n xs).Pairwise Relayer.Before := by
  induction n generalizing xs with
  | zero =>
    obtain rfl := length_eq_zero_iff.1 (Nat.le_zero.1 h)
    exact .nil
  | succ n ih =>
    cases xs with
    | nil => exact .nil
    | cons v xs =>
      have hperm := sweep_perm v xs
      have hlen := hperm.length_eq
      simp only [length_cons] at hlen h
      refine .cons (fun y hy => ?_) (ih _ (by omega))
      -- what the other passes move about was in the array when the least was taken
      have hrest : y ∈ (sweep v xs).2 := (sortPasses_perm n _).mem_iff.1 hy
      exact sweep_least v xs y (hperm.mem_iff.1 (mem_cons_of_mem _ hrest))

theorem eligible_keys (relayers : Dict Address Relayer) (since : ℤ) (ks : List Address)
    (hks : ∀ k ∈ ks, (relayers.val k).isSome) :
    ((ks.filterMap relayers.val).filter fun r => r.since < since).map some =
      (ks.filter fun k => (relayers.val k).any fun r => r.since < since).map relayers.val := by
  induction ks with
  | nil => rfl
  | cons k ks ih =>
    obtain ⟨hk, hks⟩ := forall_mem_cons.1 hks
    obtain ⟨r, hr⟩ := Option.isSome_iff_exists.1 hk
    have hrest := ih hks
    by_cases hsince : r.since < since <;> simp [hr, hsince, hrest]

/-- `compare` is a total preorder, and the eligible relayers are ranked by it:
those that come first are ahead of all others. -/
theorem relayers_ranked (relayers : Dict Address Relayer) (since : ℤ) :
    (∀ a b : Relayer, (a.compare b ≠ .gt ↔ b.bond < a.bond ∨ a.bond = b.bond ∧
        (a.since < b.since ∨ a.since = b.since ∧ a.sinceExtra ≤ b.sinceExtra)) ∧
      (a.Before b ∨ b.Before a) ∧ ∀ c : Relayer, a.Before b → b.Before c → a.Before c) ∧
    (∀ xs : List Relayer, (sortAsc xs).Perm xs ∧ (sortAsc xs).Pairwise Relayer.Before) ∧
    let ranked := getValuesBySinceAndSortAsc relayers since
    (∃ ks : List Address, ks.Nodup ∧
      (∀ k, k ∈ ks ↔ ∃ r, relayers.val k = some r ∧ r.since < since) ∧
      (ranked.map some).Perm (ks.map relayers.val)) ∧
    ranked.Pairwise Relayer.Before ∧
    ∀ k, ∀ a ∈ ranked.take k, ∀ b ∈ ranked.drop k, a.Before b := by
  have hsorted (xs : List Relayer) := sortPasses_sorted xs.length xs le_rfl
  refine ⟨fun a b => ⟨Relayer.before_iff, a.before_total b, fun c => .trans⟩,
    fun xs => ⟨sortPasses_perm _ xs, hsorted xs⟩, ?_, hsorted _, fun k a ha b hb => ?_⟩
  · refine ⟨_, relayers.nodup.filter _, fun k => ?_, ((sortPasses_perm _ _).map some).trans
      (.of_eq (eligible_keys relayers since _ fun k hk => (relayers.mem_keys k).1 hk))⟩
    rw [mem_filter, relayers.mem_keys]
    cases relayers.val k <;> simp
  · have hpairs := hsorted ((relayers.keys.filterMap relayers.val).filter fun r => r.since < since)
    rw [← take_append_drop k (sortPasses _ _), pairwise_append] at hpairs
    exact hpairs.2.2 a ha b hb

end IconBridge.Java.BMC
