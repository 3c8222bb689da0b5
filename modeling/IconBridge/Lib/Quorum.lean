import Mathlib.Algebra.BigOperators.Group.Finset.Basic
import Mathlib.Algebra.Order.BigOperators.Group.Finset

/-!
# Quorums

Members of a finite set have weights. Two parts that have more than two thirds
of the weight each share more than one third of it.
-/

namespace IconBridge.Lib

variable {ι : Type*} [DecidableEq ι] {all a b : Finset ι} {weight : ι → ℕ}

/-- A part that has more than two thirds of the weight. -/
def Quorum (weight : ι → ℕ) (all part : Finset ι) : Prop :=
  part ⊆ all ∧ 2 * ∑ i ∈ all, weight i < 3 * ∑ i ∈ part, weight i

theorem weight_add_le (weight : ι → ℕ) (ha : a ⊆ all) (hb : b ⊆ all) :
    ∑ i ∈ a, weight i + ∑ i ∈ b, weight i ≤ ∑ i ∈ all, weight i + ∑ i ∈ a ∩ b, weight i := by
  rw [← Finset.sum_union_inter]
  refine Nat.add_le_add_right (Finset.sum_le_sum_of_subset ?_) _
  exact Finset.union_subset ha hb

theorem Quorum.inter (ha : Quorum weight all a) (hb : Quorum weight all b) :
    ∑ i ∈ all, weight i < 3 * ∑ i ∈ a ∩ b, weight i := by
  have hle := weight_add_le weight ha.1 hb.1
  have hqa := ha.2
  have hqb := hb.2
  omega

end IconBridge.Lib
