import Mathlib.Algebra.Order.Monoid.Defs
import Mathlib.Algebra.BigOperators.Group.List.Basic

/-!
# What a list of entries holds of a key

Entries may name a key more than once. A bound on every entry is a bound on
what is held of the keys that are named once.
-/

namespace IconBridge.Lib

open List

variable {K M : Type*} [DecidableEq K] [AddCommMonoid M] [PartialOrder M]

def portion (l : List (K × M)) (k : K) : M := ((l.filter (·.1 = k)).map Prod.snd).sum

omit [PartialOrder M] in
theorem portion_cons (l : List (K × M)) (k : K) :
    portion ((j, v) :: l) k = (if j = k then v else 0) + portion l k := by
  by_cases h : j = k <;> simp [portion, h]

/-- The keys that are named more than once keep within their limits. -/
def RepeatsWithin (limit : K → M) (l : List (K × M)) : Prop :=
  ∀ k, 1 < (l.map Prod.fst).count k → portion l k ≤ limit k

omit [AddCommMonoid M] [PartialOrder M] in
theorem count_keys (l : List (K × M)) (k : K) :
    (l.map Prod.fst).count k = (l.filter (·.1 = k)).length := by
  rw [count_eq_countP, countP_map, countP_eq_length_filter]
  rfl

theorem portion_le_of_count_le {limit : K → M} {l : List (K × M)} (hzero : ∀ k, 0 ≤ limit k)
    (h : ∀ e ∈ l, e.2 ≤ limit e.1) (hk : (l.map Prod.fst).count k ≤ 1) : portion l k ≤ limit k := by
  rw [count_keys] at hk
  unfold portion
  have hmem : ∀ e ∈ l.filter (·.1 = k), e.2 ≤ limit k := by
    intro e he
    obtain ⟨hl, hkey⟩ := mem_filter.1 he
    exact of_decide_eq_true hkey ▸ h e hl
  generalize l.filter (·.1 = k) = held at hk hmem ⊢
  match held with
  | [] => exact hzero k
  | [e] => simpa using hmem e (mem_singleton_self e)
  | _ :: _ :: _ => simp at hk

/-- Every key keeps within its limit, if those do that are named more than once. -/
theorem portion_le_iff {limit : K → M} {l : List (K × M)} (hzero : ∀ k, 0 ≤ limit k)
    (h : ∀ e ∈ l, e.2 ≤ limit e.1) :
    (∀ k, portion l k ≤ limit k) ↔ RepeatsWithin limit l := by
  constructor
  · intro hall k _
    exact hall k
  · intro hrepeats k
    rcases Nat.lt_or_ge 1 ((l.map Prod.fst).count k) with hk | hk
    · exact hrepeats k hk
    · exact portion_le_of_count_le hzero h hk

omit [AddCommMonoid M] [PartialOrder M] in
theorem mem_of_count {l : List (K × M)} (h : 1 < (l.map Prod.fst).count k) : ∃ e ∈ l, e.1 = k :=
  mem_map.1 (count_pos_iff.1 (Nat.lt_of_succ_lt h))

instance [DecidableLE M] (limit : K → M) (l : List (K × M)) : Decidable (RepeatsWithin limit l) :=
  decidable_of_iff
    (∀ e ∈ l, 1 < (l.map Prod.fst).count e.1 → portion l e.1 ≤ limit e.1)
    ⟨fun h _ hk => by obtain ⟨e, he, rfl⟩ := mem_of_count hk; exact h e he hk,
      fun h e _ => h e.1⟩

end IconBridge.Lib
