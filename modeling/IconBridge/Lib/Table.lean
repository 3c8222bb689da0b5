import Mathlib.Algebra.BigOperators.Group.Finset.Basic
import Mathlib.Algebra.Order.Group.Nat
import Mathlib.Data.List.Perm.Basic
import Mathlib.Data.Set.Card
import Mathlib.Logic.Function.Basic
import Mathlib.Order.Interval.Finset.Nat

/-!
# Tables numbered by a counter

Entries are filed under fresh numbers `1, 2, 3, …` and later removed. `live`
collects the numbers in use and `weight` adds up an amount over the entries.
-/

namespace IconBridge.Lib

open Finset Function Option

variable {R : Type*}

def live (top : Nat) (table : Nat → Option R) : Finset Nat :=
  (range (top + 1)).filter fun n => (table n).isSome

def weight (w : R → Nat) (top : Nat) (table : Nat → Option R) : Nat :=
  ∑ n ∈ live top table, (table n).elim 0 w

def Numbered (top : Nat) (table : Nat → Option R) : Prop :=
  ∀ n, (table n).isSome → 1 ≤ n ∧ n ≤ top

theorem mem_live : n ∈ live top table ↔ n ≤ top ∧ (table n : Option R).isSome := by
  simp [live]

theorem Numbered.mem_live (h : Numbered top (table : Nat → Option R)) :
    n ∈ live top table ↔ (table n).isSome := by
  rw [Lib.mem_live]
  exact ⟨And.right, fun hn => ⟨(h n hn).2, hn⟩⟩

theorem Numbered.ncard (h : Numbered top (table : Nat → Option R)) :
    {n | (table n).isSome}.ncard = (live top table).card := by
  rw [← Set.ncard_coe_finset]
  congr 1
  ext n
  exact h.mem_live.symm

theorem Numbered.weight_eq {table : Nat → Option R} (h : Numbered top table) (w : R → Nat) :
    weight w top table = ∑ n ∈ Icc 1 top, (table n).elim 0 w := by
  refine sum_subset (fun n hn => ?_) fun n _ hn => ?_
  · exact mem_Icc.2 (h n (h.mem_live.1 hn))
  · rw [h.mem_live, not_isSome_iff_eq_none] at hn
    rw [hn, elim_none]

theorem Numbered.file (h : Numbered top table) (r : R) :
    Numbered (top + 1) (update table (top + 1) (some r)) := by
  intro n hn
  by_cases heq : n = top + 1
  · omega
  · rw [update_of_ne heq] at hn
    have := h n hn
    omega

theorem Numbered.remove (h : Numbered top (table : Nat → Option R)) (k : Nat) :
    Numbered top (update table k none) := by
  intro n hn
  by_cases heq : n = k
  · simp [heq] at hn
  · rw [update_of_ne heq] at hn
    exact h n hn

theorem live_file (table : Nat → Option R) (r : R) :
    live (top + 1) (update table (top + 1) (some r)) = insert (top + 1) (live top table) := by
  ext n
  rw [mem_insert, mem_live, mem_live]
  by_cases h : n = top + 1
  · simp [h]
  · simp only [update_of_ne h, h, false_or]
    exact and_congr_left' (by omega)

theorem live_remove (table : Nat → Option R) :
    live top (update table k none) = (live top table).erase k := by
  ext n
  rw [mem_erase, mem_live, mem_live]
  by_cases h : n = k <;> simp [h]

private theorem notMem_live_succ : top + 1 ∉ live top (table : Nat → Option R) := by
  simp [mem_live]

theorem card_live_file (table : Nat → Option R) (r : R) :
    (live (top + 1) (update table (top + 1) (some r))).card = (live top table).card + 1 := by
  rw [live_file, card_insert_of_notMem notMem_live_succ]

theorem card_live_remove (hk : k ∈ live top (table : Nat → Option R)) :
    (live top (update table k none)).card + 1 = (live top table).card := by
  rw [live_remove, card_erase_add_one hk]

theorem weight_file (w : R → Nat) (table : Nat → Option R) (r : R) :
    weight w (top + 1) (update table (top + 1) (some r)) = weight w top table + w r := by
  rw [weight, live_file, sum_insert notMem_live_succ, update_self, elim_some,
    Nat.add_comm]
  congr 1
  refine sum_congr rfl fun n hn => ?_
  rw [update_of_ne]
  rintro rfl
  exact notMem_live_succ hn

theorem weight_remove {table : Nat → Option R} (w : R → Nat) (hk : k ∈ live top table)
    (hr : table k = some r) : weight w top (update table k none) + w r = weight w top table := by
  have hsum := sum_erase_add _ (fun n => (table n).elim 0 w) hk
  rw [hr, elim_some] at hsum
  rw [weight, live_remove, weight, ← hsum]
  congr 1
  refine sum_congr rfl fun n hn => ?_
  rw [update_of_ne (ne_of_mem_erase hn)]

theorem le_weight {table : Nat → Option R} (w : R → Nat) (hk : k ∈ live top table)
    (hr : table k = some r) : w r ≤ weight w top table := by
  have := weight_remove w hk hr
  omega

theorem weight_empty (w : R → Nat) : weight w top (fun _ => none) = 0 := by
  simp [weight]

section Keys

variable {K M : Type*} [AddCommMonoid M] {table : K → Option R} {keys : Finset K}

def sumOver (w : R → M) (keys : Finset K) (table : K → Option R) : M :=
  ∑ k ∈ keys, (table k).elim 0 w

theorem sumOver_empty (w : R → M) : sumOver w keys (fun _ => none) = 0 := by
  simp [sumOver]

theorem sumOver_subset {keys' : Finset K} (w : R → M) (hsub : keys ⊆ keys')
    (hnone : ∀ k ∈ keys', k ∉ keys → table k = none) :
    sumOver w keys' table = sumOver w keys table := by
  refine (sum_subset hsub fun k hk hnot => ?_).symm
  rw [hnone k hk hnot, elim_none]

variable [DecidableEq K]

theorem sumOver_insert (w : R → M) (hk : k ∉ keys) (v : Option R) :
    sumOver w (insert k keys) (update table k v) = sumOver w keys table + v.elim 0 w := by
  rw [sumOver, sum_insert hk, update_self, add_comm]
  congr 1
  refine sum_congr rfl fun n hn => ?_
  rw [update_of_ne]
  rintro rfl
  exact hk hn

theorem sumOver_remove (w : R → M) (hk : k ∈ keys) :
    sumOver w keys (update table k none) + (table k).elim 0 w = sumOver w keys table := by
  have hnew := add_sum_erase keys (fun n => (update table k none n).elim 0 w) hk
  have hold := add_sum_erase keys (fun n => (table n).elim 0 w) hk
  rw [sumOver, sumOver, ← hnew, ← hold, update_self, elim_none, zero_add, add_comm]
  congr 1
  refine sum_congr rfl fun n hn => ?_
  rw [update_of_ne (ne_of_mem_erase hn)]

end Keys

section Lists

variable {α M : Type*} [AddCommMonoid M] {l : List α}

theorem sum_eraseIdx (w : α → M) (h : l[i]? = some x) :
    w x + ((l.eraseIdx i).map w).sum = (l.map w).sum := by
  obtain ⟨hi, rfl⟩ := List.getElem?_eq_some_iff.1 h
  have hperm := ((List.getElem_cons_eraseIdx_perm hi).map w).sum_eq
  rwa [List.map_cons, List.sum_cons] at hperm

theorem sum_set (w : α → M) (h : l[i]? = some x) :
    w x + ((l.set i y).map w).sum = w y + (l.map w).sum := by
  obtain ⟨hi, rfl⟩ := List.getElem?_eq_some_iff.1 h
  have hperm := ((List.set_perm_cons_eraseIdx hi y).map w).sum_eq
  rw [hperm, List.map_cons, List.sum_cons, ← sum_eraseIdx w h, add_left_comm]

end Lists

end IconBridge.Lib
