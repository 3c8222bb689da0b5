import Mathlib.Algebra.BigOperators.Fin
import Mathlib.Algebra.BigOperators.Ring.Finset
import Mathlib.Algebra.Order.BigOperators.Group.Finset

/-!
# Totals of a ledger

A ledger maps the accounts of a finite type to amounts. Writing one account
changes the total by what the account gains or loses.
-/

namespace IconBridge.Lib

open Finset

variable {A : Type*} [Fintype A] {M : Type*} [AddCommMonoid M]

def total (f : A → M) : M := ∑ a, f a

theorem total_update [DecidableEq A] (f : A → M) (a : A) (v : M) :
    total (Function.update f a v) + f a = total f + v := by
  have hnew : total (Function.update f a v) = v + ∑ x ∈ univ \ {a}, f x :=
    sum_update_of_mem (mem_univ a) f v
  have hold : total f = f a + ∑ x ∈ univ \ {a}, f x := by
    simpa [total, sdiff_singleton_eq_erase] using (add_sum_erase univ f (mem_univ a)).symm
  rw [hnew, hold, add_right_comm, add_comm v, add_right_comm, add_comm (f a), add_right_comm]

theorem le_total (f : A → ℕ) (a : A) : f a ≤ total f :=
  single_le_sum (f := f) (fun _ _ => Nat.zero_le _) (mem_univ a)

theorem total_zero : total (fun _ : A => (0 : M)) = 0 := by
  simp [total]

end IconBridge.Lib
