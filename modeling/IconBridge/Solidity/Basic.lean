import Mathlib.Data.FinEnum
import Mathlib.Logic.Function.Basic
import IconBridge.Lib.Ledger
import IconBridge.Lib.Outcome

/-!
# Solidity values

Unsigned words are natural numbers with the range checks of the compiler, so
an overflow reverts. A string is a sequence of bytes; byte `b` is written as
the character with code `b`.
-/

namespace IconBridge.Solidity

open Lib

abbrev Address := BitVec 160

instance : LawfulBEq Address := inferInstance

/-- Why a call failed. `catch Error(string)` sees only `error`; `raw` is the
failure of a low-level call or of the decoder, without any reason. -/
inductive Revert
  | error (reason : String)
  | panic (code : Nat)
  | raw
  deriving DecidableEq, Repr

abbrev Outcome := Except Revert

def uint256Max : Nat := 2 ^ 256 - 1

def add (a b : Nat) : Outcome Nat :=
  if a + b ≤ uint256Max then .ok (a + b) else .error (.panic 0x11)

def sub (a b : Nat) : Outcome Nat :=
  if b ≤ a then .ok (a - b) else .error (.panic 0x11)

def mul (a b : Nat) : Outcome Nat :=
  if a * b ≤ uint256Max then .ok (a * b) else .error (.panic 0x11)

theorem add_ok : add a b = .ok c ↔ a + b ≤ uint256Max ∧ c = a + b := by
  unfold add
  split <;> simp_all [eq_comm]

theorem sub_ok : sub a b = .ok c ↔ b ≤ a ∧ c = a - b := by
  unfold sub
  split <;> simp_all [eq_comm]

theorem mul_ok : mul a b = .ok c ↔ a * b ≤ uint256Max ∧ c = a * b := by
  unfold mul
  split <;> simp_all [eq_comm]

abbrev Ledger := Address → Nat

/-- Move `v` from `a` to `b`; moving to oneself only checks the balance. -/
def move (f : Ledger) (a b : Address) (v : Nat) : Ledger :=
  let f' := Function.update f a (f a - v)
  Function.update f' b (f' b + v)

theorem move_apply_of_ne (ha : x ≠ a) (hb : x ≠ b) : move f a b v x = f x := by
  simp [move, ha, hb]

theorem move_src (h : a ≠ b) : move f a b v a = f a - v := by
  simp [move, h]

theorem move_dst (h : a ≠ b) : move f a b v b = f b + v := by
  simp [move, h.symm]

theorem move_self (h : v ≤ f a) : move f a a v = f := by
  simp [move, Nat.sub_add_cancel h]

end IconBridge.Solidity
