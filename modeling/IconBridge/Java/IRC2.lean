import Mathlib.Logic.Function.Basic
import IconBridge.Java.Basic

/-!
# `IRC2Tradeable`

The ledger of a token contract. The call of `tokenFallback` that ends a transfer
to a contract belongs to whoever models that contract, so `transfer` is here
only the part before it.
-/

namespace IconBridge.Java

open Lib Function

structure IRC2 where
  balances : Address → ℤ := fun _ => 0
  allowances : Address → Address → ℤ := fun _ _ => 0
  totalSupply : ℤ := 0

def zeroAddress : Address := ⟨false, 0⟩

namespace IRC2

def setBalance (t : IRC2) (owner : Address) (amount : ℤ) : IRC2 :=
  { t with balances := update t.balances owner amount }

/-- `_transfer` -/
def transfer (t : IRC2) (sender target : Address) (value : ℤ) : Outcome IRC2 := do
  require (sender ≠ zeroAddress) (.reverted 0 "_from address cannot be zero address")
  require (target ≠ zeroAddress) (.reverted 0 "_to address cannot be zero address")
  require (0 ≤ value) (.reverted 0 "_value needs to be positive")
  require (value ≤ t.balances sender) (.reverted 0 "Insufficient balance")
  let t := t.setBalance sender (t.balances sender - value)
  return t.setBalance target (t.balances target + value)

def minted (t : IRC2) (owner : Address) (amount : ℤ) : IRC2 :=
  { t.setBalance owner (t.balances owner + amount) with totalSupply := t.totalSupply + amount }

/-- `_mint` -/
def mint (t : IRC2) (owner : Address) (amount : ℤ) : Outcome IRC2 := do
  require (owner ≠ zeroAddress) (.reverted 0 "Owner address cannot be zero address")
  require (0 ≤ amount) (.reverted 0 "amount needs to be positive")
  return t.minted owner amount

/-- `_burn` -/
def burn (t : IRC2) (owner : Address) (amount : ℤ) : Outcome IRC2 := do
  require (owner ≠ zeroAddress) (.reverted 0 "Owner address cannot be zero address")
  require (0 ≤ amount) (.reverted 0 "amount needs to be positive")
  require (amount ≤ t.balances owner) (.reverted 0 "Insufficient balance")
  return { t.setBalance owner (t.balances owner - amount) with totalSupply := t.totalSupply - amount }

/-- `_approve` -/
def approve (t : IRC2) (owner spender : Address) (amount : ℤ) : IRC2 :=
  { t with allowances :=
      update t.allowances owner (update (t.allowances owner) spender amount) }

def transferFrom (t : IRC2) (caller sender target : Address) (value : ℤ) : Outcome IRC2 := do
  let currentAllowance := t.allowances sender caller
  require (value ≤ currentAllowance) (.reverted 0 "IRC20: transfer amount exceeds allowance")
  (t.approve sender caller (currentAllowance - value)).transfer sender target value

variable {t t' : IRC2}

@[simp] theorem balances_approve : (t.approve owner spender amount).balances = t.balances := rfl

theorem transfer_ok (h : t.transfer sender target value = .ok t') :
    t'.allowances = t.allowances ∧ 0 ≤ value ∧ value ≤ t.balances sender ∧
    ∀ a, t'.balances a = t.balances a - (if a = sender then value else 0)
      + (if a = target then value else 0) := by
  simp only [transfer, bind_ok, pure_ok, require_ok, decide_eq_true_eq] at h
  obtain ⟨_, -, _, -, _, hpos, _, hcover, rfl⟩ := h
  refine ⟨rfl, hpos, hcover, fun a => ?_⟩
  simp only [setBalance, update_apply]
  grind

theorem mint_natCast (n : ℕ) : t.mint owner n =
    if owner = zeroAddress then .error (.reverted 0 "Owner address cannot be zero address")
    else .ok (t.minted owner n) := by
  split
  · next h => rw [mint, h]; rfl
  · next h => rw [mint, decide_eq_true h, decide_eq_true (Int.natCast_nonneg n)]; rfl

theorem mint_ok (h : t.mint owner amount = .ok t') :
    t'.allowances = t.allowances ∧ 0 ≤ amount ∧
    ∀ a, t'.balances a = t.balances a + (if a = owner then amount else 0) := by
  simp only [mint, bind_ok, pure_ok, require_ok, decide_eq_true_eq] at h
  obtain ⟨_, -, _, hpos, rfl⟩ := h
  refine ⟨rfl, hpos, fun a => ?_⟩
  simp only [minted, setBalance, update_apply]
  grind

theorem burn_ok (h : t.burn owner amount = .ok t') :
    t'.allowances = t.allowances ∧
    ∀ a, t'.balances a = t.balances a - (if a = owner then amount else 0) := by
  simp only [burn, bind_ok, pure_ok, require_ok, decide_eq_true_eq] at h
  obtain ⟨_, -, _, -, _, -, rfl⟩ := h
  refine ⟨rfl, fun a => ?_⟩
  simp only [setBalance, update_apply]
  grind

theorem approve_apply : (t.approve owner spender amount).allowances a b =
    if a = owner ∧ b = spender then amount else t.allowances a b := by
  simp only [approve, update_apply]
  grind

end IRC2

end IconBridge.Java
