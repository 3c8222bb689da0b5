import Mathlib.Algebra.Order.Ring.Nat
import Mathlib.Data.List.Induction
import Mathlib.Tactic.Ring

/-!
# Big-endian digit strings

Numbers written with a fixed count of digits, most significant digit first.
Addresses are written this way in base 16, machine words in base 256.
-/

namespace IconBridge.Lib

open List

/-- The `k` lowest digits of `n` in base `b`, most significant first. -/
def toDigits (b : Nat) : Nat → Nat → List Nat
  | 0, _ => []
  | k + 1, n => toDigits b k (n / b) ++ [n % b]

def ofDigits (b : Nat) (ds : List Nat) : Nat :=
  ds.foldl (fun n d => b * n + d) 0

@[simp] theorem length_toDigits : (toDigits b k n).length = k := by
  induction k generalizing n with
  | zero => rfl
  | succ k ih => simp [toDigits, ih]

theorem toDigits_lt (hb : 0 < b) (hd : d ∈ toDigits b k n) : d < b := by
  induction k generalizing n with
  | zero => simp [toDigits] at hd
  | succ k ih =>
    simp only [toDigits, mem_append, mem_singleton] at hd
    rcases hd with hd | rfl
    · exact ih hd
    · exact Nat.mod_lt _ hb

theorem toDigits_add : toDigits b (j + k) n = toDigits b j (n / b ^ k) ++ toDigits b k n := by
  induction k generalizing n with
  | zero => simp [toDigits]
  | succ k ih =>
    rw [← Nat.add_assoc, toDigits, ih, Nat.div_div_eq_div_mul, ← Nat.pow_succ', append_assoc]
    rfl

theorem toDigits_zero : toDigits b k 0 = List.replicate k 0 := by
  induction k with
  | zero => rfl
  | succ k ih => simp [toDigits, ih, replicate_succ']

@[simp] theorem ofDigits_nil : ofDigits b [] = 0 := rfl

@[simp] theorem ofDigits_concat (ds : List Nat) (d : Nat) :
    ofDigits b (ds ++ [d]) = b * ofDigits b ds + d := by
  simp [ofDigits]

theorem ofDigits_append (ds es : List Nat) :
    ofDigits b (ds ++ es) = b ^ es.length * ofDigits b ds + ofDigits b es := by
  induction es using List.reverseRecOn with
  | nil => simp
  | append_singleton es e ih =>
    rw [← append_assoc, ofDigits_concat, ih, ofDigits_concat, length_append,
      length_singleton]
    ring

theorem ofDigits_toDigits : ofDigits b (toDigits b k n) = n % b ^ k := by
  induction k generalizing n with
  | zero => simp [toDigits, Nat.mod_one]
  | succ k ih =>
    rw [toDigits, ofDigits_concat, ih, Nat.pow_succ', Nat.mod_mul, Nat.add_comm]

theorem ofDigits_lt {ds : List Nat} (h : ∀ d ∈ ds, d < b) : ofDigits b ds < b ^ ds.length := by
  induction ds using List.reverseRecOn with
  | nil => simp
  | append_singleton ds d ih =>
    have hds := ih fun x hx => h x (by simp [hx])
    have hd := h d (by simp)
    rw [ofDigits_concat, length_append, length_singleton, Nat.pow_succ']
    calc b * ofDigits b ds + d < b * ofDigits b ds + b := by omega
      _ = b * (ofDigits b ds + 1) := by ring
      _ ≤ b * b ^ ds.length := Nat.mul_le_mul_left b hds

theorem toDigits_ofDigits {ds : List Nat} (h : ∀ d ∈ ds, d < b) :
    toDigits b ds.length (ofDigits b ds) = ds := by
  induction ds using List.reverseRecOn with
  | nil => rfl
  | append_singleton ds d ih =>
    have hd : d < b := h d (by simp)
    rw [length_append, length_singleton, toDigits, ofDigits_concat,
      Nat.mul_add_div (by omega), Nat.div_eq_of_lt hd, Nat.mul_add_mod, Nat.mod_eq_of_lt hd,
      Nat.add_zero, ih fun x hx => h x (by simp [hx])]

end IconBridge.Lib
