import Mathlib.Data.List.Perm.Basic

/-!
# Marked entries of a list

Entries of a queue are marked by a list of the same shape. The marks may be
shorter than the queue: what is appended later is not marked.
-/

namespace IconBridge.Lib

open List

variable {α β : Type*}

def marked : List α → List Bool → List α
  | x :: xs, true :: ms => x :: marked xs ms
  | _ :: xs, false :: ms => marked xs ms
  | _, _ => []

@[simp] theorem marked_nil_left : marked ([] : List α) ms = [] := by
  unfold marked
  rfl

@[simp] theorem marked_nil_right : marked (xs : List α) [] = [] := by
  cases xs <;> rfl

theorem marked_append (h : ms.length ≤ xs.length) : marked (xs ++ ys : List α) ms = marked xs ms := by
  induction xs generalizing ms with
  | nil => simp [length_eq_zero_iff.1 (Nat.le_zero.1 h)]
  | cons x xs ih =>
    cases ms with
    | nil => rfl
    | cons m ms =>
      have := ih (Nat.le_of_succ_le_succ h)
      cases m <;> simp [marked, this]

theorem marked_unmarked :
    marked (xs ++ ys : List α) (List.replicate xs.length false ++ ms) = marked ys ms := by
  induction xs with
  | nil => rfl
  | cons x xs ih => exact ih

theorem marked_map (f : α → Bool) : marked xs (xs.map f) = xs.filter f := by
  induction xs with
  | nil => rfl
  | cons x xs ih => cases h : f x <;> simp [marked, h, ih]

theorem map_marked_set (f : α → β) (h : xs[i]? = some x) (hf : f y = f x) :
    (marked (xs.set i y) ms).map f = (marked xs ms).map f := by
  induction xs generalizing i ms with
  | nil => rfl
  | cons z xs ih =>
    cases ms with
    | nil => simp
    | cons m ms =>
      cases i with
      | zero =>
        obtain rfl : z = x := by simpa using h
        cases m <;> simp [marked, hf]
      | succ i => cases m <;> simp [marked, ih h]

theorem marked_eraseIdx_of_marked (h : xs[i]? = some x) (hm : ms[i]? = some true) :
    (marked xs ms : List α).Perm (x :: marked (xs.eraseIdx i) (ms.eraseIdx i)) := by
  induction xs generalizing i ms with
  | nil => contradiction
  | cons z xs ih =>
    cases ms with
    | nil => contradiction
    | cons m ms =>
      cases i with
      | zero =>
        obtain rfl : z = x := by simpa using h
        obtain rfl : m = true := by simpa using hm
        exact .refl _
      | succ i =>
        cases m with
        | true => exact ((ih h hm).cons z).trans (.swap ..)
        | false => exact ih h hm

theorem marked_eraseIdx_of_unmarked (hm : ms[i]? ≠ some true) :
    marked (xs.eraseIdx i : List α) (ms.eraseIdx i) = marked xs ms := by
  induction xs generalizing i ms with
  | nil => simp
  | cons z xs ih =>
    cases ms with
    | nil => simp
    | cons m ms =>
      cases i with
      | zero =>
        obtain rfl : m = false := by simpa using hm
        rfl
      | succ i =>
        have := ih (i := i) hm
        cases m <;> simp [marked, this]

theorem length_eraseIdx_le {xs : List α} {ms : List β} (h : ms.length ≤ xs.length)
    (hi : i < xs.length) :
    (ms.eraseIdx i).length ≤ (xs.eraseIdx i).length := by
  rw [length_eraseIdx, length_eraseIdx, if_pos hi]
  split <;> omega

end IconBridge.Lib
