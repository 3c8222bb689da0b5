import Mathlib.Data.List.Basic

/-!
# Taking what fits

The longest front of a list that fits is taken off; what is left over is the rest,
unless nothing is left over: then it is the whole list again.
-/

namespace IconBridge.Lib

open List

variable {α : Type*} {fits carries : List α → Prop} {all taken rest : List α}

/-- `taken` is as much of `all` as fits. -/
structure Greedy (fits : List α → Prop) (all taken rest : List α) : Prop where
  eq : all = taken ++ rest
  within : taken ≠ [] → fits taken
  full : ∀ x l, rest = x :: l → ¬fits (taken ++ [x])

theorem Greedy.nil : Greedy fits [] [] [] := ⟨rfl, by simp, by simp⟩

theorem Greedy.stop (h : ¬fits [x]) : Greedy fits (x :: l) [] (x :: l) := by
  refine ⟨rfl, by simp, ?_⟩
  rintro _ _ ⟨⟩
  exact h

theorem Greedy.cons {fits' : List α → Prop} (h : Greedy fits' l taken rest) (hx : fits [x])
    (hfits : ∀ l, fits' l ↔ fits (x :: l)) : Greedy fits (x :: l) (x :: taken) rest := by
  refine ⟨congrArg (x :: ·) h.eq, fun _ => ?_, fun y l hy => mt (hfits _).2 (h.full y l hy)⟩
  cases taken with
  | nil => exact hx
  | cons y taken => exact (hfits _).1 (h.within (cons_ne_nil y taken))

def leftover (all rest : List α) : List α := if rest.isEmpty then all else rest

/-- Something is taken, and the rest is left. -/
def Splits (fits carries : List α → Prop) (all left : List α) : Prop :=
  ∃ front, front ≠ [] ∧ front ++ left = all ∧ fits front ∧ carries front

theorem Greedy.rest_eq_nil (h : Greedy fits all taken rest)
    (hfits : ∀ l l', fits (l ++ l') → fits l) (hall : fits all) : rest = [] := by
  cases rest with
  | nil => rfl
  | cons y rest =>
    rw [h.eq, append_cons] at hall
    exact absurd (hfits _ _ hall) (h.full y rest rfl)

theorem Greedy.splits_iff (h : Greedy fits (x :: l) taken rest)
    (hfits : ∀ l l', fits (l ++ l') → fits l) (hcarries : carries taken) :
    Splits fits carries (x :: l) (leftover (x :: l) rest) ↔ fits [x] ∧ ¬fits (x :: l) := by
  have hnone : ∀ front, front ≠ [] → front ++ (x :: l) ≠ x :: l := fun front hne heq =>
    hne (append_left_eq_self.1 heq)
  cases rest with
  | nil =>
    -- All is taken, so all is left.
    refine iff_of_false ?_ ?_
    · rintro ⟨front, hne, heq, -⟩
      exact hnone front hne heq
    · rintro ⟨-, hall⟩
      rw [h.eq, append_nil] at hall
      refine hall (h.within ?_)
      rintro rfl
      cases h.eq
  | cons y rest =>
    rw [and_iff_left fun hall => cons_ne_nil y rest (h.rest_eq_nil hfits hall)]
    cases taken with
    | nil =>
      obtain ⟨rfl, rfl⟩ := List.cons.inj h.eq
      refine iff_of_false ?_ (h.full _ _ rfl)
      rintro ⟨front, hne, heq, -⟩
      exact hnone front hne heq
    | cons z taken =>
      have htaken := h.within (cons_ne_nil z taken)
      obtain ⟨rfl, -⟩ := List.cons.inj h.eq
      exact iff_of_true ⟨_, cons_ne_nil x taken, h.eq.symm, htaken, hcarries⟩
        (hfits [x] taken htaken)

end IconBridge.Lib
