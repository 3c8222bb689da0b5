import Mathlib.Algebra.Group.Basic
import IconBridge.Lib.Outcome

/-!
# Runs of transactions

A machine is a partial step function. A transaction that reverts leaves the
state as it was, so a run is total. `Along` says that every transaction of a
run meets a condition in the state in which it is taken.
-/

namespace IconBridge.Lib

variable {σ α ε : Type*}

def exec (step : σ → α → Except ε σ) (s : σ) (a : α) : σ :=
  match step s a with
  | .ok s' => s'
  | .error _ => s

def run (step : σ → α → Except ε σ) (s : σ) (as : List α) : σ :=
  as.foldl (exec step) s

def Along (step : σ → α → Except ε σ) (C : σ → α → Prop) : σ → List α → Prop
  | _, [] => True
  | s, a :: as => C s a ∧ Along step C (exec step s a) as

instance (step : σ → α → Except ε σ) (C : σ → α → Prop) [h : ∀ s a, Decidable (C s a)] :
    ∀ s as, Decidable (Along step C s as)
  | _, [] => .isTrue trivial
  | s, a :: as =>
    have := instDecidableAlong step C (h := h) (exec step s a) as
    inferInstanceAs (Decidable (_ ∧ _))

variable {step : σ → α → Except ε σ}

@[simp] theorem run_nil : run step s [] = s := rfl
@[simp] theorem run_cons : run step s (a :: as) = run step (exec step s a) as := rfl

theorem run_append : run step s (as ++ bs) = run step (run step s as) bs := by
  simp [run]

theorem exec_of_ok (h : step s a = .ok s') : exec step s a = s' := by
  simp [exec, h]

theorem exec_of_error (h : step s a = .error e) : exec step s a = s := by
  simp [exec, h]

theorem exec_induct {P : σ → Prop} (hstep : ∀ s', step s a = .ok s' → P s') (hs : P s) :
    P (exec step s a) := by
  cases h : step s a with
  | ok s' => rw [exec_of_ok h]; exact hstep s' h
  | error e => rw [exec_of_error h]; exact hs

/-- What every transaction preserves holds after every run. -/
theorem run_induct {P : σ → Prop} (hstep : ∀ s a s', P s → step s a = .ok s' → P s')
    (hs : P s) : P (run step s as) := by
  induction as generalizing s with
  | nil => exact hs
  | cons a as ih => exact ih (exec_induct (fun s' => hstep s a s' hs) hs)

/-- The same for what is preserved only by transactions that meet a condition. -/
theorem run_along {P : σ → Prop} {C : σ → α → Prop}
    (hstep : ∀ s a s', P s → C s a → step s a = .ok s' → P s')
    (hs : P s) (hc : Along step C s as) : P (run step s as) := by
  induction as generalizing s with
  | nil => exact hs
  | cons a as ih =>
    obtain ⟨ha, hc⟩ := hc
    exact ih (exec_induct (fun s' => hstep s a s' hs ha) hs) hc

theorem along_of_forall {C : σ → α → Prop} (h : ∀ a ∈ as, ∀ s, C s a) : Along step C s as := by
  induction as generalizing s with
  | nil => trivial
  | cons a as ih =>
    exact ⟨h a List.mem_cons_self s, ih fun b hb => h b (List.mem_cons_of_mem _ hb)⟩

theorem along_of_mem {C : α → Prop} (h : ∀ a ∈ as, C a) : Along step (fun _ => C) s as :=
  along_of_forall fun a ha _ => h a ha

theorem Along.append {C : σ → α → Prop} (h : Along step C s (as ++ bs)) :
    Along step C s as ∧ Along step C (run step s as) bs := by
  induction as generalizing s with
  | nil => exact ⟨trivial, h⟩
  | cons a as ih =>
    obtain ⟨ha, h⟩ := h
    obtain ⟨h1, h2⟩ := ih h
    exact ⟨⟨ha, h1⟩, h2⟩

def tally [Add M] [Zero M] (step : σ → α → Except ε σ) (f : σ → α → M) : σ → List α → M
  | _, [] => 0
  | s, a :: as =>
    (match step s a with
      | .ok _ => f s a
      | .error _ => 0) + tally step f (exec step s a) as

/-- If every transaction moves a measure up by `f` and down by `g`, a run moves
it by the totals. -/
theorem tally_along [AddCommMonoid M] {μ : σ → M} {f g : σ → α → M} {P : σ → Prop}
    {C : σ → α → Prop}
    (hstep : ∀ s a s', P s → C s a → step s a = .ok s' → P s' ∧ μ s' + g s a = μ s + f s a)
    (hs : P s) (hc : Along step C s as) :
    μ (run step s as) + tally step g s as = μ s + tally step f s as := by
  induction as generalizing s with
  | nil => rfl
  | cons a as ih =>
    obtain ⟨ha, hc⟩ := hc
    simp only [run_cons, tally]
    cases h : step s a with
    | error e =>
      rw [exec_of_error h] at hc ⊢
      rw [zero_add, zero_add]
      exact ih hs hc
    | ok s' =>
      rw [exec_of_ok h] at hc ⊢
      obtain ⟨hs', hμ⟩ := hstep s a s' hs ha h
      have hrest := ih hs' hc
      calc μ (run step s' as) + (g s a + tally step g s' as)
          = μ (run step s' as) + tally step g s' as + g s a := by rw [add_comm (g s a), add_assoc]
        _ = μ s' + g s a + tally step f s' as := by rw [hrest, add_right_comm]
        _ = μ s + (f s a + tally step f s' as) := by rw [hμ, add_assoc]

end IconBridge.Lib
