import Mathlib.Logic.Function.Basic
import IconBridge.Lib.Runs

/-!
# A record that is read, changed and written back

Several parties change one record. A call reads the whole record in one step
and writes its changed copy back in another. As long as no party writes while
another one holds a copy, the calls take effect one after another, in the order
in which they write.
-/

namespace IconBridge.Lib

open Function List

variable {P C σ : Type} [DecidableEq P]

/-- `held` is the copy of a party between its read and its write, `left` the
calls that have not returned. `written` lists the calls in the order of their
writes. -/
structure Shared (P C σ : Type) where
  value : σ
  held : P → Option σ := fun _ => none
  left : P → List C
  written : List (P × C) := []

namespace Shared

def callsOf (p : P) (calls : List (P × C)) : List C := (calls.filter (·.1 = p)).map (·.2)

theorem callsOf_snoc (p q : P) (calls : List (P × C)) (call : C) :
    callsOf p (calls ++ [(q, call)]) = callsOf p calls ++ if q = p then [call] else [] := by
  by_cases h : q = p <;> simp [callsOf, h]

/-- The next step of a party: the read of its next call, or the write of the
call it is in. -/
def step (apply : P → C → σ → σ) (s : Shared P C σ) (p : P) : Except Unit (Shared P C σ) :=
  match s.left p, s.held p with
  | [], _ => .error ()
  | _ :: _, none => .ok { s with held := update s.held p (some s.value) }
  | call :: calls, some copy => .ok
    { value := apply p call copy
      held := update s.held p none
      left := update s.left p calls
      written := s.written ++ [(p, call)] }

def Exclusive (s : Shared P C σ) (p : P) : Prop :=
  s.held p ≠ none → ∀ q, q ≠ p → s.held q = none

def serial (apply : P → C → σ → σ) (v : σ) (calls : List (P × C)) : σ :=
  calls.foldl (fun v e => apply e.1 e.2 v) v

omit [DecidableEq P] in
theorem serial_snoc (apply : P → C → σ → σ) (v : σ) (calls : List (P × C)) (p : P) (call : C) :
    serial apply v (calls ++ [(p, call)]) = apply p call (serial apply v calls) := by
  simp [serial]

/-- A party has written the calls that are not left, in its own order. -/
structure Sequential (calls : P → List C) (s : Shared P C σ) : Prop where
  order : ∀ p, calls p = callsOf p s.written ++ s.left p

structure Serialised (apply : P → C → σ → σ) (v : σ) (s : Shared P C σ) : Prop where
  current : ∀ p copy, s.held p = some copy → copy = s.value
  value : s.value = serial apply v s.written

variable {apply : P → C → σ → σ} {s s' : Shared P C σ} {p : P} {v : σ} {calls : P → List C}

theorem step_sequential (h : Sequential calls s) (hs : step apply s p = .ok s') :
    Sequential calls s' := by
  refine ⟨fun q => ?_⟩
  have horder := h.order q
  unfold step at hs
  split at hs
  · cases hs
  · cases hs
    exact horder
  · next call rest copy hleft _ =>
    cases hs
    dsimp only
    rw [callsOf_snoc]
    by_cases hq : p = q
    · subst hq
      rw [if_pos rfl, update_self, append_assoc, singleton_append, ← hleft]
      exact horder
    · rw [if_neg hq, update_of_ne (Ne.symm hq), append_nil]
      exact horder

theorem step_serialised (h : Serialised apply v s) (hx : Exclusive s p)
    (hs : step apply s p = .ok s') : Serialised apply v s' := by
  unfold step at hs
  split at hs
  · cases hs
  · cases hs
    refine ⟨fun q copy hq => ?_, h.value⟩
    dsimp only at hq
    rw [update_apply] at hq
    split at hq
    · exact (Option.some.inj hq).symm
    · exact h.current q copy hq
  · next call rest copy _ hheld =>
    cases hs
    constructor
    · intro q copy' hq
      dsimp only at hq
      rw [update_apply] at hq
      split at hq
      · cases hq
      · next hne =>
        have hnone : s.held q = none := hx (by simp [hheld]) q hne
        rw [hnone] at hq
        cases hq
    · rw [serial_snoc, ← h.value, h.current p copy hheld]

theorem run_sequential (apply : P → C → σ → σ) (v : σ) (calls : P → List C) (schedule : List P) :
    Sequential calls (run (step apply) { value := v, left := calls } schedule) :=
  run_induct (fun _ _ _ h hs => step_sequential h hs) ⟨fun _ => rfl⟩

theorem run_serialised {schedule : List P}
    (hx : Along (step apply) Exclusive { value := v, left := calls } schedule) :
    Serialised apply v (run (step apply) { value := v, left := calls } schedule) :=
  run_along (fun _ _ _ h hc hs => step_serialised h hc hs) ⟨by simp, rfl⟩ hx

end Shared

end IconBridge.Lib
