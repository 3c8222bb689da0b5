import Mathlib.Data.Set.Basic

/-!
# Two copies of a set

Changes are made to the first copy at once and asked of the second, which makes
them as a whole or not at all and answers in order. A change that was refused is
undone in the first copy. As long as no change has a key of another one that is
not yet answered and settled, the copies differ in the keys of open changes
only.
-/

namespace IconBridge.Lib

open List

variable {K : Type*}

structure Change (K : Type*) where
  adds : Bool
  keys : List K

def Change.apply (c : Change K) (s : Set K) : Set K :=
  if c.adds then {k | k ∈ s ∨ k ∈ c.keys} else {k | k ∈ s ∧ k ∉ c.keys}

def Change.undo (c : Change K) (s : Set K) : Set K :=
  Change.apply { c with adds := !c.adds } s

theorem Change.mem_apply {c : Change K} (hk : k ∈ c.keys) : k ∈ c.apply s ↔ c.adds := by
  cases h : c.adds <;> simp [apply, h, hk]

theorem Change.mem_apply_of_notMem {c : Change K} (hk : k ∉ c.keys) : k ∈ c.apply s ↔ k ∈ s := by
  cases h : c.adds <;> simp [apply, h, hk]

theorem Change.apply_nil : Change.apply ⟨a, []⟩ s = s := by
  cases a <;> simp [apply]

theorem Change.apply_cons :
    Change.apply ⟨a, k :: ks⟩ s = Change.apply ⟨a, ks⟩ (Change.apply ⟨a, [k]⟩ s) := by
  cases a <;> simp [apply, or_assoc, and_assoc]

theorem Change.mem_undo {c : Change K} (hk : k ∈ c.keys) : k ∈ c.undo s ↔ ¬ c.adds := by
  rw [undo, Change.mem_apply (by exact hk)]
  simp

theorem Change.mem_undo_of_notMem {c : Change K} (hk : k ∉ c.keys) : k ∈ c.undo s ↔ k ∈ s :=
  Change.mem_apply_of_notMem (by exact hk)

/-- The copies, the changes that were asked for, and the answers, oldest first. -/
structure Copies (K : Type*) where
  first : Set K
  second : Set K
  asked : List (Change K)
  answered : List (Change K × Bool)

namespace Copies

def pending (x : Copies K) : List (Change K) := x.answered.map Prod.fst ++ x.asked

inductive Step (x : Copies K) : Copies K → Prop
  | change (c : Change K) (hnew : ∀ o ∈ x.pending, ∀ k ∈ o.keys, k ∉ c.keys)
      (hneeded : ∀ k ∈ c.keys, k ∈ x.first ↔ ¬ c.adds) :
      Step x { x with first := c.apply x.first, asked := x.asked ++ [c] }
  | accept (h : x.asked = c :: rest) :
      Step x { x with
        second := c.apply x.second
        asked := rest
        answered := x.answered ++ [(c, true)] }
  | refuse (h : x.asked = c :: rest) :
      Step x { x with asked := rest, answered := x.answered ++ [(c, false)] }
  | confirm (h : x.answered = (c, true) :: rest) : Step x { x with answered := rest }
  | undo (h : x.answered = (c, false) :: rest) :
      Step x { x with first := c.undo x.first, answered := rest }

structure Agree (x : Copies K) : Prop where
  apart : x.pending.Pairwise fun c c' => ∀ k ∈ c.keys, k ∉ c'.keys
  first : ∀ c ∈ x.pending, ∀ k ∈ c.keys, k ∈ x.first ↔ c.adds
  asked : ∀ c ∈ x.asked, ∀ k ∈ c.keys, k ∈ x.second ↔ ¬ c.adds
  answered : ∀ c ok, (c, ok) ∈ x.answered → ∀ k ∈ c.keys, k ∈ x.second ↔ c.adds = ok
  settled : ∀ k, (∀ c ∈ x.pending, k ∉ c.keys) → (k ∈ x.first ↔ k ∈ x.second)

variable {x y : Copies K}

/-- An open change stays apart from those that are asked for later. -/
theorem Agree.change (hx : Agree x) {c : Change K} (hnew : ∀ o ∈ x.pending, ∀ k ∈ o.keys, k ∉ c.keys)
    (hneeded : ∀ k ∈ c.keys, k ∈ x.first ↔ ¬ c.adds) :
    Agree { x with first := c.apply x.first, asked := x.asked ++ [c] } := by
  have hpending : pending { x with first := c.apply x.first, asked := x.asked ++ [c] } =
      x.pending ++ [c] := (append_assoc ..).symm
  have hfree : ∀ k ∈ c.keys, ∀ o ∈ x.pending, k ∉ o.keys := fun k hk o ho ho' => hnew o ho k ho' hk
  refine ⟨?_, ?_, ?_, hx.answered, ?_⟩
  · rw [hpending, pairwise_append]
    refine ⟨hx.apart, pairwise_singleton .., fun o ho c' hc' => ?_⟩
    obtain rfl := mem_singleton.1 hc'
    exact hnew o ho
  · intro o ho k hk
    rw [hpending, mem_append, mem_singleton] at ho
    rcases ho with ho | rfl
    · exact (Change.mem_apply_of_notMem (hnew o ho k hk)).trans (hx.first o ho k hk)
    · exact Change.mem_apply hk
  · intro o ho k hk
    rcases mem_append.1 ho with ho | ho
    · exact hx.asked o ho k hk
    · obtain rfl := mem_singleton.1 ho
      exact (hx.settled k (hfree k hk)).symm.trans (hneeded k hk)
  · intro k hk
    rw [hpending] at hk
    have hc : k ∉ c.keys := hk c (mem_append_right _ (mem_singleton_self c))
    exact (Change.mem_apply_of_notMem hc).trans
      (hx.settled k fun o ho => hk o (mem_append_left _ ho))

theorem Agree.answer (hx : Agree x) (h : x.asked = c :: rest) {second : Set K}
    (hmade : ∀ k ∈ c.keys, k ∈ second ↔ c.adds = ok)
    (hkept : ∀ k ∉ c.keys, k ∈ second ↔ k ∈ x.second) :
    Agree { x with second, asked := rest, answered := x.answered ++ [(c, ok)] } := by
  have hpending : pending { x with second, asked := rest, answered := x.answered ++ [(c, ok)] } =
      x.pending := by
    simp [pending, h]
  have hapart := hx.apart
  rw [pending, h, pairwise_append, pairwise_cons] at hapart
  obtain ⟨-, ⟨hlater, -⟩, hearlier⟩ := hapart
  refine ⟨hpending ▸ hx.apart, hpending ▸ hx.first, ?_, ?_, ?_⟩
  · intro o ho k hk
    rw [hkept k fun hc => hlater o ho k hc hk]
    exact hx.asked o (h ▸ mem_cons_of_mem c ho) k hk
  · intro o ok' ho k hk
    rcases mem_append.1 ho with ho | ho
    · have hc : k ∉ c.keys :=
        hearlier o (mem_map_of_mem ho) c mem_cons_self k hk
      exact (hkept k hc).trans (hx.answered o ok' ho k hk)
    · cases mem_singleton.1 ho
      exact hmade k hk
  · intro k hk
    rw [hpending] at hk
    have hc : k ∉ c.keys := hk c (by simp [pending, h])
    exact (hx.settled k hk).trans (hkept k hc).symm

theorem Agree.settle (hx : Agree x) (h : x.answered = (c, ok) :: rest) {first : Set K}
    (hmade : ∀ k ∈ c.keys, k ∈ first ↔ c.adds = ok)
    (hkept : ∀ k ∉ c.keys, k ∈ first ↔ k ∈ x.first) :
    Agree { x with first, answered := rest } := by
  have hpending : x.pending = c :: pending { x with first, answered := rest } := by
    simp [pending, h]
  have hapart := hx.apart
  rw [hpending, pairwise_cons] at hapart
  obtain ⟨hlater, hapart⟩ := hapart
  refine ⟨hapart, ?_, hx.asked, ?_, ?_⟩
  · intro o ho k hk
    rw [hkept k fun hc => hlater o ho k hc hk]
    exact hx.first o (hpending ▸ mem_cons_of_mem c ho) k hk
  · exact fun o ok' ho => hx.answered o ok' (h ▸ mem_cons_of_mem _ ho)
  · intro k hk
    by_cases hc : k ∈ c.keys
    · have hanswer := hx.answered c ok (h ▸ mem_cons_self) k hc
      exact (hmade k hc).trans hanswer.symm
    · refine (hkept k hc).trans (hx.settled k fun o ho => ?_)
      rw [hpending, mem_cons] at ho
      rcases ho with rfl | ho
      · exact hc
      · exact hk o ho

theorem Agree.step (hx : Agree x) (h : Step x y) : Agree y := by
  cases h with
  | change c hnew hneeded => exact hx.change hnew hneeded
  | accept h =>
    exact hx.answer h (fun k hk => Change.mem_apply hk) fun k => Change.mem_apply_of_notMem
  | @refuse c rest h =>
    refine hx.answer h (fun k hk => ?_) fun _ _ => Iff.rfl
    have hasked := hx.asked c (h ▸ mem_cons_self) k hk
    simpa using hasked
  | @confirm c rest h =>
    refine hx.settle h (fun k hk => ?_) fun _ _ => Iff.rfl
    exact hx.first c (by simp [pending, h]) k hk
  | @undo c rest h =>
    refine hx.settle h (fun k hk => ?_) fun k => Change.mem_undo_of_notMem
    simpa using Change.mem_undo hk

theorem Agree.eq (hx : Agree x) (hasked : x.asked = []) (hanswered : x.answered = []) :
    x.first = x.second := by
  ext k
  exact hx.settled k (by simp [pending, hasked, hanswered])

end Copies

end IconBridge.Lib
