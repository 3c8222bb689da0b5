import Mathlib.Order.Lattice
import Mathlib.Data.List.Range
import Mathlib.Data.Int.Notation
import IconBridge.Lib.Outcome

/-!
# Receiving numbered events in order

A relay hands over batches of numbered events. Batches below the height that
was reached are skipped, and so are events whose number was reached; a number
beyond the next one is an error. What is left is the next stretch of numbers,
whatever was handed over.
-/

namespace IconBridge.Lib

open List

variable {σ E ε H : Type}

structure Batch (E H : Type) where
  height : H
  events : List E

/-- How a receiver checks, numbers and processes events. -/
structure Inbox (σ E ε : Type) where
  check : E → Except ε Unit
  seq : E → ℤ
  gap : ε
  process : σ → E → Except ε σ

def Inbox.event (b : Inbox σ E ε) (x : σ × ℕ) (e : E) : Except ε (σ × ℕ) := do
  b.check e
  if b.seq e < x.2 + 1 then return x
  else if b.seq e > x.2 + 1 then throw b.gap
  else
    let s ← b.process x.1 e
    return (s, x.2 + 1)

def Inbox.batch [LT H] [DecidableLT H] (b : Inbox σ E ε) (x : σ × ℕ × H) (r : Batch E H) :
    Except ε (σ × ℕ × H) :=
  if r.height < x.2.2 then return x
  else do
    let (s, n) ← r.events.foldlM b.event (x.1, x.2.1)
    return (s, n, r.height)

def Inbox.receive [LT H] [DecidableLT H] (b : Inbox σ E ε) (x : σ × ℕ × H)
    (rs : List (Batch E H)) : Except ε (σ × ℕ × H) :=
  rs.foldlM b.batch x

def Inbox.Stretch (b : Inbox σ E ε) : ℕ → List E → Prop
  | _, [] => True
  | n, e :: es => b.seq e = n + 1 ∧ b.Stretch (n + 1) es

variable {b : Inbox σ E ε}

theorem Inbox.Stretch.append (h : b.Stretch n es) (h' : b.Stretch (n + es.length) fs) :
    b.Stretch n (es ++ fs) := by
  induction es generalizing n with
  | nil => simpa using h'
  | cons e es ih =>
    obtain ⟨he, h⟩ := h
    refine ⟨he, ih h ?_⟩
    rw [length_cons] at h'
    rwa [show n + 1 + es.length = n + (es.length + 1) by omega]

theorem Inbox.Stretch.map_seq {es : List E} (f : ℤ → α) (h : b.Stretch n es) :
    es.map (fun e => f (b.seq e)) = (List.range' (n + 1) es.length).map fun k : ℕ => f k := by
  induction es generalizing n with
  | nil => rfl
  | cons e es ih =>
    obtain ⟨he, h⟩ := h
    rw [map_cons, ih h, length_cons, range'_succ, he]
    rfl

def Inbox.Processed (b : Inbox σ E ε) (x y : σ × ℕ) : Prop :=
  ∃ es : List E, b.Stretch x.2 es ∧ (∀ e ∈ es, b.check e = .ok ()) ∧
    es.foldlM b.process x.1 = .ok y.1 ∧ y.2 = x.2 + es.length

theorem Inbox.Processed.refl : b.Processed x x :=
  ⟨[], trivial, nofun, rfl, rfl⟩

theorem Inbox.Processed.trans (h1 : b.Processed x y) (h2 : b.Processed y z) : b.Processed x z := by
  obtain ⟨es, hes, hce, hfe, hne⟩ := h1
  obtain ⟨fs, hfs, hcf, hff, hnf⟩ := h2
  refine ⟨es ++ fs, hes.append (hne ▸ hfs), ?_, ?_, ?_⟩
  · intro e he
    rcases mem_append.1 he with he | he
    · exact hce e he
    · exact hcf e he
  · rw [foldlM_append, hfe]
    exact hff
  · rw [hnf, hne, length_append, Nat.add_assoc]

theorem Inbox.event_ok (h : b.event x e = .ok y) : b.Processed x y := by
  simp only [Inbox.event, bind_ok] at h
  obtain ⟨_, hcheck, h⟩ := h
  split at h
  · rw [← pure_ok.1 h]
    exact .refl
  · split at h
    · simp at h
    · next h1 h2 =>
      simp only [bind_ok, pure_ok] at h
      obtain ⟨s, hs, rfl⟩ := h
      have hseq : b.seq e = x.2 + 1 := by omega
      refine ⟨[e], ⟨hseq, trivial⟩, ?_, ?_, rfl⟩
      · simpa using hcheck
      · simp only [foldlM_cons, hs, ok_bind, foldlM_nil]
        rfl

/-- What is received is a stretch of consecutive events, and the height does
not fall. -/
theorem Inbox.receive_ok [LinearOrder H] {x y : σ × ℕ × H} {rs : List (Batch E H)}
    (h : b.receive x rs = .ok y) :
    b.Processed (x.1, x.2.1) (y.1, y.2.1) ∧ x.2.2 ≤ y.2.2 := by
  refine foldlM_ok (P := fun z => b.Processed (x.1, x.2.1) (z.1, z.2.1) ∧ x.2.2 ≤ z.2.2)
    (fun z r z' _ hz hr => ?_) ⟨.refl, le_rfl⟩ h
  unfold Inbox.batch at hr
  split at hr
  · rw [← pure_ok.1 hr]
    exact hz
  · next hlow =>
    simp only [bind_ok, pure_ok, Prod.exists] at hr
    obtain ⟨s, n, hevents, rfl⟩ := hr
    refine ⟨hz.1.trans ?_, hz.2.trans (not_lt.1 hlow)⟩
    exact foldlM_ok (P := b.Processed (z.1, z.2.1)) (fun _ _ _ _ hp he => hp.trans (event_ok he))
      .refl hevents

theorem Inbox.receive_next [LT H] [DecidableLT H] {x : σ × ℕ × H} {h : H}
    (hseq : b.seq e = x.2.1 + 1) (hok : b.receive x [⟨h, [e]⟩] = .ok y) :
    y = x ∨ ∃ s, b.process x.1 e = .ok s ∧ y = (s, x.2.1 + 1, h) := by
  simp only [Inbox.receive, foldlM_cons, foldlM_nil, bind_ok, pure_ok] at hok
  obtain ⟨z, hbatch, rfl⟩ := hok
  unfold Inbox.batch at hbatch
  split at hbatch
  · exact .inl (pure_ok.1 hbatch).symm
  · simp only [foldlM_cons, foldlM_nil, bind_ok, pure_ok, Prod.exists] at hbatch
    obtain ⟨s, n, ⟨s', n', hevent, heq⟩, rfl⟩ := hbatch
    simp only [Inbox.event, bind_ok] at hevent
    obtain ⟨_, -, hevent⟩ := hevent
    rw [if_neg (by omega), if_neg (by omega)] at hevent
    simp only [bind_ok, pure_ok] at hevent
    obtain ⟨t, ht, hnext⟩ := hevent
    cases hnext
    cases heq
    exact .inr ⟨_, ht, rfl⟩

def Inbox.count (b : Inbox σ E ε) (n : ℕ) (e : E) : ℕ := if b.seq e = n + 1 then n + 1 else n

def Inbox.Follows (b : Inbox σ E ε) : ℕ → List E → Prop
  | _, [] => True
  | n, e :: es => b.check e = .ok () ∧ b.seq e ≤ n + 1 ∧ b.Follows (b.count n e) es

/-- The same for the events of the batches that are not skipped. -/
def Inbox.Continues [LT H] [DecidableLT H] (b : Inbox σ E ε) : ℕ → H → List (Batch E H) → Prop
  | _, _, [] => True
  | n, h, r :: rs =>
    if r.height < h then b.Continues n h rs
    else b.Follows n r.events ∧ b.Continues (r.events.foldl b.count n) r.height rs

/-- Every event that is processed meets a condition in the state in which it
is processed. -/
def Inbox.EventsMeet (b : Inbox σ E ε) (A : σ → E → Prop) : σ × ℕ → List E → Prop
  | _, [] => True
  | x, e :: es => (b.seq e = x.2 + 1 → A x.1 e) ∧ ∀ y, b.event x e = .ok y → b.EventsMeet A y es

def Inbox.Meets [LT H] [DecidableLT H] (b : Inbox σ E ε) (A : σ → E → Prop) :
    σ × ℕ × H → List (Batch E H) → Prop
  | _, [] => True
  | x, r :: rs => (¬ r.height < x.2.2 → b.EventsMeet A (x.1, x.2.1) r.events) ∧
      ∀ y, b.batch x r = .ok y → b.Meets A y rs

theorem Inbox.event_of_le (hcheck : b.check e = .ok ()) (hseq : b.seq e ≤ x.2 + 1) :
    b.event x e = if b.seq e = x.2 + 1 then (b.process x.1 e).map (·, x.2 + 1) else .ok x := by
  simp only [Inbox.event, hcheck, ok_bind]
  by_cases h : b.seq e = x.2 + 1
  · rw [if_neg (by omega), if_neg (by omega), if_pos h]
    cases b.process x.1 e <;> rfl
  · rw [if_pos (by omega), if_neg h]
    rfl

section
variable {I : σ → Prop} {A : σ → E → Prop}
  (hproc : ∀ s e, I s → A s e → ∃ s', b.process s e = .ok s' ∧ I s')
include hproc

theorem Inbox.events_succeed {es : List E} (hI : I s) (hf : b.Follows n es)
    (hA : b.EventsMeet A (s, n) es) :
    ∃ s', es.foldlM b.event (s, n) = .ok (s', es.foldl b.count n) ∧ I s' := by
  induction es generalizing s n with
  | nil => exact ⟨s, rfl, hI⟩
  | cons e es ih =>
    obtain ⟨hcheck, hseq, hf⟩ := hf
    obtain ⟨hAe, hA⟩ := hA
    have hevent : ∃ t, b.event (s, n) e = .ok (t, b.count n e) ∧ I t := by
      rw [Inbox.event_of_le hcheck hseq, Inbox.count]
      split
      · next h =>
        obtain ⟨t, ht, hIt⟩ := hproc s e hI (hAe h)
        exact ⟨t, by rw [ht]; rfl, hIt⟩
      · exact ⟨s, rfl, hI⟩
    obtain ⟨t, ht, hIt⟩ := hevent
    rw [foldlM_cons, ht]
    exact ih hIt hf (hA _ ht)

/-- A relay message that leaves no number out is received when all its events
can be processed. -/
theorem Inbox.receive_succeeds [LinearOrder H] {rs : List (Batch E H)} {h : H} (hI : I s)
    (hc : b.Continues n h rs) (hA : b.Meets A (s, n, h) rs) :
    ∃ y, b.receive (s, n, h) rs = .ok y ∧ I y.1 := by
  induction rs generalizing s n h with
  | nil => exact ⟨_, rfl, hI⟩
  | cons r rs ih =>
    obtain ⟨hAe, hA⟩ := hA
    rw [Inbox.receive, foldlM_cons]
    rw [Inbox.Continues] at hc
    by_cases hlow : r.height < h
    · have hbatch : b.batch (s, n, h) r = .ok (s, n, h) := by
        rw [Inbox.batch, if_pos hlow]
        rfl
      rw [hbatch]
      exact ih hI (by rwa [if_pos hlow] at hc) (hA _ hbatch)
    · rw [if_neg hlow] at hc
      obtain ⟨t, ht, hIt⟩ := Inbox.events_succeed hproc hI hc.1 (hAe hlow)
      have hbatch : b.batch (s, n, h) r = .ok (t, r.events.foldl b.count n, r.height) := by
        rw [Inbox.batch, if_neg hlow, ht]
        rfl
      rw [hbatch]
      exact ih hIt hc.2 (hA _ hbatch)

end

end IconBridge.Lib
