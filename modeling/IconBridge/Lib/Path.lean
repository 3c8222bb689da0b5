import Mathlib.Data.List.Basic

/-!
# Links one after another

A path leads from one state to another over a list of labels. It is extended at
its end, as a program does that follows a chain of headers.
-/

namespace IconBridge.Lib

variable {σ α β : Type*} {link : σ → α → σ → Prop}

inductive Path (link : σ → α → σ → Prop) (s : σ) : List α → σ → Prop
  | nil : Path link s [] s
  | snoc (h : Path link s as t) (hlink : link t a u) : Path link s (as ++ [a]) u

theorem Path.append (h : Path link s as t) (h' : Path link t bs u) : Path link s (as ++ bs) u := by
  induction h' with
  | nil => rwa [List.append_nil]
  | snoc _ hlink ih =>
    rw [← List.append_assoc]
    exact ih.snoc hlink

theorem Path.split (h : Path link s as u) (ha : as = before ++ a :: after) :
    ∃ t t', Path link s before t ∧ link t a t' ∧ Path link t' after u := by
  induction h generalizing after with
  | nil => simp at ha
  | @snoc as t b u h hlink ih =>
    rcases List.eq_nil_or_concat after with rfl | ⟨after, b', rfl⟩
    · obtain ⟨rfl, hb⟩ := List.append_inj' ha rfl
      cases hb
      exact ⟨t, u, h, hlink, .nil⟩
    · rw [List.concat_eq_append, ← List.cons_append, ← List.append_assoc] at ha
      obtain ⟨has, hb⟩ := List.append_inj' ha rfl
      cases hb
      obtain ⟨t₁, t₂, h₁, h₂, h₃⟩ := ih has
      exact ⟨t₁, t₂, h₁, h₂, by rw [List.concat_eq_append]; exact h₃.snoc hlink⟩

theorem Path.eq_of_nil (h : Path link s [] t) : t = s := by
  generalize has : ([] : List α) = as at h
  cases h with
  | nil => rfl
  | snoc => simp at has

theorem Path.uncons (h : Path link s (a :: as) u) : ∃ t, link s a t ∧ Path link t as u := by
  obtain ⟨t, t', hnil, hlink, hrest⟩ := h.split (List.nil_append _).symm
  obtain rfl := hnil.eq_of_nil
  exact ⟨t', hlink, hrest⟩

theorem Path.map {link' : σ → β → σ → Prop} {f : α → β} (h : Path link s as t)
    (hlink : ∀ s a t, link s a t → link' s (f a) t) : Path link' s (as.map f) t := by
  induction h with
  | nil => exact .nil
  | snoc _ h ih =>
    rw [List.map_append]
    exact ih.snoc (hlink _ _ _ h)

theorem Path.induct {P : σ → Prop} (h : Path link s as t) (hs : P s)
    (hlink : ∀ s a t, P s → link s a t → P t) : P t := by
  induction h with
  | nil => exact hs
  | snoc _ h ih => exact hlink _ _ _ ih h

variable {H : Type*} {follows : H → α → Prop} {hash : α → H} {head : σ → H}

/-- Every block follows the hash of the one before it, and the first one the hash that is
trusted. -/
def Chained (follows : H → α → Prop) (hash : α → H) : H → List α → Prop
  | _, [] => True
  | trusted, a :: as => follows trusted a ∧ Chained follows hash (hash a) as

def Linked (parent hash : α → H) : H → List α → Prop :=
  Chained (fun trusted a => parent a = trusted) hash

theorem Path.chained_append (h : Path link s as t)
    (hlink : ∀ s a t, link s a t → follows (head s) a ∧ head t = hash a)
    (hbs : Chained follows hash (head t) bs) : Chained follows hash (head s) (as ++ bs) := by
  induction h generalizing bs with
  | nil => exact hbs
  | snoc _ h ih =>
    rw [List.append_assoc]
    obtain ⟨hfollows, hhash⟩ := hlink _ _ _ h
    exact ih ⟨hfollows, hhash ▸ hbs⟩

/-- A path over blocks is a chain, if its states tell the hash of the last block. -/
theorem Path.chained (h : Path link s as t)
    (hlink : ∀ s a t, link s a t → follows (head s) a ∧ head t = hash a) :
    Chained follows hash (head s) as := by
  have hchained : Chained follows hash (head s) (as ++ []) := h.chained_append hlink trivial
  rwa [List.append_nil] at hchained

end IconBridge.Lib
