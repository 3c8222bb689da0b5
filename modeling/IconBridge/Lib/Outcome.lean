import Mathlib.Data.List.Basic

/-!
# Computations that either finish or revert

A call that reverts leaves no trace, so a call is a function into `Except`
and its failure carries no state. The lemmas read a successful `do` block as
the facts it has established.
-/

namespace IconBridge.Lib

open List

theorem bind_ok {x : Except ε α} {f : α → Except ε β} :
    x >>= f = .ok b ↔ ∃ a, x = .ok a ∧ f a = .ok b := by
  cases x <;> simp [bind, Except.bind]

theorem bind_error {x : Except ε α} {f : α → Except ε β} :
    x >>= f = .error e ↔ x = .error e ∨ ∃ a, x = .ok a ∧ f a = .error e := by
  cases x <;> simp [bind, Except.bind]

@[simp] theorem ok_bind {f : α → Except ε β} : (.ok a >>= f : Except ε β) = f a := rfl

theorem pure_ok : (pure a : Except ε α) = .ok b ↔ a = b := by
  simp [pure, Except.pure]

@[simp] theorem throw_ok : (throw e : Except ε α) = .ok b ↔ False := by
  simp [throw, throwThe, MonadExceptOf.throw]

theorem mapError_ok {x : Except ε α} {f : ε → ε'} : x.mapError f = .ok a ↔ x = .ok a := by
  cases x <;> simp [Except.mapError]

theorem toBool_ok {x : Except ε α} : x.toBool = true ↔ ∃ a, x = .ok a := by
  cases x <;> simp [Except.toBool]

def require (c : Bool) (e : ε) : Except ε Unit :=
  if c then .ok () else .error e

@[simp] theorem require_true : require true e = .ok () := rfl
@[simp] theorem require_false : require false e = .error e := rfl

theorem require_ok : require c e = .ok u ↔ c = true := by
  cases c <;> simp

def expect (x : Option α) (e : ε) : Except ε α :=
  match x with
  | some a => .ok a
  | none => .error e

theorem expect_ok {x : Option α} : expect x e = .ok a ↔ x = some a := by
  cases x <;> simp [expect]

theorem toOption_eq_some {x : Except ε α} (h : x.toOption = some a) : x = .ok a := by
  cases x with
  | error e => cases h
  | ok b => cases h; rfl

theorem forM_ok {l : List α} {f : α → Except ε Unit} (h : l.forM f = .ok u) : ∀ a ∈ l, f a = .ok () := by
  induction l with
  | nil => simp
  | cons b l ih =>
    rw [List.forM, bind_ok] at h
    obtain ⟨_, hb, h⟩ := h
    rintro a (_ | ⟨_, ha⟩)
    · exact hb
    · exact ih h a ha

/-- The loop rule: what every round preserves, the loop preserves. -/
theorem foldlM_ok {l : List α} {f : σ → α → Except ε σ} {P : σ → Prop}
    (hstep : ∀ s a s', a ∈ l → P s → f s a = .ok s' → P s')
    (hs : P s) (h : l.foldlM f s = .ok s') : P s' := by
  induction l generalizing s with
  | nil =>
    simp only [foldlM_nil, pure_ok] at h
    exact h ▸ hs
  | cons x xs ih =>
    simp only [foldlM_cons, bind_ok] at h
    obtain ⟨t, ht, h⟩ := h
    exact ih (fun s a s' ha => hstep s a s' (mem_cons_of_mem _ ha))
      (hstep s x t mem_cons_self hs ht) h

theorem foldlM_error {l : List α} {f : σ → α → Except ε σ} (h : l.foldlM f s = .error e) :
    ∃ s a, f s a = .error e := by
  induction l generalizing s with
  | nil => cases h
  | cons a l ih =>
    rw [foldlM_cons, bind_error] at h
    rcases h with h | ⟨t, -, h⟩
    · exact ⟨s, a, h⟩
    · exact ih h

theorem mapM_of_forall₂ {R : α → β → Prop} {f : β → Except ε γ} {g : α → γ}
    (h : List.Forall₂ R as bs) (hf : ∀ a ∈ as, ∀ b, R a b → f b = .ok (g a)) :
    bs.mapM f = .ok (as.map g) := by
  induction h with
  | nil => rfl
  | cons hab _ ih =>
    obtain ⟨ha, has⟩ := forall_mem_cons.1 hf
    rw [mapM_cons, ha _ hab, ih has]
    rfl

theorem mapM_ok_iff {R : α → β → Prop} {f : β → Except ε γ} {p : α → Prop} {g : α → γ}
    (h : List.Forall₂ R as bs)
    (hf : ∀ a ∈ as, ∀ b, R a b → ∀ c, f b = .ok c ↔ p a ∧ c = g a) :
    bs.mapM f = .ok cs ↔ (∀ a ∈ as, p a) ∧ cs = as.map g := by
  induction h generalizing cs with
  | nil =>
    rw [mapM_nil, pure_ok]
    simp [eq_comm]
  | cons hab _ ih =>
    obtain ⟨ha, has⟩ := forall_mem_cons.1 hf
    simp only [mapM_cons, bind_ok, pure_ok, ha _ hab, ih has, forall_mem_cons,
      map_cons]
    constructor
    · rintro ⟨c, ⟨hp, rfl⟩, cs, ⟨hps, rfl⟩, rfl⟩
      exact ⟨⟨hp, hps⟩, rfl⟩
    · rintro ⟨⟨hp, hps⟩, rfl⟩
      exact ⟨_, ⟨hp, rfl⟩, _, ⟨hps, rfl⟩, rfl⟩

theorem forall₂_of_mapM {f : α → Except ε β} (h : as.mapM f = .ok bs) :
    List.Forall₂ (fun a b => f a = .ok b) as bs := by
  induction as generalizing bs with
  | nil =>
    obtain rfl := pure_ok.1 h
    exact .nil
  | cons a as ih =>
    simp only [mapM_cons, bind_ok, pure_ok] at h
    obtain ⟨b, hb, bs, hbs, rfl⟩ := h
    exact .cons hb (ih hbs)

/-- What no round changes, a loop that cannot fail does not change. -/
theorem foldl_keeps {l : List α} {f : σ → α → σ} (g : σ → β) (hstep : ∀ s a, g (f s a) = g s) :
    g (l.foldl f s) = g s := by
  induction l generalizing s with
  | nil => rfl
  | cons x xs ih => exact ih.trans (hstep s x)

section Kept

variable {σ ε α β : Type}

/-- What a computation returns or throws, and the state it leaves. -/
def outcome (x : ExceptT ε (StateM σ) α) (s : σ) : Except ε α × σ := x.run.run s

theorem outcome_bind_ok {x : ExceptT ε (StateM σ) α} {f : α → ExceptT ε (StateM σ) β} :
    outcome (x >>= f) s = (.ok b, s') ↔
      ∃ a t, outcome x s = (.ok a, t) ∧ outcome (f a) t = (.ok b, s') := by
  have hbind : outcome (x >>= f) s =
      match outcome x s with
      | (.ok a, t) => outcome (f a) t
      | (.error e, t) => (.error e, t) := by
    change (match outcome x s with
      | (a, t) => outcome (match a with | .ok a => f a | .error e => throw e) t) = _
    rcases outcome x s with ⟨_ | _, _⟩ <;> rfl
  rw [hbind]
  rcases outcome x s with ⟨_ | _, _⟩ <;> simp

theorem outcome_pure_ok :
    outcome (pure a : ExceptT ε (StateM σ) α) s = (.ok b, s') ↔ a = b ∧ s = s' := by
  change ((.ok a, s) : Except ε α × σ) = _ ↔ _
  simp

@[simp] theorem outcome_throw_ok :
    outcome (throw e : ExceptT ε (StateM σ) α) s = (.ok b, s') ↔ False := by
  change ((.error e, s) : Except ε α × σ) = _ ↔ _
  simp

end Kept

end IconBridge.Lib
