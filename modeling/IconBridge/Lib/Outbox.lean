import Mathlib.Data.List.Basic

/-!
# One end of a link

A party numbers the messages that it sends over a link, from one on, and counts
those that it has received.
-/

namespace IconBridge.Lib

open List

variable {R A M : Type*}

/-- `routing` is whatever decides where messages go. -/
structure Outbox (R A M : Type*) where
  routing : R
  rx : ℕ
  tx : ℕ
  sent : List (A × ℕ × M)

def number (a : A) : ℕ → List M → List (A × ℕ × M)
  | _, [] => []
  | n, m :: ms => (a, n + 1, m) :: number a (n + 1) ms

theorem number_append {a : A} {ms ms' : List M} :
    number a n (ms ++ ms') = number a n ms ++ number a (n + ms.length) ms' := by
  induction ms generalizing n with
  | nil => rfl
  | cons m ms ih =>
    rw [cons_append, number, ih, number, cons_append, length_cons,
      Nat.add_right_comm n 1, Nat.add_assoc]

theorem number_getElem? {a : A} {ms : List M} :
    (number a n ms)[i]? = ms[i]?.map fun m => (a, n + i + 1, m) := by
  induction ms generalizing n i with
  | nil => simp [number]
  | cons m ms ih =>
    cases i with
    | zero => rfl
    | succ i =>
      rw [number, getElem?_cons_succ, ih, getElem?_cons_succ, Nat.add_right_comm n 1,
        Nat.add_assoc n i 1]

theorem map_number {a : A} {ms : List M} : (number a n ms).map (fun x => x.2.2) = ms := by
  induction ms generalizing n with
  | nil => rfl
  | cons m ms ih => rw [number, map_cons, ih]

theorem mem_number {a : A} {ms : List M} (h : x ∈ number a n ms) : x.1 = a := by
  induction ms generalizing n with
  | nil => simp [number] at h
  | cons m ms ih =>
    rcases mem_cons.1 h with rfl | h
    · rfl
    · exact ih h

namespace Outbox

structure Posts (a : A) (out : List M) (o o' : Outbox R A M) : Prop where
  routing : o'.routing = o.routing
  rx : o'.rx = o.rx
  tx : o'.tx = o.tx + out.length
  sent : o'.sent = o.sent ++ number a o.tx out

variable {a : A} {o o' o'' : Outbox R A M}

theorem Posts.refl : Posts a [] o o := ⟨rfl, rfl, rfl, (append_nil _).symm⟩

theorem Posts.trans (h1 : Posts a out1 o o') (h2 : Posts a out2 o' o'') :
    Posts a (out1 ++ out2) o o'' where
  routing := h2.routing.trans h1.routing
  rx := h2.rx.trans h1.rx
  tx := by rw [h2.tx, h1.tx, length_append, Nat.add_assoc]
  sent := by rw [h2.sent, h1.sent, append_assoc, number_append, h1.tx]

def contents (o : Outbox R A M) : List M := o.sent.map fun x => x.2.2

theorem Posts.contents (h : Posts a out o o') : o'.contents = o.contents ++ out := by
  rw [Outbox.contents, h.sent, map_append, map_number, Outbox.contents]

structure Numbered (a : A) (o : Outbox R A M) : Prop where
  sent : o.sent = number a 0 o.contents
  tx : o.tx = o.contents.length

theorem Numbered.posts (hn : Numbered a o) (h : Posts a out o o') : Numbered a o' where
  sent := by rw [h.contents, number_append, ← hn.sent, Nat.zero_add, ← hn.tx, h.sent]
  tx := by rw [h.contents, h.tx, hn.tx, length_append]

theorem Numbered.next (hn : Numbered a o) (h : o.sent[i]? = some x) :
    x.2.1 = i + 1 ∧ o.contents.drop i = x.2.2 :: o.contents.drop (i + 1) := by
  rw [hn.sent, number_getElem?, Option.map_eq_some_iff] at h
  obtain ⟨m, hm, rfl⟩ := h
  refine ⟨by rw [Nat.zero_add], ?_⟩
  obtain ⟨hi, rfl⟩ := List.getElem?_eq_some_iff.1 hm
  exact drop_eq_getElem_cons hi

theorem Numbered.address (hn : Numbered a o) (h : x ∈ o.sent) : x.1 = a := by
  rw [hn.sent] at h
  exact mem_number h

end Outbox

end IconBridge.Lib
