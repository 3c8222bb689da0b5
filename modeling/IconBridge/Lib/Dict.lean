import Mathlib.Algebra.BigOperators.Group.Finset.Basic
import Mathlib.Data.List.Nodup
import Mathlib.Logic.Function.Basic

/-!
# Finite maps that list their keys

A new key is listed last. When a key is removed the last one takes its place,
as in an array that is kept dense.
-/

namespace IconBridge.Lib

open Function List

variable {K V : Type} [DecidableEq K]

def swapErase (keys : List K) (k : K) : List K :=
  match keys.getLast? with
  | none => []
  | some last =>
    if last = k then keys.dropLast else keys.dropLast.map fun x => if x = k then last else x

theorem swapErase_concat (keys : List K) (last k : K) :
    swapErase (keys ++ [last]) k =
      if last = k then keys else keys.map fun x => if x = k then last else x := by
  simp [swapErase]

theorem mem_swapErase {keys : List K} (h : keys.Nodup) (hk : k ∈ keys) :
    x ∈ swapErase keys k ↔ x ≠ k ∧ x ∈ keys := by
  rcases eq_nil_or_concat keys with rfl | ⟨keys, last, rfl⟩
  · simp at hk
  rw [concat_eq_append] at h hk ⊢
  obtain ⟨-, hlast⟩ : keys.Nodup ∧ last ∉ keys := by
    simpa [nodup_append, forall_mem_ne'] using h
  rw [swapErase_concat]
  split
  · next heq => subst heq; grind
  · next hne => simp only [mem_map]; grind

theorem nodup_swapErase {keys : List K} (h : keys.Nodup) : (swapErase keys k).Nodup := by
  rcases eq_nil_or_concat keys with rfl | ⟨keys, last, rfl⟩
  · exact nodup_nil
  rw [concat_eq_append] at h ⊢
  obtain ⟨hkeys, hlast⟩ : keys.Nodup ∧ last ∉ keys := by
    simpa [nodup_append, forall_mem_ne'] using h
  rw [swapErase_concat]
  split
  · exact hkeys
  · refine hkeys.map_on fun x hx y hy hxy => ?_
    grind

omit [DecidableEq K] in
theorem perm_of_last_moved (front : List K) (k : K) (rest : List K) (d : K) :
    (((front ++ k :: rest).set front.length ((front ++ k :: rest).getLastD d)).dropLast).Perm
      (front ++ rest) := by
  rcases eq_nil_or_concat rest with rfl | ⟨mid, last, rfl⟩
  · simp
  · have hset : (front ++ k :: mid.concat last).set front.length last =
        (front ++ last :: mid) ++ [last] := by
      simp
    have hlast : (front ++ k :: mid.concat last).getLastD d = last := by
      rw [concat_eq_append, ← cons_append, ← append_assoc, getLastD_concat]
    rw [hlast, hset, dropLast_concat, concat_eq_append]
    exact (perm_append_singleton last mid).symm.append_left front

structure Dict (K V : Type) where
  keys : List K
  val : K → Option V
  nodup : keys.Nodup
  mem_keys : ∀ k, k ∈ keys ↔ (val k).isSome

def Dict.empty : Dict K V where
  keys := []
  val _ := none
  nodup := nodup_nil
  mem_keys _ := by simp

def Dict.put (d : Dict K V) (k : K) (v : V) : Dict K V where
  keys := if (d.val k).isSome then d.keys else d.keys ++ [k]
  val := update d.val k (some v)
  nodup := by
    split
    · exact d.nodup
    · next h =>
      rw [← d.mem_keys] at h
      simpa using d.nodup.concat h
  mem_keys x := by
    have hx := d.mem_keys x
    rcases eq_or_ne x k with rfl | hne
    · split <;> simp_all
    · split <;> simp_all

def Dict.remove (d : Dict K V) (k : K) : Dict K V where
  keys := if (d.val k).isSome then swapErase d.keys k else d.keys
  val := update d.val k none
  nodup := by
    split
    · exact nodup_swapErase d.nodup
    · exact d.nodup
  mem_keys x := by
    have hx := d.mem_keys x
    have hk := d.mem_keys k
    split
    · next h =>
      rw [mem_swapErase d.nodup (hk.2 h)]
      rcases eq_or_ne x k with rfl | hne
      · simp_all
      · simp_all
    · next h =>
      rcases eq_or_ne x k with rfl | hne
      · simp_all
      · simp_all

variable {d : Dict K V}

@[simp] theorem Dict.val_put_self : (d.put k v).val k = some v := by
  simp [Dict.put]

theorem Dict.val_put : (d.put k v).val x = if x = k then some v else d.val x := by
  simp [Dict.put, update_apply]

theorem Dict.val_remove : (d.remove k).val x = if x = k then none else d.val x := by
  simp [Dict.remove, update_apply]

section
variable {M : Type*} [AddCommMonoid M] {f : V → M}

def Dict.sum (f : V → M) (d : Dict K V) : M := (d.keys.map fun k => (d.val k).elim 0 f).sum

theorem Dict.sum_eq {S : Finset K} (hS : d.keys.toFinset ⊆ S) :
    d.sum f = ∑ k ∈ S, (d.val k).elim 0 f := by
  rw [Dict.sum, ← sum_toFinset _ d.nodup]
  refine Finset.sum_subset hS fun k _ hk => ?_
  rw [mem_toFinset, d.mem_keys, Option.not_isSome_iff_eq_none] at hk
  rw [hk, Option.elim_none]

theorem Dict.sum_update {d' : Dict K V} (h : d'.val = update d.val k o) :
    d'.sum f + (d.val k).elim 0 f = d.sum f + o.elim 0 f := by
  have hd : d.keys.toFinset ⊆ insert k (d.keys.toFinset ∪ d'.keys.toFinset) := by
    intro x hx
    simp only [Finset.mem_insert, Finset.mem_union]
    exact .inr (.inl hx)
  have hd' : d'.keys.toFinset ⊆ insert k (d.keys.toFinset ∪ d'.keys.toFinset) := by
    intro x hx
    simp only [Finset.mem_insert, Finset.mem_union]
    exact .inr (.inr hx)
  rw [Dict.sum_eq hd, Dict.sum_eq hd', h, ← Finset.add_sum_erase _ _ (Finset.mem_insert_self k _),
    ← Finset.add_sum_erase _ (fun x => (d.val x).elim 0 f) (Finset.mem_insert_self k _),
    update_self]
  have hrest : ∀ S : Finset K, ∑ x ∈ S.erase k, (update d.val k o x).elim 0 f =
      ∑ x ∈ S.erase k, (d.val x).elim 0 f := fun S =>
    Finset.sum_congr rfl fun x hx => by rw [update_of_ne (Finset.ne_of_mem_erase hx)]
  rw [hrest, add_right_comm, add_comm (o.elim 0 f), add_right_comm]

theorem Dict.sum_put : (d.put k v).sum f + (d.val k).elim 0 f = d.sum f + f v :=
  Dict.sum_update (o := some v) rfl

theorem Dict.sum_remove : (d.remove k).sum f + (d.val k).elim 0 f = d.sum f := by
  rw [Dict.sum_update rfl, Option.elim_none, add_zero]

end

end IconBridge.Lib
