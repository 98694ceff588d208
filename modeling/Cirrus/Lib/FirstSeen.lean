import Mathlib.Data.Finset.Card
import Mathlib.Data.List.Basic
import Mathlib.Logic.Function.Basic

/-
Keys that are numbered from zero on in the order in which they are first seen.
Nothing here mentions a particular program.
-/

/-- The keys in the order of their numbers. -/
structure FirstSeen (K : Type) where
  order : List K
  nodup : order.Nodup

namespace FirstSeen
variable {K : Type} [DecidableEq K]

def empty : FirstSeen K := ⟨[], List.nodup_nil⟩

def number (n : FirstSeen K) (k : K) : Option Nat :=
  if k ∈ n.order then some (n.order.idxOf k) else none

def see (n : FirstSeen K) (k : K) : FirstSeen K :=
  if new : k ∈ n.order then n
  else ⟨n.order ++ [k], n.nodup.append (List.nodup_singleton k) (by simpa using new)⟩

theorem number_eq_some {n : FirstSeen K} {k : K} {i : Nat} : n.number k = some i ↔ n.order[i]? = some k := by
  unfold number
  constructor
  · intro found
    split at found
    next member =>
      cases found
      rw [List.getElem?_eq_getElem (List.idxOf_lt_length_of_mem member), List.getElem_idxOf]
    next => cases found
  · intro found
    obtain ⟨inside, rfl⟩ := List.getElem?_eq_some_iff.mp found
    rw [if_pos (List.getElem_mem inside), n.nodup.idxOf_getElem]

theorem number_isSome {n : FirstSeen K} {k : K} : (n.number k).isSome ↔ k ∈ n.order := by
  unfold number
  split
  next member => simp [member]
  next absent => simp [absent]

theorem number_lt {n : FirstSeen K} {k : K} {i : Nat} (found : n.number k = some i) : i < n.order.length :=
  (List.getElem?_eq_some_iff.mp (number_eq_some.mp found)).1

theorem number_injective {n : FirstSeen K} {k k' : K} {i : Nat} (first : n.number k = some i)
    (second : n.number k' = some i) : k = k' := by
  rw [number_eq_some] at first second
  rw [first] at second
  exact Option.some.inj second

theorem number_onto {n : FirstSeen K} {i : Nat} (inside : i < n.order.length) : ∃ k, n.number k = some i :=
  ⟨n.order[i], number_eq_some.mpr (List.getElem?_eq_getElem inside)⟩

theorem see_old {n : FirstSeen K} {k : K} (old : k ∈ n.order) : n.see k = n := dif_pos old

theorem see_new {n : FirstSeen K} {k : K} (new : k ∉ n.order) : (n.see k).order = n.order ++ [k] := by
  unfold see
  rw [dif_neg new]

theorem mem_see {n : FirstSeen K} {k k' : K} : k' ∈ (n.see k).order ↔ k' ∈ n.order ∨ k' = k := by
  by_cases old : k ∈ n.order
  · rw [see_old old]
    exact ⟨Or.inl, fun either => either.elim id fun same => same ▸ old⟩
  · rw [see_new old, List.mem_append, List.mem_singleton]

theorem number_see_new {n : FirstSeen K} {k : K} (new : k ∉ n.order) :
    (n.see k).number = Function.update n.number k (some n.order.length) := by
  ext k' i
  rw [number_eq_some, see_new new]
  by_cases same : k' = k
  · rw [same, Function.update_self, List.getElem?_append]
    split
    next inside =>
      have absent : n.order[i]? ≠ some k := fun found => new (List.mem_of_getElem? found)
      have other : n.order.length ≠ i := by omega
      simpa [absent] using other
    next outside =>
      rw [List.getElem?_singleton]
      split
      next => simp; omega
      next => simp; omega
  · rw [Function.update_of_ne same, number_eq_some, List.getElem?_append]
    split
    next inside => rfl
    next outside =>
      rw [List.getElem?_singleton, List.getElem?_eq_none (by omega)]
      have different : k ≠ k' := fun equal => same equal.symm
      split
      next => simp [different]
      next => simp

theorem length_see {n : FirstSeen K} {k : K} {i : Nat} (found : (n.see k).number k = some i) :
    n.order.length ≤ (n.see k).order.length ∧ (n.see k).order.length ≤ max n.order.length (i + 1) := by
  by_cases old : k ∈ n.order
  · rw [see_old old]
    omega
  · rw [number_see_new old, Function.update_self] at found
    cases found
    rw [see_new old]
    simp

theorem order_length {n : FirstSeen K} {keys : Finset K} (all : ∀ k, k ∈ n.order ↔ k ∈ keys) :
    n.order.length = keys.card := by
  have same : n.order.toFinset = keys := by
    ext k
    rw [List.mem_toFinset, all]
  rw [← same, List.toFinset_card_of_nodup n.nodup]

theorem order_length_le {n : FirstSeen K} {keys : Finset K} (known : ∀ k ∈ n.order, k ∈ keys) :
    n.order.length ≤ keys.card := by
  rw [← List.toFinset_card_of_nodup n.nodup]
  exact Finset.card_le_card fun k member => known k (List.mem_toFinset.mp member)

end FirstSeen
