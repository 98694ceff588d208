import Mathlib.Order.Bounds.Defs
import Mathlib.Order.Lattice
import Mathlib.Logic.Function.Basic

/-
Stores in which a value replaces another only if it is better. Whatever values
are offered, in any order and any number of times, a key ends with the best of
them. Nothing here mentions a particular program.
-/
universe u v

structure Better (V : Type v) where
  rel : V → V → Prop
  decide : DecidableRel rel
  irrefl : ∀ x, ¬ rel x x
  trans : ∀ x y z, rel x y → rel y z → rel x z

namespace Better
variable {K : Type u} {V : Type v} [DecidableEq K]

instance (b : Better V) : DecidableRel b.rel := b.decide

def compareAndSet (b : Better V) (store : K → Option V) (k : K) (x : V) : K → Option V :=
  match store k with
  | some current => if b.rel x current then Function.update store k (some x) else store
  | none => Function.update store k (some x)

def pushAll (b : Better V) (store : K → Option V) (pushes : List (K × V)) : K → Option V :=
  pushes.foldl (fun store e => b.compareAndSet store e.1 e.2) store

/-- The key has a value than which the pushed one is not better. -/
def Covers (b : Better V) (store : K → Option V) (e : K × V) : Prop :=
  ∃ current, store e.1 = some current ∧ ¬ b.rel e.2 current

theorem compareAndSet_none {b : Better V} {store : K → Option V} {k : K} (none : store k = none) (x : V) :
    b.compareAndSet store k x = Function.update store k (some x) := by
  unfold compareAndSet
  rw [none]

theorem compareAndSet_some {b : Better V} {store : K → Option V} {k : K} {current : V} (here : store k = some current)
    (x : V) : b.compareAndSet store k x = if b.rel x current then Function.update store k (some x) else store := by
  unfold compareAndSet
  rw [here]

theorem compareAndSet_of_ne (b : Better V) (store : K → Option V) {k k' : K} (other : k' ≠ k) (x : V) :
    b.compareAndSet store k x k' = store k' := by
  cases here : store k with
  | none =>
    rw [compareAndSet_none here]
    exact Function.update_of_ne other _ _
  | some current =>
    rw [compareAndSet_some here]
    split
    · exact Function.update_of_ne other _ _
    · rfl

theorem compareAndSet_self (b : Better V) (store : K → Option V) (k : K) (x : V) :
    (b.compareAndSet store k x k = some x ∧ ∀ current, store k = some current → b.rel x current) ∨
      ∃ current, b.compareAndSet store k x k = some current ∧ store k = some current ∧ ¬ b.rel x current := by
  cases here : store k with
  | none =>
    rw [compareAndSet_none here, Function.update_self]
    exact .inl ⟨rfl, nofun⟩
  | some current =>
    rw [compareAndSet_some here]
    split
    next better =>
      rw [Function.update_self]
      refine .inl ⟨rfl, ?_⟩
      rintro _ ⟨⟩
      exact better
    next worse => exact .inr ⟨current, here, rfl, worse⟩

theorem compareAndSet_source {b : Better V} {store : K → Option V} {k k' : K} {x y : V}
    (found : b.compareAndSet store k x k' = some y) : store k' = some y ∨ (k', y) = (k, x) := by
  by_cases same : k' = k
  · subst same
    rcases compareAndSet_self b store k' x with ⟨new, _⟩ | ⟨current, kept, here, _⟩
    · rw [new] at found
      cases found
      exact .inr rfl
    · rw [kept] at found
      cases found
      exact .inl here
  · rw [compareAndSet_of_ne b store same] at found
    exact .inl found

theorem covers_compareAndSet (b : Better V) (store : K → Option V) (k : K) (x : V) :
    b.Covers (b.compareAndSet store k x) (k, x) := by
  rcases compareAndSet_self b store k x with ⟨new, _⟩ | ⟨current, kept, _, worse⟩
  · exact ⟨x, new, b.irrefl x⟩
  · exact ⟨current, kept, worse⟩

theorem Covers.compareAndSet {b : Better V} {store : K → Option V} {e : K × V} (covers : b.Covers store e) (k : K) (x : V) :
    b.Covers (b.compareAndSet store k x) e := by
  obtain ⟨current, here, worse⟩ := covers
  by_cases same : e.1 = k
  · subst same
    rcases compareAndSet_self b store e.1 x with ⟨new, better⟩ | ⟨_, kept, still, _⟩
    · exact ⟨x, new, fun more => worse (b.trans _ _ _ more (better current here))⟩
    · exact ⟨current, kept.trans (still.symm.trans here), worse⟩
  · refine ⟨current, ?_, worse⟩
    rw [compareAndSet_of_ne b store same, here]

theorem pushAll_source {b : Better V} {pushes : List (K × V)} {store : K → Option V} {k : K} {y : V}
    (found : b.pushAll store pushes k = some y) : store k = some y ∨ (k, y) ∈ pushes := by
  induction pushes generalizing store with
  | nil => exact .inl found
  | cons e pushes ih =>
    rcases ih found with before | member
    · rcases compareAndSet_source before with earlier | here
      · exact .inl earlier
      · exact .inr (List.mem_cons.mpr (.inl here))
    · exact .inr (List.mem_cons_of_mem e member)

theorem pushAll_of_absent {b : Better V} {pushes : List (K × V)} {store : K → Option V} {k : K}
    (absent : ∀ e ∈ pushes, k ≠ e.1) : b.pushAll store pushes k = store k := by
  induction pushes generalizing store with
  | nil => rfl
  | cons e pushes ih =>
    rw [List.forall_mem_cons] at absent
    exact (ih absent.2).trans (compareAndSet_of_ne b store absent.1 e.2)

theorem Covers.pushAll {b : Better V} {store : K → Option V} {e : K × V} (covers : b.Covers store e)
    (pushes : List (K × V)) : b.Covers (b.pushAll store pushes) e := by
  induction pushes generalizing store with
  | nil => exact covers
  | cons e' pushes ih => exact ih (covers.compareAndSet e'.1 e'.2)

theorem covers_pushAll (b : Better V) (store : K → Option V) (pushes : List (K × V)) :
    ∀ e ∈ pushes, b.Covers (b.pushAll store pushes) e := by
  induction pushes generalizing store with
  | nil => exact nofun
  | cons e pushes ih =>
    rw [List.forall_mem_cons]
    refine ⟨?_, ih (b.compareAndSet store e.1 e.2)⟩
    exact (covers_compareAndSet b store e.1 e.2).pushAll pushes

omit [DecidableEq K] in
theorem Covers.congr {b : Better V} {store store' : K → Option V} {e : K × V} (covers : b.Covers store e)
    (same : store' e.1 = store e.1) : b.Covers store' e := by
  obtain ⟨current, here, worse⟩ := covers
  exact ⟨current, same.trans here, worse⟩

section Orders
variable [LinearOrder V]

def upper : Better V where
  rel x y := y < x
  decide := fun x y => inferInstanceAs (Decidable (y < x))
  irrefl := lt_irrefl
  trans _ _ _ first second := second.trans first

def lower : Better V where
  rel x y := x < y
  decide := fun x y => inferInstanceAs (Decidable (x < y))
  irrefl := lt_irrefl
  trans _ _ _ first second := first.trans second

omit [DecidableEq K] in
theorem isGreatest_of_covers {store : K → Option V} {k : K} {hi : V} {values : Set V} (found : store k = some hi)
    (source : hi ∈ values) (covers : ∀ x ∈ values, upper.Covers store (k, x)) : IsGreatest values hi := by
  refine ⟨source, fun x member => ?_⟩
  obtain ⟨current, here, worse⟩ := covers x member
  rw [found] at here
  cases here
  exact not_lt.mp worse

omit [DecidableEq K] in
theorem isLeast_of_covers {store : K → Option V} {k : K} {lo : V} {values : Set V} (found : store k = some lo)
    (source : lo ∈ values) (covers : ∀ x ∈ values, lower.Covers store (k, x)) : IsLeast values lo := by
  refine ⟨source, fun x member => ?_⟩
  obtain ⟨current, here, worse⟩ := covers x member
  rw [found] at here
  cases here
  exact not_lt.mp worse

end Orders
end Better
