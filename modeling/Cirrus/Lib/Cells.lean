import Cirrus.Lib.Loops
import Mathlib.Algebra.BigOperators.Group.List.Basic

/-
Stores of cells that are read and replaced one by one, and amounts that are
added to them. Where the amounts form a commutative monoid, additions may be
made in any order. Nothing here mentions a particular store.
-/
universe u v w

structure Cells (M : Type u) (C : Type v) (F : Type w) where
  load : M → C → Option F
  store : M → C → F → M
  load_store_self : ∀ {m c y} x, load m c = some y → load (store m c x) c = some x
  load_store_ne : ∀ {m c d} x, c ≠ d → load (store m c x) d = load m d
  store_store : ∀ m c x y, store (store m c x) c y = store m c y
  store_comm : ∀ {m c d} x y, c ≠ d → store (store m c x) d y = store (store m d y) c x

namespace Cells

def ofList (F : Type u) : Cells (List F) Nat F where
  load v i := v[i]?
  store v i x := v.set i x
  load_store_self := by
    intro v i y x found
    rw [List.getElem?_set_self (List.getElem?_eq_some_iff.mp found).1]
  load_store_ne := by
    intro v i j x different
    exact List.getElem?_set_ne different
  store_store v i x y := List.set_set ..
  store_comm := by
    intro v i j x y different
    exact List.set_comm _ _ different

variable {M C F : Type} (cells : Cells M C F)

section Adding
variable [Add F]

/-- A cell that is not there is left alone. -/
def add (m : M) (e : C × F) : M :=
  match cells.load m e.1 with
  | some x => cells.store m e.1 (x + e.2)
  | none => m

def addAll (m : M) (l : List (C × F)) : M := l.foldl cells.add m

theorem add_of_load {m : M} {e : C × F} {x : F} (found : cells.load m e.1 = some x) :
    cells.add m e = cells.store m e.1 (x + e.2) := by
  rw [add, found]

theorem add_of_missing {m : M} {e : C × F} (missing : cells.load m e.1 = none) : cells.add m e = m := by
  rw [add, missing]

theorem load_add_self (m : M) (e : C × F) :
    cells.load (cells.add m e) e.1 = (cells.load m e.1).map (· + e.2) := by
  unfold add
  cases found : cells.load m e.1 with
  | none => simp [found]
  | some x => simp [cells.load_store_self _ found]

theorem load_add_ne {m : M} {e : C × F} {c : C} (different : e.1 ≠ c) :
    cells.load (cells.add m e) c = cells.load m c := by
  unfold add
  split
  · exact cells.load_store_ne _ different
  · rfl

theorem load_addAll_isSome [DecidableEq C] (m : M) (l : List (C × F)) (c : C) :
    (cells.load (cells.addAll m l) c).isSome = (cells.load m c).isSome := by
  induction l generalizing m with
  | nil => rfl
  | cons e l ih =>
    rw [addAll, List.foldl_cons]
    refine (ih _).trans ?_
    by_cases same : e.1 = c
    · subst same
      simp [cells.load_add_self]
    · rw [cells.load_add_ne same]

theorem load_addAll [DecidableEq C] (m : M) (l : List (C × F)) (c : C) :
    cells.load (cells.addAll m l) c = (cells.load m c).map fun x => Loops.sumFor x c l := by
  induction l generalizing m with
  | nil => simp [addAll]
  | cons e l ih =>
    have rest := ih (cells.add m e)
    rw [addAll, List.foldl_cons]
    refine rest.trans ?_
    by_cases same : e.1 = c
    · subst same
      rw [cells.load_add_self, Option.map_map]
      congr 1
      funext x
      simp [Loops.sumFor]
    · rw [cells.load_add_ne same]
      congr 1
      funext x
      simp [Loops.sumFor, same]

theorem addAll_append (m : M) (l l' : List (C × F)) :
    cells.addAll m (l ++ l') = cells.addAll (cells.addAll m l) l' := List.foldl_append

end Adding

section Order
variable [AddCommMonoid F]

theorem add_comm (m : M) (a b : C × F) : cells.add (cells.add m a) b = cells.add (cells.add m b) a := by
  by_cases same : a.1 = b.1
  · cases found : cells.load m a.1 with
    | none =>
      have found' : cells.load m b.1 = none := by rw [← same, found]
      rw [cells.add_of_missing found, cells.add_of_missing found', cells.add_of_missing found]
    | some x =>
      have found' : cells.load m b.1 = some x := by rw [← same, found]
      have first : cells.load (cells.store m a.1 (x + a.2)) b.1 = some (x + a.2) := by
        rw [← same]
        exact cells.load_store_self _ found
      have second : cells.load (cells.store m b.1 (x + b.2)) a.1 = some (x + b.2) := by
        rw [same]
        exact cells.load_store_self _ found'
      rw [cells.add_of_load found, cells.add_of_load found', cells.add_of_load first, cells.add_of_load second, same,
        cells.store_store, cells.store_store, add_right_comm]
  · have one : cells.load (cells.add m a) b.1 = cells.load m b.1 := cells.load_add_ne same
    have two : cells.load (cells.add m b) a.1 = cells.load m a.1 := cells.load_add_ne (Ne.symm same)
    cases found : cells.load m a.1 with
    | none => rw [cells.add_of_missing found, cells.add_of_missing (two.trans found)]
    | some x =>
      cases found' : cells.load m b.1 with
      | none => rw [cells.add_of_missing found', cells.add_of_missing (one.trans found')]
      | some y =>
        rw [cells.add_of_load (one.trans found'), cells.add_of_load (two.trans found), cells.add_of_load found,
          cells.add_of_load found', cells.store_comm _ _ same]

theorem addAll_perm {l l' : List (C × F)} (permuted : l.Perm l') (m : M) : cells.addAll m l = cells.addAll m l' :=
  permuted.foldl_eq' (fun a _ b _ m => cells.add_comm m a b) m

end Order

theorem sumFor_eq_sum {K : Type} [DecidableEq K] [AddCommMonoid F] (start : F) (k : K) (l : List (K × F)) :
    Loops.sumFor start k l = start + ((l.filter fun e => e.1 = k).map Prod.snd).sum := by
  induction l generalizing start with
  | nil => simp
  | cons e l ih =>
    rw [Loops.sumFor, List.foldl_cons]
    refine (ih _).trans ?_
    by_cases same : e.1 = k
    · simp [same, add_assoc]
    · simp [same]

end Cells
