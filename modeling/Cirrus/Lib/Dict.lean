import Mathlib.Data.List.Basic
import Mathlib.Data.List.Nodup
import Mathlib.Logic.Function.Basic

/-
Dictionaries that keep their entries in the order in which the keys were first
set. No key has two entries. Nothing here mentions a particular program.
-/
universe u v w

structure Dict (K : Type u) (V : Type v) where
  entries : List (K × V)
  nodup : (entries.map Prod.fst).Nodup

namespace Dict
variable {K : Type u} {V : Type v} {K' : Type w}

def empty : Dict K V := ⟨[], List.nodup_nil⟩

def keys (d : Dict K V) : List K := d.entries.map Prod.fst

variable [DecidableEq K]

def get? (d : Dict K V) (k : K) : Option V := (d.entries.find? fun e => e.1 = k).map Prod.snd

def set (d : Dict K V) (k : K) (x : V) : Dict K V :=
  if known : k ∈ d.keys then
    ⟨d.entries.map fun e => if e.1 = k then (k, x) else e, by
      have same : (d.entries.map fun e => if e.1 = k then (k, x) else e).map Prod.fst = d.keys := by
        rw [List.map_map]
        apply List.map_congr_left
        intro e _
        rw [Function.comp_apply]
        split
        next here => exact here.symm
        next => rfl
      rw [same]
      exact d.nodup⟩
  else
    ⟨d.entries ++ [(k, x)], by
      rw [List.map_append]
      exact d.nodup.append (List.nodup_singleton k) (by simpa [keys] using known)⟩

theorem get?_eq_some {d : Dict K V} {k : K} {x : V} : d.get? k = some x ↔ (k, x) ∈ d.entries := by
  unfold get?
  constructor
  · intro found
    obtain ⟨e, first, rfl⟩ := Option.map_eq_some_iff.mp found
    have here : e.1 = k := by simpa using List.find?_some first
    rw [← here]
    exact List.mem_of_find?_eq_some first
  · intro member
    cases first : d.entries.find? fun e => e.1 = k with
    | none =>
      have absent := List.find?_eq_none.mp first (k, x) member
      simp at absent
    | some e =>
      have here : e.1 = k := by simpa using List.find?_some first
      have same : e = (k, x) := List.inj_on_of_nodup_map d.nodup (List.mem_of_find?_eq_some first) member here
      rw [same]
      rfl

theorem mem_keys {d : Dict K V} {k : K} : k ∈ d.keys ↔ ∃ x, d.get? k = some x := by
  unfold keys
  rw [List.mem_map]
  constructor
  · rintro ⟨⟨k', x⟩, member, rfl⟩
    exact ⟨x, get?_eq_some.mpr member⟩
  · rintro ⟨x, found⟩
    exact ⟨(k, x), get?_eq_some.mp found, rfl⟩

theorem get?_of_not_mem {d : Dict K V} {k : K} (absent : k ∉ d.keys) : d.get? k = none := by
  cases found : d.get? k with
  | none => rfl
  | some x => exact (absent (mem_keys.mpr ⟨x, found⟩)).elim

@[simp] theorem get?_empty (k : K) : (empty : Dict K V).get? k = none := rfl

theorem get?_set (d : Dict K V) (k : K) (x : V) : (d.set k x).get? = Function.update d.get? k (some x) := by
  ext k' y
  rw [get?_eq_some]
  unfold set
  by_cases same : k' = k
  · rw [same, Function.update_self]
    split
    next known =>
      obtain ⟨z, found⟩ := mem_keys.mp known
      have here : (k, x) ∈ d.entries.map fun e => if e.1 = k then (k, x) else e :=
        List.mem_map.mpr ⟨(k, z), get?_eq_some.mp found, if_pos rfl⟩
      constructor
      · intro member
        obtain ⟨e, _, equal⟩ := List.mem_map.mp member
        split at equal
        next => exact congrArg some (Prod.mk.inj equal).2
        next other =>
          rw [equal] at other
          exact (other rfl).elim
      · intro equal
        cases equal
        exact here
    next absent =>
      rw [List.mem_append, List.mem_singleton]
      constructor
      · rintro (member | equal)
        · exact (absent (mem_keys.mpr ⟨y, get?_eq_some.mpr member⟩)).elim
        · exact congrArg some (Prod.mk.inj equal).2.symm
      · intro equal
        cases equal
        exact .inr rfl
  · rw [Function.update_of_ne same]
    rw [get?_eq_some]
    split
    next known =>
      rw [List.mem_map]
      constructor
      · rintro ⟨e, member, equal⟩
        split at equal
        next => exact (same (Prod.mk.inj equal).1.symm).elim
        next => exact equal ▸ member
      · intro member
        exact ⟨(k', y), member, if_neg same⟩
    next absent =>
      rw [List.mem_append, List.mem_singleton]
      constructor
      · rintro (member | equal)
        · exact member
        · exact (same (Prod.mk.inj equal).1).elim
      · exact Or.inl

section Keys
variable [DecidableEq K']

def mapKeys (d : Dict K V) (f : K → K') (injective : Function.Injective f) : Dict K' V where
  entries := d.entries.map fun e => (f e.1, e.2)
  nodup := by
    have same : (d.entries.map fun e => (f e.1, e.2)).map Prod.fst = d.keys.map f := by
      rw [keys, List.map_map, List.map_map]
      rfl
    rw [same]
    exact d.nodup.map injective

omit [DecidableEq K] [DecidableEq K'] in
theorem keys_mapKeys (d : Dict K V) (f : K → K') (injective : Function.Injective f) :
    (d.mapKeys f injective).keys = d.keys.map f := by
  unfold keys mapKeys
  rw [List.map_map, List.map_map]
  rfl

theorem get?_mapKeys (d : Dict K V) (f : K → K') (injective : Function.Injective f) (k : K) :
    (d.mapKeys f injective).get? (f k) = d.get? k := by
  ext x
  rw [get?_eq_some, get?_eq_some]
  unfold mapKeys
  rw [List.mem_map]
  constructor
  · rintro ⟨e, member, equal⟩
    obtain ⟨key, value⟩ := Prod.mk.inj equal
    rw [← injective key, ← value]
    exact member
  · exact fun member => ⟨(k, x), member, rfl⟩

end Keys

def ofList (l : List (K × V)) : Dict K V := l.foldl (fun d e => d.set e.1 e.2) empty

theorem get?_foldl_set {l : List (K × V)} (distinct : (l.map Prod.fst).Nodup) (d : Dict K V) (k : K) (x : V) :
    (l.foldl (fun d e => d.set e.1 e.2) d).get? k = some x ↔
      (k, x) ∈ l ∨ (k ∉ l.map Prod.fst ∧ d.get? k = some x) := by
  induction l generalizing d with
  | nil => simp
  | cons e l ih =>
    obtain ⟨absent, distinct⟩ := List.nodup_cons.mp distinct
    rw [List.foldl_cons, ih distinct, get?_set]
    by_cases here : k = e.1
    · have last : k ∉ l.map Prod.fst := here ▸ absent
      have none : (k, x) ∉ l := fun member => last (List.mem_map.mpr ⟨(k, x), member, rfl⟩)
      rw [here, Function.update_self] at *
      simp only [none, false_or, last, not_false_eq_true, true_and, List.mem_cons, List.map_cons, not_true,
        false_and, or_false]
      constructor
      · intro equal
        cases equal
        rfl
      · intro equal
        rw [← equal]
    · rw [Function.update_of_ne here]
      have other : (k, x) ≠ e := fun equal => here (congrArg Prod.fst equal)
      simp only [List.mem_cons, other, false_or, List.map_cons, here]

theorem get?_ofList {l : List (K × V)} (distinct : (l.map Prod.fst).Nodup) (k : K) (x : V) :
    (ofList l).get? k = some x ↔ (k, x) ∈ l := by
  unfold ofList
  rw [get?_foldl_set distinct, get?_empty]
  simp

theorem get?_foldl_combine (g : Option V → V → V) (m d : Dict K V) (k : K) :
    (m.entries.foldl (fun d e => d.set e.1 (g (d.get? e.1) e.2)) d).get? k =
      match m.get? k with
      | some x => some (g (d.get? k) x)
      | none => d.get? k := by
  have run : ∀ (l : List (K × V)) (d : Dict K V), (l.map Prod.fst).Nodup →
      (l.foldl (fun d e => d.set e.1 (g (d.get? e.1) e.2)) d).get? k =
        match (l.find? fun e => e.1 = k).map Prod.snd with
        | some x => some (g (d.get? k) x)
        | none => d.get? k := by
    intro l
    induction l with
    | nil => exact fun _ _ => rfl
    | cons e l ih =>
      intro d distinct
      obtain ⟨absent, distinct⟩ := List.nodup_cons.mp distinct
      rw [List.foldl_cons, ih _ distinct, get?_set]
      by_cases here : e.1 = k
      · have last : (l.find? fun e => e.1 = k) = none := by
          rw [List.find?_eq_none]
          intro e' member same
          exact absent (List.mem_map.mpr ⟨e', member, (of_decide_eq_true same).trans here.symm⟩)
        rw [last, List.find?_cons_of_pos (by simpa using here), ← here, Function.update_self]
        rfl
      · rw [List.find?_cons_of_neg (by simpa using here), Function.update_of_ne fun same => here same.symm]
  exact run m.entries d m.nodup

end Dict
