import Mathlib.Data.List.AList
import Mathlib.Logic.Function.Basic

/- Loops that stop at the first error, and sums that a loop collects under keys: in the cells of a
   list, or in a map. -/
namespace Loops
universe u v
variable {ε : Type u} {σ τ α : Type v}

theorem bind_of_ok {r : Except ε α} {a : α} (ok : r = .ok a) (f : α → Except ε τ) : (r >>= f) = f a := by
  rw [ok]
  rfl

theorem bind_of_error {r : Except ε α} {fault : ε} (failed : r = .error fault) (f : α → Except ε τ) :
    (r >>= f) = .error fault := by
  rw [failed]
  rfl

theorem ok_of_bind {r : Except ε α} {f : α → Except ε τ} {b : τ} (done : (r >>= f) = .ok b) :
    ∃ a, r = .ok a ∧ f a = .ok b := by
  cases r with
  | ok a => exact ⟨a, rfl, done⟩
  | error fault => cases done

theorem bind_pure_eq_map (r : Except ε σ) (f : σ → τ) : (r >>= fun a => pure (f a)) = r.map f := by
  cases r with
  | ok a => rfl
  | error fault => rfl

theorem map_injective {f : σ → τ} (injective : Function.Injective f) : Function.Injective (Except.map f : Except ε σ → Except ε τ) := by
  intro r r' same
  cases r with
  | ok s =>
    cases r' with
    | ok s' => exact congrArg Except.ok (injective (Except.ok.inj same))
    | error fault' => cases same
  | error fault =>
    cases r' with
    | ok s' => cases same
    | error fault' => exact congrArg Except.error (Except.error.inj same)

/-- A state of the one kind, or a fault of the other. -/
inductive Settles (P : σ → Prop) (Q : ε → Prop) : Except ε σ → Prop
  | ok {s : σ} (state : P s) : Settles P Q (.ok s)
  | error {fault : ε} (cause : Q fault) : Settles P Q (.error fault)

theorem Settles.of_ends {P : σ → Prop} {r : Except ε σ} (ends : ∀ t, r = .ok t → P t) : Settles P (fun _ => True) r := by
  cases r with
  | ok t => exact .ok (ends t rfl)
  | error fault => exact .error trivial

theorem Settles.gives {P : σ → Prop} {r : Except ε σ} (settles : Settles P (fun _ => False) r) : ∃ t, r = .ok t ∧ P t := by
  cases settles with
  | ok state => exact ⟨_, rfl, state⟩
  | error never => exact never.elim

theorem Settles.mono {P P' : σ → Prop} {Q : ε → Prop} {r : Except ε σ} (settles : Settles P Q r) (weaker : ∀ s, P s → P' s) :
    Settles P' Q r := by
  cases settles with
  | ok state => exact .ok (weaker _ state)
  | error cause => exact .error cause

theorem Settles.bind {P : σ → Prop} {P' : τ → Prop} {Q : ε → Prop} {r : Except ε σ} {f : σ → Except ε τ}
    (first : Settles P Q r) (later : ∀ s, P s → Settles P' Q (f s)) : Settles P' Q (r >>= f) := by
  cases first with
  | ok state => exact later _ state
  | error cause => exact .error cause

/-- What holds of the processed part of a list and the state, if each round keeps it or fails in a known way. -/
theorem foldlM_settles {f : σ → α → Except ε σ} {l : List α} {P : List α → σ → Prop} {Q : ε → Prop}
    (round : ∀ seen a, seen ++ [a] <+: l → ∀ s, P seen s → Settles (P (seen ++ [a])) Q (f s a))
    {s : σ} (start : P [] s) : Settles (P l) Q (l.foldlM f s) := by
  have tail : ∀ rest seen s, seen ++ rest = l → P seen s → Settles (P l) Q (rest.foldlM f s) := by
    intro rest
    induction rest with
    | nil =>
      intro seen s whole here
      rw [List.append_nil] at whole
      exact .ok (whole ▸ here)
    | cons a rest ih =>
      intro seen s whole here
      have whole' : (seen ++ [a]) ++ rest = l := by rw [List.append_assoc]; exact whole
      rw [List.foldlM_cons]
      exact (round seen a ⟨rest, whole'⟩ s here).bind fun next after => ih _ next whole' after
  exact tail l [] s rfl start

theorem foldlM_ends {f : σ → α → Except ε σ} {l : List α} {P : List α → σ → Prop}
    (round : ∀ seen a, seen ++ [a] <+: l → ∀ s t, P seen s → f s a = .ok t → P (seen ++ [a]) t)
    {s t : σ} (start : P [] s) (done : l.foldlM f s = .ok t) : P l t := by
  have settles := foldlM_settles (Q := fun _ => True)
    (fun seen a here s before => .of_ends fun t one => round seen a here s t before one) start
  rw [done] at settles
  cases settles with
  | ok last => exact last

theorem foldlM_gives {f : σ → α → Except ε σ} {l : List α} {P : List α → σ → Prop}
    (round : ∀ seen a, seen ++ [a] <+: l → ∀ s, P seen s → ∃ t, f s a = .ok t ∧ P (seen ++ [a]) t)
    {s : σ} (start : P [] s) : ∃ t, l.foldlM f s = .ok t ∧ P l t := by
  refine (foldlM_settles (fun seen a here s before => ?_) start).gives
  obtain ⟨t, one, after⟩ := round seen a here s before
  exact one ▸ .ok after

theorem foldlM_ok {f : σ → α → Except ε σ} {l : List α} {P : σ → Prop}
    (round : ∀ seen a, seen ++ [a] <+: l → ∀ s, P s → ∃ t, f s a = .ok t ∧ P t) {s : σ}
    (start : P s) : ∃ t, l.foldlM f s = .ok t := by
  obtain ⟨t, done, _⟩ := foldlM_gives (P := fun _ s => P s) round start
  exact ⟨t, done⟩

theorem bind_never {r : Except ε α} {f : α → Except ε τ} {fault : ε} (first : r ≠ .error fault)
    (later : ∀ a, f a ≠ .error fault) : (r >>= f) ≠ .error fault := by
  cases r with
  | ok a => exact later a
  | error other => exact fun same => first (Except.error.inj same ▸ rfl)

theorem ok_never {a : α} {fault : ε} : (.ok a : Except ε α) ≠ .error fault := by
  intro same
  cases same

/-- The same fault, or states that are related. -/
inductive Alike {ρ : Type v} (R : σ → ρ → Prop) : Except ε σ → Except ε ρ → Prop
  | ok {s : σ} {t : ρ} (related : R s t) : Alike R (.ok s) (.ok t)
  | error (fault : ε) : Alike R (.error fault) (.error fault)

namespace Alike
variable {ρ π : Type v} {R : σ → ρ → Prop} {R' : τ → π → Prop}

theorem mono {W : σ → ρ → Prop} {r : Except ε σ} {r' : Except ε ρ} (alike : Alike R r r') (weaker : ∀ s t, R s t → W s t) :
    Alike W r r' := by
  cases alike with
  | ok related => exact .ok (weaker _ _ related)
  | error fault => exact .error fault

theorem bind {r : Except ε σ} {r' : Except ε ρ} {f : σ → Except ε τ} {f' : ρ → Except ε π} (first : Alike R r r')
    (later : ∀ s t, R s t → Alike R' (f s) (f' t)) : Alike R' (r >>= f) (r' >>= f') := by
  cases first with
  | ok related => exact later _ _ related
  | error fault => exact .error fault

theorem bind_same {r : Except ε σ} {f : σ → Except ε τ} {f' : σ → Except ε π} (later : ∀ s, Alike R' (f s) (f' s)) :
    Alike R' (r >>= f) (r >>= f') := by
  cases r with
  | ok s => exact later s
  | error fault => exact .error fault

theorem eq_of_map {r : Except ε σ} {r' : Except ε ρ} {f : σ → τ} {f' : ρ → τ} (alike : Alike R r r')
    (same : ∀ s t, R s t → f s = f' t) : r.map f = r'.map f' := by
  cases alike with
  | ok related => exact congrArg Except.ok (same _ _ related)
  | error fault => rfl

end Alike

theorem foldlM_alike {ρ : Type v} {f : σ → α → Except ε σ} {g : ρ → α → Except ε ρ} {l : List α} {R : List α → σ → ρ → Prop}
    (round : ∀ seen a, seen ++ [a] <+: l → ∀ s t, R seen s t → Alike (R (seen ++ [a])) (f s a) (g t a))
    {s : σ} {t : ρ} (start : R [] s t) : Alike (R l) (l.foldlM f s) (l.foldlM g t) := by
  have tail : ∀ rest seen s t, seen ++ rest = l → R seen s t → Alike (R l) (rest.foldlM f s) (rest.foldlM g t) := by
    intro rest
    induction rest with
    | nil =>
      intro seen s t whole here
      rw [List.append_nil] at whole
      exact .ok (whole ▸ here)
    | cons a rest ih =>
      intro seen s t whole here
      have whole' : (seen ++ [a]) ++ rest = l := by rw [List.append_assoc]; exact whole
      rw [List.foldlM_cons, List.foldlM_cons]
      exact (round seen a ⟨rest, whole'⟩ s t here).bind fun s' t' after => ih _ s' t' whole' after
  exact tail l [] s t rfl start

theorem foldlM_never {f : σ → α → Except ε σ} {l : List α} {fault : ε} (round : ∀ a ∈ l, ∀ s, f s a ≠ .error fault)
    (s : σ) : l.foldlM f s ≠ .error fault := by
  induction l generalizing s with
  | nil => nofun
  | cons a rest ih =>
    rw [List.foldlM_cons]
    exact bind_never (round a List.mem_cons_self s) (ih fun b member => round b (List.mem_cons_of_mem a member))

theorem foldlM_congr {f g : σ → α → Except ε σ} {l : List α} (same : ∀ a ∈ l, ∀ s, f s a = g s a) (s : σ) :
    l.foldlM f s = l.foldlM g s := by
  induction l generalizing s with
  | nil => rfl
  | cons a rest ih =>
    obtain ⟨first, others⟩ := List.forall_mem_cons.mp same
    rw [List.foldlM_cons, List.foldlM_cons, first]
    congr 1
    funext s
    exact ih others s

theorem foldlM_focus {f : σ → α → Except ε σ} {g : τ → α → Except ε τ} (put : σ → τ)
    (one : ∀ s a, g (put s) a = (f s a).map put) (l : List α) (s : σ) :
    l.foldlM g (put s) = (l.foldlM f s).map put := by
  induction l generalizing s with
  | nil => rfl
  | cons a l ih =>
    rw [List.foldlM_cons, List.foldlM_cons, one]
    cases f s a with
    | error e => rfl
    | ok t => exact ih t

theorem foldlM_perm {f : σ → α → Except ε σ} {l l' : List α} (perm : l.Perm l')
    (commute : ∀ a ∈ l, ∀ b ∈ l, ∀ s, (f s a >>= fun t => f t b) = (f s b >>= fun t => f t a)) (s : σ) :
    l.foldlM f s = l'.foldlM f s := by
  induction perm generalizing s with
  | nil => rfl
  | cons a _ ih =>
    have rest := ih fun b member c member' => commute b (List.mem_cons_of_mem a member) c (List.mem_cons_of_mem a member')
    rw [List.foldlM_cons, List.foldlM_cons]
    exact bind_congr rest
  | swap a b rest =>
    have exchange := commute b List.mem_cons_self a (List.mem_cons_of_mem b List.mem_cons_self) s
    simp only [List.foldlM_cons, ← bind_assoc]
    rw [exchange]
  | trans perm₁ _ ih₁ ih₂ =>
    exact (ih₁ commute s).trans
      (ih₂ (fun a member b member' => commute a (perm₁.mem_iff.mpr member) b (perm₁.mem_iff.mpr member')) s)

/-- The state where a loop stops, at its end or at the first error. -/
def keeping (f : σ → α → Except ε σ) : σ → List α → σ × Option ε
  | s, [] => (s, none)
  | s, a :: l =>
    match f s a with
    | .ok t => keeping f t l
    | .error e => (s, some e)

theorem keeping_ok {f : σ → α → Except ε σ} {l : List α} {s t : σ} :
    keeping f s l = (t, none) ↔ l.foldlM f s = .ok t := by
  induction l generalizing s with
  | nil => simp [keeping, pure, Except.pure]
  | cons a l ih =>
    rw [List.foldlM_cons, keeping]
    cases f s a with
    | error e => exact ⟨nofun, nofun⟩
    | ok t => exact ih

theorem keeping_split (f : σ → α → Except ε σ) (l : List α) (s : σ) :
    ∃ done rest, l = done ++ rest ∧ done.foldlM f s = .ok (keeping f s l).1 ∧
      ∀ e, (keeping f s l).2 = some e → ∃ a tail, rest = a :: tail ∧ f (keeping f s l).1 a = .error e := by
  induction l generalizing s with
  | nil => exact ⟨[], [], rfl, rfl, nofun⟩
  | cons a l ih =>
    rw [keeping]
    cases one : f s a with
    | error e =>
      refine ⟨[], a :: l, rfl, rfl, ?_⟩
      rintro e' ⟨⟩
      exact ⟨a, l, rfl, one⟩
    | ok t =>
      obtain ⟨done, rest, split, before, stop⟩ := ih t
      refine ⟨a :: done, rest, by rw [split, List.cons_append], ?_, stop⟩
      rw [List.foldlM_cons, one]
      exact before

theorem foldlM_error_iff {f : σ → α → Except ε σ} {l : List α} {s : σ} {e : ε} :
    l.foldlM f s = .error e ↔
      ∃ seen a rest t, l = seen ++ a :: rest ∧ seen.foldlM f s = .ok t ∧ f t a = .error e := by
  constructor
  · intro failed
    induction l generalizing s with
    | nil => cases failed
    | cons a l ih =>
      rw [List.foldlM_cons] at failed
      cases one : f s a with
      | error e' =>
        rw [one] at failed
        exact ⟨[], a, l, s, rfl, rfl, by rw [one]; exact failed⟩
      | ok t =>
        rw [one] at failed
        obtain ⟨seen, b, rest, u, split, before, stop⟩ := ih failed
        refine ⟨a :: seen, b, rest, u, by rw [split, List.cons_append], ?_, stop⟩
        rw [List.foldlM_cons, one]
        exact before
  · rintro ⟨seen, a, rest, t, rfl, before, stop⟩
    rw [List.foldlM_append, bind_of_ok before, List.foldlM_cons, bind_of_error stop]

theorem foldlM_flatMap {f : σ → τ → Except ε σ} (g : α → List τ) (l : List α) (s : σ) :
    (l.flatMap g).foldlM f s = l.foldlM (fun s a => (g a).foldlM f s) s := by
  induction l generalizing s with
  | nil => rfl
  | cons a l ih =>
    rw [List.flatMap_cons, List.foldlM_append, List.foldlM_cons]
    congr 1
    funext t
    exact ih t

theorem foldlM_range_iff {f : σ → Nat → Except ε σ} {P : Nat → Prop} (state : Nat → σ)
    (start : P 0) (back : ∀ i, P (i + 1) → P i)
    (round : ∀ i t, P i → (f (state i) i = .ok t ↔ P (i + 1) ∧ t = state (i + 1))) {n : Nat} {t : σ} :
    (List.range n).foldlM f (state 0) = .ok t ↔ P n ∧ t = state n := by
  induction n generalizing t with
  | zero =>
    constructor
    · intro done
      cases done
      exact ⟨start, rfl⟩
    · rintro ⟨_, rfl⟩
      rfl
  | succ n ih =>
    rw [List.range_succ, List.foldlM_append]
    constructor
    · intro done
      obtain ⟨s, first, last⟩ := ok_of_bind done
      obtain ⟨here, rfl⟩ := ih.mp first
      obtain ⟨u, one, same⟩ := ok_of_bind last
      cases same
      exact (round n _ here).mp one
    · rintro ⟨here, rfl⟩
      have before := back n here
      rw [bind_of_ok (ih.mpr ⟨before, rfl⟩), List.foldlM_cons,
        bind_of_ok ((round n _ before).mpr ⟨here, rfl⟩)]
      rfl

/-- A loop whose rounds replace the values of different keys, each from what it was at the start. -/
theorem foldlM_replaces {K : Type u} {V : Type v} [DecidableEq K] {f : σ → α → Except ε σ}
    {key : α → K} {state : (K → V) → σ} {before after : K → V} {l : List α} (distinct : (l.map key).Nodup)
    (round : ∀ a ∈ l, ∀ now, now (key a) = before (key a) →
      f (state now) a = .ok (state (Function.update now (key a) (after (key a)))))
    (still : ∀ k, (∀ a ∈ l, key a ≠ k) → after k = before k) :
    l.foldlM f (state before) = .ok (state after) := by
  induction l generalizing before with
  | nil =>
    rw [show after = before from funext fun k => still k nofun]
    rfl
  | cons a rest ih =>
    obtain ⟨apart, distinct⟩ := List.nodup_cons.mp distinct
    have other : ∀ b ∈ rest, key b ≠ key a := fun b member same => apart (List.mem_map.mpr ⟨b, member, same⟩)
    rw [List.foldlM_cons, bind_of_ok (round a List.mem_cons_self before rfl)]
    apply ih distinct
    · intro b member now value
      rw [Function.update_of_ne (other b member)] at value
      exact round b (List.mem_cons_of_mem _ member) now value
    · intro k absent
      by_cases same : k = key a
      · rw [same, Function.update_self]
      · rw [Function.update_of_ne same]
        apply still k
        intro b member
        rcases List.mem_cons.mp member with rfl | member
        · exact Ne.symm same
        · exact absent b member

theorem mapM_ends {f : α → Except ε τ} {l : List α} {l' : List τ} (done : l.mapM f = .ok l') :
    List.Forall₂ (fun a b => f a = .ok b) l l' := by
  induction l generalizing l' with
  | nil =>
    cases done
    exact .nil
  | cons a rest ih =>
    rw [List.mapM_cons] at done
    obtain ⟨b, one, done⟩ := ok_of_bind done
    obtain ⟨rest', others, done⟩ := ok_of_bind done
    cases done
    exact .cons one (ih others)

theorem mapM_replicate_ok {f : α → Except ε τ} {a : α} {n : Nat} {l : List τ} :
    (List.replicate n a).mapM f = .ok l ↔ l.length = n ∧ ∀ b ∈ l, f a = .ok b := by
  constructor
  · intro done
    have each := mapM_ends done
    refine ⟨by rw [← each.length_eq, List.length_replicate], ?_⟩
    intro b member
    obtain ⟨i, inside, rfl⟩ := List.mem_iff_getElem.mp member
    have one := each.get (by rw [each.length_eq]; exact inside) inside
    rwa [List.get_eq_getElem, List.getElem_replicate] at one
  · rintro ⟨rfl, each⟩
    induction l with
    | nil => rfl
    | cons b rest ih =>
      rw [List.forall_mem_cons] at each
      rw [List.length_cons, List.replicate_succ, List.mapM_cons, bind_of_ok each.1, bind_of_ok (ih each.2)]
      rfl

theorem mapM_gives {f : α → Except ε τ} {l : List α} (each : ∀ a ∈ l, ∃ b, f a = .ok b) :
    ∃ l', l.mapM f = .ok l' := by
  induction l with
  | nil => exact ⟨[], rfl⟩
  | cons a rest ih =>
    obtain ⟨b, one⟩ := each a List.mem_cons_self
    obtain ⟨rest', others⟩ := ih fun a member => each a (List.mem_cons_of_mem _ member)
    refine ⟨b :: rest', ?_⟩
    rw [List.mapM_cons, one, others]
    rfl

theorem mapM_pure {f : α → Except ε τ} {g : α → τ} {l : List α} (each : ∀ a ∈ l, f a = .ok (g a)) :
    l.mapM f = .ok (l.map g) := by
  induction l with
  | nil => rfl
  | cons a rest ih =>
    rw [List.mapM_cons, bind_of_ok (each a List.mem_cons_self),
      bind_of_ok (ih fun b member => each b (List.mem_cons_of_mem _ member))]
    rfl

theorem each_of_mapM {f : α → Except ε τ} {l : List α} {l' : List τ} (done : l.mapM f = .ok l') :
    ∀ a ∈ l, ∃ b ∈ l', f a = .ok b := by
  intro a member
  have pairs := mapM_ends done
  obtain ⟨i, bound, rfl⟩ := List.mem_iff_getElem.mp member
  have inside : i < l'.length := pairs.length_eq ▸ bound
  exact ⟨l'[i], List.getElem_mem inside, (List.forall₂_iff_get.mp pairs).2 i bound inside⟩

theorem mem_of_mapM {f : α → Except ε τ} {l : List α} {l' : List τ} (done : l.mapM f = .ok l') (b : τ) :
    b ∈ l' ↔ ∃ a ∈ l, f a = .ok b := by
  constructor
  · intro member
    have pairs := mapM_ends done
    obtain ⟨i, inside, rfl⟩ := List.mem_iff_getElem.mp member
    have bound : i < l.length := pairs.length_eq ▸ inside
    exact ⟨l[i], List.getElem_mem bound, (List.forall₂_iff_get.mp pairs).2 i bound inside⟩
  · intro ⟨a, member, one⟩
    obtain ⟨b', member', one'⟩ := each_of_mapM done a member
    rw [one] at one'
    cases one'
    exact member'

theorem mem_of_here {seen l : List α} {a : α} (here : seen ++ [a] <+: l) : a ∈ l :=
  here.subset (List.mem_append_right _ List.mem_cons_self)

theorem getElem?_of_prefix_zipIdx {l : List α} {seen : List (α × Nat)} {a : α × Nat}
    (here : seen ++ [a] <+: l.zipIdx) : a.2 = seen.length ∧ l[seen.length]? = some a.1 := by
  obtain ⟨rest, whole⟩ := here
  have at_seen : l.zipIdx[seen.length]? = some a := by
    rw [← whole, List.append_assoc, List.getElem?_append_right (Nat.le_refl _), Nat.sub_self]
    rfl
  rw [List.getElem?_zipIdx, Option.map_eq_some_iff] at at_seen
  obtain ⟨x, found, rfl⟩ := at_seen
  exact ⟨Nat.zero_add _, found⟩

theorem eq_length_of_prefix_range {n a : Nat} {seen : List Nat} (here : seen ++ [a] <+: List.range n) :
    a = seen.length ∧ a < n := by
  obtain ⟨rest, whole⟩ := here
  have found : (List.range n)[seen.length]? = some a := by
    rw [← whole, List.append_assoc, List.getElem?_append_right (Nat.le_refl _), Nat.sub_self]
    rfl
  obtain ⟨bound, value⟩ := List.getElem?_eq_some_iff.mp found
  rw [List.length_range] at bound
  rw [List.getElem_range] at value
  omega

/-- The values of a function at the first `n` numbers. -/
def vec {F : Type} (n : Nat) (f : Nat → F) : List F := (List.range n).map f

section Vectors
variable {F : Type} {n : Nat} {f : Nat → F}

@[simp] theorem vec_length : (vec n f).length = n := by rw [vec, List.length_map, List.length_range]

theorem vec_getElem? {k : Nat} (bound : k < n) : (vec n f)[k]? = some (f k) := by
  rw [vec, List.getElem?_map, List.getElem?_range bound]
  rfl

theorem vec_set (k : Nat) (x : F) : (vec n f).set k x = vec n (Function.update f k x) := by
  apply List.ext_getElem?
  intro i
  rcases Nat.lt_or_ge i n with bound | beyond
  · rw [vec_getElem? bound]
    rcases Nat.decEq i k with different | rfl
    · rw [List.getElem?_set_ne (Ne.symm different), vec_getElem? bound, Function.update_of_ne different]
    · rw [List.getElem?_set_self (by rwa [vec_length]), Function.update_self]
  · rw [List.getElem?_eq_none (by simpa using beyond), List.getElem?_eq_none (by simpa using beyond)]

theorem eq_vec {v : List F} (size : v.length = n) (values : ∀ k < n, v[k]? = some (f k)) : v = vec n f := by
  apply List.ext_getElem?
  intro i
  rcases Nat.lt_or_ge i n with bound | beyond
  · rw [vec_getElem? bound, values i bound]
  · rw [List.getElem?_eq_none (by omega), List.getElem?_eq_none (by simpa using beyond)]

theorem vec_congr {g : Nat → F} (same : ∀ k < n, f k = g k) : vec n f = vec n g :=
  List.map_congr_left fun k member => same k (List.mem_range.mp member)

theorem vec_inj {g : Nat → F} (same : vec n f = vec n g) : ∀ k < n, f k = g k := by
  intro k bound
  have entry := vec_getElem? (f := f) bound
  rw [same, vec_getElem? bound] at entry
  exact (Option.some.inj entry).symm

theorem vec_entry {u : Nat} {g : Nat → F} (same : f u = g u) : (vec n f)[u]? = (vec n g)[u]? := by
  rcases Nat.lt_or_ge u n with bound | beyond
  · rw [vec_getElem? bound, vec_getElem? bound, same]
  · rw [List.getElem?_eq_none (by simpa using beyond), List.getElem?_eq_none (by simpa using beyond)]

theorem foldlM_each {E : Type} {step : List F → Nat → Except E (List F)} {before after : Nat → F}
    (round : ∀ j < n, ∀ now : Nat → F, now j = before j →
      step (vec n now) j = .ok (vec n (Function.update now j (after j)))) :
    (List.range n).foldlM step (vec n before) = .ok (vec n after) := by
  let last (j : Nat) : F := if j < n then after j else before j
  have same : vec n after = vec n last := vec_congr fun j bound => (if_pos bound).symm
  rw [same]
  have distinct : ((List.range n).map id).Nodup := by simpa using List.nodup_range
  have replaced : ∀ j ∈ List.range n, ∀ now : Nat → F, now (id j) = before (id j) →
      step (vec n now) j = .ok (vec n (Function.update now (id j) (last (id j)))) := by
    intro j member now value
    have bound := List.mem_range.mp member
    rw [round j bound now value]
    simp [last, bound]
  have still : ∀ j, (∀ k ∈ List.range n, id k ≠ j) → last j = before j := by
    intro j absent
    refine if_neg fun bound => ?_
    exact absent j (List.mem_range.mpr bound) rfl
  exact foldlM_replaces distinct replaced still

/-- A function of which the first `j` values have moved. -/
def partway [Add F] (j : Nat) (f d : Nat → F) (k : Nat) : F := if k < j then f k + d k else f k

theorem partway_zero [Add F] (f d : Nat → F) : partway 0 f d = f := by
  funext k
  exact if_neg (Nat.not_lt_zero k)

theorem partway_here [Add F] (j : Nat) (f d : Nat → F) : partway j f d j = f j := if_neg (Nat.lt_irrefl j)

theorem partway_succ [Add F] (j : Nat) (f d : Nat → F) :
    Function.update (partway j f d) j (f j + d j) = partway (j + 1) f d := by
  funext k
  rcases Nat.decEq k j with different | rfl
  · rw [Function.update_of_ne different, partway, partway]
    simp only [show (k < j + 1) = (k < j) from propext ⟨fun h => by omega, fun h => by omega⟩]
  · rw [Function.update_self, partway, if_pos (Nat.lt_succ_self k)]

theorem vec_partway [Add F] (n : Nat) (f d : Nat → F) :
    vec n (partway n f d) = vec n fun k => f k + d k := by
  apply List.map_congr_left
  intro k member
  exact if_pos (List.mem_range.mp member)

end Vectors

section Sums
variable {K F : Type} [DecidableEq K] [Add F]

/-- The values given for one key, added in order. -/
def sumFor (start : F) (k : K) (l : List (K × F)) : F :=
  l.foldl (fun s e => if e.1 = k then s + e.2 else s) start

@[simp] theorem sumFor_nil (start : F) (k : K) : sumFor start k [] = start := rfl

theorem sumFor_append (start : F) (k : K) (l l' : List (K × F)) :
    sumFor start k (l ++ l') = sumFor (sumFor start k l) k l' := List.foldl_append

theorem sumFor_concat_self (start : F) (k : K) (l : List (K × F)) (x : F) :
    sumFor start k (l ++ [(k, x)]) = sumFor start k l + x := by
  rw [sumFor_append]
  exact if_pos rfl

theorem sumFor_concat_ne (start : F) {k k' : K} (different : k' ≠ k) (l : List (K × F)) (x : F) :
    sumFor start k (l ++ [(k', x)]) = sumFor start k l := by
  rw [sumFor_append]
  exact if_neg different

theorem sumFor_map {K' : Type} [DecidableEq K'] (start : F) (f : K → K') {k : K} {l : List (K × F)}
    (distinct : ∀ e ∈ l, f e.1 = f k → e.1 = k) :
    sumFor start (f k) (l.map fun e => (f e.1, e.2)) = sumFor start k l := by
  induction l generalizing start with
  | nil => rfl
  | cons e rest ih =>
    rw [List.forall_mem_cons] at distinct
    rw [List.map_cons, sumFor, List.foldl_cons, sumFor, List.foldl_cons]
    by_cases same : e.1 = k
    · rw [if_pos same, if_pos (congrArg f same)]
      exact ih _ distinct.2
    · rw [if_neg same, if_neg fun image => same (distinct.1 image)]
      exact ih _ distinct.2

theorem sumFor_of_absent (start : F) {k : K} {l : List (K × F)} (absent : ∀ e ∈ l, e.1 ≠ k) :
    sumFor start k l = start := by
  induction l generalizing start with
  | nil => rfl
  | cons e rest ih =>
    rw [sumFor, List.foldl_cons, if_neg (absent e List.mem_cons_self)]
    exact ih start fun e member => absent e (List.mem_cons_of_mem _ member)

end Sums
end Loops
