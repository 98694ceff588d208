import Mathlib.Data.List.Basic

/-
Loops over the keys of an ordered container with an iterator, where the body may
change the container. An iterator to a key that has been erased cannot be
advanced. Nothing here mentions a particular container.
-/

/-- The keys of a container in its order, and what the body of a loop does at one of them. -/
structure Walk (S K : Type) where
  keys : S → List K
  before : K → K → Bool
  visit : S → K → S
  asymm : ∀ a b, before a b → ¬ before b a

namespace Walk
variable {S K : Type} [DecidableEq K] (w : Walk S K)

/-- The loop from an iterator on, with the keys visited; nothing where the iterator is not valid any more. -/
def walkFrom : Nat → S → Option K → Option (S × List K)
  | _, s, none => some (s, [])
  | 0, _, some _ => none
  | fuel + 1, s, some k =>
    let t := w.visit s k
    if k ∈ w.keys t then (walkFrom fuel t ((w.keys t).find? (w.before k))).map fun r => (r.1, k :: r.2) else none

def forEach (s : S) : Option (S × List K) := w.walkFrom (w.keys s).length s (w.keys s).head?

variable {w}

omit [DecidableEq K] in
theorem find_next {seen rest : List K} {k : K} (sorted : (seen ++ k :: rest).Pairwise fun a b => w.before a b) :
    (seen ++ k :: rest).find? (w.before k) = rest.head? := by
  obtain ⟨_, later, earlier⟩ := List.pairwise_append.mp sorted
  have skipped : seen.find? (w.before k) = none := by
    rw [List.find?_eq_none]
    intro a member
    exact w.asymm _ _ (earlier a member k List.mem_cons_self)
  have self : w.before k k = false := by
    cases same : w.before k k with
    | false => rfl
    | true => exact absurd same (w.asymm _ _ same)
  rw [List.find?_append, skipped, Option.none_or, List.find?_cons, self]
  cases rest with
  | nil => rfl
  | cons b rest =>
    have next : w.before k b := (List.pairwise_cons.mp later).1 b List.mem_cons_self
    rw [List.find?_cons, next]
    rfl

section Keys
variable {L : List K} {P : S → Prop}

omit [DecidableEq K] in
theorem valid_next {s : S} (keys : w.keys s = L) (sorted : L.Pairwise fun a b => w.before a b) {seen rest : List K}
    {k : K} (whole : seen ++ k :: rest = L) : k ∈ w.keys s ∧ (w.keys s).find? (w.before k) = rest.head? := by
  rw [keys, ← whole]
  exact ⟨by simp, find_next (whole ▸ sorted)⟩

theorem walkFrom_ends (order : ∀ s, P s → w.keys s = L) (sorted : L.Pairwise fun a b => w.before a b)
    {seen rest : List K} (whole : seen ++ rest = L) (kept : ∀ s, P s → ∀ k ∈ rest, P (w.visit s k)) {s : S}
    (here : P s) {fuel : Nat} (enough : rest.length ≤ fuel) :
    w.walkFrom fuel s rest.head? = some (rest.foldl w.visit s, rest) := by
  induction rest generalizing seen s fuel with
  | nil => cases fuel <;> rfl
  | cons k rest ih =>
    obtain ⟨fuel, rfl⟩ := Nat.exists_eq_add_of_le' enough
    have after := kept s here k List.mem_cons_self
    obtain ⟨member, next⟩ := valid_next (order _ after) sorted whole
    have others := ih (show (seen ++ [k]) ++ rest = L by simpa using whole)
      (fun s here k member => kept s here k (List.mem_cons_of_mem _ member)) after (Nat.le_add_left rest.length fuel)
    rw [List.head?_cons, List.length_cons, ← Nat.add_assoc, walkFrom]
    simp only [member, if_true, next]
    rw [others]
    rfl

/-- A body that erases the key it is at leaves the iterator behind. -/
theorem walkFrom_undefined {removed : K → Prop} (order : ∀ s, P s → w.keys s = L)
    (sorted : L.Pairwise fun a b => w.before a b) {seen rest : List K} (whole : seen ++ rest = L)
    (kept : ∀ s, P s → ∀ k ∈ rest, ¬ removed k → P (w.visit s k))
    (gone : ∀ s, P s → ∀ k ∈ rest, removed k → k ∉ w.keys (w.visit s k)) (some_removed : ∃ k ∈ rest, removed k) {s : S}
    (here : P s) (fuel : Nat) : w.walkFrom fuel s rest.head? = none := by
  induction rest generalizing seen s fuel with
  | nil => simp at some_removed
  | cons k rest ih =>
    cases fuel with
    | zero => rfl
    | succ fuel =>
      rw [List.head?_cons, walkFrom]
      by_cases first : removed k
      · rw [if_neg (gone s here k List.mem_cons_self first)]
      · have after := kept s here k List.mem_cons_self first
        obtain ⟨member, next⟩ := valid_next (order _ after) sorted whole
        have later : ∃ b ∈ rest, removed b := by
          obtain ⟨b, there, erased⟩ := some_removed
          rcases List.mem_cons.mp there with rfl | there
          · exact absurd erased first
          · exact ⟨b, there, erased⟩
        have others := ih (show (seen ++ [k]) ++ rest = L by simpa using whole)
          (fun s here b member => kept s here b (List.mem_cons_of_mem _ member))
          (fun s here b member => gone s here b (List.mem_cons_of_mem _ member)) later after fuel
        rw [if_pos member, next, others]
        rfl

theorem forEach_ends (order : ∀ s, P s → w.keys s = L) (sorted : L.Pairwise fun a b => w.before a b)
    (kept : ∀ s, P s → ∀ k ∈ L, P (w.visit s k)) {s : S} (here : P s) :
    w.forEach s = some (L.foldl w.visit s, L) := by
  rw [forEach, order s here]
  exact walkFrom_ends order sorted (List.nil_append L) kept here (Nat.le_refl _)

theorem forEach_undefined {removed : K → Prop} (order : ∀ s, P s → w.keys s = L)
    (sorted : L.Pairwise fun a b => w.before a b) (kept : ∀ s, P s → ∀ k ∈ L, ¬ removed k → P (w.visit s k))
    (gone : ∀ s, P s → ∀ k ∈ L, removed k → k ∉ w.keys (w.visit s k)) (some_removed : ∃ k ∈ L, removed k) {s : S}
    (here : P s) : w.forEach s = none := by
  rw [forEach, order s here]
  exact walkFrom_undefined order sorted (List.nil_append L) kept gone some_removed here _

end Keys

end Walk
