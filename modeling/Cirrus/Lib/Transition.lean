import Mathlib.Data.Fintype.Card
import Mathlib.Data.Fintype.EquivFin
import Mathlib.Algebra.BigOperators.Group.Finset.Basic

/-
Concurrent systems as labelled steps. A label says which thread moves and what
it meets, so a step is a partial function of the state and the label, and a
schedule is a list of labels. Nothing here mentions a particular system.
-/
namespace Transition
variable {S L : Type}

inductive Reachable (step : S → L → Option S) (start : S → Prop) (permitted : S → L → Prop) :
    S → Prop where
  | start {s : S} (initial : start s) : Reachable step start permitted s
  | step {s t : S} {l : L} (before : Reachable step start permitted s) (allowed : permitted s l)
      (taken : step s l = some t) : Reachable step start permitted t

def anyStep (_ : S) (_ : L) : Prop := True

theorem Reachable.invariant {step : S → L → Option S} {start : S → Prop}
    {permitted : S → L → Prop} {inv : S → Prop} (initially : ∀ s, start s → inv s)
    (kept : ∀ s l t, inv s → permitted s l → step s l = some t → inv t) {s : S}
    (reached : Reachable step start permitted s) : inv s := by
  induction reached with
  | start initial => exact initially _ initial
  | step before allowed taken ih => exact kept _ _ _ ih allowed taken

theorem Reachable.weaken {step : S → L → Option S} {start : S → Prop} {permitted permitted' : S → L → Prop}
    (allows : ∀ s l, permitted s l → permitted' s l) {s : S} (reached : Reachable step start permitted s) :
    Reachable step start permitted' s := by
  induction reached with
  | start initial => exact .start initial
  | step _ allowed taken ih => exact .step ih (allows _ _ allowed) taken

theorem Reachable.trans {step : S → L → Option S} {start : S → Prop} {permitted : S → L → Prop} {s t : S}
    (first : Reachable step start permitted s) (rest : Reachable step (· = s) permitted t) :
    Reachable step start permitted t := by
  induction rest with
  | start initial => exact initial ▸ first
  | step _ allowed taken ih => exact .step ih allowed taken

theorem history_concat {A : Type} {P : Nat → A → Prop} {history : List A} {a : A}
    (before : ∀ (k : Nat) b, history[k]? = some b → P k b) (last : P history.length a) (k : Nat) (b : A)
    (there : (history ++ [a])[k]? = some b) : P k b := by
  rcases Nat.lt_or_ge k history.length with early | late
  · rw [List.getElem?_append_left early] at there
    exact before k b there
  · rw [List.getElem?_append_right late] at there
    obtain ⟨inside, same⟩ := List.getElem?_eq_some_iff.mp there
    rw [List.length_singleton] at inside
    obtain rfl : k = history.length := by omega
    simp only [List.getElem_singleton] at same
    exact same ▸ last

def follow (step : S → L → Option S) : S → List L → Option S
  | s, [] => some s
  | s, l :: rest => (step s l).bind fun t => follow step t rest

@[simp] theorem follow_nil (step : S → L → Option S) (s : S) : follow step s [] = some s := rfl

theorem follow_cons {step : S → L → Option S} {s t : S} {l : L} (taken : step s l = some t)
    (rest : List L) : follow step s (l :: rest) = follow step t rest := by
  rw [follow, taken, Option.bind_some]

theorem follow_append (step : S → L → Option S) (s : S) (first rest : List L) :
    follow step s (first ++ rest) = (follow step s first).bind fun t => follow step t rest := by
  induction first generalizing s with
  | nil => rfl
  | cons l first ih =>
    rw [List.cons_append, follow, follow]
    cases step s l with
    | none => rfl
    | some t => exact ih t

theorem Reachable.follow_permitted {step : S → L → Option S} {start : S → Prop} {permitted : S → L → Prop}
    {s t : S} (reached : Reachable step start permitted s) {labels : List L}
    (always : ∀ l ∈ labels, ∀ s, permitted s l) (taken : Transition.follow step s labels = some t) :
    Reachable step start permitted t := by
  induction labels generalizing s with
  | nil =>
    obtain rfl : s = t := by simpa using taken
    exact reached
  | cons l rest ih =>
    obtain ⟨u, first, last⟩ := Option.bind_eq_some_iff.mp taken
    rw [List.forall_mem_cons] at always
    exact ih (.step reached (always.1 s) first) always.2 last

theorem Reachable.follow {step : S → L → Option S} {start : S → Prop} {s t : S}
    (reached : Reachable step start anyStep s) {labels : List L}
    (taken : Transition.follow step s labels = some t) : Reachable step start anyStep t :=
  reached.follow_permitted (fun _ _ _ => trivial) taken

theorem Reachable.schedule {step : S → L → Option S} {permitted : S → L → Prop} {s t : S}
    (reached : Reachable step (· = s) permitted t) : ∃ labels, Transition.follow step s labels = some t := by
  induction reached with
  | start initial => exact ⟨[], by rw [follow_nil, initial]⟩
  | step _ _ taken ih =>
    obtain ⟨labels, before⟩ := ih
    exact ⟨labels ++ [_], by rw [follow_append, before, Option.bind_some, follow_cons taken, follow_nil]⟩

/-- A goal that some permitted step comes closer to from wherever it is not met can be reached. -/
theorem Reachable.until {step : S → L → Option S} {goal known : S → Prop} {permitted : S → L → Prop} {W : Type} [LT W]
    [WellFoundedLT W] (measure : S → W)
    (closer : ∀ s, known s → ¬ goal s → ∃ l t, permitted s l ∧ step s l = some t ∧ known t ∧ measure t < measure s) {s : S}
    (here : known s) : ∃ t, Reachable step (· = s) permitted t ∧ goal t := by
  induction distance : measure s using WellFoundedLT.induction generalizing s with
  | ind w ih =>
    by_cases met : goal s
    · exact ⟨s, .start rfl, met⟩
    · obtain ⟨l, t, allowed, taken, known', less⟩ := closer s here met
      obtain ⟨u, later, met'⟩ := ih (measure t) (distance ▸ less) known' rfl
      exact ⟨u, .trans (.step (.start rfl) allowed taken) later, met'⟩

theorem follow_until {step : S → L → Option S} {goal known : S → Prop} {W : Type} [LT W] [WellFoundedLT W] (measure : S → W)
    (closer : ∀ s, known s → ¬ goal s → ∃ l t, step s l = some t ∧ known t ∧ measure t < measure s) {s : S}
    (here : known s) : ∃ labels t, Transition.follow step s labels = some t ∧ goal t := by
  have reach : ∃ t, Reachable step (· = s) anyStep t ∧ goal t := by
    refine Reachable.until measure (fun s known unmet => ?_) here
    obtain ⟨l, t, taken, closer⟩ := closer s known unmet
    exact ⟨l, t, trivial, taken, closer⟩
  obtain ⟨t, reached, met⟩ := reach
  obtain ⟨labels, taken⟩ := reached.schedule
  exact ⟨labels, t, taken, met⟩

/-- A measure that every step lowers pays for the steps of a run. -/
theorem follow_length {step : S → L → Option S} {known : S → Prop} (measure : S → Nat)
    (lowers : ∀ s l t, known s → step s l = some t → known t ∧ measure t < measure s) {s t : S} {labels : List L}
    (here : known s) (taken : follow step s labels = some t) : labels.length + measure t ≤ measure s := by
  induction labels generalizing s with
  | nil =>
    obtain rfl : s = t := by simpa using taken
    simp
  | cons l rest ih =>
    obtain ⟨u, first, last⟩ := Option.bind_eq_some_iff.mp taken
    obtain ⟨known', less⟩ := lowers s l u here first
    have later := ih known' last
    rw [List.length_cons]
    omega

/-- Where every step lowers a measure and only the goal has none, no run is longer than the measure, and each can go on
to the goal. -/
theorem follow_ends {step : S → L → Option S} {goal known : S → Prop} (measure : S → Nat)
    (lowers : ∀ s l t, known s → step s l = some t → known t ∧ measure t < measure s)
    (goes_on : ∀ s, known s → ¬ goal s → ∃ l, (step s l).isSome) {s : S} (here : known s) :
    (∀ labels t, follow step s labels = some t → labels.length ≤ measure s) ∧
    ∃ labels t, follow step s labels = some t ∧ goal t := by
  refine ⟨fun labels t taken => ?_, follow_until measure (fun s known unmet => ?_) here⟩
  · have paid := follow_length measure lowers here taken
    omega
  · obtain ⟨l, some_step⟩ := goes_on s known unmet
    obtain ⟨t, taken⟩ := Option.isSome_iff_exists.mp some_step
    exact ⟨l, t, taken, lowers s l t known taken⟩

def followIf (step : S → L → Option S) (permitted : S → L → Prop) [∀ s l, Decidable (permitted s l)] :
    S → List L → Option S
  | s, [] => some s
  | s, l :: rest => if permitted s l then (step s l).bind fun t => followIf step permitted t rest else none

theorem Reachable.followIf {step : S → L → Option S} {start : S → Prop} {permitted : S → L → Prop}
    [∀ s l, Decidable (permitted s l)] {s t : S} (reached : Reachable step start permitted s) {labels : List L}
    (taken : Transition.followIf step permitted s labels = some t) : Reachable step start permitted t := by
  induction labels generalizing s with
  | nil =>
    obtain rfl : s = t := by simpa [Transition.followIf] using taken
    exact reached
  | cons l rest ih =>
    unfold Transition.followIf at taken
    split at taken
    next allowed =>
      obtain ⟨u, first, last⟩ := Option.bind_eq_some_iff.mp taken
      exact ih (.step reached allowed first) last
    next => cases taken

section Recording
variable {H : Type} {step : S → L → Option S} {next : S → H → L → H}

/-- A machine with a history kept beside its state, which no step reads. -/
def recording (step : S → L → Option S) (next : S → H → L → H) (x : S × H) (l : L) : Option (S × H) :=
  (step x.1 l).map fun t => (t, next x.1 x.2 l)

theorem recording_taken {x y : S × H} {l : L} (taken : recording step next x l = some y) :
    step x.1 l = some y.1 ∧ y.2 = next x.1 x.2 l := by
  obtain ⟨t, moved, rfl⟩ := Option.map_eq_some_iff.mp taken
  exact ⟨moved, rfl⟩

theorem recording_of_step {s t : S} {l : L} (h : H) (taken : step s l = some t) :
    recording step next (s, h) l = some (t, next s h l) := by
  rw [recording, taken, Option.map_some]

theorem Reachable.recorded {start : S → Prop} (blank : H) {s : S} (reached : Reachable step start anyStep s) :
    ∃ h, Reachable (recording step next) (fun x => start x.1 ∧ x.2 = blank) anyStep (s, h) := by
  induction reached with
  | start initial => exact ⟨blank, .start ⟨initial, rfl⟩⟩
  | step _ _ taken ih =>
    obtain ⟨h, before⟩ := ih
    exact ⟨_, .step before trivial (recording_of_step h taken)⟩

end Recording

/-- An infinite run: what the threads do when none of them is waited for. -/
structure Behaviour (step : S → L → Option S) (start : S → Prop) where
  state : Nat → S
  label : Nat → L
  starts : start (state 0)
  follows : ∀ n, step (state n) (label n) = some (state (n + 1))

namespace Behaviour
variable {step : S → L → Option S} {start : S → Prop} (b : Behaviour step start)

theorem reachable (n : Nat) : Reachable step start anyStep (b.state n) := by
  induction n with
  | zero => exact .start b.starts
  | succ n ih => exact .step ih trivial (b.follows n)

theorem mono (measure : S → Nat) (grows : ∀ s l t, step s l = some t → measure s ≤ measure t)
    {n m : Nat} (le : n ≤ m) : measure (b.state n) ≤ measure (b.state m) := by
  induction le with
  | refl => exact Nat.le_refl _
  | step le ih => exact Nat.le_trans ih (grows _ _ _ (b.follows _))

/-- What a step can only exchange for something else holds until that something else does. -/
theorem until_other (p q : S → Prop)
    (kept : ∀ k, p (b.state k) → p (b.state (k + 1)) ∨ q (b.state (k + 1)))
    {n m : Nat} (le : n ≤ m) (here : p (b.state n)) :
    p (b.state m) ∨ ∃ k, n ≤ k ∧ q (b.state k) := by
  induction le with
  | refl => exact Or.inl here
  | @step m le ih =>
    rcases ih with still | other
    · rcases kept m still with still | other
      · exact Or.inl still
      · exact Or.inr ⟨m + 1, Nat.le_succ_of_le le, other⟩
    · exact Or.inr other

/-- A condition that all steps but the awaited one keep leads to what that one turns it into. -/
theorem leads_to (p q : S → Prop) (awaited : L → Prop)
    (kept : ∀ k, p (b.state k) → ¬ awaited (b.label k) →
      p (b.state (k + 1)) ∨ q (b.state (k + 1)))
    (fires : ∀ k, p (b.state k) → awaited (b.label k) → q (b.state (k + 1)))
    {n : Nat} (comes : ∃ m, n ≤ m ∧ awaited (b.label m)) (here : p (b.state n)) :
    ∃ k, n ≤ k ∧ q (b.state k) := by
  have exchanged : ∀ k, p (b.state k) → p (b.state (k + 1)) ∨ q (b.state (k + 1)) := by
    intro k now
    rcases Classical.em (awaited (b.label k)) with fire | quiet
    · exact Or.inr (fires k now fire)
    · exact kept k now quiet
  obtain ⟨m, le, now⟩ := comes
  rcases b.until_other p q exchanged le here with still | other
  · exact ⟨m + 1, Nat.le_succ_of_le le, fires m still now⟩
  · exact other

/-- A quantity that always grows further while it is below a bound reaches the bound. -/
theorem reaches (measure : S → Nat) {bound n : Nat}
    (grows : ∀ m, n ≤ m → measure (b.state m) < bound →
      ∃ k, m ≤ k ∧ measure (b.state m) < measure (b.state k)) :
    ∃ k, n ≤ k ∧ bound ≤ measure (b.state k) := by
  suffices ∀ missing m, n ≤ m → bound - measure (b.state m) = missing →
      ∃ k, m ≤ k ∧ bound ≤ measure (b.state k) from this _ n (Nat.le_refl n) rfl
  intro missing
  induction missing using Nat.strongRecOn with
  | ind missing ih =>
    intro m le gap
    rcases Nat.lt_or_ge (measure (b.state m)) bound with below | enough
    · obtain ⟨k, later, more⟩ := grows m le below
      obtain ⟨j, last, done⟩ := ih (bound - measure (b.state k)) (by omega) k (by omega) rfl
      exact ⟨j, by omega, done⟩
    · exact ⟨m, Nat.le_refl m, enough⟩

end Behaviour

theorem forall_update {I T : Type} [DecidableEq I] {P : T → Prop} {threads : I → T} {i : I} {t : T}
    (others : ∀ j, P (threads j)) (here : P t) (j : I) : P (Function.update threads i t j) := by
  by_cases same : j = i
  · rwa [same, Function.update_self]
  · rw [Function.update_of_ne same]
    exact others j

section Population
variable {I A : Type} [Fintype I] [DecidableEq A]

def population (a : A) (at_ : I → A) : Nat := (Finset.univ.filter fun i => at_ i = a).card

theorem population_update [DecidableEq I] (a : A) (at_ : I → A) (i : I) (b : A) :
    population a (Function.update at_ i b) + (if at_ i = a then 1 else 0) =
      population a at_ + (if b = a then 1 else 0) := by
  have rest : (Finset.univ.filter fun j => Function.update at_ i b j = a).erase i =
      (Finset.univ.filter fun j => at_ j = a).erase i := by
    ext j
    simp only [Finset.mem_erase, Finset.mem_filter, Finset.mem_univ, true_and]
    exact and_congr_right fun other => by rw [Function.update_of_ne other]
  have split : ∀ f : I → A, population a f =
      ((Finset.univ.filter fun j => f j = a).erase i).card + (if f i = a then 1 else 0) := by
    intro f
    split
    · rename_i here
      rw [Finset.card_erase_add_one (by simp [here]), population]
    · rename_i away
      rw [Finset.erase_eq_of_notMem (by simp [away]), population, Nat.add_zero]
  rw [split (Function.update at_ i b), split at_, rest, Function.update_self]
  omega

theorem population_pos {a : A} {at_ : I → A} (some_here : 0 < population a at_) :
    ∃ i, at_ i = a := by
  obtain ⟨i, member⟩ := Finset.card_pos.mp some_here
  exact ⟨i, by simpa using member⟩

theorem population_zero_of_forall_ne {a : A} {at_ : I → A} (away : ∀ i, at_ i ≠ a) :
    population a at_ = 0 := by
  simp [population, away]

theorem sum_moves {I T A : Type} [Fintype I] [DecidableEq I] [AddCommMonoid A] (f : T → A) (threads : I → T) (i : I) :
    ∃ others, (∑ j, f (threads j)) = f (threads i) + others ∧
      ∀ t, (∑ j, f (Function.update threads i t j)) = f t + others := by
  refine ⟨∑ j ∈ Finset.univ.erase i, f (threads j), (Finset.add_sum_erase _ _ (Finset.mem_univ i)).symm, ?_⟩
  intro t
  rw [← Finset.add_sum_erase _ _ (Finset.mem_univ i), Function.update_self]
  congr 1
  apply Finset.sum_congr rfl
  intro j member
  rw [Function.update_of_ne (Finset.ne_of_mem_erase member)]

end Population

end Transition
