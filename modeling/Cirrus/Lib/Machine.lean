import Mathlib.Data.List.Basic

/- Deterministic reactive machines: a step takes an input to a new state and a reply.
   Nothing here mentions a particular machine. -/
namespace Machine
variable {S T A R : Type}

def exec (step : S → A → S × R) (s : S) (inputs : List A) : S :=
  inputs.foldl (fun s a => (step s a).1) s

/- The reply to the input at position `k`, in the state the first `k` inputs lead to. -/
def reply (step : S → A → S × R) (s : S) (inputs : List A) (k : Nat) : Option R :=
  inputs[k]?.map fun a => (step (exec step s (inputs.take k)) a).2

def replies (step : S → A → S × R) : S → List A → List (A × R)
  | _, [] => []
  | s, a :: rest => (a, (step s a).2) :: replies step (step s a).1 rest

variable (step : S → A → S × R)

@[simp] theorem exec_nil (s : S) : exec step s [] = s := rfl

@[simp] theorem exec_cons (s : S) (a : A) (inputs : List A) :
    exec step s (a :: inputs) = exec step (step s a).1 inputs := rfl

@[simp] theorem exec_snoc (s : S) (inputs : List A) (a : A) :
    exec step s (inputs ++ [a]) = (step (exec step s inputs) a).1 := by
  simp [exec]

theorem exec_take_succ (s : S) {inputs : List A} {k : Nat} {a : A} (here : inputs[k]? = some a) :
    exec step s (inputs.take (k + 1)) = (step (exec step s (inputs.take k)) a).1 := by
  rw [List.take_add_one, here]
  exact exec_snoc step s _ a

theorem reply_of_input (s : S) {inputs : List A} {k : Nat} {a : A} (here : inputs[k]? = some a) :
    reply step s inputs k = some (step (exec step s (inputs.take k)) a).2 := by
  simp [reply, here]

theorem exec_invariant (inv : S → Prop) (kept : ∀ s a, inv s → inv (step s a).1)
    (s : S) (start : inv s) (inputs : List A) : inv (exec step s inputs) := by
  induction inputs generalizing s with
  | nil => exact start
  | cons a rest ih => exact ih _ (kept s a start)

/- An invariant that only the inputs meeting a guard preserve. -/
def Guarded (guard : S → A → Prop) : S → List A → Prop
  | _, [] => True
  | s, a :: rest => guard s a ∧ Guarded guard (step s a).1 rest

theorem exec_guarded_invariant (inv : S → Prop) {guard : S → A → Prop}
    (kept : ∀ s a, inv s → guard s a → inv (step s a).1)
    (s : S) (start : inv s) (inputs : List A) (ok : Guarded step guard s inputs) :
    inv (exec step s inputs) := by
  induction inputs generalizing s with
  | nil => exact start
  | cons a rest ih => exact ih _ (kept s a start ok.1) ok.2

instance guardedDecidable (guard : S → A → Prop) [∀ s a, Decidable (guard s a)] (s : S) :
    (inputs : List A) → Decidable (Guarded step guard s inputs)
  | [] => .isTrue trivial
  | a :: rest => @instDecidableAnd _ _ _ (guardedDecidable guard (step s a).1 rest)

theorem guarded_take {guard : S → A → Prop} {s : S} {inputs : List A}
    (ok : Guarded step guard s inputs) (k : Nat) : Guarded step guard s (inputs.take k) := by
  induction inputs generalizing s k with
  | nil => simp [Guarded]
  | cons a rest ih =>
    cases k with
    | zero => trivial
    | succ k => exact ⟨ok.1, ih ok.2 k⟩

/- Two machines that give the same replies and keep their states in a relation. -/
def Lockstep (step : S → A → S × R) (step' : T → A → T × R) (agree : S → T → Prop) :
    S → T → List A → Prop
  | _, _, [] => True
  | s, t, a :: rest =>
    (step s a).2 = (step' t a).2 ∧ agree (step s a).1 (step' t a).1 ∧
      Lockstep step step' agree (step s a).1 (step' t a).1 rest

/- Where a guard says which single steps agree, it says which runs do. -/
theorem lockstep_iff {step : S → A → S × R} {step' : T → A → T × R} {agree : S → T → Prop}
    {domain guard : T → A → Prop}
    (one : ∀ s t a, agree s t → domain t a →
      ((step s a).2 = (step' t a).2 ∧ agree (step s a).1 (step' t a).1 ↔ guard t a))
    {s : S} {t : T} (start : agree s t) {inputs : List A} (proper : Guarded step' domain t inputs) :
    Lockstep step step' agree s t inputs ↔ Guarded step' guard t inputs := by
  induction inputs generalizing s t with
  | nil => simp [Lockstep, Guarded]
  | cons a rest ih =>
    have here := one s t a start proper.1
    constructor
    · rintro ⟨same, kept, later⟩
      exact ⟨here.mp ⟨same, kept⟩, (ih kept proper.2).mp later⟩
    · rintro ⟨ok, later⟩
      obtain ⟨same, kept⟩ := here.mpr ok
      exact ⟨same, kept, (ih kept proper.2).mpr later⟩

/- A view of the state that evolves on its own evolves along every run. -/
theorem exec_view (view : S → T) {own : T → A → T} (agree : ∀ s a, view (step s a).1 = own (view s) a)
    (s : S) (inputs : List A) : view (exec step s inputs) = inputs.foldl own (view s) := by
  induction inputs generalizing s with
  | nil => rfl
  | cons a rest ih => rw [exec_cons, ih, agree]; rfl

end Machine
